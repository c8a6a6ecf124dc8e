import FlakeWm.Schemes.Run
import Mathlib.Algebra.Group.Nat.Defs

/-! Idle notifications (`src/input/idle.c`).

    An idle object has a record with a timer, and tells its client when the seat becomes idle and when it is
    used again. The record goes away with its seat, with the resource or on release; the resource may stay.
    While the manager is inhibited, the objects that support it are kept awake. -/

namespace FlakeWm.Idle

/-- `enum idle_type`. -/
inductive IdleType where | fromKdeIdle | fromIdleNotifier | fromServer
  deriving DecidableEq, Repr

/-- What the functions `idle_func` and `resume_func` of an object send. -/
inductive Notification where | idle | resumed
  deriving DecidableEq, Repr

/-- `struct idle`, with its resource and what was sent, the last first. The record is there until it is
    freed; `timer` is `NULL` or says whether it is armed. -/
structure Idle where
  type : IdleType
  timeoutMs : ℕ
  timer : Option Bool
  idleState : Bool := false
  supportInhibit : Bool
  seat : ℕ
  resource : Bool := true
  freed : Bool := false
  sent : List Notification := []
  deriving DecidableEq

namespace Idle

variable (idle : Idle)

/-- `idle_set_idle`. -/
def setIdle (idleState : Bool) : Idle :=
  if idle.idleState = idleState then idle
  else { idle with sent := (if idleState then .idle else .resumed) :: idle.sent, idleState := idleState }

/-- `wl_event_source_timer_update`, whose delay is an `int`; only a positive one arms the timer. -/
def timerUpdate (delay : ℕ) : Idle := { idle with timer := idle.timer.map fun _ => 0 < delay && delay < 2 ^ 31 }

/-- The timer starts again, or the object without a timer is idle at once. -/
def restart : Idle := if idle.timer.isSome then idle.timerUpdate idle.timeoutMs else idle.setIdle true

/-- `idle_reset_timer`. -/
def resetTimer (inhibited : Bool) : Idle :=
  if inhibited && idle.supportInhibit then (idle.setIdle false).timerUpdate 0 else idle.restart

/-- `idle_handle_timer`, for a timer that is armed. -/
def handleTimer : Idle := { idle with timer := some false }.setIdle true

/-- `idle_destroy`. -/
def destroy : Idle := { idle with freed := true, timer := none }

/-- `simulate_activity`, for a record that is there. -/
def simulateActivity : Idle :=
  (if idle.idleState then { idle with idleState := false, sent := .resumed :: idle.sent } else idle).restart

/-- What `idle_manager_notify_activity` does with an object. -/
def notifyActivity (inhibited : Bool) (seat : ℕ) : Idle :=
  if idle.supportInhibit && inhibited then idle
  else if idle.seat = seat then (idle.setIdle false).resetTimer inhibited
  else idle

end Idle

/-- The objects in the order in which they were created, with the manager. An access to a missing record
    sets `fault`. -/
structure State where
  idles : List Idle := []
  inhibited : Bool := false
  fault : Bool := false
  deriving DecidableEq

namespace State

variable (s : State)

/-- Something happens to the objects that have their record. -/
def each (f : Idle → Idle) : State := { s with idles := s.idles.map fun idle => if idle.freed then idle else f idle }

def modify (i : ℕ) (f : Idle → Idle) : State := { s with idles := s.idles.modify i f }

/-- `idle_create` and `idle_reset_timer`; without a seat or memory the resource has no record. -/
def create (type : IdleType) (seat : Option ℕ) (supportInhibit : Bool) (timeout : ℕ) (alloc : Bool) : State :=
  let idle : Idle :=
    { type := type
      timeoutMs := timeout
      timer := if 0 < timeout then some false else none
      supportInhibit := supportInhibit
      seat := seat.getD 0 }
  let idle := if seat.isSome && alloc then idle.resetTimer s.inhibited else idle.destroy
  { s with idles := s.idles ++ [idle] }

/-- `idle_manager_set_inhibited`. -/
def setInhibited (inhibited : Bool) : State :=
  if s.inhibited = inhibited then s
  else { s with inhibited := inhibited }.each fun idle =>
    if idle.supportInhibit then idle.resetTimer inhibited else idle

/-- `simulate_activity`, which does not look whether there is a record. -/
def simulateActivity (i : ℕ) (idle : Idle) : State :=
  if idle.freed then { s with fault := true } else s.modify i Idle.simulateActivity

end State

/-- Requests, the timers, user activity, the destruction of seats and resources, and inhibition. -/
inductive Event where
  | getIdleNotification (seat : Option ℕ) (timeout : ℕ) (alloc : Bool)
  | getInputIdleNotification (seat : Option ℕ) (timeout : ℕ) (alloc : Bool)
  | getIdleTimeout (seat : Option ℕ) (timeout : ℕ) (alloc : Bool)
  | addIdle (seat : ℕ) (supportInhibit : Bool) (timeout : ℕ) (alloc : Bool)
  | timer (i : ℕ)
  | activity (seat : ℕ)
  | simulate (i : ℕ)
  | release (i : ℕ)
  | destroyResource (i : ℕ)
  | seatDestroy (seat : ℕ)
  | setInhibited (inhibited : Bool)
  deriving DecidableEq

/-- What an event does; requests need the resource, and a timer fires when it is armed. -/
def step (s : State) : Event → Option State
  | .getIdleNotification seat timeout alloc => some (s.create .fromIdleNotifier seat true timeout alloc)
  | .getInputIdleNotification seat timeout alloc => some (s.create .fromIdleNotifier seat false timeout alloc)
  | .getIdleTimeout seat timeout alloc => some (s.create .fromKdeIdle seat true timeout alloc)
  | .addIdle seat support timeout alloc => some (s.create .fromServer (some seat) support timeout alloc)
  | .timer i => (s.idles[i]?.filter fun idle => idle.timer = some true).map fun _ => s.modify i Idle.handleTimer
  | .activity seat => some (s.each fun idle => idle.notifyActivity s.inhibited seat)
  | .simulate i =>
    (s.idles[i]?.filter fun idle => idle.type = .fromKdeIdle && idle.resource).map (s.simulateActivity i)
  | .release i =>
    (s.idles[i]?.filter fun idle => idle.type = .fromKdeIdle && idle.resource).map fun _ => s.modify i Idle.destroy
  | .destroyResource i =>
    (s.idles[i]?.filter fun idle => idle.type ≠ .fromServer && idle.resource).map fun _ =>
      s.modify i fun idle => { idle.destroy with resource := false }
  | .seatDestroy seat => some (s.each fun idle => if idle.seat = seat then idle.destroy else idle)
  | .setInhibited inhibited => some (s.setInhibited inhibited)

end FlakeWm.Idle
