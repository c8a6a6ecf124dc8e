import FlakeWm.Schemes.Run
import Mathlib.Logic.Function.Basic

/-! Writing to a client without waiting for it (`src/util/wayland.c`).

    A request hands over a file descriptor and data. What the descriptor does not take at once is left to
    a writer, which is freed when all is written, on an error, on a hangup, by a timer, with its resource
    or when the resource gets another one. What the system calls return is part of the events; a freed
    writer that is used sets `fault`. -/

namespace FlakeWm.Writers

/-- What one `write` returns. -/
inductive WriteOutcome where
  | wrote (n : ℕ)
  | intr
  | again
  | zero
  | error
  deriving DecidableEq, Repr

/-- Why a transfer ended. -/
inductive Ending where | complete | error | hangup | timeout | destroyed | replaced
  deriving DecidableEq, Repr

/-- A call of `wl_resource_write_owned_data`: what was handed over, and what became of it. -/
structure Request where
  resource : ℕ
  data : List UInt8
  written : List UInt8 := []
  closes : ℕ := 0
  frees : ℕ := 0
  ended : Option Ending := none

/-- The two event sources of a writer. -/
inductive Source where | writable | timer
  deriving DecidableEq, Repr

/-- `struct resource_writer`, which has the descriptor and the data of its request. -/
structure ResourceWriter where
  offset : ℕ := 0
  writable : Bool := false
  timer : Bool := false

def ResourceWriter.has (writer : ResourceWriter) : Source → Bool
  | .writable => writer.writable
  | .timer => writer.timer

/-- The requests in the order in which they came, their writers, what is registered in the event loop and
    the writers that listen to the destruction of a resource. -/
structure State where
  requests : ℕ → Request := fun _ => ⟨0, [], [], 0, 0, none⟩
  count : ℕ := 0
  writers : ℕ → Option ResourceWriter := fun _ => none
  sources : List (Source × ℕ) := []
  listeners : ℕ → List ℕ := fun _ => []
  destroyed : ℕ → Bool := fun _ => false
  fault : Bool := false

namespace State

variable (s : State)

def setRequest (w : ℕ) (request : Request) : State :=
  { s with requests := Function.update s.requests w request }

def setWriter (w : ℕ) (writer : Option ResourceWriter) : State :=
  { s with writers := Function.update s.writers w writer }

/-- `close(fd)` and `free(data)` of a request. -/
def close (w : ℕ) (why : Ending) : State :=
  let request := s.requests w
  s.setRequest w { request with closes := request.closes + 1, frees := request.frees + 1, ended := some why }

/-- `resource_writer_destroy`. -/
def resourceWriterDestroy (w : ℕ) (why : Ending) : State :=
  match s.writers w with
  | none => { s with fault := true }
  | some writer =>
    let s := { s with
      sources := s.sources.filter fun source => !(decide (source.2 = w) && writer.has source.1)
      listeners := fun r => (s.listeners r).filter fun w' => decide (w' ≠ w) }
    (s.close w why).setWriter w none

/-- How the loop in `resource_writer_flush` ends. -/
inductive LoopEnd where | complete | blocked | failed
  deriving DecidableEq, Repr

/-- The loop in `resource_writer_flush`, with the bytes on the descriptor; `none` when it goes on after the
    given outcomes or a `write` takes more than it was given. -/
def writeLoop (data : List UInt8) (offset : ℕ) (written : List UInt8) :
    List WriteOutcome → Option (ℕ × List UInt8 × LoopEnd)
  | [] => if offset < data.length then none else some (offset, written, .complete)
  | outcome :: outcomes =>
    if offset < data.length then
      match outcome with
      | .wrote n =>
        if 0 < n ∧ n ≤ data.length - offset then
          writeLoop data (offset + n) (written ++ (data.drop offset).take n) outcomes
        else none
      | .intr => writeLoop data offset written outcomes
      | .again => some (offset, written, .blocked)
      | .zero => some (offset, written, .failed)
      | .error => some (offset, written, .failed)
    else some (offset, written, .complete)

/-- `resource_writer_flush`; `hangup` says that the mask has `WL_EVENT_HANGUP` or `WL_EVENT_ERROR`. The
    result is true when the writer is to go on. -/
def resourceWriterFlush (w : ℕ) (hangup : Bool) (outcomes : List WriteOutcome) : Option (State × Bool) :=
  match s.writers w with
  | none => some ({ s with fault := true }, false)
  | some writer =>
    if hangup then some (s.resourceWriterDestroy w .hangup, false)
    else do
      let (offset, written, loopEnd) ← writeLoop (s.requests w).data writer.offset (s.requests w).written outcomes
      let s := (s.setRequest w { s.requests w with written := written }).setWriter w
        (some { writer with offset := offset })
      match loopEnd with
      | .blocked => some (s, true)
      | .complete => some (s.resourceWriterDestroy w .complete, false)
      | .failed => some (s.resourceWriterDestroy w .error, false)

/-- What happens during a request: whether `fcntl` and `calloc` succeed, what the first writes return, and
    whether the event sources are added and the timer is set. -/
structure Luck where
  fcntl : Bool
  alloc : Bool
  outcomes : List WriteOutcome
  addFd : Bool
  addTimer : Bool
  update : Bool

/-- The event sources of a writer are added and the timer is set. -/
def addSources (w : ℕ) (luck : Luck) : State :=
  match s.writers w with
  | none => { s with fault := true }
  | some writer =>
    let sources := (if luck.addFd then [(Source.writable, w)] else []) ++
      if luck.addTimer then [(.timer, w)] else []
    let s := State.setWriter { s with sources := s.sources ++ sources } w
      (some { writer with writable := luck.addFd, timer := luck.addTimer })
    if !luck.addFd || !luck.addTimer || !luck.update then s.resourceWriterDestroy w .error else s

/-- The previous writer of the resource is destroyed. -/
def replacePrevious (resource : ℕ) : State :=
  match (s.listeners resource).head? with
  | none => s
  | some previous => s.resourceWriterDestroy previous .replaced

/-- A request comes in. -/
def accept (resource : ℕ) (data : List UInt8) : State :=
  { s.setRequest s.count { resource := resource, data := data } with count := s.count + 1 }

/-- A writer is made for a request. -/
def create (w resource : ℕ) : State :=
  { s.setWriter w (some {}) with
    listeners := Function.update s.listeners resource (s.listeners resource ++ [w]) }

/-- `wl_resource_write_owned_data`; the number of the request is that of its writer. -/
def wlResourceWriteOwnedData (resource : ℕ) (data : List UInt8) (luck : Luck) : Option State :=
  let w := s.count
  let s := (s.replacePrevious resource).accept resource data
  if !luck.fcntl || !luck.alloc then some (s.close w .error)
  else do
    let (s, again) ← (s.create w resource).resourceWriterFlush w false luck.outcomes
    if again then some (s.addSources w luck) else some s

/-- `wl_resource_destroy`, which notifies the listeners. -/
def destroyResource (resource : ℕ) : State :=
  let s := (s.listeners resource).foldl (fun s w => s.resourceWriterDestroy w .destroyed) s
  { s with destroyed := Function.update s.destroyed resource true }

end State

inductive Event where
  | request (resource : ℕ) (data : List UInt8) (luck : State.Luck)
  | ready (w : ℕ) (hangup : Bool) (outcomes : List WriteOutcome)
  | timeout (w : ℕ)
  | destroy (resource : ℕ)

/-- An event; the event loop calls what is registered there, and a resource is used while it is there. -/
def step (s : State) : Event → Option State
  | .request resource data luck =>
    if s.destroyed resource then none else s.wlResourceWriteOwnedData resource data luck
  | .ready w hangup outcomes =>
    if (.writable, w) ∈ s.sources then (s.resourceWriterFlush w hangup outcomes).map Prod.fst else none
  | .timeout w => if (.timer, w) ∈ s.sources then some (s.resourceWriterDestroy w .timeout) else none
  | .destroy resource => if s.destroyed resource then none else some (s.destroyResource resource)

end FlakeWm.Writers
