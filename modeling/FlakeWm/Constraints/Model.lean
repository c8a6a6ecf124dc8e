import Mathlib.Data.Finset.Basic
import Mathlib.Data.Rat.Defs
import Mathlib.Algebra.Order.Field.Rat
import FlakeWm.Schemes.Run

/-! Pointer constraints of a seat (input/cursor.c, on top of wlr_pointer_constraints_v1).

    A client locks the pointer or confines it to a region of a surface. The constraint of the surface
    with the keyboard focus is pending until the cursor is in its region, and active from then on. A
    oneshot constraint is destroyed when it is deactivated. Idle callbacks run at the end of the event
    that adds them. Moving the cursor through the output layout and confining a motion to a region are
    functions of wlroots, given by `Pointing`. -/

namespace FlakeWm.Constraints

/-- A point of the layout or of a surface. -/
abbrev Point := ℚ × ℚ

/-- A region of a surface: the pixels of a `pixman_region32`. -/
abbrev Region := Finset (ℤ × ℤ)

/-- What is used of wlroots: the closest point of the layout (`wlr_cursor_warp_closest`), whether a
    point is in the layout (`wlr_cursor_warp`), and a motion confined to a region
    (`wlr_region_confine`). -/
structure Pointing where
  closest : Point → Point
  inLayout : Point → Bool
  confine : Region → Point → Point → Option Point

/-- A `wlr_pointer_constraint_v1` with its `cursor_constraint`. The last two fields count how often
    its listeners are linked. -/
structure Constraint where
  id : ℕ
  surface : ℕ
  locked : Bool
  oneshot : Bool
  region : Region
  hint : Option Point
  setRegion : ℕ
  surfaceUnmap : ℕ

/-- The cursor of a seat, which is `freed` with it, the constraints on the seat, the surface with the
    keyboard focus, and where the surfaces are in the scene. `sent` are the activated (`true`) and
    deactivated events, newest first; `fault` says that a handler read the freed cursor, and `slipped`
    that a motion of a pointer device moved the cursor under an active lock. -/
structure State where
  freed : Bool
  constraints : List Constraint
  active : Option ℕ
  pending : Option ℕ
  position : Point
  hidden : Bool
  focus : Option ℕ
  coords : ℕ → Option (ℤ × ℤ)
  deactivateIdle : List ℕ
  sent : List (ℕ × Bool)
  next : ℕ
  fault : Bool
  slipped : Bool

/-- The conversion of a `double` to an `int`. -/
def toInt (q : ℚ) : ℤ := q.num.tdiv q.den

namespace State

def find (s : State) (id : ℕ) : Option Constraint := s.constraints.find? (·.id = id)

def modify (s : State) (id : ℕ) (f : Constraint → Constraint) : State :=
  { s with constraints := s.constraints.map fun c => if c.id = id then f c else c }

/-- `cursor_constraint_warp_to_hint`. -/
def warpToHint (env : Pointing) (s : State) (c : Constraint) : State :=
  match c.hint, s.coords c.surface with
  | some (sx, sy), some (lx, ly) =>
    if env.inLayout (lx + sx, ly + sy) then { s with position := (lx + sx, ly + sy) } else s
  | _, _ => s

/-- `cursor_constraint_handle_destroy`. -/
def handleDestroy (env : Pointing) (s : State) (c : Constraint) : State :=
  let s := { s with
    constraints := s.constraints.filter fun c' => c'.id ≠ c.id
    deactivateIdle := s.deactivateIdle.filter (· ≠ c.id) }
  if s.freed then { s with fault := true }
  else if s.active = some c.id then { s.warpToHint env c with active := none }
  else if s.pending = some c.id then { s with pending := none }
  else s

/-- `wlr_pointer_constraint_v1_send_deactivated`. -/
def sendDeactivated (env : Pointing) (s : State) (c : Constraint) : State :=
  let s := { s with sent := (c.id, false) :: s.sent }
  if c.oneshot then s.handleDestroy env c else s

/-- The first half of `cursor_active_constraint`, which takes leave of the old constraint. -/
def leaveConstraint (env : Pointing) (s : State) (warp later : Bool) (c : Constraint) : State :=
  let s := s.modify c.id fun c => { c with setRegion := 0, surfaceUnmap := 0 }
  let s := if warp then s.warpToHint env c else s
  if later then { s with deactivateIdle := s.deactivateIdle ++ [c.id] } else s.sendDeactivated env c

/-- `cursor_active_constraint`. -/
def activeConstraint (env : Pointing) (s : State) (new : Option ℕ) (later : Bool) : State :=
  if s.active = new then s
  else
    let old := s.active.bind s.find
    let s := { s with active := new }
    let s := old.elim s (s.leaveConstraint env new.isNone later)
    match new with
    | none => s
    | some id =>
      { s with pending := none, sent := (id, true) :: s.sent }.modify id fun c =>
        { c with surfaceUnmap := c.surfaceUnmap + 1 }

/-- `cursor_constraint_check_region`. -/
def checkRegion (s : State) (c : Constraint) : Bool :=
  match s.coords c.surface with
  | none => false
  | some (lx, ly) =>
    decide ((toInt (s.position.1 - lx), toInt (s.position.2 - ly)) ∈ c.region)

/-- The last part of `cursor_set_constraint`, for a constraint that becomes pending. -/
def pendConstraint (env : Pointing) (s : State) (c : Constraint) : State :=
  let s := if c.locked then s else s.modify c.id fun c => { c with setRegion := c.setRegion + 1 }
  if s.checkRegion c then s.activeConstraint env (some c.id) false else s

/-- `cursor_set_constraint`, once no other constraint is active. -/
def replacePending (env : Pointing) (s : State) (new : Option Constraint) : State :=
  if s.pending = new.map Constraint.id then s
  else
    let s := s.pending.elim s fun p => s.modify p fun c => { c with setRegion := 0 }
    let s := { s with pending := new.map Constraint.id }
    new.elim s (s.pendConstraint env)

/-- `cursor_set_constraint`. -/
def setConstraint (env : Pointing) (s : State) (new : Option Constraint) : State :=
  if s.active.isSome then
    if s.active = new.map Constraint.id then s
    else (s.activeConstraint env none false).replacePending env new
  else s.replacePending env new

/-- `cursor_constraint_update_region`. -/
def updateRegion (env : Pointing) (s : State) (c : Constraint) : State :=
  let inRegion := s.checkRegion c
  if s.pending = some c.id ∧ inRegion then s.activeConstraint env (some c.id) false
  else if s.active = some c.id ∧ !inRegion then
    let s := s.activeConstraint env none c.oneshot
    if c.oneshot then s else s.setConstraint env (s.find c.id)
  else s

/-- The idle callbacks `cursor_constraint_deactivate`. -/
def runIdle (env : Pointing) (s : State) : State :=
  s.deactivateIdle.foldl (fun s id =>
    ({ s with deactivateIdle := s.deactivateIdle.filter (· ≠ id) }.find id).elim s
      ({ s with deactivateIdle := s.deactivateIdle.filter (· ≠ id) }.sendDeactivated env)) s

/-- `wlr_pointer_constraints_v1_constraint_for_surface`. -/
def constraintFor (s : State) (surface : Option ℕ) : Option Constraint :=
  s.constraints.find? fun c => some c.surface = surface

/-- The point a motion by `d` leads to. -/
def move (env : Pointing) (s : State) (d : Point) : State :=
  { s with position := env.closest (s.position.1 + d.1, s.position.2 + d.2) }

/-- `cursor_set_hidden` to visible, with the nudge of `cursor_rebase`. -/
def unhide (env : Pointing) (s : State) : State :=
  if s.hidden then { s with hidden := false }.move env (1 / 100, 1 / 100) else s

/-- An active constraint that locks the pointer. -/
def lockActive (s : State) : Bool := (s.active.bind s.find).any (·.locked)

/-- `cursor_apply_constraint` for a pointer device: the motion that is left, or none if the pointer
    is locked. -/
def applyConstraint (env : Pointing) (s : State) (d : Point) : State × Option Point :=
  match (s.active.or s.pending).bind s.find with
  | none => (s, some d)
  | some c =>
    if s.lockActive then (s, none)
    else
      match s.coords c.surface with
      | none => (s, some d)
      | some (lx, ly) =>
        let p : Point := (s.position.1 - lx, s.position.2 - ly)
        match env.confine c.region p (p.1 + d.1, p.2 + d.2) with
        | none => (s, some d)
        | some q =>
          let s := if s.pending = some c.id then s.activeConstraint env (some c.id) false else s
          if s.active.isNone then (s, some d)
          else if s.lockActive then (s, none)
          else (s, some (q.1 - p.1, q.2 - p.2))

/-- `cursor_handle_motion` of a pointer device. -/
def motion (env : Pointing) (s : State) (d : Point) : State :=
  match (s.unhide env).applyConstraint env d with
  | (s, none) => s
  | (s, some d) => s.move env d

end State

inductive Event
  /-- a client asks for a constraint; without a region it starts with the empty one -/
  | create (surface : ℕ) (locked oneshot : Bool) (region : Region)
  /-- the client destroys its constraint -/
  | destroy (id : ℕ)
  | surfaceDestroy (surface : ℕ)
  /-- `seat_focus_surface` -/
  | focus (surface : Option ℕ)
  /-- a commit of the surface, with the region and the hint of its constraint and its place in the
      scene from then on -/
  | commit (surface : ℕ) (region : Region) (hint : Option Point) (coords : Option (ℤ × ℤ))
  /-- the surface moves in the scene, or has no buffer there -/
  | place (surface : ℕ) (coords : Option (ℤ × ℤ))
  | unmap (surface : ℕ)
  /-- a pointer device moves -/
  | motion (d : Point)
  /-- a button of a pointer device -/
  | button
  /-- a touch point, which hides the cursor and moves it -/
  | touchDown (p : Point)
  /-- the cursor is moved by something other than a pointer device -/
  | warp (p : Point)
  | seatDestroy

/-- The constraint of a surface, if it listens for the unmapping. -/
def State.unmapListener (s : State) (surface : ℕ) : Bool :=
  s.constraints.any fun c => c.surface = surface && c.surfaceUnmap ≠ 0

/-- One event, with the idle callbacks it adds. -/
def step (env : Pointing) (s : State) (ev : Event) : Option State :=
  if s.freed then none
  else
    match ev with
    | .create surface locked oneshot region =>
      if (s.constraintFor (some surface)).isSome then some s
      else
        let c : Constraint := ⟨s.next, surface, locked, oneshot, region, none, 0, 0⟩
        let s := { s with constraints := c :: s.constraints, next := s.next + 1 }
        some (if s.focus = some surface then s.setConstraint env (some c) else s)
    | .destroy id => (s.find id).map (s.handleDestroy env)
    | .surfaceDestroy surface =>
      let s := (s.constraints.filter (·.surface = surface)).foldl (State.handleDestroy env) s
      some { s with focus := if s.focus = some surface then none else s.focus }
    | .focus surface =>
      let s := { s with focus := surface }
      some (s.setConstraint env (s.constraintFor surface))
    | .commit surface region hint coords =>
      let s := { s with coords := Function.update s.coords surface coords }
      match s.constraintFor (some surface) with
      | none => some s
      | some c =>
        let s := s.modify c.id fun c => { c with region := region, hint := hint }
        let c' : Constraint := { c with region := region, hint := hint }
        some (if region ≠ c.region ∧ c.setRegion ≠ 0 then (s.updateRegion env c').runIdle env else s)
    | .place surface coords => some { s with coords := Function.update s.coords surface coords }
    | .unmap surface => some (if s.unmapListener surface then s.activeConstraint env none false else s)
    | .motion d =>
      let s' := s.motion env d
      some { s' with slipped := s'.slipped || (s.lockActive && decide (s'.position ≠ s.position)) }
    | .button => some (s.unhide env)
    | .touchDown p => some { s with hidden := true, position := p }
    | .warp p => some { s with position := p }
    | .seatDestroy =>
      let s := { s with freed := true, active := none, pending := none }
      some (s.constraints.foldl (State.handleDestroy env) s)

/-- A new seat. -/
def start (position : Point) : State where
  freed := false
  constraints := []
  active := none
  pending := none
  position := position
  hidden := true
  focus := none
  coords _ := none
  deactivateIdle := []
  sent := []
  next := 0
  fault := false
  slipped := false

/-- Whether the last event sent to the constraint was an activation. -/
def lastSent (sent : List (ℕ × Bool)) (id : ℕ) : Bool := (sent.find? (·.1 = id)).elim false (·.2)

/-- For each constraint the activated and deactivated events alternate, starting with activated. -/
def Alternates : List (ℕ × Bool) → Prop
  | [] => True
  | (id, b) :: sent => lastSent sent id = !b ∧ Alternates sent

/-- The constraints are consistent. -/
structure Consistent (s : State) : Prop where
  exclusive : s.active = none ∨ s.pending = none
  activeLive : ∀ id, s.active = some id → ∃ c ∈ s.constraints, c.id = id
  pendingLive : ∀ id, s.pending = some id → ∃ c ∈ s.constraints, c.id = id
  setRegion : ∀ c ∈ s.constraints, c.locked = false →
    c.setRegion = if s.active = some c.id ∨ s.pending = some c.id then 1 else 0
  surfaceUnmap : ∀ c ∈ s.constraints, c.surfaceUnmap = if s.active = some c.id then 1 else 0
  alternates : Alternates s.sent
  focused : ∀ c ∈ s.constraints, s.active = some c.id → s.focus = some c.surface
  safe : s.fault = false
  still : s.slipped = false

/-- The seat goes after its constraints, and no pointer device brings back a hidden cursor under an
    active lock. -/
def orderly (s : State) : Event → Bool
  | .seatDestroy => s.constraints.isEmpty
  | .motion _ => !(s.hidden && s.lockActive)
  | _ => true

end FlakeWm.Constraints
