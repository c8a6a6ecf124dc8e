import FlakeWm.Box
import FlakeWm.Schemes.Run

/-! The session lock manager (`view/session_lock.c`) and the part of the output manager that drives
    it (`output_sync_committed_state`, `output_create`, `output_destroy` of `output/output.c`).

    A locker client creates a protocol lock; the manager covers every enabled output with a black
    tree, waits until each of them has presented a frame with it, and only then announces `locked`.
    When the client dies after that, the lock is kept as *abandoned* until a new locker replaces it.

        new_lock ──▶ locking ──(every output presented)──▶ locked ──unlock──▶ (no lock)
                        │ client dies                        │ client dies
                        ▼                                    ▼
                     (no lock)                           abandoned ──new_lock──▶ locking

    Allocation is taken to succeed, and the manager lives for the whole run. Scene trees are kept as
    the data the lock writes to them; seats, grabs and frame scheduling are left out. `trace` keeps,
    newest first, what the manager records, receives and sends: no handler reads it. -/

namespace FlakeWm.Lock

abbrev OutputId := ℕ
abbrev ProtocolLock := ℕ
abbrev Surface := ℕ

/-- An output, with the two fields of its `wlr_output` and `kywc_output` that the lock reads. -/
structure Output where
  enabled : Bool
  destroying : Bool
  geometry : Box
  commitSeq : UInt32
  deriving DecidableEq, Repr

/-- `struct session_lock_output`: the black tree of one output, with its background and surface. -/
structure LockOutput where
  output : OutputId
  x : ℤ
  y : ℤ
  treeEnabled : Bool
  width : ℤ
  height : ℤ
  surface : Option Surface
  previousCommitSeq : UInt32
  presented : Bool
  deriving DecidableEq, Repr

/-- `struct session_lock`. The protocol listeners are attached exactly while `protocolLock` is set. -/
structure SessionLock where
  protocolLock : Option ProtocolLock
  outputs : List LockOutput
  focused : Option Surface
  abandoned : Bool
  lockedSent : Bool
  destroying : Bool
  deriving DecidableEq, Repr

/-- What the manager records, receives and sends, as seen from outside. -/
inductive Note where
  | locked (p : ProtocolLock)
  | unlocked (p : ProtocolLock)
  | refused (p : ProtocolLock)
  | configure (surface : Surface) (width height : ℤ)
  | recorded (o : OutputId) (seq : UInt32)
  | present (o : OutputId) (seq : UInt32) (presented : Bool)
  | requestLocker (attempt : ℕ)
  deriving DecidableEq, Repr

/-- The lock manager with the outputs and surfaces it reads. -/
structure State where
  outputs : List OutputId
  output : OutputId → Output
  mapped : Surface → Bool
  lock : Option SessionLock
  timerArmed : Bool
  recoveryAttempts : ℕ
  trace : List Note

def LOCK_RECOVERY_MAX_ATTEMPTS : ℕ := 10

def sessionLockIsActive (s : State) : Bool := s.lock.isSome

/-! ### Lookups and focus -/

def lockOutputFromWlrOutput (lock : SessionLock) (o : OutputId) : Option LockOutput :=
  lock.outputs.find? (·.output = o)

def sessionLockGetFocusSurface (mapped : Surface → Bool) (lock : SessionLock) : Option Surface :=
  (lock.focused.filter mapped).orElse fun _ =>
    lock.outputs.findSome? fun lo => lo.surface.filter mapped

def focusSurface (lock : SessionLock) (surface : Option Surface) : SessionLock :=
  { lock with focused := surface }

def refocusSurface (mapped : Surface → Bool) (lock : SessionLock) (removed : Option Surface) :
    SessionLock :=
  if lock.focused ≠ removed then lock
  else
    let lock := { lock with focused := none }
    focusSurface lock (sessionLockGetFocusSurface mapped lock)

/-! ### The trees of one output -/

/-- Rewrites the lock outputs of `o`. -/
def SessionLock.onOutput (lock : SessionLock) (o : OutputId) (f : LockOutput → LockOutput) :
    SessionLock :=
  { lock with outputs := lock.outputs.map fun lo => if lo.output = o then f lo else lo }

def LockOutput.cover (g : Box) (lo : LockOutput) : LockOutput :=
  { lo with x := g.x, y := g.y, width := g.width, height := g.height }

/-- The size events that `lock_output_configure` sends to the surface on `o`, if there is one. -/
def configureNotes (lock : SessionLock) (o : OutputId) (g : Box) : List Note :=
  lock.outputs.filterMap fun lo =>
    if lo.output = o then lo.surface.map (Note.configure · g.width g.height) else none

def lockOutputConfigure (s : State) (o : OutputId) : State :=
  match s.lock with
  | none => s
  | some lock =>
    let g := (s.output o).geometry
    { s with
      lock := some (lock.onOutput o (LockOutput.cover g))
      trace := configureNotes lock o g ++ s.trace }

def sessionLockTrySendLocked (s : State) : State :=
  match s.lock with
  | none => s
  | some lock =>
    match lock.protocolLock with
    | none => s
    | some p =>
      if lock.destroying || lock.lockedSent then s
      else if lock.outputs.any fun lo => (s.output lo.output).enabled && !lo.presented then s
      else
        { s with
          lock := some { lock with lockedSent := true }
          trace := .locked p :: s.trace }

/-- A fresh tree on `o`; its surface, if any, comes later, so nothing is sent. -/
def lockOutputCreate (output : OutputId → Output) (lock : SessionLock) (o : OutputId) :
    SessionLock :=
  let out := output o
  let lo : LockOutput :=
    { output := o, x := 0, y := 0, treeEnabled := true, width := 0, height := 0,
      surface := none, previousCommitSeq := out.commitSeq, presented := false }
  { lock with
    outputs := { lo.cover out.geometry with treeEnabled := out.enabled } :: lock.outputs }

/-- The lock with a tree on `o`, created when `lock_output_from_wlr_output` finds none. -/
def withTree (output : OutputId → Output) (lock : SessionLock) (o : OutputId) : SessionLock :=
  match lockOutputFromWlrOutput lock o with
  | some _ => lock
  | none => lockOutputCreate output lock o

def lockOutputDestroy (s : State) (o : OutputId) : State :=
  match s.lock with
  | none => s
  | some lock =>
    let surface := (lockOutputFromWlrOutput lock o).bind (·.surface)
    let lock := lock.onOutput o fun lo => { lo with surface := none }
    let lock := refocusSurface s.mapped lock surface
    let lock := { lock with outputs := lock.outputs.filter fun lo => decide (lo.output ≠ o) }
    sessionLockTrySendLocked { s with lock := some lock }

/-! ### Handlers of output signals -/

def handleOutputGeometry (s : State) (o : OutputId) : State := lockOutputConfigure s o

def handleOutputPresent (s : State) (o : OutputId) (seq : UInt32) (presented : Bool) : State :=
  let s := { s with trace := .present o seq presented :: s.trace }
  match s.lock with
  | none => s
  | some lock =>
    match lockOutputFromWlrOutput lock o with
    | none => s
    | some lo =>
      if lo.presented || !(s.output o).enabled || seq = lo.previousCommitSeq || !presented then s
      else
        sessionLockTrySendLocked
          { s with lock := some (lock.onOutput o fun lo => { lo with presented := true }) }

def handleOutputDisable (s : State) (o : OutputId) : State :=
  match s.lock with
  | none => s
  | some lock =>
    match lockOutputFromWlrOutput lock o with
    | none => s
    | some _ =>
      if (s.output o).destroying then lockOutputDestroy s o
      else
        sessionLockTrySendLocked
          { s with lock := some (lock.onOutput o fun lo => { lo with treeEnabled := false }) }

/-- Handler of `new_enabled_output`. -/
def handleNewOutput (s : State) (o : OutputId) : State :=
  match s.lock with
  | none => s
  | some lock =>
    let out := s.output o
    let lock := (withTree s.output lock o).onOutput o fun lo =>
      { lo with presented := false, previousCommitSeq := out.commitSeq }
    let s := { s with lock := some lock, trace := .recorded o out.commitSeq :: s.trace }
    let s := lockOutputConfigure s o
    { s with lock := s.lock.map (·.onOutput o fun lo => { lo with treeEnabled := true }) }

/-! ### Handlers of the lock protocol -/

def sessionLockDestroy (s : State) : State :=
  match s.lock with
  | none => s
  | some lock =>
    let s := { s with lock := some { lock with destroying := true } }
    let s := lock.outputs.foldl (fun s lo => lockOutputDestroy s lo.output) s
    { s with lock := none }

def handleUnlock (s : State) (p : ProtocolLock) : State :=
  sessionLockDestroy { s with trace := .unlocked p :: s.trace }

def handleLockAbandoned (s : State) (lock : SessionLock) : State :=
  if !lock.lockedSent then sessionLockDestroy s
  else
    let lock := { lock with protocolLock := none, abandoned := true }
    { s with
      lock := some (focusSurface lock none)
      recoveryAttempts := 0
      timerArmed := true }

def stopLockRecovery (s : State) : State := { s with timerArmed := false, recoveryAttempts := 0 }

def handleLockRecoveryTimer (s : State) : State :=
  let s := { s with timerArmed := false }
  if s.lock.all fun lock => !lock.abandoned then { s with recoveryAttempts := 0 }
  else
    let n := s.recoveryAttempts + 1
    { s with
      recoveryAttempts := n
      timerArmed := decide (n < LOCK_RECOVERY_MAX_ATTEMPTS)
      trace := .requestLocker n :: s.trace }

/-- The outputs that `output_manager_for_each_output(.., true, ..)` visits. -/
def enabledOutputs (s : State) : List OutputId := s.outputs.filter fun o => (s.output o).enabled

/-- The lock of a new locker, with a tree on every enabled output. -/
def newSessionLock (s : State) (p : ProtocolLock) : SessionLock :=
  (enabledOutputs s).foldl (lockOutputCreate s.output)
    { protocolLock := some p, outputs := [], focused := none, abandoned := false,
      lockedSent := false, destroying := false }

def handleNewLock (s : State) (p : ProtocolLock) : State :=
  if s.lock.any fun lock => !lock.abandoned then { s with trace := .refused p :: s.trace }
  else
    let lock := newSessionLock s p
    let notes := (enabledOutputs s).reverse.map fun o => Note.recorded o (s.output o).commitSeq
    let s := { sessionLockDestroy s with lock := some lock }
    let s := stopLockRecovery { s with trace := notes ++ s.trace }
    sessionLockTrySendLocked { s with lock := some (focusSurface lock none) }

/-- `none` is the `abort()` on a second surface for one output. -/
def handleNewSurface (s : State) (lock : SessionLock) (surface : Surface) (o : OutputId) :
    Option State :=
  let notes := if (lockOutputFromWlrOutput lock o).isSome then []
    else [Note.recorded o (s.output o).commitSeq]
  let lock := withTree s.output lock o
  if lock.outputs.any fun lo => lo.output = o ∧ lo.surface.isSome then none
  else
    let lock := lock.onOutput o fun lo => { lo with surface := some surface }
    some (lockOutputConfigure { s with lock := some lock, trace := notes ++ s.trace } o)

def handleSurfaceMap (lock : SessionLock) (surface : Surface) : SessionLock :=
  if lock.focused.isNone then focusSurface lock (some surface) else lock

def handleSurfaceDestroy (mapped : Surface → Bool) (lock : SessionLock) (surface : Surface) :
    SessionLock :=
  let lock := { lock with
    outputs := lock.outputs.map fun lo =>
      if lo.surface = some surface then { lo with surface := none } else lo }
  refocusSurface mapped lock (some surface)

/-! ### The output manager -/

def State.setOutput (s : State) (o : OutputId) (out : Output) : State :=
  { s with output := Function.update s.output o out }

/-- An output after its committed state was read back; a disabled output keeps its geometry. -/
def Output.synced (old : Output) (enabled : Bool) (geo : Box) : Output :=
  { old with enabled := enabled, geometry := if enabled then geo else old.geometry }

/-- What `output_sync_committed_state` does to an initialized output, signals included. The geometry
    `geo` is the one computed from the committed state. -/
def outputSyncCommittedState (s : State) (o : OutputId) (enabled : Bool) (geo : Box) : State :=
  let old := s.output o
  let new := old.synced enabled geo
  let geometryChanged := new.geometry ≠ old.geometry
  let s := s.setOutput o new
  if enabled ≠ old.enabled ∧ !enabled then handleOutputDisable s o
  else
    let s := if enabled ≠ old.enabled then handleNewOutput s o else s
    if geometryChanged then handleOutputGeometry s o else s

/-- The end of `output_create`: the output is listed with its first state, then announced. -/
def outputCreate (s : State) (o : OutputId) (out : Output) : State :=
  let s := { s.setOutput o out with outputs := o :: s.outputs }
  if out.enabled then handleNewOutput s o else s

def outputDestroy (s : State) (o : OutputId) : State :=
  let s := s.setOutput o { s.output o with destroying := true }
  let s := handleOutputDisable s o
  { s with outputs := s.outputs.filter fun o' => decide (o' ≠ o) }

/-! ### Events -/

inductive Event where
  | newLock (p : ProtocolLock)
  | newSurface (p : ProtocolLock) (surface : Surface) (o : OutputId)
  | surfaceMap (surface : Surface)
  | surfaceUnmap (surface : Surface)
  | surfaceDestroy (surface : Surface)
  | unlock (p : ProtocolLock)
  | destroy (p : ProtocolLock)
  | recoveryTimer
  | commit (o : OutputId) (seq : UInt32)
  | present (o : OutputId) (seq : UInt32) (presented : Bool)
  | sync (o : OutputId) (enabled : Bool) (geo : Box)
  | create (o : OutputId) (out : Output)
  | outputDestroy (o : OutputId)
  deriving DecidableEq, Repr

/-- The current lock, when its listeners on the protocol lock `p` are attached. -/
def listening (s : State) (p : ProtocolLock) : Option SessionLock :=
  s.lock.filter fun lock => lock.protocolLock = some p

/-- One event. An event of a protocol lock nobody listens to changes nothing; `unlock` is offered
    only after `locked` was sent for that lock, which the protocol library guarantees. -/
def step (s : State) : Event → Option State
  | .newLock p => some (handleNewLock s p)
  | .newSurface p surface o =>
    match listening s p with
    | none => some s
    | some lock => if o ∈ s.outputs then handleNewSurface s lock surface o else none
  | .surfaceMap surface =>
    let s := { s with mapped := Function.update s.mapped surface true }
    some { s with
      lock := s.lock.map fun lock =>
        if lock.outputs.any (·.surface = some surface) then handleSurfaceMap lock surface else lock }
  | .surfaceUnmap surface => some { s with mapped := Function.update s.mapped surface false }
  | .surfaceDestroy surface =>
    let s := { s with mapped := Function.update s.mapped surface false }
    some { s with
      lock := s.lock.map fun lock =>
        if lock.outputs.any (·.surface = some surface) then
          handleSurfaceDestroy s.mapped lock surface
        else lock }
  | .unlock p =>
    match listening s p with
    | none => some s
    | some lock => if lock.lockedSent then some (handleUnlock s p) else none
  | .destroy p =>
    match listening s p with
    | none => some s
    | some lock => some (handleLockAbandoned s lock)
  | .recoveryTimer => if s.timerArmed then some (handleLockRecoveryTimer s) else none
  | .commit o seq =>
    if o ∈ s.outputs then some (s.setOutput o { s.output o with commitSeq := seq }) else none
  | .present o seq presented =>
    if o ∈ s.outputs then some (handleOutputPresent s o seq presented) else none
  | .sync o enabled geo =>
    if o ∈ s.outputs then some (outputSyncCommittedState s o enabled geo) else none
  | .create o out =>
    if o ∈ s.outputs ∨ out.destroying then none else some (outputCreate s o out)
  | .outputDestroy o => if o ∈ s.outputs then some (outputDestroy s o) else none

/-- No output, no lock. -/
def init : State :=
  { outputs := [], output := fun _ => ⟨false, false, ⟨0, 0, 0, 0⟩, 0⟩, mapped := fun _ => false,
    lock := none, timerArmed := false, recoveryAttempts := 0, trace := [] }

end FlakeWm.Lock
