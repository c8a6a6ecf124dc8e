import FlakeWm.Box
import FlakeWm.Outputs.Sorting
import FlakeWm.Schemes.Run
import Mathlib.Data.Rat.Floor

/-! The output manager (`src/output/output.c`, `config.c`, `wlr_output.c`, `kde_output.c`).

    Outputs come and go, are configured by clients and over D-Bus, and are switched off to save power. While no actual
    output is enabled the fallback, a headless output, stands in for them. What the backend does with a state is a part
    of the event; a headless output takes every state. The layout manager is off, which is the default. Brightness,
    colours, signals and what listens to them are left out. -/

namespace FlakeWm.OutputManager

/-- `struct kywc_output_mode`. -/
structure Mode where
  width : ℤ
  height : ℤ
  refresh : ℤ
  preferred : Bool

/-- `struct kywc_output_state`. -/
structure OutputState where
  enabled : Bool
  power : Bool
  width : ℤ
  height : ℤ
  refresh : ℤ
  transform : ℤ
  scale : ℚ
  lx : ℤ
  ly : ℤ
  vrrPolicy : ℕ
  deriving DecidableEq

/-- `struct output`, with the place of its geometry, and its pending state while that waits for a page flip. -/
structure Output where
  id : ℕ
  isVirtual : Bool
  isFbdev : Bool
  modes : List Mode
  /-- `kywc_output_preferred_scale` of a width and a height -/
  preferredScale : ℤ → ℤ → ℚ
  state : OutputState
  geometry : Box
  initialized : Bool
  pendingState : Option OutputState

/-- What the backend does with a state: whether it is taken, the mode that it ends up with, where the layout puts the
output if it may choose, and whether a page flip is still under way. -/
structure Commit where
  ok : Bool
  width : ℤ
  height : ℤ
  refresh : ℤ
  autoX : ℤ
  autoY : ℤ
  busy : Bool

/-- The answers of the backend to the states of outputs, while one event is handled. -/
abbrev Backend := ℕ → OutputState → Commit

/-! ### One output -/

/-- `output_mode_changed`. -/
def outputModeChanged (current state : OutputState) : Bool :=
  decide (current.width ≠ state.width ∨ current.height ≠ state.height ∨ current.refresh ≠ state.refresh)

/-- `output_compare_state`. -/
def outputCompareState (current state : OutputState) : Bool :=
  decide (current.enabled ≠ state.enabled) || decide (current.power ≠ state.power) || outputModeChanged current state ||
    decide (current.transform ≠ state.transform) || decide (current.vrrPolicy ≠ state.vrrPolicy) ||
    decide (current.scale ≠ state.scale)

/-- A quotient converted to an `int`. -/
def truncate (q : ℚ) : ℤ := if 0 ≤ q then ⌊q⌋ else ⌈q⌉

/-- `output_update_geometry`. -/
def OutputState.geometry (s : OutputState) : Box :=
  let size := if s.transform % 2 = 0 then (s.width, s.height) else (s.height, s.width)
  ⟨s.lx, s.ly, truncate (size.1 / s.scale), truncate (size.2 / s.scale)⟩

/-- What `output_get_state` reads after `output_set_state` has committed a state, or has had nothing to commit. -/
def committedState (commit : Commit) (current state : OutputState) (changed : Bool) : OutputState :=
  let enabled := state.enabled && state.power
  let modeset := changed && enabled && outputModeChanged current state
  { enabled := state.enabled
    power := if changed then enabled else current.power
    width := if modeset then commit.width else current.width
    height := if modeset then commit.height else current.height
    refresh := if modeset then commit.refresh else current.refresh
    transform := if changed && enabled then state.transform else current.transform
    scale := if changed && enabled then state.scale else current.scale
    lx := if !state.enabled then -1 else if state.lx = -1 ∨ state.ly = -1 then commit.autoX else state.lx
    ly := if !state.enabled then -1 else if state.lx = -1 ∨ state.ly = -1 then commit.autoY else state.ly
    vrrPolicy := state.vrrPolicy }

/-- `output_set_state`, and the reading of the new state; `none` when the commit fails. -/
def Output.setState (commit : Commit) (state : OutputState) (o : Output) : Option Output :=
  let changed := !o.initialized || outputCompareState o.state state
  if changed && (state.enabled && state.power) && !outputModeChanged o.state state && o.state.power && !o.isVirtual &&
      commit.busy && o.initialized then
    -- the commit has to wait for the page flip
    some { o with pendingState := some state, state := { o.state with enabled := state.enabled } }
  else if changed && !commit.ok && !o.isVirtual then none
  else
    let state' := committedState commit o.state state changed
    some { o with state := state', geometry := if state'.enabled then state'.geometry else o.geometry }

/-- The state or the geometry of an output has changed so that the outputs are sorted again. -/
def Output.moved (o o' : Output) : Bool :=
  decide (o'.geometry ≠ o.geometry) || decide (o'.state.width ≠ o.state.width) ||
    decide (o'.state.height ≠ o.state.height) || decide (o'.state.transform ≠ o.state.transform) ||
    decide (o'.state.scale ≠ o.state.scale) || decide (o'.state.lx ≠ o.state.lx) || decide (o'.state.ly ≠ o.state.ly)

/-- `kywc_output_preferred_mode`: without a preferred mode the last one of the list. -/
def Output.preferredMode (o : Output) : Mode :=
  (o.modes.find? fun m => m.preferred).getD (o.modes.getLast?.getD ⟨0, 0, 0, false⟩)

/-! ### The manager -/

/-- `output_manager_sort_outputs`. -/
def sortOutputs (outputs : List Output) : List Output :=
  (Outputs.outputManagerSortOutputs (outputs.map fun o =>
    ⟨o.id, Int32.ofInt o.geometry.x, Int32.ofInt o.geometry.y⟩)).filterMap fun key =>
      outputs.find? fun o => decide (o.id = key.id)

/-- `struct output_manager`; the newest pending configuration is the first one. -/
structure State where
  outputs : List Output := []
  nextId : ℕ := 0
  fallback : Option ℕ := none
  primary : Option ℕ := none
  pendingPrimary : Option ℕ := none
  outputConfigs : List (ℕ × OutputState) := []

namespace State

variable (s : State)

def find (id : ℕ) : Option Output := s.outputs.find? fun o => decide (o.id = id)

/-- `get_output_pending_config`. -/
def config (id : ℕ) : Option OutputState := (s.outputConfigs.find? fun c => decide (c.1 = id)).map Prod.snd

/-- `output_manager_has_actual_outputs`. -/
def hasActualOutputs : Bool := s.outputs.any fun o => decide (s.fallback ≠ some o.id)

/-- `output_manager_has_enabled_outputs`. -/
def hasEnabledOutputs : Bool := s.outputs.any fun o => decide (s.fallback ≠ some o.id) && o.state.enabled

/-- `output_manager_add_output_pending_state`. -/
def addPendingState (id : ℕ) (state : OutputState) : State :=
  if (s.config id).isSome then
    { s with outputConfigs := s.outputConfigs.map fun c => if c.1 = id then (id, state) else c }
  else { s with outputConfigs := (id, state) :: s.outputConfigs }

/-- `kywc_output_set_state`; `none` when it returns false. -/
def setState (backend : Backend) (id : ℕ) (state : OutputState) : Option State :=
  match s.find id with
  | none => some s
  | some o =>
    (o.setState (backend id state) state).map fun o' =>
      let outputs := s.outputs.map fun p => if p.id = id then o' else p
      { s with outputs := if o.moved o' then sortOutputs outputs else outputs }

/-- `fallback_output_set_state`; whether it could be committed is not looked at. -/
def fallbackSetState (backend : Backend) (enabled : Bool) (mirror : Option OutputState) : State :=
  match s.fallback.bind s.find with
  | none => s
  | some o =>
    if !o.state.enabled && !enabled then s
    else
      let state := { o.state with enabled := enabled }
      let state :=
        if enabled then
          match mirror with
          | some m =>
              { state with
                power := true
                lx := 0
                ly := 0
                scale := m.scale
                transform := m.transform
                width := m.width
                height := m.height
                refresh := m.refresh }
          | none =>
              { state with
                power := true
                lx := 0
                ly := 0
                scale := 1
                transform := 0
                width := o.preferredMode.width
                height := o.preferredMode.height
                refresh := o.preferredMode.refresh }
        else state
      (s.setState backend o.id state).getD s

/-! ### Configuring outputs -/

/-- The variables of the loop that checks the outputs in `output_manager_configure_outputs`. `pendingConfig` is the
output of the configuration that the variable points at, `none` when it points at the head of the list. -/
structure Check where
  haveEnabledOutput : Bool := false
  haveZeroCoord : Bool := false
  needFixPrimaryOutput : Bool
  pendingPrimary : Option ℕ
  pendingConfig : Option ℕ

/-- A round of the loop, for an output that is not passed over. -/
def Check.next (config : Option OutputState) (o : Output) (v : Check) : Check :=
  let state := config.getD o.state
  let haveEnabledOutput := v.haveEnabledOutput || state.enabled
  let fix := haveEnabledOutput && v.needFixPrimaryOutput
  { haveEnabledOutput := haveEnabledOutput
    haveZeroCoord := v.haveZeroCoord || (state.enabled && decide (state.lx = 0) && decide (state.ly = 0))
    needFixPrimaryOutput := v.needFixPrimaryOutput && !fix
    pendingPrimary := if fix then some o.id else v.pendingPrimary
    pendingConfig := if config.isSome then some o.id else v.pendingConfig }

/-- An output that the loop passes over: the fallback, when there is an actual output. -/
def skipped (id : ℕ) : Bool := s.hasActualOutputs && decide (s.fallback = some id)

def checkOutputs : List Output → Check → Check
  | [], v => v
  | o :: outputs, v =>
      if s.skipped o.id then checkOutputs outputs v
      else
        let v' := v.next (s.config o.id) o
        if v'.haveEnabledOutput && v'.haveZeroCoord then v' else checkOutputs outputs v'

/-- The pending primary output before the check: the current one is kept, unless it is the fallback. -/
def inheritedPrimary : Option ℕ :=
  if s.pendingPrimary.isNone ∧ s.primary.isSome ∧ s.primary ≠ s.fallback then s.primary else s.pendingPrimary

/-- The check of the configurations. -/
def check : Check :=
  let disabled := s.outputConfigs.find? fun c => decide (s.inheritedPrimary = some c.1) && !c.2.enabled
  s.checkOutputs s.outputs
    { needFixPrimaryOutput := s.inheritedPrimary.isNone || disabled.isSome
      pendingPrimary := s.inheritedPrimary
      pendingConfig := disabled.map Prod.fst }

/-- The coordinates of the only actual output are moved to zero. -/
def needZeroCoord : Bool :=
  !s.check.haveZeroCoord &&
    (decide (s.outputs.length = 1) ||
      (decide (s.outputs.length = 2) && s.hasActualOutputs && s.fallback.isSome))

/-- The states are set one after the other, until one fails. -/
def setStates (backend : Backend) (s : State) : List (ℕ × OutputState) → State × Bool
  | [] => (s, true)
  | c :: configs =>
    match s.setState backend c.1 c.2 with
    | some s' => setStates backend s' configs
    | none => (s, false)

/-- The end of `output_manager_configure_outputs`. -/
def cleared : State := { s with pendingPrimary := none, outputConfigs := [] }

/-- The outputs are disabled that are to be, and the fallback when an actual output is enabled. -/
def disableOutputs (backend : Backend) : State × Bool :=
  let result := s.setStates backend (s.outputConfigs.filter fun c => !c.2.enabled)
  if result.2 then
    ((if result.1.hasEnabledOutputs then result.1.fallbackSetState backend false none else result.1).cleared, true)
  else (result.1.cleared, false)

/-- Outputs are enabled first; then the primary output is switched, and the others are disabled. -/
def applyConfigs (backend : Backend) : State × Bool :=
  let result := s.setStates backend (s.outputConfigs.filter fun c => c.2.enabled)
  if result.2 then { result.1 with primary := result.1.pendingPrimary }.disableOutputs backend
  else (result.1.cleared, false)

/-- A pending configuration with its coordinates at zero. -/
def atZeroCoord (id : ℕ) : State :=
  { s with
    outputConfigs := s.outputConfigs.map fun c => if c.1 = id then (id, { c.2 with lx := 0, ly := 0 }) else c }

/-- `output_manager_configure_outputs` after the check. -/
def configureChecked (backend : Backend) (haveEnabledOutput : Bool) : State × Bool :=
  if haveEnabledOutput then s.applyConfigs backend else (s.cleared, false)

/-- `output_manager_configure_outputs`; `none` when it writes to a configuration that is not there. -/
def configureOutputs (backend : Backend) : Option (State × Bool) :=
  if s.outputConfigs.isEmpty then some (s, false)
  else
    let v := s.check
    let s' := { s with pendingPrimary := v.pendingPrimary }
    if s.needZeroCoord then
      v.pendingConfig.map fun id => (s'.atZeroCoord id).configureChecked backend v.haveEnabledOutput
    else some (s'.configureChecked backend v.haveEnabledOutput)

end State

end FlakeWm.OutputManager
