import FlakeWm.OutputManager.Model

/-! What happens to the output manager (`src/output/output.c`, `config.c`, `wlr_output.c`, `kde_output.c`).

    Outputs are plugged in and out, their states are changed directly, and three interfaces configure them: D-Bus, the
    wlr output management and the KDE output management. An output is named by its number; what a client asks for an
    output that is gone is dropped. -/

namespace FlakeWm.OutputManager

/-- An output that the backend offers. `pending` and `primary` are what `output_read_config` leaves. -/
structure NewOutput where
  namedFallback : Bool
  isVirtual : Bool
  isFbdev : Bool
  modes : List Mode
  preferredScale : ℤ → ℤ → ℚ
  state : OutputState
  pending : OutputState
  primary : Bool

/-- It is the fallback. -/
def NewOutput.isFallback (new : NewOutput) : Bool := new.isVirtual && new.namedFallback

/-- The output at first. -/
def NewOutput.output (new : NewOutput) (id : ℕ) : Output where
  id := id
  isVirtual := new.isVirtual
  isFbdev := new.isFbdev
  modes := new.modes
  preferredScale := new.preferredScale
  state := { new.state with power := new.state.enabled, lx := -1, ly := -1 }
  geometry := ⟨0, 0, 0, 0⟩
  initialized := false
  pendingState := none

/-- The state that it is to have, as no layout is known. -/
def NewOutput.pendingState (new : NewOutput) (o : Output) : OutputState :=
  { new.pending with
    enabled := true
    power := true
    lx := if new.isFallback then 0 else -1
    ly := if new.isFallback then 0 else -1
    width := o.preferredMode.width
    height := o.preferredMode.height
    refresh := o.preferredMode.refresh }

namespace State

variable (s : State)

/-! ### Plugging in and out -/

/-- `output_create`. -/
def outputCreate (backend : Backend) (new : NewOutput) : Option State :=
  let id := s.nextId
  let o := new.output id
  let s :=
    { s with
      outputs := o :: s.outputs
      nextId := id + 1
      fallback := if new.isFallback then some id else s.fallback }
  let s := s.addPendingState id (new.pendingState o)
  let s := { s with pendingPrimary := if new.primary then some id else s.pendingPrimary }
  (s.configureOutputs backend).map fun result =>
    { result.1 with outputs := result.1.outputs.map fun o => if o.id = id then { o with initialized := true } else o }

/-- The fallback stands in when no actual output is enabled, and looks like the output that has gone. -/
def fallbackStandsIn (backend : Backend) (mirror : OutputState) : State :=
  if s.fallback.isSome && !s.hasEnabledOutputs then
    { s.fallbackSetState backend true (some mirror) with primary := s.fallback }
  else s

/-- `output_destroy`; the fallback stays as long as the server. -/
def outputDestroy (backend : Backend) (id : ℕ) : Option State :=
  match s.find id with
  | none => some s
  | some o =>
    if s.fallback = some id then some s
    else
      let s := { s with outputs := s.outputs.filter fun o => decide (o.id ≠ id) }
      let s :=
        if s.primary = some id then
          { s with
            primary :=
              if s.outputConfigs.isEmpty then ((s.outputs.filter fun o => o.state.enabled).getLast?).map Output.id
              else none }
        else s
      (s.configureOutputs backend).map fun result => result.1.fallbackStandsIn backend o.state

/-! ### Changing one output -/

/-- `kywc_output_set_state` of the current state with another mode, scale, transform or power. -/
def changeState (backend : Backend) (id : ℕ) (state : OutputState) : State :=
  match s.find id with
  | none => s
  | some o =>
    let state := { state with enabled := o.state.enabled, lx := o.state.lx, ly := o.state.ly }
    (s.setState backend id state).getD s

/-- The pending state of an output is forgotten. -/
def forgetPending (id : ℕ) : State :=
  { s with outputs := s.outputs.map fun o => if o.id = id then { o with pendingState := none } else o }

/-- `handle_output_present`: no page flip is under way any more. -/
def handlePresent (backend : Backend) (id : ℕ) : State :=
  match (s.find id).bind Output.pendingState with
  | none => s
  | some state =>
    match s.setState (fun id state => { backend id state with busy := false }) id state with
    | some s' => s'
    | none => s.forgetPending id

/-! ### Clients -/

/-- The heads whose outputs are there become pending configurations. -/
def addHeads : List (ℕ × OutputState) → State → State
  | [], s => s
  | head :: heads, s => addHeads heads (if (s.find head.1).isSome then s.addPendingState head.1 head.2 else s)

/-- `handle_output_apply` of `wlr_output.c`. -/
def wlrApply (backend : Backend) (heads : List (ℕ × OutputState)) : Option (State × Bool) :=
  if s.outputs.isEmpty ∨ s.primary.isNone then some (s, false)
  else { s.addHeads heads with pendingPrimary := s.primary }.configureOutputs backend

/-- `output_configure_handle_apply` of `kde_output.c`. -/
def kdeApply (backend : Backend) (heads : List (ℕ × OutputState)) (pendingPrimary : ℕ) : Option (State × Bool) :=
  if s.outputs.isEmpty ∨ s.primary.isNone then some (s, false)
  else { s.addHeads heads with pendingPrimary := some pendingPrimary }.configureOutputs backend

/-! ### D-Bus -/

/-- `output_is_configurable`. -/
def isConfigurable (o : Output) : Bool := !o.isVirtual && !o.isFbdev

/-- The configurable output of a name. -/
def configurable (id : ℕ) : Option Output := (s.find id).filter isConfigurable

/-- `find_output_mode`. -/
def findOutputMode (width height : ℤ) : List Mode → Option Mode → Option Mode
  | [], best => best
  | m :: modes, best =>
      findOutputMode width height modes
        (if m.width = width ∧ m.height = height ∧ best.all fun b => decide (m.refresh > b.refresh) then some m else best)

/-- `mode_supported_by_all_outputs`. -/
def modeSupportedByAll (width height : ℤ) : Bool :=
  s.outputs.all fun o => !isConfigurable o || (findOutputMode width height o.modes none).isSome

/-- The inner loop of `find_largest_common_mode`: the best area and the best mode. -/
def largestMode : List Mode → ℤ × ℤ × ℤ → ℤ × ℤ × ℤ
  | [], best => best
  | m :: modes, best =>
      largestMode modes
        (if m.width * m.height ≤ best.1 ∨ !s.modeSupportedByAll m.width m.height then best
        else (m.width * m.height, m.width, m.height))

/-- `find_largest_common_mode`: only the modes of the first configurable output are tried. -/
def findLargestCommonMode : Option (ℤ × ℤ) :=
  (s.outputs.find? isConfigurable).bind fun o =>
    let best := s.largestMode o.modes (0, 0, 0)
    if best.1 > 0 then some best.2 else none

/-- `prepare_enabled_state`; scales are finite. -/
def prepareEnabledState (o : Output) : Option OutputState :=
  let state := { o.state with enabled := true, power := true }
  if state.width > 0 ∧ state.height > 0 ∧ (findOutputMode state.width state.height o.modes none).isSome then
    some (if state.scale ≤ 0 then { state with scale := o.preferredScale state.width state.height } else state)
  else if o.modes.isEmpty then none
  else
    let state :=
      { state with
        width := o.preferredMode.width
        height := o.preferredMode.height
        refresh := o.preferredMode.refresh }
    some (if state.scale ≤ 0 then { state with scale := o.preferredScale state.width state.height } else state)

/-- `output_state_effective_width`. -/
def effectiveWidth (state : OutputState) : ℤ :=
  let width := if state.transform % 2 = 0 then state.width else state.height
  truncate (width / (if state.scale > 0 then state.scale else 1))

/-- The outputs get their pending states until there is none for one of them. -/
def addStates : List (ℕ × Option OutputState) → State → State × Bool
  | [], s => (s, true)
  | (_, none) :: _, s => (s, false)
  | (id, some state) :: states, s => addStates states (s.addPendingState id state)

/-- `apply_output_configuration`, after the loop of a request. -/
def applyStates (backend : Backend) (states : List (ℕ × Option OutputState)) (pendingPrimary : Option ℕ) :
    Option (State × Bool) :=
  match addStates states s with
  | (s, false) => some (s, false)
  | (s, true) =>
    { s with pendingPrimary := if pendingPrimary.isSome then pendingPrimary else s.pendingPrimary }.configureOutputs
      backend

/-- `set_screen_enabled`. -/
def setScreenEnabled (backend : Backend) (id : ℕ) (enabled : Bool) : Option (State × Bool) :=
  match s.configurable id with
  | none => some (s, false)
  | some o =>
    let state := if enabled then prepareEnabledState o else some { o.state with enabled := false, power := false }
    s.applyStates backend [(id, state)] none

/-- `set_primary_screen`. -/
def setPrimaryScreen (backend : Backend) (id : ℕ) : Option (State × Bool) :=
  match s.configurable id with
  | none => some (s, false)
  | some o => if o.state.enabled then s.applyStates backend [(id, some o.state)] (some id) else some (s, false)

/-- `set_screen_position`. -/
def setScreenPosition (backend : Backend) (id : ℕ) (x y : ℤ) : Option (State × Bool) :=
  match s.configurable id with
  | none => some (s, false)
  | some o =>
    if o.state.enabled then s.applyStates backend [(id, some { o.state with lx := x, ly := y })] none
    else some (s, false)

/-- The primary output, or else the first one, that is configurable. -/
def referenceOutput : Option Output := (s.primary.bind s.configurable).or (s.outputs.find? isConfigurable)

/-- The state of an output in `set_duplicate_mode`. -/
def duplicateState (width height : ℤ) (reference o : Output) : Option OutputState :=
  (prepareEnabledState o).map fun state =>
    { state with
      width := width
      height := height
      refresh := ((findOutputMode width height o.modes none).map Mode.refresh).getD 0
      scale := if reference.state.scale ≤ 0 then reference.preferredScale width height else reference.state.scale
      transform := reference.state.transform
      lx := 0
      ly := 0 }

/-- `set_duplicate_mode`. -/
def setDuplicateMode (backend : Backend) : Option (State × Bool) :=
  if (s.outputs.filter isConfigurable).length < 2 then some (s, false)
  else
    match s.findLargestCommonMode, s.referenceOutput with
    | some (width, height), some reference =>
        s.applyStates backend
          ((s.outputs.filter isConfigurable).map fun o => (o.id, duplicateState width height reference o)) (some reference.id)
    | _, _ => some (s, false)

/-- The states of the outputs in `set_extend_mode`, from left to right. -/
def extendStates : List Output → ℤ → List (ℕ × Option OutputState)
  | [], _ => []
  | o :: outputs, x =>
      match prepareEnabledState o with
      | none => [(o.id, none)]
      | some state => (o.id, some { state with lx := x, ly := 0 }) :: extendStates outputs (x + effectiveWidth state)

/-- `set_extend_mode`. -/
def setExtendMode (backend : Backend) : Option (State × Bool) :=
  if s.outputs.any fun o => isConfigurable o && o.modes.isEmpty then some (s, false)
  else
    match s.referenceOutput with
    | none => some (s, false)
    | some reference =>
        s.applyStates backend (extendStates (s.outputs.filter isConfigurable) 0) (some reference.id)

/-- `set_single_mode`. -/
def setSingleMode (backend : Backend) (id : ℕ) : Option (State × Bool) :=
  match s.configurable id with
  | none => some (s, false)
  | some selected =>
    match prepareEnabledState selected with
    | none => some (s, false)
    | some state =>
      s.applyStates backend
        ((s.outputs.filter isConfigurable).map fun o =>
          (o.id, some (if o.id = id then { state with lx := 0, ly := 0 }
            else { o.state with enabled := false, power := false })))
        (some id)

/-- The outputs that a layout has to be about. -/
def enabledConfigurable : List Output := s.outputs.filter fun o => isConfigurable o && o.state.enabled

/-- `set_screen_layout`: every enabled configurable output is placed exactly once. -/
def setScreenLayout (backend : Backend) (layouts : List (ℕ × ℤ × ℤ)) : Option (State × Bool) :=
  if s.enabledConfigurable.isEmpty then some (s, false)
  else if (layouts.map Prod.fst).Nodup ∧ (∀ l ∈ layouts, l.1 ∈ s.enabledConfigurable.map Output.id) ∧
      layouts.length = s.enabledConfigurable.length then
    let states := layouts.map fun l => (l.1, (s.find l.1).map fun o => { o.state with lx := l.2.1, ly := l.2.2 })
    let primary := (s.primary.bind s.configurable).filter fun o => o.state.enabled
    s.applyStates backend states (primary.map Output.id)
  else some (s, false)

end State

/-- The requests of `gxde_screen_vtable` that go through `output_manager_configure_outputs`. -/
inductive Request where
  | screenEnabled (id : ℕ) (enabled : Bool)
  | primaryScreen (id : ℕ)
  | screenPosition (id : ℕ) (x y : ℤ)
  | duplicateMode
  | extendMode
  | singleMode (id : ℕ)
  | screenLayout (layouts : List (ℕ × ℤ × ℤ))

def State.request (s : State) (backend : Backend) : Request → Option (State × Bool)
  | .screenEnabled id enabled => s.setScreenEnabled backend id enabled
  | .primaryScreen id => s.setPrimaryScreen backend id
  | .screenPosition id x y => s.setScreenPosition backend id x y
  | .duplicateMode => s.setDuplicateMode backend
  | .extendMode => s.setExtendMode backend
  | .singleMode id => s.setSingleMode backend id
  | .screenLayout layouts => s.setScreenLayout backend layouts

inductive Event where
  | create (new : NewOutput)
  | destroy (id : ℕ)
  | change (id : ℕ) (state : OutputState)
  | present (id : ℕ)
  /-- `handle_output_frame` -/
  | frame (id : ℕ)
  | wlrApply (heads : List (ℕ × OutputState))
  | kdeApply (heads : List (ℕ × OutputState)) (pendingPrimary : ℕ)
  | dbus (request : Request)

/-- An event, with what the backend answers while it is handled. -/
def step (s : State) : Event × Backend → Option State
  | (.create new, backend) => s.outputCreate backend new
  | (.destroy id, backend) => s.outputDestroy backend id
  | (.change id state, backend) => some (s.changeState backend id state)
  | (.present id, backend) => some (s.handlePresent backend id)
  | (.frame id, _) => some (s.forgetPending id)
  | (.wlrApply heads, backend) => (s.wlrApply backend heads).map Prod.fst
  | (.kdeApply heads pendingPrimary, backend) => (s.kdeApply backend heads pendingPrimary).map Prod.fst
  | (.dbus request, backend) => (s.request backend request).map Prod.fst

end FlakeWm.OutputManager
