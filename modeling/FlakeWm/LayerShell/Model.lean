import FlakeWm.Box
import FlakeWm.Schemes.Run
import Mathlib.Algebra.Group.Int.Defs
import Mathlib.Data.List.FinRange
import Mathlib.Logic.Function.Basic

/-! Layer surfaces and the usable area of an output (`src/view/wlr_layer_shell.c`, with
    `output_update_usable_area` of `src/output/output.c` and the order of signals of the vendored
    wlroots).

    The state is one enabled output whose `update_usable_area` signal has the layer-shell listener
    only, with its four lists of layer surfaces. `usable_area` is the cached result and, at some call
    sites, also the accumulator that is handed to `layer_shell_configure_surface`; the box that this
    function computes for the surface itself (position and size of its tree, sent to the client) is
    read by nothing here and left out. The coordinates are C `int`s: an addition whose result is not
    one has no defined result, which is `none`. -/

namespace FlakeWm.LayerShell

/-! ### Machine integers -/

def intMin : ℤ := -2 ^ 31
def intMax : ℤ := 2 ^ 31 - 1

/-- The value of a C `int` expression, if it is defined. -/
def toInt (z : ℤ) : Option ℤ := if intMin ≤ z ∧ z ≤ intMax then some z else none

/-! ### Surfaces -/

/-- `enum zwlr_layer_surface_v1_anchor`, a bit set. -/
def anchorTop : UInt32 := 1
def anchorBottom : UInt32 := 2
def anchorLeft : UInt32 := 4
def anchorRight : UInt32 := 8

/-- `struct wlr_layer_surface_v1_state`. -/
structure LayerState where
  anchor : UInt32 := 0
  exclusiveZone : Int32 := 0
  marginTop : Int32 := 0
  marginRight : Int32 := 0
  marginBottom : Int32 := 0
  marginLeft : Int32 := 0
  layer : Fin 4
  deriving DecidableEq

/-- `enum wlr_layer_surface_v1_state_field`, the flags of `committed`. -/
structure Committed where
  desiredSize : Bool
  anchor : Bool
  exclusiveZone : Bool
  margin : Bool
  keyboardInteractivity : Bool
  layer : Bool
  exclusiveEdge : Bool

/-- A layer surface with its `struct layer_shell`: the state in effect, whether its surface is
    mapped, and the layer whose tree its own tree is in. -/
structure Surface where
  current : LayerState
  mapped : Bool := false
  treeLayer : Fin 4

structure State where
  geometry : Box
  usableArea : Box
  /-- `layer_output->shells`. -/
  shells : Fin 4 → List ℕ
  surface : ℕ → Option Surface

/-! ### The exclusive zone -/

/-- `bounded_exclusive_zone`; the sum is an `int64_t`, which it always fits. -/
def boundedExclusiveZone (zone margin : Int32) (available : ℤ) : ℤ :=
  let amount := zone.toInt + margin.toInt
  if available ≤ 0 ∨ amount ≤ 0 then 0
  else if amount < available then amount else available

/-- `layer_surface_exclusive_zone`. -/
def layerSurfaceExclusiveZone (state : LayerState) (usable : Box) : Option Box :=
  if state.anchor = anchorTop ∨ state.anchor = anchorTop ||| anchorLeft ||| anchorRight then do
    let amount := boundedExclusiveZone state.exclusiveZone state.marginTop usable.height
    let y ← toInt (usable.y + amount)
    let height ← toInt (usable.height - amount)
    some { usable with y := y, height := height }
  else if state.anchor = anchorBottom ∨
      state.anchor = anchorBottom ||| anchorLeft ||| anchorRight then do
    let amount := boundedExclusiveZone state.exclusiveZone state.marginBottom usable.height
    let height ← toInt (usable.height - amount)
    some { usable with height := height }
  else if state.anchor = anchorLeft ∨ state.anchor = anchorTop ||| anchorBottom ||| anchorLeft then do
    let amount := boundedExclusiveZone state.exclusiveZone state.marginLeft usable.width
    let x ← toInt (usable.x + amount)
    let width ← toInt (usable.width - amount)
    some { usable with x := x, width := width }
  else if state.anchor = anchorRight ∨
      state.anchor = anchorTop ||| anchorBottom ||| anchorRight then do
    let amount := boundedExclusiveZone state.exclusiveZone state.marginRight usable.width
    let width ← toInt (usable.width - amount)
    some { usable with width := width }
  else some usable

/-- `layer_shell_configure_surface`: what it makes of the usable area it is handed. -/
def layerShellConfigureSurface (surface : Surface) (usable : Box) : Option Box :=
  if surface.mapped ∧ surface.current.exclusiveZone > 0 then
    layerSurfaceExclusiveZone surface.current usable
  else some usable

namespace State

/-- One round of the loops over the shells: a shell whose exclusive zone meets `p` is configured with
    the accumulator, the others are skipped. -/
def configureShell (s : State) (p : Int32 → Bool) (usable : Box) (id : ℕ) : Option Box :=
  match s.surface id with
  | none => some usable
  | some surface =>
      if p surface.current.exclusiveZone then layerShellConfigureSurface surface usable
      else some usable

/-- The loops over the shells of the four layers, with one accumulator handed through. -/
def configureShells (s : State) (p : Int32 → Bool) (usable : Box) : Option Box :=
  (List.finRange 4).foldlM (fun usable i => (s.shells i).foldlM (s.configureShell p) usable) usable

/-- `handle_output_update_usable_area`. -/
def handleOutputUpdateUsableArea (s : State) (usable : Box) : Option Box :=
  s.configureShells (fun zone => 0 < zone) usable

/-- `handle_output_usable_area`: it hands out the stored area. -/
def handleOutputUsableArea (s : State) : Option State := do
  let usable ← s.configureShells (fun zone => zone = 0) s.usableArea
  some { s with usableArea := usable }

/-- The clamp of both sizes after each signal. -/
def clamp (usable : Box) : Box :=
  { usable with
    width := if usable.width > 0 then usable.width else 0
    height := if usable.height > 0 then usable.height else 0 }

/-- `output_do_update_usable_area`; nothing listens to the late signal. -/
def outputDoUpdateUsableArea (s : State) : Option Box := do
  let usable ← s.handleOutputUpdateUsableArea s.geometry
  some (clamp (clamp usable))

/-- `output_update_usable_area` of an enabled output. -/
def outputUpdateUsableArea (s : State) : Option State := do
  let usable ← s.outputDoUpdateUsableArea
  if kywcBoxEqual s.usableArea usable then some s
  else handleOutputUsableArea { s with usableArea := usable }

/-- A call of `layer_shell_configure_surface` that is handed the stored area itself. -/
def configureStored (s : State) (surface : Surface) : Option State := do
  let usable ← layerShellConfigureSurface surface s.usableArea
  some { s with usableArea := usable }

def setSurface (s : State) (id : ℕ) (surface : Surface) : State :=
  { s with surface := Function.update s.surface id (some surface) }

/-- `wl_list_remove(&shell->link)`. -/
def unlink (s : State) (id : ℕ) : State :=
  { s with shells := fun i => (s.shells i).filter (· ≠ id) }

/-- `wl_list_insert(&output->shells[layer], &shell->link)`. -/
def link (s : State) (layer : Fin 4) (id : ℕ) : State :=
  { s with shells := Function.update s.shells layer (id :: s.shells layer) }

end State

/-! ### Handlers -/

/-- `layer_shell_update_layer`. -/
def layerShellUpdateLayer (s : State) (id : ℕ) (surface : Surface) : State :=
  if surface.treeLayer = surface.current.layer then s
  else ((s.unlink id).link surface.current.layer id).setSurface id
    { surface with treeLayer := surface.current.layer }

/-- `committed` once the keyboard interactivity is dealt with. -/
def Committed.rest (committed : Committed) : Bool :=
  committed.desiredSize || committed.anchor || committed.exclusiveZone || committed.margin ||
    committed.layer || committed.exclusiveEdge

/-- `layer_shell_handle_commit`. -/
def layerShellHandleCommit (s : State) (id : ℕ) (committed : Committed) : Option State :=
  match s.surface id with
  | none => none
  | some surface =>
      let s := layerShellUpdateLayer s id surface
      if !surface.mapped then s.configureStored surface
      else if committed.rest then do
        -- on a copy of the stored area
        let _ ← layerShellConfigureSurface surface s.usableArea
        s.outputUpdateUsableArea
      else some s

/-- `layer_shell_handle_map`. -/
def layerShellHandleMap (s : State) (id : ℕ) : Option State :=
  match s.surface id with
  | none => none
  | some surface =>
      let s := layerShellUpdateLayer s id surface
      if surface.current.exclusiveZone > 0 then s.outputUpdateUsableArea
      else s.configureStored surface

/-- `layer_shell_handle_unmap`. -/
def layerShellHandleUnmap (s : State) (id : ℕ) : Option State :=
  match s.surface id with
  | none => none
  | some surface =>
      if surface.current.exclusiveZone > 0 then s.outputUpdateUsableArea else some s

/-- `layer_shell_handle_destroy`. -/
def layerShellHandleDestroy (s : State) (id : ℕ) : Option State :=
  match s.surface id with
  | none => none
  | some surface =>
      let s' := { s.unlink id with surface := Function.update s.surface id none }
      if surface.current.exclusiveZone > 0 ∧ surface.mapped then s'.outputUpdateUsableArea
      else some s'

/-- `handle_new_layer_surface` on this output. -/
def handleNewLayerSurface (s : State) (id : ℕ) (layer : Fin 4) : State :=
  (s.link layer id).setSurface id ⟨{ layer := layer }, false, layer⟩

/-- `wlr_layer_shell_reconfigure_surface`: on a copy of the stored area. -/
def wlrLayerShellReconfigureSurface (s : State) (id : ℕ) : Option State :=
  match s.surface id with
  | none => some s
  | some surface =>
      if surface.mapped then do
        let _ ← layerShellConfigureSurface surface s.usableArea
        some s
      else some s

/-! ### wlroots -/

/-- `wlr_surface_map`. -/
def wlrSurfaceMap (s : State) (id : ℕ) : Option State :=
  match s.surface id with
  | none => none
  | some surface =>
      if surface.mapped then some s
      else layerShellHandleMap (s.setSurface id { surface with mapped := true }) id

/-- `wlr_surface_unmap`. -/
def wlrSurfaceUnmap (s : State) (id : ℕ) : Option State :=
  match s.surface id with
  | none => none
  | some surface =>
      if surface.mapped then
        layerShellHandleUnmap (s.setSurface id { surface with mapped := false }) id
      else some s

/-- What a commit does to the buffer of the surface. -/
inductive Buffer where | keep | attach | remove
  deriving DecidableEq

/-- The move of the pending state to the current one in `surface_commit_state`. -/
def moveState (s : State) (id : ℕ) (next : LayerState) : Option State :=
  match s.surface id with
  | none => none
  | some surface => some (s.setSurface id { surface with current := next })

/-- `surface_commit_state` of a layer surface: a removed buffer unmaps it before the pending state
    becomes current, an attached one maps it after that, and then the commit is signalled. -/
def surfaceCommitState (s : State) (id : ℕ) (next : LayerState) (committed : Committed)
    (buffer : Buffer) : Option State := do
  let s ← if buffer = .remove then wlrSurfaceUnmap s id else some s
  let s ← moveState s id next
  let s ← if buffer = .attach then wlrSurfaceMap s id else some s
  layerShellHandleCommit s id committed

/-- `layer_surface_destroy`; `unmapped` is whether the surface is unmapped first. -/
def layerSurfaceDestroy (s : State) (id : ℕ) (unmapped : Bool) : Option State := do
  let s ← if unmapped then wlrSurfaceUnmap s id else some s
  layerShellHandleDestroy s id

/-! ### Runs -/

inductive Event where
  | newSurface (id : ℕ) (layer : Fin 4)
  | commit (id : ℕ) (next : LayerState) (committed : Committed) (buffer : Buffer)
  | map (id : ℕ)
  | unmap (id : ℕ)
  | destroy (id : ℕ) (unmapped : Bool)
  | reconfigure (id : ℕ)

/-- The flags of every field that differs are set. -/
def Committed.covers (committed : Committed) (current next : LayerState) : Bool :=
  (committed.anchor || current.anchor == next.anchor) &&
    (committed.exclusiveZone || current.exclusiveZone == next.exclusiveZone) &&
    (committed.margin || (current.marginTop == next.marginTop &&
      current.marginRight == next.marginRight && current.marginBottom == next.marginBottom &&
      current.marginLeft == next.marginLeft)) &&
    (committed.layer || current.layer == next.layer)

/-- Events of surfaces that exist, with flags as wlroots sets them. -/
def offered (s : State) : Event → Bool
  | .newSurface id _ => (s.surface id).isNone
  | .commit id next committed _ =>
      match s.surface id with
      | none => false
      | some surface => committed.covers surface.current next
  | .map id | .unmap id | .destroy id _ | .reconfigure id => (s.surface id).isSome

/-- What an offered event does; `none` is undefined behaviour. -/
def handle (s : State) : Event → Option State
  | .newSurface id layer => some (handleNewLayerSurface s id layer)
  | .commit id next committed buffer => surfaceCommitState s id next committed buffer
  | .map id => wlrSurfaceMap s id
  | .unmap id => wlrSurfaceUnmap s id
  | .destroy id unmapped => layerSurfaceDestroy s id unmapped
  | .reconfigure id => wlrLayerShellReconfigureSurface s id

def step (s : State) (e : Event) : Option State := if offered s e then handle s e else none

/-- An enabled output without layer surfaces. -/
def start (geometry : Box) : State :=
  { geometry := geometry
    usableArea := geometry
    shells := fun _ => []
    surface := fun _ => none }

end FlakeWm.LayerShell
