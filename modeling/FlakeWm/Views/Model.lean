import FlakeWm.Box
import FlakeWm.Schemes.Run
import Mathlib.Data.Finset.Basic
import Mathlib.Data.Finset.Insert
import Mathlib.Data.Finset.SDiff

/-! The size and position of one xdg toplevel (`src/view/view.c`, `src/view/xdg_shell.c` and the
    requests of `src/view/stack_mode.c`).

    A request writes `pending.action` and `pending.geometry`; `xdg_view_configure` carries a move out
    at once and sends everything that changes the size to the client, which makes it the outstanding
    configure: `configure_serial`, `configure_action`, `configure_geometry` and the timer. A commit
    that acknowledges it, or the timer, ends it. What reaches only the scene, the effects or other
    clients is left out; output layout and window properties may change at any time. -/

namespace FlakeWm.Views

/-- The bits of `enum view_action`. -/
inductive ViewAction where
  | activate | fullscreen | maximize | resize | tile | minimize | move
  deriving DecidableEq, Repr

/-- `enum view_action` as the set of its bits; `VIEW_ACTION_NOP` is `∅`. -/
abbrev Actions := Finset ViewAction

/-- `view_action_change_size`. -/
def viewActionChangeSize (action : Actions) : Bool :=
  decide (action \ {.activate, .minimize, .move} ≠ ∅)

/-- The bits of `enum kywc_edges`. -/
inductive Edge where | top | bottom | left | right
  deriving DecidableEq, Repr

/-- `enum kywc_tile`. -/
inductive Tile where
  | none | top | bottom | left | right | topLeft | bottomLeft | topRight | bottomRight | center | all
  deriving DecidableEq, Repr

/-- `kywc_view->margin`. -/
structure Margin where
  offX : ℤ := 0
  offY : ℤ := 0
  offWidth : ℤ := 0
  offHeight : ℤ := 0

structure Output where
  geometry : Box
  usableArea : Box
  enabled : Bool := true
  destroying : Bool := false

/-- The outputs, by number. `outputAtPoint` is `kywc_output_at_point`, `fallback` the output that
    stands in when there is none. -/
structure Layout where
  outputs : ℕ → Output
  outputAtPoint : ℤ → ℤ → Option ℕ
  fallback : ℕ

/-- What other modules set on a view and the requests read. `modalChild` is what
    `view_has_modal_child` returns. -/
structure Traits where
  margin : Margin := {}
  minimizable : Bool := true
  maximizable : Bool := true
  fullscreenable : Bool := true
  movable : Bool := true
  resizable : Bool := true
  modal : Bool := false
  modalChild : Bool := false
  minimizedWhenShowDesktop : Bool := false
  hasInitialPosition : Bool := false

/-- `struct view_configure_state`; `configureTimeout` is whether the timer is there, which is always
    armed. -/
structure Pending where
  action : Actions := ∅
  geometry : Box := ⟨0, 0, 0, 0⟩
  configureSerial : UInt32 := 0
  configureAction : Actions := ∅
  configureGeometry : Box := ⟨0, 0, 0, 0⟩
  configureTimeout : Bool := false

/-- `struct view` with its `base`. `requests` is a history variable: the geometries asked for since
    the last unmap, the latest first. -/
structure View where
  mapped : Bool := false
  activated : Bool := false
  minimized : Bool := false
  maximized : Bool := false
  fullscreen : Bool := false
  tiled : Tile := .none
  geometry : Box := ⟨0, 0, 0, 0⟩
  minWidth : ℤ := 0
  minHeight : ℤ := 0
  maxWidth : ℤ := 0
  maxHeight : ℤ := 0
  traits : Traits := {}
  output : ℕ := 0
  savedGeometry : Box := ⟨0, 0, 0, 0⟩
  pending : Pending := {}
  currentResizeEdges : Finset Edge := ∅
  requests : List Box := []

def View.position (view : View) : ℤ × ℤ := (view.geometry.x, view.geometry.y)

/-! ### Outputs and geometry -/

/-- `kywc_output_at_point`, or the fallback output. -/
def Layout.outputFor (layout : Layout) (lx ly : ℤ) : ℕ :=
  (layout.outputAtPoint lx ly).getD layout.fallback

/-- Whether an output can stay the view's output. -/
def Layout.holds (layout : Layout) (output : ℕ) (lx ly : ℤ) : Bool :=
  !(layout.outputs output).destroying && (layout.outputs output).enabled &&
    kywcBoxContainsPoint (layout.outputs output).geometry lx ly

/-- `view_update_output`, for a view that has an output. -/
def viewUpdateOutput (layout : Layout) (view : View) : View :=
  if view.mapped then
    let lx := view.geometry.x + view.geometry.width.tdiv 2
    let ly := view.geometry.y + view.geometry.height.tdiv 2
    if layout.holds view.output lx ly then view
    else { view with output := layout.outputFor lx ly }
  else view

/-- `view_handle_output_destroy`. -/
def viewHandleOutputDestroy (layout : Layout) (view : View) : View :=
  if view.mapped then
    { view with
      output := layout.outputFor (view.geometry.x + view.geometry.width.tdiv 2)
        (view.geometry.y + view.geometry.height.tdiv 2) }
  else { view with output := layout.outputFor 0 0 }

/-- `view_helper_move`. -/
def viewHelperMove (layout : Layout) (view : View) (x y : ℤ) : View :=
  viewUpdateOutput layout { view with geometry := { view.geometry with x := x, y := y } }

/-- The size a commit brings: that of the window geometry, with the limits of the toplevel. -/
structure Size where
  width : ℤ
  height : ℤ
  minWidth : ℤ := 0
  minHeight : ℤ := 0
  maxWidth : ℤ := 0
  maxHeight : ℤ := 0

/-- `view_update_size`. -/
def viewUpdateSize (layout : Layout) (view : View) (size : Size) : View :=
  let view := { view with
    minWidth := size.minWidth
    minHeight := size.minHeight
    maxWidth := size.maxWidth
    maxHeight := size.maxHeight }
  if view.geometry.width ≠ size.width ∨ view.geometry.height ≠ size.height then
    viewUpdateOutput layout
      { view with geometry := { view.geometry with width := size.width, height := size.height } }
  else view

/-- `view_get_tiled_geometry`. -/
def viewGetTiledGeometry (layout : Layout) (view : View) (output : ℕ) (tile : Tile) : Box :=
  let usable := (layout.outputs output).usableArea
  let margin := view.traits.margin
  let halfWidth := usable.width.tdiv 2
  let halfHeight := usable.height.tdiv 2
  let useMinWidth := halfWidth < view.minWidth
  let useMinHeight := halfHeight < view.minHeight
  let left := usable.x + margin.offX
  let top := usable.y + margin.offY
  let right := if useMinWidth then
      usable.x + usable.width - view.minWidth - (margin.offWidth - margin.offX)
    else usable.x + halfWidth + margin.offX
  let bottom := if useMinHeight then
      usable.y + usable.height - view.minHeight - (margin.offHeight - margin.offY)
    else usable.y + halfHeight + margin.offY
  let fullWidth := usable.width - margin.offWidth
  let fullHeight := usable.height - margin.offHeight
  let partWidth := if useMinWidth then view.minWidth else halfWidth - margin.offWidth
  let partHeight := if useMinHeight then view.minHeight else halfHeight - margin.offHeight
  match tile with
  | .none => view.savedGeometry
  | .top => ⟨left, top, fullWidth, partHeight⟩
  | .bottom => ⟨left, bottom, fullWidth, partHeight⟩
  | .left => ⟨left, top, partWidth, fullHeight⟩
  | .right => ⟨right, top, partWidth, fullHeight⟩
  | .topLeft => ⟨left, top, partWidth, partHeight⟩
  | .bottomLeft => ⟨left, bottom, partWidth, partHeight⟩
  | .topRight => ⟨right, top, partWidth, partHeight⟩
  | .bottomRight => ⟨right, bottom, partWidth, partHeight⟩
  | .center =>
      ⟨if useMinWidth then
          usable.x + halfWidth - view.minWidth.tdiv 2 - (margin.offWidth - margin.offX)
        else usable.x + usable.width.tdiv 4 + margin.offX,
       if useMinHeight then
          usable.y + halfHeight - view.minHeight.tdiv 2 - (margin.offHeight - margin.offY)
        else usable.y + usable.height.tdiv 4 + margin.offY,
       partWidth, partHeight⟩
  | .all => ⟨left, top, fullWidth, fullHeight⟩

/-! ### Configures -/

/-- `view_configure`. -/
def viewConfigure (view : View) (serial : UInt32) : View :=
  { view with
    pending :=
      { action := ∅
        geometry := view.geometry
        configureSerial := serial
        configureAction := view.pending.configureAction ∪ view.pending.action
        configureGeometry := view.pending.geometry
        configureTimeout := if serial = 0 then view.pending.configureTimeout else true } }

/-- `view_configured`. -/
def viewConfigured (view : View) : View :=
  { view with
    pending :=
      { action := view.pending.action
        geometry := ⟨0, 0, 0, 0⟩
        configureSerial := 0
        configureAction := ∅
        configureGeometry := ⟨0, 0, 0, 0⟩
        configureTimeout := false } }

/-- Where the view goes while the client has not taken the size of the resize to `pending` yet. -/
def fixWobbling (view : View) (pending : Box) : ℤ × ℤ :=
  let current := view.geometry
  (if .left ∈ view.currentResizeEdges then pending.x + (pending.width - current.width)
    else pending.x,
   if .top ∈ view.currentResizeEdges then pending.y + (pending.height - current.height)
    else pending.y)

/-- The move of `view_handle_configure_timeout`. -/
def configureFallback (layout : Layout) (view : View) : View :=
  if viewActionChangeSize view.pending.configureAction then
    if .resize ∈ view.pending.configureAction then
      let target := fixWobbling view view.pending.configureGeometry
      viewHelperMove layout view target.1 target.2
    else
      viewHelperMove layout view view.pending.configureGeometry.x view.pending.configureGeometry.y
  else view

/-- `view_handle_configure_timeout`. -/
def viewHandleConfigureTimeout (layout : Layout) (view : View) : View :=
  viewConfigured (configureFallback layout view)

/-- The move of `xdg_view_configure`: carried out unless a new size is outstanding. -/
def moveUnlessPending (layout : Layout) (view : View) : View :=
  if viewActionChangeSize view.pending.configureAction then view
  else viewHelperMove layout view view.pending.geometry.x view.pending.geometry.y

/-- The bits `xdg_view_configure` deals with at once. -/
def View.dropDirect (view : View) : View :=
  { view with
    pending := { view.pending with
      action := ((view.pending.action.erase .minimize).erase .activate).erase .move } }

/-- `xdg_view_configure` before it looks at the size. -/
def configureDirect (layout : Layout) (view : View) : View :=
  if .move ∈ view.pending.action then moveUnlessPending layout view.dropDirect
  else view.dropDirect

/-- `xdg_view_configure`; `serial` is what `wlr_xdg_toplevel_set_size` returns. -/
def xdgViewConfigure (layout : Layout) (view : View) (serial : UInt32) : View :=
  if (configureDirect layout view).pending.action = ∅ then configureDirect layout view
  else viewConfigure (configureDirect layout view) serial

/-- `impl->configure`, which every request calls on a mapped view. -/
def configureMapped (layout : Layout) (view : View) (serial : UInt32) : View :=
  if view.mapped then xdgViewConfigure layout view serial else view

/-! ### Requests -/

/-- A request that names a geometry. -/
def View.ask (view : View) (action : Actions) (geometry : Box) : View :=
  { view with
    pending := { view.pending with action := view.pending.action ∪ action, geometry := geometry }
    requests := geometry :: view.requests }

/-- `view_do_move`. -/
def viewDoMove (layout : Layout) (view : View) (x y : ℤ) (serial : UInt32) : View :=
  configureMapped layout (view.ask {.move} { view.pending.geometry with x := x, y := y }) serial

/-- `view_do_resize`. -/
def viewDoResize (layout : Layout) (view : View) (geometry : Box) (serial : UInt32) : View :=
  configureMapped layout (view.ask {.resize} geometry) serial

/-- `view_do_tiled`. -/
def viewDoTiled (layout : Layout) (view : View) (tile : Tile) (output : Option ℕ)
    (serial : UInt32) : View :=
  if view.tiled = tile ∧ (output = none ∨ output = some view.output) then view
  else
    let geo := viewGetTiledGeometry layout view (output.getD view.output) tile
    let saved := if view.tiled = .none ∧ tile ≠ .none ∧ !view.maximized then view.geometry
      else view.savedGeometry
    let action : Actions := if view.maximized then {.maximize, .tile} else {.tile}
    configureMapped layout
      ({ view with savedGeometry := saved, maximized := false, tiled := tile }.ask action geo) serial

/-- `view_do_maximized`. -/
def viewDoMaximized (layout : Layout) (view : View) (maximized : Bool) (output : Option ℕ)
    (serial : UInt32) : View :=
  if view.tiled = .none ∧ view.maximized = maximized ∧
      (output = none ∨ output = some view.output) then view
  else
    let geo := if maximized then viewGetTiledGeometry layout view (output.getD view.output) .all
      else view.savedGeometry
    let saved := if maximized ∧ view.tiled = .none then view.geometry else view.savedGeometry
    let action : Actions := if view.tiled = .none then {.maximize} else {.tile, .maximize}
    configureMapped layout
      ({ view with savedGeometry := saved, tiled := .none, maximized := maximized }.ask action geo)
      serial

/-- The geometry of `view_do_fullscreen`. -/
def fullscreenGeometry (layout : Layout) (view : View) (fullscreen : Bool) (output : Option ℕ) :
    Box :=
  if fullscreen then (layout.outputs (output.getD view.output)).geometry
  else if view.maximized then viewGetTiledGeometry layout view view.output .all
  else if view.tiled ≠ .none then viewGetTiledGeometry layout view view.output view.tiled
  else view.savedGeometry

/-- `view_do_fullscreen`. -/
def viewDoFullscreen (layout : Layout) (view : View) (fullscreen : Bool) (output : Option ℕ)
    (serial : UInt32) : View :=
  if view.fullscreen = fullscreen ∧ (output = none ∨ output = some view.output) then view
  else
    let saved := if fullscreen ∧ !view.maximized ∧ view.tiled = .none then view.geometry
      else view.savedGeometry
    let action : Actions := {.fullscreen}
    configureMapped layout
      ({ view with savedGeometry := saved, fullscreen := fullscreen }.ask action
        (fullscreenGeometry layout view fullscreen output)) serial

/-- A request that names no geometry. -/
def View.mark (view : View) (action : ViewAction) : View :=
  { view with pending := { view.pending with action := insert action view.pending.action } }

/-- `view_do_minimized`. -/
def viewDoMinimized (layout : Layout) (view : View) (minimized : Bool) (serial : UInt32) : View :=
  if view.minimized = minimized then view
  else configureMapped layout ({ view with minimized := minimized }.mark .minimize) serial

/-! ### What a view permits -/

/-- The size of the view cannot change. -/
def View.fixedSize (view : View) : Bool :=
  decide (view.maxWidth ≠ 0) && decide (view.maxHeight ≠ 0) &&
    decide (view.minWidth = view.maxWidth) && decide (view.minHeight = view.maxHeight)

def viewIsMinimizable (view : View) : Bool :=
  view.traits.minimizable &&
    (view.traits.minimizedWhenShowDesktop || !(view.traits.modal || view.traits.modalChild))

def viewIsMaximizable (view : View) : Bool :=
  view.traits.maximizable && !view.fullscreen && !view.traits.modalChild && !view.fixedSize

def viewIsFullscreenable (view : View) : Bool :=
  view.traits.fullscreenable && !view.traits.modalChild && !view.fixedSize

def viewIsMovable (view : View) : Bool :=
  view.traits.movable && !view.fullscreen && !view.traits.modalChild

def viewIsResizable (view : View) : Bool :=
  view.traits.resizable && !view.fullscreen && !view.traits.modalChild && !view.fixedSize

/-! ### The requests of the stack mode -/

def stackModeViewMinimized (layout : Layout) (view : View) (minimized : Bool) (serial : UInt32) :
    View :=
  if viewIsMinimizable view then viewDoMinimized layout view minimized serial else view

def stackModeViewMaximized (layout : Layout) (view : View) (maximized : Bool) (output : Option ℕ)
    (serial : UInt32) : View :=
  if viewIsMaximizable view then viewDoMaximized layout view maximized output serial else view

def stackModeViewFullscreen (layout : Layout) (view : View) (fullscreen : Bool)
    (output : Option ℕ) (serial : UInt32) : View :=
  if viewIsFullscreenable view then viewDoFullscreen layout view fullscreen output serial else view

def stackModeViewTiled (layout : Layout) (view : View) (tile : Tile) (output : Option ℕ)
    (serial : UInt32) : View :=
  if viewIsResizable view then viewDoTiled layout view tile output serial else view

/-- `view_set_activated`. -/
def viewSetActivated (layout : Layout) (view : View) (activated : Bool) (serial : UInt32) : View :=
  if view.activated = activated then view
  else
    let shown := if view.minimized ∧ activated then
        stackModeViewMinimized layout view false serial
      else view
    configureMapped layout ({ shown with activated := activated }.mark .activate) serial

/-! ### Mapping -/

/-- What a client asked for before its toplevel is mapped (`toplevel->requested`), the size it
    commits with, and where the positioner puts the view (`none` when it has no place for it). -/
structure Mapping where
  size : Size
  minimized : Bool := false
  maximized : Bool := false
  fullscreen : Bool := false
  fullscreenOutput : Option ℕ := none
  placement : Option (ℤ × ℤ) := none

/-- `positioner_add_new_view`, with the position it chooses. -/
def positionerAddNewView (layout : Layout) (view : View) (placement : Option (ℤ × ℤ)) : View :=
  if view.maximized || view.minimized || view.fullscreen || view.traits.hasInitialPosition then view
  else
    match placement with
    | none => view
    | some (x, y) => viewDoMove layout view x y 0

/-- The part of `view_map` from `mapped = true` to the end of the configure. -/
def mapConfigure (layout : Layout) (view : View) (serial : UInt32) : View :=
  if view.pending.action = ∅ then { view with mapped := true }
  else
    let saved := if view.maximized || view.fullscreen then
        viewGetTiledGeometry layout view view.output .center
      else view.savedGeometry
    xdgViewConfigure layout { view with mapped := true, savedGeometry := saved } serial

/-- `view_map`, up to the activation of the view, which is an event of its own. -/
def viewMap (layout : Layout) (view : View) (placement : Option (ℤ × ℤ)) (serial : UInt32) : View :=
  let view := mapConfigure layout (positionerAddNewView layout view placement) serial
  { view with traits := { view.traits with hasInitialPosition := false } }

/-- `xdg_view_handle_request_fullscreen` gives up an output that is not there. -/
def Layout.usable (layout : Layout) (output : ℕ) : Bool :=
  !(layout.outputs output).destroying && (layout.outputs output).enabled

/-- The requests of `xdg_view_handle_map` before `view_map`. -/
def applyRequested (layout : Layout) (view : View) (m : Mapping) : View :=
  let view := viewUpdateSize layout view m.size
  let view := stackModeViewMinimized layout view m.minimized 0
  let view := stackModeViewMaximized layout view m.maximized none 0
  stackModeViewFullscreen layout view m.fullscreen (m.fullscreenOutput.filter layout.usable) 0

/-- `xdg_view_handle_map`. No configure is sent before `view_map`, so one serial is drawn. -/
def xdgViewHandleMap (layout : Layout) (view : View) (m : Mapping) (serial : UInt32) : View :=
  viewMap layout (applyRequested layout view m) m.placement serial

/-- `view_unmap`. -/
def viewUnmap (layout : Layout) (view : View) : View :=
  let view := viewSetActivated layout { view with mapped := false } false 0
  { view with
    pending := { view.pending with configureTimeout := false }
    requests := [] }

/-! ### Commits -/

/-- A commit of the client: `configureSerial` is the serial it acknowledged last. -/
structure Commit where
  initialCommit : Bool := false
  size : Size
  configureSerial : UInt32

/-- A resize the client has not acknowledged yet. -/
def unackedResize (view : View) (current : UInt32) : Bool :=
  decide (view.pending.configureSerial ≥ current) && decide (.resize ∈ view.pending.configureAction)

/-- The `x` and `y` of `xdg_view_handle_commit`. -/
def commitTarget (view : View) (current : UInt32) : ℤ × ℤ :=
  if unackedResize view current then fixWobbling view view.pending.configureGeometry
  else (view.pending.configureGeometry.x, view.pending.configureGeometry.y)

/-- The first move of `xdg_view_handle_commit`, while a resize goes on. -/
def followResize (layout : Layout) (view : View) (current : UInt32) : View :=
  if unackedResize view current then
    viewHelperMove layout view (commitTarget view current).1 (commitTarget view current).2
  else view

/-- `xdg_view_handle_commit` on an outstanding configure. -/
def finishCommit (layout : Layout) (view : View) (current : UInt32) : View :=
  if current ≥ view.pending.configureSerial then
    viewConfigured (viewHelperMove layout (followResize layout view current)
      (commitTarget view current).1 (commitTarget view current).2)
  else followResize layout view current

/-- `xdg_view_handle_commit`. `surface->mapped` and `base.mapped` agree whenever a commit is
    handled. -/
def xdgViewHandleCommit (layout : Layout) (view : View) (c : Commit) : View :=
  if c.initialCommit then view
  else if !view.mapped then view
  else
    let view := viewUpdateSize layout view c.size
    if view.pending.configureAction = ∅ ∧ view.pending.configureSerial = 0 then view
    else finishCommit layout view c.configureSerial

/-! ### Events -/

structure State where
  layout : Layout
  view : View

/-- What can happen to a view; `serial` is the one wlroots hands out if a configure is sent. -/
inductive Event where
  | move (x y : ℤ) (serial : UInt32)
  | resize (geometry : Box) (serial : UInt32)
  | tiled (tile : Tile) (output : Option ℕ) (serial : UInt32)
  | maximized (maximized : Bool) (output : Option ℕ) (serial : UInt32)
  | fullscreen (fullscreen : Bool) (output : Option ℕ) (serial : UInt32)
  | minimized (minimized : Bool) (serial : UInt32)
  | activated (activated : Bool) (serial : UInt32)
  | commit (c : Commit)
  | timeout
  | map (m : Mapping) (serial : UInt32)
  | unmap
  | outputDestroy
  | layoutChange (layout : Layout)
  | traitsChange (traits : Traits)
  | grab (edges : Finset Edge)

/-- The serial of an event that may send a configure. -/
def Event.drawn : Event → Option UInt32
  | .move _ _ serial | .resize _ serial | .tiled _ _ serial | .maximized _ _ serial
  | .fullscreen _ _ serial | .minimized _ serial | .activated _ serial | .map _ serial => some serial
  | .commit _ | .timeout | .unmap | .outputDestroy | .layoutChange _ | .traitsChange _ | .grab _ =>
      none

def State.with (s : State) (view : View) : State := { s with view := view }

/-- One event; `none` when it cannot happen (a timer that is not there, a map of a mapped view). -/
def step (s : State) : Event → Option State
  | .move x y serial => some (s.with (viewDoMove s.layout s.view x y serial))
  | .resize geometry serial => some (s.with (viewDoResize s.layout s.view geometry serial))
  | .tiled tile output serial => some (s.with (viewDoTiled s.layout s.view tile output serial))
  | .maximized maximized output serial =>
      some (s.with (viewDoMaximized s.layout s.view maximized output serial))
  | .fullscreen fullscreen output serial =>
      some (s.with (viewDoFullscreen s.layout s.view fullscreen output serial))
  | .minimized minimized serial => some (s.with (viewDoMinimized s.layout s.view minimized serial))
  | .activated activated serial => some (s.with (viewSetActivated s.layout s.view activated serial))
  | .commit c => some (s.with (xdgViewHandleCommit s.layout s.view c))
  | .timeout =>
      if s.view.pending.configureTimeout then
        some (s.with (viewHandleConfigureTimeout s.layout s.view))
      else none
  | .map m serial =>
      if s.view.mapped then none else some (s.with (xdgViewHandleMap s.layout s.view m serial))
  | .unmap => if s.view.mapped then some (s.with (viewUnmap s.layout s.view)) else none
  | .outputDestroy => some (s.with (viewHandleOutputDestroy s.layout s.view))
  | .layoutChange layout => some { s with layout := layout }
  | .traitsChange traits => some (s.with { s.view with traits := traits })
  | .grab edges => some (s.with { s.view with currentResizeEdges := edges })

end FlakeWm.Views
