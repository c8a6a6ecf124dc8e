import Mathlib.Logic.Function.Basic
import FlakeWm.Panels.Areas
import FlakeWm.Schemes.Run

/-! The providers of reserved space: plasma surfaces (`src/view/kde_plasma_shell.c`) and X11 views
    (`src/xwayland/view.c`).

    Each provider has a listener that it puts in the `update_usable_area` list of the output of its
    view, and the output keeps the area computed at the last update. A toplevel view is known by its
    `wl_surface`. A plasma surface finds the view when the `wl_surface` maps, and follows it from then
    on; its resource, the `wl_surface` and the view go away in any order. The outputs stay enabled and
    where they are; the positions that a plasma surface can ask for are left out, as are the other
    effects of a role. A step yields `none` where the event cannot happen or a null or freed pointer
    is followed. -/

namespace FlakeWm.Panels

/-- `enum org_kde_plasma_surface_role`. -/
inductive Role where
  | normal | desktop | panel | onScreenDisplay | notification | tooltip | criticalNotification
  | appletPopup
  deriving DecidableEq

/-- What the providers read of a toplevel view. -/
structure View where
  geometry : Box
  output : ℕ
  mapped : Bool := false
  minimized : Bool := false
  deriving DecidableEq

/-- A `wl_surface`, and the view whose role object it has (`wlr_surface->data`). -/
structure WlSurface where
  alive : Bool := true
  mapped : Bool := false
  view : Option View := none
  deriving DecidableEq

/-- `struct kde_plasma_surface`. `hasSurface` and `attached` are whether `wlr_surface` and `view` are
    set, `waiting` whether `surface_map` is linked, `hooked` whether `view_map` and `view_unmap` are,
    `following` whether the listeners of a mapped view are. -/
structure PlasmaSurface where
  id : ℕ
  surface : ℕ
  hasSurface : Bool := true
  waiting : Bool := true
  attached : Bool := false
  hooked : Bool := false
  following : Bool := false
  role : Role := .normal
  roleChanged : Bool := false
  deriving DecidableEq

/-- `struct xwayland_view`, with the strut of its X11 surface. -/
structure X11View where
  id : ℕ
  output : ℕ
  mapped : Bool := false
  strut : Option Strut := none
  deriving DecidableEq

/-- The `output_update_usable_area` of a provider. -/
inductive Listener where
  | plasma (id : ℕ)
  | x11 (id : ℕ)
  deriving DecidableEq

/-- `links` are the `update_usable_area` lists, each listener with the output it is linked at. -/
structure State where
  geometry : ℕ → Box
  usable : ℕ → Box
  links : List (Listener × ℕ) := []
  plasma : List PlasmaSurface := []
  surfaces : ℕ → WlSurface := fun _ => {}
  x11 : List X11View := []
  made : ℕ := 0

namespace State

def plasmaOf (s : State) (id : ℕ) : Option PlasmaSurface := s.plasma.find? fun q => q.id = id

def x11Of (s : State) (id : ℕ) : Option X11View := s.x11.find? fun x => x.id = id

/-- The view of a plasma surface. -/
def viewOf (s : State) (q : PlasmaSurface) : Option View :=
  if q.attached then (s.surfaces q.surface).view else none

/-- The box that the handler of a listener intersects with. -/
def listenerArea (s : State) : Listener → Option Box
  | .plasma id => do
      let view ← (← s.plasmaOf id) |> s.viewOf
      return panelArea (s.geometry view.output) view.geometry
  | .x11 id => do
      let x ← s.x11Of id
      let strut ← x.strut
      return strutArea (s.geometry x.output) strut

/-- The listeners of an output, in their order. -/
def listeners (s : State) (output : ℕ) : List Listener :=
  (s.links.filter fun e => e.2 = output).map (·.1)

/-- What `output_do_update_usable_area` computes. -/
def doUpdateUsableArea (s : State) (output : ℕ) : Option Box :=
  ((s.listeners output).mapM s.listenerArea).map (outputDoUpdateUsableArea (s.geometry output))

def outputUpdateUsableArea (s : State) (output : ℕ) : Option State :=
  (s.doUpdateUsableArea output).map fun box =>
    { s with usable := Function.update s.usable output box }

def hadArea (s : State) (l : Listener) : Bool := s.links.any fun e => e.1 = l

def unlink (s : State) (l : Listener) : State :=
  { s with links := s.links.filter fun e => e.1 ≠ l }

/-- `output_add_update_usable_area_listener`. -/
def link (s : State) (l : Listener) (output : ℕ) : State :=
  { s with links := s.links ++ [(l, output)] }

/-- A listener that is linked is removed, and the output updated. -/
def dropListener (s : State) (l : Listener) (output : ℕ) : Option State :=
  if s.hadArea l then (s.unlink l).outputUpdateUsableArea output else some s

/-- `kde_plasma_surface_set_usable_area` and `xwayland_view_set_strut_partial`: the listener is linked
    when the provider has an area, and the output updated. -/
def setListener (s : State) (l : Listener) (hasArea : Bool) (output : ℕ) : Option State :=
  if hasArea = false then s.dropListener l output
  else (if s.hadArea l then s else s.link l output).outputUpdateUsableArea output

/-! ### Plasma surfaces -/

def editPlasma (s : State) (id : ℕ) (f : PlasmaSurface → PlasmaSurface) : State :=
  { s with plasma := s.plasma.map fun q => if q.id = id then f q else q }

def setView (s : State) (w : ℕ) (view : Option View) : State :=
  { s with surfaces := Function.update s.surfaces w { s.surfaces w with view := view } }

end State

/-- The area a plasma surface has on a view. -/
def PlasmaSurface.hasArea (q : PlasmaSurface) (view : View) : Bool :=
  view.mapped && !view.minimized && decide (q.role = .panel)

def kdePlasmaSurfaceSetUsableArea (s : State) (id : ℕ) : Option State := do
  let q ← s.plasmaOf id
  let view ← s.viewOf q
  s.setListener (.plasma id) (q.hasArea view) view.output

/-- `surface_handle_view_output`. -/
def surfaceHandleViewOutput (old : ℕ) (s : State) (id : ℕ) : Option State := do
  let s ← s.dropListener (.plasma id) old
  kdePlasmaSurfaceSetUsableArea s id

/-- `surface_handle_view_map`. -/
def surfaceHandleViewMap (s : State) (id : ℕ) : Option State := do
  let s ← kdePlasmaSurfaceSetUsableArea s id
  return s.editPlasma id fun q => { q with following := true }

/-- `surface_handle_view_unmap`. -/
def surfaceHandleViewUnmap (s : State) (id : ℕ) : Option State := do
  let q ← s.plasmaOf id
  if q.following = false then none
  else kdePlasmaSurfaceSetUsableArea (s.editPlasma id fun q => { q with following := false }) id

/-- What `surface_handle_map` sets on a surface whose view is there. -/
def PlasmaSurface.hook (q : PlasmaSurface) : PlasmaSurface :=
  { q with waiting := false, attached := true, roleChanged := false, hooked := true }

/-- `surface_handle_map`. -/
def surfaceHandleMap (s : State) (id : ℕ) : Option State := do
  let q ← s.plasmaOf id
  match (s.surfaces q.surface).view with
  | none => some (s.editPlasma id fun q => { q with waiting := false })
  | some view =>
      let s := s.editPlasma id PlasmaSurface.hook
      if view.mapped then surfaceHandleViewMap s id else some s

/-- The plasma surfaces of `w` that meet `f`, in their order. -/
def State.onSurface (s : State) (w : ℕ) (f : PlasmaSurface → Bool) : List ℕ :=
  (s.plasma.filter fun q => decide (q.surface = w) && f q).map (·.id)

/-- A new plasma surface on `w`. -/
def State.addPlasma (s : State) (w : ℕ) (attached : Bool) : State :=
  { s with plasma := s.plasma ++ [{ id := s.made, surface := w, attached := attached }],
           made := s.made + 1 }

/-- `handle_get_surface`. -/
def handleGetSurface (s : State) (w : ℕ) : Option State :=
  if (s.surfaces w).alive = false then none
  else if (s.surfaces w).mapped then
    surfaceHandleMap (s.addPlasma w (s.surfaces w).view.isSome) s.made
  else some (s.addPlasma w (s.surfaces w).view.isSome)

/-- `handle_set_role`. -/
def handleSetRole (s : State) (id : ℕ) (role : Role) : Option State := do
  let q ← s.plasmaOf id
  if q.hasSurface = false then some s
  else
    let changed := q.roleChanged || decide (q.role ≠ role)
    let s := s.editPlasma id fun q =>
      { q with role := role, roleChanged := changed && !q.attached }
    if q.attached && changed then kdePlasmaSurfaceSetUsableArea s id else some s

/-- The calls of `surface_handle_view_unmap` and `surface_handle_view_destroy` when the resource is
    destroyed. -/
def leaveView (s : State) (id : ℕ) : Option View → Option State
  | none => some s
  | some view => if view.mapped then surfaceHandleViewUnmap s id else some s

/-- `kde_plasma_surface_handle_resource_destroy`. -/
def kdePlasmaSurfaceHandleResourceDestroy (s : State) (id : ℕ) : Option State := do
  let q ← s.plasmaOf id
  let s ← leaveView s id (s.viewOf q)
  return { s with plasma := s.plasma.filter fun q => q.id ≠ id }

/-! ### Toplevel views -/

def State.setMapped (s : State) (w : ℕ) (mapped : Bool) : State :=
  { s with surfaces := Function.update s.surfaces w { s.surfaces w with mapped := mapped } }

/-- `view_map`, with the geometry and the output that it chose. -/
def viewMap (s : State) (w : ℕ) (geometry : Box) (output : ℕ) : Option State :=
  match (s.surfaces w).view with
  | none => some s
  | some view =>
      let s := s.setView w (some { view with geometry := geometry, output := output,
                                             mapped := true })
      (s.onSurface w fun q => q.hooked).foldlM surfaceHandleViewMap s

/-- The `map` signal of a `wl_surface`. The plasma surfaces that were there before the toplevel come
    before it, the others after it. -/
def mapSurface (s : State) (w : ℕ) (geometry : Box) (output : ℕ) : Option State :=
  if (s.surfaces w).alive = false ∨ (s.surfaces w).mapped = true then none
  else do
    let s := s.setMapped w true
    let s ← (s.onSurface w fun q => q.waiting && !q.attached).foldlM surfaceHandleMap s
    let s ← viewMap s w geometry output
    (s.onSurface w fun q => q.waiting).foldlM surfaceHandleMap s

/-- The `unmap` signal of a mapped `wl_surface`. -/
def unmapSurface (s : State) (w : ℕ) : Option State :=
  let s := s.setMapped w false
  match (s.surfaces w).view with
  | none => some s
  | some view =>
      let s := s.setView w (some { view with mapped := false })
      (s.onSurface w fun q => q.hooked).foldlM surfaceHandleViewUnmap s

def unmapIfMapped (s : State) (w : ℕ) : Option State :=
  if (s.surfaces w).mapped then unmapSurface s w else some s

/-- `view_do_minimized`. -/
def minimizeView (s : State) (w : ℕ) (minimized : Bool) : Option State := do
  let view ← (s.surfaces w).view
  if view.minimized = minimized then some s
  else
    let s := s.setView w (some { view with minimized := minimized })
    if view.mapped then
      (s.onSurface w fun q => q.following).foldlM kdePlasmaSurfaceSetUsableArea s
    else some s

/-- The `output` signal of a view that was at `old`. -/
def emitOutput (s : State) (w old output : ℕ) : Option State :=
  if old = output then some s
  else (s.onSurface w fun q => q.following).foldlM (surfaceHandleViewOutput old) s

/-- `view_helper_move` and `view_update_size`: the geometry changes, the output of a mapped view is
    updated, and `position` or `size` emitted. A change of the output alone leaves the geometry. -/
def moveView (s : State) (w : ℕ) (geometry : Box) (output : ℕ) : Option State := do
  let view ← (s.surfaces w).view
  if view.mapped = false then some (s.setView w (some { view with geometry := geometry }))
  else
    let s ← emitOutput (s.setView w (some { view with geometry := geometry, output := output })) w
      view.output output
    if view.geometry = geometry then some s
    else (s.onSurface w fun q => q.following).foldlM kdePlasmaSurfaceSetUsableArea s

/-- A `wl_surface` is destroyed, unmapped before that (`surface_handle_destroy`). -/
def destroySurface (s : State) (w : ℕ) : Option State :=
  if (s.surfaces w).alive = false then none
  else do
    let s ← unmapIfMapped s w
    return { s with
      surfaces := Function.update s.surfaces w { s.surfaces w with alive := false }
      plasma := s.plasma.map fun q =>
        if q.surface = w then { q with hasSurface := false, waiting := false } else q }

/-- `surface_handle_view_destroy`. -/
def PlasmaSurface.detach (q : PlasmaSurface) : PlasmaSurface :=
  { q with attached := false, hooked := false }

/-- A toplevel view is destroyed, unmapped before that. -/
def destroyView (s : State) (w : ℕ) : Option State :=
  if (s.surfaces w).view = none then none
  else do
    let s ← unmapIfMapped s w
    return { s.setView w none with
      plasma := s.plasma.map fun q => if q.surface = w then q.detach else q }

/-! ### X11 views -/

/-- The strut reserves something. -/
def Strut.nonEmpty (strut : Strut) : Bool :=
  decide (strut.leftStartY ≠ strut.leftEndY) || decide (strut.rightStartY ≠ strut.rightEndY) ||
    decide (strut.topStartX ≠ strut.topEndX) || decide (strut.bottomStartX ≠ strut.bottomEndX)

def X11View.hasArea (x : X11View) : Bool := x.strut.any Strut.nonEmpty

def State.editX11 (s : State) (id : ℕ) (f : X11View → X11View) : State :=
  { s with x11 := s.x11.map fun x => if x.id = id then f x else x }

/-- `xwayland_view_set_strut_partial`, enabled. -/
def xwaylandViewSetStrutPartial (s : State) (id : ℕ) : Option State := do
  let x ← s.x11Of id
  s.setListener (.x11 id) x.hasArea x.output

/-- `xwayland_view_handle_map`, where `view_map` chose the output. -/
def xwaylandViewHandleMap (s : State) (id output : ℕ) : Option State := do
  let x ← s.x11Of id
  let s := s.editX11 id fun x => { x with mapped := true, output := output }
  if x.mapped then none else xwaylandViewSetStrutPartial s id

/-- A strut is set on an X11 surface, whose view listens while it is mapped. -/
def setStrut (s : State) (id : ℕ) (strut : Option Strut) : Option State := do
  let x ← s.x11Of id
  let s := s.editX11 id fun x => { x with strut := strut }
  if x.mapped then xwaylandViewSetStrutPartial s id else some s

/-- `xwayland_view_handle_destroy`. -/
def xwaylandViewHandleDestroy (s : State) (id : ℕ) : State :=
  { s.unlink (.x11 id) with x11 := s.x11.filter fun x => x.id ≠ id }

/-! ### Events -/

inductive Event where
  | newView (w output : ℕ) (geometry : Box)
  | map (w : ℕ) (geometry : Box) (output : ℕ)
  | unmap (w : ℕ)
  | minimize (w : ℕ) (minimized : Bool)
  | move (w : ℕ) (geometry : Box) (output : ℕ)
  | destroyView (w : ℕ)
  | destroySurface (w : ℕ)
  | getSurface (w : ℕ)
  | setRole (id : ℕ) (role : Role)
  | destroyResource (id : ℕ)
  | newX11 (output : ℕ)
  | mapX11 (id output : ℕ)
  | unmapX11 (id : ℕ)
  | moveX11 (id output : ℕ)
  | setStrut (id : ℕ) (strut : Option Strut)
  | destroyX11 (id : ℕ)

def step (s : State) : Event → Option State
  | .newView w output geometry =>
      if (s.surfaces w).alive = true ∧ (s.surfaces w).mapped = false ∧ (s.surfaces w).view = none
      then some (s.setView w (some { geometry := geometry, output := output }))
      else none
  | .map w geometry output => mapSurface s w geometry output
  | .unmap w => if (s.surfaces w).mapped then unmapSurface s w else none
  | .minimize w minimized => minimizeView s w minimized
  | .move w geometry output => moveView s w geometry output
  | .destroyView w => destroyView s w
  | .destroySurface w => destroySurface s w
  | .getSurface w => handleGetSurface s w
  | .setRole id role => handleSetRole s id role
  | .destroyResource id => kdePlasmaSurfaceHandleResourceDestroy s id
  | .newX11 output =>
      some { s with x11 := s.x11 ++ [{ id := s.made, output := output }], made := s.made + 1 }
  | .mapX11 id output => xwaylandViewHandleMap s id output
  | .unmapX11 id => some (s.editX11 id fun x => { x with mapped := false })
  | .moveX11 id output => some (s.editX11 id fun x => { x with output := output })
  | .setStrut id strut => setStrut s id strut
  | .destroyX11 id => some (xwaylandViewHandleDestroy s id)

/-- No provider yet: the usable areas are those of the outputs. -/
def start (geometry : ℕ → Box) : State where
  geometry := geometry
  usable := fun output => outputDoUpdateUsableArea (geometry output) []

end FlakeWm.Panels
