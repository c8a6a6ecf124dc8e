import FlakeWm.Workspaces.Model

/-! The stacking order of the windows, which is kept twice (`view/view.c`, `scene/scene.c`).

    `workspace->view_proxies` lists the proxies of a workspace with the topmost first, and the tree
    of a proxy is a child of one of the three layers of its workspace. `Scene` adds the children of
    these layers to the membership of views; they are listed from top to bottom, the scene keeps them
    the other way round. Only the children that are trees of proxies are listed.

    The functions of `Membership` and `State` that create, destroy or reparent proxies are here
    again, with what they do to the scene; the others only write to views. A failure is `none`, as
    there, also when a cycle of parents makes `view_raise_to_top` run for ever. -/

namespace FlakeWm.Stacking

open FlakeWm.Workspaces

structure Scene where
  mem : Membership
  children : WorkspaceId → WorkspaceLayer → List ProxyId

namespace Scene

/-- A function that touches no proxy. -/
def write (c : Scene) (f : Membership → Membership) : Scene := { c with mem := f c.mem }

/-- Changing the children of one layer. -/
def setChildren (c : Scene) (w : WorkspaceId) (l : WorkspaceLayer) (ps : List ProxyId) : Scene :=
  { c with children := Function.update c.children w (Function.update (c.children w) l ps) }

/-- `wl_list_remove`. -/
def without (ps : List ProxyId) (p : ProxyId) : List ProxyId := ps.filter fun q => decide (q ≠ p)

/-! ### Nodes of the scene -/

/-- The tree of the proxy `x` is a child of layer `l` now. -/
def setLayer (p : ProxyId) (x : Proxy) (l : WorkspaceLayer) (m : Membership) : Membership :=
  { m with proxy := Function.update m.proxy p (some { x with layer := l }) }

/-- `ky_scene_node_reparent` of the tree of a proxy to a layer of its workspace. -/
def nodeReparent (c : Scene) (l : WorkspaceLayer) (p : ProxyId) : Scene :=
  match c.mem.proxy p with
  | none => c
  | some x =>
    if x.layer = l then c
    else
      let c := c.setChildren x.workspace x.layer (without (c.children x.workspace x.layer) p)
      let c := c.setChildren x.workspace l (p :: c.children x.workspace l)
      c.write (setLayer p x l)

/-- `ky_scene_node_raise_to_top` on the tree of a proxy. -/
def nodeRaiseToTop (c : Scene) (p : ProxyId) : Scene :=
  match c.mem.proxy p with
  | none => c
  | some x =>
    c.setChildren x.workspace x.layer (p :: without (c.children x.workspace x.layer) p)

/-! ### Proxies -/

def viewProxyCreate (c : Scene) (v : ViewId) (w : WorkspaceId) : Scene :=
  let l := Membership.View.proxyLayer (c.mem.view v)
  (c.setChildren w l (c.mem.next :: c.children w l)).write (·.viewProxyCreate v w)

def viewProxyDestroy (c : Scene) (p : ProxyId) : Scene :=
  match c.mem.proxy p with
  | none => c
  | some x =>
    (c.setChildren x.workspace x.layer (without (c.children x.workspace x.layer) p)).write
      (·.viewProxyDestroy p)

def viewProxiesDestroy (c : Scene) (v : ViewId) : Option Scene := do
  let c := (c.mem.view v).proxies.foldl viewProxyDestroy c
  let m ← c.mem.viewClearCurrentProxy v
  some { c with mem := m }

/-! ### Modal views and their parents -/

/-- `Membership.parentLoop`. -/
def parentLoop (call : Scene → Option Scene) : ℕ → Scene → Option ViewId → Option Scene
  | _, c, none => some c
  | 0, _, some _ => none
  | n + 1, c, some parent => do
    let c ← call c
    if (c.mem.view parent).modal then some c else parentLoop call n c (c.mem.view parent).parent

/-- `Membership.forModalParents`. -/
def forModalParents (call : Scene → ViewId → Option Scene) (c : Scene) (v : ViewId) : Option Scene :=
  match (c.mem.view v).modal, (c.mem.view v).parent with
  | true, some parent => parentLoop (fun c => call c parent) c.mem.fuel c (some parent)
  | _, _ => some c

def proxyIn (c : Scene) (v : ViewId) (w : WorkspaceId) : Scene × ProxyId :=
  match c.mem.viewProxyByWorkspace v w with
  | some p => (c, p)
  | none => (c.viewProxyCreate v w, c.mem.next)

def viewDoSetWorkspace (w : WorkspaceId) : ℕ → Scene → ViewId → Option Scene
  | 0, _, _ => none
  | n + 1, c, v => do
    let c ← forModalParents (viewDoSetWorkspace w n) c v
    let (c, p) := c.proxyIn v w
    let c := if (c.mem.view v).treeParent ≠ .proxy p then c.write (·.viewSetCurrentProxy v p) else c
    let c := ((c.mem.view v).proxies.filter fun q => decide (q ≠ p)).foldl viewProxyDestroy c
    some (c.write (·.clearSticky v))

def viewSetWorkspace (c : Scene) (v : ViewId) (w : WorkspaceId) : Option Scene :=
  viewDoSetWorkspace w c.mem.fuel c v

def viewUnsetWorkspace (c : Scene) (v : ViewId) (layer : Layer) : Option Scene :=
  if layer = .below ∨ layer = .normal ∨ layer = .above then none
  else
    let c := c.write fun m => m.setView v { m.view v with treeParent := .layer layer }
    if (c.mem.view v).current = none then some c else c.viewProxiesDestroy v

def viewAddWorkspace (current : Option WorkspaceId) (w : WorkspaceId) :
    ℕ → Scene → ViewId → Option (Scene × Option ProxyId)
  | 0, _, _ => none
  | n + 1, c, v => do
    let c ← forModalParents (fun c p => (viewAddWorkspace current w n c p).map Prod.fst) c v
    match c.mem.viewProxyByWorkspace v w with
    | some _ => some (c, none)
    | none =>
      let p := c.mem.next
      let c := c.viewProxyCreate v w
      some (if current = some w then c.write (·.viewSetCurrentProxy v p) else c, some p)

def viewAdd (current : Option WorkspaceId) (c : Scene) (v : ViewId) (w : WorkspaceId) :
    Option Scene :=
  (viewAddWorkspace current w c.mem.fuel c v).map Prod.fst

def viewAddAllWorkspace (current : Option WorkspaceId) (order : List WorkspaceId) (c : Scene)
    (v : ViewId) : Option Scene :=
  if (c.mem.view v).sticky then some c
  else do
    let c ← order.foldlM (fun c w => viewAdd current c v w) c
    some (c.write fun m => m.setView v { m.view v with sticky := true })

def viewRemoveWorkspace (current : Option WorkspaceId) (order : List WorkspaceId)
    (w : WorkspaceId) : ℕ → Scene → ViewId → Option Scene
  | 0, _, _ => none
  | n + 1, c, v => do
    let c ← forModalParents (viewRemoveWorkspace current order w n) c v
    match c.mem.viewProxyByWorkspace v w with
    | none => some c
    | some p =>
      match (c.mem.view v).proxies.reverse.find? fun q => decide (q ≠ p) with
      | none => viewAddAllWorkspace current order c v
      | some q =>
        let c := if (c.mem.view v).current = some p then c.write (·.viewSetCurrentProxy v q) else c
        some ((c.viewProxyDestroy p).write (·.clearSticky v))

/-! ### Raising -/

/-- A proxy becomes the first of its workspace. -/
def listFirst (w : WorkspaceId) (p : ProxyId) (m : Membership) : Membership :=
  { m with listed := Function.update m.listed w (p :: without (m.listed w) p) }

/-- One proxy goes to the top of its workspace and of its layer. -/
def raiseProxy (c : Scene) (p : ProxyId) : Scene :=
  match c.mem.proxy p with
  | none => c
  | some x => (c.write (listFirst x.workspace p)).nodeRaiseToTop p

/-- Every proxy of a view that has a current one; otherwise only `view->tree` is raised. -/
def raiseProxies (c : Scene) (v : ViewId) : Scene :=
  if (c.mem.view v).current = none then c else (c.mem.view v).proxies.foldl raiseProxy c

/-- `view_raise_to_top`: the parents first, then the view, then its children. -/
def viewRaiseToTop : ℕ → Scene → ViewId → Bool → Option Scene
  | 0, _, _, _ => none
  | n + 1, c, v, findParent => do
    let parent := if findParent then (c.mem.view v).parent else none
    let c ← parent.elim (some c) fun parent => viewRaiseToTop n c parent true
    let c := c.raiseProxies v
    (c.mem.view v).children.foldlM (fun c child => viewRaiseToTop n c child false) c

/-! ### Layers and parents -/

/-- The loop that reparents every proxy of a view. -/
def moveProxies (c : Scene) (v : ViewId) (l : WorkspaceLayer) : Scene :=
  (c.mem.view v).proxies.foldl (·.nodeReparent l) c

def viewSetLayerInWorkspace (c : Scene) (v : ViewId) (layer : Layer) : Scene :=
  if (c.mem.view v).current = none then c
  else if layer = .active then
    c.write fun m => m.setView v { m.view v with treeParent := .layer .active }
  else
    match workspaceLayer layer with
    | none => c
    | some l => c.moveProxies v l

def viewFollowParentLayer (current : Option WorkspaceId) (c : Scene) (v parent : ViewId)
    (layer : Layer) : Option Scene :=
  match (c.mem.view v).current, (c.mem.view parent).current with
  | some _, some _ => some (c.viewSetLayerInWorkspace v layer)
  | some _, none => c.viewUnsetWorkspace v layer
  | none, some q => do
    let proxy ← c.mem.proxy q
    let c ← viewAdd current c v proxy.workspace
    some (c.viewSetLayerInWorkspace v layer)
  | none, none => some (c.write fun m => m.setView v { m.view v with treeParent := .layer layer })

def raiseToParent (current : Option WorkspaceId) (c : Scene) (v : ViewId) :
    Option ViewId → Option Scene
  | none => some c
  | some parent => do
    let parentLayer ← c.mem.layerByNode parent
    let layer ← c.mem.layerByNode v
    if parentLayer.rank > layer.rank then viewFollowParentLayer current c v parent parentLayer
    else some c

def viewSetParent (current : Option WorkspaceId) (c : Scene) (v : ViewId)
    (parent : Option ViewId) : Option Scene :=
  if (c.mem.view v).parent = parent then some c
  else do
    let c ← raiseToParent current (c.write (·.relink v parent)) v parent
    some (c.write fun m => m.setView v { m.view v with parent := parent })

def viewSetKeptAbove (c : Scene) (v : ViewId) (keptAbove : Bool) : Option Scene :=
  let x := c.mem.view v
  if x.current = none then none
  else if x.keptAbove = keptAbove then some c
  else
    let c := c.write (·.setView v { x with keptAbove := keptAbove, keptBelow := false })
    some (c.moveProxies v (if keptAbove then .above else .normal))

def viewSetKeptBelow (c : Scene) (v : ViewId) (keptBelow : Bool) : Option Scene :=
  let x := c.mem.view v
  if x.current = none then none
  else if x.keptBelow = keptBelow then some c
  else
    let c := c.write (·.setView v { x with keptBelow := keptBelow, keptAbove := false })
    some (c.moveProxies v (if keptBelow then .below else .normal))

/-- No view. -/
def empty : Scene where
  mem := .empty
  children := fun _ _ => []

end Scene

/-! ### The desktop -/

structure Desk where
  mgr : Manager
  scene : Scene

namespace Desk

/-- The desktop without the scene. -/
def state (d : Desk) : State := ⟨d.mgr, d.scene.mem⟩

/-- A function that touches no proxy. -/
def write (d : Desk) (f : State → State) : Desk :=
  { mgr := (f d.state).mgr, scene := { d.scene with mem := (f d.state).mem } }

def autoAddView (current : Option WorkspaceId) (w : WorkspaceId) (c : Scene) (p : ProxyId) :
    Option Scene :=
  match c.mem.proxy p with
  | none => some c
  | some x => if (c.mem.view x.view).sticky then c.viewAdd current x.view w else some c

def workspaceCreate (d : Desk) (name : Option String) (position : ℕ) : Option Desk :=
  if d.mgr.count = MAX_WORKSPACES then some d
  else do
    let m := d.mgr.insert name position
    let scene ← (d.scene.mem.listed (m.slots 0)).foldlM (autoAddView m.current d.mgr.next) d.scene
    some ⟨m, scene⟩

def moveToTarget (current : Option WorkspaceId) (target : WorkspaceId) (c : Scene) (p : ProxyId) :
    Option Scene :=
  match c.mem.proxy p with
  | none => some c
  | some x => do
    let (c, new) ← c.viewAddWorkspace current target c.mem.fuel x.view
    let c := match new with
      | none => c
      | some q => c.write (·.viewSetCurrentProxy x.view q)
    some (c.viewProxyDestroy p)

def fixWorkspace (d : Desk) (w : WorkspaceId) : Option Desk :=
  let d := { d with mgr := d.mgr.remove w }
  if d.mgr.count = 0 then some d
  else do
    let target := d.mgr.successor w
    let d := if d.mgr.current = some w then d.write (workspaceActivate · target) else d
    let scene ← (d.scene.mem.listed w).foldlM (moveToTarget d.mgr.current target) d.scene
    some { d with scene := scene }

def workspaceDestroy (d : Desk) (w : WorkspaceId) : Option Desk := do
  let d ← d.fixWorkspace w
  some { d with mgr := d.mgr.free w }

/-- The desktop after `handle_server_ready`, when there are no views. -/
def ready (numWorkspaces : ℕ) : Option Desk :=
  (handleServerReady numWorkspaces).map fun s => ⟨s.mgr, .empty⟩

end Desk

/-! ### Events -/

inductive Event where
  | desktop (e : Workspaces.Event)
  | viewRaiseToTop (v : ViewId) (findParent : Bool)
  deriving DecidableEq, Repr

/-- An event on views, when all it names are there. -/
def onViews (d : Desk) (vs : List ViewId) (scene : Option Scene) : Option Desk :=
  if ∀ v ∈ vs, v ∈ d.scene.mem.views then scene.map fun scene => { d with scene := scene } else none

/-- An event on a view and a live workspace. -/
def onWorkspace (d : Desk) (v : ViewId) (w : WorkspaceId) (scene : Option Scene) : Option Desk :=
  if d.mgr.live w then onViews d [v] scene else none

/-- The events of `Workspaces.step`, with what they do to the scene. -/
def desktopStep (d : Desk) : Workspaces.Event → Option Desk
  | .workspaceCreate name position => d.workspaceCreate name position
  | .workspaceDestroy w => if d.mgr.live w ∧ 1 < d.mgr.count then d.workspaceDestroy w else none
  | .viewInit v =>
    match d.mgr.current with
    | none => none
    | some w =>
      if v ∈ d.scene.mem.views then none
      else ((d.scene.write (·.newView v w)).viewSetWorkspace v w).map fun scene =>
        { d with scene := scene }
  | .viewSetWorkspace v w => onWorkspace d v w (d.scene.viewSetWorkspace v w)
  | .viewUnsetWorkspace v layer => onViews d [v] (d.scene.viewUnsetWorkspace v layer)
  | .viewAddWorkspace v w => onWorkspace d v w (d.scene.viewAdd d.mgr.current v w)
  | .viewRemoveWorkspace v w =>
    onWorkspace d v w
      (d.scene.viewRemoveWorkspace d.mgr.current d.mgr.order w d.scene.mem.fuel v)
  | .viewAddAllWorkspace v =>
    onViews d [v] (d.scene.viewAddAllWorkspace d.mgr.current d.mgr.order v)
  | .viewSetParent v parent =>
    onViews d (v :: parent.toList) (d.scene.viewSetParent d.mgr.current v parent)
  | .viewSetKeptAbove v keptAbove => onViews d [v] (d.scene.viewSetKeptAbove v keptAbove)
  | .viewSetKeptBelow v keptBelow => onViews d [v] (d.scene.viewSetKeptBelow v keptBelow)
  -- the other events touch no proxy
  | e => (Workspaces.step d.state e).map fun s => d.write fun _ => s

/-- Calls that suffice for a walk up and down acyclic parents. -/
def raiseFuel (c : Scene) : ℕ := 2 * c.mem.fuel

def step (d : Desk) : Event → Option Desk
  | .desktop e => desktopStep d e
  | .viewRaiseToTop v findParent =>
    onViews d [v] (d.scene.viewRaiseToTop (raiseFuel d.scene) v findParent)

/-! ### The topmost view -/

/-- The loop of `view_activate_topmost`: the first view that is mapped, not minimized and
    activatable (`eligible`), unless it wants to be offered the focus. -/
def activateTopmost (eligible offerFocus : ViewId → Bool) (c : Scene) (w : WorkspaceId) :
    Option ProxyId :=
  match (c.mem.listed w).find? fun p => (c.mem.proxy p).any fun x => eligible x.view with
  | none => none
  | some p => if (c.mem.proxy p).any fun x => offerFocus x.view then none else some p

end FlakeWm.Stacking
