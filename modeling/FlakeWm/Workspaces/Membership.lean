import FlakeWm.Workspaces.Manager

/-! Which views are in which workspaces (`view/view.c`).

    A `view_proxy` stands for one view in one workspace. It is linked into the list of its view and
    the list of its workspace, and owns the scene tree that carries the view while that workspace is
    shown; `current_proxy` is the proxy that carries it now. A proxy that was freed is `none`, so a
    pointer to it dangles.

    Modal views take their parents along: the three membership functions walk up the parents and
    call themselves on `view->parent` in every round. A cycle of parents makes that walk endless,
    which is what running out of fuel stands for. `none` is such a walk, a failed assertion, or the
    use of a tree that went away with a destroyed proxy. Signals are left out. -/

namespace FlakeWm.Workspaces

abbrev ViewId := ℕ
abbrev ProxyId := ℕ

inductive Layer where
  | desktop | watermark | below | normal | dock | above | notification | active | systemWindow
  | switcher | popup | inputPanel | criticalNotification | logout | unmanaged | screenLock
  | screenLockNotification | onScreenDisplay
  deriving DecidableEq, Repr

/-- The value of the `enum layer`, which orders the layers from bottom to top. -/
def Layer.rank (l : Layer) : ℕ := l.ctorIdx

/-- The layers of a workspace. -/
inductive WorkspaceLayer where
  | below | normal | above
  deriving DecidableEq, Repr

def WorkspaceLayer.layer : WorkspaceLayer → Layer
  | .below => .below
  | .normal => .normal
  | .above => .above

/-- `none` is a layer that workspaces do not have. -/
def workspaceLayer : Layer → Option WorkspaceLayer
  | .below => some .below
  | .normal => some .normal
  | .above => some .above
  | _ => none

/-- The parent of a view tree in the scene. -/
inductive TreeParent where
  | proxy (p : ProxyId)
  | layer (l : Layer)
  | workspaceLayer (w : WorkspaceId) (l : WorkspaceLayer)
  | destroyed
  deriving DecidableEq, Repr

structure Proxy where
  view : ViewId
  workspace : WorkspaceId
  layer : WorkspaceLayer
  deriving DecidableEq, Repr

/-- The fields of `struct view` that decide its membership. -/
structure View where
  parent : Option ViewId
  children : List ViewId
  modal : Bool
  sticky : Bool
  keptAbove : Bool
  keptBelow : Bool
  proxies : List ProxyId
  current : Option ProxyId
  treeParent : TreeParent
  deriving DecidableEq, Repr

/-- All views and proxies; `listed w` is `workspace->view_proxies`. -/
structure Membership where
  views : List ViewId
  view : ViewId → View
  proxy : ProxyId → Option Proxy
  listed : WorkspaceId → List ProxyId
  next : ProxyId

namespace Membership

def setView (m : Membership) (v : ViewId) (x : View) : Membership :=
  { m with view := Function.update m.view v x }

/-- Rounds that suffice for a walk up acyclic parents. -/
def fuel (m : Membership) : ℕ := m.views.length + 1

/-! ### Proxies -/

def viewProxyByWorkspace (m : Membership) (v : ViewId) (w : WorkspaceId) : Option ProxyId :=
  (m.view v).proxies.find? fun p => (m.proxy p).any (·.workspace = w)

/-- The layer that `view_proxy_create` puts a new proxy into. -/
def View.proxyLayer (x : View) : WorkspaceLayer :=
  if x.keptAbove then .above else if x.keptBelow then .below else .normal

def viewProxyCreate (m : Membership) (v : ViewId) (w : WorkspaceId) : Membership :=
  let x := m.view v
  let p := m.next
  { m.setView v { x with proxies := p :: x.proxies } with
    proxy := Function.update m.proxy p (some ⟨v, w, View.proxyLayer x⟩)
    listed := Function.update m.listed w (p :: m.listed w)
    next := p + 1 }

/-- The tree of the proxy goes away with everything that is below it. -/
def viewProxyDestroy (m : Membership) (p : ProxyId) : Membership :=
  match m.proxy p with
  | none => m
  | some x =>
    let view := m.view x.view
    { m.setView x.view { view with
        proxies := view.proxies.filter fun q => decide (q ≠ p)
        treeParent := if view.treeParent = .proxy p then .destroyed else view.treeParent } with
      proxy := Function.update m.proxy p none
      listed := Function.update m.listed x.workspace
        ((m.listed x.workspace).filter fun q => decide (q ≠ p)) }

/-- `view_set_current_proxy` with a proxy. -/
def viewSetCurrentProxy (m : Membership) (v : ViewId) (p : ProxyId) : Membership :=
  let x := m.view v
  if x.current = some p then m
  else m.setView v { x with treeParent := .proxy p, current := some p }

/-- `view_set_current_proxy(view, NULL)`, with its assertion. -/
def viewClearCurrentProxy (m : Membership) (v : ViewId) : Option Membership :=
  let x := m.view v
  if x.current = none then some m
  else if x.proxies ≠ [] then none
  else some (m.setView v { x with current := none })

def viewProxiesDestroy (m : Membership) (v : ViewId) : Option Membership :=
  viewClearCurrentProxy ((m.view v).proxies.foldl viewProxyDestroy m) v

/-! ### Modal views and their parents -/

/-- The `while (parent)` loop: one call in every round, until a modal parent was passed. -/
def parentLoop (call : Membership → Option Membership) :
    ℕ → Membership → Option ViewId → Option Membership
  | _, m, none => some m
  | 0, _, some _ => none
  | n + 1, m, some parent => do
    let m ← call m
    if (m.view parent).modal then some m else parentLoop call n m (m.view parent).parent

/-- What the membership functions do first: if the view is modal, `call` on its parent. -/
def forModalParents (call : Membership → ViewId → Option Membership) (m : Membership) (v : ViewId) :
    Option Membership :=
  match (m.view v).modal, (m.view v).parent with
  | true, some parent => parentLoop (fun m => call m parent) m.fuel m (some parent)
  | _, _ => some m

def clearSticky (m : Membership) (v : ViewId) : Membership :=
  if (m.view v).sticky then m.setView v { m.view v with sticky := false } else m

/-- The proxy of the view in the workspace, created when there is none. -/
def proxyIn (m : Membership) (v : ViewId) (w : WorkspaceId) : Membership × ProxyId :=
  match m.viewProxyByWorkspace v w with
  | some p => (m, p)
  | none => (m.viewProxyCreate v w, m.next)

/-- `view_do_set_workspace` with a workspace. -/
def viewDoSetWorkspace (w : WorkspaceId) : ℕ → Membership → ViewId → Option Membership
  | 0, _, _ => none
  | n + 1, m, v => do
    let m ← forModalParents (viewDoSetWorkspace w n) m v
    let (m, p) := m.proxyIn v w
    let m := if (m.view v).treeParent ≠ .proxy p then m.viewSetCurrentProxy v p else m
    let m := ((m.view v).proxies.filter fun q => decide (q ≠ p)).foldl viewProxyDestroy m
    some (m.clearSticky v)

def viewSetWorkspace (m : Membership) (v : ViewId) (w : WorkspaceId) : Option Membership :=
  viewDoSetWorkspace w m.fuel m v

def viewUnsetWorkspace (m : Membership) (v : ViewId) (layer : Layer) : Option Membership :=
  if layer = .below ∨ layer = .normal ∨ layer = .above then none
  else
    let m := m.setView v { m.view v with treeParent := .layer layer }
    if (m.view v).current = none then some m else m.viewProxiesDestroy v

/-- `view_add_workspace`, with the proxy it returns; `current` is the workspace shown now. -/
def viewAddWorkspace (current : Option WorkspaceId) (w : WorkspaceId) :
    ℕ → Membership → ViewId → Option (Membership × Option ProxyId)
  | 0, _, _ => none
  | n + 1, m, v => do
    let m ← forModalParents (fun m p => (viewAddWorkspace current w n m p).map Prod.fst) m v
    match m.viewProxyByWorkspace v w with
    | some _ => some (m, none)
    | none =>
      let p := m.next
      let m := m.viewProxyCreate v w
      some (if current = some w then m.viewSetCurrentProxy v p else m, some p)

/-- The new members only. -/
def viewAdd (current : Option WorkspaceId) (m : Membership) (v : ViewId) (w : WorkspaceId) :
    Option Membership :=
  (viewAddWorkspace current w m.fuel m v).map Prod.fst

/-- `order` are the workspaces by position. -/
def viewAddAllWorkspace (current : Option WorkspaceId) (order : List WorkspaceId) (m : Membership)
    (v : ViewId) : Option Membership :=
  if (m.view v).sticky then some m
  else do
    let m ← order.foldlM (fun m w => viewAdd current m v w) m
    some (m.setView v { m.view v with sticky := true })

def viewRemoveWorkspace (current : Option WorkspaceId) (order : List WorkspaceId) (w : WorkspaceId) :
    ℕ → Membership → ViewId → Option Membership
  | 0, _, _ => none
  | n + 1, m, v => do
    let m ← forModalParents (viewRemoveWorkspace current order w n) m v
    match m.viewProxyByWorkspace v w with
    | none => some m
    | some p =>
      match (m.view v).proxies.reverse.find? fun q => decide (q ≠ p) with
      | none => viewAddAllWorkspace current order m v
      | some q =>
        let m := if (m.view v).current = some p then m.viewSetCurrentProxy v q else m
        some ((m.viewProxyDestroy p).clearSticky v)

/-! ### Layers and parents -/

/-- `view_manager_get_layer_by_node(.., false)` on the tree of a view. -/
def layerByNode (m : Membership) (v : ViewId) : Option Layer :=
  match (m.view v).treeParent with
  | .proxy p => (m.proxy p).map (·.layer.layer)
  | .layer l => some l
  | .workspaceLayer _ l => some l.layer
  | .destroyed => none

/-- Every proxy of the view moves to a layer of its workspace. -/
def moveProxies (m : Membership) (v : ViewId) (l : WorkspaceLayer) : Membership :=
  { m with
    proxy := fun p =>
      if p ∈ (m.view v).proxies then (m.proxy p).map ({ · with layer := l }) else m.proxy p }

def viewSetLayerInWorkspace (m : Membership) (v : ViewId) (layer : Layer) : Membership :=
  if (m.view v).current = none then m
  else if layer = .active then m.setView v { m.view v with treeParent := .layer .active }
  else
    match workspaceLayer layer with
    | none => m
    | some l => m.moveProxies v l

/-- `view_follow_parent_layer`; the parent is in `layer`. -/
def viewFollowParentLayer (current : Option WorkspaceId) (m : Membership) (v parent : ViewId)
    (layer : Layer) : Option Membership :=
  match (m.view v).current, (m.view parent).current with
  | some _, some _ => some (m.viewSetLayerInWorkspace v layer)
  | some _, none => m.viewUnsetWorkspace v layer
  | none, some q => do
    let proxy ← m.proxy q
    let m ← viewAdd current m v proxy.workspace
    some (m.viewSetLayerInWorkspace v layer)
  | none, none => some (m.setView v { m.view v with treeParent := .layer layer })

/-- The children lists after the view left its parent and joined another one. -/
def relink (m : Membership) (v : ViewId) (parent : Option ViewId) : Membership :=
  { m with
    view := fun u =>
      let x := m.view u
      let kept := if (m.view v).parent = some u then x.children.filter fun c => decide (c ≠ v)
        else x.children
      { x with children := if parent = some u then v :: kept else kept } }

/-- The middle of `view_set_parent`: a view goes up to the layer of its new parent. -/
def raiseToParent (current : Option WorkspaceId) (m : Membership) (v : ViewId) :
    Option ViewId → Option Membership
  | none => some m
  | some parent => do
    let parentLayer ← m.layerByNode parent
    let layer ← m.layerByNode v
    if parentLayer.rank > layer.rank then viewFollowParentLayer current m v parent parentLayer
    else some m

def viewSetParent (current : Option WorkspaceId) (m : Membership) (v : ViewId)
    (parent : Option ViewId) : Option Membership :=
  if (m.view v).parent = parent then some m
  else do
    let m ← raiseToParent current (m.relink v parent) v parent
    some (m.setView v { m.view v with parent := parent })

/-- `kywc_view_set_kept_above`, with its assertion. -/
def viewSetKeptAbove (m : Membership) (v : ViewId) (keptAbove : Bool) : Option Membership :=
  let x := m.view v
  if x.current = none then none
  else if x.keptAbove = keptAbove then some m
  else
    let m := m.setView v { x with keptAbove := keptAbove, keptBelow := false }
    some (m.moveProxies v (if keptAbove then .above else .normal))

/-- `kywc_view_set_kept_below`, with its assertion. -/
def viewSetKeptBelow (m : Membership) (v : ViewId) (keptBelow : Bool) : Option Membership :=
  let x := m.view v
  if x.current = none then none
  else if x.keptBelow = keptBelow then some m
  else
    let m := m.setView v { x with keptBelow := keptBelow, keptAbove := false }
    some (m.moveProxies v (if keptBelow then .below else .normal))

/-- `view_reparent_fullscreen` on one view. -/
def viewReparentFullscreen (m : Membership) (v : ViewId) (active : Bool) : Membership :=
  let x := m.view v
  if active then m.setView v { x with treeParent := .layer .active }
  else
    match x.current with
    | none => m
    | some p => m.setView v { x with treeParent := .proxy p }

/-- `view_init` up to its workspace, for a view that is shown in `w`. -/
def newView (m : Membership) (v : ViewId) (w : WorkspaceId) : Membership :=
  { m.setView v
      { parent := none, children := [], modal := false, sticky := false, keptAbove := false,
        keptBelow := false, proxies := [], current := none,
        treeParent := .workspaceLayer w .normal } with
    views := v :: m.views }

/-- One round of the loop in `workspace_set_activated`. -/
def showProxy (m : Membership) (p : ProxyId) : Membership :=
  match m.proxy p with
  | none => m
  | some x => m.viewSetCurrentProxy x.view p

/-- `workspace_set_activated`: every view of the workspace is carried by its proxy there. -/
def showProxies (m : Membership) (w : WorkspaceId) : Membership := (m.listed w).foldl showProxy m

/-- No view. -/
def empty : Membership where
  views := []
  view := fun _ => ⟨none, [], false, false, false, false, [], none, .destroyed⟩
  proxy := fun _ => none
  listed := fun _ => []
  next := 0

end Membership

end FlakeWm.Workspaces
