import FlakeWm.Schemes.Run
import FlakeWm.Workspaces.Membership

/-! The desktop: the workspaces together with the views in them.

    The functions of `view/workspace.c` change the array first and then move views between
    workspaces. The run starts with `handle_server_ready`; an event is one call of the functions
    below, by a client request, a shortcut or the window menu. Show-desktop, focus and the effects
    that `workspace_activate` also triggers are left out; of them only `view_reparent_fullscreen`
    touches the trees of views, and it is an event of its own. -/

namespace FlakeWm.Workspaces

structure State where
  mgr : Manager
  mem : Membership

/-! ### Activation -/

def workspaceSetActivated (s : State) (w : WorkspaceId) (activated : Bool) : State :=
  if (s.mgr.workspace w).activated = activated then s
  else { mgr := s.mgr.setActivated w activated, mem := s.mem.showProxies w }

def setCurrent (s : State) (w : WorkspaceId) : State :=
  { s with mgr := { s.mgr with current := some w } }

def workspaceActivate (s : State) (w : WorkspaceId) : State :=
  if s.mgr.current = some w then s
  else
    let s := match s.mgr.current with
      | none => s
      | some old => workspaceSetActivated s old false
    workspaceSetActivated (setCurrent s w) w true

/-! ### Creation and destruction -/

/-- One round of the loop in `workspace_auto_add_views`. -/
def autoAddView (current : Option WorkspaceId) (w : WorkspaceId) (mem : Membership) (p : ProxyId) :
    Option Membership :=
  match mem.proxy p with
  | none => some mem
  | some x => if (mem.view x.view).sticky then Membership.viewAdd current mem x.view w else some mem

/-- The sticky views of the first workspace join the new one. -/
def workspaceAutoAddViews (s : State) (w : WorkspaceId) : Option State := do
  let mem ← (s.mem.listed (s.mgr.slots 0)).foldlM (autoAddView s.mgr.current w) s.mem
  some { s with mem := mem }

/-- A full manager rejects the request. -/
def workspaceCreate (s : State) (name : Option String) (position : ℕ) : Option State :=
  if s.mgr.count = MAX_WORKSPACES then some s
  else workspaceAutoAddViews { s with mgr := s.mgr.insert name position } s.mgr.next

/-- The loop body at the end of `fix_workspace`: the view of the proxy moves to `target`. -/
def moveToTarget (current : Option WorkspaceId) (target : WorkspaceId) (mem : Membership)
    (p : ProxyId) : Option Membership :=
  match mem.proxy p with
  | none => some mem
  | some x => do
    let (mem, new) ← Membership.viewAddWorkspace current target mem.fuel mem x.view
    let mem := match new with
      | none => mem
      | some q => mem.viewSetCurrentProxy x.view q
    some (mem.viewProxyDestroy p)

def fixWorkspace (s : State) (w : WorkspaceId) : Option State :=
  let s := { s with mgr := s.mgr.remove w }
  if s.mgr.count = 0 then some s
  else do
    let target := s.mgr.successor w
    let s := if s.mgr.current = some w then workspaceActivate s target else s
    let mem ← (s.mem.listed w).foldlM (moveToTarget s.mgr.current target) s.mem
    some { s with mem := mem }

def workspaceDestroy (s : State) (w : WorkspaceId) : Option State := do
  let s ← fixWorkspace s w
  some { s with mgr := s.mgr.free w }

/-- The default workspace is created and activated, then the configured ones. -/
def handleServerReady (numWorkspaces : ℕ) : Option State := do
  let s ← workspaceCreate ⟨Manager.empty, Membership.empty⟩ none 0
  let s := workspaceActivate s Manager.empty.next
  (List.range' 1 (numWorkspaces - 1)).foldlM (fun s i => workspaceCreate s none i) s

/-! ### Events -/

inductive Event where
  | workspaceCreate (name : Option String) (position : ℕ)
  | workspaceDestroy (w : WorkspaceId)
  | workspaceActivate (w : WorkspaceId)
  | workspaceSetPosition (w : WorkspaceId) (position : ℕ)
  | viewInit (v : ViewId)
  | viewSetModal (v : ViewId) (modal : Bool)
  | viewSetWorkspace (v : ViewId) (w : WorkspaceId)
  | viewUnsetWorkspace (v : ViewId) (layer : Layer)
  | viewAddWorkspace (v : ViewId) (w : WorkspaceId)
  | viewRemoveWorkspace (v : ViewId) (w : WorkspaceId)
  | viewAddAllWorkspace (v : ViewId)
  | viewSetParent (v : ViewId) (parent : Option ViewId)
  | viewSetKeptAbove (v : ViewId) (keptAbove : Bool)
  | viewSetKeptBelow (v : ViewId) (keptBelow : Bool)
  | viewReparentFullscreen (v : ViewId) (active : Bool)
  | clientBind
  | clientStop (c : ClientId)
  | clientRelease (c : ClientId) (w : WorkspaceId)
  deriving DecidableEq, Repr

/-- An event on views, when all it names are there. -/
def onViews (s : State) (vs : List ViewId) (mem : Option Membership) : Option State :=
  if ∀ v ∈ vs, v ∈ s.mem.views then mem.map fun mem => { s with mem := mem } else none

/-- An event on a view and a live workspace. -/
def onWorkspace (s : State) (v : ViewId) (w : WorkspaceId) (mem : Option Membership) :
    Option State :=
  if s.mgr.live w then onViews s [v] mem else none

/-- One event. Requests name live workspaces and views, and the last workspace is not destroyed. -/
def step (s : State) : Event → Option State
  | .workspaceCreate name position => workspaceCreate s name position
  | .workspaceDestroy w =>
    if s.mgr.live w ∧ 1 < s.mgr.count then workspaceDestroy s w else none
  | .workspaceActivate w => if s.mgr.live w then some (workspaceActivate s w) else none
  | .workspaceSetPosition w position =>
    if s.mgr.live w then some { s with mgr := s.mgr.workspaceSetPosition w position } else none
  | .viewInit v =>
    match s.mgr.current with
    | none => none
    | some w =>
      if v ∈ s.mem.views then none
      else ((s.mem.newView v w).viewSetWorkspace v w).map fun mem => { s with mem := mem }
  | .viewSetModal v modal =>
    onViews s [v] (some (s.mem.setView v { s.mem.view v with modal := modal }))
  | .viewSetWorkspace v w => onWorkspace s v w (s.mem.viewSetWorkspace v w)
  | .viewUnsetWorkspace v layer => onViews s [v] (s.mem.viewUnsetWorkspace v layer)
  | .viewAddWorkspace v w => onWorkspace s v w (Membership.viewAdd s.mgr.current s.mem v w)
  | .viewRemoveWorkspace v w =>
    onWorkspace s v w
      (Membership.viewRemoveWorkspace s.mgr.current s.mgr.order w s.mem.fuel s.mem v)
  | .viewAddAllWorkspace v =>
    onViews s [v] (Membership.viewAddAllWorkspace s.mgr.current s.mgr.order s.mem v)
  | .viewSetParent v parent =>
    onViews s (v :: parent.toList) (Membership.viewSetParent s.mgr.current s.mem v parent)
  | .viewSetKeptAbove v keptAbove => onViews s [v] (s.mem.viewSetKeptAbove v keptAbove)
  | .viewSetKeptBelow v keptBelow => onViews s [v] (s.mem.viewSetKeptBelow v keptBelow)
  | .viewReparentFullscreen v active =>
    onViews s [v] (some (s.mem.viewReparentFullscreen v active))
  | .clientBind => some { s with mgr := s.mgr.bind }
  | .clientStop c => some { s with mgr := s.mgr.stop c }
  | .clientRelease c w => some { s with mgr := s.mgr.release c w }

end FlakeWm.Workspaces
