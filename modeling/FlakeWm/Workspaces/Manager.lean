import FlakeWm.Schemes.Slots

/-! The array of workspaces (`view/workspace.c`) and what its clients are told
    (`view/ky_workspace.c`).

    The manager keeps its workspaces in an array of `MAX_WORKSPACES` pointers, of which the first
    `count` are used, and every workspace keeps its own index in `position`. Creation, removal and
    `workspace_set_position` shift a range of the array in place. The name and position signals go to
    the `kywc_workspace` clients: `mirror c w` is what client `c` was last told about `w`.

    Workspaces are never allocated at an address that was used before, allocation succeeds, and
    `tr("Desktop")` is untranslated. Rows, columns and identifiers are left out. -/

namespace FlakeWm.Workspaces

abbrev WorkspaceId := ℕ
abbrev ClientId := ℕ

def MAX_WORKSPACES : ℕ := 15

/-- `struct workspace`, without its proxies. -/
structure Workspace where
  name : String
  hasCustomName : Bool
  position : ℕ
  activated : Bool
  deriving DecidableEq, Repr

/-- What a client was told about a workspace. -/
structure Mirror where
  name : String
  position : ℕ
  activated : Bool
  deriving DecidableEq, Repr

/-- `struct workspace_manager`, with the workspaces it points to and the bound clients. -/
structure Manager where
  slots : ℕ → WorkspaceId
  count : ℕ
  current : Option WorkspaceId
  workspace : WorkspaceId → Workspace
  live : WorkspaceId → Bool
  next : WorkspaceId
  clients : List ClientId
  nextClient : ClientId
  mirror : ClientId → WorkspaceId → Option Mirror

namespace Manager

/-- The workspaces in array order. -/
def order (m : Manager) : List WorkspaceId := listing m.slots m.count

def setWorkspace (m : Manager) (w : WorkspaceId) (x : Workspace) : Manager :=
  { m with workspace := Function.update m.workspace w x }

/-! ### Signals -/

/-- A signal of `w` that makes every client with a resource for `w` update its mirror. -/
def notify (m : Manager) (w : WorkspaceId) (f : Workspace → Mirror → Mirror) : Manager :=
  { m with
    mirror := fun c => Function.update (m.mirror c) w ((m.mirror c w).map (f (m.workspace w))) }

/-- `events.name` and `handle_workspace_name`. -/
def emitName (m : Manager) (w : WorkspaceId) : Manager :=
  m.notify w fun x mirror => { mirror with name := x.name }

/-- `events.position` and `handle_workspace_position`. -/
def emitPosition (m : Manager) (w : WorkspaceId) : Manager :=
  m.notify w fun x mirror => { mirror with position := x.position }

/-- `events.activate` and `handle_workspace_activate`. -/
def emitActivate (m : Manager) (w : WorkspaceId) : Manager :=
  m.notify w fun x mirror => { mirror with activated := x.activated }

/-- `workspace_send_details_to_workspace_resource`. -/
def details (m : Manager) (w : WorkspaceId) : Mirror :=
  let x := m.workspace w
  ⟨x.name, x.position, x.activated⟩

/-- `events.new_workspace` and `handle_new_workspace`. -/
def emitNewWorkspace (m : Manager) (w : WorkspaceId) : Manager :=
  { m with
    mirror := fun c => if c ∈ m.clients then Function.update (m.mirror c) w (some (m.details w))
      else m.mirror c }

/-- `events.destroy` and `handle_workspace_destroy`: the resources of `w` become inert. -/
def emitDestroy (m : Manager) (w : WorkspaceId) : Manager :=
  { m with mirror := fun c => Function.update (m.mirror c) w none }

/-- `ky_workspace_manager_bind`. -/
def bind (m : Manager) : Manager :=
  let c := m.nextClient
  { m with
    clients := c :: m.clients
    nextClient := c + 1
    mirror := Function.update m.mirror c fun w =>
      if w ∈ m.order then some (m.details w) else none }

/-- `manager_handle_stop`: no further workspaces, but the resources of the known ones stay. -/
def stop (m : Manager) (c : ClientId) : Manager :=
  { m with clients := m.clients.filter fun c' => decide (c' ≠ c) }

/-- `workspace_handle_destroy`: a client gives up its resource for `w`. -/
def release (m : Manager) (c : ClientId) (w : WorkspaceId) : Manager :=
  { m with mirror := Function.update m.mirror c (Function.update (m.mirror c) w none) }

/-! ### Names and positions -/

/-- `string_create("%s %d", tr("Desktop"), position + 1)`. -/
def desktopName (position : ℕ) : String := "Desktop" ++ " " ++ toString (position + 1)

def updateName (m : Manager) (w : WorkspaceId) (name : Option String) : Manager :=
  let x := m.workspace w
  if x.hasCustomName && name.isNone then m
  else
    emitName (m.setWorkspace w { x with
      name := name.getD (desktopName x.position)
      hasCustomName := name.isSome }) w

/-- `workspaces[i] = w; w->position = i;`. -/
def putSlot (m : Manager) (i : ℕ) (w : WorkspaceId) : Manager :=
  { m with
    slots := Function.update m.slots i w
    workspace := Function.update m.workspace w { m.workspace w with position := i } }

/-- `workspaces[i] = workspaces[j]; workspaces[i]->position = i;`. -/
def moveSlot (m : Manager) (i j : ℕ) : Manager := m.putSlot i (m.slots j)

/-- The loop body of `fix_workspace` and `workspace_set_position`, which also tells the clients. -/
def renumberSlot (m : Manager) (i j : ℕ) : Manager :=
  let m := m.moveSlot i j
  let w := m.slots i
  updateName (m.emitPosition w) w none

/-! ### Creation, removal, moving, activation -/

/-- The workspace that `workspace_create` adds at `position`. -/
def allocate (m : Manager) (position : ℕ) : Manager :=
  let w := m.next
  { m with
    slots := Function.update m.slots position w
    count := m.count + 1
    workspace := Function.update m.workspace w ⟨"", false, position, false⟩
    live := Function.update m.live w true
    next := w + 1 }

/-- `workspace_create` up to `workspace_auto_add_views`, when there is room. -/
def insert (m : Manager) (name : Option String) (position : ℕ) : Manager :=
  let position := if position > m.count then m.count else position
  let w := m.next
  let m := downLoop m.count position (fun m i => m.moveSlot i (i - 1)) m
  let m := m.allocate position
  let m := m.updateName w name
  m.emitNewWorkspace w

/-- The first part of `fix_workspace`: the gap that `w` leaves is closed. -/
def remove (m : Manager) (w : WorkspaceId) : Manager :=
  let m := upLoop (m.workspace w).position (m.count - 1) (fun m i => m.renumberSlot i (i + 1)) m
  { m with count := m.count - 1 }

/-- The workspace that inherits the views of `w`, read after `w` was removed. -/
def successor (m : Manager) (w : WorkspaceId) : WorkspaceId :=
  let position := (m.workspace w).position
  m.slots (if position ≠ 0 then position - 1 else 0)

/-- The end of `workspace_destroy`. -/
def free (m : Manager) (w : WorkspaceId) : Manager :=
  let m := m.emitDestroy w
  { m with live := Function.update m.live w false }

def workspaceSetPosition (m : Manager) (w : WorkspaceId) (position : ℕ) : Manager :=
  let position := if position ≥ m.count then m.count - 1 else position
  let old := (m.workspace w).position
  if position = old then m
  else
    let m := downLoop old position (fun m i => m.renumberSlot i (i - 1)) m
    let m := upLoop old position (fun m i => m.renumberSlot i (i + 1)) m
    let m := m.putSlot position w
    updateName (m.emitPosition w) w none

def setActivated (m : Manager) (w : WorkspaceId) (activated : Bool) : Manager :=
  emitActivate (m.setWorkspace w { m.workspace w with activated := activated }) w

/-- No workspace, no client. -/
def empty : Manager where
  slots := fun _ => 0
  count := 0
  current := none
  workspace := fun _ => ⟨"", false, 0, false⟩
  live := fun _ => false
  next := 0
  clients := []
  nextClient := 0
  mirror := fun _ _ => none

end Manager

end FlakeWm.Workspaces
