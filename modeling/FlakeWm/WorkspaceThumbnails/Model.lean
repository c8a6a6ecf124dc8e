import FlakeWm.Schemes.Run
import FlakeWm.Schemes.Signals

/-! The entries of a workspace thumbnail (scene/thumbnail.c).

    A workspace thumbnail keeps an entry for every window of the workspace, and the entry of a window
    on the output of the thumbnail has a thumbnail of the window's own. An entry listens to four
    signals of its window as long as it lives, and to three more while it has a thumbnail: the update
    and the destruction of the thumbnail and the minimizing of the window. The thumbnails of one window
    share a `view_thumbnail`, which goes with the last of them, and takes them with it when the window
    is unmapped or a frame fails to render. -/

namespace FlakeWm.WorkspaceThumbnails

/-- The signals of the views and of their thumbnails. -/
inductive Signal
  | viewMove (view : ℕ)
  | viewOutput (view : ℕ)
  | workspaceLeave (view : ℕ)
  | viewUnmap (view : ℕ)
  | viewMinimize (view : ℕ)
  | thumbnailUpdate (thumbnail : ℕ)
  | thumbnailDestroy (thumbnail : ℕ)
  deriving DecidableEq

/-- The listener of an entry for a signal, or, for the unmapping of a view, the one of its
    `view_thumbnail`. -/
inductive Listener
  | entry (id : ℕ)
  | viewThumbnail
  deriving DecidableEq

/-- `struct workspace_thumbnail_entry`. -/
structure Entry where
  id : ℕ
  view : ℕ
  thumbnail : Option ℕ
  deriving DecidableEq

/-- The workspace thumbnail of `workspace` on `output`, while it is `alive`, and the views.
    `thumbnails` are the thumbnails in the list of a view's `view_thumbnail`, which exists while it
    has some; `fault` says that a handler ran for a freed entry or dereferenced a null thumbnail. -/
structure State where
  workspace : ℕ
  output : ℕ
  alive : Bool
  entries : List Entry
  signals : Signal → List Listener
  thumbnails : ℕ → List ℕ
  viewOutput : ℕ → Option ℕ
  minimized : ℕ → Bool
  nextEntry : ℕ
  nextThumbnail : ℕ
  fault : Bool

namespace State

def link (s : State) (sig : Signal) (l : Listener) : State :=
  { s with signals := addListener s.signals sig l }

def unlink (s : State) (sig : Signal) (l : Listener) : State :=
  { s with signals := removeListener s.signals sig l }

def find (s : State) (id : ℕ) : Option Entry := s.entries.find? (·.id = id)

/-- Writing the thumbnail field of an entry. -/
def setThumbnail (s : State) (id : ℕ) (t : Option ℕ) : State :=
  { s with entries := s.entries.map fun e => if e.id = id then { e with thumbnail := t } else e }

/-- A handler of an entry, which is only safe while the entry lives. -/
def withEntry (s : State) (l : Listener) (f : Entry → State) : State :=
  match l with
  | .viewThumbnail => s
  | .entry id =>
    match s.find id with
    | none => { s with fault := true }
    | some e => f e

/-- `thumbnail_create_from_view`: the new thumbnail has the next number. -/
def thumbnailCreateFromView (s : State) (view : ℕ) : State :=
  let s := if s.thumbnails view = [] then s.link (.viewUnmap view) .viewThumbnail else s
  { s with
    thumbnails := Function.update s.thumbnails view (s.nextThumbnail :: s.thumbnails view)
    nextThumbnail := s.nextThumbnail + 1 }

/-- `workspace_thumbnail_entry_create_thumbnail`. -/
def entryCreateThumbnail (s : State) (e : Entry) : State :=
  let t := s.nextThumbnail
  ((((s.thumbnailCreateFromView e.view).setThumbnail e.id (some t)).link (.thumbnailUpdate t)
    (.entry e.id)).link (.thumbnailDestroy t) (.entry e.id)).link (.viewMinimize e.view)
      (.entry e.id)

/-- `workspace_thumbnail_create_entry`. -/
def createEntry (s : State) (view : ℕ) : State :=
  let e : Entry := ⟨s.nextEntry, view, none⟩
  let s := (((({ s with entries := e :: s.entries, nextEntry := s.nextEntry + 1 }.link
    (.viewOutput view) (.entry e.id)).link (.viewMove view) (.entry e.id)).link
      (.workspaceLeave view) (.entry e.id)).link (.viewUnmap view) (.entry e.id))
  if s.viewOutput view = some s.output then s.entryCreateThumbnail e else s

/-- The second half of `workspace_thumbnail_entry_destroy`. -/
def entryFree (s : State) (e : Entry) : State :=
  (((({ s with entries := s.entries.filter fun e' => e'.id ≠ e.id }.unlink (.viewMove e.view)
    (.entry e.id)).unlink (.viewOutput e.view) (.entry e.id)).unlink (.workspaceLeave e.view)
      (.entry e.id)).unlink (.viewUnmap e.view) (.entry e.id))

/-- `workspace_thumbnail_handle_thumbnail_destroy`: the thumbnail of the entry is set to null, so
    the first half of `workspace_thumbnail_entry_destroy` is skipped. -/
def handleThumbnailDestroy (t : ℕ) (s : State) (l : Listener) : State :=
  s.withEntry l fun e =>
    ((s.unlink (.thumbnailUpdate t) (.entry e.id)).unlink (.thumbnailDestroy t)
      (.entry e.id)).entryFree e

/-- The destroy signal of a thumbnail. -/
def emitThumbnailDestroy (s : State) (t : ℕ) : State :=
  emit (·.signals (.thumbnailDestroy t)) (handleThumbnailDestroy t) s

/-- `thumbnail_destroy`; the `view_thumbnail` goes with its last thumbnail. -/
def thumbnailDestroy (s : State) (view t : ℕ) : State :=
  let s := s.emitThumbnailDestroy t
  let s := { s with thumbnails := Function.update s.thumbnails view ((s.thumbnails view).erase t) }
  if s.thumbnails view = [] then s.unlink (.viewUnmap view) .viewThumbnail else s

/-- `workspace_thumbnail_entry_destroy`. -/
def entryDestroy (s : State) (e : Entry) : State :=
  match e.thumbnail with
  | none => s.entryFree e
  | some t =>
    ((((s.unlink (.thumbnailDestroy t) (.entry e.id)).unlink (.thumbnailUpdate t)
      (.entry e.id)).unlink (.viewMinimize e.view) (.entry e.id)).thumbnailDestroy e.view t).entryFree
        e

/-- `view_thumbnail_destroy` after `need_destroy` was set: every thumbnail goes with it. -/
def viewThumbnailDestroy (s : State) (view : ℕ) : State :=
  let s := (s.thumbnails view).foldl emitThumbnailDestroy s
  { s with thumbnails := Function.update s.thumbnails view [] }.unlink (.viewUnmap view)
    .viewThumbnail

/-- `workspace_thumbnail_handle_view_output`, after the view moved from the output `old`. -/
def handleViewOutput (old : Option ℕ) (s : State) (l : Listener) : State :=
  s.withEntry l fun e =>
    let s := if s.viewOutput e.view = some s.output then s.entryCreateThumbnail e else s
    if old = some s.output then
      match (s.find e.id).bind (·.thumbnail) with
      | none => { s with fault := true }
      | some t =>
        (((s.unlink (.thumbnailUpdate t) (.entry e.id)).unlink (.thumbnailDestroy t)
          (.entry e.id)).thumbnailDestroy e.view t).setThumbnail e.id none
    else s

/-- `workspace_thumbnail_handle_view_minimize`. -/
def handleViewMinimize (s : State) (l : Listener) : State :=
  s.withEntry l fun e => if e.thumbnail.isNone then { s with fault := true } else s

/-- `workspace_thumbnail_handle_view_unmap` and `view_thumbnail_handle_source_destroy`. -/
def handleViewUnmap (view : ℕ) (s : State) (l : Listener) : State :=
  match l with
  | .viewThumbnail => s.viewThumbnailDestroy view
  | .entry _ => s.withEntry l s.entryDestroy

/-- `workspace_thumbnail_handle_view_move` and `workspace_thumbnail_handle_thumbnail_update`, of
    which only the access to the entry matters here. -/
def handleDamage (s : State) (l : Listener) : State := s.withEntry l fun _ => s

/-- `workspace_thumbnail_destroy`. -/
def workspaceThumbnailDestroy (s : State) : State :=
  { s.entries.foldl entryDestroy s with alive := false }

end State

inductive Event
  /-- the workspace thumbnail is made while these views are mapped in the workspace -/
  | create (views : List ℕ)
  | viewEnter (view : ℕ)
  | workspaceLeave (view workspace : ℕ)
  | viewMove (view : ℕ)
  | viewOutput (view : ℕ) (output : Option ℕ)
  | viewMinimize (view : ℕ) (minimized : Bool)
  | viewUnmap (view : ℕ)
  | thumbnailUpdate (thumbnail : ℕ)
  /-- a frame fails to render the `view_thumbnail` -/
  | renderFailure (view : ℕ)
  /-- another user of the thumbnails of the view -/
  | otherCreate (view : ℕ)
  | otherDestroy (view thumbnail : ℕ)
  | workspaceDestroy
  | outputDestroy
  /-- the last thumbnail of the workspace is destroyed -/
  | destroy

/-- One event. -/
def step (s : State) : Event → Option State
  | .create views =>
    if s.alive then none else some (views.foldl State.createEntry { s with alive := true })
  | .viewEnter view => some (if s.alive then s.createEntry view else s)
  | .workspaceLeave view workspace =>
    some (emit (·.signals (.workspaceLeave view))
      (fun s l => s.withEntry l fun e => if s.workspace = workspace then s.entryDestroy e else s) s)
  | .viewMove view => some (emit (·.signals (.viewMove view)) State.handleDamage s)
  | .viewOutput view output =>
    if s.viewOutput view = output then none
    else some (emit (·.signals (.viewOutput view)) (State.handleViewOutput (s.viewOutput view))
      { s with viewOutput := Function.update s.viewOutput view output })
  | .viewMinimize view minimized =>
    some (emit (·.signals (.viewMinimize view)) State.handleViewMinimize
      { s with minimized := Function.update s.minimized view minimized })
  | .viewUnmap view => some (emit (·.signals (.viewUnmap view)) (State.handleViewUnmap view) s)
  | .thumbnailUpdate t => some (emit (·.signals (.thumbnailUpdate t)) State.handleDamage s)
  | .renderFailure view =>
    if s.thumbnails view = [] then none else some (s.viewThumbnailDestroy view)
  | .otherCreate view => some (s.thumbnailCreateFromView view)
  | .otherDestroy view t =>
    if t ∈ s.thumbnails view ∧ ∀ e ∈ s.entries, e.thumbnail ≠ some t then
      some (s.thumbnailDestroy view t)
    else none
  | .workspaceDestroy | .outputDestroy | .destroy =>
    if s.alive then some s.workspaceThumbnailDestroy else none

/-- No workspace thumbnail, and no thumbnail of any view. -/
def start (workspace output : ℕ) (viewOutput : ℕ → Option ℕ) : State where
  workspace := workspace
  output := output
  alive := false
  entries := []
  signals _ := []
  thumbnails _ := []
  viewOutput := viewOutput
  minimized _ := false
  nextEntry := 0
  nextThumbnail := 0
  fault := false

/-- The listeners an entry should have. -/
def Entry.linked (e : Entry) : Signal → Bool
  | .viewMove view | .viewOutput view | .workspaceLeave view | .viewUnmap view => e.view == view
  | .viewMinimize view => e.view == view && e.thumbnail.isSome
  | .thumbnailUpdate t | .thumbnailDestroy t => e.thumbnail == some t

/-- The entries and their listeners are in step. -/
structure InStep (s : State) : Prop where
  /-- each listener of an entry is linked once where it should be, and nowhere else -/
  linked : ∀ e ∈ s.entries, ∀ sig,
    (s.signals sig).count (.entry e.id) = if e.linked sig then 1 else 0
  /-- the thumbnail of an entry is not destroyed -/
  live : ∀ e ∈ s.entries, ∀ t, e.thumbnail = some t → t ∈ s.thumbnails e.view
  /-- no listener of a freed entry is linked -/
  freed : ∀ sig id, Listener.entry id ∈ s.signals sig → ∃ e ∈ s.entries, e.id = id
  /-- no handler ran for a freed entry, and none used a null thumbnail -/
  safe : s.fault = false

/-- No view with an entry leaves the output of the workspace thumbnail, and no `view_thumbnail` goes
    before the entry that has a thumbnail of it. -/
def kept (s : State) : Event → Bool
  | .viewOutput view _ =>
    decide (s.viewOutput view ≠ some s.output) || s.entries.all fun e => e.view ≠ view
  | .renderFailure view => s.entries.all fun e => e.view ≠ view || e.thumbnail.isNone
  | .viewUnmap view => s.entries.all fun e => e.view ≠ view || e.thumbnail.isNone ||
      decide (.viewThumbnail ∉ (s.signals (.viewUnmap view)).takeWhile (· ≠ .entry e.id))
  | _ => true

end FlakeWm.WorkspaceThumbnails
