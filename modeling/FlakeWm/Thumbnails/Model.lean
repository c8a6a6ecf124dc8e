import FlakeWm.Schemes.Run
import FlakeWm.Schemes.SafeLoop

/-! Thumbnails of one source (`src/scene/thumbnail.c`).

    All thumbnails of a source share one `thumbnail_buffer`, which is made for the first of them and
    goes with the last. A frame renders it again if the source was damaged, and tells the thumbnails.
    The `wlr_buffer`s, thumbnails and thumbnail buffers that were made are numbered, and the state
    logs which of them were dropped or freed. Running out of memory is left out, but for the
    buffer that is rendered to. -/

namespace FlakeWm.Thumbnails

inductive ThumbnailType where | node | view | workspace | output
  deriving DecidableEq

structure WlrBuffer where
  id : ℕ
  width : ℤ
  height : ℤ

/-- `struct thumbnail`, with the content that its last update was for and the buffer that was last
    announced to it as changed. -/
structure Thumbnail where
  id : ℕ
  forceUpdate : Bool := true
  wantsUpdate : Bool := true
  received : Option ℕ := none
  announced : Option ℕ := none

/-- `struct thumbnail_buffer`; `version` counts the contents that were rendered. -/
structure ThumbnailBuffer where
  id : ℕ
  buffer : Option WlrBuffer := none
  thumbnails : List Thumbnail := []
  wasDamaged : Bool := true
  needDestroy : Bool := false
  canDestroy : Bool := true
  version : ℕ := 0

/-- The thumbnail buffer of the source while there is one, how many `wlr_buffer`s, thumbnails and
    thumbnail buffers were made, and which are gone; `fault` says that a freed thumbnail was used. -/
structure State where
  owner : Option ThumbnailBuffer := none
  buffers : ℕ := 0
  drops : List ℕ := []
  thumbnails : ℕ := 0
  freed : List ℕ := []
  owners : ℕ := 0
  freedOwners : List ℕ := []
  fault : Bool := false

def ThumbnailBuffer.ids (tb : ThumbnailBuffer) : List ℕ := tb.thumbnails.map Thumbnail.id

namespace State

def setOwner (s : State) (tb : ThumbnailBuffer) : State := { s with owner := some tb }

/-- `wlr_buffer_drop`. -/
def wlrBufferDrop (s : State) : Option WlrBuffer → State
  | none => s
  | some b => { s with drops := s.drops ++ [b.id] }

/-- `thumbnail_buffer_destroy`, and the rest of the `destroy` of each type, which frees it. -/
def thumbnailBufferDestroy (s : State) : State :=
  match s.owner with
  | none => s
  | some tb =>
    if !tb.needDestroy && !tb.thumbnails.isEmpty then s
    else if !tb.canDestroy then s.setOwner { tb with needDestroy := true }
    else
      { s.wlrBufferDrop tb.buffer with
        owner := none
        freed := s.freed ++ tb.ids
        freedOwners := s.freedOwners ++ [tb.id] }

/-- `thumbnail_destroy`. -/
def thumbnailDestroy (s : State) (id : ℕ) : State :=
  match s.owner with
  | none => s
  | some tb =>
    if id ∈ tb.ids then
      { s.setOwner { tb with thumbnails := tb.thumbnails.filter fun t => t.id ≠ id } with
        freed := s.freed ++ [id] }.thumbnailBufferDestroy
    else s

/-- `thumbnail_create_from_node` and its siblings, with their `get_or_create`. -/
def thumbnailCreate (s : State) : State :=
  let t : Thumbnail := { id := s.thumbnails }
  match s.owner with
  | some tb =>
    { s.setOwner { tb with thumbnails := t :: tb.thumbnails } with thumbnails := s.thumbnails + 1 }
  | none =>
    { s.setOwner { id := s.owners, thumbnails := [t] } with
      thumbnails := s.thumbnails + 1
      owners := s.owners + 1 }

/-- `thumbnail_mark_wants_update`. -/
def thumbnailMarkWantsUpdate (s : State) (id : ℕ) (wants : Bool) : State :=
  match s.owner with
  | none => s
  | some tb =>
    s.setOwner { tb with
      thumbnails := tb.thumbnails.map fun t =>
        if t.id = id then { t with wantsUpdate := wants } else t }

/-! ### Rendering -/

end State

/-- How the `render` of a thumbnail buffer goes. -/
inductive RenderResult where
  | emptyBox
  | noBuffer
  | noPass
  | notSubmitted
  | syncFailed
  | rendered
  deriving DecidableEq

namespace State

/-- `thumbnail_buffer_allocate`. -/
def thumbnailBufferAllocate (s : State) (tb : ThumbnailBuffer) (width height : ℤ) (made : Bool) :
    State × Option WlrBuffer :=
  match tb.buffer with
  | some b =>
    if b.width = width ∧ b.height = height then (s, some b)
    else if made then ({ s with buffers := s.buffers + 1 }, some ⟨s.buffers, width, height⟩)
    else (s, none)
  | none =>
    if made then ({ s with buffers := s.buffers + 1 }, some ⟨s.buffers, width, height⟩)
    else (s, none)

/-- The `render` of the four types: the box of a node may be empty, a workspace does not
    synchronise. -/
def render (s : State) (type : ThumbnailType) (tb : ThumbnailBuffer) (width height : ℤ)
    (result : RenderResult) : State × Option WlrBuffer :=
  if type = .node ∧ result = .emptyBox then (s, none)
  else
    match s.thumbnailBufferAllocate tb width height (result ≠ .noBuffer) with
    | (s, none) => (s, none)
    | (s, some b) =>
      if result = .noPass ∨ result = .notSubmitted ∨ (type ≠ .workspace ∧ result = .syncFailed) then
        (s.wlrBufferDrop (some b), none)
      else (s, some b)

/-! ### Updates -/

/-- What the listener of an update does to the thumbnails of the same source. -/
inductive Action where
  | create
  | destroy (id : ℕ)

def act (s : State) : Action → State
  | .create => s.thumbnailCreate
  | .destroy id => s.thumbnailDestroy id

/-- The thumbnail is linked. -/
def live (s : State) (id : ℕ) : Bool :=
  s.owner.any fun tb => id ∈ tb.ids

/-- Changing one thumbnail. -/
def edit (s : State) (id : ℕ) (f : ThumbnailBuffer → Thumbnail → Thumbnail) : State :=
  match s.owner with
  | none => s
  | some tb =>
    s.setOwner { tb with
      thumbnails := tb.thumbnails.map fun t => if t.id = id then (f tb t) else t }

/-- The thumbnail gets an update for the content of the buffer. -/
def emitUpdate (changed : Bool) (tb : ThumbnailBuffer) (t : Thumbnail) : Thumbnail :=
  { t with
    forceUpdate := false
    received := some tb.version
    announced := if changed then tb.buffer.map WlrBuffer.id else t.announced }

/-- The thumbnail with this id. -/
def find (s : State) (id : ℕ) : Option Thumbnail :=
  s.owner.bind fun tb => tb.thumbnails.find? fun t => t.id = id

/-- The body of the loop when the source was not damaged. -/
def updateForced (listener : ℕ → List Action) (s : State) (id : ℕ) : State :=
  if (s.find id).any (fun t => t.wantsUpdate && t.forceUpdate) then
    (listener id).foldl act (s.edit id (emitUpdate true))
  else s

/-- The body of the loop after rendering. -/
def update (changed : Bool) (listener : ℕ → List Action) (s : State) (id : ℕ) : State :=
  if (s.find id).any Thumbnail.wantsUpdate then
    (listener id).foldl act
      (s.edit id fun tb t => emitUpdate (changed || t.forceUpdate) tb t)
  else s.edit id fun _ t => { t with forceUpdate := t.forceUpdate || changed }

/-- A loop over the thumbnails, during which the thumbnail buffer cannot be destroyed. -/
def notifyAll (s : State) (tb : ThumbnailBuffer) (body : State → ℕ → State) : State :=
  match forEachSafe live body (s.setOwner { tb with canDestroy := false }) none tb.ids with
  | none => { s with fault := true }
  | some s =>
    match s.owner with
    | none => s
    | some tb => (s.setOwner { tb with canDestroy := true }).thumbnailBufferDestroy

/-- `thumbnail_buffer_render`; the width and height are those of the source at this scale. -/
def thumbnailBufferRender (s : State) (type : ThumbnailType) (tb : ThumbnailBuffer)
    (width height : ℤ) (result : RenderResult) (listener : ℕ → List Action) : State :=
  if !tb.wasDamaged then s.notifyAll tb (updateForced listener)
  else if !tb.thumbnails.any Thumbnail.wantsUpdate then s
  else
    match s.render type tb width height result with
    | (s, none) => (s.setOwner { tb with needDestroy := true }).thumbnailBufferDestroy
    | (s, some b) =>
      let changed := decide (tb.buffer.map WlrBuffer.id ≠ some b.id)
      (if changed then s.wlrBufferDrop tb.buffer else s).notifyAll
        { tb with wasDamaged := false, buffer := some b, version := tb.version + 1 }
        (update changed listener)

end State

/-! ### Events -/

inductive Event where
  | create
  | destroy (id : ℕ)
  | markWantsUpdate (id : ℕ) (wants : Bool)
  | sourceDamage
  | sourceDestroy
  | frame (width height : ℤ) (result : RenderResult) (listener : ℕ → List State.Action)

def step (type : ThumbnailType) (s : State) (ev : Event) : Option State :=
  if s.fault then none
  else
    match ev with
    | .create => some s.thumbnailCreate
    | .destroy id => if s.live id then some (s.thumbnailDestroy id) else none
    | .markWantsUpdate id wants =>
      if s.live id then some (s.thumbnailMarkWantsUpdate id wants) else none
    | .sourceDamage => s.owner.map fun tb => s.setOwner { tb with wasDamaged := true }
    | .sourceDestroy =>
      s.owner.map fun tb => (s.setOwner { tb with needDestroy := true }).thumbnailBufferDestroy
    | .frame width height result listener =>
      s.owner.map fun tb => s.thumbnailBufferRender type tb width height result listener

end FlakeWm.Thumbnails
