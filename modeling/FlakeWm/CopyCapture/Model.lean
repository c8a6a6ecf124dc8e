import FlakeWm.Schemes.Run
import Mathlib.Data.Int.Notation
import Mathlib.Logic.Function.Basic

/-! Copying captured images to clients (`src/effect/ext_image_copy_capture.c`).

    A source stands for an output or a view, a session belongs to a source and has at most one frame, and
    a frame copies the buffer of the source to a buffer of the client. The three keep each other alive.
    An object is named by the number of its resource; using a freed object, or a resource that is gone,
    sets `fault`. What the backends and the renderer do is part of the events. -/

namespace FlakeWm.CopyCapture

/-- A `wlr_buffer`, whose size is positive and never changes. -/
structure Buffer where
  id : ℕ
  width : ℕ
  height : ℕ
  width_pos : 0 < width
  height_pos : 0 < height
  deriving DecidableEq

/-- A region that is a union of rectangles at the origin, given by their sizes. -/
abbrev Region := List (ℕ × ℕ)

/-- `pixman_region32_empty`. -/
def regionEmpty (region : Region) : Bool := region.all fun size => size.1 = 0 || size.2 = 0

/-- `enum ext_source_kind`. -/
inductive Kind where | output | toplevel
  deriving DecidableEq, Repr

/-- `enum ext_image_copy_capture_frame_v1_failure_reason`, as far as the program uses it. -/
inductive FailureReason where | bufferConstraints | stopped
  deriving DecidableEq, Repr

/-- The errors that are posted. -/
inductive ProtocolError where
  | alreadyCaptured | invalidBufferDamage | noBuffer | duplicateFrame | duplicateSession | invalidOption
  | noMemory
  deriving DecidableEq, Repr

/-- What holds at the moment `ready` is sent: the session, the attached buffer, the buffer of the source,
    the pixels of both and the damage of the session. -/
structure Shot where
  session : ℕ
  attached : Buffer
  current : Buffer
  attachedPixels : ℕ
  currentPixels : ℕ
  damage : Region
  deriving DecidableEq

/-- An event sent to a client, or its request to capture. -/
inductive Entry where
  | bufferSize (session width height : ℕ)
  | shmFormat (session : ℕ)
  | done (session : ℕ)
  | stopped (session : ℕ)
  | captureRequested (frame : ℕ)
  | damage (frame : ℕ) (region : Region)
  | transform (frame : ℕ)
  | presentationTime (frame : ℕ)
  | ready (frame : ℕ) (shot : Shot)
  | failed (frame : ℕ) (reason : FailureReason)
  | error (resource : Option ℕ) (error : ProtocolError) (text : String)
  deriving DecidableEq

/-- `struct ext_capture_frame`. -/
structure Frame where
  session : ℕ
  buffer : Option Buffer := none
  bufferDamage : List (ℤ × ℤ × ℤ × ℤ) := []
  capturing : Bool := false

/-- `struct ext_capture_session`. -/
structure Session where
  resource : Bool := true
  source : ℕ
  frame : Option ℕ := none
  damage : Region
  stopped : Bool := false

/-- `struct ext_capture_source`. -/
structure Source where
  resource : Bool := true
  sessions : List ℕ := []
  kind : Kind
  target : Bool
  backend : Bool := false
  buffer : Option Buffer := none
  width : ℕ
  height : ℕ
  stopped : Bool
  stopping : Bool := false

/-- A session that waits for the first image of its source. -/
structure Creation where
  source : ℕ
  alloc : Bool

/-- The objects, the resources whose user data is an object, the sources that listen to their backend and
    to their target, the cursor sessions, the pixels of the buffers and what was sent, the last first. -/
structure State where
  next : ℕ := 0
  frames : ℕ → Option Frame := fun _ => none
  sessions : ℕ → Option Session := fun _ => none
  sources : ℕ → Option Source := fun _ => none
  frameData : ℕ → Bool := fun _ => false
  sessionData : ℕ → Bool := fun _ => false
  sourceData : ℕ → Bool := fun _ => false
  backendListening : ℕ → Bool := fun _ => false
  targetListening : ℕ → Bool := fun _ => false
  cursors : ℕ → Option Bool := fun _ => none
  pixels : ℕ → ℕ := fun _ => 0
  creating : Option Creation := none
  trace : List Entry := []
  fault : Bool := false

namespace State

variable (s : State)

def faulted : State := { s with fault := true }

def send (entry : Entry) : State := { s with trace := entry :: s.trace }

def setFrame (f : ℕ) (frame : Frame) : State := { s with frames := Function.update s.frames f (some frame) }

def setSession (k : ℕ) (session : Session) : State :=
  { s with sessions := Function.update s.sessions k (some session) }

def setSource (i : ℕ) (source : Source) : State :=
  { s with sources := Function.update s.sources i (some source) }

/-- `free(frame)`; the resource has no user data any more. -/
def freeFrame (f : ℕ) : State :=
  { s with
    frames := Function.update s.frames f none
    frameData := Function.update s.frameData f false }

def freeSession (k : ℕ) : State := { s with sessions := Function.update s.sessions k none }

/-- `free(source)`; it does not listen to anything any more. -/
def freeSource (i : ℕ) (backend : Bool) : State :=
  { s with
    sources := Function.update s.sources i none
    targetListening := Function.update s.targetListening i false
    backendListening := if backend then Function.update s.backendListening i false else s.backendListening }

/-- `source_maybe_destroy`. -/
def sourceMaybeDestroy (i : ℕ) : State :=
  match s.sources i with
  | none => s.faulted
  | some source =>
    if source.stopping || source.resource || !source.sessions.isEmpty then s else s.freeSource i source.backend

/-- `wl_list_remove(&session->link)` and `free(session)`. -/
def unlinkSession (k i : ℕ) : State :=
  match s.sources i with
  | none => s.faulted
  | some source => (s.setSource i { source with sessions := source.sessions.erase k }).freeSession k

/-- `session_maybe_destroy`. -/
def sessionMaybeDestroy (k : ℕ) : State :=
  match s.sessions k with
  | none => s.faulted
  | some session =>
    if session.resource || session.frame.isSome then s
    else (s.unlinkSession k session.source).sourceMaybeDestroy session.source

/-- The session of a frame forgets it. -/
def detachFrame (f k : ℕ) : State :=
  match s.sessions k with
  | none => s.faulted
  | some session => if session.frame = some f then s.setSession k { session with frame := none } else s

/-- `frame_finish`, for a frame that is not `NULL`. -/
def frameFinish (f : ℕ) : State :=
  match s.frames f with
  | none => s.faulted
  | some frame => ((s.detachFrame f frame.session).freeFrame f).sessionMaybeDestroy frame.session

/-- `frame_fail`. -/
def frameFail (f : ℕ) (reason : FailureReason) : State :=
  match s.frames f with
  | none => s.faulted
  | some _ => (s.send (.failed f reason)).frameFinish f

/-- `capture_read_buffer`, which reports no failure. -/
def captureReadBuffer (current attached : Buffer) (read : Bool) : State :=
  if read then { s with pixels := Function.update s.pixels attached.id (s.pixels current.id) } else s

/-- The damage of a session is sent and cleared, and `ready` ends the frame. The damage is sent as one
    event for each rectangle of the region. -/
def sendReady (f k : ℕ) (session : Session) (current attached : Buffer) : State :=
  ((((s.send (.damage f session.damage)).setSession k { session with damage := [] }).send (.transform f)).send
    (.presentationTime f)).send (.ready f
      { session := k
        attached := attached
        current := current
        attachedPixels := s.pixels attached.id
        currentPixels := s.pixels current.id
        damage := session.damage })

/-- `frame_copy`; `access` says that the memory of the attached buffer can be accessed, and `read` that the
    pixels of the source can be read. -/
def frameCopy (f : ℕ) (access read : Bool) : State :=
  match s.frames f with
  | none => s.faulted
  | some frame =>
    match s.sessions frame.session with
    | none => s.faulted
    | some session =>
      match s.sources session.source with
      | none => s.faulted
      | some source =>
        match source.buffer, frame.buffer with
        | none, _ => s.frameFail f .bufferConstraints
        | some _, none => s.faulted
        | some current, some attached =>
          if attached.width ≠ source.width ∨ attached.height ≠ source.height then
            s.frameFail f .bufferConstraints
          else if access then
            ((s.captureReadBuffer current attached read).sendReady f frame.session session current attached).frameFinish f
          else s.frameFail f .bufferConstraints

/-- `session_send_constraints`. -/
def sessionSendConstraints (k : ℕ) : State :=
  match s.sessions k with
  | none => s.faulted
  | some session =>
    match s.sources session.source with
    | none => s.faulted
    | some source =>
      if session.resource then
        ((s.send (.bufferSize k source.width source.height)).send (.shmFormat k)).send (.done k)
      else s.faulted

/-- The frame of a session that is stopped fails. -/
def failStopped (frame : Option ℕ) : State :=
  match frame with
  | none => s
  | some f => s.frameFail f .stopped

/-- `session_stop`. -/
def sessionStop (k : ℕ) : State :=
  match s.sessions k with
  | none => s.faulted
  | some session =>
    if session.stopped then s
    else
      let s := (s.setSession k { session with stopped := true }).failStopped session.frame
      if session.resource then s.send (.stopped k) else s

/-- The end of a loop over the sessions of a source, which the loop kept alive. -/
def endLoop (i : ℕ) : State :=
  match s.sources i with
  | none => s.faulted
  | some source => (s.setSource i { source with stopping := false }).sourceMaybeDestroy i

/-- `source_stop`. -/
def sourceStop (i : ℕ) : State :=
  match s.sources i with
  | none => s.faulted
  | some source =>
    if source.stopped then s
    else
      (source.sessions.foldl sessionStop
        (s.setSource i { source with stopped := true, stopping := true })).endLoop i

/-- `source_handle_backend_destroy`. -/
def sourceHandleBackendDestroy (i : ℕ) : State :=
  match s.sources i with
  | none => s.faulted
  | some source =>
    sourceStop { s.setSource i { source with backend := false } with
      backendListening := Function.update s.backendListening i false } i

/-- `source_handle_target_destroy`. -/
def sourceHandleTargetDestroy (i : ℕ) : State :=
  match s.sources i with
  | none => s.faulted
  | some source =>
    sourceStop { s.setSource i { source with target := false } with
      targetListening := Function.update s.targetListening i false } i

/-- A session gets the whole of its source as damage. -/
def addDamage (k : ℕ) : State :=
  match s.sessions k with
  | none => s.faulted
  | some session =>
    match s.sources session.source with
    | none => s.faulted
    | some source => s.setSession k { session with damage := (source.width, source.height) :: session.damage }

/-- The frame of a session is copied when it waits for an image. -/
def copyWaiting (refused unread : List ℕ) : Option ℕ → State
  | none => s
  | some f =>
    match s.frames f with
    | none => s.faulted
    | some frame => if frame.capturing then s.frameCopy f (f ∉ refused) (f ∉ unread) else s

/-- One round of the loop in `source_handle_backend_update`. -/
def updateSession (resized : Bool) (refused unread : List ℕ) (k : ℕ) : State :=
  match s.sessions k with
  | none => s.faulted
  | some session =>
    if session.stopped then s
    else
      ((if resized then s.sessionSendConstraints k else s).addDamage k).copyWaiting refused unread session.frame

/-- The size of the buffer of an update is not the one the source has. -/
def resizes (source : Source) (buffer : Buffer) : Bool :=
  source.width != buffer.width || source.height != buffer.height

/-- `source_handle_backend_update`; the memory of the buffers attached to `refused` cannot be accessed, and
    the pixels cannot be read for `unread`. -/
def sourceHandleBackendUpdate (i : ℕ) (buffer : Buffer) (refused unread : List ℕ) : State :=
  match s.sources i with
  | none => s.faulted
  | some source =>
    (source.sessions.foldl (fun s k => s.updateSession (resizes source buffer) refused unread k)
      (s.setSource i
        { source with width := buffer.width, height := buffer.height, buffer := some buffer, stopping := true })).endLoop i

/-- A source gets its backend and listens to it. -/
def startBackend (i : ℕ) (source : Source) : State :=
  { s.setSource i { source with backend := true } with
    backendListening := Function.update s.backendListening i true }

/-- The rest of `session_create`, after `source_create_backend`. -/
def finishSession (i : ℕ) (alloc : Bool) : State :=
  match s.sources i with
  | none => s.faulted
  | some source =>
    let k := s.next
    let s := { s with next := k + 1 }
    if source.stopped then s.send (.stopped k)
    else if alloc then
      let s := (s.setSession k { source := i, damage := [(source.width, source.height)] }).setSource i
        { source with sessions := k :: source.sessions }
      sessionSendConstraints { s with sessionData := Function.update s.sessionData k true } k
    else s.send (.error (some k) .noMemory "no memory")

/-- A session resource without a session. -/
def inertSession : State := { s with next := s.next + 1 }.send (.stopped s.next)

/-- `copy_manager_handle_create_session` and `session_create` up to `thumbnail_update`, for the resource of
    a source or of something else; `backendOk` says that the backend can be created. -/
def createSession (source : Option ℕ) (options : ℕ) (backendOk alloc : Bool) : State :=
  if 1 < options then s.send (.error none .invalidOption s!"invalid capture option 0x{String.ofList (Nat.toDigits 16 options)}")
  else
    match source.filter s.sourceData with
    | none => s.inertSession
    | some i =>
      match s.sources i with
      | none => s.faulted
      | some source =>
        if source.stopped then s.inertSession
        else if source.backend then s.finishSession i alloc
        else if backendOk then
          match source.kind with
          | .output => (s.startBackend i source).finishSession i alloc
          | .toplevel => { s.startBackend i source with creating := some ⟨i, alloc⟩ }
        else s.inertSession

/-- `source_create`; the target has a size when it is there. -/
def sourceCreate (kind : Kind) (target : Option (ℕ × ℕ)) : State :=
  let i := s.next
  let source : Source :=
    { kind := kind
      target := target.isSome
      width := (target.getD (0, 0)).1
      height := (target.getD (0, 0)).2
      stopped := target.isNone }
  { s.setSource i source with
    next := i + 1
    sourceData := Function.update s.sourceData i true
    targetListening := Function.update s.targetListening i target.isSome }

/-- `session_handle_create_frame`, for a session that is not `NULL`. -/
def sessionHandleCreateFrame (k : ℕ) (alloc : Bool) : State :=
  match s.sessions k with
  | none => s.faulted
  | some session =>
    if session.frame.isSome then
      s.send (.error (some k) .duplicateFrame "create_frame sent before destroying previous frame")
    else if alloc then
      let f := s.next
      { (s.setFrame f { session := k }).setSession k { session with frame := some f } with
        next := f + 1
        frameData := Function.update s.frameData f true }
    else s.send (.error (some k) .noMemory "no memory")

/-- `frame_handle_attach_buffer`, for a frame that is not `NULL`. -/
def frameHandleAttachBuffer (f : ℕ) (buffer : Option Buffer) : State :=
  match s.frames f with
  | none => s.faulted
  | some frame =>
    if frame.capturing then s.send (.error (some f) .alreadyCaptured "attach_buffer sent after capture")
    else
      match buffer with
      | none => s.send (.error (some f) .noMemory "no memory")
      | some buffer => s.setFrame f { frame with buffer := some buffer }

/-- `frame_handle_damage_buffer`, for a frame that is not `NULL`. -/
def frameHandleDamageBuffer (f : ℕ) (x y width height : ℤ) : State :=
  match s.frames f with
  | none => s.faulted
  | some frame =>
    if frame.capturing then s.send (.error (some f) .alreadyCaptured "damage_buffer sent after capture")
    else if x < 0 ∨ y < 0 ∨ width ≤ 0 ∨ height ≤ 0 then
      s.send (.error (some f) .invalidBufferDamage "invalid buffer damage")
    else s.setFrame f { frame with bufferDamage := (x, y, width, height) :: frame.bufferDamage }

/-- The end of `frame_handle_capture`: the frame fails, is copied or waits. -/
def startCapture (f k : ℕ) (access read : Bool) : State :=
  match s.sessions k with
  | none => s.faulted
  | some session =>
    if session.stopped then s.frameFail f .stopped
    else
      match s.sources session.source with
      | none => s.faulted
      | some source =>
        if source.buffer.isSome && !regionEmpty session.damage then s.frameCopy f access read else s

/-- `frame_handle_capture`, for a frame that is not `NULL`. -/
def frameHandleCapture (f : ℕ) (access read : Bool) : State :=
  match s.frames f with
  | none => s.faulted
  | some frame =>
    if frame.capturing then s.send (.error (some f) .alreadyCaptured "capture sent twice")
    else if frame.buffer.isNone then s.send (.error (some f) .noBuffer "capture sent without a buffer")
    else (s.setFrame f { frame with capturing := true }).startCapture f frame.session access read

/-- The resource of a session leads nowhere any more. -/
def clearSessionData (k : ℕ) : State := { s with sessionData := Function.update s.sessionData k false }

/-- The resource of a source leads nowhere any more. -/
def clearSourceData (i : ℕ) : State := { s with sourceData := Function.update s.sourceData i false }

/-- `session_handle_resource_destroy`, for a session that is not `NULL`. -/
def sessionHandleResourceDestroy (k : ℕ) : State :=
  match s.sessions k with
  | none => s.faulted
  | some session =>
    ((s.setSession k { session with resource := false }).clearSessionData k).sessionMaybeDestroy k

/-- `source_handle_resource_destroy`, for a source that is not `NULL`. -/
def sourceHandleResourceDestroy (i : ℕ) : State :=
  match s.sources i with
  | none => s.faulted
  | some source =>
    ((s.setSource i { source with resource := false }).clearSourceData i).sourceMaybeDestroy i

/-- `cursor_session_handle_get_capture_session`. -/
def cursorGetCaptureSession (c : ℕ) (created : Bool) : State :=
  if created then s.send (.error (some c) .duplicateSession "get_capture_session sent twice")
  else inertSession { s with cursors := Function.update s.cursors c (some true) }

end State

/-- The requests of the clients, the destruction of their resources, what the backends and the targets
    signal, the end of the creation of a session, and a change of the pixels of a buffer. -/
inductive Event where
  | createSource (kind : Kind) (target : Option (ℕ × ℕ))
  | createSession (source : Option ℕ) (options : ℕ) (backendOk alloc : Bool)
  | finishSession
  | createFrame (session : ℕ) (alloc : Bool)
  | attachBuffer (frame : ℕ) (buffer : Option Buffer)
  | damageBuffer (frame : ℕ) (x y width height : ℤ)
  | capture (frame : ℕ) (access read : Bool)
  | destroyFrame (frame : ℕ)
  | destroySession (session : ℕ)
  | destroySource (source : ℕ)
  | createCursor
  | cursorCapture (cursor : ℕ)
  | backendUpdate (source : ℕ) (buffer : Buffer) (refused unread : List ℕ)
  | backendDestroy (source : ℕ)
  | targetDestroy (source : ℕ)
  | paint (buffer pixels : ℕ)

/-- What can happen inside `thumbnail_update`, and its return. -/
def Event.nested : Event → Bool
  | .backendUpdate .. => true
  | .backendDestroy _ => true
  | .paint .. => true
  | .finishSession => true
  | _ => false

/-- What an event does; a request on a resource without user data does nothing. -/
def handle (s : State) : Event → Option State
  | .createSource kind target => some (s.sourceCreate kind target)
  | .createSession source options backendOk alloc => some (s.createSession source options backendOk alloc)
  | .finishSession =>
    s.creating.map fun creation => { s with creating := none }.finishSession creation.source creation.alloc
  | .createFrame k alloc => some (if s.sessionData k then s.sessionHandleCreateFrame k alloc else s)
  | .attachBuffer f buffer => some (if s.frameData f then s.frameHandleAttachBuffer f buffer else s)
  | .damageBuffer f x y width height =>
    some (if s.frameData f then s.frameHandleDamageBuffer f x y width height else s)
  | .capture f access read =>
    some (if s.frameData f then (s.send (.captureRequested f)).frameHandleCapture f access read else s)
  | .destroyFrame f => some (if s.frameData f then s.frameFinish f else s)
  | .destroySession k => some (if s.sessionData k then s.sessionHandleResourceDestroy k else s)
  | .destroySource i => some (if s.sourceData i then s.sourceHandleResourceDestroy i else s)
  | .createCursor => some { s with next := s.next + 1, cursors := Function.update s.cursors s.next (some false) }
  | .cursorCapture c => (s.cursors c).map (s.cursorGetCaptureSession c)
  | .backendUpdate i buffer refused unread =>
    if s.backendListening i then some (s.sourceHandleBackendUpdate i buffer refused unread) else none
  | .backendDestroy i => if s.backendListening i then some (s.sourceHandleBackendDestroy i) else none
  | .targetDestroy i => if s.targetListening i then some (s.sourceHandleTargetDestroy i) else none
  | .paint buffer pixels => some { s with pixels := Function.update s.pixels buffer pixels }

/-- While a session is being created, only nested events happen. -/
def step (s : State) (e : Event) : Option State := if s.creating.isSome && !e.nested then none else handle s e

end FlakeWm.CopyCapture
