import FlakeWm.Box
import FlakeWm.Schemes.Run
import FlakeWm.Schemes.SafeLoop
import Mathlib.Data.Rat.Floor
import Mathlib.Logic.Function.Basic

/-! Screen captures (`src/effect/capture.c`).

    All captures of one picture (an output, an area or the whole screen) share a `capture_buffer`. It
    has a `capture_request` for each output that it shows a part of; a commit of the output blits its
    frame for the request, and once all requests of the buffer are done its captures are told. While
    there is a request on an output the output may not scan out directly, which is a lock on it.

    Buffers, requests and captures are numbered as they are made; the lists hold the numbers of those
    that are there and the functions hold their fields. A request is put at the head of the list of
    its buffer and of the one of its output and taken off both together, so both are parts of one
    list. An output is enabled exactly while it has a `capture_output`. Coordinates and scales are
    exact, `buffer->scale` is left out (only the security check reads it, and its stub forbids
    nothing), and only the buffers that are blitted to can run out of memory. -/

namespace FlakeWm.Captures

/-- `struct wlr_fbox`. -/
structure FBox where
  x : ℚ := 0
  y : ℚ := 0
  width : ℚ := 0
  height : ℚ := 0
  deriving DecidableEq

/-- There are eight transforms. -/
theorem neZero_transforms : NeZero 8 := ⟨by decide⟩

attribute [local instance] neZero_transforms

/-- What a capture reads of an output: `geometry`, `wlr_output->scale` and `->transform`, and the
    transformed resolution. -/
structure Shape where
  geometry : Box
  scale : ℚ := 1
  transform : Fin 8 := 0
  resolution : ℤ × ℤ
  deriving DecidableEq

abbrev Picture (Pixel : Type) := ℤ × ℤ → Pixel

/-- What is used of the renderer: the pixel that a buffer is cleared to, `wlr_fbox_transform` by the
    inverse of a transform, and the pixel that `wlr_render_pass_add_texture` puts at a point of the
    destination box for a source box of a picture; an empty source box stands for the whole. -/
structure Renderer (Pixel : Type) where
  clear : Pixel
  fboxTransform : FBox → Fin 8 → ℤ × ℤ → FBox
  sample : Picture Pixel → FBox → Box → Fin 8 → ℤ × ℤ → Pixel

/-- `enum capture_type` with the `output` or `area` of the buffer. -/
inductive CaptureType where
  | output (output : ℕ)
  | area (area : Box)
  | fullscreen
  deriving DecidableEq

/-- `CAPTURE_NEED_UNSCALED`, `CAPTURE_NEED_CURSOR` and `CAPTURE_NEED_SINGLE_PLANE`. -/
structure Options where
  unscaled : Bool := false
  cursor : Bool := false
  singlePlane : Bool := false
  deriving DecidableEq

/-- `struct capture`. -/
structure Capture where
  buffer : ℕ
  forceUpdate : Bool := true
  wantsUpdate : Bool := true

/-- `struct capture_buffer`; the `wlr_buffer` has a size and pixels. -/
structure CaptureBuffer (Pixel : Type) where
  type : CaptureType
  options : Options
  size : Option (ℤ × ℤ) := none
  pixels : Picture Pixel
  wasDamaged : Bool := true
  bufferChanged : Bool := false
  needDestroy : Bool := false
  canDestroy : Bool := true

/-- `struct capture_request`. -/
structure CaptureRequest where
  buffer : ℕ
  output : ℕ
  src : FBox
  dst : Box
  blitDone : Bool := false
  cursorLocked : Bool

/-- Who ended a capture: its owner, a buffer that could not be blitted to, one that lost its last
    request, or one that was only marked to be destroyed. -/
inductive Cause where | owner | blitFailed | noRequests | needDestroy
  deriving DecidableEq

variable {Pixel : Type}

/-- An update that was emitted, with the buffer, its requests and the frames at that time. -/
structure Update (Pixel : Type) where
  capture : ℕ
  bufferChanged : Bool
  buffer : CaptureBuffer Pixel
  requests : List CaptureRequest
  frame : ℕ → Option (Picture Pixel)
  transform : ℕ → Fin 8

/-- `struct capture_manager` with the outputs. `updates` and `ended` log the updates and the ends of
    captures; `fault` says that an assertion failed or that a loop went on with a freed request. -/
structure State (Pixel : Type) where
  outputs : List ℕ := []
  shape : ℕ → Shape := fun _ => { geometry := ⟨0, 0, 0, 0⟩, resolution := (0, 0) }
  frame : ℕ → Option (Picture Pixel) := fun _ => none
  buffers : List ℕ := []
  buffer : ℕ → CaptureBuffer Pixel
  requests : List ℕ := []
  request : ℕ → CaptureRequest := fun _ =>
    { buffer := 0, output := 0, src := {}, dst := ⟨0, 0, 0, 0⟩, cursorLocked := false }
  captures : List ℕ := []
  capture : ℕ → Capture := fun _ => { buffer := 0 }
  renderLocks : ℕ → ℤ := fun _ => 0
  cursorLocks : ℕ → ℤ := fun _ => 0
  next : ℕ := 0
  updates : List (Update Pixel) := []
  ended : List (ℕ × Cause) := []
  fault : Bool := false

/-! ### Boxes -/

/-- The conversion of a `float` to `int`. -/
def trunc (q : ℚ) : ℤ := q.num.tdiv q.den

def scaled (scale : ℚ) (box : Box) : Box :=
  ⟨trunc (box.x * scale), trunc (box.y * scale), trunc (box.width * scale), trunc (box.height * scale)⟩

def wlrBoxEmpty (box : Box) : Bool := decide (box.width ≤ 0) || decide (box.height ≤ 0)

/-- `wlr_box_intersection`, which says whether there is one. -/
def wlrBoxIntersection (a b : Box) : Option Box :=
  if wlrBoxEmpty a || wlrBoxEmpty b then none
  else
    let x := max a.x b.x
    let y := max a.y b.y
    let box : Box := ⟨x, y, min (a.x + a.width) (b.x + b.width) - x,
      min (a.y + a.height) (b.y + b.height) - y⟩
    if wlrBoxEmpty box then none else some box

/-- The extents of a region after `pixman_region32_union_rect`, as `x1`, `y1`, `x2`, `y2`. -/
def unionRect (region : Option (ℤ × ℤ × ℤ × ℤ)) (box : Box) : Option (ℤ × ℤ × ℤ × ℤ) :=
  if wlrBoxEmpty box then region
  else
    match region with
    | none => some (box.x, box.y, box.x + box.width, box.y + box.height)
    | some (x1, y1, x2, y2) =>
      some (min x1 box.x, min y1 box.y, max x2 (box.x + box.width), max y2 (box.y + box.height))

/-- The size of the extents of the union of boxes. -/
def extentsSize (boxes : List Box) : ℤ × ℤ :=
  match boxes.foldl unionRect none with
  | none => (0, 0)
  | some (x1, y1, x2, y2) => (x2 - x1, y2 - y1)

def inBox (box : Box) (p : ℤ × ℤ) : Bool := kywcBoxContainsPoint box p.1 p.2

/-- The point is a pixel of a buffer of that size. -/
def inSize (size : Option (ℤ × ℤ)) (p : ℤ × ℤ) : Bool :=
  match size with
  | none => false
  | some (width, height) => inBox ⟨0, 0, width, height⟩ p

namespace State

/-! ### Records and lists -/

def setBuffer (s : State Pixel) (b : ℕ) (buffer : CaptureBuffer Pixel) : State Pixel :=
  { s with buffer := Function.update s.buffer b buffer }

def setRequest (s : State Pixel) (r : ℕ) (request : CaptureRequest) : State Pixel :=
  { s with request := Function.update s.request r request }

def setCapture (s : State Pixel) (c : ℕ) (capture : Capture) : State Pixel :=
  { s with capture := Function.update s.capture c capture }

/-- `buffer->requests`. -/
def requestsOf (s : State Pixel) (b : ℕ) : List ℕ :=
  s.requests.filter fun r => (s.request r).buffer = b

/-- `capture_output->requests`. -/
def requestsOn (s : State Pixel) (o : ℕ) : List ℕ :=
  s.requests.filter fun r => (s.request r).output = o

/-- `buffer->captures`. -/
def capturesOf (s : State Pixel) (b : ℕ) : List ℕ :=
  s.captures.filter fun c => (s.capture c).buffer = b

/-- `output_manager_get_scale`. -/
def outputManagerGetScale (s : State Pixel) : ℚ :=
  s.outputs.foldl (fun scale o => if (s.shape o).scale > scale then (s.shape o).scale else scale) 1

/-- `capture_buffer_calc_box`. -/
def calcBox (ρ : Renderer Pixel) (s : State Pixel) (type : CaptureType) (options : Options) (o : ℕ) :
    Option (Box × FBox) :=
  let scale := if options.unscaled then s.outputManagerGetScale else 1
  let geo := (s.shape o).geometry
  match type with
  | .output _ => some (⟨0, 0, trunc (geo.width * scale), trunc (geo.height * scale)⟩, {})
  | .fullscreen => some (scaled scale geo, {})
  | .area area =>
    match wlrBoxIntersection (scaled scale geo) area with
    | none => none
    | some dst =>
      let outputScale := (s.shape o).scale
      let src : FBox := {
        x := (dst.x - geo.x * scale) / scale * outputScale
        y := (dst.y - geo.y * scale) / scale * outputScale
        width := dst.width / scale * outputScale
        height := dst.height / scale * outputScale }
      some ({ dst with x := dst.x - area.x, y := dst.y - area.y },
        ρ.fboxTransform src (s.shape o).transform (s.shape o).resolution)

/-! ### Buffers -/

/-- `capture_buffer_clear`. -/
def captureBufferClear (ρ : Renderer Pixel) (s : State Pixel) (b : ℕ) : State Pixel :=
  s.setBuffer b { s.buffer b with pixels := fun _ => ρ.clear, wasDamaged := true }

/-- The size that the buffer is to have. -/
def neededSize (s : State Pixel) (b : ℕ) : ℤ × ℤ :=
  match (s.buffer b).type with
  | .area area => (area.width, area.height)
  | _ => extentsSize ((s.requestsOf b).map fun r => (s.request r).dst)

/-- `request->blit_done = false` for all requests of a buffer. -/
def resetBlits (s : State Pixel) (b : ℕ) : State Pixel :=
  (s.requestsOf b).foldl (fun s r => s.setRequest r { s.request r with blitDone := false }) s

/-- `capture_buffer_allocate`; `ok` says whether `ky_renderer_create_buffer` gives a buffer. -/
def captureBufferAllocate (ρ : Renderer Pixel) (s : State Pixel) (b : ℕ) (ok : Bool) :
    State Pixel × Bool :=
  let s := { s with fault := s.fault || (s.requestsOf b).isEmpty }
  if (s.buffer b).size = some (s.neededSize b) then (s, true)
  else if !ok then (s, false)
  else
    let s' := s.setBuffer b { s.buffer b with size := some (s.neededSize b), bufferChanged := true }
    ((s'.resetBlits b).captureBufferClear ρ b, true)

/-- `wl_list_remove` of both links of a request. -/
def unlinkRequest (s : State Pixel) (r : ℕ) : State Pixel :=
  { s with requests := s.requests.filter (· ≠ r) }

/-- The end of `capture_request_destroy`: its locks on the output are given back. -/
def unlockOutput (s : State Pixel) (r : ℕ) : State Pixel :=
  let o := (s.request r).output
  { s with
    renderLocks := Function.update s.renderLocks o (s.renderLocks o - 1)
    cursorLocks := if (s.request r).cursorLocked then
      Function.update s.cursorLocks o (s.cursorLocks o - 1) else s.cursorLocks }

/-- `capture_request_destroy` of a request whose `buffer` is `NULL`. -/
def requestFree (s : State Pixel) (r : ℕ) : State Pixel := (s.unlinkRequest r).unlockOutput r

/-- `capture_destroy` of a capture whose `buffer` is `NULL`. -/
def captureFree (s : State Pixel) (c : ℕ) (cause : Cause) : State Pixel :=
  { s with captures := s.captures.filter (· ≠ c), ended := s.ended ++ [(c, cause)] }

/-- The rest of `capture_buffer_destroy`, once the buffer is to be destroyed and can be. -/
def captureBufferFree (s : State Pixel) (b : ℕ) (cause : Cause) : State Pixel :=
  let s := (s.requestsOf b).foldl requestFree s
  let s := (s.capturesOf b).foldl (fun s c => s.captureFree c cause) s
  { s with buffers := s.buffers.filter (· ≠ b) }

/-- `capture_buffer_destroy`; `cause` says who calls it. -/
def captureBufferDestroy (s : State Pixel) (b : ℕ) (cause : Cause) : State Pixel :=
  if !(s.buffer b).needDestroy && !(s.capturesOf b).isEmpty then s
  else if !(s.buffer b).canDestroy then s.setBuffer b { s.buffer b with needDestroy := true }
  else s.captureBufferFree b cause

/-- `capture_request_destroy`. -/
def captureRequestDestroy (ρ : Renderer Pixel) (s : State Pixel) (r : ℕ) : State Pixel :=
  let b := (s.request r).buffer
  let s := s.unlinkRequest r
  let s :=
    if (s.requestsOf b).isEmpty then
      (s.setBuffer b { s.buffer b with needDestroy := true }).captureBufferDestroy b .noRequests
    else
      match (s.buffer b).type with
      | .area _ => s.captureBufferClear ρ b
      | _ => s
  s.unlockOutput r

/-- `capture_destroy` by the owner of the capture. -/
def captureDestroy (s : State Pixel) (c : ℕ) : State Pixel :=
  if c ∈ s.captures then
    (s.captureFree c .owner).captureBufferDestroy (s.capture c).buffer .needDestroy
  else s

/-- `capture_request_create`, `none` if there is no request. -/
def captureRequestCreate (ρ : Renderer Pixel) (s : State Pixel) (o b : ℕ) : Option (State Pixel) :=
  match s.calcBox ρ (s.buffer b).type (s.buffer b).options o with
  | none => none
  | some (dst, src) =>
    if o ∈ s.outputs then
      let cursor := (s.buffer b).options.cursor
      some { s.setRequest s.next
          { buffer := b, output := o, src := src, dst := dst, cursorLocked := cursor } with
        requests := s.next :: s.requests
        next := s.next + 1
        renderLocks := Function.update s.renderLocks o (s.renderLocks o + 1)
        cursorLocks := if cursor then Function.update s.cursorLocks o (s.cursorLocks o + 1)
          else s.cursorLocks }
    else none

/-- `create_request`, called for an enabled output. -/
def createRequest (ρ : Renderer Pixel) (b : ℕ) (s : State Pixel) (o : ℕ) : State Pixel :=
  (s.captureRequestCreate ρ o b).getD s

/-- The buffer can be shared by a capture of that type and options. -/
def sharedBy (type : CaptureType) (options : Options) (buffer : CaptureBuffer Pixel) : Bool :=
  decide (buffer.type = type) && decide (buffer.options.unscaled = options.unscaled) &&
    decide (buffer.options.singlePlane = options.singlePlane)

/-- The part of `capture_buffer_get_or_create` that makes a buffer and its requests. -/
def newCaptureBuffer (ρ : Renderer Pixel) (s : State Pixel) (type : CaptureType) (options : Options) :
    State Pixel :=
  let b := s.next
  let s := { s.setBuffer b { type := type, options := options, pixels := fun _ => ρ.clear } with
    next := s.next + 1 }
  match type with
  | .output o => createRequest ρ b s o
  | _ => s.outputs.foldl (createRequest ρ b) s

/-- `capture_buffer_get_or_create`. -/
def captureBufferGetOrCreate (ρ : Renderer Pixel) (s : State Pixel) (type : CaptureType)
    (options : Options) (ok : Bool) : State Pixel × Option ℕ :=
  match s.buffers.find? fun b => sharedBy type options (s.buffer b) with
  | some b => (s, some b)
  | none =>
    let b := s.next
    let s := s.newCaptureBuffer ρ type options
    if (s.requestsOf b).isEmpty then (s, none)
    else
      match s.captureBufferAllocate ρ b ok with
      | (s, true) => ({ s with buffers := b :: s.buffers }, some b)
      | (s, false) => ((s.requestsOf b).foldl requestFree s, none)

/-- The checks of `capture_create_from_output` and `capture_create_from_area`. -/
def mayCreate (s : State Pixel) (type : CaptureType) : Bool :=
  match type with
  | .output o => decide (o ∈ s.outputs)
  | .area area => !wlrBoxEmpty area
  | .fullscreen => true

/-- `capture_create_from_output`, `capture_create_from_area` and `capture_create_from_fullscreen`. -/
def captureCreate (ρ : Renderer Pixel) (s : State Pixel) (type : CaptureType) (options : Options)
    (ok : Bool) : State Pixel :=
  if s.mayCreate type then
    match s.captureBufferGetOrCreate ρ type options ok with
    | (s, none) => s
    | (s, some b) =>
      { s.setCapture s.next { buffer := b } with captures := s.next :: s.captures, next := s.next + 1 }
  else s

/-- `capture_mark_wants_update`. -/
def captureMarkWantsUpdate (s : State Pixel) (c : ℕ) (wants force : Bool) : State Pixel :=
  if c ∈ s.captures then
    if (s.capture c).wantsUpdate = wants then s
    else
      s.setCapture c { s.capture c with
        wantsUpdate := wants
        forceUpdate := (s.capture c).forceUpdate || wants && force }
  else s

end State

/-! ### Updates -/

/-- What the owner of a capture does when it is told of an update. -/
inductive Act where
  | create (type : CaptureType) (options : Options) (ok : Bool)
  | markWantsUpdate (wants force : Bool)
  | destroy

namespace State

def act (ρ : Renderer Pixel) (c : ℕ) (s : State Pixel) : Act → State Pixel
  | .create type options ok => s.captureCreate ρ type options ok
  | .markWantsUpdate wants force => s.captureMarkWantsUpdate c wants force
  | .destroy => s.captureDestroy c

/-- The update event of a buffer as it is emitted to a capture. -/
def updateEvent (s : State Pixel) (c b : ℕ) (changed : Bool) : Update Pixel where
  capture := c
  bufferChanged := changed
  buffer := s.buffer b
  requests := (s.requestsOf b).map s.request
  frame := s.frame
  transform := fun o => (s.shape o).transform

/-- `wl_signal_emit_oneshot` of the update to a capture, whose owner acts on it. -/
def emitUpdate (ρ : Renderer Pixel) (s : State Pixel) (c b : ℕ) (changed : Bool) (acts : List Act) :
    State Pixel :=
  let s := s.setCapture c { s.capture c with forceUpdate := false }
  acts.foldl (act ρ c) { s with updates := s.updates ++ [s.updateEvent c b changed] }

/-- The body of the loop over the captures when nothing was damaged. -/
def updateForced (ρ : Renderer Pixel) (b : ℕ) (acts : ℕ → List Act) (s : State Pixel) (c : ℕ) :
    State Pixel :=
  if (s.capture c).wantsUpdate && (s.capture c).forceUpdate then s.emitUpdate ρ c b true (acts c)
  else s

/-- The body of the loop over the captures when there is something new. -/
def updateWanting (ρ : Renderer Pixel) (b : ℕ) (acts : ℕ → List Act) (s : State Pixel) (c : ℕ) :
    State Pixel :=
  if (s.capture c).wantsUpdate then
    s.emitUpdate ρ c b ((s.buffer b).bufferChanged || (s.capture c).forceUpdate) (acts c)
  else
    s.setCapture c { s.capture c with
      forceUpdate := (s.capture c).forceUpdate || (s.buffer b).bufferChanged }

/-- `capture_request_mark_done`. An owner ends no capture but its own, and a new capture is put at
    the head of the list, so the loops come to the captures that are there at the start. -/
def captureRequestMarkDone (ρ : Renderer Pixel) (acts : ℕ → List Act) (s : State Pixel) (r : ℕ) :
    State Pixel :=
  let b := (s.request r).buffer
  let s := s.setRequest r { s.request r with blitDone := true }
  if (s.requestsOf b).all fun r => (s.request r).blitDone then
    let damaged := (s.buffer b).wasDamaged
    let s := s.setBuffer b { s.buffer b with canDestroy := false }
    let s := (s.capturesOf b).foldl
      (if damaged then updateWanting ρ b acts else updateForced ρ b acts) s
    if damaged then
      let s := s.resetBlits b
      (s.setBuffer b { s.buffer b with
        bufferChanged := false
        wasDamaged := false
        canDestroy := true }).captureBufferDestroy b .needDestroy
    else (s.setBuffer b { s.buffer b with canDestroy := true }).captureBufferDestroy b .needDestroy
  else s

/-- `capture_buffer_need_update`. -/
def captureBufferNeedUpdate (s : State Pixel) (b : ℕ) : Bool :=
  (s.capturesOf b).any fun c => (s.capture c).wantsUpdate

end State

/-- `struct wlr_output_event_commit`: whether a buffer and damage are committed, the damage, and what is
    painted there. -/
structure Commit (Pixel : Type) where
  hasBuffer : Bool := true
  committedDamage : Bool := true
  damage : List Box
  picture : Picture Pixel

namespace Commit

def hasDamage (commit : Commit Pixel) : Bool :=
  commit.committedDamage && commit.damage.any fun box => !wlrBoxEmpty box

/-- The pixel is in the damage region. -/
def damages (commit : Commit Pixel) (p : ℤ × ℤ) : Bool :=
  commit.committedDamage && commit.damage.any fun box => inBox box p

/-- The commit with the whole picture in its buffer: outside of the damage it is the one of the commit
    before. -/
def onto (commit : Commit Pixel) (old : Option (Picture Pixel)) : Commit Pixel :=
  match old with
  | none => commit
  | some old =>
    { commit with picture := fun p => if commit.damages p then commit.picture p else old p }

end Commit

/-- The rectangle that `pixman_region32_init_rect` makes of a source box. -/
def srcRect (src : FBox) : Box := ⟨trunc src.x, trunc src.y, trunc src.width, trunc src.height⟩

/-- The damage of a commit is damage for a request with that buffer type and source box. -/
def damagesRequest (commit : Commit Pixel) (type : CaptureType) (src : FBox) : Bool :=
  commit.hasDamage &&
    match type with
    | .area _ => commit.damage.any fun box => (wlrBoxIntersection (srcRect src) box).isSome
    | _ => true

namespace State

/-- `capture_buffer_update_damage`. -/
def captureBufferUpdateDamage (commit : Commit Pixel) (s : State Pixel) (r : ℕ) : State Pixel :=
  let b := (s.request r).buffer
  if damagesRequest commit (s.buffer b).type (s.request r).src then
    s.setBuffer b { s.buffer b with wasDamaged := true }
  else s

/-- `capture_request_do_blit` when it succeeds. -/
def captureRequestDoBlit (ρ : Renderer Pixel) (picture : Picture Pixel) (s : State Pixel) (r : ℕ) :
    State Pixel :=
  let req := s.request r
  let buffer := s.buffer req.buffer
  s.setBuffer req.buffer { buffer with
    pixels := fun p =>
      if inBox req.dst p && inSize buffer.size p then
        ρ.sample picture req.src req.dst (s.shape req.output).transform p
      else buffer.pixels p }

/-- What a commit does for one request. -/
def commitRequest (ρ : Renderer Pixel) (commit : Commit Pixel) (blit : ℕ → Bool)
    (acts : ℕ → List Act) (s : State Pixel) (r : ℕ) : State Pixel :=
  let b := (s.request r).buffer
  let s := s.captureBufferUpdateDamage commit r
  if !s.captureBufferNeedUpdate b then s
  else if !(s.buffer b).wasDamaged then s.captureRequestMarkDone ρ acts r
  else if blit b then (s.captureRequestDoBlit ρ commit.picture r).captureRequestMarkDone ρ acts r
  else (s.setBuffer b { s.buffer b with needDestroy := true }).captureBufferDestroy b .blitFailed

/-- A `wl_list_for_each_safe` over the requests of an output. -/
def forEachRequest (s : State Pixel) (o : ℕ) (body : State Pixel → ℕ → State Pixel) : State Pixel :=
  match forEachSafe (fun s r => decide (r ∈ s.requests)) body s none (s.requestsOn o) with
  | some s => s
  | none => { s with fault := true }

/-- `capture_output_handle_commit`. -/
def handleCommit (ρ : Renderer Pixel) (s : State Pixel) (o : ℕ) (commit : Commit Pixel)
    (blit : ℕ → Bool) (acts : ℕ → List Act) : State Pixel :=
  if commit.hasBuffer then
    let commit := commit.onto (s.frame o)
    { s with frame := Function.update s.frame o (some commit.picture) }.forEachRequest o
      (commitRequest ρ commit blit acts)
  else s

/-! ### Outputs -/

def setShape (s : State Pixel) (o : ℕ) (shape : Shape) : State Pixel :=
  { s with shape := Function.update s.shape o shape }

/-- A buffer of the manager is allocated again. -/
def reallocate (ρ : Renderer Pixel) (ok : ℕ → Bool) (s : State Pixel) (b : ℕ) : State Pixel :=
  (s.captureBufferAllocate ρ b (ok b)).1

/-- `capture_output_handle_disable`, with `capture_output_destroy`. -/
def handleDisable (ρ : Renderer Pixel) (s : State Pixel) (o : ℕ) (ok : ℕ → Bool) : State Pixel :=
  let s := { s with outputs := s.outputs.filter (· ≠ o) }.forEachRequest o (captureRequestDestroy ρ)
  s.buffers.foldl (reallocate ρ ok) s

/-- What a change of the geometry does for one request of the output. -/
def moveRequest (ρ : Renderer Pixel) (ok : ℕ → Bool) (s : State Pixel) (r : ℕ) : State Pixel :=
  let req := s.request r
  match s.calcBox ρ (s.buffer req.buffer).type (s.buffer req.buffer).options req.output with
  | some (dst, src) => (s.setRequest r { req with dst := dst, src := src }).reallocate ρ ok req.buffer
  | none => s.captureRequestDestroy ρ r

/-- An area buffer gets its request on the output if it has none. -/
def addAreaRequest (ρ : Renderer Pixel) (o : ℕ) (s : State Pixel) (b : ℕ) : State Pixel :=
  match (s.buffer b).type with
  | .area _ =>
    if (s.requestsOf b).any fun r => (s.request r).output = o then s else createRequest ρ b s o
  | _ => s

/-- `capture_output_handle_geometry`. -/
def handleGeometry (ρ : Renderer Pixel) (s : State Pixel) (o : ℕ) (shape : Shape) (ok : ℕ → Bool) :
    State Pixel :=
  let s := (s.setShape o shape).forEachRequest o (moveRequest ρ ok)
  s.buffers.foldl (addAreaRequest ρ o) s

/-- A buffer that is not of one output gets its request on a new output. -/
def addRequest (ρ : Renderer Pixel) (o : ℕ) (ok : ℕ → Bool) (s : State Pixel) (b : ℕ) :
    State Pixel :=
  match (s.buffer b).type with
  | .output _ => s
  | _ =>
    match s.captureRequestCreate ρ o b with
    | some s => s.reallocate ρ ok b
    | none => s

/-- `handle_new_enabled_output`. -/
def handleNewEnabledOutput (ρ : Renderer Pixel) (s : State Pixel) (o : ℕ) (shape : Shape)
    (ok : ℕ → Bool) : State Pixel :=
  let s := { s.setShape o shape with outputs := o :: s.outputs }
  s.buffers.foldl (addRequest ρ o ok) s

end State

/-! ### Runs -/

/-- What happens: an output is enabled, disabled or changed, or commits; a capture is made, wants to
    be updated or not, or is destroyed. `ok` and `blit` say for which buffers allocating and blitting
    succeed, and `acts` lists what the owners of captures do in an update. -/
inductive Event (Pixel : Type) where
  | newEnabledOutput (o : ℕ) (shape : Shape) (ok : ℕ → Bool)
  | disable (o : ℕ) (ok : ℕ → Bool)
  | geometry (o : ℕ) (shape : Shape) (ok : ℕ → Bool)
  | commit (o : ℕ) (commit : Commit Pixel) (blit : ℕ → Bool) (acts : List (ℕ × List Act))
  | create (type : CaptureType) (options : Options) (ok : Bool)
  | markWantsUpdate (c : ℕ) (wants force : Bool)
  | destroy (c : ℕ)

/-- What the owner of the capture `c` does in an update. -/
def actsOf (acts : List (ℕ × List Act)) (c : ℕ) : List Act :=
  match acts.find? fun p => p.1 = c with
  | some p => p.2
  | none => []

/-- Only an output that is not enabled is enabled, and only an enabled one does something. -/
def step (ρ : Renderer Pixel) (s : State Pixel) : Event Pixel → Option (State Pixel)
  | .newEnabledOutput o shape ok =>
    if o ∉ s.outputs then some (s.handleNewEnabledOutput ρ o shape ok) else none
  | .disable o ok => if o ∈ s.outputs then some (s.handleDisable ρ o ok) else none
  | .geometry o shape ok => if o ∈ s.outputs then some (s.handleGeometry ρ o shape ok) else none
  | .commit o commit blit acts =>
    if o ∈ s.outputs then some (s.handleCommit ρ o commit blit (actsOf acts)) else none
  | .create type options ok => some (s.captureCreate ρ type options ok)
  | .markWantsUpdate c wants force => some (s.captureMarkWantsUpdate c wants force)
  | .destroy c => some (s.captureDestroy c)

/-- No output is enabled and there is no capture. -/
def start (ρ : Renderer Pixel) : State Pixel where
  buffer := fun _ => { type := .fullscreen, options := {}, pixels := fun _ => ρ.clear }

end FlakeWm.Captures
