import FlakeWm.Damage.Model

/-! Frames of one output (`src/patches/damage_ring.c`, `src/scene/output.c`, and what
    `src/effect/blur.c` does to the damage).

    The damage ring has an entry for each buffer that was rendered to, with the damage since then. The
    state also has what the output should show, the picture, and what each buffer contains. The
    picture changes only where damage is handed to the ring; rendering makes the points of the target
    damage current. Regions are in the coordinates of the output. -/

namespace FlakeWm.Frames

open FlakeWm.Damage

variable {α : Type*}

/-! ### The damage ring -/

/-- `struct damage_buffer`. -/
structure Entry where
  buffer : ℕ
  damage : Region

/-- `struct ky_damage_ring`. -/
structure Ring where
  width : ℤ := 0
  height : ℤ := 0
  current : Region := ∅
  buffers : List Entry := []

namespace Ring

def bounds (r : Ring) : Region := rectRegion 0 0 r.width r.height

/-- `ky_damage_ring_add`. -/
def add (r : Ring) (damage : Region) : Ring :=
  let clipped := damage ∩ r.bounds
  { r with
    current := r.current ∪ clipped
    buffers := r.buffers.map fun e => { e with damage := e.damage ∪ clipped } }

/-- `ky_damage_ring_add_whole`. -/
def addWhole (r : Ring) : Ring := r.add r.bounds

/-- `ky_damage_ring_set_bounds`. -/
def setBounds (r : Ring) (width height : ℤ) : Ring :=
  if r.width ≠ width ∨ r.height ≠ height then { r with width := width, height := height }.addWhole
  else r

/-- `ky_damage_ring_get_buffer_damage`; `tracked` says that the entry of a new buffer could be made. -/
def getBufferDamage (r : Ring) (buffer : ℕ) (tracked : Bool) : Ring × Region :=
  match r.buffers.find? fun e => e.buffer = buffer with
  | some e => (r, e.damage ∩ r.bounds)
  | none =>
    if tracked then ({ r with buffers := ⟨buffer, r.bounds⟩ :: r.buffers }, r.bounds)
    else (r, r.bounds)

/-- `ky_damage_ring_rotate_buffer`; a frame that was scanned out has no buffer. -/
def rotateBuffer (r : Ring) (buffer : Option ℕ) : Ring :=
  { r with
    current := ∅
    buffers := r.buffers.map fun e => if some e.buffer = buffer then { e with damage := ∅ } else e }

/-- `buffer_destroy`. -/
def bufferDestroy (r : Ring) (buffer : ℕ) : Ring :=
  { r with buffers := r.buffers.filter fun e => e.buffer ≠ buffer }

end Ring

/-! ### The output -/

/-- `struct ky_scene_output`, with the picture that it should show and the content of the buffers. -/
structure Output (α : Type*) where
  ring : Ring := {}
  prevScanout : Bool := false
  commitRetryPending : Bool := false
  buffer : Option ℕ := none
  picture : Point → α
  content : ℕ → Point → α

/-- How rendering goes: the points that blur adds to the damage (`blur`), those of them that it
    repaints (`half`), and whether the others are restored from a copy; whether an effect damages the
    whole output afterwards; and what the picture is where the blur changed. -/
structure Rendering (α : Type*) where
  buffer : Option ℕ
  pass : Bool
  tracked : Bool
  blur : Region
  half : Region
  restores : Bool
  blurred : Point → α
  damageAfter : Bool
  submitted : Bool
  failed : Point → α

/-- What a frame finds: the damage of the scene with the new picture there, whether a frame is needed
    without damage, whether a buffer can be scanned out, and how rendering and the commit go. -/
structure Frame (α : Type*) where
  damage : Region
  picture : Point → α
  needsFrame : Bool
  scanout : Bool
  rendering : Rendering α
  committed : Bool
  retry : Bool

namespace Output

/-- The picture changes inside a region. -/
def repaint (o : Output α) (region : Region) (picture : Point → α) : Output α :=
  { o with picture := fun p => if p ∈ region then picture p else o.picture p }

/-- The content of a buffer changes inside a region. -/
def draw (o : Output α) (buffer : ℕ) (region : Region) (colors : Point → α) : Output α :=
  { o with content := fun b p => if b = buffer ∧ p ∈ region then colors p else o.content b p }

/-- Damage that is handed to the ring, with the picture there. -/
def damage (o : Output α) (region : Region) (picture : Point → α) : Output α :=
  { o.repaint region picture with ring := o.ring.add region }

/-- `ky_scene_output_damage_whole`. -/
def damageWhole (o : Output α) (picture : Point → α) : Output α :=
  { o with ring := o.ring.addWhole, picture := picture }

/-- `scene_output_update_geometry`. -/
def updateGeometry (o : Output α) (width height : ℤ) (picture : Point → α) : Output α :=
  { o with ring := o.ring.setBounds width height }.damageWhole picture

/-- `scene_output_commit_failed`. -/
def commitFailed (o : Output α) (retry : Bool) : Output α :=
  { o with
    ring := o.ring.addWhole
    commitRetryPending := o.commitRetryPending || retry }

/-- The target damage after the effects, and the part of it that is restored. -/
def targetDamage (o : Output α) (r : Rendering α) (buffer : Region) : Region :=
  (buffer ∪ r.blur) ∩ o.ring.bounds

def excludedDamage (o : Output α) (r : Rendering α) (buffer : Region) : Region :=
  if r.restores then o.targetDamage r buffer \ (buffer ∪ r.half) else ∅

/-- The damage that rendering found. -/
def frameDamage (o : Output α) (r : Rendering α) (buffer : Region) : Region :=
  (o.targetDamage r buffer \ buffer) \ o.excludedDamage r buffer

/-- The scene is drawn where the buffer is damaged, and what the blur changes is new damage. -/
def drawDamage (o : Output α) (r : Rendering α) (buffer : ℕ) (damage : Region) : Output α :=
  if damage = ∅ then o
  else
    let target := o.targetDamage r damage \ o.excludedDamage r damage
    let o := o.damage (o.frameDamage r damage) r.blurred
    o.draw buffer target o.picture

/-- The render pass: the damage of the buffer is drawn and its entry cleared. -/
def renderPass (o : Output α) (r : Rendering α) (buffer : ℕ) : Output α :=
  let d := o.ring.getBufferDamage buffer r.tracked
  let o := { o with ring := d.1 }.drawDamage r buffer d.2
  let o := { o with ring := o.ring.rotateBuffer (some buffer) }
  if r.damageAfter then { o with ring := o.ring.addWhole } else o

/-- A pass that failed leaves anything in its buffer. -/
def passFailed (o : Output α) (buffer : ℕ) (colors : Point → α) : Output α :=
  { o with
    content := fun b p => if b = buffer then colors p else o.content b p
    ring := o.ring.addWhole }

/-- `scene_output_render`: the buffer that can be committed. -/
def render (o : Output α) (r : Rendering α) : Output α × Option ℕ :=
  match r.buffer with
  | none => (o, none)
  | some buffer =>
    if !r.pass then (o, none)
    else if !r.submitted then ((o.renderPass r buffer).passFailed buffer r.failed, none)
    else (o.renderPass r buffer, some buffer)

/-- Leaving direct scan-out damages everything. -/
def setScanout (o : Output α) (scanout : Bool) : Output α :=
  { o with
    prevScanout := scanout
    ring := if o.prevScanout && !scanout then o.ring.addWhole else o.ring }

/-- The frame is scanned out, or rendered and committed. -/
def present (o : Output α) (f : Frame α) : Output α × Option ℕ :=
  if f.scanout then
    if f.committed then ({ o with ring := o.ring.rotateBuffer none }, none)
    else (o.commitFailed f.retry, none)
  else
    match o.render f.rendering with
    | (o, none) => (o, none)
    | (o, some buffer) =>
      if f.committed then ({ o with buffer := some buffer }, some buffer)
      else (o.commitFailed f.retry, none)

/-- `ky_scene_output_commit`: the composited buffer that was committed, if there is one. -/
def commit (o : Output α) (f : Frame α) : Output α × Option ℕ :=
  if o.commitRetryPending then (o, none)
  else
    let o := o.damage f.damage f.picture
    if !f.needsFrame && decide (o.ring.current = ∅) then (o, none)
    else (o.setScanout f.scanout).present f

end Output

/-! ### Events -/

inductive Event (α : Type*) where
  | damage (region : Region) (picture : Point → α)
  | damageWhole (picture : Point → α)
  | updateGeometry (width height : ℤ) (picture : Point → α)
  | bufferDestroy (buffer : ℕ) (content : Point → α)
  | commitRetry
  | commit (frame : Frame α)

/-- A destroyed buffer may come back as a new one, with any content. -/
def step (o : Output α) : Event α → Option (Output α)
  | .damage region picture => some (o.damage region picture)
  | .damageWhole picture => some (o.damageWhole picture)
  | .updateGeometry width height picture => some (o.updateGeometry width height picture)
  | .bufferDestroy buffer content =>
    some { o with
      ring := o.ring.bufferDestroy buffer
      content := fun b => if b = buffer then content else o.content b }
  | .commitRetry => some { o with commitRetryPending := false }
  | .commit frame => some (o.commit frame).1

end FlakeWm.Frames
