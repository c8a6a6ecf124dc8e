import FlakeWm.SceneTree.Scanout

/-! What composing the scene draws, and when showing one buffer instead is the same (`src/scene/render.c`,
    `buffer.c`).

    The leaves are drawn from bottom to top, each within its own region and that of the output, as with
    `KY_SCENE_RENDER_DISABLE_VISIBILITY`; what is left undrawn otherwise is covered later. Drawing itself
    is done by wlroots and is a parameter. Blur, borders, forced round corners, repeated textures and
    `security` are left out. -/

namespace FlakeWm.SceneTree

open Damage (Buffer Point Radius Region rectRegion translate cornerRegion mem_rectRegion mem_translate)

/-- `round` of the C library, which takes a half away from zero. -/
def roundAway (q : ℚ) : ℤ := if q < 0 then -⌊-q + 1 / 2⌋ else ⌊q + 1 / 2⌋

/-- `scale_length`. -/
def scaleLength (length offset : ℤ) (scale : ℚ) : ℤ :=
  roundAway ((offset + length) * scale) - roundAway (offset * scale)

namespace Output

variable (o : Output)

/-- `wlr_output_transformed_resolution`. -/
def transWidth : ℤ := if o.transform.swapsSides then o.pixelHeight else o.pixelWidth
def transHeight : ℤ := if o.transform.swapsSides then o.pixelWidth else o.pixelHeight

/-- `ky_scene_render_box` of a box in the layout, before it is turned by the transform of the output. -/
def renderBox (box : Box) : Box :=
  ⟨roundAway ((box.x - o.x) * o.scale), roundAway ((box.y - o.y) * o.scale),
    scaleLength box.width (box.x - o.x) o.scale, scaleLength box.height (box.y - o.y) o.scale⟩

/-- All pixels of the output, seen through its transform. -/
def frame : Box := ⟨0, 0, o.transWidth, o.transHeight⟩

end Output

/-- `buffer_get_opaque_region`. -/
def SceneBuffer.getOpaqueRegion (b : SceneBuffer) : Region :=
  match b.buffer with
  | none => ∅
  | some buffer =>
    if b.opacity ≠ 1 then ∅
    else if buffer.isOpaque then rectRegion 0 0 b.destSize.1 b.destSize.2
    else b.opaqueRegion ∩ rectRegion 0 0 b.destSize.1 b.destSize.2

/-- The `render_region` of a leaf on an output. -/
def Placed.renderRegion (p : Placed) (o : Output) : Region :=
  let box := boxRegion p.content.boundingBox
  translate (if p.node.clipRegion = ∅ then box else box ∩ p.node.clipRegion) p.x p.y ∩ o.region

/-- What `buffer_render` says to `ky_render_pass_add_texture`; the radius is not scaled yet. -/
structure TextureOptions where
  texture : Buffer
  srcBox : FBox
  dstBox : Box
  transform : Transform
  alpha : ℚ
  radius : Radius
  clip : Region
  blend : Bool

/-- The source box is the whole texture, which is also what an empty one means. -/
def WholeSource (srcBox : FBox) (texture : Buffer) : Prop :=
  srcBox.empty = true ∨ srcBox = ⟨0, 0, texture.width, texture.height⟩

def Unrounded (r : Radius) : Prop := (r.rb ≤ 0 ∧ r.rt ≤ 0) ∧ r.lb ≤ 0 ∧ r.lt ≤ 0

instance (r : Radius) : Decidable (Unrounded r) := inferInstanceAs (Decidable (_ ∧ _))

/-- All of a texture, as it is, onto all of the output. -/
structure TextureOptions.IsCopy (options : TextureOptions) (o : Output) : Prop where
  source : WholeSource options.srcBox options.texture
  dest : options.dstBox = o.frame
  transform : options.transform = 0
  alpha : options.alpha = 1
  radius : Unrounded options.radius
  clip : o.region ⊆ options.clip
  blend : options.blend = false

attribute [local instance] neZero_transforms

/-- The renderer of wlroots with its pixels: rectangles and textures are drawn over what is there, and a
    texture that is copied onto the output replaces it. -/
structure Renderer (κ : Type) where
  invert : Transform → Transform
  compose : Transform → Transform → Transform
  compose_invert : ∀ t, compose (invert t) t = 0
  texel : Buffer → ℤ × ℤ → κ
  addRect : Output → Placed → ℤ × ℤ → κ → κ
  addTexture : Output → TextureOptions → ℤ × ℤ → κ → κ
  copies : ∀ o options, options.IsCopy o → ∀ pixel under,
    addTexture o options pixel under = texel options.texture pixel

namespace Renderer

variable {κ : Type} (R : Renderer κ)

/-- What `buffer_render` asks for. -/
def textureOptions (o : Output) (p : Placed) (b : SceneBuffer) (buffer : Buffer) : TextureOptions where
  texture := buffer
  srcBox := b.srcBox
  dstBox := o.renderBox ⟨p.x, p.y, b.destSize.1, b.destSize.2⟩
  transform := R.compose (R.invert b.transform) o.transform
  alpha := b.opacity
  radius := p.node.radius
  clip := p.renderRegion o
  blend := decide (p.renderRegion o \ translate b.getOpaqueRegion p.x p.y ≠ ∅)

/-- `buffer_render` and the render functions of rectangles, of a visible leaf at one pixel. -/
def render (o : Output) (pixel : ℤ × ℤ) (under : κ) (p : Placed) : κ :=
  if p.renderRegion o = ∅ then under
  else
    match p.content with
    | .rect _ _ _ => R.addRect o p pixel under
    | .decoration _ _ _ _ => R.addRect o p pixel under
    | .buffer b =>
      match b.buffer with
      | none => under
      | some buffer => R.addTexture o (R.textureOptions o p b buffer) pixel under

/-- A pixel of the composed scene. -/
def composed (o : Output) (leaves : List Placed) (pixel : ℤ × ℤ) (background : κ) : κ :=
  leaves.foldl (R.render o pixel) background

/-- A pixel of the buffer, if there is one. -/
def scannedOut (b : SceneBuffer) (pixel : ℤ × ℤ) (background : κ) : κ :=
  b.buffer.elim background fun buffer => R.texel buffer pixel

end Renderer

/-- Everywhere on the output the buffer is what is seen, and composing the scene copies it. -/
structure SamePicture (o : Output) (leaves : List Placed) (p : Placed) (b : SceneBuffer) : Prop where
  topmost : ∃ below above, leaves = below ++ p :: above ∧ ∀ r ∈ above, ∀ q ∈ o.region, q ∉ boxRegion r.box
  shown : ∀ q ∈ o.region, q ∈ boxRegion p.box
  opaqueThere : ∀ q ∈ o.region, q ∈ translate b.getOpaqueRegion p.x p.y
  unclipped : p.node.clipRegion = ∅ ∨ ∀ q ∈ o.region, q ∈ translate p.node.clipRegion p.x p.y
  unrounded : ∀ q ∈ o.region, q ∉ translate (cornerRegion b.destSize.1 b.destSize.2 p.node.radius) p.x p.y
  coincides : p.box = o.box
  source : ∀ buffer, b.buffer = some buffer → WholeSource b.srcBox buffer
  unscaled : o.renderBox p.box = o.frame
  picture : ∀ (κ : Type) (R : Renderer κ) (pixel : ℤ × ℤ) (background : κ),
    R.composed o leaves pixel background = R.scannedOut b pixel background

/-- The effective resolution and the scale of an output come to its pixels. -/
def Output.exact (o : Output) : Bool :=
  decide (roundAway (o.width * o.scale) = o.transWidth) && decide (roundAway (o.height * o.scale) = o.transHeight)

end FlakeWm.SceneTree
