import FlakeWm.Captures.Model
import FlakeWm.Damage.Leaves
import FlakeWm.SceneTree.Model
import Mathlib.Data.Rat.Floor

/-! Which buffer an output may show without composing the scene (`src/scene/output.c`).

    The scene is searched from top to bottom for the first visible leaf that meets the output. If that is
    a buffer with an opaque region as large as the output, and its transform, source box and size fit the
    output, it is handed to the backend. -/

namespace FlakeWm.SceneTree

open Captures (wlrBoxIntersection)
open Damage (Buffer Point Region rectRegion translate cornerRegion mem_rectRegion mem_translate)

attribute [local instance] neZero_transforms

/-- An output with its place in the layout; `width` and `height` are its effective resolution. -/
structure Output where
  x : ℤ
  y : ℤ
  width : ℤ
  height : ℤ
  pixelWidth : ℤ
  pixelHeight : ℤ
  transform : Transform := 0
  scale : ℚ := 1

def Output.box (o : Output) : Box := ⟨o.x, o.y, o.width, o.height⟩

def boxRegion (box : Box) : Region := rectRegion box.x box.y box.width box.height

def Output.region (o : Output) : Region := boxRegion o.box

/-- `wlr_fbox_empty`. -/
def FBox.empty (box : FBox) : Bool := decide (box.width ≤ 0) || decide (box.height ≤ 0)

/-- The checks of `ky_scene_try_direct_scanout` before it asks the backend. -/
def tryDirectScanout (o : Output) (b : SceneBuffer) : Bool :=
  match b.buffer with
  | none => false
  | some buffer =>
    let defaultBox : FBox :=
      if b.transform.swapsSides then ⟨0, 0, buffer.height, buffer.width⟩ else ⟨0, 0, buffer.width, buffer.height⟩
    decide (b.transform = o.transform) && (b.srcBox.empty || decide (b.srcBox = defaultBox)) &&
      decide (buffer.width = o.pixelWidth ∧ buffer.height = o.pixelHeight)

/-! ### The search as a list -/

variable {a box : Box} {p : Placed} {q : Point}

theorem mem_boxRegion : q ∈ boxRegion box ↔
    (box.x ≤ q.1 ∧ q.1 < box.x + box.width) ∧ box.y ≤ q.2 ∧ q.2 < box.y + box.height := mem_rectRegion

/-- What the search makes sure of when it ends with a buffer: nothing visible above it meets the output,
    its box contains that of the output, and its opaque region is as large. -/
structure Found (o : Output) (leaves : List Placed) (p : Placed) (b : SceneBuffer) : Prop where
  topmost : ∃ below above, leaves = below ++ p :: above ∧
    ∀ r ∈ above, ∀ q ∈ o.region, q ∉ boxRegion r.box
  content : p.content = .buffer b
  shown : ∀ q ∈ o.region, q ∈ boxRegion p.box
  width : 0 < o.width
  height : 0 < o.height
  opacity : b.opacity = 1
  opaqueRegion : rectRegion 0 0 o.width o.height ⊆ b.opaqueRegion

end FlakeWm.SceneTree
