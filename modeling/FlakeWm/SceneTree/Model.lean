import FlakeWm.Box
import FlakeWm.Damage.Model
import Mathlib.Algebra.GroupWithZero.Nat

/-! What a scene tree looks like at one moment (`src/scene/scene.c`, `rect.c`, `buffer.c`).

    Nodes are placed relative to their parent. The children of a tree are a `Forest`, listed as in the
    source from bottom to top; a decoration is a rectangle with a bounding box of its own. Coordinates
    do not overflow, and effects, which put other functions into a node, are left out. -/

namespace FlakeWm.SceneTree

open Damage (Color Buffer Radius Region rectRegion)

def intMax : ℤ := 2147483647
def intMin : ℤ := -2147483648

/-- `struct wlr_fbox`. -/
structure FBox where
  x : ℚ := 0
  y : ℚ := 0
  width : ℚ := 0
  height : ℚ := 0
  deriving DecidableEq

/-- `enum wl_output_transform`; the lowest bit is `WL_OUTPUT_TRANSFORM_90`. -/
abbrev Transform := Fin 8

/-- There are eight transforms. -/
theorem neZero_transforms : NeZero 8 := ⟨by decide⟩

attribute [local instance] neZero_transforms

def Transform.swapsSides (t : Transform) : Bool := decide (t.val % 2 = 1)

/-- What `struct ky_scene_buffer` adds to a node. -/
structure SceneBuffer where
  buffer : Option Buffer
  dstWidth : ℤ := 0
  dstHeight : ℤ := 0
  srcBox : FBox := {}
  transform : Transform := 0
  opacity : ℚ := 1
  opaqueRegion : Region := ∅
  deriving DecidableEq

/-- A leaf: `struct ky_scene_rect`, `struct ky_scene_decoration` or `struct ky_scene_buffer`. -/
inductive Content where
  | rect (width height : ℤ) (color : Color)
  | decoration (width height : ℤ) (color : Color) (renderBox : Box)
  | buffer (b : SceneBuffer)
  deriving DecidableEq

/-- `struct ky_scene_node`. -/
structure Node where
  enabled : Bool := true
  x : ℤ := 0
  y : ℤ := 0
  radius : Radius := ⟨0, 0, 0, 0⟩
  clipRegion : Region := ∅
  deriving DecidableEq

/-- The children of a tree from bottom to top. -/
inductive Forest where
  | nil
  | leaf (n : Node) (c : Content) (above : Forest)
  | tree (n : Node) (children above : Forest)

/-- `buffer_get_dest_size`. -/
def SceneBuffer.destSize (b : SceneBuffer) : ℤ × ℤ :=
  if b.dstWidth > 0 ∧ b.dstHeight > 0 then (b.dstWidth, b.dstHeight)
  else
    match b.buffer with
    | some buffer => if b.transform.swapsSides then (buffer.height, buffer.width) else (buffer.width, buffer.height)
    | none => (0, 0)

/-- `rect_get_bounding_box`, `scene_decoration_get_bounding_box` and `buffer_get_bounding_box`. -/
def Content.boundingBox : Content → Box
  | .rect width height _ => ⟨0, 0, width, height⟩
  | .decoration _ _ _ renderBox => renderBox
  | .buffer b => ⟨0, 0, b.destSize.1, b.destSize.2⟩

/-- `ky_scene_node_is_visible` of an enabled leaf. -/
def Content.visible : Content → Bool
  | .rect _ _ color => decide (color.a ≠ 0)
  | .decoration _ _ color _ => decide (color.a ≠ 0)
  | .buffer b => b.buffer.isSome && decide (b.opacity ≠ 0)

/-- A box moved by a position. -/
def shift (box : Box) (x y : ℤ) : Box := { box with x := box.x + x, y := box.y + y }

/-! ### Bounding boxes -/

/-- The variables of the loop in `tree_get_bounding_box`. -/
structure Extents where
  minX1 : ℤ := intMax
  minY1 : ℤ := intMax
  maxX2 : ℤ := intMin
  maxY2 : ℤ := intMin

namespace Extents

/-- One round of the loop. -/
def add (e : Extents) (box : Box) : Extents where
  minX1 := min e.minX1 box.x
  minY1 := min e.minY1 box.y
  maxX2 := max e.maxX2 (box.x + box.width)
  maxY2 := max e.maxY2 (box.y + box.height)

def box (e : Extents) : Box where
  x := if e.minX1 = intMax then 0 else e.minX1
  y := if e.minY1 = intMax then 0 else e.minY1
  width := if e.maxX2 = intMin then 0 else e.maxX2 - e.minX1
  height := if e.maxY2 = intMin then 0 else e.maxY2 - e.minY1

end Extents

namespace Forest

def isNil : Forest → Bool
  | nil => true
  | leaf _ _ _ => false
  | tree _ _ _ => false

/-- The loop in `tree_get_bounding_box`. -/
def extents : Forest → Extents → Extents
  | nil, e => e
  | leaf n c above, e =>
    above.extents (if n.enabled && c.visible then e.add (shift c.boundingBox n.x n.y) else e)
  | tree n children above, e =>
    above.extents
      (if n.enabled && !children.isNil then e.add (shift (children.extents {}).box n.x n.y) else e)

/-- `tree_get_bounding_box`, given the children. -/
def boundingBox (children : Forest) : Box := (children.extents {}).box

end Forest

/-! ### Leaves in their places -/

/-- A leaf with its place relative to where a walk began. -/
structure Placed where
  node : Node
  content : Content
  x : ℤ
  y : ℤ

/-- The box of a leaf in its place. -/
def Placed.box (p : Placed) : Box := shift p.content.boundingBox p.x p.y

/-- The leaves that `node_for_each_enabled` visits among the children of an enabled tree at `x`, `y`. -/
def Forest.forEachEnabled : Forest → ℤ → ℤ → List Placed
  | .nil, _, _ => []
  | .leaf n c above, x, y =>
    (if n.enabled then [⟨n, c, x + n.x, y + n.y⟩] else []) ++ above.forEachEnabled x y
  | .tree n children above, x, y =>
    (if n.enabled then children.forEachEnabled (x + n.x) (y + n.y) else []) ++ above.forEachEnabled x y

end FlakeWm.SceneTree
