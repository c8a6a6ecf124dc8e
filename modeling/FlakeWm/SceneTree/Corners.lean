import FlakeWm.SceneTree.Model
import Mathlib.Order.Defs.LinearOrder
import Mathlib.Tactic.SplitIfs

/-! The radius of a tree at its corners (`src/scene/scene.c`). -/

namespace FlakeWm.SceneTree

open Damage (Color Buffer Radius Region)

/-- The order of the corners in an array: `KY_SCENE_ROUND_CORNER_RB` and so on. -/
inductive Corner where | rb | rt | lb | lt
  deriving DecidableEq, Repr

/-- The corner of a box. -/
def Corner.of (box : Box) : Corner → ℤ × ℤ
  | .rb => (box.x + box.width, box.y + box.height)
  | .rt => (box.x + box.width, box.y)
  | .lb => (box.x, box.y + box.height)
  | .lt => (box.x, box.y)

def Corner.radius (r : Radius) : Corner → ℤ
  | .rb => r.rb
  | .rt => r.rt
  | .lb => r.lb
  | .lt => r.lt

/-- `struct round_corner`. -/
structure RoundCorner where
  x : ℤ := 0
  y : ℤ := 0
  radius : ℤ := 0
  deriving DecidableEq

/-- The box from which `get_node_radius` takes the corners of a leaf: that of a rectangle has its size,
    that of a buffer its destination size as it was set. -/
def Placed.sizeBox (p : Placed) : Box :=
  match p.content with
  | .rect width height _ => ⟨p.x, p.y, width, height⟩
  | .decoration width height _ _ => ⟨p.x, p.y, width, height⟩
  | .buffer b => ⟨p.x, p.y, b.dstWidth, b.dstHeight⟩

/-- A corner is taken for one that lies further out than the one so far. -/
def Corner.further : Corner → RoundCorner → ℤ × ℤ → Bool
  | .rb, c, p => decide (c.x < p.1) || decide (c.y < p.2)
  | .rt, c, p => decide (c.x < p.1) || decide (c.y > p.2)
  | .lb, c, p => decide (c.x > p.1) || decide (c.y < p.2)
  | .lt, c, p => decide (c.x < p.1) || decide (c.y < p.2)

/-- `get_node_radius`, for one corner. -/
def getNodeRadius (i : Corner) (corner : RoundCorner) (p : Placed) : RoundCorner :=
  let point := i.of p.sizeBox
  if i.radius p.node.radius > 0 ∧ i.further corner point then ⟨point.1, point.2, i.radius p.node.radius⟩
  else corner

/-- `ky_scene_node_get_radius` of a tree; `radius` is what the array of the caller holds before. -/
def getRadius (root : Node) (children : Forest) (radius : Corner → ℤ) (i : Corner) : ℤ :=
  let leaves := if root.enabled then children.forEachEnabled 0 0 else []
  let corner := leaves.foldl (getNodeRadius i) {}
  let point := i.of children.boundingBox
  if corner.radius > 0 ∧ corner.x = point.1 ∧ corner.y = point.2 then corner.radius else radius i

/-! ### One rounded leaf -/

variable {i : Corner} {root : Node} {children : Forest} {p : Placed} {below above : List Placed}

/-- Leaves that are not rounded at a corner are passed over. -/
theorem foldl_unrounded (corner : RoundCorner) : ∀ leaves : List Placed,
    (∀ q ∈ leaves, i.radius q.node.radius ≤ 0) → leaves.foldl (getNodeRadius i) corner = corner
  | [], _ => rfl
  | q :: leaves, h => by
      have hq : getNodeRadius i corner q = corner :=
        if_neg fun hpos => not_lt.2 (h q List.mem_cons_self) hpos.1
      rw [List.foldl_cons, hq]
      exact foldl_unrounded corner leaves fun q hq => h q (List.mem_cons_of_mem _ hq)

theorem foldl_one (hbelow : ∀ q ∈ below, i.radius q.node.radius ≤ 0)
    (habove : ∀ q ∈ above, i.radius q.node.radius ≤ 0) :
    (below ++ p :: above).foldl (getNodeRadius i) {} = getNodeRadius i {} p := by
  rw [List.foldl_append, foldl_unrounded {} below hbelow, List.foldl_cons, foldl_unrounded _ above habove]

/-- What leaves the array of the caller as it was stores no radius. -/
theorem not_stored {r : ℤ} {result : (Corner → ℤ) → ℤ} (hpos : 0 < r) (hkept : ∀ radius, result radius = radius i) :
    ¬ ∀ radius, result radius = r :=
  fun h => hpos.ne ((hkept fun _ => 0).symm.trans (h fun _ => 0))

/-- Where a corner has to lie to be taken instead of the origin. -/
def Corner.beyondOrigin (i : Corner) (point : ℤ × ℤ) : Bool := i.further {} point

/-- If one enabled leaf is rounded at a corner and has that corner in common with the tree, its radius is
    stored if and only if the tree is enabled, the leaf has its corner where its size says, and the corner
    lies on the right side of the origin. -/
theorem radius_stored_iff (root : Node) (children : Forest) (i : Corner) (p : Placed) (below above : List Placed)
    (hleaves : children.forEachEnabled 0 0 = below ++ p :: above) (hpos : 0 < i.radius p.node.radius)
    (hbelow : ∀ q ∈ below, i.radius q.node.radius ≤ 0) (habove : ∀ q ∈ above, i.radius q.node.radius ≤ 0)
    (hcorner : i.of p.box = i.of children.boundingBox) :
    (∀ radius, getRadius root children radius i = i.radius p.node.radius) ↔
      root.enabled = true ∧ i.of p.sizeBox = i.of p.box ∧ i.beyondOrigin (i.of p.box) = true := by
  cases henabled : root.enabled with
  | false =>
    refine iff_of_false (not_stored (i := i) hpos fun radius => ?_) fun h => Bool.false_ne_true h.1
    rw [getRadius, henabled]
    rfl
  | true =>
    have hget : ∀ radius, getRadius root children radius i =
        if (getNodeRadius i {} p).radius > 0 ∧ (getNodeRadius i {} p).x = (i.of p.box).1 ∧
          (getNodeRadius i {} p).y = (i.of p.box).2 then (getNodeRadius i {} p).radius else radius i := by
      intro radius
      rw [getRadius, henabled, hleaves, hcorner]
      simp only [if_true, foldl_one hbelow habove]
    simp only [true_and, hget]
    by_cases hfar : i.further {} (i.of p.sizeBox) = true
    · have htaken : getNodeRadius i {} p = ⟨(i.of p.sizeBox).1, (i.of p.sizeBox).2, i.radius p.node.radius⟩ :=
        if_pos ⟨hpos, hfar⟩
      rw [htaken]
      by_cases hsize : i.of p.sizeBox = i.of p.box
      · rw [hsize] at hfar ⊢
        exact iff_of_true (fun _ => if_pos ⟨hpos, rfl, rfl⟩) ⟨rfl, hfar⟩
      · refine iff_of_false (not_stored (i := i) hpos fun _ => if_neg fun h => ?_) fun h => hsize h.1
        exact hsize (Prod.ext h.2.1 h.2.2)
    · have htaken : getNodeRadius i {} p = {} := if_neg fun h => hfar h.2
      rw [htaken]
      refine iff_of_false (not_stored (i := i) hpos fun _ => if_neg fun h => ?_) fun h => hfar (h.1 ▸ h.2)
      exact lt_irrefl _ h.1

/-- A white window of 100 by 80 with rounded corners. -/
def roundedRect : Content := .rect 100 80 ⟨1, 1, 1, 1⟩

def roundedNode (x y : ℤ) : Node := { x := x, y := y, radius := ⟨8, 8, 8, 8⟩ }

/-- The bottom right corner of a window at the origin of its tree. -/
theorem bottom_right_stored : (∀ radius, getRadius {} (.leaf (roundedNode 0 0) roundedRect .nil) radius .rb = 8) ↔
    true = true ∧ Corner.of ⟨0, 0, 100, 80⟩ .rb = Corner.of ⟨0, 0, 100, 80⟩ .rb ∧
      Corner.beyondOrigin .rb (100, 80) = true :=
  radius_stored_iff {} (.leaf (roundedNode 0 0) roundedRect .nil) .rb ⟨roundedNode 0 0, roundedRect, 0, 0⟩ [] []
    rfl (by decide) (by simp) (by simp) (by decide)

/-- The top left corner of such a window lies at the origin and is not taken. -/
theorem top_left_lost : ¬ ∀ (root : Node) (children : Forest) (i : Corner) (p : Placed) (below above : List Placed),
    root.enabled = true → children.forEachEnabled 0 0 = below ++ p :: above → 0 < i.radius p.node.radius →
    (∀ q ∈ below, i.radius q.node.radius ≤ 0) → (∀ q ∈ above, i.radius q.node.radius ≤ 0) →
    i.of p.box = i.of children.boundingBox →
    ∀ radius, getRadius root children radius i = i.radius p.node.radius := by
  intro h
  have hlt := h {} (.leaf (roundedNode 0 0) roundedRect .nil) .lt ⟨roundedNode 0 0, roundedRect, 0, 0⟩ [] []
    rfl (by rfl) (by decide) (by simp) (by simp) (by decide) fun _ => 0
  exact absurd hlt (by decide)

end FlakeWm.SceneTree
