import Mathlib.Data.Int.Notation

/-! The integer rectangle shared by outputs, views and the positioner (`struct kywc_box`). -/

namespace FlakeWm

/-- Rectangle with its top-left corner and size, in layout coordinates. -/
structure Box where
  x : ℤ
  y : ℤ
  width : ℤ
  height : ℤ
  deriving DecidableEq, Repr

def kywcBoxContainsPoint (box : Box) (x y : ℤ) : Bool :=
  decide (x ≥ box.x) && decide (x < box.x + box.width) && decide (y ≥ box.y) &&
    decide (y < box.y + box.height)

def kywcBoxEqual (a b : Box) : Bool :=
  a.x == b.x && a.y == b.y && a.width == b.width && a.height == b.height

@[simp] theorem kywcBoxEqual_iff (a b : Box) : kywcBoxEqual a b = true ↔ a = b := by
  cases a; cases b
  simp [kywcBoxEqual, and_assoc]

end FlakeWm
