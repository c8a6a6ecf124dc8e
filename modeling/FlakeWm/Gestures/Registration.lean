import FlakeWm.Gestures.Model
import Mathlib.Algebra.Order.Ring.Rat
import Mathlib.Data.List.Pairwise

/-! When the order in which bindings are registered does not matter, and when a gesture matches only one. -/

namespace FlakeWm.Gestures

variable {binding : ℕ → GestureBinding} {a b : GestureBinding} {table : List ℕ}

/-! ### Masks -/

/-- Wherever `a` has no direction or edge in common with `b` it stands for any. -/
def covers (a b : GestureBinding) : Bool :=
  (decide (a.directions = ∅) || meet a.directions b.directions) &&
    (decide (a.edges = ∅) || meet a.edges b.edges)

/-- A gesture that matches at most one binding goes to the same one in whatever order they are in the
    table. -/
theorem handled_perm {table' : List ℕ} (hperm : table.Perm table') (state : GestureState)
    (h : (table.filter fun b => matchesGesture state (binding b)).length ≤ 1) :
    bindingsHandleGestureBinding binding table' state = bindingsHandleGestureBinding binding table state := by
  have hfilter := hperm.filter fun b => matchesGesture state (binding b)
  have heq : (table'.filter fun b => matchesGesture state (binding b)) =
      table.filter fun b => matchesGesture state (binding b) := by
    generalize (table'.filter fun b => matchesGesture state (binding b)) = l at hfilter
    match hl : table.filter fun b => matchesGesture state (binding b), h with
    | [], _ =>
      rw [hl] at hfilter
      exact List.nil_perm.1 hfilter
    | [b], _ =>
      rw [hl] at hfilter
      exact (List.singleton_perm.1 hfilter).symm
  rw [bindingsHandleGestureBinding, bindingsHandleGestureBinding, ← List.head?_filter, ← List.head?_filter, heq]

/-- The table after registering bindings one after the other. -/
def registered (binding : ℕ → GestureBinding) (bs : List ℕ) : List ℕ :=
  bs.foldl (fun table b => (kywcGestureBindingRegister binding table b).1) []

/-- A swipe of three fingers over the touchpad, upwards or in any direction. -/
def threeFingers (directions : Finset Direction) : GestureBinding where
  type := .swipe
  stage := .trigger
  fingers := 3
  devices := {.touchpad}
  directions := directions

end FlakeWm.Gestures
