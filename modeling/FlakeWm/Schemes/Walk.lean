import Mathlib.Data.List.Nodup
import Mathlib.Data.List.Perm.Subperm
import Mathlib.Logic.Relation

/-! Walks along a relation that has no cycle.

    A program that follows links between finitely many objects ends unless the links have a cycle. A
    model of it counts the steps down; `Enough` says that the count cannot run out. The objects that
    the walk came through are different from each other and from those still to come, so there are
    never more of them than objects. -/

namespace FlakeWm

variable {α : Type*} {r : α → α → Prop} {all : List α} {n : ℕ} {x y : α}

/-- No way along `r` leads back. -/
def Acyclic (r : α → α → Prop) : Prop := ∀ x, ¬ Relation.TransGen r x x

/-- `n` steps are enough for every walk from `x` among `all`. -/
def Enough (r : α → α → Prop) (all : List α) (n : ℕ) (x : α) : Prop :=
  ∃ seen : List α, seen.Nodup ∧ seen ⊆ all ∧ (∀ y ∈ seen, Relation.TransGen r y x) ∧
    all.length < n + seen.length

theorem Enough.start (x : α) (h : all.length < n) : Enough r all n x :=
  ⟨[], List.nodup_nil, List.nil_subset _, fun _ hy => absurd hy List.not_mem_nil, h⟩

theorem Enough.pos (h : Enough r all n x) : n ≠ 0 := by
  rintro rfl
  obtain ⟨seen, hnodup, hsub, -, hlength⟩ := h
  have := (List.subperm_of_subset hnodup hsub).length_le
  omega

theorem Enough.step (hr : Acyclic r) (h : Enough r all (n + 1) x) (hx : x ∈ all) (hxy : r x y) :
    Enough r all n y := by
  obtain ⟨seen, hnodup, hsub, hseen, hlength⟩ := h
  refine ⟨x :: seen, List.nodup_cons.mpr ⟨fun hmem => hr x (hseen x hmem), hnodup⟩,
    List.cons_subset.mpr ⟨hx, hsub⟩, fun z hz => ?_, ?_⟩
  · rcases List.mem_cons.mp hz with rfl | hz
    · exact .single hxy
    · exact .tail (hseen z hz) hxy
  · rw [List.length_cons]
    omega

theorem Enough.mono {m : ℕ} (h : Enough r all n x) (hm : n ≤ m) : Enough r all m x := by
  obtain ⟨seen, hnodup, hsub, hseen, hlength⟩ := h
  exact ⟨seen, hnodup, hsub, hseen, by omega⟩

theorem Acyclic.ne (hr : Acyclic r) (hxy : r x y) : x ≠ y := by
  rintro rfl
  exact hr x (.single hxy)

end FlakeWm
