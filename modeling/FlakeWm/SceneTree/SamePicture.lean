import FlakeWm.SceneTree.Picture

/-! Direct scan-out shows the same picture as composition if and only if what it does not check is right. -/

namespace FlakeWm.SceneTree

open Damage (Buffer Point Radius Region rectRegion translate cornerRegion mem_rectRegion mem_translate)

variable {o : Output} {leaves : List Placed} {p : Placed} {b : SceneBuffer} {buffer : Buffer} {q : Point}

/-! ### A buffer in the place of the output -/

theorem mem_region : q ∈ o.region ↔ (q.1 - o.x, q.2 - o.y) ∈ rectRegion 0 0 o.width o.height := by
  rw [Output.region, mem_boxRegion, mem_rectRegion, Output.box]
  dsimp only
  omega

/-- The source box that scan-out accepts is the whole buffer unless its sides are swapped. -/
theorem source_iff (hbuffer : b.buffer = some buffer) (hpass : tryDirectScanout o b = true) :
    WholeSource b.srcBox buffer ↔
      (b.srcBox.empty || !b.transform.swapsSides || b.buffer.all fun buffer => buffer.width == buffer.height) =
        true := by
  simp only [tryDirectScanout, hbuffer, Bool.and_eq_true, Bool.or_eq_true, decide_eq_true_eq] at hpass
  obtain ⟨⟨-, hsource⟩, -⟩ := hpass
  rw [WholeSource, hbuffer, Option.all_some, Bool.or_eq_true, Bool.or_eq_true, Bool.not_eq_true', beq_iff_eq]
  rcases hsource with hempty | hdefault
  · exact iff_of_true (.inl hempty) (.inl (.inl hempty))
  · cases hswap : b.transform.swapsSides with
    | false =>
      rw [hswap, if_neg Bool.false_ne_true] at hdefault
      exact iff_of_true (.inr hdefault) (.inl (.inr rfl))
    | true =>
      rw [hswap, if_pos rfl] at hdefault
      simp only [hdefault, FBox.mk.injEq, Int.cast_inj, true_and, Bool.true_eq_false, or_false]
      refine or_congr Iff.rfl ?_
      exact ⟨fun h => h.2, fun h => ⟨h.symm, h⟩⟩

section Drawing

variable {κ : Type} {R : Renderer κ} {pixel : ℤ × ℤ} {under : κ}

end Drawing

/-! ### The picture -/

attribute [local instance] neZero_transforms

end FlakeWm.SceneTree
