import Mathlib.Data.List.Count
import Mathlib.Logic.Function.Basic

/-! Signals and their listeners.

    A component with many signals is a map from the signals to the listeners that are linked in them,
    oldest first. What matters of a listener is how often it is linked in a signal (`count`): linking
    and unlinking change one count by one. Emitting a signal calls the listeners that were linked at
    its start, in order, leaving out those that an earlier one unlinked. -/

namespace FlakeWm

variable {σ ℓ α : Type*} [DecidableEq σ] [DecidableEq ℓ]

/-- `wl_signal_add`. -/
def addListener (m : σ → List ℓ) (sig : σ) (l : ℓ) : σ → List ℓ :=
  Function.update m sig (m sig ++ [l])

/-- `wl_list_remove` of a listener's link. -/
def removeListener (m : σ → List ℓ) (sig : σ) (l : ℓ) : σ → List ℓ :=
  Function.update m sig ((m sig).erase l)

theorem count_addListener (m : σ → List ℓ) (sig sig' : σ) (l l' : ℓ) :
    (addListener m sig l sig').count l' =
      (m sig').count l' + if sig' = sig ∧ l' = l then 1 else 0 := by
  unfold addListener
  by_cases hsig : sig' = sig
  · subst hsig
    rw [Function.update_self, List.count_append, List.count_singleton]
    by_cases hl : l' = l
    · simp [hl]
    · simp [hl, Ne.symm hl]
  · rw [Function.update_of_ne hsig]
    simp [hsig]

theorem count_removeListener (m : σ → List ℓ) (sig sig' : σ) (l l' : ℓ) :
    (removeListener m sig l sig').count l' =
      (m sig').count l' - if sig' = sig ∧ l' = l then 1 else 0 := by
  unfold removeListener
  by_cases hsig : sig' = sig
  · subst hsig
    rw [Function.update_self, List.count_erase]
    by_cases hl : l' = l
    · simp [hl]
    · simp [hl, Ne.symm hl]
  · rw [Function.update_of_ne hsig]
    simp [hsig]

/-- `wl_signal_emit_mutable`, where `linked` are the listeners of the signal. -/
def emit (linked : α → List ℓ) (handle : α → ℓ → α) (s : α) : α :=
  (linked s).foldl (fun s l => if l ∈ linked s then handle s l else s) s

omit [DecidableEq σ] in
theorem foldl_linked_inv {linked : α → List ℓ} {handle : α → ℓ → α} {I : List ℓ → α → Prop}
    (hcall : ∀ l rest s, I (l :: rest) s → l ∈ linked s → I rest (handle s l))
    (hskip : ∀ l rest s, I (l :: rest) s → l ∉ linked s → I rest s) : ∀ (ls : List ℓ) (s : α),
    I ls s → I [] (ls.foldl (fun s l => if l ∈ linked s then handle s l else s) s)
  | [], _, h => h
  | l :: ls, s, h => by
      rw [List.foldl_cons]
      refine foldl_linked_inv hcall hskip ls _ ?_
      by_cases hl : l ∈ linked s
      · rw [if_pos hl]
        exact hcall l ls s h hl
      · rw [if_neg hl]
        exact hskip l ls s h hl

omit [DecidableEq σ] in
/-- The invariant rule for a signal, with the listeners still to be called. -/
theorem emit_inv {linked : α → List ℓ} {handle : α → ℓ → α} {I : List ℓ → α → Prop} {s : α}
    (h : I (linked s) s)
    (hcall : ∀ l rest s, I (l :: rest) s → l ∈ linked s → I rest (handle s l))
    (hskip : ∀ l rest s, I (l :: rest) s → l ∉ linked s → I rest s) : I [] (emit linked handle s) :=
  foldl_linked_inv hcall hskip (linked s) s h

end FlakeWm
