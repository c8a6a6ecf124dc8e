import Mathlib.Data.List.Basic
import Mathlib.Order.Defs.LinearOrder
import Mathlib.Order.Lattice

/-! Binary search by a key in a list that is sorted by it.

    The search looks at the middle of what is left and goes on in one of the halves; `fuel` bounds the rounds.
    Several elements may have the key that is looked for, and any of them may be found. -/

namespace FlakeWm

variable {α β : Type*} [LinearOrder β] {f : α → β} {key : β} {l : List α}

/-- The search between the places `lo` and `hi`. -/
def bsearchIn (f : α → β) (key : β) (l : List α) : ℕ → ℕ → ℕ → Option α
  | 0, _, _ => none
  | fuel + 1, lo, hi =>
      if lo < hi then
        match l[(lo + hi) / 2]? with
        | none => none
        | some a =>
            if key < f a then bsearchIn f key l fuel lo ((lo + hi) / 2)
            else if f a < key then bsearchIn f key l fuel ((lo + hi) / 2 + 1) hi
            else some a
      else none

/-- The search in the whole list. -/
def bsearch (f : α → β) (key : β) (l : List α) : Option α := bsearchIn f key l l.length 0 l.length

/-- What is found is in the list and has the key. -/
theorem bsearchIn_some : ∀ (fuel lo hi : ℕ) {a : α}, bsearchIn f key l fuel lo hi = some a → a ∈ l ∧ f a = key
  | 0, _, _, _, h => by cases h
  | fuel + 1, lo, hi, a, h => by
      rw [bsearchIn] at h
      split at h
      · split at h
        · cases h
        next b hb =>
          split at h
          · exact bsearchIn_some fuel lo _ h
          · split at h
            · exact bsearchIn_some fuel _ hi h
            next hge hle =>
              obtain rfl := Option.some.inj h
              exact ⟨List.mem_of_getElem? hb, le_antisymm (not_lt.1 hge) (not_lt.1 hle)⟩
      · cases h

/-- An element with the key between the places is not missed. -/
theorem bsearchIn_isSome (hsorted : l.Pairwise fun a b => f a ≤ f b) {i : ℕ} {b : α} (hb : l[i]? = some b)
    (hkey : f b = key) : ∀ fuel lo hi : ℕ, lo ≤ i → i < hi → hi ≤ l.length → hi - lo ≤ fuel →
      (bsearchIn f key l fuel lo hi).isSome = true
  | 0, lo, hi, hlo, hhi, _, hfuel => by omega
  | fuel + 1, lo, hi, hlo, hhi, hlen, hfuel => by
      have hmid : (lo + hi) / 2 < l.length := by omega
      obtain ⟨hi', rfl⟩ := List.getElem?_eq_some_iff.1 hb
      -- elements are sorted by their places
      have hle {j k : ℕ} (hj : j < l.length) (hk : k < l.length) (hjk : j ≤ k) : f l[j] ≤ f l[k] := by
        rcases Nat.lt_or_eq_of_le hjk with hlt | rfl
        · exact List.pairwise_iff_getElem.1 hsorted j k hj hk hlt
        · exact le_refl _
      rw [bsearchIn, if_pos (by omega), List.getElem?_eq_getElem hmid]
      dsimp only
      split
      next hlt =>
        have hbefore : i < (lo + hi) / 2 := by
          by_contra hge
          exact absurd (hle hmid hi' (by omega)) (not_le.2 (hkey ▸ hlt))
        exact bsearchIn_isSome hsorted hb hkey fuel lo _ hlo hbefore (by omega) (by omega)
      next =>
        split
        next hlt =>
          have hafter : (lo + hi) / 2 < i := by
            by_contra hge
            exact absurd (hle hi' hmid (by omega)) (not_le.2 (hkey ▸ hlt))
          exact bsearchIn_isSome hsorted hb hkey fuel _ hi (by omega) hhi hlen (by omega)
        next => rfl

theorem bsearch_some {a : α} (h : bsearch f key l = some a) : a ∈ l ∧ f a = key := bsearchIn_some _ _ _ h

/-- In a sorted list the search finds an element with the key when there is one. -/
theorem bsearch_isSome (hsorted : l.Pairwise fun a b => f a ≤ f b) {b : α} (hb : b ∈ l) (hkey : f b = key) :
    ∃ a, bsearch f key l = some a ∧ a ∈ l ∧ f a = key := by
  obtain ⟨i, hi⟩ := List.mem_iff_getElem?.1 hb
  obtain ⟨hlt, -⟩ := List.getElem?_eq_some_iff.1 hi
  obtain ⟨a, ha⟩ := Option.isSome_iff_exists.1
    (bsearchIn_isSome hsorted hi hkey l.length 0 l.length (Nat.zero_le i) hlt (Nat.le_refl _) (by omega))
  exact ⟨a, ha, bsearch_some ha⟩

theorem bsearch_none (h : ∀ a ∈ l, f a ≠ key) : bsearch f key l = none := by
  cases hs : bsearch f key l with
  | none => rfl
  | some a => exact absurd (bsearch_some hs).2 (h a (bsearch_some hs).1)

end FlakeWm
