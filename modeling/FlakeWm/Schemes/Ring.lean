import Mathlib.Data.List.Basic
import Mathlib.Data.List.Nodup
import Mathlib.Data.Nat.ModEq
import Mathlib.Logic.Function.Basic

/-! Ring buffers in an array.

    A ring of capacity `max` holds `n ≤ max` elements from index `read` on, wrapping around. `offsets`
    are the indices it occupies, in order, and `window` the elements there. A loop
    `for (i = read; i != stop; i = (i + 1) % max)` visits `indices`: as it stops where the indices
    meet, it visits the whole ring only as long as the ring is not full. -/

namespace FlakeWm.Ring

variable {α : Type*}

/-- The `n` indices from `read` on. -/
def offsets (max read n : ℕ) : List ℕ := (List.range n).map fun k => (read + k) % max

/-- The `n` elements from `read` on. -/
def window (cells : ℕ → α) (max read n : ℕ) : List α := (offsets max read n).map cells

/-- The indices that `for (; i != stop; i = (i + 1) % max)` visits, or `none` if it does not stop
    within `fuel` rounds. -/
def indices (max stop : ℕ) : ℕ → ℕ → Option (List ℕ)
  | 0, i => if i = stop then some [] else none
  | fuel + 1, i =>
      if i = stop then some [] else (indices max stop fuel ((i + 1) % max)).map (i :: ·)

@[simp] theorem offsets_zero (max read : ℕ) : offsets max read 0 = [] := rfl

@[simp] theorem length_offsets (max read n : ℕ) : (offsets max read n).length = n := by
  simp [offsets]

@[simp] theorem length_window (cells : ℕ → α) (max read n : ℕ) :
    (window cells max read n).length = n := by simp [window]

theorem offsets_succ {max read : ℕ} (hread : read < max) (n : ℕ) :
    offsets max read (n + 1) = read :: offsets max ((read + 1) % max) n := by
  rw [offsets, List.range_succ_eq_map, List.map_cons, Nat.add_zero, Nat.mod_eq_of_lt hread,
    List.map_map, offsets]
  congr 1
  refine List.map_congr_left fun k _ => ?_
  simp only [Function.comp]
  rw [Nat.mod_add_mod]
  congr 1
  omega

theorem offsets_concat (max read n : ℕ) :
    offsets max read (n + 1) = offsets max read n ++ [(read + n) % max] := by
  rw [offsets, List.range_succ, List.map_append]
  rfl

/-- Two of the first `max` offsets are never the same index. -/
theorem offset_inj {max read a b : ℕ} (ha : a < max) (hb : b < max)
    (h : (read + a) % max = (read + b) % max) : a = b := by
  have hmod : a ≡ b [MOD max] := Nat.ModEq.add_left_cancel' read h
  rwa [Nat.ModEq, Nat.mod_eq_of_lt ha, Nat.mod_eq_of_lt hb] at hmod

theorem nodup_offsets {max n : ℕ} (read : ℕ) (hn : n ≤ max) : (offsets max read n).Nodup := by
  refine (List.nodup_map_iff_inj_on List.nodup_range).mpr fun a ha b hb h => ?_
  rw [List.mem_range] at ha hb
  exact offset_inj (ha.trans_le hn) (hb.trans_le hn) h

theorem mem_offsets {max read n i : ℕ} :
    i ∈ offsets max read n ↔ ∃ k < n, (read + k) % max = i := by
  simp [offsets]

/-- A loop that stops `d` steps further on visits the indices before that, if `d` is less than the
    capacity. -/
theorem indices_eq {max : ℕ} : ∀ {d fuel i : ℕ}, i < max → d < max → d ≤ fuel →
    indices max ((i + d) % max) fuel i = some (offsets max i d)
  | 0, fuel, i, hi, _, _ => by
      rw [Nat.add_zero, Nat.mod_eq_of_lt hi]
      cases fuel <;> simp [indices]
  | d + 1, 0, _, _, _, hfuel => by omega
  | d + 1, fuel + 1, i, hi, hd, hfuel => by
      have hne : i ≠ (i + (d + 1)) % max := by
        intro h
        have h' : (i + 0) % max = (i + (d + 1)) % max := by
          rw [Nat.add_zero, Nat.mod_eq_of_lt hi]
          exact h
        have := offset_inj (by omega) hd h'
        omega
      have hnext : (i + (d + 1)) % max = ((i + 1) % max + d) % max := by
        rw [Nat.mod_add_mod]
        congr 1
        omega
      rw [indices, if_neg hne, hnext, indices_eq (Nat.mod_lt _ (by omega)) (by omega) (by omega),
        offsets_succ hi]
      rfl

/-- A loop that starts where it stops visits nothing. -/
theorem indices_self (max fuel i : ℕ) : indices max i fuel i = some [] := by
  cases fuel <;> simp [indices]

/-! ### The elements -/

theorem window_succ (cells : ℕ → α) {max read : ℕ} (hread : read < max) (n : ℕ) :
    window cells max read (n + 1) = cells read :: window cells max ((read + 1) % max) n := by
  rw [window, offsets_succ hread]
  rfl

theorem window_concat (cells : ℕ → α) (max read n : ℕ) :
    window cells max read (n + 1) = window cells max read n ++ [cells ((read + n) % max)] := by
  rw [window, offsets_concat, List.map_append]
  rfl

theorem window_congr {cells cells' : ℕ → α} {max read n : ℕ}
    (h : ∀ i ∈ offsets max read n, cells' i = cells i) :
    window cells' max read n = window cells max read n :=
  List.map_congr_left h

/-- Writing behind the last element appends it. -/
theorem window_push (cells : ℕ → α) {max n : ℕ} (read : ℕ) (hn : n < max) (x : α) :
    window (Function.update cells ((read + n) % max) x) max read (n + 1) =
      window cells max read n ++ [x] := by
  rw [window_concat, Function.update_self]
  congr 1
  refine window_congr fun i hi => Function.update_of_ne ?_ _ _
  obtain ⟨k, hk, rfl⟩ := mem_offsets.mp hi
  intro h
  exact absurd (offset_inj (hk.trans hn) hn h) (by omega)

/-- Overwriting the element that has `as` before it and `bs` behind it. -/
theorem window_update {cells : ℕ → α} {max read n : ℕ} (hn : n ≤ max) {as bs : List ℕ} {i : ℕ}
    (h : offsets max read n = as ++ i :: bs) (x : α) :
    window (Function.update cells i x) max read n = as.map cells ++ x :: bs.map cells := by
  have hnodup := nodup_offsets read hn
  rw [h, List.nodup_append, List.nodup_cons] at hnodup
  obtain ⟨-, ⟨hbs, -⟩, has⟩ := hnodup
  rw [window, h, List.map_append, List.map_cons, Function.update_self]
  congr 1
  · refine List.map_congr_left fun k hk => Function.update_of_ne ?_ _ _
    exact has k hk i (by simp)
  · congr 1
    refine List.map_congr_left fun k hk => Function.update_of_ne ?_ _ _
    rintro rfl
    exact hbs hk

end FlakeWm.Ring
