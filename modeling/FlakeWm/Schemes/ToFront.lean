import Mathlib.Data.List.Nodup
import Mathlib.Data.List.Sublists

/-! Moving elements of a list to its front.

    `Before l x y` says that `x` stands before `y` in `l`. An element that is moved to the front
    stands before all others, and the others keep their order. -/

namespace FlakeWm

variable {α : Type*} {l : List α} {x y p : α}

/-- `x` stands before `y`. -/
def Before (l : List α) (x y : α) : Prop := [x, y].Sublist l

theorem before_cons : Before (p :: l) x y ↔ (x = p ∧ y ∈ l) ∨ Before l x y := by
  rw [Before, List.sublist_cons_iff, or_comm]
  refine or_congr ?_ Iff.rfl
  constructor
  · rintro ⟨t, ht, hsub⟩
    rw [List.cons.injEq] at ht
    rw [← ht.2] at hsub
    exact ⟨ht.1, List.singleton_sublist.mp hsub⟩
  · rintro ⟨rfl, hy⟩
    exact ⟨[y], rfl, List.singleton_sublist.mpr hy⟩

theorem Before.mem_left (h : Before l x y) : x ∈ l := h.subset List.mem_cons_self

theorem Before.mem_right (h : Before l x y) : y ∈ l :=
  h.subset (List.mem_cons_of_mem x List.mem_cons_self)

theorem Before.asymm : ∀ {l : List α}, l.Nodup → Before l x y → ¬ Before l y x
  | [], _, h, _ => absurd h.mem_left List.not_mem_nil
  | p :: l, hnodup, h, h' => by
      obtain ⟨hp, hnodup⟩ := List.nodup_cons.mp hnodup
      rcases before_cons.mp h with ⟨rfl, hmem⟩ | hl
      · rcases before_cons.mp h' with ⟨rfl, -⟩ | hl'
        · exact hp hmem
        · exact hp hl'.mem_right
      · rcases before_cons.mp h' with ⟨rfl, -⟩ | hl'
        · exact hp hl.mem_right
        · exact hl.asymm hnodup hl'

theorem before_filter {f : α → Bool} (hx : f x = true) (hy : f y = true) :
    Before (l.filter f) x y ↔ Before l x y := by
  constructor
  · exact fun h => h.trans List.filter_sublist
  · intro h
    have hfilter := List.Sublist.filter f h
    rwa [List.filter_cons_of_pos hx, List.filter_cons_of_pos hy, List.filter_nil] at hfilter

variable [DecidableEq α]

/-- `wl_list_remove` and `wl_list_insert` at the head. -/
def toFront (l : List α) (p : α) : List α := p :: l.filter fun q => decide (q ≠ p)

theorem before_toFront_self (hy : y ∈ l) (hne : y ≠ p) : Before (toFront l p) p y := by
  refine before_cons.mpr (.inl ⟨rfl, List.mem_filter.mpr ⟨hy, ?_⟩⟩)
  exact decide_eq_true hne

theorem before_toFront (hx : x ≠ p) (hy : y ≠ p) : Before (toFront l p) x y ↔ Before l x y := by
  have hfilter : Before (l.filter fun q => decide (q ≠ p)) x y ↔ Before l x y :=
    before_filter (decide_eq_true hx) (decide_eq_true hy)
  rw [toFront, before_cons, hfilter]
  exact or_iff_right fun h => hx h.1

theorem mem_toFront (hp : p ∈ l) : x ∈ toFront l p ↔ x ∈ l := by
  rw [toFront, List.mem_cons, List.mem_filter, decide_eq_true_eq]
  rcases eq_or_ne x p with rfl | hne
  · simp [hp]
  · simp [hne]

theorem nodup_toFront (h : l.Nodup) : (toFront l p).Nodup := by
  refine List.nodup_cons.mpr ⟨fun hmem => ?_, h.filter _⟩
  rw [List.mem_filter, decide_eq_true_eq] at hmem
  exact hmem.2 rfl

end FlakeWm
