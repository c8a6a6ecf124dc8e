import Mathlib.Data.List.Basic
import Mathlib.Data.List.Pairwise
import Mathlib.Order.Basic
import Mathlib.Order.Lattice

/-! Sorting by insertion from the back, with comparisons that may be wrong.

    Each element walks back over those before it, past all that it is before or that it is neither before
    nor after, and is put after the first one that it is after. The comparisons are given; the order is
    that of a key. The result is in order exactly when every comparison that has to be made is right. -/

namespace FlakeWm.Insertion

variable {α β : Type*} (before after : α → α → Bool)

/-- An element is put among those before it, which are given from the last to the first. -/
def insertBack (o : α) : List α → List α
  | [] => [o]
  | p :: l =>
    if before o p then p :: insertBack o l
    else if after o p then o :: p :: l
    else p :: insertBack o l

/-- The loop over the elements, with those that have been put in their places. -/
def insertAll (done : List α) : List α → List α
  | [] => done
  | o :: rest => insertAll (insertBack before after o done.reverse).reverse rest

variable {before after} {o p q : α} {l done rest : List α}

theorem insertBack_perm (o : α) : ∀ l : List α, (insertBack before after o l).Perm (o :: l)
  | [] => .refl _
  | p :: l => by
      rw [insertBack]
      split
      · exact ((insertBack_perm o l).cons p).trans (.swap o p l)
      · split
        · exact .refl _
        · exact ((insertBack_perm o l).cons p).trans (.swap o p l)

theorem insertBack_sublist (o : α) : ∀ l : List α, l.Sublist (insertBack before after o l)
  | [] => List.nil_sublist _
  | p :: l => by
      rw [insertBack]
      split
      · exact (insertBack_sublist o l).cons_cons p
      · split
        · exact List.sublist_cons_self o (p :: l)
        · exact (insertBack_sublist o l).cons_cons p

theorem insertAll_perm : ∀ (rest : List α) {done : List α}, (insertAll before after done rest).Perm (done ++ rest)
  | [], done => by rw [insertAll, List.append_nil]
  | o :: rest, done => by
      rw [insertAll]
      have hstep : (insertBack before after o done.reverse).reverse.Perm (o :: done) :=
        ((List.reverse_perm _).trans (insertBack_perm o _)).trans ((List.reverse_perm done).cons o)
      exact (insertAll_perm rest).trans ((hstep.append_right rest).trans List.perm_middle.symm)

/-- What is in its place keeps its order. -/
theorem insertAll_sublist : ∀ (rest : List α) {done : List α}, done.Sublist (insertAll before after done rest)
  | [], done => .refl done
  | o :: rest, done => by
      rw [insertAll]
      refine List.Sublist.trans ?_ (insertAll_sublist rest)
      have hsub : done.reverse.Sublist (insertBack before after o done.reverse) := insertBack_sublist o _
      simpa using hsub.reverse

variable [LinearOrder β] (key : α → β)

variable (before after) in
/-- The comparisons of two elements agree with their keys. -/
def Right (o p : α) : Prop := (before o p = true ↔ key o < key p) ∧ (after o p = true ↔ key p < key o)

/-- An element is compared with the elements before it between which and itself no other lies. -/
def Compared (done : List α) (o p : α) : Prop := p ∈ done ∧ ∀ q ∈ done, ¬ (key p < key q ∧ key q < key o)

variable (before after) in
/-- Each element is rightly compared with those before it. -/
def RightFrom (done : List α) : List α → Prop
  | [] => True
  | o :: rest => (∀ p, Compared key done o p → Right before after key o p) ∧ RightFrom (done ++ [o]) rest

variable (before after) in
/-- A wrong comparison is the opposite of the right one. -/
def Opposed (o p : α) : Prop :=
  (key o < key p ∧ before o p = false ∧ after o p = true) ∨ (key p < key o ∧ before o p = true)

theorem RightFrom.perm {key : α → β} : ∀ {rest done done' : List α}, done.Perm done' →
    (RightFrom before after key done rest ↔ RightFrom before after key done' rest)
  | [], _, _, _ => Iff.rfl
  | o :: rest, done, done', h => by
      have hcompared : ∀ p, Compared key done o p ↔ Compared key done' o p := fun p => by
        simp only [Compared, h.mem_iff]
      simp only [RightFrom, hcompared, RightFrom.perm (h.append_right [o])]

/-- The condition on the loop, as one on the list. -/
theorem rightFrom_iff {key : α → β} : ∀ {rest done : List α}, RightFrom before after key done rest ↔
    ∀ pre o post, rest = pre ++ o :: post → ∀ p, Compared key (done ++ pre) o p → Right before after key o p
  | [], _ => by simp [RightFrom]
  | o :: rest, done => by
      rw [RightFrom, rightFrom_iff]
      constructor
      · rintro ⟨hfirst, hrest⟩ pre o' post heq p hp
        cases pre with
        | nil =>
          obtain ⟨rfl, _⟩ := List.cons.inj heq
          exact hfirst p (by rwa [List.append_nil] at hp)
        | cons o'' pre =>
          obtain ⟨rfl, rfl⟩ := List.cons.inj heq
          exact hrest pre o' post rfl p (by rwa [List.append_assoc])
      · intro h
        refine ⟨fun p hp => h [] o rest rfl p (by rwa [List.append_nil]), fun pre o' post heq p hp => ?_⟩
        exact h (o :: pre) o' post (by rw [heq, List.cons_append]) p (by rwa [List.append_assoc] at hp)

/-- The elements of a reversed list in order, as they are met on the way back. -/
abbrev Falling (l : List α) : Prop := l.Pairwise fun a b => key b ≤ key a

variable {key}

theorem falling_cons_iff : Falling key (p :: l) ↔ (∀ q ∈ l, key q ≤ key p) ∧ Falling key l := List.pairwise_cons

/-- Right comparisons put an element in its place. -/
theorem insertBack_falling : ∀ {l : List α}, Falling key l →
    (∀ p, Compared key l o p → Right before after key o p) → Falling key (insertBack before after o l)
  | [], _, _ => List.pairwise_singleton _ _
  | p :: l, h, hright => by
      obtain ⟨hle, hl⟩ := falling_cons_iff.1 h
      have hp : Compared key (p :: l) o p := ⟨List.mem_cons_self, fun q hq hlt => by
        rcases List.mem_cons.1 hq with rfl | hq
        · exact lt_irrefl _ hlt.1
        · exact absurd (hle q hq) (not_le.2 hlt.1)⟩
      obtain ⟨hbefore, hafter⟩ := hright p hp
      -- past an element that is not below the new one, the comparisons are those of the rest of the list
      have hpast : key o ≤ key p → Falling key (p :: insertBack before after o l) := fun hop => by
        refine falling_cons_iff.2 ⟨fun q hq => ?_, insertBack_falling hl fun q hq => hright q ?_⟩
        · rcases List.mem_cons.1 ((insertBack_perm o l).mem_iff.1 hq) with rfl | hq
          · exact hop
          · exact hle q hq
        · refine ⟨List.mem_cons_of_mem p hq.1, fun r hr hlt => ?_⟩
          rcases List.mem_cons.1 hr with rfl | hr
          · exact absurd hop (not_le.2 hlt.2)
          · exact hq.2 r hr hlt
      rw [insertBack]
      split
      next hb => exact hpast (hbefore.1 hb).le
      next hb =>
        split
        next ha =>
          have hpo := hafter.1 ha
          refine falling_cons_iff.2 ⟨fun q hq => ?_, h⟩
          rcases List.mem_cons.1 hq with rfl | hq
          · exact hpo.le
          · exact (hle q hq).trans hpo.le
        next ha => exact hpast (not_lt.1 fun hlt => ha (hafter.2 hlt))

/-- A wrong comparison puts an element on the wrong side. -/
theorem insertBack_not_falling (hopposed : ∀ o p, ¬ Right before after key o p → Opposed before after key o p)
    (hkey : ∀ o p r, key p = key r → Right before after key o p → Right before after key o r) :
    ∀ {l : List α}, Falling key l → (∃ p, Compared key l o p ∧ ¬ Right before after key o p) →
    ¬ Falling key (insertBack before after o l)
  | [], _, ⟨_, hp, _⟩, _ => by simp [Compared] at hp
  | p :: l, h, ⟨r, hr, hwrong⟩, hfall => by
      obtain ⟨hle, hl⟩ := falling_cons_iff.1 h
      have hmem : o ∈ insertBack before after o l := (insertBack_perm o l).mem_iff.2 List.mem_cons_self
      -- the element before which the walk stops, or which it passes, is on the wrong side
      have hpassed : Falling key (p :: insertBack before after o l) → key o ≤ key p := fun hf =>
        (falling_cons_iff.1 hf).1 o hmem
      have hrest : key o ≤ key p → Falling key (insertBack before after o l) → r ∈ l → False := fun hop hf hrl =>
        insertBack_not_falling hopposed hkey hl ⟨r, ⟨hrl, fun q hq => hr.2 q (List.mem_cons_of_mem p hq)⟩, hwrong⟩ hf
      rw [insertBack] at hfall
      split at hfall
      next hb =>
        have hop := hpassed hfall
        rcases List.mem_cons.1 hr.1 with rfl | hrl
        · rcases hopposed o r hwrong with ⟨_, hnot, _⟩ | ⟨hlt, _⟩
          · simp [hnot] at hb
          · exact absurd hop (not_le.2 hlt)
        · exact hrest hop (falling_cons_iff.1 hfall).2 hrl
      next hb =>
        split at hfall
        next ha =>
          have hpo : key p ≤ key o := (falling_cons_iff.1 hfall).1 p List.mem_cons_self
          by_cases hright : Right before after key o p
          · have hlt := hright.2.1 ha
            rcases List.mem_cons.1 hr.1 with rfl | hrl
            · exact hwrong hright
            · -- everything below is at most `p`, so it was not compared unless it has the key of `p`
              rcases hopposed o r hwrong with ⟨hor, _⟩ | ⟨hro, hbr⟩
              · exact absurd (hle r hrl) (not_le.2 (hlt.trans hor))
              · rcases (hle r hrl).lt_or_eq with hrp | heq
                · exact hr.2 p List.mem_cons_self ⟨hrp, hlt⟩
                · exact hwrong (hkey o p r heq.symm hright)
          · rcases hopposed o p hright with ⟨hop, _⟩ | ⟨_, hbt⟩
            · exact absurd hpo (not_le.2 hop)
            · exact hb hbt
        next ha =>
          have hop := hpassed hfall
          rcases List.mem_cons.1 hr.1 with rfl | hrl
          · rcases hopposed o r hwrong with ⟨_, _, hat⟩ | ⟨_, hbt⟩
            · exact ha hat
            · exact hb hbt
          · exact hrest hop (falling_cons_iff.1 hfall).2 hrl

/-- The loop leaves the elements in order exactly when all comparisons it has to make are right. -/
theorem insertAll_ordered_iff (hopposed : ∀ o p, ¬ Right before after key o p → Opposed before after key o p)
    (hkey : ∀ o p r, key p = key r → Right before after key o p → Right before after key o r) :
    ∀ (rest : List α) {done : List α}, Falling key done.reverse →
    ((insertAll before after done rest).Pairwise (fun a b => key a ≤ key b) ↔ RightFrom before after key done rest)
  | [], done, h => by simpa [insertAll, RightFrom, List.pairwise_reverse] using h
  | o :: rest, done, h => by
      have hperm : (insertBack before after o done.reverse).reverse.Perm (done ++ [o]) :=
        (List.reverse_perm _).trans <| (insertBack_perm o _).trans <|
          ((List.reverse_perm done).cons o).trans (List.perm_append_singleton o done).symm
      have hcompared : ∀ p, Compared key done.reverse o p ↔ Compared key done o p := fun p => by
        simp only [Compared, List.mem_reverse]
      rw [insertAll, RightFrom]
      by_cases hright : ∀ p, Compared key done o p → Right before after key o p
      · have hfall := insertBack_falling (o := o) h fun p hp => hright p ((hcompared p).1 hp)
        rw [insertAll_ordered_iff hopposed hkey rest (by rwa [List.reverse_reverse]), RightFrom.perm hperm]
        exact ⟨fun hrest => ⟨hright, hrest⟩, fun hboth => hboth.2⟩
      · refine ⟨fun hordered => absurd ?_ (insertBack_not_falling (o := o) hopposed hkey h ?_), fun hboth => absurd hboth.1 hright⟩
        · have hdone := hordered.sublist (insertAll_sublist rest)
          exact List.pairwise_reverse.1 hdone
        · obtain ⟨p, hp⟩ := not_forall.1 hright
          obtain ⟨hp, hwrong⟩ := Classical.not_imp.1 hp
          exact ⟨p, (hcompared p).2 hp, hwrong⟩

end FlakeWm.Insertion
