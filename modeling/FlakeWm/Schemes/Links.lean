import Mathlib.Data.List.Nodup
import Mathlib.Data.Int.Notation

/-! Doubly linked lists inside an array.

    The nodes are the indices of an array, `next` and `prev` its two link fields, and `-1` is the end
    of the list. `Chain next prev back start l` says that following `next` from `start` visits `l`
    and ends in `-1`, while `prev` of every node is the node before it (`back` for the first one).
    The links of nodes outside the list are arbitrary. -/

namespace FlakeWm

/-- `l` is linked in both directions, from `start`. -/
def Chain (next prev : ℕ → ℤ) : ℤ → ℤ → List ℕ → Prop
  | _, start, [] => start = -1
  | back, start, i :: l => start = i ∧ prev i = back ∧ Chain next prev i (next i) l

/-- Following `next` from `start` until `stop` accepts a node or the list ends; `none` says that
    this takes more than `n` steps. -/
def walk (next : ℕ → ℤ) (stop : ℤ → Bool) : ℕ → ℤ → Option ℤ
  | 0, start => if start < 0 || stop start then some start else none
  | n + 1, start =>
    if start < 0 || stop start then some start else walk next stop n (next start.toNat)

namespace Chain

variable {next prev next' prev' : ℕ → ℤ} {back start : ℤ} {l : List ℕ} {i : ℕ}

theorem congr : ∀ {l : List ℕ} {back start : ℤ}, Chain next prev back start l →
    (∀ j ∈ l, next' j = next j ∧ prev' j = prev j) → Chain next' prev' back start l
  | [], _, _, h, _ => h
  | i :: _, _, _, ⟨hstart, hprev, h⟩, hsame => by
    obtain ⟨hn, hp⟩ := hsame i List.mem_cons_self
    refine ⟨hstart, hp.trans hprev, ?_⟩
    rw [hn]
    exact congr h fun j hj => hsame j (List.mem_cons_of_mem _ hj)

/-- A negative start is an empty list. -/
theorem start_neg : ∀ {l : List ℕ} {back start : ℤ}, Chain next prev back start l →
    (start < 0 ↔ l = [])
  | [], _, _, h => by
    have hstart : _ = (-1 : ℤ) := h
    simp [hstart]
  | i :: l, _, _, ⟨hstart, _, _⟩ => by
    rw [hstart]
    simp

theorem start_mem (h : Chain next prev back start l) (hstart : start = i) : i ∈ l := by
  cases l with
  | nil =>
    have hend : start = -1 := h
    omega
  | cons j l =>
    have hj : start = j := h.1
    have hij : i = j := by omega
    rw [hij]
    exact List.mem_cons_self

theorem start_prev (h : Chain next prev back start l) (hstart : start = i) : prev i = back := by
  cases l with
  | nil =>
    have hend : start = -1 := h
    omega
  | cons j l =>
    obtain ⟨hj, hprev, -⟩ := h
    have hij : i = j := by omega
    rw [hij]
    exact hprev

/-- The successor of a node is a node of the list or the end. -/
theorem next_mem : ∀ {l : List ℕ} {back start : ℤ}, Chain next prev back start l →
    ∀ {i k : ℕ}, i ∈ l → next i = k → k ∈ l
  | j :: l, _, _, ⟨_, _, h⟩, i, k, hi, hk => by
    rcases List.mem_cons.mp hi with rfl | hi
    · exact List.mem_cons_of_mem _ (h.start_mem hk)
    · exact List.mem_cons_of_mem _ (next_mem h hi hk)

/-- The predecessor of a node is `back` for the first one, and a node of the list otherwise. -/
theorem prev_mem : ∀ {l : List ℕ} {back start : ℤ}, Chain next prev back start l →
    ∀ {i : ℕ}, i ∈ l → (prev i = back ∧ start = i) ∨ ∃ k ∈ l, prev i = k
  | j :: l, back, start, ⟨hstart, hprev, h⟩, i, hi => by
    rcases List.mem_cons.mp hi with rfl | hi
    · exact .inl ⟨hprev, hstart⟩
    · rcases prev_mem h hi with ⟨hi, -⟩ | ⟨k, hk, hi⟩
      · exact .inr ⟨j, List.mem_cons_self, hi⟩
      · exact .inr ⟨k, List.mem_cons_of_mem _ hk, hi⟩

theorem next_ne : ∀ {l : List ℕ} {back start : ℤ}, Chain next prev back start l → l.Nodup →
    ∀ {i : ℕ}, i ∈ l → next i ≠ i
  | j :: l, _, _, ⟨_, _, h⟩, hl, i, hi => by
    obtain ⟨hj, hl⟩ := List.nodup_cons.mp hl
    rcases List.mem_cons.mp hi with rfl | hi
    · exact fun heq => hj (h.start_mem heq)
    · exact next_ne h hl hi

theorem prev_ne : ∀ {l : List ℕ} {back start : ℤ}, Chain next prev back start l → l.Nodup →
    (∀ j ∈ l, (j : ℤ) ≠ back) → ∀ {i : ℕ}, i ∈ l → prev i ≠ i
  | j :: l, _, _, ⟨_, hprev, h⟩, hl, hback, i, hi => by
    obtain ⟨hj, hl⟩ := List.nodup_cons.mp hl
    rcases List.mem_cons.mp hi with rfl | hi
    · rw [hprev]
      exact (hback i List.mem_cons_self).symm
    · refine prev_ne h hl (fun k hk heq => hj ?_) hi
      have hkj : k = j := by omega
      exact hkj ▸ hk

/-- Putting a new node in front. -/
theorem push (h : Chain next prev (-1) start l) (hl : l.Nodup) (hnext : next' i = start)
    (hprev : prev' i = -1) (hnexts : ∀ j ∈ l, next' j = next j)
    (hprevs : ∀ j ∈ l, prev' j = if start = j then (i : ℤ) else prev j) :
    Chain next' prev' (-1) i (i :: l) := by
  refine ⟨rfl, hprev, ?_⟩
  rw [hnext]
  cases l with
  | nil => exact h
  | cons j l =>
    obtain ⟨hstart, -, hrest⟩ := h
    refine ⟨hstart, ?_, ?_⟩
    · rw [hprevs j List.mem_cons_self, if_pos hstart]
    · rw [hnexts j List.mem_cons_self]
      refine hrest.congr fun k hk => ⟨hnexts k (List.mem_cons_of_mem _ hk), ?_⟩
      have hkj : start ≠ k := by
        intro heq
        have hjk : j = k := by omega
        exact (List.nodup_cons.mp hl).1 (hjk ▸ hk)
      rw [hprevs k (List.mem_cons_of_mem _ hk), if_neg hkj]

/-- Taking a node out: its neighbours are linked to each other. -/
theorem unlink : ∀ {l : List ℕ} {back start : ℤ}, Chain next prev back start l → l.Nodup → i ∈ l →
    (∀ j ∈ l, (j : ℤ) ≠ back) →
    (∀ j ∈ l, j ≠ i → next' j = if (j : ℤ) = prev i then next i else next j) →
    (∀ j ∈ l, j ≠ i → prev' j = if (j : ℤ) = next i then prev i else prev j) →
    Chain next' prev' back (if start = i then next i else start) (l.erase i)
  | k :: l, back, start, ⟨hstart, hprev, h⟩, hl, hi, hback, hnexts, hprevs => by
    obtain ⟨hk, hl⟩ := List.nodup_cons.mp hl
    by_cases hki : k = i
    · -- the first node: the second one becomes the first
      subst hki
      rw [if_pos hstart, List.erase_cons_head]
      cases l with
      | nil => exact h
      | cons j l =>
        obtain ⟨hj, -, hrest⟩ := h
        have hne : ∀ x ∈ j :: l, x ≠ k := fun x hx heq => hk (heq ▸ hx)
        have hsame : ∀ x ∈ j :: l, next' x = next x := by
          intro x hx
          rw [hnexts x (List.mem_cons_of_mem _ hx) (hne x hx), if_neg]
          rw [hprev]
          exact hback x (List.mem_cons_of_mem _ hx)
        refine ⟨hj, ?_, ?_⟩
        · rw [hprevs j (List.mem_cons_of_mem _ List.mem_cons_self) (hne j List.mem_cons_self),
            if_pos hj.symm, hprev]
        · rw [hsame j List.mem_cons_self]
          refine hrest.congr fun x hx => ⟨hsame x (List.mem_cons_of_mem _ hx), ?_⟩
          have hxj : (x : ℤ) ≠ next k := by
            rw [hj]
            intro heq
            have hxj : x = j := by omega
            exact (List.nodup_cons.mp hl).1 (hxj ▸ hx)
          rw [hprevs x (List.mem_cons_of_mem _ (List.mem_cons_of_mem _ hx))
            (hne x (List.mem_cons_of_mem _ hx)), if_neg hxj]
    · have hi : i ∈ l := (List.mem_cons.mp hi).resolve_left fun heq => hki heq.symm
      have hfirst : start ≠ i := by omega
      rw [if_neg hfirst, List.erase_cons_tail (by simpa using hki)]
      have hself : (k : ℤ) = prev i ↔ next k = i := by
        rcases h.prev_mem hi with ⟨hp, hs⟩ | ⟨x, hx, hp⟩
        · exact iff_of_true hp.symm hs
        · refine iff_of_false (fun heq => ?_) fun heq => ?_
          · have hkx : k = x := by omega
            exact hk (hkx ▸ hx)
          · have hkx : k = x := by
              have hback' := h.start_prev heq
              omega
            exact hk (hkx ▸ hx)
      have hkn : (k : ℤ) ≠ next i := fun heq => hk (h.next_mem hi heq.symm)
      refine ⟨hstart, ?_, ?_⟩
      · rw [hprevs k List.mem_cons_self hki, if_neg hkn]
        exact hprev
      · have hrest := unlink h hl hi (fun j hj heq => hk (by
          have hjk : j = k := by omega
          exact hjk ▸ hj)) (fun j hj => hnexts j (List.mem_cons_of_mem _ hj))
          fun j hj => hprevs j (List.mem_cons_of_mem _ hj)
        rw [hnexts k List.mem_cons_self hki]
        simp only [hself]
        exact hrest

/-- A walk along a list ends, whatever it looks for. -/
theorem walk_isSome (stop : ℤ → Bool) : ∀ {l : List ℕ} {back start : ℤ},
    Chain next prev back start l → (walk next stop l.length start).isSome
  | [], _, start, h => by
    have hend : start = -1 := h
    simp [walk, hend]
  | i :: l, _, start, ⟨hstart, _, h⟩ => by
    rw [List.length_cons, walk, hstart]
    split_ifs
    · rfl
    · exact walk_isSome stop h

end Chain

end FlakeWm
