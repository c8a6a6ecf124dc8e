import FlakeWm.Placing.Model

/-! One place: its free list and its counts, while slots are occupied and released.

    `Ok p c` is the invariant of a place whose slot `i` should count `c i` entries. It survives
    `placeRelease` and `placeOccupy` as long as the slots they look up are in the grid. -/

namespace FlakeWm.Placing

variable {p p' : Place} {c : ℕ → ℤ} {maxSlot : ℤ} {i : ℕ}

/-- The free list of `p` holds the slots below `last` that count no entry. -/
def FreeBelow (p : Place) (last : ℕ) : Prop :=
  ∃ l, Chain p.next p.prev (-1) p.freeList l ∧ l.Nodup ∧
    ∀ i, i ∈ l ↔ i < last ∧ (p.slots i).entries = 0

/-- The invariant of a place. -/
structure Ok (p : Place) (c : ℕ → ℤ) : Prop where
  alloc : p.lastSlot ≤ p.allocNumber
  entries : ∀ i, (p.slots i).entries = c i
  unused : ∀ i, p.lastSlot ≤ i → c i = 0
  free : FreeBelow p p.lastSlot

/-! ### Room for slots -/

theorem lt_doubled (slot : ℕ) : ∀ fuel n : ℕ, 1 ≤ n → slot < n + fuel → slot < doubled slot fuel n
  | 0, n, _, h => by
    rw [doubled]
    omega
  | fuel + 1, n, hn, h => by
    rw [doubled]
    split_ifs
    · exact lt_doubled slot fuel (n * 2) (by omega) (by omega)
    · omega

/-- What growing a place may change. -/
structure Grown (p p' : Place) : Prop where
  alloc : p.allocNumber ≤ p'.allocNumber
  slots : ∀ i, p'.slots i = if p.allocNumber ≤ i ∧ i < p'.allocNumber then ⟨0, 0, 0⟩ else p.slots i
  entries : p'.entries = p.entries
  lastSlot : p'.lastSlot = p.lastSlot
  freeList : p'.freeList = p.freeList

theorem lt_grownNumber {n slot : ℕ} (h : (slot : ℤ) ≤ maxSlot) : slot < grownNumber maxSlot n slot := by
  have hpos : 1 ≤ if n ≠ 0 then n else 16 := by
    split_ifs <;> omega
  have hdouble := lt_doubled slot (slot + 1) _ hpos (by omega)
  rw [grownNumber]
  omega

theorem placeGrow_grown {slot : ℕ} (h : (slot : ℤ) ≤ maxSlot) :
    Grown p (placeGrow maxSlot p slot) ∧ slot < (placeGrow maxSlot p slot).allocNumber := by
  unfold placeGrow
  have hlt := lt_grownNumber (n := p.allocNumber) h
  split_ifs with hroom
  · refine ⟨⟨le_rfl, fun i => ?_, rfl, rfl, rfl⟩, hroom⟩
    rw [if_neg (by omega)]
  · exact ⟨⟨by simp only; omega, fun i => rfl, rfl, rfl, rfl⟩, hlt⟩

theorem Grown.slots_of_lt (h : Grown p p') (hi : i < p.allocNumber) : p'.slots i = p.slots i := by
  rw [h.slots, if_neg (by omega)]

/-- New slots count nothing. -/
theorem Ok.grown (h : Ok p c) (hg : Grown p p') : Ok p' c := by
  have hentries : ∀ i, (p'.slots i).entries = c i := by
    intro i
    rw [hg.slots]
    split_ifs with hi
    · exact (h.unused i (h.alloc.trans hi.1)).symm
    · exact h.entries i
  obtain ⟨l, hchain, hnodup, hmem⟩ := h.free
  refine ⟨?_, hentries, ?_, l, ?_, hnodup, fun i => ?_⟩
  · rw [hg.lastSlot]
    exact h.alloc.trans hg.alloc
  · rw [hg.lastSlot]
    exact h.unused
  · rw [hg.freeList]
    refine hchain.congr fun j hj => ?_
    have hlt : j < p.allocNumber := ((hmem j).mp hj).1.trans_le h.alloc
    rw [Place.next, Place.prev, hg.slots_of_lt hlt]
    exact ⟨rfl, rfl⟩
  · rw [hg.lastSlot, hmem, h.entries, hentries]

theorem placeFindSlot_neg {slot : ℤ} (h : slot < 0) : placeFindSlot maxSlot p slot = (p, none) := by
  rw [placeFindSlot, if_pos (.inl h)]

theorem placeFindSlot_of_le {slot : ℕ} (h : (slot : ℤ) ≤ maxSlot) :
    placeFindSlot maxSlot p slot = (placeGrow maxSlot p slot, some slot) := by
  rw [placeFindSlot, if_neg (by omega), Int.toNat_natCast]

/-- A slot that has room is found where it is. -/
theorem placeFindSlot_of_alloc {slot : ℕ} (h : (slot : ℤ) ≤ maxSlot) (ha : slot < p.allocNumber) :
    placeFindSlot maxSlot p slot = (p, some slot) := by
  rw [placeFindSlot_of_le h, placeGrow, if_pos ha]

theorem placeFindSlot_grown {slot : ℤ} (h : placeFindSlot maxSlot p slot = (p', some i)) :
    Grown p p' := by
  rw [placeFindSlot] at h
  split_ifs at h with hbad
  · cases h
  · rw [Prod.mk.injEq] at h
    rw [← h.1]
    exact (placeGrow_grown (by omega)).1

/-! ### The head of the free list -/

theorem setSlot_slots (p : Place) (i j : ℕ) (x : Slot) :
    (p.setSlot i x).slots j = if j = i then x else p.slots j := by
  rw [Place.setSlot]
  exact Function.update_apply ..

/-- Everything `place_insert_free_slot` writes: the slot, and the link back from the old head. -/
theorem placeInsertFreeSlot_eq (h : (i : ℤ) ≤ maxSlot) (ha : i < p.allocNumber)
    (hhead : p.freeList ≠ i) :
    placeInsertFreeSlot maxSlot p i = { p with
      freeList := i
      slots := fun j => if p.freeList = j then { p.slots j with prev := i }
        else if j = i then ⟨-1, p.freeList, 0⟩ else p.slots j } := by
  have hfind : (placeFindSlot maxSlot p i).1 = p := by rw [placeFindSlot_of_alloc h ha]
  simp only [placeInsertFreeSlot, hfind]
  have hsame : (p.setSlot i ⟨-1, p.freeList, 0⟩).freeList = p.freeList := rfl
  split_ifs with hnext
  · simp only [Place.setPrev, Place.setSlot, Place.mk.injEq, true_and, and_true]
    funext j
    have hne : p.freeList.toNat ≠ i := by omega
    rcases eq_or_ne j p.freeList.toNat with rfl | hj
    · have hcast : p.freeList = (p.freeList.toNat : ℤ) := by omega
      rw [if_pos hcast, Function.update_self, Function.update_of_ne hne]
    · rw [if_neg (by omega), Function.update_of_ne hj, Function.update_apply]
  · simp only [Place.setSlot, Place.mk.injEq, true_and, and_true]
    funext j
    rw [if_neg (by omega), Function.update_apply]

/-- A slot without entries joins the free list. -/
theorem FreeBelow.push {last last' : ℕ} (h : FreeBelow p last) (hi : (i : ℤ) ≤ maxSlot)
    (ha : i < p.allocNumber) (hnot : last ≤ i ∨ (p.slots i).entries ≠ 0)
    (hlast : ∀ j, j < last' ↔ j < last ∨ j = i) :
    FreeBelow (placeInsertFreeSlot maxSlot p i) last' := by
  obtain ⟨l, hchain, hnodup, hmem⟩ := h
  have hil : i ∉ l := fun hil => by
    obtain ⟨hlt, hzero⟩ := (hmem i).mp hil
    omega
  have hhead : p.freeList ≠ i := fun heq => hil (hchain.start_mem heq)
  rw [placeInsertFreeSlot_eq hi ha hhead]
  refine ⟨i :: l, ?_, List.nodup_cons.mpr ⟨hil, hnodup⟩, fun j => ?_⟩
  · have hji : ∀ j ∈ l, j ≠ i := fun j hj heq => hil (heq ▸ hj)
    refine hchain.push hnodup ?_ ?_ (fun j hj => ?_) fun j hj => ?_
    · simp [Place.next, hhead]
    · simp [Place.prev, hhead]
    · simp only [Place.next, hji j hj, if_false]
      split_ifs <;> rfl
    · simp only [Place.prev, hji j hj, if_false]
      split_ifs <;> rfl
  · rw [List.mem_cons, hmem, hlast]
    rcases eq_or_ne j i with rfl | hj
    · simp [hhead]
    · simp only [hj, or_false, false_or, if_false]
      split_ifs <;> rfl

/-! ### Counting -/

theorem addEntries_slots (p : Place) (i j : ℕ) (n : ℤ) :
    (p.addEntries i n).slots j =
      if j = i then { p.slots i with entries := (p.slots i).entries + n } else p.slots j :=
  setSlot_slots ..

/-- Only counts that become zero, or were zero, matter to the free list. -/
theorem FreeBelow.addEntries {last : ℕ} {n : ℤ} (h : FreeBelow p last)
    (hzero : last ≤ i ∨ ((p.slots i).entries ≠ 0 ∧ (p.slots i).entries + n ≠ 0)) :
    FreeBelow (p.addEntries i n) last := by
  obtain ⟨l, hchain, hnodup, hmem⟩ := h
  refine ⟨l, hchain.congr fun j _ => ?_, hnodup, fun j => ?_⟩
  · simp only [Place.next, Place.prev, addEntries_slots]
    split_ifs with hj
    · rw [hj]
      exact ⟨rfl, rfl⟩
    · exact ⟨rfl, rfl⟩
  · rw [hmem, addEntries_slots]
    split_ifs with hj
    · subst hj
      simp only
      omega
    · rfl

theorem addEntries_entries (h : ∀ j, (p.slots j).entries = c j) (n : ℤ) (j : ℕ) :
    ((p.addEntries i n).slots j).entries = c j + if j = i then n else 0 := by
  rw [addEntries_slots]
  split_ifs with hj
  · rw [hj, ← h i]
  · rw [h j, Int.add_zero]

/-! ### Releasing a slot -/

/-- The count that `place_insert_free_slot` clears does not matter to it. -/
theorem placeInsertFreeSlot_addEntries (h : (i : ℤ) ≤ maxSlot) (ha : i < p.allocNumber)
    (hhead : p.freeList ≠ i) (n : ℤ) :
    placeInsertFreeSlot maxSlot (p.addEntries i n) i = placeInsertFreeSlot maxSlot p i := by
  have hfree : (p.addEntries i n).freeList = p.freeList := rfl
  have hslots : ∀ j, j ≠ i → (p.addEntries i n).slots j = p.slots j := fun j hj => by
    rw [addEntries_slots, if_neg hj]
  rw [placeInsertFreeSlot_eq (p := p.addEntries i n) h ha hhead, placeInsertFreeSlot_eq h ha hhead,
    Place.mk.injEq]
  refine ⟨rfl, ?_, rfl, rfl, rfl⟩
  funext j
  rcases eq_or_ne j i with rfl | hj
  · simp [hfree, hhead]
  · simp [hfree, hj, hslots j hj]

theorem placeInsertFreeSlot_entries (h : (i : ℤ) ≤ maxSlot) (ha : i < p.allocNumber)
    (hhead : p.freeList ≠ i) (j : ℕ) :
    ((placeInsertFreeSlot maxSlot p i).slots j).entries =
      if j = i then 0 else (p.slots j).entries := by
  rw [placeInsertFreeSlot_eq h ha hhead]
  simp only
  split_ifs with hj hji hji
  · subst hji
    exact absurd hj hhead
  · rfl
  · rfl
  · rfl

/-- The last entry of a slot leaves it in the free list. -/
theorem placeRelease_ok {slot : ℤ} (h : Ok p c) (hslot : slot ≤ maxSlot)
    (hcount : ∀ i : ℕ, slot = i → 1 ≤ c i) :
    Ok (placeRelease maxSlot p slot) (fun j => c j - if slot = j then 1 else 0) ∧
      (placeRelease maxSlot p slot).entries = p.entries := by
  by_cases hneg : slot < 0
  · rw [placeRelease, placeFindSlot_neg hneg]
    refine ⟨?_, rfl⟩
    have hsame : (fun j : ℕ => c j - if slot = j then 1 else 0) = c := by
      funext j
      rw [if_neg (by omega), Int.sub_zero]
    rw [hsame]
    exact h
  · obtain ⟨i, rfl⟩ : ∃ i : ℕ, slot = i := ⟨slot.toNat, by omega⟩
    obtain ⟨hgrown, hroom⟩ := placeGrow_grown (p := p) hslot
    have hg := h.grown hgrown
    rw [placeRelease, placeFindSlot_of_le hslot]
    simp only
    set q := placeGrow maxSlot p i
    have hone := hcount i rfl
    have hlast : i < q.lastSlot := by
      by_contra hge
      have hzero := hg.unused i (by omega)
      omega
    obtain ⟨l, hchain, -, hmem⟩ := hg.free
    have hhead : q.freeList ≠ i := by
      intro heq
      have hil := (hmem i).mp (hchain.start_mem heq)
      rw [hg.entries] at hil
      omega
    have hcount' := addEntries_entries (i := i) hg.entries (-1)
    have hunused : ∀ j, q.lastSlot ≤ j → (c j - if (i : ℤ) = j then 1 else 0) = 0 := by
      intro j hj
      rw [hg.unused j hj, if_neg (by omega), Int.sub_zero]
    have hthis : ((q.addEntries i (-1)).slots i).entries = c i - 1 := by
      rw [hcount', if_pos rfl]
      omega
    rw [hthis]
    split_ifs with hzero
    · rw [placeInsertFreeSlot_addEntries hslot hroom hhead]
      have heq := placeInsertFreeSlot_eq (p := q) hslot hroom hhead
      have hlast' : (placeInsertFreeSlot maxSlot q i).lastSlot = q.lastSlot := by rw [heq]
      have halloc' : (placeInsertFreeSlot maxSlot q i).allocNumber = q.allocNumber := by rw [heq]
      refine ⟨⟨?_, fun j => ?_, ?_, ?_⟩, ?_⟩
      · rw [hlast', halloc']
        exact hg.alloc
      · rw [placeInsertFreeSlot_entries hslot hroom hhead]
        split_ifs with hj hij hij
        · rw [hj]
          omega
        · omega
        · omega
        · rw [hg.entries, Int.sub_zero]
      · rw [hlast']
        exact hunused
      · rw [hlast']
        refine hg.free.push hslot hroom (.inr ?_) fun j => ?_
        · rw [hg.entries]
          omega
        · omega
      · rw [heq]
        exact hgrown.entries
    · refine ⟨⟨hg.alloc, fun j => ?_, hunused, hg.free.addEntries (.inr ?_)⟩, hgrown.entries⟩
      · rw [hcount']
        split_ifs <;> omega
      · rw [hg.entries]
        omega

/-! ### Occupying a slot -/

/-- A neighbour in the free list that `place_find_slot` finds, or the end of the list. -/
def Found (maxSlot : ℤ) (p : Place) (slot : ℤ) : Prop :=
  slot < 0 ∨ (slot ≤ maxSlot ∧ slot.toNat < p.allocNumber)

theorem placeFindSlot_found {slot : ℤ} (h : Found maxSlot p slot) :
    placeFindSlot maxSlot p slot = (p, if slot < 0 then none else some slot.toNat) := by
  rcases h with hneg | ⟨hle, ha⟩
  · rw [placeFindSlot_neg hneg, if_pos hneg]
  · by_cases hneg : slot < 0
    · rw [placeFindSlot_neg hneg, if_pos hneg]
    · have hcast : slot = (slot.toNat : ℤ) := by omega
      rw [if_neg hneg, hcast]
      exact placeFindSlot_of_alloc (by omega) (by simpa using ha)

theorem placeWriteNext_eq {slot next : ℤ} (h : Found maxSlot p slot) :
    placeWriteNext maxSlot p slot next = { p with
      slots := fun j => { p.slots j with next := if (j : ℤ) = slot then next else p.next j } } := by
  rw [placeWriteNext, placeFindSlot_found h]
  split_ifs with hneg
  · cases p
    simp only [Place.mk.injEq, true_and, and_true]
    funext j
    rw [if_neg (by omega)]
    rfl
  · simp only [Place.setNext, Place.setSlot, Place.mk.injEq, true_and, and_true]
    funext j
    rcases eq_or_ne j slot.toNat with rfl | hj
    · rw [Function.update_self, if_pos (by omega)]
    · rw [Function.update_of_ne hj, if_neg (by omega)]
      rfl

theorem placeWritePrev_eq {slot prev : ℤ} (h : Found maxSlot p slot) :
    placeWritePrev maxSlot p slot prev = { p with
      slots := fun j => { p.slots j with prev := if (j : ℤ) = slot then prev else p.prev j } } := by
  rw [placeWritePrev, placeFindSlot_found h]
  split_ifs with hneg
  · cases p
    simp only [Place.mk.injEq, true_and, and_true]
    funext j
    rw [if_neg (by omega)]
    rfl
  · simp only [Place.setPrev, Place.setSlot, Place.mk.injEq, true_and, and_true]
    funext j
    rcases eq_or_ne j slot.toNat with rfl | hj
    · rw [Function.update_self, if_pos (by omega)]
    · rw [Function.update_of_ne hj, if_neg (by omega)]
      rfl

/-- Everything that is not a link. -/
structure SameCounts (p p' : Place) : Prop where
  entries : ∀ j, (p'.slots j).entries = (p.slots j).entries
  lastSlot : p'.lastSlot = p.lastSlot
  alloc : p'.allocNumber = p.allocNumber
  list : p'.entries = p.entries

/-- Everything the removal from the free list writes, when both neighbours are found. -/
theorem placeTakeFreeSlot_links (hprev : Found maxSlot p (p.prev i))
    (hnext : Found maxSlot p (p.next i)) (hpi : p.prev i ≠ i) :
    (∀ j, (placeTakeFreeSlot maxSlot p i).next j =
      if (j : ℤ) = p.prev i then p.next i else p.next j) ∧
    (∀ j, (placeTakeFreeSlot maxSlot p i).prev j =
      if (j : ℤ) = p.next i then p.prev i else p.prev j) ∧
    (placeTakeFreeSlot maxSlot p i).freeList = (if p.freeList = i then p.next i else p.freeList) ∧
    SameCounts p (placeTakeFreeSlot maxSlot p i) := by
  simp only [placeTakeFreeSlot]
  generalize hq : (if (i : ℤ) = p.freeList then { p with freeList := p.next i } else p) = q
  obtain ⟨hfree, hslots, hlast, halloc, hlist⟩ : q.freeList = (if p.freeList = i then p.next i
      else p.freeList) ∧ q.slots = p.slots ∧ q.lastSlot = p.lastSlot ∧
      q.allocNumber = p.allocNumber ∧ q.entries = p.entries := by
    rw [← hq]
    by_cases h : (i : ℤ) = p.freeList
    · rw [if_pos h, if_pos h.symm]
      exact ⟨rfl, rfl, rfl, rfl, rfl⟩
    · rw [if_neg h, if_neg (Ne.symm h)]
      exact ⟨rfl, rfl, rfl, rfl, rfl⟩
  have hqn : q.next = p.next := by
    funext j
    rw [Place.next, hslots, Place.next]
  have hqp : q.prev = p.prev := by
    funext j
    rw [Place.prev, hslots, Place.prev]
  rw [hqn, hqp]
  have hwrite : placeWriteNext maxSlot q (p.prev i) (p.next i) = _ :=
    placeWriteNext_eq (by rw [Found, halloc]; exact hprev)
  generalize placeWriteNext maxSlot q (p.prev i) (p.next i) = r at hwrite ⊢
  have hrn : ∀ j, r.next j = if (j : ℤ) = p.prev i then p.next i else p.next j := by
    intro j
    rw [hwrite, ← hqn]
    rfl
  have hrp : r.prev = p.prev := by
    rw [hwrite, ← hqp]
    rfl
  rw [hrn i, if_neg (Ne.symm hpi), hrp]
  have hra : r.allocNumber = p.allocNumber := by rw [hwrite, ← halloc]
  have hwrite' : placeWritePrev maxSlot r (p.next i) (p.prev i) = _ :=
    placeWritePrev_eq (by rw [Found, hra]; exact hnext)
  generalize placeWritePrev maxSlot r (p.next i) (p.prev i) = t at hwrite' ⊢
  refine ⟨fun j => ?_, fun j => ?_, ?_, fun j => ?_, ?_, ?_, ?_⟩
  · rw [← hrn, hwrite']
    rfl
  · rw [hwrite', ← hrp]
    rfl
  · rw [hwrite', hwrite, ← hfree]
  · rw [hwrite', hwrite, ← hslots]
  · rw [hwrite', hwrite, ← hlast]
  · rw [hwrite', hwrite, ← halloc]
  · rw [hwrite', hwrite, ← hlist]

/-- What occupying a slot looks up is in the grid: the slot, and its neighbours if it is free. -/
def InGrid (maxSlot : ℤ) (p : Place) (slot : ℤ) : Prop :=
  slot ≤ maxSlot ∧ (0 ≤ slot → slot.toNat < p.lastSlot → (p.slots slot.toNat).entries = 0 →
    p.prev slot.toNat ≤ maxSlot ∧ p.next slot.toNat ≤ maxSlot)

instance (maxSlot : ℤ) (p : Place) (slot : ℤ) : Decidable (InGrid maxSlot p slot) :=
  inferInstanceAs (Decidable (_ ∧ _))

theorem InGrid.neighbours (h : InGrid maxSlot p i) (hlast : i < p.lastSlot)
    (hzero : (p.slots i).entries = 0) : p.prev i ≤ maxSlot ∧ p.next i ≤ maxSlot := by
  have hi := h.2 (Int.natCast_nonneg i)
  rw [Int.toNat_natCast] at hi
  exact hi hlast hzero

theorem inGrid_of_neighbours (h : (i : ℤ) ≤ maxSlot) (hi : i < p.lastSlot → (p.slots i).entries = 0 →
    p.prev i ≤ maxSlot ∧ p.next i ≤ maxSlot) : InGrid maxSlot p i := by
  refine ⟨h, fun _ => ?_⟩
  rw [Int.toNat_natCast]
  exact hi

theorem FreeBelow.congr_last {last last' : ℕ} (h : FreeBelow p last)
    (hlast : ∀ j, (p.slots j).entries = 0 → (j < last ↔ j < last')) : FreeBelow p last' := by
  obtain ⟨l, hchain, hnodup, hmem⟩ := h
  refine ⟨l, hchain, hnodup, fun j => ?_⟩
  rw [hmem]
  exact and_congr_left (hlast j)

/-- The slots that are skipped by a new one become free. -/
theorem skipSlots_free (h : Ok p c) (hi : (i : ℤ) ≤ maxSlot) (hroom : i < p.allocNumber)
    (hlast : p.lastSlot ≤ i) :
    FreeBelow (upLoop p.lastSlot i (placeInsertFreeSlot maxSlot) p) i ∧
      (∀ j, ((upLoop p.lastSlot i (placeInsertFreeSlot maxSlot) p).slots j).entries = c j) ∧
      (upLoop p.lastSlot i (placeInsertFreeSlot maxSlot) p).allocNumber = p.allocNumber ∧
      (upLoop p.lastSlot i (placeInsertFreeSlot maxSlot) p).entries = p.entries := by
  refine upLoop_inv (P := fun k q => FreeBelow q k ∧ (∀ j, (q.slots j).entries = c j) ∧
    q.allocNumber = p.allocNumber ∧ q.entries = p.entries) hlast ?_ ⟨h.free, h.entries, rfl, rfl⟩
  rintro k q hk hki ⟨hfree, hentries, halloc, hlist⟩
  have hkM : (k : ℤ) ≤ maxSlot := by omega
  have hka : k < q.allocNumber := by omega
  have hhead : q.freeList ≠ k := by
    obtain ⟨l, hchain, -, hmem⟩ := hfree
    intro heq
    have hlt := ((hmem k).mp (hchain.start_mem heq)).1
    omega
  refine ⟨hfree.push hkM hka (.inl le_rfl) fun j => by omega, fun j => ?_, ?_, ?_⟩
  · rw [placeInsertFreeSlot_entries hkM hka hhead]
    split_ifs with hj
    · rw [hj, h.unused k hk]
    · exact hentries j
  · rw [placeInsertFreeSlot_eq hkM hka hhead]
    exact halloc
  · rw [placeInsertFreeSlot_eq hkM hka hhead]
    exact hlist

/-- A free slot leaves the free list, so that it can count an entry. -/
theorem takeFreeSlot_free (h : Ok p c) (hi : InGrid maxSlot p i) (hlast : i < p.lastSlot)
    (hzero : (p.slots i).entries = 0) :
    FreeBelow ((placeTakeFreeSlot maxSlot p i).addEntries i 1) p.lastSlot ∧
      SameCounts p (placeTakeFreeSlot maxSlot p i) := by
  obtain ⟨l, hchain, hnodup, hmem⟩ := h.free
  have hil : i ∈ l := (hmem i).mpr ⟨hlast, hzero⟩
  have hback : ∀ j ∈ l, (j : ℤ) ≠ -1 := fun j _ => by omega
  have hlt : ∀ j ∈ l, j < p.allocNumber := fun j hj => ((hmem j).mp hj).1.trans_le h.alloc
  obtain ⟨hprevM, hnextM⟩ := hi.neighbours hlast hzero
  have hprev : Found maxSlot p (p.prev i) := by
    rcases hchain.prev_mem hil with ⟨heq, -⟩ | ⟨k, hk, heq⟩
    · exact .inl (by omega)
    · exact .inr ⟨hprevM, by rw [heq, Int.toNat_natCast]; exact hlt k hk⟩
  have hnext : Found maxSlot p (p.next i) := by
    by_cases hneg : p.next i < 0
    · exact .inl hneg
    · have hk := hchain.next_mem hil (k := (p.next i).toNat) (by omega)
      exact .inr ⟨hnextM, hlt _ hk⟩
  obtain ⟨hn, hp, hfree, hcounts⟩ := placeTakeFreeSlot_links hprev hnext
    (hchain.prev_ne hnodup hback hil)
  refine ⟨⟨l.erase i, ?_, hnodup.erase i, fun j => ?_⟩, hcounts⟩
  · have hunlinked : Chain (placeTakeFreeSlot maxSlot p i).next
        (placeTakeFreeSlot maxSlot p i).prev _ _ (l.erase i) :=
      hchain.unlink hnodup hil hback (fun j _ _ => hn j) fun j _ _ => hp j
    rw [← hfree] at hunlinked
    refine hunlinked.congr fun j _ => ?_
    simp only [Place.next, Place.prev, addEntries_slots]
    split_ifs with hj
    · rw [hj]
      exact ⟨rfl, rfl⟩
    · exact ⟨rfl, rfl⟩
  · rw [hnodup.mem_erase_iff, hmem, addEntries_slots]
    split_ifs with hj
    · subst hj
      simp [hcounts.entries, hzero]
    · simp [hj, hcounts.entries]

/-- One more entry at a slot that the place has room for. -/
theorem placeUpdateSlot_ok (h : Ok p c) (hi : InGrid maxSlot p i) (hroom : i < p.allocNumber)
    (hcount : 0 ≤ c i) :
    Ok (placeUpdateSlot maxSlot p i) (fun j => c j + if j = i then 1 else 0) ∧
      (placeUpdateSlot maxSlot p i).entries = p.entries := by
  have hfind : (placeFindSlot maxSlot p i).1 = p := by rw [placeFindSlot_of_alloc hi.1 hroom]
  simp only [placeUpdateSlot, hfind]
  split_ifs with hlast hzero
  · obtain ⟨hfree, hentries, halloc, hlist⟩ := skipSlots_free h hi.1 hroom hlast
    generalize upLoop p.lastSlot i (placeInsertFreeSlot maxSlot) p = q at *
    have hcounted := addEntries_entries (p := { q with lastSlot := i + 1 }) (i := i) hentries 1
    refine ⟨⟨?_, hcounted, fun j hj => ?_, ?_⟩, hlist⟩
    · change i + 1 ≤ q.allocNumber
      omega
    · have hj' : i + 1 ≤ j := hj
      rw [h.unused j (by omega), if_neg (by omega)]
      rfl
    · have hbelow : FreeBelow { q with lastSlot := i + 1 } i := hfree
      refine (hbelow.addEntries (n := 1) (.inl le_rfl)).congr_last fun j hj => ?_
      rw [hcounted] at hj
      change j < i ↔ j < i + 1
      have hji : j ≠ i := by
        rintro rfl
        rw [if_pos rfl] at hj
        omega
      omega
  · obtain ⟨hfree, hcounts⟩ := takeFreeSlot_free h hi (by omega) hzero
    refine ⟨⟨?_, ?_, fun j hj => ?_, ?_⟩, hcounts.list⟩
    · change (placeTakeFreeSlot maxSlot p i).lastSlot ≤ (placeTakeFreeSlot maxSlot p i).allocNumber
      rw [hcounts.lastSlot, hcounts.alloc]
      exact h.alloc
    · exact addEntries_entries (fun j => (hcounts.entries j).trans (h.entries j)) 1
    · have hj' : (placeTakeFreeSlot maxSlot p i).lastSlot ≤ j := hj
      rw [hcounts.lastSlot] at hj'
      rw [h.unused j hj', if_neg (by omega)]
      rfl
    · change FreeBelow _ (placeTakeFreeSlot maxSlot p i).lastSlot
      rw [hcounts.lastSlot]
      exact hfree
  · rw [h.entries] at hzero
    refine ⟨⟨h.alloc, addEntries_entries h.entries 1, fun j hj => ?_, h.free.addEntries (.inr ?_)⟩, rfl⟩
    · have hj' : p.lastSlot ≤ j := hj
      rw [h.unused j hj', if_neg (by omega)]
      rfl
    · rw [h.entries]
      omega

theorem placeOccupy_ok {slot : ℤ} (h : Ok p c) (hslot : InGrid maxSlot p slot)
    (hcount : ∀ i : ℕ, slot = i → 0 ≤ c i) :
    Ok (placeOccupy maxSlot p slot) (fun j => c j + if slot = j then 1 else 0) ∧
      (placeOccupy maxSlot p slot).entries = p.entries := by
  by_cases hneg : slot < 0
  · rw [placeOccupy, placeFindSlot_neg hneg]
    refine ⟨?_, rfl⟩
    have hsame : (fun j : ℕ => c j + if slot = j then 1 else 0) = c := by
      funext j
      rw [if_neg (by omega), Int.add_zero]
    rw [hsame]
    exact h
  · obtain ⟨i, rfl⟩ : ∃ i : ℕ, slot = i := ⟨slot.toNat, by omega⟩
    obtain ⟨hgrown, hroom⟩ := placeGrow_grown (p := p) hslot.1
    rw [placeOccupy, placeFindSlot_of_le hslot.1]
    simp only
    have hgrid : InGrid maxSlot (placeGrow maxSlot p i) i := by
      refine inGrid_of_neighbours hslot.1 fun hlast hzero => ?_
      rw [hgrown.lastSlot] at hlast
      rw [hgrown.slots_of_lt (hlast.trans_le h.alloc)] at hzero
      rw [Place.prev, Place.next, hgrown.slots_of_lt (hlast.trans_le h.alloc)]
      exact hslot.neighbours hlast hzero
    obtain ⟨hok, hlist⟩ := placeUpdateSlot_ok (h.grown hgrown) hgrid hroom (hcount i rfl)
    refine ⟨?_, hlist.trans hgrown.entries⟩
    have hsame : (fun j : ℕ => c j + if (i : ℤ) = j then 1 else 0) =
        fun j => c j + if j = i then 1 else 0 := by
      funext j
      by_cases hj : j = i
      · rw [if_pos hj, if_pos (by omega)]
      · rw [if_neg hj, if_neg (by omega)]
    rw [hsame]
    exact hok

/-- Releasing a slot of the grid brings no other slot out of it. -/
theorem placeRelease_inGrid {old slot : ℤ} (h : Ok p c) (hold : old ≤ maxSlot) (hne : old ≠ slot)
    (hcount : ∀ i : ℕ, old = i → 1 ≤ c i) (hslot : InGrid maxSlot p slot) :
    InGrid maxSlot (placeRelease maxSlot p old) slot := by
  by_cases hneg : slot < 0
  · exact ⟨hslot.1, fun hpos => absurd hneg (by omega)⟩
  obtain ⟨i, rfl⟩ : ∃ i : ℕ, slot = i := ⟨slot.toNat, by omega⟩
  by_cases hneg' : old < 0
  · rw [placeRelease, placeFindSlot_neg hneg']
    exact hslot
  obtain ⟨k, rfl⟩ : ∃ k : ℕ, old = k := ⟨old.toNat, by omega⟩
  obtain ⟨hgrown, hroom⟩ := placeGrow_grown (p := p) hold
  have hg := h.grown hgrown
  rw [placeRelease, placeFindSlot_of_le hold]
  simp only
  generalize placeGrow maxSlot p k = q at *
  have hik : i ≠ k := by omega
  have hslots : (q.addEntries k (-1)).slots i = q.slots i := by rw [addEntries_slots, if_neg hik]
  have hold' : i < q.lastSlot → q.slots i = p.slots i := by
    intro hlast
    rw [hgrown.lastSlot] at hlast
    exact hgrown.slots_of_lt (hlast.trans_le h.alloc)
  split_ifs with hzero
  · have hhead : q.freeList ≠ k := by
      obtain ⟨l, hchain, -, hmem⟩ := hg.free
      intro heq
      have hkl := ((hmem k).mp (hchain.start_mem heq)).2
      have hone := hcount k rfl
      rw [hg.entries] at hkl
      omega
    rw [placeInsertFreeSlot_addEntries hold hroom hhead, placeInsertFreeSlot_eq hold hroom hhead]
    refine inGrid_of_neighbours hslot.1 fun hlast hzero' => ?_
    have hlast' : i < q.lastSlot := hlast
    simp only [Place.prev, Place.next, hik, if_false, hold' hlast'] at hzero' ⊢
    rw [hgrown.lastSlot] at hlast'
    by_cases hfirst : q.freeList = i
    · rw [if_pos hfirst] at hzero' ⊢
      exact ⟨hold, (hslot.neighbours hlast' hzero').2⟩
    · rw [if_neg hfirst] at hzero' ⊢
      exact hslot.neighbours hlast' hzero'
  · refine inGrid_of_neighbours hslot.1 fun hlast hzero' => ?_
    have hlast' : i < q.lastSlot := hlast
    rw [Place.prev, Place.next, hslots, hold' hlast']
    rw [hslots, hold' hlast'] at hzero'
    rw [hgrown.lastSlot] at hlast'
    exact hslot.neighbours hlast' hzero'

end FlakeWm.Placing
