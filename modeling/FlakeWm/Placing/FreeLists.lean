import FlakeWm.Placing.Place

/-! The places over whole runs, while grids grow and shrink.

    A slot beyond the present `max_slot` is invisible to `place_find_slot`: its release is lost, and
    so are the writes to it when a neighbour leaves the free list. `staysInGrid` is the condition that
    no call looks up such a slot. -/

namespace FlakeWm.Placing

variable {s s' : State} {k : PlaceKey} {p : Place} {e : EntryId}

/-! ### Entries of a place -/

/-- The entries of a list that are at slot `i`. -/
def countAt (entry : EntryId → Entry) (l : List EntryId) (i : ℕ) : ℤ :=
  l.countP fun e => decide ((entry e).slot = i)

theorem countAt_nonneg (entry : EntryId → Entry) (l : List EntryId) (i : ℕ) :
    0 ≤ countAt entry l i := Int.natCast_nonneg _

theorem one_le_countAt {entry : EntryId → Entry} {l : List EntryId} {i : ℕ} (he : e ∈ l)
    (hi : (entry e).slot = i) : 1 ≤ countAt entry l i := by
  have hpos : 0 < l.countP fun e => decide ((entry e).slot = i) :=
    List.countP_pos_iff.mpr ⟨e, he, by simpa using hi⟩
  rw [countAt]
  omega

theorem countAt_update_of_not_mem {entry : EntryId → Entry} {l : List EntryId} (he : e ∉ l)
    (x : Entry) : countAt (Function.update entry e x) l = countAt entry l := by
  funext i
  rw [countAt, countAt]
  congr 1
  refine List.countP_congr fun e' he' => ?_
  have hne : e' ≠ e := fun heq => he (heq ▸ he')
  rw [Function.update_of_ne hne]

theorem countAt_cons (entry : EntryId → Entry) (l : List EntryId) (i : ℕ) :
    countAt entry (e :: l) i = countAt entry l i + if (entry e).slot = i then 1 else 0 := by
  rw [countAt, countAt, List.countP_cons]
  by_cases hi : (entry e).slot = i
  · simp [hi]
  · simp [hi]

/-- An entry that leaves takes its count along. -/
theorem countAt_filter {entry : EntryId → Entry} {l : List EntryId} (hl : l.Nodup) (he : e ∈ l)
    (i : ℕ) : countAt entry (l.filter (· ≠ e)) i =
      countAt entry l i - if (entry e).slot = i then 1 else 0 := by
  have hperm : l.Perm (e :: l.filter (· ≠ e)) := by
    have herase := List.perm_cons_erase he
    rw [hl.erase_eq_filter] at herase
    have hsame : l.filter (· ≠ e) = l.filter (· != e) := by
      refine List.filter_congr fun x _ => ?_
      rw [bne, Bool.beq_eq_decide_eq, decide_not]
    rw [hsame]
    exact herase
  have hcount : countAt entry l i = countAt entry (e :: l.filter (· ≠ e)) i := by
    rw [countAt, countAt, hperm.countP_eq]
  rw [hcount, countAt_cons]
  omega

/-- An entry that moves takes its count along. -/
theorem countAt_update_of_mem {entry : EntryId → Entry} {l : List EntryId} (hl : l.Nodup)
    (he : e ∈ l) (x : Entry) (i : ℕ) :
    countAt (Function.update entry e x) l i =
      (countAt entry l i - if (entry e).slot = i then 1 else 0) + if x.slot = i then 1 else 0 := by
  have hnot : e ∉ l.filter (· ≠ e) := by simp
  have hnew : countAt (Function.update entry e x) (l.filter (· ≠ e)) i = _ :=
    countAt_filter hl he i
  rw [countAt_update_of_not_mem hnot, countAt_filter hl he, Function.update_self] at hnew
  omega

/-! ### The invariant -/

/-- Every place counts its entries, and an entry is in the list of its place. -/
structure Inv (s : State) : Prop where
  ok : ∀ k p, s.place k = some p → Ok p (countAt s.entry p.entries)
  nodup : ∀ k p, s.place k = some p → p.entries.Nodup
  mem : ∀ k p e, s.place k = some p → (e ∈ p.entries ↔ (s.entry e).place = some k)
  placed : ∀ e k, (s.entry e).place = some k → ∃ p, s.place k = some p

/-- One place and one entry change; the entry comes from this place or from none. -/
theorem Inv.replace (h : Inv s) {p' : Place} {x : Entry}
    (hplace : s'.place = Function.update s.place k (some p'))
    (hentry : s'.entry = Function.update s.entry e x)
    (hfrom : ∀ q, (s.entry e).place = some q → q = k) (hto : ∀ q, x.place = some q → q = k)
    (hok : Ok p' (countAt s'.entry p'.entries)) (hnodup : p'.entries.Nodup)
    (hmem : ∀ e', e' ∈ p'.entries ↔ (s'.entry e').place = some k) : Inv s' := by
  have hcases : ∀ q r, s'.place q = some r → (q = k ∧ r = p') ∨ (q ≠ k ∧ s.place q = some r) := by
    intro q r hr
    rw [hplace] at hr
    rcases eq_or_ne q k with rfl | hq
    · rw [Function.update_self, Option.some.injEq] at hr
      exact .inl ⟨rfl, hr.symm⟩
    · rw [Function.update_of_ne hq] at hr
      exact .inr ⟨hq, hr⟩
  have hother : ∀ q r, q ≠ k → s.place q = some r → e ∉ r.entries := fun q r hq hr he =>
    hq (hfrom q ((h.mem q r e hr).mp he))
  refine ⟨fun q r hr => ?_, fun q r hr => ?_, fun q r e' hr => ?_, fun e' q he' => ?_⟩
  · rcases hcases q r hr with ⟨rfl, rfl⟩ | ⟨hq, hr⟩
    · exact hok
    · rw [hentry, countAt_update_of_not_mem (hother q r hq hr)]
      exact h.ok q r hr
  · rcases hcases q r hr with ⟨rfl, rfl⟩ | ⟨-, hr⟩
    · exact hnodup
    · exact h.nodup q r hr
  · rcases hcases q r hr with ⟨rfl, rfl⟩ | ⟨hq, hr⟩
    · exact hmem e'
    · rcases eq_or_ne e' e with rfl | he
      · rw [hentry, Function.update_self]
        exact iff_of_false (hother q r hq hr) fun hx => hq (hto q hx)
      · rw [hentry, Function.update_of_ne he]
        exact h.mem q r e' hr
  · rcases eq_or_ne q k with rfl | hq
    · exact ⟨p', by rw [hplace, Function.update_self]⟩
    · rcases eq_or_ne e' e with rfl | he
      · rw [hentry, Function.update_self] at he'
        exact absurd (hto q he') hq
      · rw [hentry, Function.update_of_ne he] at he'
        obtain ⟨r, hr⟩ := h.placed e' q he'
        exact ⟨r, by rw [hplace, Function.update_of_ne hq, hr]⟩

/-! ### The operations -/

/-- A new place is empty. -/
theorem zero_ok : Ok Place.zero fun _ => 0 :=
  ⟨le_rfl, fun _ => rfl, fun _ _ => rfl, [], rfl, List.nodup_nil, fun i => by simp [Place.zero]⟩

theorem positionerGetPlace_inv (h : Inv s) (hs : positionerGetPlace s k = some s') :
    Inv s' ∧ (∃ p, s'.place k = some p ∧ (s.place k = none → p.lastSlot = 0)) ∧
      (∀ q p, s.place q = some p → s'.place q = some p) ∧ s'.entry = s.entry ∧
      s'.positioner = s.positioner := by
  unfold positionerGetPlace at hs
  cases hk : s.place k with
  | some p =>
    rw [hk] at hs
    cases hs
    exact ⟨h, ⟨p, hk, fun hbad => by cases hbad⟩, fun _ _ hp => hp, rfl, rfl⟩
  | none =>
    rw [hk] at hs
    simp only at hs
    split at hs
    · cases hs
    · next p slot hfind =>
      cases hs
      have hgrown := placeFindSlot_grown hfind
      have hok : Ok p fun _ => 0 := zero_ok.grown hgrown
      have hlist : p.entries = [] := hgrown.entries
      have hnobody : ∀ e, (s.entry e).place ≠ some k := by
        intro e he
        obtain ⟨p, hp⟩ := h.placed e k he
        rw [hk] at hp
        cases hp
      have hkeep : ∀ q r, s.place q = some r → Function.update s.place k (some p) q = some r := by
        intro q r hr
        have hne : q ≠ k := by
          rintro rfl
          rw [hk] at hr
          cases hr
        exact (Function.update_of_ne hne ..).trans hr
      have hcases : ∀ q r, Function.update s.place k (some p) q = some r →
          (q = k ∧ r = p) ∨ s.place q = some r := by
        intro q r hr
        rcases eq_or_ne q k with rfl | hq
        · rw [Function.update_self, Option.some.injEq] at hr
          exact .inl ⟨rfl, hr.symm⟩
        · rw [Function.update_of_ne hq] at hr
          exact .inr hr
      refine ⟨⟨fun q r hr => ?_, fun q r hr => ?_, fun q r e hr => ?_, fun e q he => ?_⟩,
        ⟨p, Function.update_self .., fun _ => hgrown.lastSlot⟩, hkeep, rfl, rfl⟩
      · rcases hcases q r hr with ⟨rfl, rfl⟩ | hr
        · rw [hlist]
          exact hok
        · exact h.ok q r hr
      · rcases hcases q r hr with ⟨rfl, rfl⟩ | hr
        · rw [hlist]
          exact List.nodup_nil
        · exact h.nodup q r hr
      · rcases hcases q r hr with ⟨rfl, rfl⟩ | hr
        · rw [hlist]
          exact iff_of_false List.not_mem_nil (hnobody e)
        · exact h.mem q r e hr
      · obtain ⟨r, hr⟩ := h.placed e q he
        exact ⟨r, hkeep q r hr⟩

theorem modifyPlace_place (hp : s.place k = some p) (f : Place → Place) :
    (s.modifyPlace k f).place = Function.update s.place k (some (f p)) := by
  rw [State.modifyPlace, hp, Option.map_some]

theorem placeInsertEntry_inv {slot : ℤ} (h : Inv s) (hp : s.place k = some p)
    (he : (s.entry e).place = none) (hgrid : InGrid (s.maxSlot k) p slot) :
    Inv (placeInsertEntry s k e slot) := by
  have hnot : e ∉ p.entries := fun hmem => by
    rw [(h.mem k p e hp).mp hmem] at he
    cases he
  have hplace : (placeInsertEntry s k e slot).place =
      Function.update s.place k (some (placeOccupy (s.maxSlot k) (p.link e) slot)) := by
    have hlink : ((s.setEntry e ⟨some k, slot⟩).modifyPlace k (·.link e)).place =
        Function.update s.place k (some (p.link e)) := modifyPlace_place (by exact hp) _
    have hk : ((s.setEntry e ⟨some k, slot⟩).modifyPlace k (·.link e)).place k = some (p.link e) := by
      rw [hlink, Function.update_self]
    rw [placeInsertEntry, modifyPlace_place hk, hlink, Function.update_idem]
    rfl
  have hok : Ok (p.link e) (countAt s.entry p.entries) :=
    ⟨(h.ok k p hp).alloc, (h.ok k p hp).entries, (h.ok k p hp).unused, (h.ok k p hp).free⟩
  obtain ⟨hocc, hlist⟩ := placeOccupy_ok hok
    (show InGrid (s.maxSlot k) (p.link e) slot from hgrid) fun i _ => countAt_nonneg _ _ i
  refine h.replace hplace (x := ⟨some k, slot⟩) rfl (fun q hq => ?_) (fun q hq => ?_) ?_ ?_
    fun e' => ?_
  · rw [he] at hq
    cases hq
  · exact (Option.some.inj hq).symm
  · rw [hlist]
    have hcount : countAt (placeInsertEntry s k e slot).entry (p.link e).entries =
        fun i => countAt s.entry p.entries i + if slot = i then 1 else 0 := by
      funext i
      change countAt (Function.update s.entry e ⟨some k, slot⟩) (e :: p.entries) i = _
      rw [countAt_cons, countAt_update_of_not_mem hnot, Function.update_self]
    rw [hcount]
    exact hocc
  · rw [hlist]
    exact List.nodup_cons.mpr ⟨hnot, h.nodup k p hp⟩
  · rw [hlist]
    change e' ∈ e :: p.entries ↔ (Function.update s.entry e ⟨some k, slot⟩ e').place = some k
    rcases eq_or_ne e' e with rfl | hne
    · simp
    · rw [List.mem_cons, or_iff_right hne, Function.update_of_ne hne]
      exact h.mem k p e' hp

theorem placeRemoveEntry_place (hp : s.place k = some p) :
    (placeRemoveEntry s k e).place = Function.update s.place k
      (some ((placeRelease (s.maxSlot k) p (s.entry e).slot).unlink e)) := by
  have hrelease := modifyPlace_place hp (placeRelease (s.maxSlot k) · (s.entry e).slot)
  have hk : (s.modifyPlace k (placeRelease (s.maxSlot k) · (s.entry e).slot)).place k =
      some (placeRelease (s.maxSlot k) p (s.entry e).slot) := by
    rw [hrelease, Function.update_self]
  have hunlink := modifyPlace_place (s := (s.modifyPlace k
    (placeRelease (s.maxSlot k) · (s.entry e).slot)).setEntry e ⟨none, -1⟩) hk (·.unlink e)
  refine hunlink.trans ?_
  change Function.update (s.modifyPlace k _).place k _ = _
  rw [hrelease, Function.update_idem]

theorem placeRemoveEntry_inv (h : Inv s) (he : (s.entry e).place = some k)
    (hgrid : (s.entry e).slot ≤ s.maxSlot k) : Inv (placeRemoveEntry s k e) := by
  obtain ⟨p, hp⟩ := h.placed e k he
  have hmem : e ∈ p.entries := (h.mem k p e hp).mpr he
  obtain ⟨hok, hlist⟩ := placeRelease_ok (h.ok k p hp) hgrid fun i hi => one_le_countAt hmem hi
  set q := placeRelease (s.maxSlot k) p (s.entry e).slot
  have hentries : (q.unlink e).entries = p.entries.filter (· ≠ e) := by
    rw [Place.unlink, hlist]
  have hnot : e ∉ p.entries.filter (· ≠ e) := by simp
  refine h.replace (placeRemoveEntry_place hp) (x := ⟨none, -1⟩) rfl (fun r hr => ?_)
    (fun r hr => ?_) ?_ ?_ fun e' => ?_
  · rw [he] at hr
    exact (Option.some.inj hr).symm
  · cases hr
  · rw [hentries]
    have hcount : countAt (placeRemoveEntry s k e).entry (p.entries.filter (· ≠ e)) =
        fun i => countAt s.entry p.entries i - if (s.entry e).slot = i then 1 else 0 := by
      funext i
      change countAt (Function.update s.entry e ⟨none, -1⟩) _ i = _
      rw [countAt_update_of_not_mem hnot, countAt_filter (h.nodup k p hp) hmem]
    rw [hcount]
    exact ⟨hok.alloc, hok.entries, hok.unused, hok.free⟩
  · rw [hentries]
    exact (h.nodup k p hp).filter _
  · rw [hentries]
    change e' ∈ p.entries.filter (· ≠ e) ↔
      (Function.update s.entry e ⟨none, -1⟩ e').place = some k
    rcases eq_or_ne e' e with rfl | hne
    · simp
    · rw [Function.update_of_ne hne, List.mem_filter]
      simp [hne, h.mem k p e' hp]

/-- Moving to another place is removing and inserting again. -/
theorem placeUpdateEntry_other {k' : PlaceKey} {slot : ℤ} (hne : k' ≠ k) :
    placeUpdateEntry s k k' e slot = placeInsertEntry (placeRemoveEntry s k e) k' e slot := by
  simp only [placeUpdateEntry, placeInsertEntry, placeRemoveEntry, hne, false_and, if_false]
  simp [State.setEntry, State.modifyPlace, State.maxSlot, Function.update_idem]

/-- Moving inside a place is a release and an occupation. -/
theorem placeUpdateEntry_same {slot : ℤ} (hne : (s.entry e).slot ≠ slot) :
    placeUpdateEntry s k k e slot =
      ((s.modifyPlace k (placeRelease (s.maxSlot k) · (s.entry e).slot)).setEntry e
        ⟨some k, slot⟩).modifyPlace k (placeOccupy (s.maxSlot k) · slot) := by
  simp only [placeUpdateEntry, hne.symm, and_false, if_false, if_true]
  rfl

theorem placeUpdateEntry_inv {k' : PlaceKey} {p' : Place} {slot : ℤ} (h : Inv s)
    (he : (s.entry e).place = some k) (hp' : s.place k' = some p')
    (hgrid : ¬ (k' = k ∧ slot = (s.entry e).slot) →
      (s.entry e).slot ≤ s.maxSlot k ∧ InGrid (s.maxSlot k') p' slot) :
    Inv (placeUpdateEntry s k k' e slot) := by
  by_cases hsame : k' = k ∧ slot = (s.entry e).slot
  · rw [placeUpdateEntry, if_pos hsame]
    exact h
  obtain ⟨hold, hnew⟩ := hgrid hsame
  by_cases hkk : k' = k
  · subst hkk
    have hne : (s.entry e).slot ≠ slot := fun heq => hsame ⟨rfl, heq.symm⟩
    have hmem : e ∈ p'.entries := (h.mem k' p' e hp').mpr he
    have hone : ∀ i : ℕ, (s.entry e).slot = i → 1 ≤ countAt s.entry p'.entries i :=
      fun i hi => one_le_countAt hmem hi
    obtain ⟨hok, hlist⟩ := placeRelease_ok (h.ok k' p' hp') hold hone
    have hnew' := placeRelease_inGrid (h.ok k' p' hp') hold hne hone hnew
    have hrelease := modifyPlace_place hp' (placeRelease (s.maxSlot k') · (s.entry e).slot)
    set q := placeRelease (s.maxSlot k') p' (s.entry e).slot
    obtain ⟨hocc, hlist'⟩ := placeOccupy_ok hok hnew' fun i hi => by
      have hnonneg := countAt_nonneg s.entry p'.entries i
      rw [if_neg (by omega)]
      omega
    have hplace : (placeUpdateEntry s k' k' e slot).place =
        Function.update s.place k' (some (placeOccupy (s.maxSlot k') q slot)) := by
      rw [placeUpdateEntry_same hne]
      have hk : ((s.modifyPlace k' (placeRelease (s.maxSlot k') · (s.entry e).slot)).setEntry e
          ⟨some k', slot⟩).place k' = some q := by
        change (s.modifyPlace k' _).place k' = some q
        rw [hrelease, Function.update_self]
      refine (modifyPlace_place hk _).trans ?_
      change Function.update (s.modifyPlace k' _).place k' _ = _
      rw [hrelease, Function.update_idem]
    have hentry : (placeUpdateEntry s k' k' e slot).entry =
        Function.update s.entry e ⟨some k', slot⟩ := by
      rw [placeUpdateEntry_same hne]
      rfl
    have hentries : (placeOccupy (s.maxSlot k') q slot).entries = p'.entries := hlist'.trans hlist
    refine h.replace hplace hentry (fun r hr => ?_) (fun r hr => ?_) ?_ ?_ fun e' => ?_
    · rw [he] at hr
      exact (Option.some.inj hr).symm
    · exact (Option.some.inj hr).symm
    · rw [hentries, hentry]
      have hcount : countAt (Function.update s.entry e ⟨some k', slot⟩) p'.entries = fun i : ℕ =>
          (countAt s.entry p'.entries i - if (s.entry e).slot = i then 1 else 0) +
            if slot = i then 1 else 0 := by
        funext i
        rw [countAt_update_of_mem (h.nodup k' p' hp') hmem]
      rw [hcount]
      exact hocc
    · rw [hentries]
      exact h.nodup k' p' hp'
    · rw [hentries, hentry]
      rcases eq_or_ne e' e with rfl | hne'
      · rw [Function.update_self]
        exact iff_of_true hmem rfl
      · rw [Function.update_of_ne hne']
        exact h.mem k' p' e' hp'
  · rw [placeUpdateEntry_other hkk]
    obtain ⟨p, hp⟩ := h.placed e k he
    refine placeInsertEntry_inv (p := p') (placeRemoveEntry_inv h he hold) ?_ ?_ hnew
    · rw [placeRemoveEntry_place hp, Function.update_of_ne hkk]
      exact hp'
    · change (Function.update s.entry e ⟨none, -1⟩ e).place = none
      rw [Function.update_self]

/-! ### Runs -/

/-- What occupying a slot of a place looks up is in the grid; a new place has no free slots. -/
def occupiesInGrid (s : State) (k : PlaceKey) (slot : ℤ) : Bool :=
  match s.place k with
  | none => decide (slot ≤ s.maxSlot k)
  | some p => decide (InGrid (s.maxSlot k) p slot)

/-- No slot that the call looks up is beyond the `max_slot` of its positioner. -/
def staysInGrid (s : State) : Event → Bool
  | .updateGrid _ _ => true
  | .insertEntry _ k slot => occupiesInGrid s k slot
  | .removeEntry e =>
    match (s.entry e).place with
    | none => true
    | some k => decide ((s.entry e).slot ≤ s.maxSlot k)
  | .updateEntry e k' slot =>
    match (s.entry e).place with
    | none => true
    | some k => decide (k' = k ∧ slot = (s.entry e).slot) ||
      (decide ((s.entry e).slot ≤ s.maxSlot k) && occupiesInGrid s k' slot)

theorem occupiesInGrid_get {slot : ℤ} (h : occupiesInGrid s k slot = true)
    (hkeep : ∀ q p, s.place q = some p → s'.place q = some p) (hp : s'.place k = some p)
    (hnew : s.place k = none → p.lastSlot = 0) (hpos : s'.positioner = s.positioner) :
    InGrid (s'.maxSlot k) p slot := by
  have hmax : s'.maxSlot k = s.maxSlot k := by rw [State.maxSlot, State.maxSlot, hpos]
  rw [hmax]
  unfold occupiesInGrid at h
  split at h
  · next hnone =>
    refine ⟨of_decide_eq_true h, fun _ hlast => ?_⟩
    rw [hnew hnone] at hlast
    exact absurd hlast (Nat.not_lt_zero _)
  · next r hr =>
    rw [hkeep k r hr, Option.some.injEq] at hp
    rw [← hp]
    exact of_decide_eq_true h

theorem inv_step (h : Inv s) (ev : Event) (hok : staysInGrid s ev = true)
    (hs : step s ev = some s') : Inv s' := by
  cases ev with
  | updateGrid pos usable =>
    cases hs
    exact ⟨h.ok, h.nodup, h.mem, h.placed⟩
  | insertEntry e k slot =>
    rw [step] at hs
    split at hs
    · cases hs
    · next he =>
      obtain ⟨s₁, hget, rfl⟩ := Option.map_eq_some_iff.mp hs
      obtain ⟨h₁, ⟨p, hp, hnew⟩, hkeep, hentry, hpos⟩ := positionerGetPlace_inv h hget
      refine placeInsertEntry_inv h₁ hp (by rw [hentry]; exact he) ?_
      exact occupiesInGrid_get hok hkeep hp hnew hpos
  | removeEntry e =>
    rw [step] at hs
    split at hs
    · cases hs
    · next k he =>
      cases hs
      rw [staysInGrid, he] at hok
      exact placeRemoveEntry_inv h he (of_decide_eq_true hok)
  | updateEntry e k' slot =>
    rw [step] at hs
    split at hs
    · cases hs
    · next k he =>
      obtain ⟨s₁, hget, rfl⟩ := Option.map_eq_some_iff.mp hs
      obtain ⟨h₁, ⟨p, hp, hnew⟩, hkeep, hentry, hpos⟩ := positionerGetPlace_inv h hget
      refine placeUpdateEntry_inv h₁ (by rw [hentry]; exact he) hp fun hmoved => ?_
      simp only [staysInGrid, he, Bool.or_eq_true, Bool.and_eq_true, decide_eq_true_eq] at hok
      rw [hentry] at hmoved ⊢
      obtain ⟨hold, hocc⟩ := hok.resolve_left hmoved
      rw [State.maxSlot, hpos]
      exact ⟨hold, occupiesInGrid_get hocc hkeep hp hnew hpos⟩

theorem init_inv : Inv State.init := by
  constructor <;> simp [State.init]

/-- What the free list and the counts of a place should be, in a state of the positioners. -/
structure FreeListOk (s : State) (p : Place) : Prop where
  /-- Following `next` visits the slots without entries, once each, and `prev` is the way back. -/
  list : ∃ l, Chain p.next p.prev (-1) p.freeList l ∧ l.Nodup ∧
    ∀ i, i ∈ l ↔ i < p.lastSlot ∧ (p.slots i).entries = 0
  count : ∀ i, (p.slots i).entries = countAt s.entry p.entries i
  /-- The walk of `positioner_add_new_view` ends for every view. -/
  search : ∀ pos view, ∃ n, (findFreeSlot pos p view n).isSome

/-- In every run that looks up no slot beyond the grid of its time, every place has a proper free
    list and counts its entries, however the grids grow and shrink. -/
theorem free_lists_kept (s : State)
    (hs : Reach step (fun s ev => staysInGrid s ev = true) State.init s) :
    ∀ k p, s.place k = some p → FreeListOk s p := by
  intro k p hp
  have hinv : Inv s := hs.inv (I := Inv) init_inv fun _ ev _ h hok hstep => inv_step h ev hok hstep
  have hok := hinv.ok k p hp
  refine ⟨hok.free, hok.entries, fun pos view => ?_⟩
  obtain ⟨l, hchain, -, -⟩ := hok.free
  exact ⟨l.length, hchain.walk_isSome (slotIsSuitable pos view)⟩

/-- The grid shrinks under a view at slot 3; the view moves to slot 1 and is unmapped. Slot 2, which
    is beyond the grid, still leads to slot 1, so the free list runs in a circle. -/
def shrunkGrid : List Event :=
  [.updateGrid 0 ⟨0, 0, 750, 600⟩, .insertEntry 0 (0, 0) 3, .updateGrid 0 ⟨0, 0, 650, 600⟩,
    .updateEntry 0 (0, 0) 1, .removeEntry 0]

/-- A new view that fits into slot 0 only is looked for a slot forever. -/
theorem shrunk_grid_loops :
    ¬ ∀ s, Reach step Always State.init s → ∀ k p, s.place k = some p → FreeListOk s p := by
  intro h
  obtain ⟨s, p, hs, hp, hfree, h1, h2, hmax⟩ : ∃ s p, exec step State.init shrunkGrid = some s ∧
      s.place (0, 0) = some p ∧ p.freeList = 1 ∧ p.next 1 = 2 ∧ p.next 2 = 1 ∧
      s.positioner 0 = ⟨⟨50, 50, 100, 50⟩, ⟨0, 0, 650, 600⟩, 1, 2, 1, 1⟩ :=
    ⟨_, _, rfl, rfl, rfl, rfl, rfl, rfl⟩
  obtain ⟨n, hn⟩ := (h s (.of_exec _ _ hs) (0, 0) p hp).search (s.positioner 0) ⟨580, 30, 0, 0, 0, 0⟩
  have hcircle : ∀ n, walk p.next (slotIsSuitable (s.positioner 0) ⟨580, 30, 0, 0, 0, 0⟩) n 1 = none ∧
      walk p.next (slotIsSuitable (s.positioner 0) ⟨580, 30, 0, 0, 0, 0⟩) n 2 = none := by
    have hnot1 : slotIsSuitable (s.positioner 0) ⟨580, 30, 0, 0, 0, 0⟩ 1 = false := by
      rw [hmax]
      decide
    have hnot2 : slotIsSuitable (s.positioner 0) ⟨580, 30, 0, 0, 0, 0⟩ 2 = false := by
      rw [hmax]
      decide
    intro n
    induction n with
    | zero => simp [walk, hnot1, hnot2]
    | succ n ih => simp [walk, hnot1, hnot2, h1, h2, ih.1, ih.2]
  rw [findFreeSlot, hfree, (hcircle n).1] at hn
  cases hn

/-- While the grid keeps the slots that are looked up, it may shrink: the view at slot 1 leaves it
    to the free list. -/
theorem kept_grid_frees_slot :
    ∃ s p, exec step State.init [.updateGrid 0 ⟨0, 0, 750, 600⟩, .insertEntry 0 (0, 0) 1,
        .insertEntry 1 (0, 0) 2, .updateGrid 0 ⟨0, 0, 700, 600⟩, .updateEntry 0 (0, 0) 0] = some s ∧
      s.place (0, 0) = some p ∧ p.freeList = 1 ∧ FreeListOk s p := by
  obtain ⟨s, p, hs, hrun, hp, hfree⟩ : ∃ s p,
      exec step State.init [.updateGrid 0 ⟨0, 0, 750, 600⟩, .insertEntry 0 (0, 0) 1,
        .insertEntry 1 (0, 0) 2, .updateGrid 0 ⟨0, 0, 700, 600⟩, .updateEntry 0 (0, 0) 0] = some s ∧
      exec (guarded step staysInGrid) State.init [.updateGrid 0 ⟨0, 0, 750, 600⟩,
        .insertEntry 0 (0, 0) 1, .insertEntry 1 (0, 0) 2, .updateGrid 0 ⟨0, 0, 700, 600⟩,
        .updateEntry 0 (0, 0) 0] = some s ∧
      s.place (0, 0) = some p ∧ p.freeList = 1 := ⟨_, _, rfl, rfl, rfl, rfl⟩
  exact ⟨s, p, hs, hp, hfree, free_lists_kept s (.of_exec_guarded _ _ hrun) (0, 0) p hp⟩

end FlakeWm.Placing
