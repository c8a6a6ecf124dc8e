import FlakeWm.OutputManager.Model
import Mathlib.Data.List.Nodup

/-! What configuring outputs does to the enabled ones and to the primary output (`src/output/output.c`).

    A commit may fail at any output that is not headless. Whatever has been set before stays, and the loops are left. -/

namespace FlakeWm.OutputManager

variable {s s' : State} {backend : Backend} {id : ℕ} {state : OutputState}

/-! ### Sorting -/

theorem mem_sortOutputs {outputs : List Output} (hnodup : (outputs.map Output.id).Nodup) {o : Output} :
    o ∈ sortOutputs outputs ↔ o ∈ outputs := by
  have hfind {p q : Output} (hp : p ∈ outputs) (hq : q ∈ outputs) (heq : p.id = q.id) : p = q :=
    List.inj_on_of_nodup_map hnodup hp hq heq
  rw [sortOutputs, List.mem_filterMap]
  constructor
  · rintro ⟨key, -, hkey⟩
    exact List.mem_of_find?_eq_some hkey
  · intro ho
    refine ⟨⟨o.id, Int32.ofInt o.geometry.x, Int32.ofInt o.geometry.y⟩, ?_, ?_⟩
    · rw [(Outputs.sort_perm _).mem_iff]
      exact List.mem_map_of_mem ho
    · cases hfound : outputs.find? fun p => decide (p.id = o.id) with
      | none => simpa using List.find?_eq_none.1 hfound o ho
      | some p =>
        have hid := List.find?_some hfound
        rw [decide_eq_true_eq] at hid
        rw [hfind (List.mem_of_find?_eq_some hfound) ho hid]

theorem nodup_sortOutputs {outputs : List Output} (hnodup : (outputs.map Output.id).Nodup) :
    ((sortOutputs outputs).map Output.id).Nodup := by
  rw [sortOutputs, List.map_filterMap]
  generalize hkeys : (outputs.map fun o =>
    (⟨o.id, Int32.ofInt o.geometry.x, Int32.ofInt o.geometry.y⟩ : Outputs.Output)) = keys
  have hids : ((Outputs.outputManagerSortOutputs keys).map Outputs.Output.id).Nodup := by
    refine ((Outputs.sort_perm keys).map Outputs.Output.id).nodup_iff.2 ?_
    rw [← hkeys, List.map_map]
    exact hnodup
  rw [List.nodup_iff_pairwise_ne, List.pairwise_map] at hids
  rw [List.nodup_iff_pairwise_ne]
  refine List.Pairwise.filterMap _ (fun a a' hne b hb b' hb' => ?_) hids
  rw [Option.map_eq_some_iff] at hb hb'
  obtain ⟨o, ho, rfl⟩ := hb
  obtain ⟨o', ho', rfl⟩ := hb'
  have hid := List.find?_some ho
  have hid' := List.find?_some ho'
  rw [decide_eq_true_eq] at hid hid'
  rw [hid, hid']
  exact hne

/-! ### Outputs that are there, and outputs that are enabled -/

namespace State

def Has (s : State) (id : ℕ) : Prop := ∃ o ∈ s.outputs, o.id = id

def On (s : State) (id : ℕ) : Prop := ∃ o ∈ s.outputs, o.id = id ∧ o.state.enabled = true

theorem On.has (h : s.On id) : s.Has id := by
  obtain ⟨o, ho, hid, -⟩ := h
  exact ⟨o, ho, hid⟩

/-- The numbers are distinct, the fallback is a headless output, and only enabled states wait for a page flip. -/
structure Wf (s : State) : Prop where
  nodup : (s.outputs.map Output.id).Nodup
  fresh : ∀ o ∈ s.outputs, o.id < s.nextId
  fallback : ∀ f, s.fallback = some f → ∃ o ∈ s.outputs, o.id = f ∧ o.isVirtual = true
  waiting : ∀ o ∈ s.outputs, ∀ state, o.pendingState = some state → state.enabled = true

/-- Two states differ in what their outputs are like only. -/
structure Same (s s' : State) : Prop where
  has : ∀ id, s'.Has id ↔ s.Has id
  nextId : s'.nextId = s.nextId
  fallback : s'.fallback = s.fallback
  primary : s'.primary = s.primary
  pendingPrimary : s'.pendingPrimary = s.pendingPrimary
  outputConfigs : s'.outputConfigs = s.outputConfigs

theorem Same.refl (s : State) : Same s s := ⟨fun _ => Iff.rfl, rfl, rfl, rfl, rfl, rfl⟩

theorem Same.trans {t : State} (h : Same s s') (h' : Same s' t) : Same s t :=
  ⟨fun id => (h'.has id).trans (h.has id), h'.nextId.trans h.nextId, h'.fallback.trans h.fallback,
    h'.primary.trans h.primary, h'.pendingPrimary.trans h.pendingPrimary, h'.outputConfigs.trans h.outputConfigs⟩

theorem eq_of_id (h : s.Wf) {o p : Output} (ho : o ∈ s.outputs) (hp : p ∈ s.outputs) (heq : o.id = p.id) : o = p :=
  List.inj_on_of_nodup_map h.nodup ho hp heq

theorem find_eq_some {o : Output} (h : s.Wf) : s.find id = some o ↔ o ∈ s.outputs ∧ o.id = id := by
  constructor
  · intro hfind
    have hid := List.find?_some hfind
    exact ⟨List.mem_of_find?_eq_some hfind, of_decide_eq_true hid⟩
  · rintro ⟨ho, rfl⟩
    cases hfind : s.find o.id with
    | none => simpa using List.find?_eq_none.1 hfind o ho
    | some p =>
      have hid := List.find?_some hfind
      rw [eq_of_id h (List.mem_of_find?_eq_some hfind) ho (of_decide_eq_true hid)]

theorem find_eq_none : s.find id = none ↔ ¬ s.Has id := by
  rw [find, List.find?_eq_none, Has]
  simp

theorem hasActualOutputs_iff : s.hasActualOutputs = true ↔ ∃ id, s.Has id ∧ s.fallback ≠ some id := by
  simp only [hasActualOutputs, List.any_eq_true, decide_eq_true_eq, Has]
  constructor
  · rintro ⟨o, ho, hne⟩
    exact ⟨o.id, ⟨o, ho, rfl⟩, hne⟩
  · rintro ⟨_, ⟨o, ho, rfl⟩, hne⟩
    exact ⟨o, ho, hne⟩

theorem hasEnabledOutputs_iff : s.hasEnabledOutputs = true ↔ ∃ id, s.On id ∧ s.fallback ≠ some id := by
  simp only [hasEnabledOutputs, List.any_eq_true, Bool.and_eq_true, decide_eq_true_eq, On]
  constructor
  · rintro ⟨o, ho, hne, hon⟩
    exact ⟨o.id, ⟨o, ho, rfl, hon⟩, hne⟩
  · rintro ⟨_, ⟨o, ho, rfl, hon⟩, hne⟩
    exact ⟨o, ho, hne, hon⟩

theorem Same.hasActualOutputs (h : Same s s') : s'.hasActualOutputs = s.hasActualOutputs := by
  rw [Bool.eq_iff_iff, hasActualOutputs_iff, hasActualOutputs_iff, h.fallback]
  simp only [h.has]

/-! ### Setting one state -/

theorem setState_eq_some {o o' : Output} {commit : Commit} (h : o.setState commit state = some o') :
    o'.id = o.id ∧ o'.isVirtual = o.isVirtual ∧ o'.state.enabled = state.enabled ∧
      ∀ pending, o'.pendingState = some pending → o.pendingState = some pending ∨ pending.enabled = true := by
  rw [Output.setState] at h
  dsimp only at h
  split at h
  next hwaits =>
    cases h
    refine ⟨rfl, rfl, rfl, fun pending hpending => Or.inr ?_⟩
    cases hpending
    simp only [Bool.and_eq_true] at hwaits
    exact hwaits.1.1.1.1.1.2.1
  · split at h
    · cases h
    · cases h
      exact ⟨rfl, rfl, rfl, fun _ hpending => Or.inl hpending⟩

variable (state) in
/-- A headless output takes every state. -/
theorem setState_virtual {o : Output} (commit : Commit) (h : o.isVirtual = true) : (o.setState commit state).isSome := by
  rw [Output.setState]
  dsimp only
  split
  · rfl
  · split
    next hfails => simp [h] at hfails
    · rfl

/-- The outputs with one of them replaced by an output of the same number. -/
theorem mem_replace {o o' p : Output} (ho : o ∈ s.outputs) (hid : o'.id = o.id) :
    p ∈ (s.outputs.map fun q => if q.id = o.id then o' else q) ↔ p = o' ∨ p ∈ s.outputs ∧ p.id ≠ o.id := by
  rw [List.mem_map]
  constructor
  · rintro ⟨q, hq, rfl⟩
    by_cases hqo : q.id = o.id
    · exact Or.inl (if_pos hqo)
    · rw [if_neg hqo]
      exact Or.inr ⟨hq, hqo⟩
  · rintro (rfl | ⟨hp, hne⟩)
    · exact ⟨o, ho, if_pos rfl⟩
    · exact ⟨p, hp, if_neg hne⟩

theorem ids_replace {o o' : Output} (hid : o'.id = o.id) :
    (s.outputs.map fun q => if q.id = o.id then o' else q).map Output.id = s.outputs.map Output.id := by
  rw [List.map_map]
  refine List.map_congr_left fun q _ => ?_
  rw [Function.comp_apply]
  split
  next heq => exact hid.trans heq.symm
  · rfl

/-- What setting a state does: nothing changes but this output, which is enabled or disabled as it is told to. -/
structure Sets (s s' : State) (id : ℕ) (enabled : Bool) : Prop where
  same : Same s s'
  wf : s'.Wf
  keeps : ∀ j, (j = id → enabled = true) → s.On j → s'.On j
  sets : enabled = true → s.Has id → s'.On id
  unsets : enabled = false → ¬ s'.On id

theorem setState_spec (h : s.Wf) (hs : s.setState backend id state = some s') : Sets s s' id state.enabled := by
  rw [setState] at hs
  cases hfind : s.find id with
  | none =>
    rw [hfind] at hs
    cases hs
    have hgone := find_eq_none.1 hfind
    exact ⟨Same.refl s, h, fun _ _ hon => hon, fun _ hhas => absurd hhas hgone, fun _ hon => hgone hon.has⟩
  | some o =>
    obtain ⟨ho, rfl⟩ := (find_eq_some h).1 hfind
    rw [hfind, Option.map_eq_some_iff] at hs
    obtain ⟨o', ho', rfl⟩ := hs
    obtain ⟨hid, hvirtual, henabled, hpending⟩ := setState_eq_some ho'
    -- sorting changes the order alone
    have hnodup : ((s.outputs.map fun q => if q.id = o.id then o' else q).map Output.id).Nodup := by
      rw [ids_replace hid]
      exact h.nodup
    have hmem (p : Output) : p ∈ (if o.moved o' = true then
        sortOutputs (s.outputs.map fun q => if q.id = o.id then o' else q)
        else s.outputs.map fun q => if q.id = o.id then o' else q) ↔ p = o' ∨ p ∈ s.outputs ∧ p.id ≠ o.id := by
      rw [← mem_replace ho hid]
      split
      · exact mem_sortOutputs hnodup
      · exact Iff.rfl
    have hnodup' : ((if o.moved o' = true then sortOutputs (s.outputs.map fun q => if q.id = o.id then o' else q)
        else s.outputs.map fun q => if q.id = o.id then o' else q).map Output.id).Nodup := by
      split
      · exact nodup_sortOutputs hnodup
      · exact hnodup
    refine ⟨⟨fun j => ⟨?_, ?_⟩, rfl, rfl, rfl, rfl, rfl⟩, ⟨hnodup', fun p hp => ?_, fun f hf => ?_, fun p hp => ?_⟩,
      fun j hj => ?_, fun hon _ => ?_, fun hoff hon => ?_⟩
    · rintro ⟨p, hp, rfl⟩
      rcases (hmem p).1 hp with rfl | ⟨hp, -⟩
      · exact ⟨o, ho, hid.symm⟩
      · exact ⟨p, hp, rfl⟩
    · rintro ⟨p, hp, rfl⟩
      by_cases hne : p.id = o.id
      · exact ⟨o', (hmem o').2 (Or.inl rfl), hid.trans hne.symm⟩
      · exact ⟨p, (hmem p).2 (Or.inr ⟨hp, hne⟩), rfl⟩
    · rcases (hmem p).1 hp with rfl | ⟨hp, -⟩
      · exact hid ▸ h.fresh o ho
      · exact h.fresh p hp
    · obtain ⟨p, hp, hpf, hpv⟩ := h.fallback f hf
      by_cases hne : p.id = o.id
      · refine ⟨o', (hmem o').2 (Or.inl rfl), (hid.trans hne.symm).trans hpf, ?_⟩
        rw [hvirtual, ← eq_of_id h hp ho hne]
        exact hpv
      · exact ⟨p, (hmem p).2 (Or.inr ⟨hp, hne⟩), hpf, hpv⟩
    · rcases (hmem p).1 hp with rfl | ⟨hp, -⟩
      · exact fun pending heq => (hpending pending heq).elim (h.waiting o ho pending) fun hon => hon
      · exact h.waiting p hp
    · rintro ⟨p, hp, rfl, hon⟩
      by_cases hne : p.id = o.id
      · exact ⟨o', (hmem o').2 (Or.inl rfl), hid.trans hne.symm, henabled.trans (hj hne)⟩
      · exact ⟨p, (hmem p).2 (Or.inr ⟨hp, hne⟩), rfl, hon⟩
    · exact ⟨o', (hmem o').2 (Or.inl rfl), hid, henabled.trans hon⟩
    · obtain ⟨p, hp, hpid, hpon⟩ := hon
      rcases (hmem p).1 hp with rfl | ⟨-, hne⟩
      · rw [henabled, hoff] at hpon
        cases hpon
      · exact hne hpid

variable (backend state) in
/-- Setting the state of a headless output succeeds. -/
theorem setState_fallback (h : s.Wf) {o : Output} (ho : o ∈ s.outputs) (hvirtual : o.isVirtual = true) :
    ∃ s', s.setState backend o.id state = some s' := by
  rw [setState, (find_eq_some h).2 ⟨ho, rfl⟩]
  obtain ⟨o', ho'⟩ := Option.isSome_iff_exists.1 (setState_virtual state (backend o.id state) hvirtual)
  dsimp only
  exact ⟨_, by rw [ho', Option.map_some]⟩

/-! ### Setting several states -/

variable (backend) in
/-- The outputs that are not disabled by a configuration stay enabled, also when a commit fails. -/
theorem setStates_spec : ∀ (configs : List (ℕ × OutputState)) {s : State}, s.Wf →
    Same s (s.setStates backend configs).1 ∧ (s.setStates backend configs).1.Wf ∧
      ∀ j, (∀ c ∈ configs, c.1 = j → c.2.enabled = true) → s.On j → (s.setStates backend configs).1.On j
  | [], s, h => ⟨Same.refl s, h, fun _ _ hon => hon⟩
  | c :: configs, s, h => by
      rw [setStates]
      cases hs : s.setState backend c.1 c.2 with
      | none => exact ⟨Same.refl s, h, fun _ _ hon => hon⟩
      | some s' =>
        have hsets := setState_spec h hs
        obtain ⟨hsame, hwf, hkeeps⟩ := setStates_spec configs hsets.wf
        refine ⟨hsets.same.trans hsame, hwf, fun j hj hon => ?_⟩
        refine hkeeps j (fun d hd => hj d (List.mem_cons_of_mem _ hd)) (hsets.keeps j (fun hid => ?_) hon)
        exact hj c List.mem_cons_self hid.symm

/-- When no commit fails, the outputs that are to be enabled are enabled. -/
theorem setStates_enables : ∀ (configs : List (ℕ × OutputState)) {s : State}, s.Wf →
    (∀ c ∈ configs, c.2.enabled = true) → (s.setStates backend configs).2 = true →
    ∀ c ∈ configs, s.Has c.1 → (s.setStates backend configs).1.On c.1
  | [], _, _, _, _, _, hc => by cases hc
  | c :: configs, s, h, henabled, hok, d, hd => by
      rw [setStates] at hok ⊢
      cases hs : s.setState backend c.1 c.2 with
      | none =>
        rw [hs] at hok
        cases hok
      | some s' =>
        rw [hs] at hok
        have hsets := setState_spec h hs
        have hrest (e : ℕ × OutputState) (he : e ∈ configs) : e.2.enabled = true := henabled e (List.mem_cons_of_mem _ he)
        intro hhas
        rcases List.mem_cons.1 hd with rfl | hd
        · obtain ⟨-, -, hkeeps⟩ := setStates_spec backend configs hsets.wf
          exact hkeeps d.1 (fun e he _ => hrest e he) (hsets.sets (henabled d List.mem_cons_self) hhas)
        · exact setStates_enables configs hsets.wf hrest hok d hd ((hsets.same.has d.1).2 hhas)

/-- The states of headless outputs are all set. -/
theorem setStates_virtual : ∀ (configs : List (ℕ × OutputState)) {s : State}, s.Wf →
    (∀ c ∈ configs, s.fallback = some c.1) → (s.setStates backend configs).2 = true
  | [], _, _, _ => rfl
  | c :: configs, s, h, hvirtual => by
      obtain ⟨o, ho, hid, hov⟩ := h.fallback c.1 (hvirtual c List.mem_cons_self)
      obtain ⟨s', hs'⟩ := setState_fallback backend c.2 h ho hov
      rw [hid] at hs'
      have hsets := setState_spec h hs'
      rw [setStates, hs']
      exact setStates_virtual configs hsets.wf fun d hd =>
        hsets.same.fallback.trans (hvirtual d (List.mem_cons_of_mem _ hd))

/-! ### The fallback -/

variable (backend) in
/-- Disabling the fallback leaves the others as they are. -/
theorem fallbackSetState_off (h : s.Wf) (mirror : Option OutputState) :
    Same s (s.fallbackSetState backend false mirror) ∧ (s.fallbackSetState backend false mirror).Wf ∧
      ∀ j, s.fallback ≠ some j → s.On j → (s.fallbackSetState backend false mirror).On j := by
  have hkeep : Same s s ∧ s.Wf ∧ ∀ j, s.fallback ≠ some j → s.On j → s.On j := ⟨Same.refl s, h, fun _ _ hon => hon⟩
  rw [fallbackSetState]
  cases hfind : s.fallback.bind s.find with
  | none => exact hkeep
  | some o =>
    obtain ⟨f, hf, hfo⟩ := Option.bind_eq_some_iff.1 hfind
    obtain ⟨-, rfl⟩ := (find_eq_some h).1 hfo
    dsimp only
    split
    · exact hkeep
    · rw [if_neg Bool.false_ne_true]
      cases hs : s.setState backend o.id { o.state with enabled := false } with
      | none => exact hkeep
      | some s' =>
        have hsets := setState_spec h hs
        refine ⟨hsets.same, hsets.wf, fun j hj hon => hsets.keeps j (fun heq => ?_) hon⟩
        exact absurd (heq ▸ hf) hj

variable (backend) in
/-- The fallback can always be enabled. -/
theorem fallbackSetState_on (h : s.Wf) {f : ℕ} (hf : s.fallback = some f) (mirror : Option OutputState) :
    Same s (s.fallbackSetState backend true mirror) ∧ (s.fallbackSetState backend true mirror).Wf ∧
      (s.fallbackSetState backend true mirror).On f ∧ ∀ j, s.On j → (s.fallbackSetState backend true mirror).On j := by
  obtain ⟨o, ho, rfl, hvirtual⟩ := h.fallback f hf
  have hset (state : OutputState) (henabled : state.enabled = true) :
      Same s ((s.setState backend o.id state).getD s) ∧ ((s.setState backend o.id state).getD s).Wf ∧
        ((s.setState backend o.id state).getD s).On o.id ∧
        ∀ j, s.On j → ((s.setState backend o.id state).getD s).On j := by
    obtain ⟨s', hs'⟩ := setState_fallback backend state h ho hvirtual
    rw [hs', Option.getD_some]
    have hsets := setState_spec h hs'
    exact ⟨hsets.same, hsets.wf, hsets.sets henabled ⟨o, ho, rfl⟩, fun j hon => hsets.keeps j (fun _ => henabled) hon⟩
  rw [fallbackSetState, hf, Option.bind_some, (find_eq_some h).2 ⟨ho, rfl⟩]
  dsimp only
  rw [if_neg (by simp), if_pos rfl]
  cases mirror <;> exact hset _ rfl

end State

end FlakeWm.OutputManager
