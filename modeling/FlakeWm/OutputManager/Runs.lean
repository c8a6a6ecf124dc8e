import FlakeWm.OutputManager.Lit

/-! Runs of the output manager (`src/output/output.c`, `wlr_output.c`, `kde_output.c`). -/

namespace FlakeWm.OutputManager

open State

variable {s s' : State} {backend : Backend}

/-! ### Changes that are not about being enabled -/

/-- The outputs are changed, but not in their numbers, their kinds and whether they are enabled. -/
theorem mapped (h : s.Wf) {f : Output → Output} (hid : ∀ o, (f o).id = o.id) (hvirtual : ∀ o, (f o).isVirtual = o.isVirtual)
    (henabled : ∀ o, (f o).state.enabled = o.state.enabled)
    (hpending : ∀ o state, (f o).pendingState = some state → o.pendingState = some state) :
    Wf { s with outputs := s.outputs.map f } ∧ ∀ id, State.On { s with outputs := s.outputs.map f } id ↔ s.On id := by
  refine ⟨⟨?_, fun o ho => ?_, fun p hp => ?_, fun o ho state hstate => ?_⟩, fun id => ⟨?_, ?_⟩⟩
  · rw [List.map_map]
    have heq : Output.id ∘ f = Output.id := funext hid
    rw [heq]
    exact h.nodup
  · obtain ⟨p, hp, rfl⟩ := List.mem_map.1 ho
    rw [hid]
    exact h.fresh p hp
  · obtain ⟨o, ho, hop, hov⟩ := h.fallback p hp
    exact ⟨f o, List.mem_map_of_mem ho, (hid o).trans hop, (hvirtual o).trans hov⟩
  · obtain ⟨p, hp, rfl⟩ := List.mem_map.1 ho
    exact h.waiting p hp state (hpending p state hstate)
  · rintro ⟨o, ho, rfl, hon⟩
    obtain ⟨p, hp, rfl⟩ := List.mem_map.1 ho
    exact ⟨p, hp, (hid p).symm, (henabled p).symm.trans hon⟩
  · rintro ⟨o, ho, rfl, hon⟩
    exact ⟨f o, List.mem_map_of_mem ho, hid o, (henabled o).trans hon⟩

theorem State.Good.mapped (h : s.Good) {f : Output → Output} (hid : ∀ o, (f o).id = o.id)
    (hvirtual : ∀ o, (f o).isVirtual = o.isVirtual) (henabled : ∀ o, (f o).state.enabled = o.state.enabled)
    (hpending : ∀ o state, (f o).pendingState = some state → o.pendingState = some state) :
    State.Good { s with outputs := s.outputs.map f } := by
  obtain ⟨hwf, hon⟩ := OutputManager.mapped h.wf hid hvirtual henabled hpending
  refine ⟨hwf, h.outputConfigs, h.pendingPrimary, fun hf => ?_, fun p hp => (hon p).2 (h.primaryOn p hp), h.primarySet⟩
  obtain ⟨id, hid⟩ := h.lit hf
  exact ⟨id, (hon id).2 hid⟩

theorem forgetPending_good (h : s.Good) (id : ℕ) : (s.forgetPending id).Good := by
  refine h.mapped (fun o => ?_) (fun o => ?_) (fun o => ?_) fun o state hstate => ?_
  · split <;> rfl
  · split <;> rfl
  · split <;> rfl
  · split at hstate
    · cases hstate
    · exact hstate

/-- An output that is set to a state in which it is no less enabled than before. -/
theorem setState_good (h : s.Good) {id : ℕ} {state : OutputState} (hkept : s.On id → state.enabled = true)
    (hs : s.setState backend id state = some s') : s'.Good := by
  have hsets := setState_spec h.wf hs
  have hon {j : ℕ} (hj : s.On j) : s'.On j := hsets.keeps j (fun heq => hkept (heq ▸ hj)) hj
  refine ⟨hsets.wf, hsets.same.outputConfigs.trans h.outputConfigs, hsets.same.pendingPrimary.trans h.pendingPrimary,
    fun hf => ?_, fun p hp => hon (h.primaryOn p (hsets.same.primary.symm.trans hp)), fun hf => ?_⟩
  · obtain ⟨j, hj⟩ := h.lit (hsets.same.fallback ▸ hf)
    exact ⟨j, hon hj⟩
  · exact (congrArg Option.isSome hsets.same.primary).trans (h.primarySet (hsets.same.fallback ▸ hf))

theorem changeState_good (h : s.Good) (id : ℕ) (state : OutputState) : (s.changeState backend id state).Good := by
  rw [changeState]
  split
  · exact h
  next o ho =>
    obtain ⟨hmem, rfl⟩ := (find_eq_some h.wf).1 ho
    dsimp only
    cases hs : s.setState backend o.id
        { state with enabled := o.state.enabled, lx := o.state.lx, ly := o.state.ly } with
    | none => exact h
    | some s' =>
      refine setState_good h (fun hon => ?_) hs
      obtain ⟨p, hp, hid, hpon⟩ := hon
      rw [← eq_of_id h.wf hp hmem hid]
      exact hpon

theorem handlePresent_good (h : s.Good) (id : ℕ) : (s.handlePresent backend id).Good := by
  rw [handlePresent]
  split
  · exact h
  next state hstate =>
    obtain ⟨o, ho, hpending⟩ := Option.bind_eq_some_iff.1 hstate
    split
    next s' hs => exact setState_good h (fun _ => h.wf.waiting o ((find_eq_some h.wf).1 ho).1 state hpending) hs
    · exact forgetPending_good h id

/-! ### Plugging in and out -/

/-- The fallback comes before the other outputs, or while one of them is enabled at the origin. -/
structure FallbackFits (s : State) (new : NewOutput) : Prop where
  first : s.fallback = none
  notPrimary : new.primary = false
  origin : s.outputs = [] ∨ ∃ o ∈ s.outputs, AtOrigin o

/-- The state after the new output and its configuration have been added. -/
def added (s : State) (new : NewOutput) (o : Output) (state : OutputState) : State where
  outputs := o :: s.outputs
  nextId := s.nextId + 1
  fallback := if new.isFallback then some s.nextId else s.fallback
  primary := s.primary
  pendingPrimary := if new.primary then some s.nextId else none
  outputConfigs := [(s.nextId, state)]

variable {new : NewOutput} {o : Output} {state : OutputState}

theorem added_wf (h : s.Good) (hid : o.id = s.nextId) (hvirtual : o.isVirtual = new.isVirtual)
    (hpending : o.pendingState = none) : (added s new o state).Wf := by
  refine ⟨?_, fun p hp => ?_, fun f hf => ?_, fun p hp st hst => ?_⟩
  · rw [added, List.map_cons, List.nodup_cons]
    refine ⟨fun hmem => ?_, h.wf.nodup⟩
    obtain ⟨p, hp, heq⟩ := List.mem_map.1 hmem
    exact (h.wf.fresh p hp).ne (heq.trans hid)
  · show p.id < s.nextId + 1
    rcases List.mem_cons.1 hp with rfl | hp
    · omega
    · have := h.wf.fresh p hp
      omega
  · rw [added] at hf
    dsimp only at hf
    split at hf
    next hfallback =>
      rw [NewOutput.isFallback, Bool.and_eq_true] at hfallback
      exact ⟨o, List.mem_cons_self, hid.trans (Option.some.inj hf), hvirtual.trans hfallback.1⟩
    · obtain ⟨p, hp, hpf, hpv⟩ := h.wf.fallback f hf
      exact ⟨p, List.mem_cons_of_mem _ hp, hpf, hpv⟩
  · rcases List.mem_cons.1 hp with rfl | hp
    · rw [hpending] at hst
      cases hst
    · exact h.wf.waiting p hp st hst

/-- A new actual output is not the fallback. -/
theorem added_fallback_ne (h : s.Good) (hactual : new.isFallback = false) : (added s new o state).fallback ≠ some s.nextId := by
  rw [added]
  dsimp only
  rw [hactual, if_neg Bool.false_ne_true]
  intro hf
  obtain ⟨p, hp, hpf, -⟩ := h.wf.fallback _ hf
  exact (h.wf.fresh p hp).ne hpf

/-- An older output is not the new fallback. -/
theorem added_skipped_old (h : s.Good) (hfallback : new.isFallback = true) {a : Output} (ha : a ∈ s.outputs) :
    (added s new o state).skipped a.id = false := by
  have hne : s.nextId ≠ a.id := (h.wf.fresh a ha).ne'
  simp [skipped, added, hfallback, hne]

theorem added_config_old (h : s.Good) {a : Output} (ha : a ∈ s.outputs) : (added s new o state).config a.id = none := by
  rw [config_eq_none]
  intro c hc
  rw [List.mem_singleton.1 hc]
  exact (h.wf.fresh a ha).ne'

theorem added_config_new (hid : o.id = s.nextId) : (added s new o state).config o.id = some state := by
  simp [config, added, hid]

/-- The new output is looked at, unless it is a fallback for other outputs. -/
theorem added_skipped_new (h : s.Good) (hid : o.id = s.nextId) (hfits : new.isFallback = true → s.outputs = []) :
    (added s new o state).skipped o.id = false := by
  cases hfallback : new.isFallback with
  | false =>
    have hne : (added s new o state).fallback ≠ some s.nextId := added_fallback_ne h hfallback
    rw [skipped, hid]
    simp [hne]
  | true => simp [skipped, hasActualOutputs, added, hfits hfallback, hfallback, hid]

theorem added_ready (h : s.Good) (hfits : new.isFallback = true → FallbackFits s new) (hid : o.id = s.nextId)
    (hvirtual : o.isVirtual = new.isVirtual) (hpending : o.pendingState = none) : Ready (added s new o state) := by
  refine ⟨added_wf h hid hvirtual hpending, fun c hc => ?_, List.nodup_singleton _, fun p hp _ => ?_, fun p hp => ?_,
    fun hzero => ?_⟩
  · rw [List.mem_singleton.1 hc]
    exact ⟨o, List.mem_cons_self, hid⟩
  · rw [added] at hp
    dsimp only at hp
    split at hp
    next hprimary =>
      obtain rfl := Option.some.inj hp
      refine ⟨⟨o, List.mem_cons_self, hid⟩, fun hf => ?_, Or.inr ⟨_, List.mem_singleton_self _, rfl⟩⟩
      cases hfallback : new.isFallback with
      | false => exact absurd hf (added_fallback_ne h hfallback)
      | true =>
        rw [(hfits hfallback).notPrimary] at hprimary
        cases hprimary
    · cases hp
  · obtain ⟨q, hq, hqp, hqon⟩ := h.primaryOn p hp
    exact ⟨q, List.mem_cons_of_mem _ hq, hqp, hqon⟩
  · have hfound (hfirst : new.isFallback = true → s.outputs = []) : (added s new o state).check.pendingConfig.isSome :=
      found_of_looked List.mem_cons_self (added_skipped_new h hid hfirst) (by rw [added_config_new hid]; rfl) hzero
    cases hfallback : new.isFallback with
    | false => exact hfound (by simp [hfallback])
    | true =>
      rcases (hfits hfallback).origin with hnil | ⟨a, ha, horigin⟩
      · exact hfound fun _ => hnil
      · have hzero' := not_needZeroCoord (s := added s new o state) (List.mem_cons_of_mem _ ha)
          (added_skipped_old h hfallback ha) (added_config_old h ha) horigin
        rw [hzero'] at hzero
        cases hzero

/-- Some output will be enabled when the fallback has been added. -/
theorem added_candidate (h : s.Good) (hfits : FallbackFits s new) (hfallback : new.isFallback = true)
    (hid : o.id = s.nextId) (henabled : state.enabled = true) :
    ∃ p ∈ (added s new o state).outputs, (added s new o state).Candidate p := by
  rcases hfits.origin with hnil | ⟨a, ha, hon, -⟩
  · refine ⟨o, List.mem_cons_self, added_skipped_new h hid fun _ => hnil, ?_⟩
    rw [willBeEnabled, added_config_new hid]
    exact henabled
  · refine ⟨a, List.mem_cons_of_mem _ ha, added_skipped_old h hfallback ha, ?_⟩
    rw [willBeEnabled, added_config_old h ha]
    exact hon

/-- A new output leaves a good state, whether it can be enabled or not. -/
theorem outputCreate_good (h : s.Good) (new : NewOutput) (hfits : new.isFallback = true → FallbackFits s new) :
    ∃ s', s.outputCreate backend new = some s' ∧ s'.Good := by
  have hid : (new.output s.nextId).id = s.nextId := rfl
  have henabled : (new.pendingState (new.output s.nextId)).enabled = true := rfl
  obtain ⟨r, hr, hc, hset⟩ := configureOutputs_spec backend (added_ready h hfits hid rfl rfl :
    Ready (added s new (new.output s.nextId) (new.pendingState (new.output s.nextId)))) (by simp [added])
  have hstate : State.outputCreate s backend new =
      ((added s new (new.output s.nextId) (new.pendingState (new.output s.nextId))).configureOutputs backend).map
        fun result => { result.1 with
          outputs := result.1.outputs.map fun o => if o.id = s.nextId then { o with initialized := true } else o } := by
    simp [outputCreate, addPendingState, config, added, h.outputConfigs, h.pendingPrimary]
  rw [hstate, hr, Option.map_some]
  refine ⟨_, rfl, State.Good.mapped ?_ (fun o => ?_) (fun o => ?_) (fun o => ?_) fun o st hst => ?_⟩
  · have hold (hf : s.fallback.isSome) : ∃ id, (added s new (new.output s.nextId)
        (new.pendingState (new.output s.nextId))).On id := by
      obtain ⟨j, o, ho, hj⟩ := h.lit hf
      exact ⟨j, o, List.mem_cons_of_mem _ ho, hj⟩
    have hprimary : r.1.fallback.isSome → r.1.primary.isSome := by
      intro hf
      cases hfallback : new.isFallback with
      | true =>
        exact hset (added_candidate h (hfits hfallback) hfallback hid henabled) fun c hc => by
          rw [List.mem_singleton.1 hc]
          simp [added, hfallback]
      | false =>
        rw [hc.fallback] at hf
        exact hc.primarySet (h.primarySet (by simpa [added, hfallback] using hf))
    refine ⟨hc.wf, hc.outputConfigs, hc.pendingPrimary, fun hf => ?_, hc.primaryOn, hprimary⟩
    obtain ⟨p, hp⟩ := Option.isSome_iff_exists.1 (hprimary hf)
    exact ⟨p, hc.primaryOn p hp⟩
  · split <;> rfl
  · split <;> rfl
  · split <;> rfl
  · split at hst <;> exact hst

/-- The state without an output. -/
theorem removed_wf (h : s.Wf) {id : ℕ} (hf : s.fallback ≠ some id) (primary : Option ℕ) :
    Wf { s with outputs := s.outputs.filter fun o => decide (o.id ≠ id), primary := primary } := by
  have hmem {o : Output} (ho : o ∈ s.outputs.filter fun o => decide (o.id ≠ id)) : o ∈ s.outputs := (List.mem_filter.1 ho).1
  refine ⟨h.nodup.sublist (List.filter_sublist.map _), fun o ho => h.fresh o (hmem ho), fun f hff => ?_,
    fun o ho => h.waiting o (hmem ho)⟩
  obtain ⟨o, ho, rfl, hv⟩ := h.fallback f hff
  refine ⟨o, List.mem_filter.2 ⟨ho, decide_eq_true fun heq => ?_⟩, rfl, hv⟩
  exact hf (hff.trans (congrArg some heq))

/-- An output that goes leaves a good state: when it was the last enabled one, the fallback stands in. -/
theorem fallbackStandsIn_good (h : s.Wf) (hconfigs : s.outputConfigs = []) (hpending : s.pendingPrimary = none)
    (hprimaryOn : ∀ p, s.primary = some p → s.On p)
    (hprimarySet : s.fallback.isSome → s.hasEnabledOutputs = true → s.primary.isSome)
    (mirror : OutputState) : (s.fallbackStandsIn backend mirror).Good := by
  rw [fallbackStandsIn]
  split
  next hstands =>
    rw [Bool.and_eq_true, Bool.not_eq_true'] at hstands
    obtain ⟨f, hf⟩ := Option.isSome_iff_exists.1 hstands.1
    obtain ⟨hsame, hwf, hon, -⟩ := fallbackSetState_on backend h hf (some mirror)
    refine ⟨hwf.withPrimary _ _ _, hsame.outputConfigs.trans hconfigs, hsame.pendingPrimary.trans hpending,
      fun _ => ⟨f, hon⟩, fun p hp => ?_, fun _ => hstands.1⟩
    obtain rfl := Option.some.inj (hf.symm.trans hp)
    exact hon
  next hstays =>
    rw [Bool.and_eq_true, not_and, Bool.not_eq_true', Bool.not_eq_false] at hstays
    refine ⟨h, hconfigs, hpending, fun hf => ?_, hprimaryOn, fun hf => hprimarySet hf (hstays hf)⟩
    obtain ⟨id, hon, -⟩ := hasEnabledOutputs_iff.1 (hstays hf)
    exact ⟨id, hon⟩

theorem outputDestroy_good (h : s.Good) (id : ℕ) : ∃ s', s.outputDestroy backend id = some s' ∧ s'.Good := by
  rw [outputDestroy]
  split
  · exact ⟨s, rfl, h⟩
  next o ho =>
    split
    · exact ⟨s, rfl, h⟩
    next hf =>
      -- without a layout there is nothing to configure
      have hconfigure (primary : Option ℕ) :
          State.configureOutputs
              { s with outputs := s.outputs.filter fun o => decide (o.id ≠ id), primary := primary } backend =
            some ({ s with outputs := s.outputs.filter fun o => decide (o.id ≠ id), primary := primary }, false) := by
        rw [configureOutputs, if_pos (by rw [h.outputConfigs]; rfl)]
      dsimp only
      split
      · rw [h.outputConfigs, if_pos List.isEmpty_nil]
        rw [← h.outputConfigs, hconfigure, Option.map_some]
        refine ⟨_, rfl, fallbackStandsIn_good (removed_wf h.wf hf _) h.outputConfigs h.pendingPrimary (fun p hp => ?_)
          (fun hfallback henabled => ?_) o.state⟩
        · obtain ⟨q, hq, rfl⟩ := Option.map_eq_some_iff.1 hp
          obtain ⟨hq, hon⟩ := List.mem_filter.1 (List.mem_of_getLast? hq)
          exact ⟨q, hq, rfl, hon⟩
        · obtain ⟨_, ⟨q, hq, rfl, hon⟩, -⟩ := hasEnabledOutputs_iff.1 henabled
          rw [Option.isSome_map, List.getLast?_isSome]
          exact List.ne_nil_of_mem (List.mem_filter.2 ⟨hq, hon⟩)
      next hprimary =>
        rw [hconfigure, Option.map_some]
        refine ⟨_, rfl, fallbackStandsIn_good (removed_wf h.wf hf _) h.outputConfigs h.pendingPrimary (fun p hp => ?_)
          (fun hfallback henabled => ?_) o.state⟩
        · obtain ⟨q, hq, rfl, hon⟩ := h.primaryOn p hp
          refine ⟨q, List.mem_filter.2 ⟨hq, decide_eq_true fun heq => ?_⟩, rfl, hon⟩
          exact hprimary (hp.trans (congrArg some heq))
        · exact h.primarySet hfallback

/-! ### Clients -/

/-- What a client has to ask for: a head of an output that is looked at, and a primary output that can stay, unless
its head disables it. -/
structure Asks (s : State) (heads : List (ℕ × OutputState)) (p : ℕ) : Prop where
  looked : ∃ head ∈ heads, s.Has head.1 ∧ s.skipped head.1 = false
  primary : (∀ c ∈ (s.addHeads heads).outputConfigs, c.1 = p → c.2.enabled = true) →
    s.Has p ∧ (s.fallback = some p → s.hasActualOutputs = false) ∧ (s.On p ∨ p ∈ heads.map Prod.fst)

/-- The configurations that are left of the heads. -/
theorem addHeads_good (h : s.Good) (heads : List (ℕ × OutputState)) :
    ∃ configs, s.addHeads heads = { s with outputConfigs := configs } ∧ (configs.map Prod.fst).Nodup ∧
      ∀ key, key ∈ configs.map Prod.fst ↔ key ∈ heads.map Prod.fst ∧ s.Has key := by
  obtain ⟨configs, heq, hnodup, hkeys⟩ := addHeads_spec heads (s := s) (by rw [h.outputConfigs]; exact List.nodup_nil)
  refine ⟨configs, heq, hnodup, fun key => ?_⟩
  rw [hkeys, h.outputConfigs]
  simp

theorem asks_good (h : s.Good) {heads : List (ℕ × OutputState)} {p : ℕ} (hasks : Asks s heads p) :
    ∃ r, State.configureOutputs { s.addHeads heads with pendingPrimary := some p } backend = some r ∧ r.1.Good := by
  obtain ⟨configs, heq, hnodup, hkey⟩ := addHeads_good h heads
  have hprimary := hasks.primary
  rw [heq] at hprimary ⊢
  refine Fair.good _ h hnodup ⟨fun c hc => ((hkey c.1).1 (List.mem_map_of_mem hc)).2, ?_, fun q hq hstays => ?_⟩
  · obtain ⟨head, hhead, hhas, hlooked⟩ := hasks.looked
    obtain ⟨c, hc, hid⟩ := List.mem_map.1 ((hkey head.1).2 ⟨List.mem_map_of_mem hhead, hhas⟩)
    exact ⟨c, hc, hid ▸ hlooked⟩
  · obtain rfl := Option.some.inj hq
    obtain ⟨hhas, hactual, hon⟩ := hprimary hstays
    exact ⟨hhas, hactual, hon.imp_right fun hmem => List.mem_map.1 ((hkey p).2 ⟨hmem, hhas⟩)⟩

variable (backend) in
theorem wlrApply_good (h : s.Good) (heads : List (ℕ × OutputState)) (hasks : ∀ p, s.primary = some p → Asks s heads p) :
    ∃ r, s.wlrApply backend heads = some r ∧ r.1.Good := by
  rw [wlrApply]
  split
  · exact refused_good h
  next hsome =>
    rw [not_or, Option.isNone_iff_eq_none] at hsome
    obtain ⟨p, hp⟩ := Option.ne_none_iff_exists'.1 hsome.2
    rw [hp]
    exact asks_good h (hasks p hp)

theorem kdeApply_good (h : s.Good) {heads : List (ℕ × OutputState)} {p : ℕ} (hasks : s.primary.isSome → Asks s heads p) :
    ∃ r, s.kdeApply backend heads p = some r ∧ r.1.Good := by
  rw [kdeApply]
  split
  · exact refused_good h
  next hsome =>
    rw [not_or, Option.isNone_iff_eq_none] at hsome
    exact asks_good h (hasks (Option.isSome_iff_ne_none.2 hsome.2))

/-! ### Runs -/

/-- What an event has to bring along: a fallback comes in time, and clients ask for a primary output that can stay.
Nothing is asked of requests over D-Bus, of what the backend answers, and of outputs that come, go or wait. -/
def Fits (s : State) : Event × Backend → Prop
  | (.create new, _) => new.isFallback = true → FallbackFits s new
  | (.wlrApply heads, _) => ∀ p, s.primary = some p → Asks s heads p
  | (.kdeApply heads p, _) => s.primary.isSome → Asks s heads p
  | _ => True

theorem step_good (h : s.Good) {e : Event × Backend} (hfits : Fits s e) : ∃ s', step s e = some s' ∧ s'.Good := by
  obtain ⟨e, backend⟩ := e
  have hreply {r : Option (State × Bool)} (hr : ∃ r', r = some r' ∧ r'.1.Good) :
      ∃ s', r.map Prod.fst = some s' ∧ s'.Good := by
    obtain ⟨r', rfl, hgood⟩ := hr
    exact ⟨r'.1, rfl, hgood⟩
  cases e with
  | create new => exact outputCreate_good h new hfits
  | destroy id => exact outputDestroy_good h id
  | change id state => exact ⟨_, rfl, changeState_good h id state⟩
  | present id => exact ⟨_, rfl, handlePresent_good h id⟩
  | frame id => exact ⟨_, rfl, forgetPending_good h id⟩
  | wlrApply heads => exact hreply (wlrApply_good _ h heads hfits)
  | kdeApply heads p => exact hreply (kdeApply_good h hfits)
  | dbus request => exact hreply (request_good h request)

end FlakeWm.OutputManager
