import FlakeWm.OutputManager.Configure

/-! What `output_manager_configure_outputs` accepts and what it leaves (`src/output/output.c`).

    A configuration is accepted when some output stays enabled or gets enabled; such an output becomes the primary one
    when the old one cannot stay. Wherever a commit fails after that, some output is enabled, and so is the primary
    one. -/

namespace FlakeWm.OutputManager.State

variable {s s' : State} {backend : Backend} {p : ℕ}

/-! ### Applying -/

/-- An output that can be the primary one: it is or gets enabled, and it is not a fallback that will be disabled. -/
structure Chosen (s : State) (p : ℕ) : Prop where
  has : s.Has p
  actual : s.fallback = some p → s.hasActualOutputs = false
  stays : ∀ c ∈ s.outputConfigs, c.1 = p → c.2.enabled = true
  on : s.On p ∨ ∃ c ∈ s.outputConfigs, c.1 = p

/-- What is left of the state when outputs have been configured. -/
structure Configured (s s' : State) : Prop where
  has : ∀ id, s'.Has id ↔ s.Has id
  nextId : s'.nextId = s.nextId
  fallback : s'.fallback = s.fallback
  pendingPrimary : s'.pendingPrimary = none
  outputConfigs : s'.outputConfigs = []
  wf : s'.Wf
  primaryOn : ∀ p, s'.primary = some p → s'.On p
  primarySet : s.primary.isSome → s'.primary.isSome
  lit : (∃ id, s.On id) → ∃ id, s'.On id

theorem Wf.withPrimary (h : s.Wf) (primary pendingPrimary : Option ℕ) (outputConfigs : List (ℕ × OutputState)) :
    Wf { s with primary := primary, pendingPrimary := pendingPrimary, outputConfigs := outputConfigs } :=
  ⟨h.nodup, h.fresh, h.fallback, h.waiting⟩

/-- The end, with the primary output as it was. -/
theorem Configured.of_same (h : Same s s') (hwf : s'.Wf) (hprimaryOn : ∀ p, s'.primary = some p → s'.On p)
    (hlit : (∃ id, s.On id) → ∃ id, s'.On id) : Configured s s'.cleared :=
  ⟨h.has, h.nextId, h.fallback, rfl, rfl, hwf.withPrimary _ _ _, hprimaryOn,
    fun hset => (congrArg Option.isSome h.primary).trans hset, hlit⟩

/-- The end, with a primary output that is enabled. -/
theorem Configured.of_switched (h : Same s s') (hwf : s'.Wf) (hp : s'.primary = some p) (hon : s'.On p) :
    Configured s s'.cleared :=
  .of_same h hwf (fun q hq => by
    obtain rfl := Option.some.inj (hp.symm.trans hq)
    exact hon) fun _ => ⟨p, hon⟩

variable (backend) in
/-- Disabling outputs keeps the primary one, which is none of them. -/
theorem disableOutputs_spec (h : s.Wf) (hp : s.primary = some p) (hon : s.On p)
    (hactual : s.fallback = some p → s.hasActualOutputs = false)
    (hstays : ∀ c ∈ s.outputConfigs, c.1 = p → c.2.enabled = true) :
    Configured s (s.disableOutputs backend).1 ∧ (s.disableOutputs backend).1.primary = some p := by
  obtain ⟨hsame, hwf, hkeeps⟩ := setStates_spec backend (s.outputConfigs.filter fun c => !c.2.enabled) h
  have hon' := hkeeps p (fun c hc => hstays c (List.mem_filter.1 hc).1) hon
  have hp' := hsame.primary.trans hp
  rw [disableOutputs]
  split
  · split
    next henabled =>
      obtain ⟨hsame', hwf', hkeeps'⟩ := fallbackSetState_off backend hwf none
      refine ⟨.of_switched (hsame.trans hsame') hwf' (hsame'.primary.trans hp') (hkeeps' p (fun hf => ?_) hon'),
        hsame'.primary.trans hp'⟩
      -- an actual output is enabled, so the fallback is not the primary output
      obtain ⟨id, hid, hne⟩ := hasEnabledOutputs_iff.1 henabled
      have hactual' := hactual (hsame.fallback.symm.trans hf)
      rw [← hsame.hasActualOutputs, Bool.eq_false_iff] at hactual'
      exact hactual' (hasActualOutputs_iff.2 ⟨id, hid.has, hne⟩)
    · exact ⟨.of_switched hsame hwf hp' hon', hp'⟩
  · exact ⟨.of_switched hsame hwf hp' hon', hp'⟩

variable (backend) in
/-- An output that stays or gets enabled is enabled when no commit has failed. -/
theorem Chosen.enabled (hchosen : Chosen s p) (h : s.Wf)
    (hok : (s.setStates backend (s.outputConfigs.filter fun c => c.2.enabled)).2 = true) :
    (s.setStates backend (s.outputConfigs.filter fun c => c.2.enabled)).1.On p := by
  have henabled : ∀ c ∈ s.outputConfigs.filter (fun c => c.2.enabled), c.2.enabled = true :=
    fun c hc => (List.mem_filter.1 hc).2
  rcases hchosen.on with hon | ⟨c, hc, rfl⟩
  · exact (setStates_spec _ _ h).2.2 p (fun c hc _ => henabled c hc) hon
  · exact setStates_enables _ h henabled hok c (List.mem_filter.2 ⟨hc, hchosen.stays c hc rfl⟩) hchosen.has

variable (backend) in
theorem applyConfigs_spec (h : s.Wf) (hp : s.pendingPrimary = some p) (hchosen : Chosen s p)
    (hprimary : ∀ q, s.primary = some q → s.On q) :
    Configured s (s.applyConfigs backend).1 ∧
      ((s.setStates backend (s.outputConfigs.filter fun c => c.2.enabled)).2 = true →
        (s.applyConfigs backend).1.primary = some p) := by
  have henabled : ∀ c ∈ s.outputConfigs.filter (fun c => c.2.enabled), c.2.enabled = true :=
    fun c hc => (List.mem_filter.1 hc).2
  obtain ⟨hsame, hwf, hkeeps⟩ := setStates_spec backend (s.outputConfigs.filter fun c => c.2.enabled) h
  have hchosenOn := hchosen.enabled backend h
  have hstay {q : ℕ} (hq : s.On q) : (s.setStates backend (s.outputConfigs.filter fun c => c.2.enabled)).1.On q :=
    hkeeps q (fun c hc _ => henabled c hc) hq
  rw [applyConfigs]
  generalize s.setStates backend (s.outputConfigs.filter fun c => c.2.enabled) = result at hsame hwf hchosenOn hstay ⊢
  split
  next hok =>
    have hon := hchosenOn hok
    obtain ⟨hconfigured, hswitched⟩ := disableOutputs_spec backend
      (s := { result.1 with primary := result.1.pendingPrimary }) (hwf.withPrimary _ _ _) (hsame.pendingPrimary.trans hp) hon
      (fun hf => hsame.hasActualOutputs.trans (hchosen.actual (hsame.fallback.symm.trans hf)))
      (fun c hc => hchosen.stays c (hsame.outputConfigs ▸ hc))
    refine ⟨?_, fun _ => hswitched⟩
    exact
      { has := fun id => (hconfigured.has id).trans (hsame.has id)
        nextId := hconfigured.nextId.trans hsame.nextId
        fallback := hconfigured.fallback.trans hsame.fallback
        pendingPrimary := hconfigured.pendingPrimary
        outputConfigs := hconfigured.outputConfigs
        wf := hconfigured.wf
        primaryOn := hconfigured.primaryOn
        primarySet := fun _ => by rw [hswitched]; rfl
        lit := fun _ => hconfigured.lit ⟨p, hon⟩ }
  next hfails =>
    refine ⟨.of_same hsame hwf (fun q hq => ?_) ?_, fun hok => absurd hok hfails⟩
    · exact hstay (hprimary q (hsame.primary.symm.trans hq))
    · rintro ⟨q, hq⟩
      exact ⟨q, hstay hq⟩

/-- An output that is or will be enabled, when the configurations are applied. -/
def willBeEnabled (s : State) (o : Output) : Bool := ((s.config o.id).getD o.state).enabled

/-- An output that is not passed over and is or will be enabled. -/
def Candidate (s : State) (o : Output) : Prop := s.skipped o.id = false ∧ s.willBeEnabled o = true

/-- The first candidate becomes the primary output, when one is to be chosen. -/
theorem checkOutputs_primary : ∀ (outputs : List Output) (v : Check),
    (v.needFixPrimaryOutput = true → v.haveEnabledOutput = false) →
    (v.needFixPrimaryOutput = false → (s.checkOutputs outputs v).pendingPrimary = v.pendingPrimary) ∧
    (v.needFixPrimaryOutput = true → (s.checkOutputs outputs v).haveEnabledOutput = true →
      ∃ o ∈ outputs, s.Candidate o ∧ (s.checkOutputs outputs v).pendingPrimary = some o.id)
  | [], v, h => by
      refine ⟨fun _ => rfl, fun hfix henabled => ?_⟩
      rw [checkOutputs, h hfix] at henabled
      cases henabled
  | o :: outputs, v, h => by
      rw [checkOutputs]
      cases hskipped : s.skipped o.id with
      | true =>
        rw [if_pos rfl]
        obtain ⟨hkept, hfixed⟩ := checkOutputs_primary outputs v h
        refine ⟨hkept, fun hfix henabled => ?_⟩
        obtain ⟨p, hp, hcandidate⟩ := hfixed hfix henabled
        exact ⟨p, List.mem_cons_of_mem _ hp, hcandidate⟩
      | false =>
        rw [if_neg Bool.false_ne_true]
        dsimp only
        have hnext : (v.next (s.config o.id) o).needFixPrimaryOutput = true →
            (v.next (s.config o.id) o).haveEnabledOutput = false := by
          rw [Check.next]
          cases v.needFixPrimaryOutput <;> simp
        obtain ⟨hkept, hfixed⟩ := checkOutputs_primary outputs (v.next (s.config o.id) o) hnext
        cases hfix : v.needFixPrimaryOutput with
        | false =>
          have hnofix : (v.next (s.config o.id) o).needFixPrimaryOutput = false := by simp [Check.next, hfix]
          have hsame : (v.next (s.config o.id) o).pendingPrimary = v.pendingPrimary := by simp [Check.next, hfix]
          refine ⟨fun _ => ?_, nofun⟩
          split
          · exact hsame
          · exact (hkept hnofix).trans hsame
        | true =>
          refine ⟨nofun, fun _ henabled => ?_⟩
          have hstart := h hfix
          cases hwill : s.willBeEnabled o with
          | true =>
            have hnofix : (v.next (s.config o.id) o).needFixPrimaryOutput = false := by
              rw [willBeEnabled] at hwill
              simp [Check.next, hwill]
            have hchosen : (v.next (s.config o.id) o).pendingPrimary = some o.id := by
              rw [willBeEnabled] at hwill
              simp [Check.next, hwill, hfix]
            refine ⟨o, List.mem_cons_self, ⟨hskipped, hwill⟩, ?_⟩
            split
            · exact hchosen
            · exact (hkept hnofix).trans hchosen
          | false =>
            have hfix' : (v.next (s.config o.id) o).needFixPrimaryOutput = true := by
              rw [willBeEnabled] at hwill
              simp [Check.next, hwill, hfix, hstart]
            rw [hnext hfix', Bool.false_and, if_neg Bool.false_ne_true] at henabled ⊢
            obtain ⟨p, hp, hcandidate⟩ := hfixed hfix' henabled
            exact ⟨p, List.mem_cons_of_mem _ hp, hcandidate⟩

/-- What has been found is not lost again. -/
theorem checkOutputs_mono : ∀ (outputs : List Output) (v : Check),
    (v.haveEnabledOutput = true → (s.checkOutputs outputs v).haveEnabledOutput = true) ∧
    (v.haveZeroCoord = true → (s.checkOutputs outputs v).haveZeroCoord = true) ∧
    (v.pendingConfig.isSome → (s.checkOutputs outputs v).pendingConfig.isSome)
  | [], v => ⟨id, id, id⟩
  | o :: outputs, v => by
      rw [checkOutputs]
      split
      · exact checkOutputs_mono outputs v
      · have hnext : (v.haveEnabledOutput = true → (v.next (s.config o.id) o).haveEnabledOutput = true) ∧
            (v.haveZeroCoord = true → (v.next (s.config o.id) o).haveZeroCoord = true) ∧
            (v.pendingConfig.isSome → (v.next (s.config o.id) o).pendingConfig.isSome) := by
          refine ⟨fun h => by simp [Check.next, h], fun h => by simp [Check.next, h], fun h => ?_⟩
          rw [Check.next]
          dsimp only
          split
          · rfl
          · exact h
        obtain ⟨henabled, hzero, hconfig⟩ := checkOutputs_mono outputs (v.next (s.config o.id) o)
        dsimp only
        split
        · exact hnext
        · exact ⟨henabled ∘ hnext.1, hzero ∘ hnext.2.1, hconfig ∘ hnext.2.2⟩

/-- An enabled output at the origin of the layout. -/
def AtOrigin (o : Output) : Prop := o.state.enabled = true ∧ o.state.lx = 0 ∧ o.state.ly = 0

/-- A candidate is found, and so is one at the origin, and a configuration of an output that is not passed over. -/
theorem checkOutputs_found : ∀ (outputs : List Output) (v : Check),
    (∀ o ∈ outputs, s.Candidate o → (s.checkOutputs outputs v).haveEnabledOutput = true) ∧
    (∀ o ∈ outputs, s.skipped o.id = false → (s.config o.id).isSome →
      (s.checkOutputs outputs v).haveZeroCoord = false → (s.checkOutputs outputs v).pendingConfig.isSome) ∧
    (∀ o ∈ outputs, s.skipped o.id = false → s.config o.id = none → AtOrigin o →
      (s.checkOutputs outputs v).haveZeroCoord = true)
  | [], v =>
      ⟨fun _ ho => (List.not_mem_nil ho).elim, fun _ ho => (List.not_mem_nil ho).elim,
        fun _ ho => (List.not_mem_nil ho).elim⟩
  | o :: outputs, v => by
      obtain ⟨hcandidates, hconfigs, horigins⟩ := checkOutputs_found outputs v
      obtain ⟨hcandidates', hconfigs', horigins'⟩ := checkOutputs_found outputs (v.next (s.config o.id) o)
      obtain ⟨henabled, hzeros, hconfig⟩ := checkOutputs_mono (s := s) outputs (v.next (s.config o.id) o)
      rw [checkOutputs]
      split
      next hskipped =>
        refine ⟨fun p hp hcandidate => ?_, fun p hp hp' hpc hzero => ?_, fun p hp hp' hpc horigin => ?_⟩
        · rcases List.mem_cons.1 hp with rfl | hp
          · rw [hcandidate.1] at hskipped
            cases hskipped
          · exact hcandidates p hp hcandidate
        · rcases List.mem_cons.1 hp with rfl | hp
          · rw [hp'] at hskipped
            cases hskipped
          · exact hconfigs p hp hp' hpc hzero
        · rcases List.mem_cons.1 hp with rfl | hp
          · rw [hp'] at hskipped
            cases hskipped
          · exact horigins p hp hp' hpc horigin
      · dsimp only
        split
        next hstop =>
          rw [Bool.and_eq_true] at hstop
          refine ⟨fun _ _ _ => hstop.1, fun _ _ _ _ hzero => ?_, fun _ _ _ _ _ => hstop.2⟩
          rw [hstop.2] at hzero
          cases hzero
        · refine ⟨?_, ?_, ?_⟩
          · intro p hp hcandidate
            rcases List.mem_cons.1 hp with rfl | hp
            · refine henabled ?_
              have hwill := hcandidate.2
              rw [willBeEnabled] at hwill
              simp [Check.next, hwill]
            · exact hcandidates' p hp hcandidate
          · intro p hp hp' hpc hzero
            rcases List.mem_cons.1 hp with rfl | hp
            · refine hconfig ?_
              rw [Check.next]
              dsimp only
              rw [if_pos hpc]
              rfl
            · exact hconfigs' p hp hp' hpc hzero
          · intro p hp hp' hpc horigin
            rcases List.mem_cons.1 hp with rfl | hp
            · obtain ⟨hon, hx, hy⟩ := horigin
              exact hzeros (by simp [Check.next, hpc, hon, hx, hy])
            · exact horigins' p hp hp' hpc horigin

/-! ### Configuring -/

theorem config_eq_some (h : (s.outputConfigs.map Prod.fst).Nodup) {id : ℕ} {state : OutputState} :
    s.config id = some state ↔ (id, state) ∈ s.outputConfigs := by
  rw [config, Option.map_eq_some_iff]
  constructor
  · rintro ⟨c, hc, rfl⟩
    have hid := List.find?_some hc
    rw [decide_eq_true_eq] at hid
    subst hid
    exact List.mem_of_find?_eq_some hc
  · intro hmem
    cases hfind : s.outputConfigs.find? fun c => decide (c.1 = id) with
    | none => simpa using List.find?_eq_none.1 hfind _ hmem
    | some c =>
      have hid := List.find?_some hfind
      rw [decide_eq_true_eq] at hid
      have heq := List.inj_on_of_nodup_map h (List.mem_of_find?_eq_some hfind) hmem hid
      exact ⟨c, rfl, by rw [heq]⟩

theorem config_eq_none {id : ℕ} : s.config id = none ↔ ∀ c ∈ s.outputConfigs, c.1 ≠ id := by
  rw [config, Option.map_eq_none_iff, List.find?_eq_none]
  simp

/-- When the coordinates are to be moved to zero, there is a configuration to move. -/
theorem found_of_looked {o : Output} (ho : o ∈ s.outputs) (hlooked : s.skipped o.id = false)
    (hconfig : (s.config o.id).isSome) (hzero : s.needZeroCoord = true) : s.check.pendingConfig.isSome := by
  rw [needZeroCoord, Bool.and_eq_true, Bool.not_eq_true'] at hzero
  exact (checkOutputs_found s.outputs _).2.1 o ho hlooked hconfig hzero.1

/-- The coordinates stay when an output is at the origin. -/
theorem not_needZeroCoord {o : Output} (ho : o ∈ s.outputs) (hlooked : s.skipped o.id = false)
    (hconfig : s.config o.id = none) (horigin : AtOrigin o) : s.needZeroCoord = false := by
  have hzero : s.check.haveZeroCoord = true := (checkOutputs_found s.outputs _).2.2 o ho hlooked hconfig horigin
  rw [needZeroCoord, hzero]
  rfl

/-- The state in which a request has left its configurations. -/
structure Ready (s : State) : Prop where
  wf : s.Wf
  configs : ∀ c ∈ s.outputConfigs, s.Has c.1
  keys : (s.outputConfigs.map Prod.fst).Nodup
  requested : ∀ p, s.pendingPrimary = some p → (∀ c ∈ s.outputConfigs, c.1 = p → c.2.enabled = true) →
    s.Has p ∧ (s.fallback = some p → s.hasActualOutputs = false) ∧ (s.On p ∨ ∃ c ∈ s.outputConfigs, c.1 = p)
  primaryOn : ∀ p, s.primary = some p → s.On p
  found : s.needZeroCoord = true → s.check.pendingConfig.isSome

/-- A candidate can be the primary output. -/
theorem Candidate.chosen (hkeys : (s.outputConfigs.map Prod.fst).Nodup) {o : Output} (ho : o ∈ s.outputs) (hcandidate : s.Candidate o) : Chosen s o.id := by
  obtain ⟨hskipped, hwill⟩ := hcandidate
  rw [willBeEnabled] at hwill
  refine ⟨⟨o, ho, rfl⟩, fun hf => ?_, fun c hc hid => ?_, ?_⟩
  · simpa [skipped, hf] using hskipped
  · have hconfig : s.config o.id = some c.2 := (config_eq_some hkeys).2 (hid ▸ hc)
    rwa [hconfig] at hwill
  · cases hconfig : s.config o.id with
    | none =>
      rw [hconfig] at hwill
      exact Or.inl ⟨o, ho, rfl, hwill⟩
    | some state => exact Or.inr ⟨(o.id, state), (config_eq_some hkeys).1 hconfig, rfl⟩

/-- The primary output that an accepted configuration switches to. -/
theorem check_chosen (h : Ready s) (haccepted : s.check.haveEnabledOutput = true) :
    ∃ p, s.check.pendingPrimary = some p ∧ Chosen s p := by
  rw [check] at haccepted ⊢
  generalize hdisabled : (s.outputConfigs.find? fun c => decide (s.inheritedPrimary = some c.1) && !c.2.enabled) = disabled
    at haccepted ⊢
  generalize hv : ({ needFixPrimaryOutput := s.inheritedPrimary.isNone || disabled.isSome
                     pendingPrimary := s.inheritedPrimary
                     pendingConfig := disabled.map Prod.fst } : Check) = v at haccepted ⊢
  obtain ⟨hkept, hfixed⟩ := checkOutputs_primary (s := s) s.outputs v (fun _ => by rw [← hv])
  cases hfix : v.needFixPrimaryOutput with
  | true =>
    obtain ⟨o, ho, hcandidate, hprimary⟩ := hfixed hfix haccepted
    exact ⟨o.id, hprimary, hcandidate.chosen h.keys ho⟩
  | false =>
    rw [hkept hfix]
    rw [← hv] at hfix ⊢
    rw [Bool.or_eq_false_iff] at hfix
    obtain ⟨p, hp⟩ := Option.isSome_iff_exists.1 (Option.isNone_eq_false_iff.1 hfix.1)
    refine ⟨p, hp, ?_⟩
    have hstays : ∀ c ∈ s.outputConfigs, c.1 = p → c.2.enabled = true := by
      rw [Option.isSome_eq_false_iff, Option.isNone_iff_eq_none] at hfix
      rw [hfix.2, List.find?_eq_none] at hdisabled
      intro c hc hid
      simpa [hp, hid] using hdisabled c hc
    rw [inheritedPrimary] at hp
    split at hp
    next hinherited =>
      have hon := h.primaryOn p hp
      exact ⟨hon.has, fun hf => absurd (hp.trans hf.symm) hinherited.2.2, hstays, Or.inl hon⟩
    · obtain ⟨hhas, hactual, hon⟩ := h.requested p hp hstays
      exact ⟨hhas, hactual, hstays, hon⟩

theorem mem_atZeroCoord {id : ℕ} {c : ℕ × OutputState} (hc : c ∈ (s.atZeroCoord id).outputConfigs) :
    ∃ d ∈ s.outputConfigs, d.1 = c.1 ∧ d.2.enabled = c.2.enabled := by
  obtain ⟨d, hd, rfl⟩ := List.mem_map.1 hc
  refine ⟨d, hd, ?_⟩
  split
  next heq => exact ⟨heq, rfl⟩
  · exact ⟨rfl, rfl⟩

theorem atZeroCoord_mem {id : ℕ} {d : ℕ × OutputState} (hd : d ∈ s.outputConfigs) :
    ∃ c ∈ (s.atZeroCoord id).outputConfigs, c.1 = d.1 := by
  refine ⟨_, List.mem_map_of_mem hd, ?_⟩
  split
  next heq => exact heq.symm
  · rfl

/-- Moving a configuration to the origin does not change what is chosen. -/
theorem Chosen.atZeroCoord (h : Chosen s p) (id : ℕ) : Chosen (s.atZeroCoord id) p := by
  refine ⟨h.has, h.actual, fun c hc hid => ?_, h.on.imp_right ?_⟩
  · obtain ⟨d, hd, hdc, henabled⟩ := mem_atZeroCoord hc
    rw [← henabled]
    exact h.stays d hd (hdc.trans hid)
  · rintro ⟨d, hd, rfl⟩
    exact atZeroCoord_mem hd

variable (backend) in
/-- The states after the check and before, if something is configured. -/
theorem configureChecked_spec (h : s.Wf) (hprimary : ∀ q, s.primary = some q → s.On q)
    (haveEnabledOutput : Bool)
    (hchosen : haveEnabledOutput = true → ∃ p, s.pendingPrimary = some p ∧ Chosen s p) :
    Configured s (s.configureChecked backend haveEnabledOutput).1 ∧
      (haveEnabledOutput = true → (∀ c ∈ s.outputConfigs, s.fallback = some c.1) →
        (s.configureChecked backend haveEnabledOutput).1.primary.isSome) := by
  rw [configureChecked]
  cases haveEnabledOutput with
  | false => exact ⟨.of_same (Same.refl s) h hprimary fun hlit => hlit, nofun⟩
  | true =>
    obtain ⟨p, hp, hchosen⟩ := hchosen rfl
    rw [if_pos rfl]
    obtain ⟨hconfigured, hswitched⟩ := applyConfigs_spec backend h hp hchosen hprimary
    refine ⟨hconfigured, fun _ hvirtual => ?_⟩
    rw [hswitched (setStates_virtual _ h fun c hc => hvirtual c (List.mem_filter.1 hc).1)]
    rfl

variable (backend) in
/-- Configuring outputs comes to an end, and leaves the primary output enabled. -/
theorem configureOutputs_spec (h : Ready s) (hne : s.outputConfigs ≠ []) :
    ∃ r, s.configureOutputs backend = some r ∧ Configured s r.1 ∧
      ((∃ o ∈ s.outputs, s.Candidate o) → (∀ c ∈ s.outputConfigs, s.fallback = some c.1) → r.1.primary.isSome) := by
  rw [configureOutputs, if_neg (by rwa [List.isEmpty_iff])]
  dsimp only
  have haccepted : (∃ o ∈ s.outputs, s.Candidate o) → s.check.haveEnabledOutput = true := by
    rintro ⟨o, ho, hcandidate⟩
    exact (checkOutputs_found s.outputs _).1 o ho hcandidate
  have hwf := h.wf.withPrimary s.primary s.check.pendingPrimary s.outputConfigs
  have hchosen : s.check.haveEnabledOutput = true →
      ∃ p, s.check.pendingPrimary = some p ∧ Chosen { s with pendingPrimary := s.check.pendingPrimary } p := by
    intro henabled
    obtain ⟨p, hp, hp'⟩ := check_chosen h henabled
    exact ⟨p, hp, hp'.has, hp'.actual, hp'.stays, hp'.on⟩
  split
  next hzero =>
    obtain ⟨id, hid⟩ := Option.isSome_iff_exists.1 (h.found hzero)
    rw [hid, Option.map_some]
    obtain ⟨hc, hset⟩ := configureChecked_spec backend
      (s := { s with pendingPrimary := s.check.pendingPrimary }.atZeroCoord id)
      (hwf.withPrimary _ _ _) h.primaryOn s.check.haveEnabledOutput fun henabled => by
        obtain ⟨p, hp, hp'⟩ := hchosen henabled
        exact ⟨p, hp, hp'.atZeroCoord id⟩
    refine ⟨_, rfl, ⟨hc.has, hc.nextId, hc.fallback, hc.pendingPrimary, hc.outputConfigs, hc.wf, hc.primaryOn,
      hc.primarySet, hc.lit⟩, fun hcandidate hvirtual => hset (haccepted hcandidate) fun c hmem => ?_⟩
    obtain ⟨d, hd, hdc, -⟩ := mem_atZeroCoord hmem
    exact (hvirtual d hd).trans (congrArg some hdc)
  · obtain ⟨hc, hset⟩ := configureChecked_spec backend
      (s := { s with pendingPrimary := s.check.pendingPrimary }) hwf h.primaryOn _ hchosen
    exact ⟨_, rfl, ⟨hc.has, hc.nextId, hc.fallback, hc.pendingPrimary, hc.outputConfigs, hc.wf, hc.primaryOn,
      hc.primarySet, hc.lit⟩, fun hcandidate hvirtual => hset (haccepted hcandidate) hvirtual⟩

end FlakeWm.OutputManager.State
