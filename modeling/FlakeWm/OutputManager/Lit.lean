import FlakeWm.OutputManager.Accept
import FlakeWm.OutputManager.Events
import FlakeWm.Schemes.Exactly

/-! There is always an enabled output to show things on (`src/output/output.c`, `config.c`).

    Once the fallback is there, some output is enabled after every event, and the primary output is one of the enabled
    ones, whichever commits of actual outputs fail. This asks something of clients of the two output management
    protocols alone: the primary output that they name must be able to stay. -/

namespace FlakeWm.OutputManager

open State

variable {s s' : State} {backend : Backend}

/-- Between events nothing is pending, some output is enabled once there is a fallback, and so is the primary one. -/
structure State.Good (s : State) : Prop where
  wf : s.Wf
  outputConfigs : s.outputConfigs = []
  pendingPrimary : s.pendingPrimary = none
  lit : s.fallback.isSome → ∃ id, s.On id
  primaryOn : ∀ p, s.primary = some p → s.On p
  primarySet : s.fallback.isSome → s.primary.isSome

theorem good_init : State.Good {} := by
  refine ⟨⟨List.nodup_nil, ?_, nofun, ?_⟩, rfl, rfl, nofun, nofun, nofun⟩ <;> simp

/-! ### Requests -/

/-- A pending state is added under its key. -/
theorem addPendingState_spec (h : (s.outputConfigs.map Prod.fst).Nodup) (id : ℕ) (state : OutputState) :
    ∃ configs, s.addPendingState id state = { s with outputConfigs := configs } ∧ (configs.map Prod.fst).Nodup ∧
      ∀ key, key ∈ configs.map Prod.fst ↔ key = id ∨ key ∈ s.outputConfigs.map Prod.fst := by
  rw [addPendingState]
  split
  next hsome =>
    have hkeys : (s.outputConfigs.map fun c => if c.1 = id then (id, state) else c).map Prod.fst =
        s.outputConfigs.map Prod.fst := by
      rw [List.map_map]
      refine List.map_congr_left fun c _ => ?_
      rw [Function.comp_apply]
      split
      next heq => exact heq.symm
      · rfl
    refine ⟨_, rfl, hkeys ▸ h, fun key => ?_⟩
    rw [hkeys]
    refine ⟨Or.inr, ?_⟩
    rintro (rfl | hkey)
    · obtain ⟨state', hstate'⟩ := Option.isSome_iff_exists.1 hsome
      exact List.mem_map_of_mem ((config_eq_some h).1 hstate')
    · exact hkey
  next hnone =>
    rw [Bool.not_eq_true, Option.isSome_eq_false_iff, Option.isNone_iff_eq_none, config_eq_none] at hnone
    refine ⟨_, rfl, List.nodup_cons.2 ⟨fun hmem => ?_, h⟩, fun key => List.mem_cons⟩
    obtain ⟨c, hc, hid⟩ := List.mem_map.1 hmem
    exact hnone c hc hid

/-- The loop of a D-Bus request, when every output has a state. -/
theorem addStates_spec : ∀ (states : List (ℕ × Option OutputState)) {s : State},
    (s.outputConfigs.map Prod.fst).Nodup → (∀ x ∈ states, x.2.isSome) →
    ∃ configs, addStates states s = ({ s with outputConfigs := configs }, true) ∧ (configs.map Prod.fst).Nodup ∧
      ∀ key, key ∈ configs.map Prod.fst ↔ key ∈ states.map Prod.fst ∨ key ∈ s.outputConfigs.map Prod.fst
  | [], s, h, _ => ⟨s.outputConfigs, rfl, h, by simp⟩
  | (id, none) :: _, _, _, hsome => absurd (hsome _ List.mem_cons_self) (by simp)
  | (id, some state) :: states, s, h, hsome => by
      obtain ⟨configs, heq, hnodup, hkeys⟩ := addPendingState_spec h id state
      obtain ⟨configs', heq', hnodup', hkeys'⟩ := addStates_spec states (s := { s with outputConfigs := configs }) hnodup
        fun x hx => hsome x (List.mem_cons_of_mem _ hx)
      refine ⟨configs', by rw [addStates, heq, heq'], hnodup', fun key => ?_⟩
      rw [hkeys', hkeys, List.map_cons, List.mem_cons]
      tauto

/-- The heads that a client configures. -/
theorem addHeads_spec : ∀ (heads : List (ℕ × OutputState)) {s : State}, (s.outputConfigs.map Prod.fst).Nodup →
    ∃ configs, addHeads heads s = { s with outputConfigs := configs } ∧ (configs.map Prod.fst).Nodup ∧
      ∀ key, key ∈ configs.map Prod.fst ↔ (key ∈ heads.map Prod.fst ∧ s.Has key) ∨ key ∈ s.outputConfigs.map Prod.fst
  | [], s, h => ⟨s.outputConfigs, rfl, h, by simp⟩
  | head :: heads, s, h => by
      rw [addHeads]
      cases hfind : s.find head.1 with
      | none =>
        obtain ⟨configs, heq, hnodup, hkeys⟩ := addHeads_spec heads h
        refine ⟨configs, heq, hnodup, fun key => ?_⟩
        have hgone := find_eq_none.1 hfind
        rw [hkeys, List.map_cons, List.mem_cons]
        constructor
        · tauto
        · rintro (⟨rfl | hkey, hhas⟩ | hold)
          · exact absurd hhas hgone
          · exact Or.inl ⟨hkey, hhas⟩
          · exact Or.inr hold
      | some o =>
        obtain ⟨configs, heq, hnodup, hkeys⟩ := addPendingState_spec h head.1 head.2
        obtain ⟨configs', heq', hnodup', hkeys'⟩ := addHeads_spec heads (s := { s with outputConfigs := configs }) hnodup
        have hhas : s.Has head.1 := by
          by_contra hgone
          rw [find_eq_none.2 hgone] at hfind
          cases hfind
        refine ⟨configs', by rw [Option.isSome_some, if_pos rfl, heq, heq'], hnodup', fun key => ?_⟩
        have hsame : State.Has { s with outputConfigs := configs } key ↔ s.Has key := Iff.rfl
        rw [hkeys', hkeys, hsame, List.map_cons, List.mem_cons]
        constructor
        · rintro (⟨hkey, hkeyhas⟩ | rfl | hold)
          · exact Or.inl ⟨Or.inr hkey, hkeyhas⟩
          · exact Or.inl ⟨Or.inl rfl, hhas⟩
          · exact Or.inr hold
        · tauto

/-- What a request may ask for: existing outputs, one of them not passed over, and a primary output that can stay,
unless the request disables it. -/
structure Fair (s : State) (configs : List (ℕ × OutputState)) (pendingPrimary : Option ℕ) : Prop where
  has : ∀ c ∈ configs, s.Has c.1
  looked : ∃ c ∈ configs, s.skipped c.1 = false
  primary : ∀ p, pendingPrimary = some p → (∀ c ∈ configs, c.1 = p → c.2.enabled = true) →
    s.Has p ∧ (s.fallback = some p → s.hasActualOutputs = false) ∧ (s.On p ∨ ∃ c ∈ configs, c.1 = p)

theorem Fair.ready (h : s.Good) {configs : List (ℕ × OutputState)} (hnodup : (configs.map Prod.fst).Nodup)
    {pendingPrimary : Option ℕ} (hfair : Fair s configs pendingPrimary) :
    Ready { s with outputConfigs := configs, pendingPrimary := pendingPrimary } := by
  refine ⟨h.wf.withPrimary _ _ _, hfair.has, hnodup, hfair.primary, h.primaryOn, fun hzero => ?_⟩
  obtain ⟨c, hc, hlooked⟩ := hfair.looked
  obtain ⟨o, ho, hid⟩ := hfair.has c hc
  have hconfig : State.config { s with outputConfigs := configs, pendingPrimary := pendingPrimary } o.id = some c.2 :=
    (config_eq_some hnodup).2 (by rw [hid]; exact hc)
  exact found_of_looked ho (hid ▸ hlooked) (by rw [hconfig]; rfl) hzero

variable (backend) in
/-- A fair request leaves a good state. -/
theorem Fair.good (h : s.Good) {configs : List (ℕ × OutputState)} (hnodup : (configs.map Prod.fst).Nodup)
    {pendingPrimary : Option ℕ} (hfair : Fair s configs pendingPrimary) :
    ∃ r, State.configureOutputs { s with outputConfigs := configs, pendingPrimary := pendingPrimary } backend = some r ∧
      r.1.Good := by
  have hne : configs ≠ [] := by
    rintro rfl
    obtain ⟨c, hc, -⟩ := hfair.looked
    cases hc
  obtain ⟨r, hr, hc, -⟩ := configureOutputs_spec backend (hfair.ready h hnodup) hne
  refine ⟨r, hr, hc.wf, hc.outputConfigs, hc.pendingPrimary, fun hf => ?_, hc.primaryOn, fun hf => ?_⟩
  · exact hc.lit (h.lit (hc.fallback ▸ hf))
  · exact hc.primarySet (h.primarySet (hc.fallback ▸ hf))

/-! ### D-Bus -/

/-- A configurable output is an actual one. -/
theorem actual_of_configurable (h : s.Good) {o : Output} (ho : o ∈ s.outputs) (hconfigurable : isConfigurable o = true) :
    s.fallback ≠ some o.id := by
  intro hf
  obtain ⟨p, hp, hid, hvirtual⟩ := h.wf.fallback o.id hf
  obtain rfl := eq_of_id h.wf hp ho hid
  rw [isConfigurable, hvirtual] at hconfigurable
  cases hconfigurable

theorem configurable_eq_some (h : s.Good) {id : ℕ} {o : Output} :
    s.configurable id = some o ↔ (o ∈ s.outputs ∧ o.id = id) ∧ isConfigurable o = true := by
  rw [configurable, Option.filter_eq_some_iff, find_eq_some h.wf]

/-- Every request over D-Bus configures configurable outputs, and makes one of them primary that is or gets enabled. -/
theorem applyStates_good (h : s.Good) {states : List (ℕ × Option OutputState)} {pendingPrimary : Option ℕ}
    (hsome : ∀ x ∈ states, x.2.isSome) (hne : states ≠ [])
    (hconfigurable : ∀ x ∈ states, ∃ o ∈ s.outputs, o.id = x.1 ∧ isConfigurable o = true)
    (hprimary : ∀ p, pendingPrimary = some p →
      (∃ o ∈ s.outputs, o.id = p ∧ isConfigurable o = true) ∧ (s.On p ∨ p ∈ states.map Prod.fst)) :
    ∃ r, s.applyStates backend states pendingPrimary = some r ∧ r.1.Good := by
  obtain ⟨configs, heq, hnodup, hkeys⟩ := addStates_spec states (s := s) (by rw [h.outputConfigs]; exact List.nodup_nil) hsome
  have hkey (key : ℕ) : key ∈ configs.map Prod.fst ↔ key ∈ states.map Prod.fst := by
    rw [hkeys, h.outputConfigs]
    simp
  have hpending : (if pendingPrimary.isSome then pendingPrimary else s.pendingPrimary) = pendingPrimary := by
    cases pendingPrimary with
    | none => exact h.pendingPrimary
    | some p => rfl
  have hactual {id : ℕ} (hid : ∃ o ∈ s.outputs, o.id = id ∧ isConfigurable o = true) :
      s.Has id ∧ s.fallback ≠ some id := by
    obtain ⟨o, ho, rfl, hoc⟩ := hid
    exact ⟨⟨o, ho, rfl⟩, actual_of_configurable h ho hoc⟩
  have hfair : Fair s configs pendingPrimary := by
    refine ⟨fun c hc => ?_, ?_, fun p hp _ => ?_⟩
    · obtain ⟨x, hx, heq⟩ := List.mem_map.1 ((hkey c.1).1 (List.mem_map_of_mem hc))
      exact heq ▸ (hactual (hconfigurable x hx)).1
    · obtain ⟨x, hx⟩ := List.exists_mem_of_ne_nil states hne
      obtain ⟨c, hc, heq⟩ := List.mem_map.1 ((hkey x.1).2 (List.mem_map_of_mem hx))
      refine ⟨c, hc, ?_⟩
      simp [skipped, heq, (hactual (hconfigurable x hx)).2]
    · obtain ⟨hpc, hon⟩ := hprimary p hp
      exact ⟨(hactual hpc).1, fun hf => absurd hf (hactual hpc).2, hon.imp_right fun hmem => List.mem_map.1 ((hkey p).2 hmem)⟩
  obtain ⟨r, hr, hgood⟩ := hfair.good backend h hnodup
  refine ⟨r, ?_, hgood⟩
  rw [applyStates, heq]
  dsimp only
  rw [hpending, hr]

/-- An error is replied before anything is pending. -/
theorem refused_good (h : s.Good) : ∃ r, some (s, false) = some r ∧ r.1.Good := ⟨(s, false), rfl, h⟩

/-- A request about one output. -/
theorem applyState_good (h : s.Good) {id : ℕ} {o : Output} (ho : s.configurable id = some o) (state : Option OutputState)
    {pendingPrimary : Option ℕ} (hprimary : ∀ p, pendingPrimary = some p → p = id) :
    ∃ r, s.applyStates backend [(id, state)] pendingPrimary = some r ∧ r.1.Good := by
  have hoc := (configurable_eq_some h).1 ho
  cases state with
  | none => exact refused_good h
  | some state =>
    refine applyStates_good h (by simp) (by simp) (fun x hx => ?_) fun p hp => ?_
    · rw [List.mem_singleton.1 hx]
      exact ⟨o, hoc.1.1, hoc.1.2, hoc.2⟩
    · obtain rfl := hprimary p hp
      exact ⟨⟨o, hoc.1.1, hoc.1.2, hoc.2⟩, Or.inr (by simp)⟩

/-- An output with modes can be enabled. -/
theorem prepareEnabledState_isSome {o : Output} (h : o.modes.isEmpty = false) : (prepareEnabledState o).isSome := by
  rw [prepareEnabledState]
  dsimp only
  split
  · rfl
  · rw [h]
    rfl

/-- A mode that is found is one of the modes. -/
theorem findOutputMode_isSome {width height : ℤ} : ∀ {modes : List Mode} {best : Option Mode},
    (findOutputMode width height modes best).isSome → modes.isEmpty = false ∨ best.isSome
  | [], _, h => Or.inr h
  | _ :: _, _, _ => Or.inl rfl

/-- The common mode is a mode of every configurable output. -/
theorem largestMode_supported : ∀ (modes : List Mode) (best : ℤ × ℤ × ℤ),
    (best.1 > 0 → s.modeSupportedByAll best.2.1 best.2.2 = true) →
    (s.largestMode modes best).1 > 0 →
      s.modeSupportedByAll (s.largestMode modes best).2.1 (s.largestMode modes best).2.2 = true
  | [], _, h, hbest => h hbest
  | m :: modes, best, h, hbest => by
      rw [largestMode] at hbest ⊢
      refine largestMode_supported modes _ (fun hpos => ?_) hbest
      by_cases hkept : m.width * m.height ≤ best.1 ∨ (!s.modeSupportedByAll m.width m.height) = true
      · rw [if_pos hkept] at hpos ⊢
        exact h hpos
      · rw [if_neg hkept]
        rw [not_or, Bool.not_eq_true, Bool.not_eq_false'] at hkept
        exact hkept.2

theorem findLargestCommonMode_supported {width height : ℤ} (h : s.findLargestCommonMode = some (width, height)) :
    s.modeSupportedByAll width height = true := by
  rw [findLargestCommonMode, Option.bind_eq_some_iff] at h
  obtain ⟨o, -, h⟩ := h
  dsimp only at h
  split at h
  next hpos =>
    have hsupported := largestMode_supported (s := s) o.modes (0, 0, 0) (by simp) hpos
    rw [Option.some.inj h] at hsupported
    exact hsupported
  · cases h

/-- The reference output is configurable. -/
theorem referenceOutput_spec (h : s.Good) {o : Output} (ho : s.referenceOutput = some o) :
    o ∈ s.outputs ∧ isConfigurable o = true := by
  rw [referenceOutput, Option.or_eq_some_iff] at ho
  rcases ho with ho | ⟨-, ho⟩
  · obtain ⟨p, -, hp⟩ := Option.bind_eq_some_iff.1 ho
    obtain ⟨⟨hmem, -⟩, hc⟩ := (configurable_eq_some h).1 hp
    exact ⟨hmem, hc⟩
  · exact ⟨List.mem_of_find?_eq_some ho, List.find?_some ho⟩

theorem setDuplicateMode_good (h : s.Good) : ∃ r, s.setDuplicateMode backend = some r ∧ r.1.Good := by
  rw [setDuplicateMode]
  split
  · exact refused_good h
  · split
    next width height reference hmode hreference =>
      have hsupported := findLargestCommonMode_supported hmode
      obtain ⟨hmem, hc⟩ := referenceOutput_spec h hreference
      have hids (id : ℕ) : id ∈ (((s.outputs.filter isConfigurable).map fun o =>
          (o.id, duplicateState width height reference o)).map Prod.fst) ↔
          ∃ o ∈ s.outputs, o.id = id ∧ isConfigurable o = true := by
        rw [List.map_map]
        simp only [List.mem_map, List.mem_filter, Function.comp_apply]
        constructor
        · rintro ⟨o, ⟨ho, hoc⟩, rfl⟩
          exact ⟨o, ho, rfl, hoc⟩
        · rintro ⟨o, ho, rfl, hoc⟩
          exact ⟨o, ⟨ho, hoc⟩, rfl⟩
      refine applyStates_good h (fun x hx => ?_) (fun hnil => ?_) (fun x hx => ?_) fun p hp => ?_
      · obtain ⟨o, ho, rfl⟩ := List.mem_map.1 hx
        obtain ⟨ho, hoc⟩ := List.mem_filter.1 ho
        rw [modeSupportedByAll, List.all_eq_true] at hsupported
        have hfound : (findOutputMode width height o.modes none).isSome := by simpa [hoc] using hsupported o ho
        have hprepared := prepareEnabledState_isSome (o := o) ((findOutputMode_isSome hfound).resolve_right (by simp))
        rw [duplicateState, Option.isSome_map]
        exact hprepared
      · rw [List.map_eq_nil_iff] at hnil
        exact List.ne_nil_of_mem (List.mem_filter.2 ⟨hmem, hc⟩) hnil
      · exact (hids x.1).1 (List.mem_map_of_mem hx)
      · cases hp
        exact ⟨⟨reference, hmem, rfl, hc⟩, Or.inr ((hids _).2 ⟨reference, hmem, rfl, hc⟩)⟩
    · exact refused_good h

/-- The states in `set_extend_mode` are those of the given outputs. -/
theorem extendStates_spec : ∀ (outputs : List Output) (x : ℤ), (∀ o ∈ outputs, o.modes.isEmpty = false) →
    (extendStates outputs x).map Prod.fst = outputs.map Output.id ∧ ∀ y ∈ extendStates outputs x, y.2.isSome
  | [], _, _ => ⟨rfl, by simp [extendStates]⟩
  | o :: outputs, x, h => by
      obtain ⟨state, hstate⟩ := Option.isSome_iff_exists.1 (prepareEnabledState_isSome (h o List.mem_cons_self))
      obtain ⟨hids, hsome⟩ := extendStates_spec outputs (x + effectiveWidth state) fun p hp => h p (List.mem_cons_of_mem _ hp)
      rw [extendStates, hstate]
      dsimp only
      refine ⟨by rw [List.map_cons, List.map_cons, hids], fun y hy => ?_⟩
      rcases List.mem_cons.1 hy with rfl | hy
      · rfl
      · exact hsome y hy

theorem setExtendMode_good (h : s.Good) : ∃ r, s.setExtendMode backend = some r ∧ r.1.Good := by
  rw [setExtendMode]
  split
  · exact refused_good h
  next hmodes =>
    split
    · exact refused_good h
    next reference hreference =>
      obtain ⟨hmem, hc⟩ := referenceOutput_spec h hreference
      obtain ⟨hids, hsome⟩ := extendStates_spec (s.outputs.filter isConfigurable) 0 fun o ho => by
        obtain ⟨ho, hoc⟩ := List.mem_filter.1 ho
        rw [Bool.not_eq_true, List.any_eq_false] at hmodes
        simpa [hoc] using hmodes o ho
      have hid (id : ℕ) : id ∈ (extendStates (s.outputs.filter isConfigurable) 0).map Prod.fst ↔
          ∃ o ∈ s.outputs, o.id = id ∧ isConfigurable o = true := by
        rw [hids]
        simp only [List.mem_map, List.mem_filter]
        constructor
        · rintro ⟨o, ⟨ho, hoc⟩, rfl⟩
          exact ⟨o, ho, rfl, hoc⟩
        · rintro ⟨o, ho, rfl, hoc⟩
          exact ⟨o, ⟨ho, hoc⟩, rfl⟩
      have hreferenceIn := (hid _).2 ⟨reference, hmem, rfl, hc⟩
      refine applyStates_good h hsome (fun hnil => ?_) (fun x hx => (hid x.1).1 (List.mem_map_of_mem hx)) fun p hp => ?_
      · rw [hnil] at hreferenceIn
        cases hreferenceIn
      · cases hp
        exact ⟨⟨reference, hmem, rfl, hc⟩, Or.inr hreferenceIn⟩

theorem setSingleMode_good (h : s.Good) (id : ℕ) : ∃ r, s.setSingleMode backend id = some r ∧ r.1.Good := by
  rw [setSingleMode]
  split
  · exact refused_good h
  next selected hselected =>
    obtain ⟨⟨hmem, rfl⟩, hc⟩ := (configurable_eq_some h).1 hselected
    split
    · exact refused_good h
    next state hstate =>
      refine applyStates_good h (fun x hx => ?_) (fun hnil => ?_) (fun x hx => ?_) fun p hp => ?_
      · obtain ⟨o, -, rfl⟩ := List.mem_map.1 hx
        rfl
      · rw [List.map_eq_nil_iff] at hnil
        exact List.ne_nil_of_mem (List.mem_filter.2 ⟨hmem, hc⟩) hnil
      · obtain ⟨o, ho, rfl⟩ := List.mem_map.1 hx
        obtain ⟨ho, hoc⟩ := List.mem_filter.1 ho
        exact ⟨o, ho, rfl, hoc⟩
      · cases hp
        refine ⟨⟨selected, hmem, rfl, hc⟩, Or.inr ?_⟩
        rw [List.map_map]
        exact List.mem_map.2 ⟨selected, List.mem_filter.2 ⟨hmem, hc⟩, rfl⟩

theorem setScreenLayout_good (h : s.Good) (layouts : List (ℕ × ℤ × ℤ)) :
    ∃ r, s.setScreenLayout backend layouts = some r ∧ r.1.Good := by
  rw [setScreenLayout]
  split
  · exact refused_good h
  next hsome =>
    split
    next hlayouts =>
      obtain ⟨-, hknown, hlength⟩ := hlayouts
      have hin {l : ℕ × ℤ × ℤ} (hl : l ∈ layouts) : ∃ o ∈ s.outputs, o.id = l.1 ∧ isConfigurable o = true := by
        obtain ⟨o, ho, hid⟩ := List.mem_map.1 (hknown l hl)
        obtain ⟨ho, hoc⟩ := List.mem_filter.1 ho
        rw [Bool.and_eq_true] at hoc
        exact ⟨o, ho, hid, hoc.1⟩
      refine applyStates_good h (fun x hx => ?_) (fun hnil => ?_) (fun x hx => ?_) fun p hp => ?_
      · obtain ⟨l, hl, rfl⟩ := List.mem_map.1 hx
        obtain ⟨o, ho, hid, -⟩ := hin hl
        rw [(find_eq_some h.wf).2 ⟨ho, hid⟩]
        rfl
      · rw [List.map_eq_nil_iff] at hnil
        rw [hnil, List.length_nil, eq_comm, List.length_eq_zero_iff] at hlength
        rw [hlength] at hsome
        exact hsome rfl
      · obtain ⟨l, hl, rfl⟩ := List.mem_map.1 hx
        exact hin hl
      · obtain ⟨o, ho, rfl⟩ := Option.map_eq_some_iff.1 hp
        obtain ⟨ho, hon⟩ := Option.filter_eq_some_iff.1 ho
        obtain ⟨q, -, hq⟩ := Option.bind_eq_some_iff.1 ho
        obtain ⟨⟨hmem, -⟩, hc⟩ := (configurable_eq_some h).1 hq
        exact ⟨⟨o, hmem, rfl, hc⟩, Or.inl ⟨o, hmem, rfl, hon⟩⟩
    · exact refused_good h

/-- Every request over D-Bus is handled and leaves a good state. -/
theorem request_good (h : s.Good) (request : Request) : ∃ r, s.request backend request = some r ∧ r.1.Good := by
  cases request with
  | screenEnabled id enabled =>
    rw [State.request, setScreenEnabled]
    split
    · exact refused_good h
    next o ho => exact applyState_good h ho _ nofun
  | primaryScreen id =>
    rw [State.request, setPrimaryScreen]
    split
    · exact refused_good h
    next o ho =>
      split
      · exact applyState_good h ho _ fun p hp => (Option.some.inj hp).symm
      · exact refused_good h
  | screenPosition id x y =>
    rw [State.request, setScreenPosition]
    split
    · exact refused_good h
    next o ho =>
      split
      · exact applyState_good h ho _ nofun
      · exact refused_good h
  | duplicateMode => exact setDuplicateMode_good h
  | extendMode => exact setExtendMode_good h
  | singleMode id => exact setSingleMode_good h id
  | screenLayout layouts => exact setScreenLayout_good h layouts

end FlakeWm.OutputManager
