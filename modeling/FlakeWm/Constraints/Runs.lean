import FlakeWm.Constraints.Consistency

/-! Pointer constraints over whole runs.

    Every event is one of the operations of `Consistency`, on a state that differs in the focus, in the
    place of a surface or in the position of the cursor. -/

namespace FlakeWm.Constraints

variable {env : Pointing} {s s' : State} {c : Constraint}

/-- The whole invariant. -/
structure Good (s : State) : Prop where
  core : Core s
  focused : Focused s
  safe : s.fault = false
  still : s.slipped = false

theorem Good.consistent (h : Good s) : Consistent s where
  exclusive := h.core.exclusive
  activeLive := h.core.activeLive
  pendingLive := h.core.pendingLive
  setRegion := h.core.setRegion
  surfaceUnmap := h.core.surfaceUnmap
  alternates := h.core.alternates
  focused c hc ha := h.focused c hc (.inl ha)
  safe := h.safe
  still := h.still

/-- What is active or pending was so before. -/
def Shrinks (s s' : State) : Prop :=
  ∀ id, s'.active = some id ∨ s'.pending = some id → s.active = some id ∨ s.pending = some id

theorem Good.of_shrinks (h : Good s) (hcore : Core s') (hframe : Frame s s') (hsub : Shrinks s s') :
    Good s' := by
  refine ⟨hcore, fun c hc hid => ?_, hframe.fault.trans h.safe, hframe.slipped.trans h.still⟩
  obtain ⟨c₀, hc₀, hid₀, hsurface⟩ := hframe.surfaces c hc
  rw [hframe.focus, ← hsurface]
  exact h.focused c₀ hc₀ (hid₀ ▸ hsub c.id hid)

/-- The fields that the invariant reads are the same. -/
theorem Core.congr (h : Core s) (hconstraints : s'.constraints = s.constraints)
    (hactive : s'.active = s.active) (hpending : s'.pending = s.pending) (hsent : s'.sent = s.sent)
    (hnext : s'.next = s.next) (hidle : s'.deactivateIdle = s.deactivateIdle) : Core s' where
  nodup := by rw [hconstraints]; exact h.nodup
  fresh := by rw [hconstraints, hnext]; exact h.fresh
  sentFresh := by rw [hsent, hnext]; exact h.sentFresh
  exclusive := by rw [hactive, hpending]; exact h.exclusive
  activeLive := by rw [hconstraints, hactive]; exact h.activeLive
  pendingLive := by rw [hconstraints, hpending]; exact h.pendingLive
  setRegion := by rw [hconstraints, hactive, hpending]; exact h.setRegion
  surfaceUnmap := by rw [hconstraints, hactive]; exact h.surfaceUnmap
  alternates := by rw [hsent]; exact h.alternates
  last := by rw [hconstraints, hsent, hactive]; exact h.last
  idle := by rw [hidle]; exact h.idle

/-! ### Destroying -/

theorem shrinks_without {id : ℕ} (ha : s'.active = without s.active id)
    (hp : s'.pending = without s.pending id) : Shrinks s s' := by
  intro id' hid'
  rw [ha, hp] at hid'
  exact hid'.imp (fun h => (some_of_without h).1) fun h => (some_of_without h).1

theorem Good.handleDestroy (env : Pointing) (h : Good s) (hfreed : s.freed = false)
    (c : Constraint) : Good (s.handleDestroy env c) ∧ (s.handleDestroy env c).freed = false := by
  obtain ⟨hcore, hframe, ha, hp⟩ := handleDestroy_spec env h.core hfreed c
  exact ⟨h.of_shrinks hcore hframe (shrinks_without ha hp), hframe.freed.trans hfreed⟩

theorem handleDestroy_constraints (env : Pointing) (h : Core s) (hfreed : s.freed = false)
    (c : Constraint) :
    (s.handleDestroy env c).constraints = s.constraints.filter fun c' => c'.id ≠ c.id := by
  obtain ⟨p, heq⟩ := handleDestroy_eq env hfreed h.idle h.exclusive c
  rw [heq]

/-- The constraints of a list are destroyed one after the other. -/
theorem Good.foldl_handleDestroy (env : Pointing) : ∀ (l : List Constraint) {s : State}, Good s →
    s.freed = false → Good (l.foldl (State.handleDestroy env) s) ∧
      ∀ c ∈ (l.foldl (State.handleDestroy env) s).constraints,
        c ∈ s.constraints ∧ ∀ c' ∈ l, c.id ≠ c'.id
  | [], _, h, _ => ⟨h, fun c hc => ⟨hc, fun c' hc' => absurd hc' List.not_mem_nil⟩⟩
  | c :: l, s, h, hfreed => by
      obtain ⟨hgood, hfreed'⟩ := h.handleDestroy env hfreed c
      obtain ⟨hend, hmem⟩ := foldl_handleDestroy env l hgood hfreed'
      refine ⟨hend, fun c' hc' => ?_⟩
      obtain ⟨hin, hne⟩ := hmem c' hc'
      rw [handleDestroy_constraints env h.core hfreed, List.mem_filter, decide_eq_true_iff] at hin
      refine ⟨hin.1, fun c'' hc'' => ?_⟩
      rcases List.mem_cons.1 hc'' with rfl | hc''
      · exact hin.2
      · exact hne c'' hc''

theorem Good.surfaceDestroy (env : Pointing) (h : Good s) (hfreed : s.freed = false) (surface : ℕ)
    (hs : step env s (.surfaceDestroy surface) = some s') : Good s' := by
  rw [step, if_neg (by rw [hfreed]; exact Bool.false_ne_true)] at hs
  cases hs
  obtain ⟨hgood, hmem⟩ :=
    h.foldl_handleDestroy env (s.constraints.filter (·.surface = surface)) hfreed
  refine ⟨hgood.core.congr rfl rfl rfl rfl rfl rfl, fun c hc hid => ?_, hgood.safe, hgood.still⟩
  have hne : c.surface ≠ surface := by
    intro hsurface
    obtain ⟨hin, hgone⟩ := hmem c hc
    exact hgone c (List.mem_filter.2 ⟨hin, by simpa using hsurface⟩) rfl
  have hfocus := hgood.focused c hc hid
  dsimp only
  rw [if_neg]
  · exact hfocus
  · rw [hfocus]
    simpa using hne

/-! ### Focus and creation -/

theorem constraintFor_some {surface : Option ℕ} (h : s.constraintFor surface = some c) :
    c ∈ s.constraints ∧ some c.surface = surface :=
  ⟨List.mem_of_find?_eq_some h, by simpa using List.find?_some h⟩

/-- Setting the constraint of the surface that has the keyboard focus. -/
theorem setConstraint_good (env : Pointing) (h : Core s) (hfreed : s.freed = false)
    (hsafe : s.fault = false) (hstill : s.slipped = false) {new : Option Constraint}
    (hnew : ∀ c ∈ new, c ∈ s.constraints ∧ s.focus = some c.surface) :
    Good (s.setConstraint env new) := by
  obtain ⟨hcore, hframe, honly⟩ := setConstraint_spec env h hfreed fun c hc => (hnew c hc).1
  refine ⟨hcore, fun c hc hid => ?_, hframe.fault.trans hsafe, hframe.slipped.trans hstill⟩
  obtain ⟨c₁, hc₁, hid₁⟩ := Option.map_eq_some_iff.1 (honly c.id hid)
  obtain ⟨c₀, hc₀, hid₀, hsurface⟩ := hframe.surfaces c hc
  obtain ⟨hmem, hfocus⟩ := hnew c₁ hc₁
  have heq := h.eq_of_id hc₀ hmem (hid₀.trans hid₁.symm)
  rw [hframe.focus, hfocus, ← hsurface, heq]

theorem Core.add (h : Core s) (surface : ℕ) (locked oneshot : Bool) (region : Region) :
    Core { s with
      constraints := ⟨s.next, surface, locked, oneshot, region, none, 0, 0⟩ :: s.constraints
      next := s.next + 1 } := by
  have hnew : ∀ o : Option ℕ, (∀ id, o = some id → ∃ c ∈ s.constraints, c.id = id) →
      o ≠ some s.next := by
    intro o ho heq
    obtain ⟨c, hc, hid⟩ := ho s.next heq
    exact Nat.lt_irrefl _ (hid ▸ h.fresh c hc)
  have ha := hnew s.active h.activeLive
  have hp := hnew s.pending h.pendingLive
  constructor
  case nodup =>
    refine List.nodup_cons.2 ⟨fun hid => ?_, h.nodup⟩
    obtain ⟨c, hc, hid⟩ := List.mem_map.1 hid
    exact Nat.lt_irrefl _ (hid ▸ h.fresh c hc)
  case fresh =>
    intro c hc
    rcases List.mem_cons.1 hc with rfl | hc
    · exact Nat.lt_succ_self _
    · exact Nat.lt_succ_of_lt (h.fresh c hc)
  case sentFresh => exact fun q hq => Nat.lt_succ_of_lt (h.sentFresh q hq)
  case exclusive => exact h.exclusive
  case activeLive =>
    intro id hid
    obtain ⟨c, hc, hid⟩ := h.activeLive id hid
    exact ⟨c, List.mem_cons_of_mem _ hc, hid⟩
  case pendingLive =>
    intro id hid
    obtain ⟨c, hc, hid⟩ := h.pendingLive id hid
    exact ⟨c, List.mem_cons_of_mem _ hc, hid⟩
  case setRegion =>
    intro c hc hl
    rcases List.mem_cons.1 hc with rfl | hc
    · simp [ha, hp]
    · exact h.setRegion c hc hl
  case surfaceUnmap =>
    intro c hc
    rcases List.mem_cons.1 hc with rfl | hc
    · simp [ha]
    · exact h.surfaceUnmap c hc
  case alternates => exact h.alternates
  case last =>
    intro c hc
    rcases List.mem_cons.1 hc with rfl | hc
    · simpa [ha] using lastSent_of_fresh h.sentFresh
    · exact h.last c hc
  case idle => exact h.idle

theorem Good.create (env : Pointing) (h : Good s) (hfreed : s.freed = false) {surface : ℕ}
    {locked oneshot : Bool} {region : Region}
    (hs : step env s (.create surface locked oneshot region) = some s') : Good s' := by
  rw [step, if_neg (by rw [hfreed]; exact Bool.false_ne_true)] at hs
  dsimp only at hs
  split at hs
  · cases hs
    exact h
  · cases hs
    have hcore := h.core.add surface locked oneshot region
    split
    · rename_i hfocus
      refine setConstraint_good env hcore hfreed h.safe h.still fun c hc => ?_
      cases hc
      exact ⟨List.mem_cons_self, hfocus⟩
    · rename_i hfocus
      refine ⟨hcore, fun c hc hid => ?_, h.safe, h.still⟩
      rcases List.mem_cons.1 hc with rfl | hc
      · have hold : ∃ c ∈ s.constraints, c.id = s.next :=
          hid.elim (h.core.activeLive s.next) (h.core.pendingLive s.next)
        obtain ⟨c, hc, hid⟩ := hold
        exact absurd (hid ▸ h.core.fresh c hc) (Nat.lt_irrefl _)
      · exact h.focused c hc hid

/-! ### Regions -/

theorem runIdle_of_nil (env : Pointing) (h : s.deactivateIdle = []) : s.runIdle env = s := by
  rw [State.runIdle, h]
  rfl

/-- A postponed deactivation of a oneshot constraint, once its idle callback ran. -/
theorem runIdle_deactivate (env : Pointing) (h : Core s) (ha : s.active = some c.id)
    (hc : c ∈ s.constraints) :
    ∃ p, (s.activeConstraint env none true).runIdle env = State.sendDeactivated env
      { s.modify c.id unlinkBoth with active := none, position := p } c := by
  obtain ⟨p, heq⟩ := activeConstraint_none env h ha hc true
  refine ⟨p, ?_⟩
  rw [heq, if_pos rfl, State.runIdle]
  have hfind : (s.modify c.id unlinkBoth).find c.id = some (unlinkBoth c) := by
    have hmem : unlinkBoth c ∈ (s.modify c.id unlinkBoth).constraints :=
      mem_modify.2 ⟨c, hc, by rw [if_pos rfl]⟩
    cases hf : (s.modify c.id unlinkBoth).find c.id with
    | none =>
      have hne := List.find?_eq_none.1 hf _ hmem
      simp [unlinkBoth] at hne
    | some c' =>
      obtain ⟨hc', hid⟩ := find_some hf
      have hnd : ((s.modify c.id unlinkBoth).constraints.map (·.id)).Nodup := by
        rw [map_id_modify s c.id unlinkBoth fun _ => rfl]
        exact h.nodup
      rw [List.inj_on_of_nodup_map hnd hc' hmem hid]
  simp only [h.idle, List.nil_append, List.foldl_cons, List.foldl_nil, ne_eq, not_true,
    decide_false, List.filter_cons_of_neg, Bool.false_eq_true, not_false_eq_true, List.filter_nil]
  have hfind' : State.find { s.modify c.id unlinkBoth with
      active := none, position := p, deactivateIdle := [] } c.id = some (unlinkBoth c) := hfind
  have hstate : ({ s.modify c.id unlinkBoth with
      active := none, position := p, deactivateIdle := [] } : State) =
      { s.modify c.id unlinkBoth with active := none, position := p } := by
    simp only [State.modify, h.idle]
  rw [hfind', Option.elim_some, hstate]
  rfl

/-- `cursor_constraint_update_region` and the idle callback it may add. -/
theorem updateRegion_good (env : Pointing) (h : Good s) (hfreed : s.freed = false)
    (hc : c ∈ s.constraints) : Good ((s.updateRegion env c).runIdle env) := by
  unfold State.updateRegion
  dsimp only
  split
  · rename_i hin
    have ha : s.active = none := h.core.exclusive.resolve_right (by rw [hin.1]; simp)
    obtain ⟨hcore, hframe, hact, hpend, -⟩ := activate_spec env h.core ha hin.1 hc
    rw [runIdle_of_nil env hcore.idle]
    refine h.of_shrinks hcore hframe fun id hid => .inr ?_
    rw [hact, hpend] at hid
    rw [hin.1]
    simpa using hid
  · split
    · rename_i hout
      by_cases hone : c.oneshot = true
      · rw [if_pos hone, hone]
        obtain ⟨p, heq⟩ := runIdle_deactivate env h.core hout.1 hc
        obtain ⟨hcore, hframe, hact, hpend, -⟩ := told_spec env h.core hfreed hout.1 hc heq
        refine h.of_shrinks hcore hframe fun id hid => ?_
        rw [hact, hpend] at hid
        exact hid.elim (fun hc => by cases hc) .inr
      · simp only [Bool.not_eq_true] at hone
        rw [hone, if_neg Bool.false_ne_true]
        obtain ⟨hcore, hframe, -, -, -⟩ := deactivate_spec env h.core hfreed
        have hfound : ∀ c' ∈ (s.activeConstraint env none false).find c.id,
            c' ∈ (s.activeConstraint env none false).constraints :=
          fun c' hc' => (find_some hc').1
        obtain ⟨hcore', hframe', honly⟩ := setConstraint_spec env hcore
          (hframe.freed.trans hfreed) hfound
        rw [runIdle_of_nil env hcore'.idle]
        refine h.of_shrinks hcore' (hframe.trans hframe') fun id hid => .inl ?_
        obtain ⟨c', hc', rfl⟩ := Option.map_eq_some_iff.1 (honly id hid)
        rw [(find_some hc').2]
        exact hout.1
    · rwa [runIdle_of_nil env h.core.idle]

/-- The region and the hint are not part of the invariant. -/
theorem Good.refresh (h : Good s) (id : ℕ) (f : Constraint → Constraint)
    (hf : ∀ c, (f c).id = c.id ∧ (f c).surface = c.surface ∧ (f c).locked = c.locked ∧
      (f c).setRegion = c.setRegion ∧ (f c).surfaceUnmap = c.surfaceUnmap) :
    Good (s.modify id f) := by
  have hmem : ∀ c ∈ (s.modify id f).constraints, ∃ c₀ ∈ s.constraints, c.id = c₀.id ∧
      c.surface = c₀.surface ∧ c.locked = c₀.locked ∧ c.setRegion = c₀.setRegion ∧
      c.surfaceUnmap = c₀.surfaceUnmap := by
    intro c hc
    obtain ⟨c₀, hc₀, rfl⟩ := mem_modify.1 hc
    refine ⟨c₀, hc₀, ?_⟩
    split
    · exact hf c₀
    · exact ⟨rfl, rfl, rfl, rfl, rfl⟩
  have hids := map_id_modify s id f fun c => (hf c).1
  have hlive : ∀ id', (∃ c ∈ s.constraints, c.id = id') →
      ∃ c ∈ (s.modify id f).constraints, c.id = id' := by
    rintro id' ⟨c, hc, rfl⟩
    have hin : c.id ∈ (s.modify id f).constraints.map (·.id) := hids ▸ List.mem_map_of_mem hc
    exact List.mem_map.1 hin
  refine ⟨⟨hids ▸ h.core.nodup, fun c hc => ?_, h.core.sentFresh, h.core.exclusive,
    fun id' hid' => hlive id' (h.core.activeLive id' hid'),
    fun id' hid' => hlive id' (h.core.pendingLive id' hid'), fun c hc hl => ?_, fun c hc => ?_,
    h.core.alternates, fun c hc => ?_, h.core.idle⟩, fun c hc hid => ?_, h.safe, h.still⟩
  · obtain ⟨c₀, hc₀, hid, -⟩ := hmem c hc
    rw [hid]
    exact h.core.fresh c₀ hc₀
  · obtain ⟨c₀, hc₀, hid, -, hlocked, hregion, -⟩ := hmem c hc
    rw [hregion, hid]
    exact h.core.setRegion c₀ hc₀ (hlocked ▸ hl)
  · obtain ⟨c₀, hc₀, hid, -, -, -, hunmap⟩ := hmem c hc
    rw [hunmap, hid]
    exact h.core.surfaceUnmap c₀ hc₀
  · obtain ⟨c₀, hc₀, hid, -⟩ := hmem c hc
    rw [hid]
    exact h.core.last c₀ hc₀
  · obtain ⟨c₀, hc₀, hid₀, hsurface, -⟩ := hmem c hc
    rw [hsurface]
    exact h.focused c₀ hc₀ (hid₀ ▸ hid)

theorem Good.commit (env : Pointing) (h : Good s) (hfreed : s.freed = false) {surface : ℕ}
    {region : Region} {hint : Option Point} {coords : Option (ℤ × ℤ)}
    (hs : step env s (.commit surface region hint coords) = some s') : Good s' := by
  rw [step, if_neg (by rw [hfreed]; exact Bool.false_ne_true)] at hs
  dsimp only at hs
  generalize hs₁ : ({ s with coords := Function.update s.coords surface coords } : State) = s₁ at hs
  have hgood : Good s₁ := by
    subst hs₁
    exact ⟨h.core.congr rfl rfl rfl rfl rfl rfl, h.focused, h.safe, h.still⟩
  have hfreed₁ : s₁.freed = false := by
    subst hs₁
    exact hfreed
  split at hs
  · cases hs
    exact hgood
  · rename_i c hfor
    cases hs
    have hrefresh := hgood.refresh c.id
      (fun c => { c with region := region, hint := hint }) fun _ => ⟨rfl, rfl, rfl, rfl, rfl⟩
    split
    · refine updateRegion_good env hrefresh hfreed₁ (mem_modify.2 ⟨c, ?_, by rw [if_pos rfl]⟩)
      exact (constraintFor_some hfor).1
    · exact hrefresh

/-! ### Motion -/

theorem unhide_eq (env : Pointing) (s : State) :
    ∃ p hidden, s.unhide env = { s with position := p, hidden := hidden } := by
  unfold State.unhide
  split
  · exact ⟨_, _, rfl⟩
  · exact ⟨s.position, s.hidden, rfl⟩

theorem Good.move (h : Good s) (p : Point) (hidden : Bool) :
    Good { s with position := p, hidden := hidden } :=
  ⟨h.core.congr rfl rfl rfl rfl rfl rfl, h.focused, h.safe, h.still⟩

theorem applyConstraint_good (env : Pointing) (h : Good s) (d : Point) :
    Good (s.applyConstraint env d).1 := by
  unfold State.applyConstraint
  split
  · exact h
  · rename_i c hc
    split
    · exact h
    · split
      · exact h
      · dsimp only
        split
        · exact h
        · have hgood : Good (if s.pending = some c.id then
              s.activeConstraint env (some c.id) false else s) := by
            split
            · rename_i hp
              have ha : s.active = none := h.core.exclusive.resolve_right (by rw [hp]; simp)
              rw [ha, Option.none_or] at hc
              obtain ⟨id, -, hfind⟩ := Option.bind_eq_some_iff.1 hc
              obtain ⟨hcore, hframe, hact, hpend, -⟩ :=
                activate_spec env h.core ha hp (find_some hfind).1
              refine h.of_shrinks hcore hframe fun id hid => .inr ?_
              rw [hact, hpend] at hid
              rw [hp]
              simpa using hid
            · exact h
          generalize (if s.pending = some c.id then
            s.activeConstraint env (some c.id) false else s) = s₁ at hgood ⊢
          split
          · exact hgood
          · split <;> exact hgood

/-- An active lock takes the whole motion. -/
theorem applyConstraint_lockActive (env : Pointing) (h : s.lockActive = true) (d : Point) :
    s.applyConstraint env d = (s, none) := by
  have hsome : ∃ c, s.active.bind s.find = some c := by
    cases hb : s.active.bind s.find with
    | none =>
      rw [State.lockActive, hb] at h
      cases h
    | some c => exact ⟨c, rfl⟩
  obtain ⟨c, hc⟩ := hsome
  have hor : (s.active.or s.pending).bind s.find = some c := by
    obtain ⟨id, hid, hfind⟩ := Option.bind_eq_some_iff.1 hc
    rw [hid, Option.some_or, Option.bind_some, hfind]
  unfold State.applyConstraint
  simp only [hor, h, if_true]

theorem Good.motion (env : Pointing) (h : Good s) (hfreed : s.freed = false) {d : Point}
    (ho : orderly s (.motion d) = true) (hs : step env s (.motion d) = some s') : Good s' := by
  rw [step, if_neg (by rw [hfreed]; exact Bool.false_ne_true)] at hs
  cases hs
  have hgood : Good (s.motion env d) := by
    obtain ⟨p, hidden, hshow⟩ := unhide_eq env s
    have happly := applyConstraint_good env (h.move p hidden) d
    unfold State.motion
    rw [hshow]
    split
    · rename_i s₁ heq
      rw [heq] at happly
      exact happly
    · rename_i s₁ d' heq
      rw [heq] at happly
      exact happly.move _ s₁.hidden
  have hstill : (s.lockActive && decide ((s.motion env d).position ≠ s.position)) = false := by
    by_cases hl : s.lockActive = true
    · have hvisible : s.hidden = false := by
        simpa [orderly, hl] using ho
      have hmotion : s.motion env d = s := by
        have hshow : s.unhide env = s := by
          rw [State.unhide, if_neg (by rw [hvisible]; exact Bool.false_ne_true)]
        rw [State.motion, hshow, applyConstraint_lockActive env hl]
      rw [hmotion]
      simp
    · simp [hl]
  refine ⟨hgood.core.congr rfl rfl rfl rfl rfl rfl, hgood.focused, hgood.safe, ?_⟩
  dsimp only
  rw [hstill, Bool.or_false]
  exact hgood.still

/-! ### Runs -/

theorem step_good (env : Pointing) {ev : Event} (h : Good s) (ho : orderly s ev = true)
    (hs : step env s ev = some s') : Good s' := by
  have hfreed : s.freed = false := by
    by_contra hf
    unfold step at hs
    rw [if_pos (by simpa using hf)] at hs
    cases hs
  have hguard : ¬ s.freed = true := by
    rw [hfreed]
    exact Bool.false_ne_true
  cases ev with
  | create surface locked oneshot region => exact h.create env hfreed hs
  | destroy id =>
    rw [step, if_neg hguard] at hs
    obtain ⟨c, -, rfl⟩ := Option.map_eq_some_iff.1 hs
    exact (h.handleDestroy env hfreed c).1
  | surfaceDestroy surface => exact h.surfaceDestroy env hfreed surface hs
  | focus surface =>
    rw [step, if_neg hguard] at hs
    cases hs
    have hcore : Core { s with focus := surface } := h.core.congr rfl rfl rfl rfl rfl rfl
    refine setConstraint_good env hcore hfreed h.safe h.still fun c hc => ?_
    obtain ⟨hmem, hsurface⟩ := constraintFor_some hc
    exact ⟨hmem, hsurface.symm⟩
  | commit surface region hint coords => exact h.commit env hfreed hs
  | place surface coords =>
    rw [step, if_neg hguard] at hs
    cases hs
    exact ⟨h.core.congr rfl rfl rfl rfl rfl rfl, h.focused, h.safe, h.still⟩
  | unmap surface =>
    rw [step, if_neg hguard] at hs
    cases hs
    split
    · obtain ⟨hcore, hframe, hact, hpend, -⟩ := deactivate_spec env h.core hfreed
      refine h.of_shrinks hcore hframe fun id hid => ?_
      rw [hact, hpend] at hid
      exact hid.elim (fun hc => by cases hc) .inr
    · exact h
  | motion d => exact h.motion env hfreed ho hs
  | button =>
    rw [step, if_neg hguard] at hs
    cases hs
    obtain ⟨p, hidden, hshow⟩ := unhide_eq env s
    rw [hshow]
    exact h.move p hidden
  | touchDown p =>
    rw [step, if_neg hguard] at hs
    cases hs
    exact h.move p true
  | warp p =>
    rw [step, if_neg hguard] at hs
    cases hs
    exact h.move p s.hidden
  | seatDestroy =>
    rw [step, if_neg hguard] at hs
    cases hs
    have hempty : s.constraints = [] := by simpa [orderly] using ho
    have ha : s.active = none := by
      by_contra hne
      obtain ⟨id, hid⟩ := Option.ne_none_iff_exists'.1 hne
      obtain ⟨c, hc, -⟩ := h.core.activeLive id hid
      rw [hempty] at hc
      cases hc
    have hp : s.pending = none := by
      by_contra hne
      obtain ⟨id, hid⟩ := Option.ne_none_iff_exists'.1 hne
      obtain ⟨c, hc, -⟩ := h.core.pendingLive id hid
      rw [hempty] at hc
      cases hc
    have hend : s.constraints.foldl (State.handleDestroy env)
        { s with freed := true, active := none, pending := none } =
        { s with freed := true, active := none, pending := none } := by
      rw [hempty]
      rfl
    rw [hend]
    refine ⟨h.core.congr rfl ha.symm hp.symm rfl rfl rfl, fun c hc hid => ?_, h.safe, h.still⟩
    rcases hid with hid | hid <;> cases hid

theorem start_good (position : Point) : Good (start position) where
  core := by constructor <;> simp [start, Alternates]
  focused := by simp [Focused, start]
  safe := rfl
  still := rfl

/-- For every layout, every way of confining a motion and every run in which the seat goes after its
    constraints and no pointer device brings back a hidden cursor under an active lock, the pointer
    constraints are consistent. -/
theorem pointer_constraints_consistent (env : Pointing) (position : Point)
    (h : Reach (step env) (fun s ev => orderly s ev = true) (start position) s) : Consistent s :=
  (h.inv (start_good position) fun _ _ _ hg ho hs => step_good env hg ho hs).consistent

/-- A layout without borders, and regions that confine nothing. -/
def openLayout : Pointing where
  closest := id
  inLayout _ := true
  confine _ _ q := some q

/-- A oneshot lock on one surface and a confinement on another: the focus goes from the first to the
    second, the region of which is then taken away from under the cursor. -/
def constraintRun : List Event :=
  [.button, .place 1 (some (0, 0)), .place 2 (some (0, 0)), .focus (some 1),
    .create 1 true true {(0, 0)}, .motion (1, 1), .create 2 false false {(0, 0)}, .focus (some 2),
    .commit 2 {(5, 5)} none (some (0, 0)), .destroy 1, .seatDestroy]

theorem constraintRun_consistent :
    ∃ s, exec (guarded (step openLayout) orderly) (start (0, 0)) constraintRun = some s ∧
      s.sent = [(1, false), (1, true), (0, false), (0, true)] ∧ Consistent s := by
  have hrun : (exec (guarded (step openLayout) orderly) (start (0, 0)) constraintRun).map State.sent =
      some [(1, false), (1, true), (0, false), (0, true)] := by decide +kernel
  obtain ⟨s, hs, hsent⟩ := Option.map_eq_some_iff.1 hrun
  exact ⟨s, hs, hsent, pointer_constraints_consistent openLayout (0, 0) (.of_exec_guarded _ _ hs)⟩

/-- The seat is destroyed with a constraint: the handler of the constraint reads the freed cursor. -/
theorem constraint_outlives_cursor :
    ¬ ∀ s, Reach (step openLayout) Always (start (0, 0)) s → Consistent s := by
  intro h
  have hs := h _ (.of_exec [.create 1 true false ∅, .seatDestroy] _ rfl)
  have hfault := hs.safe
  cases hfault

end FlakeWm.Constraints
