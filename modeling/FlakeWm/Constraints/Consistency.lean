import Mathlib.Data.List.Nodup
import FlakeWm.Constraints.Model

/-! Pointer constraints stay consistent.

    Deactivating, destroying, pending and activating a constraint each keep the invariant `Core`, and
    `cursor_set_constraint` is made of them. What the handlers rely on and seat destruction breaks is
    that the cursor outlives the constraints. -/

namespace FlakeWm.Constraints

/-- The invariant, but for the keyboard focus. -/
structure Core (s : State) : Prop where
  nodup : (s.constraints.map (·.id)).Nodup
  fresh : ∀ c ∈ s.constraints, c.id < s.next
  sentFresh : ∀ p ∈ s.sent, p.1 < s.next
  exclusive : s.active = none ∨ s.pending = none
  activeLive : ∀ id, s.active = some id → ∃ c ∈ s.constraints, c.id = id
  pendingLive : ∀ id, s.pending = some id → ∃ c ∈ s.constraints, c.id = id
  setRegion : ∀ c ∈ s.constraints, c.locked = false →
    c.setRegion = if s.active = some c.id ∨ s.pending = some c.id then 1 else 0
  surfaceUnmap : ∀ c ∈ s.constraints, c.surfaceUnmap = if s.active = some c.id then 1 else 0
  alternates : Alternates s.sent
  last : ∀ c ∈ s.constraints, lastSent s.sent c.id = decide (s.active = some c.id)
  idle : s.deactivateIdle = []

/-- What the handlers of constraints leave alone, and that they make no constraints. -/
structure Frame (s s' : State) : Prop where
  freed : s'.freed = s.freed
  focus : s'.focus = s.focus
  fault : s'.fault = s.fault
  slipped : s'.slipped = s.slipped
  next : s'.next = s.next
  surfaces : ∀ c ∈ s'.constraints, ∃ c₀ ∈ s.constraints, c₀.id = c.id ∧ c₀.surface = c.surface

/-- Only the constraint of the surface with the keyboard focus is active or pending. -/
def Focused (s : State) : Prop :=
  ∀ c ∈ s.constraints, s.active = some c.id ∨ s.pending = some c.id → s.focus = some c.surface

variable {env : Pointing} {s s' s'' : State} {c : Constraint}

theorem Frame.refl (s : State) : Frame s s :=
  ⟨rfl, rfl, rfl, rfl, rfl, fun c hc => ⟨c, hc, rfl, rfl⟩⟩

theorem Frame.trans (h : Frame s s') (h' : Frame s' s'') : Frame s s'' := by
  refine ⟨h'.freed.trans h.freed, h'.focus.trans h.focus, h'.fault.trans h.fault,
    h'.slipped.trans h.slipped, h'.next.trans h.next, fun c hc => ?_⟩
  obtain ⟨c₁, hc₁, hid₁, hsurface₁⟩ := h'.surfaces c hc
  obtain ⟨c₀, hc₀, hid₀, hsurface₀⟩ := h.surfaces c₁ hc₁
  exact ⟨c₀, hc₀, hid₀.trans hid₁, hsurface₀.trans hsurface₁⟩

theorem lastSent_cons (sent : List (ℕ × Bool)) (id id' : ℕ) (b : Bool) :
    lastSent ((id, b) :: sent) id' = if id = id' then b else lastSent sent id' := by
  by_cases h : id = id' <;> simp [lastSent, h]

theorem lastSent_of_fresh {sent : List (ℕ × Bool)} {id : ℕ} (h : ∀ p ∈ sent, p.1 < id) :
    lastSent sent id = false := by
  have hnone : sent.find? (fun p => decide (p.1 = id)) = none := by
    refine List.find?_eq_none.2 fun p hp => ?_
    simpa using Nat.ne_of_lt (h p hp)
  rw [lastSent, hnone]
  rfl

theorem mem_modify {id : ℕ} {f : Constraint → Constraint} :
    c ∈ (s.modify id f).constraints ↔
      ∃ c₀ ∈ s.constraints, c = if c₀.id = id then f c₀ else c₀ := by
  simp only [State.modify, List.mem_map, eq_comm]

theorem map_id_modify (s : State) (id : ℕ) (f : Constraint → Constraint) (hf : ∀ c, (f c).id = c.id) :
    (s.modify id f).constraints.map (·.id) = s.constraints.map (·.id) := by
  rw [State.modify, List.map_map]
  refine List.map_congr_left fun c _ => ?_
  by_cases hc : c.id = id <;> simp [hc, hf]

theorem find_some {id : ℕ} (h : s.find id = some c) : c ∈ s.constraints ∧ c.id = id :=
  ⟨List.mem_of_find?_eq_some h, by simpa using List.find?_some h⟩

theorem Core.eq_of_id (h : Core s) {c' : Constraint} (hc : c ∈ s.constraints)
    (hc' : c' ∈ s.constraints) (hid : c.id = c'.id) : c = c' :=
  List.inj_on_of_nodup_map h.nodup hc hc' hid

theorem Core.find_eq (h : Core s) (hc : c ∈ s.constraints) : s.find c.id = some c := by
  cases hf : s.find c.id with
  | none =>
    have hne := List.find?_eq_none.1 hf c hc
    simp at hne
  | some c' =>
    obtain ⟨hc', hid⟩ := find_some hf
    rw [h.eq_of_id hc' hc hid]

/-- Warping to the hint moves the cursor and nothing else. -/
theorem warpToHint_eq (env : Pointing) (s : State) (c : Constraint) :
    ∃ p, s.warpToHint env c = { s with position := p } := by
  unfold State.warpToHint
  split
  · split
    · exact ⟨_, rfl⟩
    · exact ⟨s.position, rfl⟩
  · exact ⟨s.position, rfl⟩

theorem Core.move (h : Core s) (p : Point) : Core { s with position := p } :=
  ⟨h.nodup, h.fresh, h.sentFresh, h.exclusive, h.activeLive, h.pendingLive, h.setRegion,
    h.surfaceUnmap, h.alternates, h.last, h.idle⟩

/-! ### Destroying and deactivating -/

/-- Forgetting an id. -/
def without (o : Option ℕ) (id : ℕ) : Option ℕ := if o = some id then none else o

theorem without_eq_some {o : Option ℕ} {id id' : ℕ} (hne : id' ≠ id) :
    without o id = some id' ↔ o = some id' := by
  unfold without
  split
  · rename_i ho
    simp [ho, Ne.symm hne]
  · rfl

theorem some_of_without {o : Option ℕ} {id id' : ℕ} (h : without o id = some id') :
    o = some id' ∧ id' ≠ id := by
  unfold without at h
  split at h
  · cases h
  · rename_i ho
    exact ⟨h, fun heq => ho (heq ▸ h)⟩

/-- The constraint goes, and the cursor forgets it. -/
theorem Core.drop (h : Core s) (c : Constraint) (p : Point) :
    Core { s with
      constraints := s.constraints.filter fun c' => c'.id ≠ c.id
      active := without s.active c.id
      pending := without s.pending c.id
      position := p } := by
  have hmem : ∀ c', c' ∈ s.constraints.filter (fun c' => decide (c'.id ≠ c.id)) ↔
      c' ∈ s.constraints ∧ c'.id ≠ c.id := by
    intro c'
    rw [List.mem_filter, decide_eq_true_iff]
  constructor
  case nodup => exact h.nodup.sublist (List.filter_sublist.map _)
  case fresh => exact fun c' hc' => h.fresh c' ((hmem c').1 hc').1
  case sentFresh => exact h.sentFresh
  case exclusive =>
    refine h.exclusive.imp (fun ha => ?_) fun hp => ?_
    · dsimp only
      rw [ha]
      rfl
    · dsimp only
      rw [hp]
      rfl
  case activeLive =>
    intro id hid
    obtain ⟨hid, hne⟩ := some_of_without hid
    obtain ⟨c', hc', rfl⟩ := h.activeLive id hid
    exact ⟨c', (hmem c').2 ⟨hc', hne⟩, rfl⟩
  case pendingLive =>
    intro id hid
    obtain ⟨hid, hne⟩ := some_of_without hid
    obtain ⟨c', hc', rfl⟩ := h.pendingLive id hid
    exact ⟨c', (hmem c').2 ⟨hc', hne⟩, rfl⟩
  case setRegion =>
    intro c' hc' hl
    obtain ⟨hc', hne⟩ := (hmem c').1 hc'
    rw [h.setRegion c' hc' hl]
    simp only [without_eq_some hne]
  case surfaceUnmap =>
    intro c' hc'
    obtain ⟨hc', hne⟩ := (hmem c').1 hc'
    rw [h.surfaceUnmap c' hc']
    simp only [without_eq_some hne]
  case alternates => exact h.alternates
  case last =>
    intro c' hc'
    obtain ⟨hc', hne⟩ := (hmem c').1 hc'
    rw [h.last c' hc']
    simp only [without_eq_some hne]
  case idle => exact h.idle

/-- What `cursor_constraint_handle_destroy` does while the cursor lives. -/
theorem handleDestroy_eq (env : Pointing) (hfreed : s.freed = false) (hidle : s.deactivateIdle = [])
    (hex : s.active = none ∨ s.pending = none) (c : Constraint) :
    ∃ p, s.handleDestroy env c = { s with
      constraints := s.constraints.filter fun c' => c'.id ≠ c.id
      active := without s.active c.id
      pending := without s.pending c.id
      position := p } := by
  unfold State.handleDestroy
  simp only [hfreed, hidle, List.filter_nil, Bool.false_eq_true, if_false]
  by_cases ha : s.active = some c.id
  · have hp : s.pending = none := hex.resolve_left (by rw [ha]; simp)
    obtain ⟨p, hwarp⟩ := warpToHint_eq env { s with
      constraints := s.constraints.filter fun c' => decide (c'.id ≠ c.id)
      deactivateIdle := []
      freed := false } c
    refine ⟨p, ?_⟩
    rw [if_pos ha, hwarp]
    simp [without, ha, hp]
  · refine ⟨s.position, ?_⟩
    rw [if_neg ha]
    by_cases hp : s.pending = some c.id <;> simp [without, ha, hp]

theorem handleDestroy_spec (env : Pointing) (h : Core s) (hfreed : s.freed = false)
    (c : Constraint) :
    Core (s.handleDestroy env c) ∧ Frame s (s.handleDestroy env c) ∧
      (s.handleDestroy env c).active = without s.active c.id ∧
      (s.handleDestroy env c).pending = without s.pending c.id := by
  obtain ⟨p, heq⟩ := handleDestroy_eq env hfreed h.idle h.exclusive c
  rw [heq]
  refine ⟨h.drop c p, ⟨rfl, rfl, rfl, rfl, rfl, fun c' hc' => ?_⟩, rfl, rfl⟩
  exact ⟨c', List.mem_of_mem_filter hc', rfl, rfl⟩

/-- Unlinking both listeners. -/
def unlinkBoth (c : Constraint) : Constraint := { c with setRegion := 0, surfaceUnmap := 0 }

/-- An active constraint is deactivated: its listeners are unlinked, and it is told. -/
theorem Core.deactivated (h : Core s) (ha : s.active = some c.id) (hc : c ∈ s.constraints)
    (hconstraints : s'.constraints = (s.modify c.id unlinkBoth).constraints)
    (hactive : s'.active = none) (hpending : s'.pending = s.pending)
    (hsent : s'.sent = (c.id, false) :: s.sent) (hnext : s'.next = s.next)
    (hidle : s'.deactivateIdle = s.deactivateIdle) : Core s' := by
  have hp : s.pending = none := h.exclusive.resolve_left (by rw [ha]; simp)
  rw [hp] at hpending
  constructor
  case nodup =>
    rw [hconstraints, map_id_modify s c.id unlinkBoth fun _ => rfl]
    exact h.nodup
  case fresh =>
    rw [hconstraints, hnext]
    intro c' hc'
    obtain ⟨c₀, hc₀, rfl⟩ := mem_modify.1 hc'
    split <;> exact h.fresh c₀ hc₀
  case sentFresh =>
    rw [hsent, hnext]
    intro q hq
    rcases List.mem_cons.1 hq with rfl | hq
    · exact h.fresh c hc
    · exact h.sentFresh q hq
  case exclusive => exact .inl hactive
  case activeLive => simp [hactive]
  case pendingLive => simp [hpending]
  case setRegion =>
    rw [hconstraints, hactive, hpending]
    intro c' hc' hl
    obtain ⟨c₀, hc₀, rfl⟩ := mem_modify.1 hc'
    by_cases hid : c₀.id = c.id
    · rw [if_pos hid]
      simp [unlinkBoth]
    · rw [if_neg hid] at hl ⊢
      rw [h.setRegion c₀ hc₀ hl, ha, hp]
      simp [Ne.symm hid]
  case surfaceUnmap =>
    rw [hconstraints, hactive]
    intro c' hc'
    obtain ⟨c₀, hc₀, rfl⟩ := mem_modify.1 hc'
    by_cases hid : c₀.id = c.id
    · rw [if_pos hid]
      simp [unlinkBoth]
    · rw [if_neg hid, h.surfaceUnmap c₀ hc₀, ha]
      simp [Ne.symm hid]
  case alternates =>
    rw [hsent]
    refine ⟨?_, h.alternates⟩
    rw [h.last c hc, ha]
    simp
  case last =>
    rw [hconstraints, hsent, hactive]
    intro c' hc'
    obtain ⟨c₀, hc₀, rfl⟩ := mem_modify.1 hc'
    rw [lastSent_cons]
    by_cases hid : c₀.id = c.id
    · simp [hid, unlinkBoth]
    · rw [if_neg hid, if_neg (Ne.symm hid), h.last c₀ hc₀, ha]
      simp [Ne.symm hid]
  case idle => exact hidle.trans h.idle

/-- The state in which the old constraint is told. -/
theorem activeConstraint_none (env : Pointing) (h : Core s) (ha : s.active = some c.id)
    (hc : c ∈ s.constraints) (later : Bool) :
    ∃ p, s.activeConstraint env none later =
      if later then { s.modify c.id unlinkBoth with
        active := none, position := p, deactivateIdle := s.deactivateIdle ++ [c.id] }
      else State.sendDeactivated env
        { s.modify c.id unlinkBoth with active := none, position := p } c := by
  obtain ⟨p, hwarp⟩ := warpToHint_eq env ({ s with active := none }.modify c.id unlinkBoth) c
  refine ⟨p, ?_⟩
  have hold : s.active.bind s.find = some c := by
    rw [ha, Option.bind_some, h.find_eq hc]
  rw [State.activeConstraint, if_neg (by rw [ha]; simp), hold]
  change (if later then
      { ({ s with active := none }.modify c.id unlinkBoth).warpToHint env c with
        deactivateIdle := (({ s with active := none }.modify c.id unlinkBoth).warpToHint env
          c).deactivateIdle ++ [c.id] }
    else (({ s with active := none }.modify c.id unlinkBoth).warpToHint env c).sendDeactivated env
      c) = _
  rw [hwarp]
  rfl

/-- The old constraint is told, and destroyed if it is oneshot. -/
theorem told_spec (env : Pointing) (h : Core s) (hfreed : s.freed = false)
    (ha : s.active = some c.id) (hc : c ∈ s.constraints) {p : Point}
    (heq : s' = State.sendDeactivated env
      { s.modify c.id unlinkBoth with active := none, position := p } c) :
    Core s' ∧ Frame s s' ∧ s'.active = none ∧ s'.pending = s.pending ∧
      ∀ c' ∈ s.constraints, c'.id ≠ c.id → c' ∈ s'.constraints := by
  have hp : s.pending = none := h.exclusive.resolve_left (by rw [ha]; simp)
  generalize hs₁ : ({ s.modify c.id unlinkBoth with
    active := none, position := p, sent := (c.id, false) :: s.sent } : State) = s₁
  have hcore : Core s₁ := by
    subst hs₁
    exact h.deactivated ha hc rfl rfl rfl rfl rfl rfl
  have hframe : Frame s s₁ := by
    subst hs₁
    refine ⟨rfl, rfl, rfl, rfl, rfl, fun c' hc' => ?_⟩
    obtain ⟨c₀, hc₀, rfl⟩ := mem_modify.1 hc'
    exact ⟨c₀, hc₀, by split <;> rfl, by split <;> rfl⟩
  have hact : s₁.active = none := by
    subst hs₁
    rfl
  have hpend : s₁.pending = s.pending := by
    subst hs₁
    rfl
  have hkept : ∀ c' ∈ s.constraints, c'.id ≠ c.id → c' ∈ s₁.constraints := by
    subst hs₁
    intro c' hc' hne
    exact mem_modify.2 ⟨c', hc', by rw [if_neg hne]⟩
  have heq' : s' = if c.oneshot then s₁.handleDestroy env c else s₁ := by
    subst hs₁
    exact heq
  rw [heq']
  split
  · obtain ⟨hdestroy, hframe', ha', hp'⟩ := handleDestroy_spec env hcore
      (hframe.freed.trans hfreed) c
    refine ⟨hdestroy, hframe.trans hframe', ?_, ?_, fun c' hc' hne => ?_⟩
    · rw [ha', hact]
      rfl
    · rw [hp', hpend, hp]
      rfl
    · obtain ⟨q, hq⟩ := handleDestroy_eq env (hframe.freed.trans hfreed) hcore.idle
        hcore.exclusive c
      rw [hq]
      exact List.mem_filter.2 ⟨hkept c' hc' hne, by simpa using hne⟩
  · exact ⟨hcore, hframe, hact, hpend, hkept⟩

/-- `cursor_active_constraint` with no constraint. -/
theorem deactivate_spec (env : Pointing) (h : Core s) (hfreed : s.freed = false) :
    Core (s.activeConstraint env none false) ∧ Frame s (s.activeConstraint env none false) ∧
      (s.activeConstraint env none false).active = none ∧
      (s.activeConstraint env none false).pending = s.pending ∧
      ∀ c ∈ s.constraints, s.active ≠ some c.id →
        c ∈ (s.activeConstraint env none false).constraints := by
  cases ha : s.active with
  | none =>
    have heq : s.activeConstraint env none false = s := by
      rw [State.activeConstraint, if_pos ha]
    rw [heq]
    exact ⟨h, Frame.refl s, ha, rfl, fun c hc _ => hc⟩
  | some id =>
    obtain ⟨c, hc, rfl⟩ := h.activeLive id ha
    obtain ⟨p, heq⟩ := activeConstraint_none env h ha hc false
    rw [if_neg Bool.false_ne_true] at heq
    obtain ⟨hcore, hframe, hact, hpend, hkept⟩ := told_spec env h hfreed ha hc heq
    exact ⟨hcore, hframe, hact, hpend, fun c' hc' hne => hkept c' hc' fun hid => hne (by rw [hid])⟩

/-! ### Pending and activating -/

/-- Linking the listener for the unmapping of the surface. -/
def linkUnmap (c : Constraint) : Constraint := { c with surfaceUnmap := c.surfaceUnmap + 1 }

/-- Linking the listener for the region. -/
def linkRegion (c : Constraint) : Constraint := { c with setRegion := c.setRegion + 1 }

/-- The pending constraint becomes the active one, and is told. -/
theorem Core.activated (h : Core s) (ha : s.active = none) (hp : s.pending = some c.id)
    (hc : c ∈ s.constraints) (hconstraints : s'.constraints = (s.modify c.id linkUnmap).constraints)
    (hactive : s'.active = some c.id) (hpending : s'.pending = none)
    (hsent : s'.sent = (c.id, true) :: s.sent) (hnext : s'.next = s.next)
    (hidle : s'.deactivateIdle = s.deactivateIdle) : Core s' := by
  constructor
  case nodup =>
    rw [hconstraints, map_id_modify s c.id linkUnmap fun _ => rfl]
    exact h.nodup
  case fresh =>
    rw [hconstraints, hnext]
    intro c' hc'
    obtain ⟨c₀, hc₀, rfl⟩ := mem_modify.1 hc'
    split <;> exact h.fresh c₀ hc₀
  case sentFresh =>
    rw [hsent, hnext]
    intro q hq
    rcases List.mem_cons.1 hq with rfl | hq
    · exact h.fresh c hc
    · exact h.sentFresh q hq
  case exclusive => exact .inr hpending
  case activeLive =>
    rw [hconstraints, hactive]
    intro id hid
    cases hid
    exact ⟨_, mem_modify.2 ⟨c, hc, rfl⟩, by rw [if_pos rfl]; rfl⟩
  case pendingLive => simp [hpending]
  case setRegion =>
    rw [hconstraints, hactive, hpending]
    intro c' hc' hl
    obtain ⟨c₀, hc₀, rfl⟩ := mem_modify.1 hc'
    by_cases hid : c₀.id = c.id
    · rw [if_pos hid] at hl ⊢
      have hregion := h.setRegion c₀ hc₀ hl
      rw [ha, hp, hid] at hregion
      simpa [linkUnmap, hid] using hregion
    · rw [if_neg hid] at hl ⊢
      rw [h.setRegion c₀ hc₀ hl, ha, hp]
      simp [Ne.symm hid]
  case surfaceUnmap =>
    rw [hconstraints, hactive]
    intro c' hc'
    obtain ⟨c₀, hc₀, rfl⟩ := mem_modify.1 hc'
    by_cases hid : c₀.id = c.id
    · rw [if_pos hid, linkUnmap, h.surfaceUnmap c₀ hc₀, ha]
      simp [hid]
    · rw [if_neg hid, h.surfaceUnmap c₀ hc₀, ha]
      simp [Ne.symm hid]
  case alternates =>
    rw [hsent]
    refine ⟨?_, h.alternates⟩
    rw [h.last c hc, ha]
    simp
  case last =>
    rw [hconstraints, hsent, hactive]
    intro c' hc'
    obtain ⟨c₀, hc₀, rfl⟩ := mem_modify.1 hc'
    rw [lastSent_cons]
    by_cases hid : c₀.id = c.id
    · simp [hid, linkUnmap]
    · rw [if_neg hid, if_neg (Ne.symm hid), h.last c₀ hc₀, ha]
      simp [Ne.symm hid]
  case idle => exact hidle.trans h.idle

/-- `cursor_active_constraint` with the pending constraint. -/
theorem activate_spec (env : Pointing) (h : Core s) (ha : s.active = none)
    (hp : s.pending = some c.id) (hc : c ∈ s.constraints) :
    Core (s.activeConstraint env (some c.id) false) ∧
      Frame s (s.activeConstraint env (some c.id) false) ∧
      (s.activeConstraint env (some c.id) false).active = some c.id ∧
      (s.activeConstraint env (some c.id) false).pending = none ∧
      (s.activeConstraint env (some c.id) false).position = s.position := by
  have heq : s.activeConstraint env (some c.id) false =
      { s with active := some c.id, pending := none, sent := (c.id, true) :: s.sent }.modify c.id
        linkUnmap := by
    rw [State.activeConstraint, if_neg (by rw [ha]; simp), ha]
    rfl
  rw [heq]
  refine ⟨h.activated ha hp hc rfl rfl rfl rfl rfl rfl, ⟨rfl, rfl, rfl, rfl, rfl, fun c' hc' => ?_⟩,
    rfl, rfl, rfl⟩
  obtain ⟨c₀, hc₀, rfl⟩ := mem_modify.1 hc'
  exact ⟨c₀, hc₀, by split <;> rfl, by split <;> rfl⟩

/-- The old pending constraint, if any, is unlinked. -/
theorem Core.unpended (h : Core s) (ha : s.active = none)
    (hconstraints : s'.constraints = (s.pending.elim s fun p => s.modify p fun c =>
      { c with setRegion := 0 }).constraints)
    (hactive : s'.active = none) (hpending : s'.pending = none) (hsent : s'.sent = s.sent)
    (hnext : s'.next = s.next) (hidle : s'.deactivateIdle = s.deactivateIdle) : Core s' := by
  have hmem : ∀ c' ∈ s'.constraints, ∃ c₀ ∈ s.constraints, c' =
      if s.pending = some c₀.id then { c₀ with setRegion := 0 } else c₀ := by
    intro c' hc'
    rw [hconstraints] at hc'
    cases hp : s.pending with
    | none =>
      rw [hp] at hc'
      exact ⟨c', hc', rfl⟩
    | some p =>
      rw [hp] at hc'
      obtain ⟨c₀, hc₀, rfl⟩ := mem_modify.1 hc'
      refine ⟨c₀, hc₀, ?_⟩
      by_cases hid : c₀.id = p
      · rw [if_pos hid, if_pos (by rw [hid])]
      · rw [if_neg hid, if_neg (fun heq => hid (Option.some.inj heq).symm)]
  have hids : s'.constraints.map (·.id) = s.constraints.map (·.id) := by
    rw [hconstraints]
    cases s.pending with
    | none => rfl
    | some p => exact map_id_modify s p _ fun _ => rfl
  constructor
  case nodup => rw [hids]; exact h.nodup
  case fresh =>
    rw [hnext]
    intro c' hc'
    obtain ⟨c₀, hc₀, rfl⟩ := hmem c' hc'
    split <;> exact h.fresh c₀ hc₀
  case sentFresh => rw [hsent, hnext]; exact h.sentFresh
  case exclusive => exact .inl hactive
  case activeLive => simp [hactive]
  case pendingLive => simp [hpending]
  case setRegion =>
    rw [hactive, hpending]
    intro c' hc' hl
    obtain ⟨c₀, hc₀, rfl⟩ := hmem c' hc'
    by_cases hp : s.pending = some c₀.id
    · rw [if_pos hp]
      simp
    · rw [if_neg hp] at hl ⊢
      rw [h.setRegion c₀ hc₀ hl, ha, if_neg (by simpa using hp)]
      simp
  case surfaceUnmap =>
    rw [hactive]
    intro c' hc'
    obtain ⟨c₀, hc₀, rfl⟩ := hmem c' hc'
    have hunmap := h.surfaceUnmap c₀ hc₀
    rw [ha] at hunmap
    split <;> simpa using hunmap
  case alternates => rw [hsent]; exact h.alternates
  case last =>
    rw [hsent, hactive]
    intro c' hc'
    obtain ⟨c₀, hc₀, rfl⟩ := hmem c' hc'
    have hlast := h.last c₀ hc₀
    rw [ha] at hlast
    split <;> simpa using hlast
  case idle => exact hidle.trans h.idle

/-- A constraint becomes pending: the listener for its region is linked if it is confined. -/
theorem Core.pended (h : Core s) (ha : s.active = none) (hp : s.pending = none)
    (hc : c ∈ s.constraints)
    (hconstraints : s'.constraints =
      (if c.locked then s else s.modify c.id linkRegion).constraints)
    (hactive : s'.active = none) (hpending : s'.pending = some c.id) (hsent : s'.sent = s.sent)
    (hnext : s'.next = s.next) (hidle : s'.deactivateIdle = s.deactivateIdle) : Core s' := by
  have hmem : ∀ c' ∈ s'.constraints, ∃ c₀ ∈ s.constraints, c' =
      if c₀.id = c.id ∧ c.locked = false then linkRegion c₀ else c₀ := by
    intro c' hc'
    rw [hconstraints] at hc'
    by_cases hl : c.locked = true
    · rw [if_pos hl] at hc'
      exact ⟨c', hc', by simp [hl]⟩
    · rw [if_neg hl] at hc'
      obtain ⟨c₀, hc₀, rfl⟩ := mem_modify.1 hc'
      refine ⟨c₀, hc₀, ?_⟩
      simp only [Bool.not_eq_true] at hl
      simp only [hl, and_true]
  have hids : s'.constraints.map (·.id) = s.constraints.map (·.id) := by
    rw [hconstraints]
    split
    · rfl
    · exact map_id_modify s c.id linkRegion fun _ => rfl
  constructor
  case nodup => rw [hids]; exact h.nodup
  case fresh =>
    rw [hnext]
    intro c' hc'
    obtain ⟨c₀, hc₀, rfl⟩ := hmem c' hc'
    split <;> exact h.fresh c₀ hc₀
  case sentFresh => rw [hsent, hnext]; exact h.sentFresh
  case exclusive => exact .inl hactive
  case activeLive => simp [hactive]
  case pendingLive =>
    rw [hpending]
    intro id hid
    cases hid
    have hin : c.id ∈ s'.constraints.map (·.id) := hids ▸ List.mem_map_of_mem hc
    obtain ⟨c', hc', hid⟩ := List.mem_map.1 hin
    exact ⟨c', hc', hid⟩
  case setRegion =>
    rw [hactive, hpending]
    intro c' hc' hl
    obtain ⟨c₀, hc₀, rfl⟩ := hmem c' hc'
    by_cases hid : c₀.id = c.id
    · obtain rfl := h.eq_of_id hc₀ hc hid
      have hl₀ : c₀.locked = false := by
        split at hl <;> exact hl
      have hzero := h.setRegion c₀ hc₀ hl₀
      rw [ha, hp] at hzero
      rw [if_pos ⟨rfl, hl₀⟩]
      simpa [linkRegion] using hzero
    · rw [if_neg (fun hc => hid hc.1)] at hl ⊢
      rw [h.setRegion c₀ hc₀ hl, ha, hp]
      simp [Ne.symm hid]
  case surfaceUnmap =>
    rw [hactive]
    intro c' hc'
    obtain ⟨c₀, hc₀, rfl⟩ := hmem c' hc'
    have hunmap := h.surfaceUnmap c₀ hc₀
    rw [ha] at hunmap
    split <;> simpa [linkRegion] using hunmap
  case alternates => rw [hsent]; exact h.alternates
  case last =>
    rw [hsent, hactive]
    intro c' hc'
    obtain ⟨c₀, hc₀, rfl⟩ := hmem c' hc'
    have hlast := h.last c₀ hc₀
    rw [ha] at hlast
    split <;> simpa [linkRegion] using hlast
  case idle => exact hidle.trans h.idle

/-- `cursor_set_constraint` while no constraint is active. -/
theorem replacePending_spec (env : Pointing) (h : Core s) (ha : s.active = none)
    {new : Option Constraint} (hnew : ∀ c ∈ new, c ∈ s.constraints) :
    Core (s.replacePending env new) ∧ Frame s (s.replacePending env new) ∧
      ∀ id, (s.replacePending env new).active = some id ∨
        (s.replacePending env new).pending = some id → new.map Constraint.id = some id := by
  unfold State.replacePending
  by_cases hsame : s.pending = new.map Constraint.id
  · rw [if_pos hsame]
    refine ⟨h, Frame.refl s, fun id hid => ?_⟩
    rw [ha, hsame] at hid
    simpa using hid
  · rw [if_neg hsame]
    dsimp only
    generalize hs₁ : (s.pending.elim s fun p => s.modify p fun c => { c with setRegion := 0 }) = s₁
    have hfields : s₁.active = s.active ∧ s₁.sent = s.sent ∧ s₁.next = s.next ∧
        s₁.deactivateIdle = s.deactivateIdle ∧ Frame s s₁ := by
      subst hs₁
      cases s.pending with
      | none => exact ⟨rfl, rfl, rfl, rfl, Frame.refl s⟩
      | some p =>
        refine ⟨rfl, rfl, rfl, rfl, rfl, rfl, rfl, rfl, rfl, fun c' hc' => ?_⟩
        obtain ⟨c₀, hc₀, rfl⟩ := mem_modify.1 hc'
        exact ⟨c₀, hc₀, by split <;> rfl, by split <;> rfl⟩
    obtain ⟨hact, hsent, hnext, hidle, hframe⟩ := hfields
    have hcore : Core { s₁ with pending := none } :=
      h.unpended ha (by rw [hs₁]) (hact.trans ha) rfl hsent hnext hidle
    cases new with
    | none =>
      refine ⟨hcore, ⟨hframe.freed, hframe.focus, hframe.fault, hframe.slipped, hframe.next,
        hframe.surfaces⟩, fun id hid => ?_⟩
      rcases hid with hid | hid
      · have hid : s₁.active = some id := hid
        rw [hact, ha] at hid
        cases hid
      · cases hid
    | some c =>
      have hc : c ∈ s₁.constraints := by
        have hmem := hnew c rfl
        rw [← hs₁]
        cases hp : s.pending with
        | none => exact hmem
        | some p =>
          refine mem_modify.2 ⟨c, hmem, ?_⟩
          rw [if_neg]
          rintro rfl
          exact hsame hp
      generalize hs₂ : (if c.locked then { s₁ with pending := some c.id } else
        { s₁ with pending := some c.id }.modify c.id linkRegion : State) = s₂
      have hcore₂ : Core s₂ := by
        refine hcore.pended (hact.trans ha) rfl hc ?_ ?_ ?_ ?_ ?_ ?_ <;> subst hs₂ <;> split <;>
          first | exact hact.trans ha | rfl
      have hframe₂ : Frame s s₂ := by
        refine hframe.trans ?_
        subst hs₂
        split
        · exact ⟨rfl, rfl, rfl, rfl, rfl, fun c' hc' => ⟨c', hc', rfl, rfl⟩⟩
        · refine ⟨rfl, rfl, rfl, rfl, rfl, fun c' hc' => ?_⟩
          obtain ⟨c₀, hc₀, rfl⟩ := mem_modify.1 hc'
          exact ⟨c₀, hc₀, by split <;> rfl, by split <;> rfl⟩
      have hpend : s₂.active = none ∧ s₂.pending = some c.id := by
        subst hs₂
        split <;> exact ⟨hact.trans ha, rfl⟩
      have heq : (some c).elim { s₁ with pending := (some c).map Constraint.id }
          ({ s₁ with pending := (some c).map Constraint.id }.pendConstraint env) =
          if s₂.checkRegion c then s₂.activeConstraint env (some c.id) false else s₂ := by
        subst hs₂
        rfl
      rw [heq]
      split
      · obtain ⟨c₂, hc₂, hid₂⟩ := hcore₂.pendingLive c.id hpend.2
        rw [← hid₂] at hpend ⊢
        obtain ⟨hcore₃, hframe₃, ha₃, hp₃, -⟩ := activate_spec env hcore₂ hpend.1 hpend.2 hc₂
        refine ⟨hcore₃, hframe₂.trans hframe₃, fun id hid => ?_⟩
        rw [ha₃, hp₃, hid₂] at hid
        simpa using hid
      · refine ⟨hcore₂, hframe₂, fun id hid => ?_⟩
        rw [hpend.1, hpend.2] at hid
        simpa using hid

/-- `cursor_set_constraint`: afterwards no other constraint is active or pending. -/
theorem setConstraint_spec (env : Pointing) (h : Core s) (hfreed : s.freed = false)
    {new : Option Constraint} (hnew : ∀ c ∈ new, c ∈ s.constraints) :
    Core (s.setConstraint env new) ∧ Frame s (s.setConstraint env new) ∧
      ∀ id, (s.setConstraint env new).active = some id ∨
        (s.setConstraint env new).pending = some id → new.map Constraint.id = some id := by
  unfold State.setConstraint
  by_cases hsome : s.active.isSome = true
  · rw [if_pos hsome]
    by_cases hsame : s.active = new.map Constraint.id
    · have hp : s.pending = none := h.exclusive.resolve_left (Option.isSome_iff_ne_none.1 hsome)
      rw [if_pos hsame]
      refine ⟨h, Frame.refl s, fun id hid => ?_⟩
      rw [hp, hsame] at hid
      simpa using hid
    · rw [if_neg hsame]
      obtain ⟨hcore, hframe, hact, -, hkept⟩ := deactivate_spec env h hfreed
      have hnew' : ∀ c ∈ new, c ∈ (s.activeConstraint env none false).constraints := by
        intro c hc
        refine hkept c (hnew c hc) fun hid => hsame ?_
        rw [hid, Option.mem_def.1 hc]
        rfl
      obtain ⟨hcore', hframe', honly⟩ := replacePending_spec env hcore hact hnew'
      exact ⟨hcore', hframe.trans hframe', honly⟩
  · rw [if_neg hsome]
    exact replacePending_spec env h (by simpa using hsome) hnew

end FlakeWm.Constraints
