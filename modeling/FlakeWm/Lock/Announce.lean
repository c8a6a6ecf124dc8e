import FlakeWm.Lock.Trees

/-! The handlers of output signals, one by one.

    Each handler gets two lemmas: it restores `Covered`, and it sets `locked_sent` only for a lock
    whose enabled outputs have all shown it (`SentWhenShown`). Three handlers can complete the
    handshake (a presentation, a disabled output, a destroyed output) and so can a new lock without
    any enabled output; all of them do it through `session_lock_try_send_locked`. -/

namespace FlakeWm.Lock

/-- Every enabled output of the lock has shown it since it was recorded. -/
def AllShown (s : State) (lock : SessionLock) : Prop :=
  ∀ lo ∈ lock.outputs, (s.output lo.output).enabled = true → shownSince lo.output s.trace = true

/-- The lock of `s'` with `locked_sent` set is the lock of `s`, where the flag was set too. -/
def FlagKept (s s' : State) : Prop :=
  ∀ lock', s'.lock = some lock' → lock'.lockedSent = true →
    ∃ lock, s.lock = some lock ∧ lock.lockedSent = true ∧
      (lock'.protocolLock = lock.protocolLock ∨ lock'.protocolLock = none)

/-- `locked_sent` was set before for this lock, or is set with every enabled output showing it. -/
def SentWhenShown (s s' : State) : Prop :=
  ∀ lock', s'.lock = some lock' → lock'.lockedSent = true →
    (∃ lock, s.lock = some lock ∧ lock.lockedSent = true ∧
      (lock'.protocolLock = lock.protocolLock ∨ lock'.protocolLock = none)) ∨ AllShown s' lock'

theorem FlagKept.sent {s s' : State} (h : FlagKept s s') : SentWhenShown s s' :=
  fun lock' hl hs => Or.inl (h lock' hl hs)

theorem FlagKept.of_eq {s s' : State} (h : s'.lock = s.lock) : FlagKept s s' := by
  intro lock' hl hs
  exact ⟨lock', h ▸ hl, hs, Or.inl rfl⟩

/-! ### Announcing -/

/-- `session_lock_try_send_locked` does nothing, or announces a lock all of whose enabled outputs
    have presented it. -/
theorem sessionLockTrySendLocked_cases (s : State) :
    sessionLockTrySendLocked s = s ∨
    ∃ lock p, s.lock = some lock ∧ lock.protocolLock = some p ∧ lock.lockedSent = false ∧
      (∀ lo ∈ lock.outputs, (s.output lo.output).enabled = true → lo.presented = true) ∧
      sessionLockTrySendLocked s = { s with
        lock := some { lock with lockedSent := true }
        trace := .locked p :: s.trace } := by
  unfold sessionLockTrySendLocked
  cases hl : s.lock with
  | none => exact Or.inl rfl
  | some lock =>
    cases hp : lock.protocolLock with
    | none => left; simp only [hp]
    | some p =>
      simp only [hp]
      split_ifs with h1 h2
      · exact Or.inl rfl
      · exact Or.inl rfl
      · refine Or.inr ⟨lock, p, rfl, hp, ?_, ?_, by rw [hp]⟩
        · simp only [Bool.or_eq_true, not_or, Bool.not_eq_true] at h1; exact h1.2
        · intro lo hlo hen
          simp only [List.any_eq_true, Bool.and_eq_true, Bool.not_eq_true', not_exists, not_and,
            Bool.not_eq_false] at h2
          exact h2 lo hlo hen

theorem sessionLockTrySendLocked_covered {P : OutputId → Prop} {s : State}
    (h : ∀ lock, s.lock = some lock → CoveredOn P s lock) :
    ∀ lock', (sessionLockTrySendLocked s).lock = some lock' →
      CoveredOn P (sessionLockTrySendLocked s) lock' := by
  rcases sessionLockTrySendLocked_cases s with heq | ⟨lock, p, hl, _, _, _, heq⟩
  · rw [heq]; exact h
  · rw [heq]
    intro lock' hl'
    rw [Option.some.injEq] at hl'
    subst hl'
    exact (h lock hl).congr rfl rfl rfl [.locked p] rfl (by simp [Note.silent])

theorem sessionLockTrySendLocked_sent {s s₁ : State} (hflag : FlagKept s s₁)
    (hrec : ∀ lock, s₁.lock = some lock → ∀ lo ∈ lock.outputs, Recorded s₁.trace lo) :
    SentWhenShown s (sessionLockTrySendLocked s₁) := by
  rcases sessionLockTrySendLocked_cases s₁ with heq | ⟨lock, p, hl, _, _, hpres, heq⟩
  · rw [heq]; exact hflag.sent
  · rw [heq]
    intro lock' hl' _
    rw [Option.some.injEq] at hl'
    subst hl'
    refine Or.inr fun lo hlo hen => ?_
    have hshown := (hrec lock hl lo hlo).shown (hpres lo hlo hen)
    exact hshown

theorem sessionLockTrySendLocked_fields (s : State) :
    (sessionLockTrySendLocked s).outputs = s.outputs ∧
      (sessionLockTrySendLocked s).output = s.output := by
  rcases sessionLockTrySendLocked_cases s with heq | ⟨lock, p, _, _, _, _, heq⟩ <;> rw [heq]
  · exact ⟨rfl, rfl⟩
  · exact ⟨rfl, rfl⟩

/-! ### Handlers of output signals -/

theorem refocusSurface_outputs (mapped : Surface → Bool) (lock : SessionLock)
    (removed : Option Surface) :
    (refocusSurface mapped lock removed).outputs = lock.outputs ∧
    (refocusSurface mapped lock removed).lockedSent = lock.lockedSent ∧
    (refocusSurface mapped lock removed).protocolLock = lock.protocolLock ∧
    (refocusSurface mapped lock removed).destroying = lock.destroying := by
  unfold refocusSurface focusSurface
  split_ifs <;> exact ⟨rfl, rfl, rfl, rfl⟩

theorem configureNotes_silent (lock : SessionLock) (o : OutputId) (g : Box) :
    ∀ n ∈ configureNotes lock o g, n.silent := by
  intro n hn
  simp only [configureNotes, List.mem_filterMap] at hn
  obtain ⟨lo, _, hn⟩ := hn
  split_ifs at hn
  · obtain ⟨_, _, rfl⟩ := Option.map_eq_some_iff.mp hn
    rfl

theorem lockOutputConfigure_some {s : State} {lock : SessionLock} (o : OutputId)
    (hl : s.lock = some lock) :
    lockOutputConfigure s o = { s with
      lock := some (lock.onOutput o (LockOutput.cover (s.output o).geometry))
      trace := configureNotes lock o (s.output o).geometry ++ s.trace } := by
  simp only [lockOutputConfigure, hl]

/-- Re-covering an output whose tree is shown puts the tree back on its geometry. -/
theorem lockOutputConfigure_covered {s : State} {o : OutputId} {lock : SessionLock}
    (hl : s.lock = some lock) (h : CoveredOn (· ≠ o) s lock)
    (hen : (s.output o).enabled = true → ∀ lo ∈ lock.outputs, lo.output = o →
      lo.treeEnabled = true)
    (hcov : o ∈ s.outputs → (s.output o).enabled = true → ∃ lo ∈ lock.outputs, lo.output = o) :
    ∀ lock', (lockOutputConfigure s o).lock = some lock' →
      Covered (lockOutputConfigure s o) lock' := by
  rw [lockOutputConfigure_some o hl]
  intro lock' hl'
  rw [Option.some.injEq] at hl'
  subst hl'
  have hsil := configureNotes_silent lock o (s.output o).geometry
  refine h.toTreesOn.onOutput (fun _ => rfl) rfl (fun _ _ => rfl) ?_ ?_ ?_ hcov
  · exact fun lo hlo _ => (h.recorded lo hlo).silent hsil
  · intro lo hlo _
    have hr := (h.recorded lo hlo).silent hsil
    exact ⟨hr.seq, hr.shown⟩
  · exact fun lo hlo ho he => ⟨hen he lo hlo ho, rfl, rfl, rfl, rfl⟩

theorem lockOutputConfigure_flag (s : State) (o : OutputId) :
    FlagKept s (lockOutputConfigure s o) := by
  intro lock' hl' hs
  cases hl : s.lock with
  | none => simp [lockOutputConfigure, hl] at hl'
  | some lock =>
    rw [lockOutputConfigure_some o hl, Option.some.injEq] at hl'
    subst hl'
    exact ⟨lock, rfl, hs, Or.inl rfl⟩

theorem lockOutputConfigure_fields (s : State) (o : OutputId) :
    (lockOutputConfigure s o).outputs = s.outputs ∧
      (lockOutputConfigure s o).output = s.output := by
  cases hl : s.lock with
  | none => simp [lockOutputConfigure, hl]
  | some lock => rw [lockOutputConfigure_some o hl]; exact ⟨rfl, rfl⟩

theorem handleOutputPresent_step {s : State} (h : Inv s) (o : OutputId) (seq : UInt32) (b : Bool) :
    Inv (handleOutputPresent s o seq b) ∧ SentWhenShown s (handleOutputPresent s o seq b) := by
  have hnote : ∀ lock, s.lock = some lock →
      Covered { s with trace := .present o seq b :: s.trace } lock := by
    intro lock hl
    have hc := h.covered lock hl
    exact ⟨⟨hc.nodup, hc.listed, hc.covers, hc.placed⟩,
      fun lo hlo => (hc.recorded lo hlo).present⟩
  have hkeep : Inv { s with trace := .present o seq b :: s.trace } ∧
      SentWhenShown s { s with trace := .present o seq b :: s.trace } :=
    ⟨⟨h.nodup, h.living, hnote⟩, (FlagKept.of_eq rfl).sent⟩
  unfold handleOutputPresent
  cases hl : s.lock with
  | none => simpa only [hl] using hkeep
  | some lock =>
    simp only
    cases hlo : lockOutputFromWlrOutput lock o with
    | none => simpa only [hl] using hkeep
    | some lo =>
      simp only
      split_ifs with hc
      · simpa only [hl] using hkeep
      · simp only [Bool.or_eq_true, Bool.not_eq_true', decide_eq_true_eq, not_or,
          Bool.not_eq_false] at hc
        obtain ⟨⟨⟨_, _⟩, hseq⟩, hb⟩ := hc
        obtain ⟨hmem, hout⟩ := mem_lockOutputFromWlrOutput hlo
        have hcov := hnote lock hl
        -- the frame just presented is the one the new flag stands for
        have hshown : shownSince o (.present o seq b :: s.trace) = true := by
          have hlast := ((h.covered lock hl).recorded lo hmem).seq
          rw [hout] at hlast
          simp only [shownSince, hlast, decide_true, hb, Bool.true_and, Bool.or_eq_true,
            bne_iff_ne, ne_eq, Option.some.injEq]
          exact Or.inl fun he => hseq he.symm
        set s₁ : State := { s with
          lock := some (lock.onOutput o fun lo => { lo with presented := true })
          trace := .present o seq b :: s.trace } with hs₁
        have hcov₁ : ∀ lock', s₁.lock = some lock' → Covered s₁ lock' := by
          intro lock' hl'
          rw [hs₁, Option.some.injEq] at hl'
          subst hl'
          refine (hcov.mono fun _ _ => trivial).toTreesOn.onOutput (fun _ => rfl) rfl (fun _ _ => rfl)
            (fun lo' hlo' _ => hcov.recorded lo' hlo') ?_ ?_ (fun ho => hcov.covers o ho trivial)
          · intro lo' hlo' ho
            exact ⟨(hcov.recorded lo' hlo').seq, fun _ => by rw [ho]; exact hshown⟩
          · intro lo' hlo' ho he
            have hp := hcov.placed lo' hlo' trivial (by rw [ho]; exact he)
            rw [ho] at hp
            exact ⟨hp.enabled, hp.x, hp.y, hp.width, hp.height⟩
        have hflag : FlagKept s s₁ := by
          intro lock' hl' hsent
          rw [hs₁, Option.some.injEq] at hl'
          subst hl'
          exact ⟨lock, hl, hsent, Or.inl rfl⟩
        obtain ⟨houts, hout⟩ := sessionLockTrySendLocked_fields s₁
        refine ⟨⟨by rw [houts]; exact h.nodup, by rw [houts, hout]; exact h.living,
          sessionLockTrySendLocked_covered hcov₁⟩,
          sessionLockTrySendLocked_sent hflag fun lock' hl' => (hcov₁ lock' hl').recorded⟩

/-- Destroying the tree of `o` leaves the other outputs covered and no tree of `o`. -/
theorem lockOutputDestroy_covered {s : State} {o : OutputId}
    (h : ∀ lock, s.lock = some lock → CoveredOn (· ≠ o) s lock) :
    (∀ lock', (lockOutputDestroy s o).lock = some lock' →
      CoveredOn (· ≠ o) (lockOutputDestroy s o) lock' ∧ ∀ lo ∈ lock'.outputs, lo.output ≠ o) ∧
    SentWhenShown s (lockOutputDestroy s o) ∧
    (lockOutputDestroy s o).outputs = s.outputs ∧ (lockOutputDestroy s o).output = s.output := by
  unfold lockOutputDestroy
  cases hl : s.lock with
  | none =>
    exact ⟨fun lock' hl' => absurd (hl.symm.trans hl') (by simp), (FlagKept.of_eq rfl).sent,
      rfl, rfl⟩
  | some lock =>
    simp only
    have hc := h lock hl
    set lock₁ := lock.onOutput o fun lo => { lo with surface := none } with hlock₁
    obtain ⟨hro, hrs, hrp, -⟩ := refocusSurface_outputs s.mapped lock₁
      ((lockOutputFromWlrOutput lock o).bind (·.surface))
    set lock₂ := refocusSurface s.mapped lock₁
      ((lockOutputFromWlrOutput lock o).bind (·.surface)) with hlock₂
    -- what is left are the trees of the other outputs, untouched
    have hleft : ∀ lo, lo ∈ lock₂.outputs.filter (fun lo => decide (lo.output ≠ o)) ↔
        lo ∈ lock.outputs ∧ lo.output ≠ o := by
      intro lo
      rw [List.mem_filter, decide_eq_true_eq, hro]
      constructor
      · rintro ⟨hmem, hne⟩
        obtain ⟨lo₀, hlo₀, ⟨ho, rfl⟩ | ⟨-, rfl⟩⟩ := mem_onOutput hmem
        · exact absurd ho hne
        · exact ⟨hlo₀, hne⟩
      · rintro ⟨hmem, hne⟩
        exact ⟨List.mem_map.mpr ⟨lo, hmem, if_neg hne⟩, hne⟩
    set s₁ : State := { s with
      lock := some { lock₂ with
        outputs := lock₂.outputs.filter fun lo => decide (lo.output ≠ o) } } with hs₁
    have hcov₁ : ∀ lock', s₁.lock = some lock' → CoveredOn (· ≠ o) s₁ lock' := by
      intro lock' hl'
      rw [hs₁, Option.some.injEq] at hl'
      subst hl'
      have hnd : (lock₂.outputs.map (·.output)).Nodup := by
        rw [hro, hlock₁, map_output_onOutput]
        · exact hc.nodup
        · exact fun _ => rfl
      refine ⟨⟨(List.filter_sublist.map _).nodup hnd, ?_, ?_, ?_⟩, ?_⟩
      · exact fun lo hlo => hc.listed lo ((hleft lo).mp hlo).1
      · intro o' ho' hne hen
        obtain ⟨lo, hlo, rfl⟩ := hc.covers o' ho' hne hen
        exact ⟨lo, (hleft lo).mpr ⟨hlo, hne⟩, rfl⟩
      · exact fun lo hlo => hc.placed lo ((hleft lo).mp hlo).1
      · exact fun lo hlo => hc.recorded lo ((hleft lo).mp hlo).1
    have hflag : FlagKept s s₁ := by
      intro lock' hl' hsent
      rw [hs₁, Option.some.injEq] at hl'
      subst hl'
      exact ⟨lock, hl, hrs.symm.trans hsent, Or.inl hrp⟩
    refine ⟨fun lock' hl' => ⟨sessionLockTrySendLocked_covered hcov₁ lock' hl', ?_⟩,
      sessionLockTrySendLocked_sent hflag fun lock' hl' => (hcov₁ lock' hl').recorded,
      sessionLockTrySendLocked_fields s₁⟩
    have hno : ∀ lock', s₁.lock = some lock' → ∀ lo ∈ lock'.outputs, lo.output ≠ o := by
      intro lock' hl' lo hlo
      rw [hs₁, Option.some.injEq] at hl'
      subst hl'
      exact ((hleft lo).mp hlo).2
    rcases sessionLockTrySendLocked_cases s₁ with heq | ⟨lock₃, p, hl₃, _, _, _, heq⟩
    · rw [heq] at hl'; exact hno lock' hl'
    · rw [heq, Option.some.injEq] at hl'
      subst hl'
      exact hno lock₃ hl₃

theorem handleOutputDisable_none {s : State} {o : OutputId} (hl : s.lock = none) :
    handleOutputDisable s o = s := by
  simp only [handleOutputDisable, hl]

/-- A disabled output loses its tree's visibility, not its tree; the others may now be all shown. -/
theorem handleOutputDisable_covered {s : State} {o : OutputId}
    (h : ∀ lock, s.lock = some lock → CoveredOn (· ≠ o) s lock)
    (hdis : (s.output o).enabled = false) (hliv : (s.output o).destroying = false) :
    (∀ lock', (handleOutputDisable s o).lock = some lock' →
      Covered (handleOutputDisable s o) lock') ∧
    SentWhenShown s (handleOutputDisable s o) ∧
    (handleOutputDisable s o).outputs = s.outputs ∧
      (handleOutputDisable s o).output = s.output := by
  -- with `o` disabled the invariant promises nothing about it
  have hall : ∀ lock, s.lock = some lock → Covered s lock := by
    intro lock hl
    have hc := h lock hl
    refine ⟨⟨hc.nodup, hc.listed, fun o' ho' _ he => ?_, fun lo hlo _ he => ?_⟩, hc.recorded⟩
    · exact hc.covers o' ho' (by rintro rfl; simp [hdis] at he) he
    · exact hc.placed lo hlo (by intro ho; simp [ho, hdis] at he) he
  have hkeep := And.intro hall (And.intro (FlagKept.of_eq (s := s) rfl).sent
    (And.intro (rfl : s.outputs = s.outputs) (rfl : s.output = s.output)))
  cases hl : s.lock with
  | none => rw [handleOutputDisable_none hl]; exact hkeep
  | some lock =>
    unfold handleOutputDisable
    simp only [hl, hliv, Bool.false_eq_true, if_false]
    cases lockOutputFromWlrOutput lock o with
    | none => exact hkeep
    | some _ =>
      simp only
      set s₁ : State := { s with
        lock := some (lock.onOutput o fun lo => { lo with treeEnabled := false }) } with hs₁
      have hc := h lock hl
      have hcov₁ : ∀ lock', s₁.lock = some lock' → Covered s₁ lock' := by
        intro lock' hl'
        rw [hs₁, Option.some.injEq] at hl'
        subst hl'
        refine hc.toTreesOn.onOutput (fun _ => rfl) rfl (fun _ _ => rfl) (fun lo hlo _ => hc.recorded lo hlo)
          ?_ ?_ ?_
        · exact fun lo hlo _ => ⟨(hc.recorded lo hlo).seq, (hc.recorded lo hlo).shown⟩
        · exact fun _ _ _ he => by simp [hs₁, hdis] at he
        · exact fun _ he => by simp [hs₁, hdis] at he
      have hflag : FlagKept s s₁ := by
        intro lock' hl' hsent
        rw [hs₁, Option.some.injEq] at hl'
        subst hl'
        exact ⟨lock, hl, hsent, Or.inl rfl⟩
      exact ⟨sessionLockTrySendLocked_covered hcov₁,
        sessionLockTrySendLocked_sent hflag fun lock' hl' => (hcov₁ lock' hl').recorded,
        sessionLockTrySendLocked_fields s₁⟩

/-- A tree as `lock_output_create` leaves it. -/
theorem lockOutputCreate_outputs (output : OutputId → Output) (lock : SessionLock) (o : OutputId) :
    ∃ lo, lo.output = o ∧ lo.previousCommitSeq = (output o).commitSeq ∧ lo.presented = false ∧
      lo.surface = none ∧ ((output o).enabled = true → Placed (output o) lo) ∧
      lockOutputCreate output lock o = { lock with outputs := lo :: lock.outputs } :=
  ⟨_, rfl, rfl, rfl, rfl, fun he => ⟨he, rfl, rfl, rfl, rfl⟩, rfl⟩

/-- A new tree on an output without one restores the invariant there. -/
theorem lockOutputCreate_covered {s : State} {o : OutputId} {lock : SessionLock}
    (h : CoveredOn (· ≠ o) s lock) (ho : o ∈ s.outputs) (hno : ∀ lo ∈ lock.outputs, lo.output ≠ o) :
    Covered { s with trace := .recorded o (s.output o).commitSeq :: s.trace }
      (lockOutputCreate s.output lock o) := by
  obtain ⟨lo₀, hlo, hseq, hpres, -, hplaced, heq⟩ := lockOutputCreate_outputs s.output lock o
  rw [heq]
  refine ⟨⟨?_, ?_, ?_, ?_⟩, ?_⟩
  · rw [List.map_cons, List.nodup_cons]
    refine ⟨fun hmem => ?_, h.nodup⟩
    obtain ⟨lo, hlo', he⟩ := List.mem_map.mp hmem
    exact hno lo hlo' (he.trans hlo)
  · intro lo hmem
    rcases List.mem_cons.mp hmem with rfl | hmem
    · rw [hlo]; exact ho
    · exact h.listed lo hmem
  · intro o' ho' _ hen
    rcases eq_or_ne o' o with rfl | hne
    · exact ⟨lo₀, List.mem_cons_self .., hlo⟩
    · obtain ⟨lo, hmem, he⟩ := h.covers o' ho' hne hen
      exact ⟨lo, List.mem_cons_of_mem _ hmem, he⟩
  · intro lo hmem _ hen
    rcases List.mem_cons.mp hmem with rfl | hmem
    · rw [hlo] at hen ⊢; exact hplaced hen
    · exact h.placed lo hmem (hno lo hmem) hen
  · intro lo hmem
    rcases List.mem_cons.mp hmem with rfl | hmem
    · refine ⟨?_, fun hp => ?_⟩
      · rw [lastRecorded, if_pos hlo.symm, hseq]
      · rw [hpres] at hp; exact absurd hp (by simp)
    · exact (h.recorded lo hmem).other (hno lo hmem)

/-- What `handle_new_output` writes to the trees of the output it is about. -/
def LockOutput.restart (out : Output) (lo : LockOutput) : LockOutput :=
  { LockOutput.cover out.geometry
      { lo with presented := false, previousCommitSeq := out.commitSeq } with treeEnabled := true }

theorem handleNewOutput_some {s : State} {lock : SessionLock} (o : OutputId)
    (hl : s.lock = some lock) :
    ∃ notes, (∀ n ∈ notes, n.silent) ∧ handleNewOutput s o = { s with
      lock := some ((withTree s.output lock o).onOutput o (LockOutput.restart (s.output o)))
      trace := notes ++ .recorded o (s.output o).commitSeq :: s.trace } := by
  refine ⟨_, configureNotes_silent ((withTree s.output lock o).onOutput o fun lo =>
    { lo with presented := false, previousCommitSeq := (s.output o).commitSeq }) o
    (s.output o).geometry, ?_⟩
  unfold handleNewOutput
  simp only [hl]
  rw [lockOutputConfigure_some o rfl, Option.map_some, onOutput_onOutput, onOutput_onOutput]
  · rfl
  · exact fun _ => rfl
  · exact fun _ => rfl

theorem withTree_trees {s : State} {o : OutputId} {lock : SessionLock}
    (h : CoveredOn (· ≠ o) s lock) (ho : o ∈ s.outputs) :
    TreesOn (· ≠ o) s (withTree s.output lock o) ∧
    (∃ lo ∈ (withTree s.output lock o).outputs, lo.output = o) ∧
    (∀ lo ∈ (withTree s.output lock o).outputs, lo.output ≠ o → lo ∈ lock.outputs) ∧
    (withTree s.output lock o).lockedSent = lock.lockedSent ∧
    (withTree s.output lock o).protocolLock = lock.protocolLock := by
  unfold withTree
  cases hlo : lockOutputFromWlrOutput lock o with
  | some lo =>
    obtain ⟨hmem, hout⟩ := mem_lockOutputFromWlrOutput hlo
    exact ⟨h.toTreesOn, ⟨lo, hmem, hout⟩, fun lo hlo _ => hlo, rfl, rfl⟩
  | none =>
    have hno := lockOutputFromWlrOutput_none.mp hlo
    have hc := (lockOutputCreate_covered h ho hno).toTreesOn
    obtain ⟨lo₀, hlo₀, -, -, -, -, heq⟩ := lockOutputCreate_outputs s.output lock o
    simp only
    rw [heq] at hc ⊢
    refine ⟨⟨hc.nodup, hc.listed, fun o' ho' _ => hc.covers o' ho' trivial,
      fun lo hlo _ => hc.placed lo hlo trivial⟩, ⟨lo₀, List.mem_cons_self .., hlo₀⟩, ?_, rfl, rfl⟩
    intro lo hmem hne
    rcases List.mem_cons.mp hmem with rfl | hmem
    · exact absurd hlo₀ hne
    · exact hmem

/-- A newly enabled output gets a tree on its geometry, and has to present it anew. -/
theorem handleNewOutput_covered {s : State} {o : OutputId}
    (h : ∀ lock, s.lock = some lock → CoveredOn (· ≠ o) s lock) (ho : o ∈ s.outputs) :
    (∀ lock', (handleNewOutput s o).lock = some lock' → Covered (handleNewOutput s o) lock') ∧
    FlagKept s (handleNewOutput s o) ∧
    (handleNewOutput s o).outputs = s.outputs ∧ (handleNewOutput s o).output = s.output := by
  cases hl : s.lock with
  | none =>
    have heq : handleNewOutput s o = s := by simp only [handleNewOutput, hl]
    rw [heq]
    exact ⟨fun lock' hl' => absurd (hl.symm.trans hl') (by simp), FlagKept.of_eq rfl, rfl, rfl⟩
  | some lock =>
    obtain ⟨notes, hsil, heq⟩ := handleNewOutput_some o hl
    obtain ⟨htrees, htree, hold, hsent, hproto⟩ := withTree_trees (h lock hl) ho
    rw [heq]
    refine ⟨fun lock' hl' => ?_, fun lock' hl' hs => ?_, rfl, rfl⟩
    · rw [Option.some.injEq] at hl'
      subst hl'
      refine htrees.onOutput (fun _ => rfl) rfl (fun _ _ => rfl) ?_ ?_ ?_ (fun _ _ => htree)
      · intro lo hlo hne
        exact (((h lock hl).recorded lo (hold lo hlo hne)).other hne).silent hsil
      · intro lo _ hout
        have hrec : Recorded (.recorded o (s.output o).commitSeq :: s.trace)
            (lo.restart (s.output o)) := by
          refine ⟨?_, fun hp => absurd hp (by simp [LockOutput.restart, LockOutput.cover])⟩
          have hro : (lo.restart (s.output o)).output = o := hout
          rw [hro, lastRecorded, if_pos rfl]
          rfl
        exact hrec.silent hsil
      · exact fun lo _ _ _ => ⟨rfl, rfl, rfl, rfl, rfl⟩
    · rw [Option.some.injEq] at hl'
      subst hl'
      exact ⟨lock, hl, hsent.symm.trans hs, Or.inl hproto⟩

end FlakeWm.Lock
