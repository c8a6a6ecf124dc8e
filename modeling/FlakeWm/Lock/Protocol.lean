import FlakeWm.Lock.Announce

/-! The requests of lockers: a new lock, a lock surface, the death of a locker. A new lock starts
    with a fresh tree on every enabled output, whatever lock it replaces; a lock that is taken down
    announces nothing on the way, because it is marked as destroying first. -/

namespace FlakeWm.Lock

/-- Taking a lock down ends without a lock and announces nothing. -/
theorem sessionLockDestroy_eq (s : State) : sessionLockDestroy s = { s with lock := none } := by
  unfold sessionLockDestroy
  cases hl : s.lock with
  | none => cases s; cases hl; rfl
  | some lock =>
    -- along the loop only the dying lock changes
    have hloop : ∀ (los : List LockOutput) (s : State) (lock : SessionLock),
        s.lock = some lock → lock.destroying = true →
        ∃ lock', los.foldl (fun s lo => lockOutputDestroy s lo.output) s =
          { s with lock := some lock' } := by
      intro los
      induction los with
      | nil => intro s lock hl _; exact ⟨lock, by cases s; cases hl; rfl⟩
      | cons lo los ih =>
        intro s lock hl hd
        set lock₁ := refocusSurface s.mapped (lock.onOutput lo.output fun lo =>
          { lo with surface := none }) ((lockOutputFromWlrOutput lock lo.output).bind (·.surface))
        set lock₂ : SessionLock := { lock₁ with
          outputs := lock₁.outputs.filter fun lo' => decide (lo'.output ≠ lo.output) }
        have hd₂ : lock₂.destroying = true :=
          (refocusSurface_outputs s.mapped _ _).2.2.2.trans hd
        have hone : lockOutputDestroy s lo.output = { s with lock := some lock₂ } := by
          have hstay : sessionLockTrySendLocked { s with lock := some lock₂ } =
              { s with lock := some lock₂ } := by
            unfold sessionLockTrySendLocked
            simp only [hd₂, Bool.true_or, if_true]
            split <;> rfl
          rw [← hstay]
          simp only [lockOutputDestroy, hl]
          rfl
        rw [List.foldl_cons, hone]
        obtain ⟨lock', h'⟩ := ih { s with lock := some lock₂ } lock₂ rfl hd₂
        exact ⟨lock', h'⟩
    obtain ⟨lock', h'⟩ := hloop lock.outputs
      { s with lock := some { lock with destroying := true } } _ rfl rfl
    simp only [h']

theorem lastRecorded_notes (seq : OutputId → UInt32) (o : OutputId) : ∀ (os : List OutputId)
    (r : List Note), o ∈ os →
    lastRecorded o (os.map (fun o => Note.recorded o (seq o)) ++ r) = some (seq o)
  | [], _, h => by simp at h
  | o' :: os, r, h => by
      rw [List.map_cons, List.cons_append, lastRecorded]
      rcases eq_or_ne o' o with rfl | hne
      · rw [if_pos rfl]
      · rw [if_neg hne]
        exact lastRecorded_notes seq o os r ((List.mem_cons.mp h).resolve_left hne.symm)

/-- The lock built for a new locker has exactly one fresh tree on each enabled output. -/
theorem newSessionLock_trees (s : State) (p : ProtocolLock) :
    (newSessionLock s p).outputs.map (·.output) = (enabledOutputs s).reverse ∧
    (∀ lo ∈ (newSessionLock s p).outputs, lo.previousCommitSeq = (s.output lo.output).commitSeq ∧
      lo.presented = false ∧
      ((s.output lo.output).enabled = true → Placed (s.output lo.output) lo)) ∧
    (newSessionLock s p).lockedSent = false := by
  have hfold : ∀ (os : List OutputId) (lock : SessionLock),
      ((os.foldl (lockOutputCreate s.output) lock).outputs.map (·.output) =
        os.reverse ++ lock.outputs.map (·.output)) ∧
      (∀ lo ∈ (os.foldl (lockOutputCreate s.output) lock).outputs, lo ∈ lock.outputs ∨
        (lo.previousCommitSeq = (s.output lo.output).commitSeq ∧ lo.presented = false ∧
          ((s.output lo.output).enabled = true → Placed (s.output lo.output) lo))) ∧
      (os.foldl (lockOutputCreate s.output) lock).lockedSent = lock.lockedSent := by
    intro os
    induction os with
    | nil => intro lock; exact ⟨by simp, fun lo hlo => Or.inl hlo, rfl⟩
    | cons o os ih =>
      intro lock
      obtain ⟨lo₀, hlo, hseq, hpres, -, hplaced, heq⟩ := lockOutputCreate_outputs s.output lock o
      obtain ⟨h1, h2, h3⟩ := ih (lockOutputCreate s.output lock o)
      rw [heq] at h1 h2 h3
      rw [List.foldl_cons, heq]
      refine ⟨?_, fun lo hmem => ?_, h3⟩
      · rw [h1]; simp [hlo]
      · rcases h2 lo hmem with hmem | hgood
        · rcases List.mem_cons.mp hmem with rfl | hmem
          · exact Or.inr ⟨by rw [hlo]; exact hseq, hpres, by rw [hlo]; exact hplaced⟩
          · exact Or.inl hmem
        · exact Or.inr hgood
  obtain ⟨h1, h2, h3⟩ := hfold (enabledOutputs s)
    { protocolLock := some p, outputs := [], focused := none, abandoned := false,
      lockedSent := false, destroying := false }
  refine ⟨by simpa [newSessionLock] using h1, fun lo hlo => ?_, h3⟩
  exact (h2 lo hlo).resolve_left (by simp)

theorem handleNewLock_step {s : State} (h : Inv s) (p : ProtocolLock) :
    Inv (handleNewLock s p) ∧ SentWhenShown s (handleNewLock s p) := by
  unfold handleNewLock
  split_ifs with hbusy
  · refine ⟨⟨h.nodup, h.living, fun lock hl => ?_⟩, (FlagKept.of_eq rfl).sent⟩
    exact (h.covered lock hl).congr rfl rfl rfl [.refused p] rfl (by simp [Note.silent])
  · simp only [sessionLockDestroy_eq, stopLockRecovery]
    obtain ⟨hids, htree, hunsent⟩ := newSessionLock_trees s p
    set s₁ : State := { s with
      lock := some (focusSurface (newSessionLock s p) none)
      timerArmed := false
      recoveryAttempts := 0
      trace := (enabledOutputs s).reverse.map (fun o => Note.recorded o (s.output o).commitSeq) ++
        s.trace } with hs₁
    have hin : ∀ lo ∈ (newSessionLock s p).outputs, lo.output ∈ (enabledOutputs s).reverse := by
      intro lo hlo
      rw [← hids]
      exact List.mem_map_of_mem hlo
    have hcov₁ : ∀ lock, s₁.lock = some lock → Covered s₁ lock := by
      intro lock hl
      rw [hs₁, Option.some.injEq] at hl
      subst hl
      refine ⟨⟨?_, ?_, ?_, ?_⟩, ?_⟩
      · have hnd : ((newSessionLock s p).outputs.map (·.output)).Nodup := by
          rw [hids, List.nodup_reverse]
          exact h.nodup.filter _
        exact hnd
      · exact fun lo hlo => List.mem_of_mem_filter (List.mem_reverse.mp (hin lo hlo))
      · intro o ho _ he
        have hmem : o ∈ (newSessionLock s p).outputs.map (·.output) := by
          rw [hids, List.mem_reverse]
          exact List.mem_filter.mpr ⟨ho, he⟩
        exact List.mem_map.mp hmem
      · exact fun lo hlo _ he => (htree lo hlo).2.2 he
      · intro lo hlo
        obtain ⟨hseq, hpres, -⟩ := htree lo hlo
        refine ⟨?_, fun hp => by rw [hpres] at hp; exact absurd hp (by simp)⟩
        rw [hseq]
        exact lastRecorded_notes (fun o => (s.output o).commitSeq) lo.output _ s.trace (hin lo hlo)
    have hflag : FlagKept s s₁ := by
      intro lock hl hsent
      rw [hs₁, Option.some.injEq] at hl
      subst hl
      exact absurd (hunsent.symm.trans hsent) (by simp)
    obtain ⟨houts, hout⟩ := sessionLockTrySendLocked_fields s₁
    exact ⟨⟨by rw [houts]; exact h.nodup, by rw [houts, hout]; exact h.living,
      sessionLockTrySendLocked_covered hcov₁⟩,
      sessionLockTrySendLocked_sent hflag fun lock hl => (hcov₁ lock hl).recorded⟩

/-- `f` keeps everything of a tree but its surface. -/
structure KeepsTree (f : LockOutput → LockOutput) : Prop where
  output : ∀ lo, (f lo).output = lo.output
  placed : ∀ {out lo}, Placed out lo → Placed out (f lo)
  recorded : ∀ {trace lo}, Recorded trace lo → Recorded trace (f lo)

theorem keepsTree_surface (p : LockOutput → Prop) [DecidablePred p] (surface : Option Surface) :
    KeepsTree fun lo => if p lo then { lo with surface := surface } else lo := by
  refine ⟨fun lo => ?_, fun h => ?_, fun h => ?_⟩
  · split_ifs <;> rfl
  · split_ifs
    · exact ⟨h.enabled, h.x, h.y, h.width, h.height⟩
    · exact h
  · split_ifs
    · exact ⟨h.seq, h.shown⟩
    · exact h

/-- The invariant does not look at surfaces. -/
theorem CoveredOn.mapTrees {P : OutputId → Prop} {s : State} {lock lock' : SessionLock}
    {f : LockOutput → LockOutput} (h : CoveredOn P s lock) (hf : KeepsTree f)
    (hlo : lock'.outputs = lock.outputs.map f) : CoveredOn P s lock' := by
  have hmem : ∀ lo' ∈ lock'.outputs, ∃ lo ∈ lock.outputs, lo' = f lo := by
    intro lo' hlo'
    rw [hlo] at hlo'
    obtain ⟨lo, hm, rfl⟩ := List.mem_map.mp hlo'
    exact ⟨lo, hm, rfl⟩
  refine ⟨⟨?_, fun lo' hlo' => ?_, fun o ho hP he => ?_, fun lo' hlo' hP he => ?_⟩,
    fun lo' hlo' => ?_⟩
  · have hids : (lock.outputs.map f).map (·.output) = lock.outputs.map (·.output) := by
      rw [List.map_map]
      exact List.map_congr_left fun lo _ => hf.output lo
    rw [hlo, hids]
    exact h.nodup
  · obtain ⟨lo, hm, rfl⟩ := hmem lo' hlo'
    rw [hf.output]; exact h.listed lo hm
  · obtain ⟨lo, hm, rfl⟩ := h.covers o ho hP he
    exact ⟨f lo, by rw [hlo]; exact List.mem_map_of_mem hm, hf.output lo⟩
  · obtain ⟨lo, hm, rfl⟩ := hmem lo' hlo'
    rw [hf.output] at hP he ⊢
    exact hf.placed (h.placed lo hm hP he)
  · obtain ⟨lo, hm, rfl⟩ := hmem lo' hlo'
    exact hf.recorded (h.recorded lo hm)

theorem handleNewSurface_step {s s' : State} (h : Inv s) {lock : SessionLock}
    (hl : s.lock = some lock) {surface : Surface} {o : OutputId} (ho : o ∈ s.outputs)
    (hs : handleNewSurface s lock surface o = some s') : Inv s' ∧ SentWhenShown s s' := by
  have hc := h.covered lock hl
  unfold handleNewSurface at hs
  simp only at hs
  -- a tree that had to be created comes with its record
  obtain ⟨hcov₁, hsent, hproto⟩ : Covered { s with
        trace := (if (lockOutputFromWlrOutput lock o).isSome then []
          else [Note.recorded o (s.output o).commitSeq]) ++ s.trace } (withTree s.output lock o) ∧
      (withTree s.output lock o).lockedSent = lock.lockedSent ∧
      (withTree s.output lock o).protocolLock = lock.protocolLock := by
    unfold withTree
    cases hlo : lockOutputFromWlrOutput lock o with
    | some _ => exact ⟨hc, rfl, rfl⟩
    | none =>
      exact ⟨lockOutputCreate_covered (hc.mono fun _ _ => trivial) ho
        (lockOutputFromWlrOutput_none.mp hlo), rfl, rfl⟩
  generalize (if (lockOutputFromWlrOutput lock o).isSome then []
    else [Note.recorded o (s.output o).commitSeq]) = notes at hs hcov₁
  generalize withTree s.output lock o = lock₁ at hs hcov₁ hsent hproto
  split_ifs at hs
  rw [Option.some.injEq] at hs
  subst hs
  set lock₂ := lock₁.onOutput o fun lo => { lo with surface := some surface } with hlock₂
  set s₁ : State := { s with lock := some lock₂, trace := notes ++ s.trace } with hs₁
  have hcov₂ : Covered s₁ lock₂ := by
    have hsame : Covered s₁ lock₁ :=
      ⟨⟨hcov₁.nodup, hcov₁.listed, hcov₁.covers, hcov₁.placed⟩, hcov₁.recorded⟩
    exact hsame.mapTrees (keepsTree_surface (·.output = o) (some surface)) rfl
  obtain ⟨houts, hout⟩ := lockOutputConfigure_fields s₁ o
  refine ⟨⟨by rw [houts]; exact h.nodup, by rw [houts, hout]; exact h.living, ?_⟩, ?_⟩
  · exact lockOutputConfigure_covered rfl (hcov₂.mono fun _ _ => trivial)
      (fun he lo hlo hout => (hcov₂.placed lo hlo trivial (by rw [hout]; exact he)).enabled)
      (fun ho => hcov₂.covers o ho trivial)
  · refine FlagKept.sent fun lock' hl' hs' => ?_
    obtain ⟨lock₃, hl₃, hs₃, hp₃⟩ := lockOutputConfigure_flag s₁ o lock' hl' hs'
    rw [hs₁, Option.some.injEq] at hl₃
    subst hl₃
    refine ⟨lock, hl, hsent.symm.trans hs₃, ?_⟩
    rcases hp₃ with hp₃ | hp₃
    · exact Or.inl (hp₃.trans hproto)
    · exact Or.inr hp₃

/-- Changing a lock in ways the invariant does not read. -/
theorem Inv.mapLock {s s' : State} (h : Inv s) {f : SessionLock → SessionLock}
    (hlock : s'.lock = s.lock.map f) (houts : s'.outputs = s.outputs)
    (hout : s'.output = s.output) (htr : s'.trace = s.trace)
    (hf : ∀ lock, Covered s lock → Covered s (f lock))
    (hsent : ∀ lock, (f lock).lockedSent = lock.lockedSent ∧
      (f lock).protocolLock = lock.protocolLock) : Inv s' ∧ SentWhenShown s s' := by
  refine ⟨⟨by rw [houts]; exact h.nodup, by rw [houts, hout]; exact h.living, ?_⟩,
    FlagKept.sent ?_⟩
  · intro lock' hl'
    rw [hlock, Option.map_eq_some_iff] at hl'
    obtain ⟨lock, hl, rfl⟩ := hl'
    exact (hf lock (h.covered lock hl)).congr rfl houts hout [] htr (by simp)
  · intro lock' hl' hs'
    rw [hlock, Option.map_eq_some_iff] at hl'
    obtain ⟨lock, hl, rfl⟩ := hl'
    exact ⟨lock, hl, (hsent lock).1.symm.trans hs', Or.inl (hsent lock).2⟩

theorem handleLockAbandoned_step {s : State} (h : Inv s) {lock : SessionLock}
    (hl : s.lock = some lock) :
    Inv (handleLockAbandoned s lock) ∧ SentWhenShown s (handleLockAbandoned s lock) := by
  unfold handleLockAbandoned
  split_ifs with hsent
  · rw [sessionLockDestroy_eq]
    exact ⟨⟨h.nodup, h.living, fun _ hl => by simp at hl⟩, fun _ hl => by simp at hl⟩
  · refine ⟨⟨h.nodup, h.living, fun lock' hl' => ?_⟩, FlagKept.sent fun lock' hl' _ => ?_⟩
    · rw [Option.some.injEq] at hl'
      subst hl'
      exact (h.covered lock hl).congr rfl rfl rfl [] rfl (by simp)
    · rw [Option.some.injEq] at hl'
      subst hl'
      exact ⟨lock, hl, by simpa using hsent, Or.inr rfl⟩

end FlakeWm.Lock
