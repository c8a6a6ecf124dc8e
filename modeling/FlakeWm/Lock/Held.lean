import FlakeWm.Lock.Cover

/-! Whether a locked session can come open without an unlock.

    `held` reads the trace: `locked` was announced and no unlock was handled since. The session must
    then be active. It is, except when the client of a *replacement* lock dies before its own
    `locked`: `handle_lock_abandoned` looks at the flag of the new lock only and takes the session
    down, although the abandoned lock it replaced had been announced. `replacementSurvives` is the
    condition that this does not happen, and the first event that breaks it opens the session. -/

namespace FlakeWm.Lock

/-- `locked` was sent, and no unlock was handled since. -/
def held : List Note → Bool
  | [] => false
  | .locked _ :: _ => true
  | .unlocked _ :: _ => false
  | _ :: r => held r

/-- The client that dies has a lock that was announced, or the session was not locked before. -/
def replacementSurvives (s : State) : Event → Bool
  | .destroy p => (listening s p).all fun lock => lock.lockedSent || !held s.trace
  | _ => true

/-! ### Handlers that neither install nor remove a lock -/

/-- A lock stays, and without a lock nothing is announced. -/
structure Stays (s s' : State) : Prop where
  some : s.lock.isSome = true → s'.lock.isSome = true
  none : s.lock = Option.none → s'.lock = Option.none ∧ held s'.trace = held s.trace

/-- Whatever is kept of a held session by a step that is not an unlock or a death. -/
theorem Stays.held_active {s s' : State} (h : Stays s s')
    (hs : held s.trace = true → s.lock.isSome = true) (ht : held s'.trace = true) :
    s'.lock.isSome = true := by
  cases hl : s.lock with
  | none =>
    rw [(h.none hl).2] at ht
    simp [hl] at hs
    exact absurd ht (by simp [hs])
  | some lock => exact h.some (by rw [hl]; rfl)

theorem Stays.rfl' {s s' : State} (hl : s'.lock.isSome = s.lock.isSome)
    (ht : held s'.trace = held s.trace) : Stays s s' := by
  refine ⟨fun h => by rw [hl]; exact h, fun h => ⟨?_, ht⟩⟩
  rw [h, Option.isSome_none, Option.isSome_eq_false_iff, Option.isNone_iff_eq_none] at hl
  exact hl

/-- A step that leaves the lock and the announcements alone keeps a held session active. -/
theorem held_active_of_same {s s' : State} (hs : held s.trace = true → s.lock.isSome = true)
    (hl : s'.lock.isSome = s.lock.isSome) (ht : held s'.trace = held s.trace) :
    held s'.trace = true → s'.lock.isSome = true := by
  rw [hl, ht]
  exact hs

theorem Stays.trans {s s₁ s' : State} (h : Stays s s₁) (h' : Stays s₁ s') : Stays s s' := by
  refine ⟨fun hs => h'.some (h.some hs), fun hn => ?_⟩
  obtain ⟨hn₁, ht₁⟩ := h.none hn
  obtain ⟨hn', ht'⟩ := h'.none hn₁
  exact ⟨hn', ht'.trans ht₁⟩

/-- With a lock there, rewriting it in any way keeps the session active. -/
theorem Stays.of_some {s s' : State} {lock lock' : SessionLock} (hl : s.lock = Option.some lock)
    (hl' : s'.lock = Option.some lock') : Stays s s' :=
  ⟨fun _ => by rw [hl']; rfl, fun h => by simp [hl] at h⟩

theorem sessionLockTrySendLocked_stays (s : State) : Stays s (sessionLockTrySendLocked s) := by
  rcases sessionLockTrySendLocked_cases s with heq | ⟨lock, p, hl, _, _, _, heq⟩
  · rw [heq]; exact .rfl' rfl rfl
  · rw [heq]; exact .of_some hl rfl

theorem lockOutputConfigure_stays (s : State) (o : OutputId) : Stays s (lockOutputConfigure s o) := by
  cases hl : s.lock with
  | none =>
    have heq : lockOutputConfigure s o = s := by simp only [lockOutputConfigure, hl]
    rw [heq]; exact .rfl' rfl rfl
  | some lock => rw [lockOutputConfigure_some o hl]; exact .of_some hl rfl

theorem lockOutputDestroy_stays (s : State) (o : OutputId) : Stays s (lockOutputDestroy s o) := by
  unfold lockOutputDestroy
  cases hl : s.lock with
  | none => exact .rfl' rfl rfl
  | some lock =>
    refine Stays.trans ?_ (sessionLockTrySendLocked_stays _)
    exact .of_some hl rfl

theorem handleOutputDisable_stays (s : State) (o : OutputId) :
    Stays s (handleOutputDisable s o) := by
  unfold handleOutputDisable
  cases hl : s.lock with
  | none => exact .rfl' rfl rfl
  | some lock =>
    simp only
    cases lockOutputFromWlrOutput lock o with
    | none => exact .rfl' rfl rfl
    | some lo =>
      simp only
      split_ifs
      · exact lockOutputDestroy_stays s o
      · refine Stays.trans ?_ (sessionLockTrySendLocked_stays _)
        exact .of_some hl rfl

theorem handleNewOutput_stays (s : State) (o : OutputId) : Stays s (handleNewOutput s o) := by
  cases hl : s.lock with
  | none =>
    have heq : handleNewOutput s o = s := by simp only [handleNewOutput, hl]
    rw [heq]; exact .rfl' rfl rfl
  | some lock =>
    obtain ⟨notes, -, heq⟩ := handleNewOutput_some o hl
    rw [heq]; exact .of_some hl rfl

theorem handleOutputPresent_stays (s : State) (o : OutputId) (seq : UInt32) (b : Bool) :
    Stays s (handleOutputPresent s o seq b) := by
  unfold handleOutputPresent
  cases hl : s.lock with
  | none => exact .rfl' (by rw [hl]) rfl
  | some lock =>
    simp only
    cases lockOutputFromWlrOutput lock o with
    | none => exact .of_some hl rfl
    | some lo =>
      simp only
      split_ifs
      · exact .of_some hl rfl
      · refine Stays.trans ?_ (sessionLockTrySendLocked_stays _)
        exact .of_some hl rfl

theorem outputSyncCommittedState_stays (s : State) (o : OutputId) (enabled : Bool) (geo : Box) :
    Stays s (outputSyncCommittedState s o enabled geo) := by
  unfold outputSyncCommittedState
  simp only
  generalize (s.output o).synced enabled geo = new
  have hset : Stays s (s.setOutput o new) := .rfl' rfl rfl
  split_ifs
  · exact hset.trans (handleOutputDisable_stays _ o)
  · exact (hset.trans (handleNewOutput_stays _ o)).trans (lockOutputConfigure_stays _ o)
  · exact hset.trans (lockOutputConfigure_stays _ o)
  · exact hset.trans (handleNewOutput_stays _ o)
  · exact hset

/-! ### One event -/

/-- Every event but a client death keeps a held session active. -/
theorem step_held {s s' : State} {e : Event} (hs : step s e = some s')
    (hheld : held s.trace = true → s.lock.isSome = true)
    (he : ∀ p lock, e = .destroy p → listening s p = some lock → lock.lockedSent = true) :
    held s'.trace = true → s'.lock.isSome = true := by
  have hsame : Stays s s := .rfl' rfl rfl
  cases e with
  | newLock p =>
    cases hs
    unfold handleNewLock
    split_ifs
    · exact held_active_of_same hheld rfl rfl
    · simp only
      intro _
      exact (sessionLockTrySendLocked_stays _).some rfl
  | newSurface p surface o =>
    rw [step] at hs
    cases hlis : listening s p with
    | none => rw [hlis] at hs; cases hs; exact hsame.held_active hheld
    | some lock =>
      rw [hlis] at hs
      simp only at hs
      split_ifs at hs
      unfold handleNewSurface at hs
      simp only at hs
      generalize (if (lockOutputFromWlrOutput lock o).isSome then [] else
        [Note.recorded o (s.output o).commitSeq]) = notes at hs
      split_ifs at hs
      cases hs
      intro _
      exact (lockOutputConfigure_stays _ o).some rfl
  | surfaceMap surface => cases hs; exact held_active_of_same hheld (by simp) rfl
  | surfaceUnmap surface => cases hs; exact held_active_of_same hheld rfl rfl
  | surfaceDestroy surface => cases hs; exact held_active_of_same hheld (by simp) rfl
  | unlock p =>
    rw [step] at hs
    cases hlis : listening s p with
    | none => rw [hlis] at hs; cases hs; exact hsame.held_active hheld
    | some lock =>
      rw [hlis] at hs
      simp only at hs
      split_ifs at hs
      cases hs
      rw [handleUnlock, sessionLockDestroy_eq]
      intro ht
      exact absurd ht (by simp [held])
  | destroy p =>
    rw [step] at hs
    cases hlis : listening s p with
    | none => rw [hlis] at hs; cases hs; exact hsame.held_active hheld
    | some lock =>
      rw [hlis] at hs
      cases hs
      simp [handleLockAbandoned, he p lock rfl hlis]
  | recoveryTimer =>
    rw [step] at hs
    split_ifs at hs
    cases hs
    unfold handleLockRecoveryTimer
    simp only
    split_ifs
    · exact held_active_of_same hheld rfl rfl
    · exact held_active_of_same hheld rfl rfl
  | commit o seq =>
    rw [step] at hs
    split_ifs at hs
    cases hs
    exact held_active_of_same hheld rfl rfl
  | present o seq presented =>
    rw [step] at hs
    split_ifs at hs
    cases hs
    exact (handleOutputPresent_stays s o seq presented).held_active hheld
  | sync o enabled geo =>
    rw [step] at hs
    split_ifs at hs
    cases hs
    exact (outputSyncCommittedState_stays s o enabled geo).held_active hheld
  | create o out =>
    rw [step] at hs
    split_ifs at hs
    cases hs
    unfold outputCreate
    simp only
    have hset : Stays s { s.setOutput o out with outputs := o :: s.outputs } := .rfl' rfl rfl
    split_ifs
    · exact (hset.trans (handleNewOutput_stays _ o)).held_active hheld
    · exact hset.held_active hheld
  | outputDestroy o =>
    rw [step] at hs
    split_ifs at hs
    cases hs
    unfold outputDestroy
    simp only
    set s₁ := s.setOutput o { s.output o with destroying := true }
    have hset : Stays s s₁ := .rfl' rfl rfl
    have hdis := hset.trans (handleOutputDisable_stays s₁ o)
    exact Stays.held_active (hdis.trans (.rfl' rfl rfl)) hheld

/-- The client of an unannounced replacement lock dies: the session is open and was not unlocked. -/
theorem replacement_death {s s' : State} {e : Event} (hs : step s e = some s')
    (he : replacementSurvives s e = false) :
    held s'.trace = true ∧ sessionLockIsActive s' = false := by
  cases e <;> simp only [replacementSurvives, reduceCtorEq] at he
  case destroy p =>
    cases hlis : listening s p with
    | none => simp [hlis] at he
    | some lock =>
      simp only [hlis, Option.all_some, Bool.or_eq_false_iff, Bool.not_eq_false'] at he
      obtain ⟨hunsent, hheld⟩ := he
      rw [step, hlis] at hs
      cases hs
      simp only [handleLockAbandoned, hunsent, Bool.not_false, if_true, sessionLockDestroy_eq]
      exact ⟨hheld, rfl⟩

/-- The session stays active from `locked` until an unlock in every run in which no replacement
    locker dies before its own `locked`; and the first event that breaks this opens the session. -/
theorem locked_session_stays_active (s : State) :
    (Reach step (fun s e => replacementSurvives s e = true) init s → held s.trace = true →
      sessionLockIsActive s = true) ∧
    (Reach step Always init s → ∀ e s', step s e = some s' → replacementSurvives s e = false →
      held s'.trace = true ∧ sessionLockIsActive s' = false) := by
  refine ⟨fun h => ?_, fun _ e s' hs he => replacement_death hs he⟩
  refine h.inv (I := fun s => held s.trace = true → s.lock.isSome = true) (by simp [init, held]) ?_
  intro s e s' hi hok hs ht
  by_cases hcase : ∀ p lock, e = .destroy p → listening s p = some lock → lock.lockedSent = true
  · exact step_held hs hi hcase ht
  · -- an unannounced lock goes away, but then the session was not held
    push Not at hcase
    obtain ⟨p, lock, rfl, hlis, hunsent⟩ := hcase
    have hsent : lock.lockedSent = false := by simpa using hunsent
    have hfree : held s.trace = false := by simpa [replacementSurvives, hlis, hsent] using hok
    rw [step, hlis] at hs
    cases hs
    simp only [handleLockAbandoned, hsent, Bool.not_false, if_true, sessionLockDestroy_eq] at ht
    rw [hfree] at ht
    cases ht

/-- A locker is announced on one output and dies; its replacement dies before its own `locked`. -/
def replacementDies : List Event :=
  [.create 0 ⟨true, false, ⟨0, 0, 800, 600⟩, 0⟩, .newLock 1, .present 0 1 true, .destroy 1,
    .newLock 2, .destroy 2]

/-- That run opens the session without an unlock. -/
theorem replacement_death_opens_session :
    ¬ ∀ s, Reach step Always init s → held s.trace = true → sessionLockIsActive s = true := by
  intro h
  obtain ⟨s, hs, hheld, hopen⟩ : ∃ s, exec step init replacementDies = some s ∧
      held s.trace = true ∧ sessionLockIsActive s = false := ⟨_, rfl, rfl, rfl⟩
  have hactive := h s (.of_exec _ _ hs) hheld
  rw [hopen] at hactive
  cases hactive

/-- With the announced locker dead and its replacement alive, the session is still locked. -/
theorem replacementDies_active_until_death :
    ∃ s, exec step init (replacementDies.take 5) = some s ∧ held s.trace = true ∧
      sessionLockIsActive s = true := by
  obtain ⟨s, hs, hrun, hheld⟩ : ∃ s, exec step init (replacementDies.take 5) = some s ∧
      exec (guarded step replacementSurvives) init (replacementDies.take 5) = some s ∧
      held s.trace = true := ⟨_, rfl, rfl, rfl⟩
  exact ⟨s, hs, hheld, (locked_session_stays_active s).1 (.of_exec_guarded _ _ hrun) hheld⟩

end FlakeWm.Lock
