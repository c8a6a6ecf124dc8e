import FlakeWm.Lock.Outputs
import FlakeWm.Lock.Protocol

/-! A lock covers every enabled output, and `locked` is announced only when all of them show it: the
    step lemmas of the handlers, put together over every event and then over every run. -/

namespace FlakeWm.Lock

theorem mem_listening {s : State} {p : ProtocolLock} {lock : SessionLock}
    (h : listening s p = some lock) : s.lock = some lock ∧ lock.protocolLock = some p := by
  rw [listening, Option.filter_eq_some_iff] at h
  exact ⟨h.1, by simpa using h.2⟩

/-- One event keeps the invariant, and sets `locked_sent` only when every output shows the lock. -/
theorem inv_step {s s' : State} (h : Inv s) (e : Event) (hs : step s e = some s') :
    Inv s' ∧ SentWhenShown s s' := by
  have hkeep : Inv s ∧ SentWhenShown s s := ⟨h, (FlagKept.of_eq rfl).sent⟩
  cases e with
  | newLock p =>
    cases hs
    exact handleNewLock_step h p
  | newSurface p surface o =>
    rw [step] at hs
    cases hlis : listening s p with
    | none => rw [hlis] at hs; cases hs; exact hkeep
    | some lock =>
      rw [hlis] at hs
      simp only at hs
      split_ifs at hs with ho
      exact handleNewSurface_step h (mem_listening hlis).1 ho hs
  | surfaceMap surface =>
    cases hs
    refine h.mapLock rfl rfl rfl rfl (fun lock hc => ?_) fun lock => ?_
    · refine hc.congr ?_ rfl rfl [] rfl (by simp)
      unfold handleSurfaceMap focusSurface
      split_ifs <;> rfl
    · unfold handleSurfaceMap focusSurface
      split_ifs <;> exact ⟨rfl, rfl⟩
  | surfaceUnmap surface =>
    cases hs
    exact h.mapLock (f := id) (Option.map_id_fun ▸ rfl) rfl rfl rfl (fun _ hc => hc)
      fun _ => ⟨rfl, rfl⟩
  | surfaceDestroy surface =>
    cases hs
    refine h.mapLock rfl rfl rfl rfl (fun lock hc => ?_) fun lock => ?_
    · split_ifs
      · refine CoveredOn.mapTrees hc (keepsTree_surface (·.surface = some surface) none) ?_
        exact (refocusSurface_outputs _ _ _).1
      · exact hc
    · split_ifs
      · obtain ⟨-, h2, h3, -⟩ := refocusSurface_outputs (Function.update s.mapped surface false)
          { lock with outputs := lock.outputs.map fun lo =>
              if lo.surface = some surface then { lo with surface := none } else lo } (some surface)
        exact ⟨h2, h3⟩
      · exact ⟨rfl, rfl⟩
  | unlock p =>
    rw [step] at hs
    cases hlis : listening s p with
    | none => rw [hlis] at hs; cases hs; exact hkeep
    | some lock =>
      rw [hlis] at hs
      simp only at hs
      split_ifs at hs
      cases hs
      rw [handleUnlock, sessionLockDestroy_eq]
      exact ⟨⟨h.nodup, h.living, fun _ hl => by simp at hl⟩, fun _ hl => by simp at hl⟩
  | destroy p =>
    rw [step] at hs
    cases hlis : listening s p with
    | none => rw [hlis] at hs; cases hs; exact hkeep
    | some lock =>
      rw [hlis] at hs
      cases hs
      exact handleLockAbandoned_step h (mem_listening hlis).1
  | recoveryTimer =>
    rw [step] at hs
    split_ifs at hs
    cases hs
    unfold handleLockRecoveryTimer
    simp only
    split_ifs
    · exact h.mapLock (f := id) (Option.map_id_fun ▸ rfl) rfl rfl rfl (fun _ hc => hc)
        fun _ => ⟨rfl, rfl⟩
    · refine ⟨⟨h.nodup, h.living, fun lock hl => ?_⟩, (FlagKept.of_eq rfl).sent⟩
      exact (h.covered lock hl).congr rfl rfl rfl [.requestLocker _] rfl
        (by simp [Note.silent])
  | commit o seq =>
    rw [step] at hs
    split_ifs at hs with ho
    cases hs
    refine ⟨⟨h.nodup, setOutput_living h (h.living o ho), fun lock hl => ?_⟩,
      (FlagKept.of_eq rfl).sent⟩
    have hc := h.covered lock hl
    have hsame : ∀ o', ((s.setOutput o { s.output o with commitSeq := seq }).output o').enabled =
          (s.output o').enabled ∧
        ((s.setOutput o { s.output o with commitSeq := seq }).output o').geometry =
          (s.output o').geometry := by
      intro o'
      rcases eq_or_ne o' o with rfl | hne
      · rw [setOutput_output_self]; exact ⟨rfl, rfl⟩
      · rw [setOutput_output_of_ne hne]; exact ⟨rfl, rfl⟩
    refine ⟨⟨hc.nodup, hc.listed, fun o' ho' _ he => ?_, fun lo hlo _ he => ?_⟩, hc.recorded⟩
    · exact hc.covers o' ho' trivial ((hsame o').1.symm.trans he)
    · have hp := hc.placed lo hlo trivial ((hsame _).1.symm.trans he)
      have hg := (hsame lo.output).2
      exact ⟨hp.enabled, by rw [hg]; exact hp.x, by rw [hg]; exact hp.y, by rw [hg]; exact hp.width,
        by rw [hg]; exact hp.height⟩
  | present o seq presented =>
    rw [step] at hs
    split_ifs at hs
    cases hs
    exact handleOutputPresent_step h o seq presented
  | sync o enabled geo =>
    rw [step] at hs
    split_ifs at hs with ho
    cases hs
    exact outputSyncCommittedState_step h ho enabled geo
  | create o out =>
    rw [step] at hs
    split_ifs at hs with ho
    cases hs
    rw [not_or] at ho
    exact outputCreate_step h ho.1 (by simpa using ho.2)
  | outputDestroy o =>
    rw [step] at hs
    split_ifs at hs
    cases hs
    exact outputDestroy_step h

theorem inv_init : Inv init :=
  ⟨List.nodup_nil, fun _ h => by simp [init] at h, fun _ h => by simp [init] at h⟩

theorem inv_reach {ok : State → Event → Prop} {s : State} (h : Reach step ok init s) : Inv s :=
  h.inv inv_init fun _ e _ hi _ hs => (inv_step hi e hs).1

/-- Every reachable lock has exactly one tree on each enabled output, shown at its geometry; and
    `locked_sent` is set only in a state in which every enabled output of the lock has presented a
    frame committed after its tree was created or re-enabled. -/
theorem lock_covers_enabled_outputs {s : State} (h : Reach step Always init s) :
    (∀ lock, s.lock = some lock → ∀ o ∈ s.outputs, (s.output o).enabled = true →
      (s.output o).destroying = false →
      ∃ lo, lock.outputs.filter (·.output = o) = [lo] ∧ Placed (s.output o) lo) ∧
    (∀ e s', step s e = some s' → SentWhenShown s s') := by
  have hinv := inv_reach h
  refine ⟨fun lock hl o ho he _ => ?_, fun e s' hs => (inv_step hinv e hs).2⟩
  have hc := hinv.covered lock hl
  obtain ⟨lo, hlo, rfl⟩ := hc.covers o ho trivial he
  refine ⟨lo, ?_, hc.placed lo hlo trivial he⟩
  -- the filter keeps `lo`, and nothing else by uniqueness
  have hnd : (lock.outputs.filter (·.output = lo.output)).Nodup :=
    (List.Nodup.of_map _ hc.nodup).filter _
  refine List.perm_singleton.mp ((List.perm_ext_iff_of_nodup hnd (List.nodup_singleton lo)).mpr ?_)
  intro lo'
  rw [List.mem_filter, List.mem_singleton, decide_eq_true_eq]
  constructor
  · exact fun ⟨hm, heq⟩ => hc.unique hm hlo heq
  · rintro rfl
    exact ⟨hlo, rfl⟩

/-- One output, a locker, and the frame that shows its lock. -/
def lockOnOneOutput : List Event :=
  [.create 0 ⟨true, false, ⟨0, 0, 800, 600⟩, 4⟩, .newLock 7, .present 0 5 true]

/-- After that run the lock is announced and its one tree lies on the output. -/
theorem lockOnOneOutput_covers :
    ∃ s lock, exec step init lockOnOneOutput = some s ∧ s.lock = some lock ∧
      lock.lockedSent = true ∧
      ∃ lo, lock.outputs.filter (·.output = 0) = [lo] ∧ Placed (s.output 0) lo := by
  obtain ⟨s, lock, hs, hl, hsent, ho, he, hd⟩ : ∃ s lock,
      exec step init lockOnOneOutput = some s ∧ s.lock = some lock ∧ lock.lockedSent = true ∧
      0 ∈ s.outputs ∧ (s.output 0).enabled = true ∧ (s.output 0).destroying = false :=
    ⟨_, _, rfl, rfl, rfl, List.mem_singleton.mpr rfl, rfl, rfl⟩
  have hcovers := (lock_covers_enabled_outputs (.of_exec _ _ hs)).1 lock hl 0 ho he hd
  exact ⟨s, lock, hs, hl, hsent, hcovers⟩

end FlakeWm.Lock
