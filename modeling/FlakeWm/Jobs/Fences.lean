import FlakeWm.Jobs.History

/-! The fences of the jobs.

    A fence that was passed with an accepted job is signalled, or its job is still on its way: queued,
    with a worker that has not signalled it yet, or removed by a drop call that has not signalled it
    yet. When `queue_destroy` returns the workers are gone and the ring is empty, so every fence is
    signalled — unless the ring was full when the last jobs were to be thrown away, for then the loop
    that signals them visits none. The loop of `queue_drop_job` fails on a full ring in the same
    way. -/

namespace FlakeWm.Jobs

/-- Job `n` is on its way and will signal `f`. -/
def Carries (s : State) (n : ℕ) (f : Fence) : Prop :=
  (∃ job ∈ s.queue.contents, job.serial = some n ∧ job.fence = some f) ∨
  (∃ i job, (s.worker i).carried = some job ∧ job.serial = some n ∧ job.fence = some f) ∨
  ∃ d, s.dropper d = .removed f (some n)

/-- A fence is signalled or its job is on its way, and no queued job with a fence is null. -/
structure Fenced (s : State) : Prop where
  pending : ∀ f ∈ s.fences, s.signalled f = true ∨ ∃ n, Carries s n f
  live : ∀ job ∈ s.queue.contents, job.fence ≠ none → job.job.isSome

/-- The queued jobs with a fence. -/
def Queue.withFence (q : Queue) (f : Fence) : List QueueJob :=
  q.contents.filter (·.fence = some f)

/-- What keeps the promises of the queue, for a step in the state that takes it: a job that comes
    with a fence is not null; a drop call that is to remove a queued job finds its fence not
    signalled, one job with this fence only, and a ring that is not full; a thread that throws away
    queued jobs with fences does not find a full ring; no drop call has a fence left to signal when
    `queue_destroy` returns. -/
def sound (s : State) : Event → Prop
  | .addJob job fence _ => fence.isSome → job.isSome
  | .dropCheck _ f => s.queue.withFence f = [] ∨ s.signalled f = false
  | .dropScan d => ∀ f, s.dropper d = .checked f → s.queue.withFence f = [] ∨
      (s.queue.full = false ∧ (s.queue.withFence f).length = 1)
  | .workerDrain _ => s.queue.full = false ∨ ∀ job ∈ s.queue.contents, job.fence = none
  | .destroyReturn => ∀ d f n, s.dropper d ≠ .removed f n
  | _ => True

/-- Jobs that only change their places. -/
theorem Fenced.moved {s s' : State} (h : Fenced s) (hcarries : ∀ n f, Carries s n f → Carries s' n f)
    (hsignalled : s'.signalled = s.signalled) (hfences : s'.fences = s.fences)
    (hlive : ∀ job ∈ s'.queue.contents, job.fence ≠ none → job.job.isSome) : Fenced s' := by
  refine ⟨fun f hf => ?_, hlive⟩
  rw [hfences] at hf
  rw [hsignalled]
  exact (h.pending f hf).imp_right fun ⟨n, hn⟩ => ⟨n, hcarries n f hn⟩

/-- Jobs that signal the fences `D` and are no longer on their way. -/
theorem Fenced.finished {s s' : State} (h : Fenced s) {D : Fence → Prop}
    (hkept : ∀ n f, Carries s n f → ¬ D f → Carries s' n f)
    (hsignalled : ∀ f, s'.signalled f = true ↔ s.signalled f = true ∨ D f)
    (hfences : s'.fences = s.fences)
    (hlive : ∀ job ∈ s'.queue.contents, job.fence ≠ none → job.job.isSome) : Fenced s' := by
  refine ⟨fun f hf => ?_, hlive⟩
  rw [hfences] at hf
  rw [hsignalled]
  by_cases hdone : D f
  · exact .inl (.inr hdone)
  · rcases h.pending f hf with htrue | ⟨n, hn⟩
    · exact .inl (.inl htrue)
    · exact .inr ⟨n, hkept n f hn hdone⟩

theorem signal_iff (signalled : Fence → Bool) (fence : Option Fence) (f : Fence) :
    signal signalled fence f = true ↔ signalled f = true ∨ fence = some f := by
  cases fence with
  | none => simp [signal]
  | some g =>
    rw [signal, Function.update_apply, Option.some.injEq]
    by_cases hg : f = g
    · simp [hg]
    · simp [hg, Ne.symm hg]

theorem reset_of_ne {signalled : Fence → Bool} {fence : Option Fence} {f : Fence}
    (h : fence ≠ some f) : reset signalled fence f = signalled f := by
  cases fence with
  | none => rfl
  | some g => exact Function.update_of_ne (fun hg => h (by rw [hg])) _ _

/-! ### The drain -/

/-- The loop signals the fences of the jobs it visits. -/
theorem foldl_drainOne : ∀ (is : List ℕ) (a : (ℕ → QueueJob) × (Fence → Bool)), is.Nodup → ∀ f,
    (is.foldl drainOne a).2 f = true ↔
      a.2 f = true ∨ ∃ i ∈ is, (a.1 i).job.isSome ∧ (a.1 i).fence = some f
  | [], a, _, f => by simp
  | i :: is, a, hnodup, f => by
      obtain ⟨hi, hnodup⟩ := List.nodup_cons.mp hnodup
      have hother : ∀ k ∈ is, (drainOne a i).1 k = a.1 k := by
        intro k hk
        have hne : k ≠ i := by
          rintro rfl
          exact hi hk
        rw [drainOne]
        split_ifs
        · exact Function.update_of_ne hne _ _
        · rfl
      have hfirst : (drainOne a i).2 f = true ↔
          a.2 f = true ∨ ((a.1 i).job.isSome ∧ (a.1 i).fence = some f) := by
        rw [drainOne]
        split_ifs with hjob
        · simp [signal_iff, hjob]
        · simp [hjob]
      rw [List.foldl_cons, foldl_drainOne is _ hnodup f, hfirst]
      constructor
      · rintro ((ha | hjob) | ⟨k, hk, hjob⟩)
        · exact .inl ha
        · exact .inr ⟨i, List.mem_cons_self, hjob⟩
        · rw [hother k hk] at hjob
          exact .inr ⟨k, List.mem_cons_of_mem _ hk, hjob⟩
      · rintro (ha | ⟨k, hk, hjob⟩)
        · exact .inl (.inl ha)
        · rcases List.mem_cons.mp hk with rfl | hk
          · exact .inl (.inr hjob)
          · refine .inr ⟨k, hk, ?_⟩
            rwa [hother k hk]

/-! ### Steps -/

section Steps

variable {created : ℕ} {s s' : State}

theorem queueAddJob_fenced (h : Inv created s) (hf : Fenced s) {job : Option ℕ}
    {fence : Option Fence} {cleanup : Bool} (hok : sound s (.addJob job fence cleanup))
    (hs : queueAddJob s job fence cleanup = some s') : Fenced s' := by
  rcases queueAddJob_cases hs with ⟨-, rfl⟩ | ⟨hthreads, q, hq, rfl⟩
  · exact hf
  obtain ⟨q', hq', -, -, hcontents, -⟩ :=
    Queue.addJob_ok h.wf (h.free hthreads) ⟨job, fence, cleanup, some s.accepted⟩
  obtain rfl := Option.some.inj (hq.symm.trans hq')
  refine ⟨fun f hmem => ?_, fun j hj hfence => ?_⟩
  · by_cases heq : fence = some f
    · refine .inr ⟨s.accepted, .inl ⟨⟨job, fence, cleanup, some s.accepted⟩, ?_, rfl, heq⟩⟩
      simp [hcontents]
    · have hold : f ∈ s.fences := by
        rcases List.mem_append.mp hmem with hnew | hold
        · exact absurd (by simpa using hnew) heq
        · exact hold
      refine (hf.pending f hold).imp (fun htrue => ?_) fun ⟨n, hn⟩ => ⟨n, hn.imp_left ?_⟩
      · simp only [reset_of_ne heq]
        exact htrue
      · rintro ⟨j, hj, hrest⟩
        refine ⟨j, ?_, hrest⟩
        simp [hcontents, hj]
  · simp only [hcontents, List.mem_append, List.mem_singleton] at hj
    rcases hj with hj | rfl
    · exact hf.live j hj hfence
    · exact hok (Option.isSome_iff_ne_none.mpr hfence)

/-- Only a worker's place changes. -/
theorem carries_setWorker {i : ℕ} {w : Worker} (hw : w.carried = (s.worker i).carried)
    (hqueue : s'.queue = s.queue) (hworker : s'.worker = Function.update s.worker i w)
    (hdropper : s'.dropper = s.dropper) (n : ℕ) (f : Fence) (h : Carries s n f) : Carries s' n f := by
  have hcarried : ∀ k, (s'.worker k).carried = (s.worker k).carried := by
    intro k
    rw [hworker]
    rcases eq_or_ne k i with rfl | hne
    · rw [Function.update_self, hw]
    · rw [Function.update_of_ne hne]
  simp only [Carries, hqueue, hdropper, hcarried]
  exact h

theorem workerLock_fenced (h : Inv created s) (hf : Fenced s) {i : ℕ} (hi : s.worker i = .looping)
    (hs : workerLock s i = some s') : Fenced s' := by
  rcases workerLock_cases hs with ⟨-, rfl⟩ | ⟨hstay, hqueued, rfl⟩
  · exact hf.moved (carries_setWorker (by rw [hi]; rfl) rfl rfl rfl) rfl rfl hf.live
  obtain ⟨-, -, hcontents⟩ := Queue.take_ok h.wf (h.free (by omega)) hqueued
  have hfirst : s.queue.jobs s.queue.readIdx ∈ s.queue.contents := by
    rw [hcontents]
    exact List.mem_cons_self
  refine hf.moved (fun n f => ?_) rfl rfl fun job hjob => hf.live job ?_
  · rintro (⟨job, hjob, hserial, hfence⟩ | ⟨k, job, hk, hrest⟩ | hrest)
    · rw [hcontents] at hjob
      rcases List.mem_cons.mp hjob with rfl | hjob
      · -- the first job goes to the worker: with a fence it is not a no-op
        have hlive := hf.live _ hfirst (by simp [hfence])
        refine .inr (.inl ⟨i, _, ?_, hserial, hfence⟩)
        simp only [State.setWorker, Function.update_self, Worker.ofJob, if_pos hlive]
        rfl
      · exact .inl ⟨job, hjob, hserial, hfence⟩
    · refine .inr (.inl ⟨k, job, ?_, hrest⟩)
      have hne : k ≠ i := by
        rintro rfl
        rw [hi] at hk
        cases hk
      simp only [State.setWorker]
      rwa [Function.update_of_ne hne]
    · exact .inr (.inr hrest)
  · rw [hcontents]
    exact List.mem_cons_of_mem _ hjob

theorem workerSignal_fenced (hf : Fenced s) {i : ℕ} {job : QueueJob}
    (hi : s.worker i = .executed job) :
    Fenced { s.setWorker i (.signalled job) with signalled := signal s.signalled job.fence } := by
  refine hf.finished (D := fun f => job.fence = some f) (fun m f hm hnot => ?_)
    (signal_iff s.signalled job.fence) rfl hf.live
  rcases hm with hm | ⟨k, j, hk, hjserial, hjfence⟩ | hm
  · exact .inl hm
  · refine .inr (.inl ⟨k, j, ?_, hjserial, hjfence⟩)
    have hne : k ≠ i := by
      rintro rfl
      rw [hi] at hk
      cases hk
      exact hnot hjfence
    simp only [State.setWorker]
    rwa [Function.update_of_ne hne]
  · exact .inr (.inr hm)

/-- What the drain signals, as long as the ring is not full or holds no fences. -/
theorem drain_signals (h : Inv created s) (hf : Fenced s)
    (hok : s.queue.full = false ∨ ∀ job ∈ s.queue.contents, job.fence = none) {is : List ℕ}
    (his : s.queue.visited = some is) (f : Fence) :
    (is.foldl drainOne (s.queue.jobs, s.signalled)).2 f = true ↔
      s.signalled f = true ∨ ∃ job ∈ s.queue.contents, job.fence = some f := by
  cases hfull : s.queue.full with
  | false =>
    rw [Queue.visited_eq h.wf hfull] at his
    obtain rfl := Option.some.inj his
    rw [foldl_drainOne _ _ (Queue.nodup_slots h.wf)]
    refine or_congr_right ?_
    constructor
    · rintro ⟨i, hi, -, hfence⟩
      exact ⟨_, List.mem_map_of_mem hi, hfence⟩
    · rintro ⟨job, hjob, hfence⟩
      have hlive := hf.live job hjob (by simp [hfence])
      obtain ⟨i, hi, rfl⟩ := List.mem_map.mp hjob
      exact ⟨i, hi, hlive, hfence⟩
  | true =>
    rw [Queue.visited_full h.wf hfull] at his
    obtain rfl := Option.some.inj his
    have hnot : ¬ ∃ job ∈ s.queue.contents, job.fence = some f := by
      rintro ⟨job, hjob, hfence⟩
      rcases hok with hroom | hnone
      · rw [hfull] at hroom
        cases hroom
      · rw [hnone job hjob] at hfence
        cases hfence
    simp [hnot]

theorem workerDrain_fenced (h : Inv created s) (hf : Fenced s) {i : ℕ} (hi : s.worker i = .leaving)
    (hok : sound s (.workerDrain i)) (hs : (s.setWorker i .gone).drain = some s') : Fenced s' := by
  have hzero := h.threads.leaving i hi
  rcases drain_cases (s := s.setWorker i .gone) h.wf with ⟨hthreads, -⟩ | ⟨-, is, his, heq⟩
  · exact absurd hzero hthreads
  obtain rfl := Option.some.inj (heq.symm.trans hs)
  have hcarried : ∀ k, (Function.update s.worker i .gone k).carried = (s.worker k).carried := by
    intro k
    rcases eq_or_ne k i with rfl | hne
    · rw [Function.update_self, hi]
      rfl
    · rw [Function.update_of_ne hne]
  refine hf.finished (D := fun f => ∃ job ∈ s.queue.contents, job.fence = some f)
    (fun n f hn hnot => ?_) (drain_signals h hf hok his) rfl fun job hjob => ?_
  · rcases hn with ⟨job, hjob, -, hfence⟩ | ⟨k, job, hk, hrest⟩ | hn
    · exact absurd ⟨job, hjob, hfence⟩ hnot
    · refine .inr (.inl ⟨k, job, ?_, hrest⟩)
      simp only [State.setWorker]
      rwa [hcarried]
    · exact .inr (.inr hn)
  · simp [Queue.contents, Ring.window] at hjob

/-! Drop calls -/

theorem setDropper_fenced (hf : Fenced s) {d : ℕ} (p : Dropper)
    (hold : ∀ f n, s.dropper d ≠ .removed f n) : Fenced (s.setDropper d p) := by
  refine hf.moved (fun n f hn => ?_) rfl rfl hf.live
  rcases hn with hn | hn | ⟨d', hd'⟩
  · exact .inl hn
  · exact .inr (.inl hn)
  · refine .inr (.inr ⟨d', ?_⟩)
    have hne : d' ≠ d := by
      rintro rfl
      exact hold f _ hd'
    simp only [State.setDropper]
    rwa [Function.update_of_ne hne]

theorem dropScan_fenced (h : Inv created s) (hf : Fenced s) {d : ℕ} {f : Fence}
    (hd : s.dropper d = .checked f) (hs : dropScan s d f = some s') : Fenced s' := by
  rcases dropScan_cases h.wf hs with ⟨rfl, -⟩ | ⟨as, i, bs, hslots, hfence, -, rfl⟩
  · exact setDropper_fenced hf _ (by simp [hd])
  have hcontents : s.queue.contents = as.map s.queue.jobs ++ s.queue.jobs i :: bs.map s.queue.jobs := by
    rw [Queue.contents_eq, hslots, List.map_append, List.map_cons]
  have hnew : Queue.contents { s.queue with jobs := Function.update s.queue.jobs i {} } =
      as.map s.queue.jobs ++ {} :: bs.map s.queue.jobs :=
    Ring.window_update h.wf.count hslots (QueueJob.mk none none false none)
  refine hf.moved (fun n g => ?_) rfl rfl fun job hjob hjfence => ?_
  · rintro (⟨job, hjob, hserial, hjfence⟩ | hn | ⟨d', hd'⟩)
    · rw [hcontents, List.mem_append, List.mem_cons] at hjob
      rcases hjob with hjob | rfl | hjob
      · refine .inl ⟨job, ?_, hserial, hjfence⟩
        simp only [hnew]
        exact List.mem_append_left _ hjob
      · refine .inr (.inr ⟨d, ?_⟩)
        simp only [State.setDropper, Function.update_self]
        rw [hserial, Option.some.inj (hfence.symm.trans hjfence)]
      · refine .inl ⟨job, ?_, hserial, hjfence⟩
        simp only [hnew]
        exact List.mem_append_right _ (List.mem_cons_of_mem _ hjob)
    · exact .inr (.inl hn)
    · refine .inr (.inr ⟨d', ?_⟩)
      have hne : d' ≠ d := by
        rintro rfl
        rw [hd] at hd'
        cases hd'
      simp only [State.setDropper]
      rwa [Function.update_of_ne hne]
  · rw [hnew] at hjob
    rcases List.mem_append.mp hjob with hjob | hjob
    · refine hf.live job ?_ hjfence
      rw [hcontents]
      exact List.mem_append_left _ hjob
    · rcases List.mem_cons.mp hjob with rfl | hjob
      · exact absurd rfl hjfence
      · refine hf.live job ?_ hjfence
        rw [hcontents]
        exact List.mem_append_right _ (List.mem_cons_of_mem _ hjob)

theorem dropFinish_fenced (hf : Fenced s) {d : ℕ} {n : Option ℕ} {f : Fence}
    (hd : s.dropper d = .removed f n) :
    Fenced { s.setDropper d .idle with signalled := signal s.signalled (some f) } := by
  refine hf.finished (D := fun g => some f = some g) (fun m g hm hnot => ?_)
    (signal_iff s.signalled (some f)) rfl hf.live
  rcases hm with hm | hm | ⟨d', hd'⟩
  · exact .inl hm
  · exact .inr (.inl hm)
  · refine .inr (.inr ⟨d', ?_⟩)
    have hne : d' ≠ d := by
      rintro rfl
      rw [hd] at hd'
      cases hd'
      exact hnot rfl
    simp only [State.setDropper]
    rwa [Function.update_of_ne hne]

theorem fenced_step (h : Inv created s) (hf : Fenced s) (e : Event) (hok : sound s e)
    (hs : step s e = some s') : Fenced s' := by
  cases e with
  | addJob job fence cleanup =>
    rw [step] at hs
    split_ifs at hs
    exact queueAddJob_fenced h hf hok hs
  | workerLock i =>
    simp only [step] at hs
    split at hs
    next hi => exact workerLock_fenced h hf hi hs
    next => cases hs
  | workerExecute i =>
    simp only [step] at hs
    split at hs
    next job hi =>
      cases hs
      exact hf.moved (carries_setWorker (by rw [hi]; rfl) rfl rfl rfl) rfl rfl hf.live
    next => cases hs
  | workerSignal i =>
    simp only [step] at hs
    split at hs
    next job hi =>
      cases hs
      exact workerSignal_fenced hf hi
    next => cases hs
  | workerCleanup i =>
    simp only [step] at hs
    split at hs
    next job hi =>
      cases hs
      exact hf.moved (carries_setWorker (by rw [hi]; rfl) rfl rfl rfl) rfl rfl hf.live
    next => cases hs
  | workerDrain i =>
    simp only [step] at hs
    split at hs
    next hi => exact workerDrain_fenced h hf hi hok hs
    next => cases hs
  | dropCheck d fence =>
    simp only [step] at hs
    split at hs
    next hd =>
      split_ifs at hs
      · exact Option.some.inj hs ▸ hf
      · cases hs
        exact setDropper_fenced hf _ (by simp [hd])
    next => cases hs
  | dropScan d =>
    simp only [step] at hs
    split at hs
    next fence hd =>
      split_ifs at hs
      exact dropScan_fenced h hf hd hs
    next => cases hs
  | dropFinish d =>
    simp only [step] at hs
    split at hs
    next fence n hd =>
      cases hs
      exact dropFinish_fenced hf hd
    next fence hd =>
      split_ifs at hs
      cases hs
      exact setDropper_fenced hf _ (by simp [hd])
    next => cases hs
  | destroyCall =>
    simp only [step] at hs
    split_ifs at hs
    cases hs
    exact hf.moved (fun _ _ => id) rfl rfl hf.live
  | destroyReturn =>
    simp only [step] at hs
    split at hs
    next n hjoin =>
      split_ifs at hs
      cases hs
      exact hf.moved (fun _ _ => id) rfl rfl hf.live
    next => cases hs

end Steps

/-! ### Runs -/

/-- What holds in a state: the jobs were taken in the order in which they were accepted, dropped ones
    left out, and each was executed at most once and never after it was dropped. -/
structure Kept (s : State) : Prop where
  order : s.taken ++ s.discarded ++ s.queue.serials =
    (List.range s.accepted).filter (· ∉ s.dropped)
  once : s.executed.Nodup
  was_taken : ∀ n ∈ s.executed, n ∈ s.taken
  exclusive : ∀ n ∈ s.executed, n ∉ s.dropped

/-- No assertion fails and every loop over the ring ends. -/
structure Unstuck (s : State) : Prop where
  add : s.destroy ≠ .returned → ∀ job fence cleanup, (step s (.addJob job fence cleanup)).isSome
  scan : s.destroy ≠ .returned → ∀ d f, s.dropper d = .checked f → (step s (.dropScan d)).isSome
  drain : ∀ i, s.worker i = .leaving → (step s (.workerDrain i)).isSome

/-- What a step promises: a drop call does not turn back while a job with its fence is queued, and it
    removes that job; when `queue_destroy` returns, every fence is signalled. -/
def Promises (s : State) (e : Event) (s' : State) : Prop :=
  match e with
  | .dropCheck d f => (∃ job ∈ s.queue.contents, job.fence = some f) → s'.dropper d = .checked f
  | .dropScan d => ∀ f, s.dropper d = .checked f → ∀ job ∈ s.queue.contents, job.fence = some f →
      ∀ n, job.serial = some n → n ∈ s'.dropped ∧ n ∉ s'.queue.serials
  | .destroyReturn => ∀ f ∈ s'.fences, s'.signalled f = true
  | _ => True

section Runs

variable {created : ℕ} {s s' : State}

theorem Inv.kept (h : Inv created s) : Kept s :=
  ⟨h.ordered.order, h.once.nodup, h.once.was_taken,
    fun n hn => h.ordered.taken_not_dropped (h.once.was_taken n hn)⟩

theorem Inv.unstuck (h : Inv created s) : Unstuck s := by
  refine ⟨fun hd job fence cleanup => ?_, fun hd d f hf => ?_, fun i hi => ?_⟩
  · rw [step, if_neg hd, queueAddJob]
    split_ifs with hthreads
    · rfl
    · obtain ⟨q, hq, -⟩ := Queue.addJob_ok h.wf (h.free hthreads)
        ⟨job, fence, cleanup, some s.accepted⟩
      rw [hq]
      rfl
  · obtain ⟨is, his⟩ := Queue.visited_isSome h.wf
    simp only [step, hf, if_neg hd, dropScan, his, Option.bind_eq_bind, Option.bind_some]
    split <;> rfl
  · simp only [step, hi]
    rcases drain_cases (s := s.setWorker i .gone) h.wf with ⟨-, heq⟩ | ⟨-, is, -, heq⟩
    · rw [heq]
      rfl
    · rw [heq]
      rfl

theorem mem_withFence {q : Queue} {f : Fence} {job : QueueJob} :
    job ∈ q.withFence f ↔ job ∈ q.contents ∧ job.fence = some f := by
  simp [Queue.withFence]

theorem dropScan_promises (h : Inv created s) {d : ℕ} {f : Fence}
    (hok : s.queue.withFence f = [] ∨ (s.queue.full = false ∧ (s.queue.withFence f).length = 1))
    (hs : dropScan s d f = some s') {job : QueueJob} (hjob : job ∈ s.queue.contents)
    (hfence : job.fence = some f) {n : ℕ} (hn : job.serial = some n) :
    n ∈ s'.dropped ∧ n ∉ s'.queue.serials := by
  have hinv := dropScan_inv h hs
  have hmem : job ∈ s.queue.withFence f := mem_withFence.mpr ⟨hjob, hfence⟩
  rcases hok with hnone | ⟨hfull, hone⟩
  · rw [hnone] at hmem
    cases hmem
  rcases dropScan_cases h.wf hs with ⟨-, hnone⟩ | ⟨as, i, bs, hslots, hifence, -, rfl⟩
  · exact absurd hfence (hnone hfull job hjob)
  · -- the job that is found is the only one with the fence
    have hi : s.queue.jobs i ∈ s.queue.withFence f := by
      refine mem_withFence.mpr ⟨?_, hifence⟩
      rw [Queue.contents_eq, hslots]
      simp
    obtain ⟨only, honly⟩ := List.length_eq_one_iff.mp hone
    rw [honly, List.mem_singleton] at hmem hi
    have hdropped : n ∈ (s.queue.jobs i).serial.toList ++ s.dropped := by
      rw [hi, ← hmem, hn]
      exact List.mem_cons_self
    exact ⟨hdropped, fun hqueued => hinv.ordered.queued_not_dropped hqueued hdropped⟩

theorem promises_step (h : Inv created s) (hf : Fenced s) (e : Event) (hok : sound s e)
    (hs : step s e = some s') : Promises s e s' := by
  cases e with
  | dropCheck d f =>
    rintro ⟨job, hjob, hfence⟩
    have hsignalled : s.signalled f = false := by
      refine hok.resolve_left fun hnone => ?_
      have hmem := mem_withFence.mpr ⟨hjob, hfence⟩
      rw [hnone] at hmem
      cases hmem
    simp only [step, hsignalled, Bool.false_eq_true, if_false] at hs
    split at hs
    next =>
      split_ifs at hs
      cases hs
      simp [State.setDropper]
    next => cases hs
  | dropScan d =>
    intro f hd job hjob hfence n hn
    simp only [step, hd] at hs
    split_ifs at hs
    exact dropScan_promises h (hok f hd) hs hjob hfence hn
  | destroyReturn =>
    have hinv := inv_step h .destroyReturn hs
    have hfenced := fenced_step h hf .destroyReturn hok hs
    simp only [step] at hs
    split at hs
    next n hjoin =>
      split_ifs at hs with hgone
      cases hs
      intro f hmem
      refine (hfenced.pending f hmem).resolve_right ?_
      rintro ⟨m, ⟨job, hjob, -⟩ | ⟨i, job, hi, -⟩ | ⟨d, hd⟩⟩
      · -- a thread that is gone has emptied the ring; without threads no job was ever accepted
        rcases Nat.eq_zero_or_pos created with hzero | hpos
        · rw [hinv.threads.empty hzero] at hmem
          cases hmem
        · have hempty := (hinv.threads.gone 0 hpos (hinv.threads.returned rfl 0 hpos)).2
          simp only at hempty
          simp [Queue.contents, hempty, Ring.window] at hjob
      · have hall : s.worker i = .gone := by
          rcases lt_or_ge i created with hlt | hge
          · exact hinv.threads.returned rfl i hlt
          · exact hinv.threads.outside i hge
        simp only [hall] at hi
        cases hi
      · exact hok d f _ hd
    next => cases hs
  | _ => trivial

end Runs

/-- In every run that is sound, for any ring size and number of threads: the jobs are taken in order,
    executed at most once and never when dropped, no call is stuck, and the next step keeps the
    promises about drop calls and about the fences when `queue_destroy` returns. The order and the
    executions do not depend on soundness. -/
theorem queue_loses_nothing {maxJobs : ℕ} (hmax : 1 ≤ maxJobs) (numThreads : ℕ) :
    (∀ s, Reach step Always (create maxJobs numThreads) s → Kept s ∧ Unstuck s) ∧
    ∀ s, Reach step sound (create maxJobs numThreads) s →
      ∀ e s', sound s e → step s e = some s' → Promises s e s' := by
  constructor
  · intro s hreach
    have hinv : Inv numThreads s :=
      hreach.inv (create_inv hmax) fun s e s' hi _ hs => inv_step hi e hs
    exact ⟨hinv.kept, hinv.unstuck⟩
  · intro s hreach e s' hok hs
    have hfresh : Fenced (create maxJobs numThreads) := by
      refine ⟨?_, ?_⟩
      · intro f hf
        cases hf
      · intro job hjob
        simp [create, Queue.contents, Ring.window] at hjob
    obtain ⟨hinv, hfenced⟩ : Inv numThreads s ∧ Fenced s :=
      hreach.inv (I := fun s => Inv numThreads s ∧ Fenced s) ⟨create_inv hmax, hfresh⟩
        fun s e s' hi hok hs => ⟨inv_step hi.1 e hs, fenced_step hi.1 hi.2 e hok hs⟩
    exact promises_step hinv hfenced e hok hs

/-- A ring of one slot with one job in it is full: a drop call does not find the job, and when the
    queue is destroyed the fence of the job is never signalled. -/
theorem full_ring_forgets_job :
    (¬ ∀ maxJobs numThreads s, 1 ≤ maxJobs → Reach step Always (create maxJobs numThreads) s →
      ∀ d s', step s (.dropScan d) = some s' → Promises s (.dropScan d) s') ∧
    ¬ ∀ maxJobs numThreads s, 1 ≤ maxJobs → Reach step Always (create maxJobs numThreads) s →
      ∀ s', step s .destroyReturn = some s' → Promises s .destroyReturn s' := by
  constructor
  · intro h
    obtain ⟨s, s', hs, hs', hd, hjob, hdropped⟩ : ∃ s s',
        exec step (create 1 1) [.addJob (some 7) (some 0) false, .dropCheck 0 0] = some s ∧
        step s (.dropScan 0) = some s' ∧ s.dropper 0 = .checked 0 ∧
        s.queue.contents = [⟨some 7, some 0, false, some 0⟩] ∧ s'.dropped = [] :=
      ⟨_, _, rfl, rfl, rfl, rfl, rfl⟩
    obtain ⟨hmem, -⟩ := h 1 1 s le_rfl (.of_exec _ _ hs) 0 s' hs' 0 hd ⟨some 7, some 0, false, some 0⟩
      (by simp [hjob]) rfl 0 rfl
    rw [hdropped] at hmem
    cases hmem
  · intro h
    obtain ⟨s, s', hs, hs', hfences, hsignalled⟩ : ∃ s s',
        exec step (create 1 1) [.addJob (some 7) (some 0) false, .destroyCall, .workerLock 0,
          .workerDrain 0] = some s ∧
        step s .destroyReturn = some s' ∧ s'.fences = [0] ∧ s'.signalled 0 = false :=
      ⟨_, _, rfl, rfl, rfl, rfl⟩
    have htrue := h 1 1 s le_rfl (.of_exec _ _ hs) s' hs' 0 (by simp [hfences])
    rw [hsignalled] at htrue
    cases htrue

/-- With a second slot the ring is not full, and the fence is signalled when `queue_destroy` returns. -/
theorem two_slots_signal_fence : ∃ s s',
    exec step (create 2 1) [.addJob (some 7) (some 0) false, .destroyCall, .workerLock 0,
      .workerDrain 0] = some s ∧
    step s .destroyReturn = some s' ∧ s'.fences = [0] ∧ ∀ f ∈ s'.fences, s'.signalled f = true := by
  obtain ⟨s₁, h₁⟩ : ∃ s₁, step (create 2 1) (.addJob (some 7) (some 0) false) = some s₁ := ⟨_, rfl⟩
  obtain ⟨s₂, h₂, s₃, h₃, s₄, h₄, s₅, h₅, hfull, hidle, hfences⟩ : ∃ s₂, step s₁ .destroyCall = some s₂ ∧
      ∃ s₃, step s₂ (.workerLock 0) = some s₃ ∧ ∃ s₄, step s₃ (.workerDrain 0) = some s₄ ∧
      ∃ s₅, step s₄ .destroyReturn = some s₅ ∧ s₃.queue.full = false ∧
        (∀ d, s₄.dropper d = .idle) ∧ s₅.fences = [0] := by
    cases h₁
    exact ⟨_, rfl, _, rfl, _, rfl, _, rfl, rfl, fun _ => rfl, rfl⟩
  have hreach : Reach step sound (create 2 1) s₄ :=
    .next (.workerDrain 0) (.next (.workerLock 0) (.next .destroyCall
      (.next (.addJob (some 7) (some 0) false) .init (fun _ => rfl) h₁) trivial h₂) trivial h₃)
      (.inl hfull) h₄
  have hok : sound s₄ .destroyReturn := by
    intro d f n hd
    rw [hidle d] at hd
    cases hd
  refine ⟨s₄, s₅, ?_, h₅, hfences,
    (queue_loses_nothing (by decide) 1).2 s₄ hreach .destroyReturn s₅ hok h₅⟩
  simp [exec, List.foldlM, h₁, h₂, h₃, h₄]

end FlakeWm.Jobs
