import FlakeWm.Jobs.Queue
import Mathlib.Data.List.Range

/-! The order of the jobs.

    Every accepted job that was not dropped is in one of three places: taken by a worker, thrown away
    at the end, or still queued; read in this order, the places give the jobs in the order in which
    they were accepted. A worker executes what it took, once. None of this depends on whether the
    ring is full. -/

namespace FlakeWm.Jobs

/-- The job a worker holds whose fence it has not signalled yet. -/
def Worker.carried : Worker → Option QueueJob
  | .executing job => some job
  | .executed job => some job
  | _ => none

/-- The workers hold different jobs out of those that were taken, and none that is executed already
    is still to be executed. -/
structure Once (worker : ℕ → Worker) (taken executed : List ℕ) : Prop where
  nodup : executed.Nodup
  was_taken : ∀ n ∈ executed, n ∈ taken
  carried : ∀ i job, (worker i).carried = some job → ∃ n ∈ taken, job.serial = some n
  distinct : ∀ i i' job job', (worker i).carried = some job → (worker i').carried = some job' →
    job.serial = job'.serial → i = i'
  fresh : ∀ i job n, worker i = .executing job → job.serial = some n → n ∉ executed

/-- The jobs of the queue and of the drop calls in flight, with the history of the run. -/
structure Ordered (s : State) : Prop where
  order : s.taken ++ s.discarded ++ s.queue.serials =
    (List.range s.accepted).filter (· ∉ s.dropped)
  kept : s.queue.numThreads ≠ 0 → s.discarded = []
  dropped_lt : ∀ n ∈ s.dropped, n < s.accepted
  numbered : ∀ job ∈ s.queue.contents, job = {} ∨ ∃ n, job.serial = some n
  removed : ∀ d f n, s.dropper d = .removed f n → ∃ m ∈ s.dropped, n = some m
  distinct : ∀ d d' f f' n, s.dropper d = .removed f n → s.dropper d' = .removed f' n → d = d'

/-- The threads stay until `queue_destroy` is called, and the first one that is gone leaves an empty
    ring behind. -/
structure Threads (created : ℕ) (s : State) : Prop where
  idle : s.destroy = .idle → s.queue.numThreads = created
  joining : ∀ n, s.destroy = .joining n → n = created
  destroyed : s.destroy ≠ .idle → s.queue.numThreads = 0
  outside : ∀ i, created ≤ i → s.worker i = .gone
  leaving : ∀ i, s.worker i = .leaving → s.queue.numThreads = 0
  gone : ∀ i < created, s.worker i = .gone → s.queue.numThreads = 0 ∧ s.queue.numQueued = 0
  returned : s.destroy = .returned → ∀ i < created, s.worker i = .gone
  empty : created = 0 → s.fences = []

/-- What holds in every state of every run. -/
structure Inv (created : ℕ) (s : State) : Prop where
  wf : s.queue.Wf
  free : s.queue.numThreads ≠ 0 → s.queue.Free
  ordered : Ordered s
  once : Once s.worker s.taken s.executed
  threads : Threads created s

/-! ### Workers -/

namespace Once

variable {worker : ℕ → Worker} {taken executed : List ℕ}

/-- A worker that is done with its job. -/
theorem release (h : Once worker taken executed) (i : ℕ) {w : Worker} (hw : w.carried = none) :
    Once (Function.update worker i w) taken executed := by
  have hold : ∀ k job, (Function.update worker i w k).carried = some job →
      (worker k).carried = some job := by
    intro k job hk
    rcases eq_or_ne k i with rfl | hne
    · rw [Function.update_self, hw] at hk
      cases hk
    · rwa [Function.update_of_ne hne] at hk
  refine ⟨h.nodup, h.was_taken, fun k job hk => h.carried k job (hold k job hk), ?_, ?_⟩
  · exact fun k k' job job' hk hk' => h.distinct k k' job job' (hold k job hk) (hold k' job' hk')
  · intro k job n hk
    rcases eq_or_ne k i with rfl | hne
    · rw [Function.update_self] at hk
      rw [hk] at hw
      cases hw
    · rw [Function.update_of_ne hne] at hk
      exact h.fresh k job n hk

/-- A worker executes the job it holds. -/
theorem execute (h : Once worker taken executed) {i : ℕ} {job : QueueJob}
    (hi : worker i = .executing job) :
    Once (Function.update worker i (.executed job)) taken (executed ++ job.serial.toList) := by
  have hold : ∀ k, (Function.update worker i (.executed job) k).carried = (worker k).carried := by
    intro k
    rcases eq_or_ne k i with rfl | hne
    · rw [Function.update_self, hi]
      rfl
    · rw [Function.update_of_ne hne]
  obtain ⟨n, hn, hserial⟩ := h.carried i job (by rw [hi]; rfl)
  rw [hserial]
  refine ⟨?_, ?_, ?_, ?_, ?_⟩
  · have hfresh := h.fresh i job n hi hserial
    exact List.nodup_append.mpr ⟨h.nodup, by simp, by
      rintro a ha b hb rfl
      exact hfresh (by simpa using (List.mem_singleton.mp hb) ▸ ha)⟩
  · intro m hm
    rcases List.mem_append.mp hm with hm | hm
    · exact h.was_taken m hm
    · exact (List.mem_singleton.mp hm) ▸ hn
  · exact fun k job' hk => h.carried k job' (hold k ▸ hk)
  · exact fun k k' j j' hk hk' => h.distinct k k' j j' (hold k ▸ hk) (hold k' ▸ hk')
  · intro k job' m hk hm hmem
    rcases eq_or_ne k i with rfl | hne
    · rw [Function.update_self] at hk
      cases hk
    · rw [Function.update_of_ne hne] at hk
      rcases List.mem_append.mp hmem with hmem | hmem
      · exact h.fresh k job' m hk hm hmem
      · obtain rfl := List.mem_singleton.mp hmem
        exact hne (h.distinct k i job' job (by rw [hk]; rfl) (by rw [hi]; rfl)
          (hm.trans hserial.symm))

theorem mono (h : Once worker taken executed) (more : List ℕ) :
    Once worker (taken ++ more) executed := by
  refine ⟨h.nodup, fun n hn => List.mem_append_left _ (h.was_taken n hn), fun i job hi => ?_,
    h.distinct, h.fresh⟩
  obtain ⟨n, hn, hserial⟩ := h.carried i job hi
  exact ⟨n, List.mem_append_left _ hn, hserial⟩

/-- A worker takes a job that nobody took before. -/
theorem take (h : Once worker taken executed) (i : ℕ) {job : QueueJob} {n : ℕ}
    (hserial : job.serial = some n) (hn : n ∉ taken) :
    Once (Function.update worker i (.executing job)) (taken ++ [n]) executed := by
  have hother : ∀ k job', (worker k).carried = some job' → job'.serial ≠ job.serial := by
    intro k job' hk heq
    obtain ⟨m, hm, hserial'⟩ := h.carried k job' hk
    rw [hserial', hserial, Option.some.injEq] at heq
    exact hn (heq ▸ hm)
  refine ⟨h.nodup, fun m hm => List.mem_append_left _ (h.was_taken m hm), ?_, ?_, ?_⟩
  · intro k job' hk
    rcases eq_or_ne k i with rfl | hne
    · rw [Function.update_self] at hk
      cases hk
      exact ⟨n, by simp, hserial⟩
    · rw [Function.update_of_ne hne] at hk
      exact (h.mono [n]).carried k job' hk
  · intro k k' j j' hk hk' heq
    rcases eq_or_ne i k with rfl | hne <;> rcases eq_or_ne i k' with rfl | hne'
    · rfl
    · rw [Function.update_self] at hk
      cases hk
      rw [Function.update_of_ne hne'.symm] at hk'
      exact absurd heq.symm (hother k' j' hk')
    · rw [Function.update_self] at hk'
      cases hk'
      rw [Function.update_of_ne hne.symm] at hk
      exact absurd heq (hother k j hk)
    · rw [Function.update_of_ne hne.symm] at hk
      rw [Function.update_of_ne hne'.symm] at hk'
      exact h.distinct k k' j j' hk hk' heq
  · intro k job' m hk hm hmem
    rcases eq_or_ne k i with rfl | hne
    · rw [Function.update_self] at hk
      cases hk
      rw [hserial, Option.some.injEq] at hm
      exact hn (hm ▸ h.was_taken m hmem)
    · rw [Function.update_of_ne hne] at hk
      exact h.fresh k job' m hk hm hmem

end Once

/-! ### Places of a job -/

namespace Ordered

variable {s : State} (h : Ordered s)

include h

theorem nodup : (s.taken ++ s.discarded ++ s.queue.serials).Nodup := by
  rw [h.order]
  exact List.nodup_range.filter _

theorem queued_not_taken {n : ℕ} (hn : n ∈ s.queue.serials) : n ∉ s.taken := by
  intro hmem
  exact (List.nodup_append.mp h.nodup).2.2 n (List.mem_append_left _ hmem) n hn rfl

theorem taken_not_dropped {n : ℕ} (hn : n ∈ s.taken) : n ∉ s.dropped := by
  have hmem : n ∈ s.taken ++ s.discarded ++ s.queue.serials := by simp [hn]
  rw [h.order, List.mem_filter] at hmem
  simpa using hmem.2

theorem queued_not_dropped {n : ℕ} (hn : n ∈ s.queue.serials) : n ∉ s.dropped := by
  have hmem : n ∈ s.taken ++ s.discarded ++ s.queue.serials := by simp [hn]
  rw [h.order, List.mem_filter] at hmem
  simpa using hmem.2

theorem queued_lt {n : ℕ} (hn : n ∈ s.queue.serials) : n < s.accepted := by
  have hmem : n ∈ s.taken ++ s.discarded ++ s.queue.serials := by simp [hn]
  rw [h.order, List.mem_filter] at hmem
  simpa using hmem.1

end Ordered

theorem mem_serials {q : Queue} {job : QueueJob} (hjob : job ∈ q.contents) {n : ℕ}
    (hn : job.serial = some n) : n ∈ q.serials :=
  List.mem_filterMap.mpr ⟨job, hjob, hn⟩

/-- A thread goes from one place to the next. -/
theorem Threads.move {created : ℕ} {s s' : State} (h : Threads created s) {i : ℕ} {w : Worker}
    (hi : s.worker i ≠ .gone) (hworker : s'.worker = Function.update s.worker i w)
    (hthreads : s'.queue.numThreads = s.queue.numThreads) (hdestroy : s'.destroy = s.destroy)
    (hfences : s'.fences = s.fences)
    (hqueued : s.queue.numThreads = 0 → s.queue.numQueued = 0 → s'.queue.numQueued = 0)
    (hleaving : w = .leaving → s.queue.numThreads = 0)
    (hgone : w = .gone → s.queue.numThreads = 0 ∧ s'.queue.numQueued = 0) : Threads created s' := by
  refine ⟨?_, ?_, ?_, fun k hk => ?_, fun k hk => ?_, fun k hk hgonek => ?_, fun hret => ?_, ?_⟩
  · rw [hdestroy, hthreads]
    exact h.idle
  · rw [hdestroy]
    exact h.joining
  · rw [hdestroy, hthreads]
    exact h.destroyed
  · rw [hworker]
    rcases eq_or_ne k i with rfl | hne
    · exact absurd (h.outside k hk) hi
    · rw [Function.update_of_ne hne]
      exact h.outside k hk
  · rw [hworker] at hk
    rw [hthreads]
    rcases eq_or_ne k i with rfl | hne
    · rw [Function.update_self] at hk
      exact hleaving hk
    · rw [Function.update_of_ne hne] at hk
      exact h.leaving k hk
  · rw [hworker] at hgonek
    rw [hthreads]
    rcases eq_or_ne k i with rfl | hne
    · rw [Function.update_self] at hgonek
      exact hgone hgonek
    · rw [Function.update_of_ne hne] at hgonek
      obtain ⟨hzero, hempty⟩ := h.gone k hk hgonek
      exact ⟨hzero, hqueued hzero hempty⟩
  · rw [hdestroy] at hret
    rcases lt_or_ge i created with hlt | hge
    · exact absurd (h.returned hret i hlt) hi
    · exact absurd (h.outside i hge) hi
  · rw [hfences]
    exact h.empty

/-- Steps that no thread takes. -/
theorem Threads.frame {created : ℕ} {s s' : State} (h : Threads created s)
    (hworker : s'.worker = s.worker) (hthreads : s'.queue.numThreads = s.queue.numThreads)
    (hqueued : s'.queue.numQueued = s.queue.numQueued) (hdestroy : s'.destroy = s.destroy)
    (hfences : s'.fences = s.fences) : Threads created s' := by
  refine ⟨?_, ?_, ?_, ?_, ?_, ?_, ?_, ?_⟩
  · rw [hdestroy, hthreads]
    exact h.idle
  · rw [hdestroy]
    exact h.joining
  · rw [hdestroy, hthreads]
    exact h.destroyed
  · rw [hworker]
    exact h.outside
  · rw [hworker, hthreads]
    exact h.leaving
  · rw [hworker, hthreads, hqueued]
    exact h.gone
  · rw [hdestroy, hworker]
    exact h.returned
  · rw [hfences]
    exact h.empty

/-! ### Steps -/

section Steps

variable {created : ℕ} {s s' : State}

theorem create_inv {maxJobs numThreads : ℕ} (h : 1 ≤ maxJobs) :
    Inv numThreads (create maxJobs numThreads) := by
  have hcarried : ∀ i, ((create maxJobs numThreads).worker i).carried = none := by
    intro i
    simp only [create]
    split_ifs <;> rfl
  refine ⟨⟨h, h, Nat.zero_le _, ?_⟩, fun _ _ _ _ => rfl, ⟨rfl, fun _ => rfl, ?_, ?_, ?_, ?_⟩,
    ⟨List.nodup_nil, ?_, ?_, ?_, ?_⟩, ⟨fun _ => rfl, ?_, ?_, ?_, ?_, ?_, ?_, fun _ => rfl⟩⟩
  · simp [create]
  · simp [create]
  · simp [create, Queue.contents, Ring.window]
  · simp [create]
  · simp [create]
  · simp [create]
  · intro i job hi
    rw [hcarried] at hi
    cases hi
  · intro i i' job job' hi
    rw [hcarried] at hi
    cases hi
  · intro i job n hi
    have := hcarried i
    rw [hi] at this
    cases this
  · simp [create]
  · simp [create]
  · intro i hi
    simp [create, Nat.not_lt.mpr hi]
  · intro i hi
    simp only [create] at hi
    split_ifs at hi
  · intro i hi hgone
    simp [create, hi] at hgone
  · simp [create]

theorem queueAddJob_cases {job : Option ℕ} {fence : Option Fence} {cleanup : Bool}
    (hs : queueAddJob s job fence cleanup = some s') :
    (s.queue.numThreads = 0 ∧ s' = s) ∨
    (s.queue.numThreads ≠ 0 ∧ ∃ q, s.queue.addJob ⟨job, fence, cleanup, some s.accepted⟩ = some q ∧
      s' = { s with
        queue := q
        signalled := reset s.signalled fence
        accepted := s.accepted + 1
        fences := fence.toList ++ s.fences }) := by
  rw [queueAddJob] at hs
  split_ifs at hs with hthreads
  · exact .inl ⟨hthreads, (Option.some.inj hs).symm⟩
  · obtain ⟨q, hq, hs⟩ := Option.bind_eq_some_iff.mp hs
    exact .inr ⟨hthreads, q, hq, (Option.some.inj hs).symm⟩

theorem queueAddJob_inv (h : Inv created s) {job : Option ℕ} {fence : Option Fence} {cleanup : Bool}
    (hs : queueAddJob s job fence cleanup = some s') : Inv created s' := by
  rcases queueAddJob_cases hs with ⟨-, rfl⟩ | ⟨hthreads, q, hq, rfl⟩
  · exact h
  obtain ⟨q', hq', hwf, hfree, hcontents, hnum⟩ :=
    Queue.addJob_ok h.wf (h.free hthreads) ⟨job, fence, cleanup, some s.accepted⟩
  obtain rfl := Option.some.inj (hq.symm.trans hq')
  have hserials : q.serials = s.queue.serials ++ [s.accepted] := by
    simp [Queue.serials, hcontents]
  have hfresh : s.accepted ∉ s.dropped := fun hmem => by
    have := h.ordered.dropped_lt _ hmem
    omega
  refine ⟨hwf, fun _ => hfree, ⟨?_, fun _ => h.ordered.kept hthreads, ?_, ?_, h.ordered.removed,
    h.ordered.distinct⟩, h.once,
    ⟨fun hidle => ?_, h.threads.joining, fun hd => ?_, h.threads.outside, fun i hi => ?_,
      fun i hi hgone => ?_, h.threads.returned, fun hzero => ?_⟩⟩
  · rw [hserials, ← List.append_assoc, h.ordered.order, List.range_succ, List.filter_append]
    simp [hfresh]
  · exact fun n hn => Nat.lt_succ_of_lt (h.ordered.dropped_lt n hn)
  · intro j hj
    rw [hcontents, List.mem_append, List.mem_singleton] at hj
    rcases hj with hj | rfl
    · exact h.ordered.numbered j hj
    · exact .inr ⟨_, rfl⟩
  · exact hnum.trans (h.threads.idle hidle)
  · exact absurd (h.threads.destroyed hd) hthreads
  · exact absurd (h.threads.leaving i hi) hthreads
  · exact absurd (h.threads.gone i hi hgone).1 hthreads
  · by_cases hidle : s.destroy = .idle
    · exact absurd ((h.threads.idle hidle).trans hzero) hthreads
    · exact absurd (h.threads.destroyed hidle) hthreads

theorem workerLock_cases {i : ℕ} (hs : workerLock s i = some s') :
    (s.queue.numThreads ≤ i ∧ s' = s.setWorker i .leaving) ∨
    (i < s.queue.numThreads ∧ s.queue.numQueued ≠ 0 ∧
      s' = { s.setWorker i (.ofJob (s.queue.jobs s.queue.readIdx)) with
        queue := s.queue.take
        taken := s.taken ++ (s.queue.jobs s.queue.readIdx).serial.toList }) := by
  simp only [workerLock] at hs
  split_ifs at hs with hcount hleave hempty
  · exact .inl ⟨hleave, (Option.some.inj hs).symm⟩
  · exact .inr ⟨not_le.mp hleave, hempty, (Option.some.inj hs).symm⟩

theorem workerLock_inv (h : Inv created s) {i : ℕ} (hi : s.worker i = .looping)
    (hs : workerLock s i = some s') : Inv created s' := by
  have hne : s.worker i ≠ .gone := by simp [hi]
  rcases workerLock_cases hs with ⟨hleave, rfl⟩ | ⟨hstay, hqueued, rfl⟩
  · refine ⟨h.wf, h.free, ⟨h.ordered.order, h.ordered.kept, h.ordered.dropped_lt,
      h.ordered.numbered, h.ordered.removed, h.ordered.distinct⟩, h.once.release i rfl,
      h.threads.move hne rfl rfl rfl rfl (fun _ => id) (fun _ => ?_) (fun hw => by cases hw)⟩
    -- a thread is only told to leave by `queue_destroy`
    by_cases hidle : s.destroy = .idle
    · have := h.threads.idle hidle
      exact absurd (h.threads.outside i (by omega)) hne
    · exact h.threads.destroyed hidle
  · have hthreads : s.queue.numThreads ≠ 0 := by omega
    obtain ⟨hwf, hfree, hcontents⟩ := Queue.take_ok h.wf (h.free hthreads) hqueued
    have hserials : s.queue.serials = (s.queue.jobs s.queue.readIdx).serial.toList ++
        s.queue.take.serials := by
      rw [Queue.serials, hcontents, List.filterMap_cons]
      cases (s.queue.jobs s.queue.readIdx).serial <;> rfl
    have hjob : s.queue.jobs s.queue.readIdx ∈ s.queue.contents := by
      rw [hcontents]
      exact List.mem_cons_self
    refine ⟨hwf, fun _ => hfree, ⟨?_, fun _ => h.ordered.kept hthreads, h.ordered.dropped_lt, ?_,
      h.ordered.removed, h.ordered.distinct⟩, ?_, ?_⟩
    · have horder := h.ordered.order
      rw [h.ordered.kept hthreads, List.append_nil, hserials, ← List.append_assoc] at horder
      simp only [State.setWorker]
      rw [h.ordered.kept hthreads, List.append_nil]
      exact horder
    · intro job hmem
      refine h.ordered.numbered job ?_
      rw [hcontents]
      exact List.mem_cons_of_mem _ hmem
    · rcases h.ordered.numbered _ hjob with hclear | ⟨n, hn⟩
      · rw [hclear]
        exact (h.once.release i rfl).mono []
      · have hnew := h.ordered.queued_not_taken (mem_serials hjob hn)
        simp only [State.setWorker, Worker.ofJob]
        split_ifs
        · rw [hn]
          exact h.once.take i hn hnew
        · exact (h.once.release i rfl).mono _
    · refine h.threads.move hne rfl rfl rfl rfl (fun hzero => absurd hzero hthreads) ?_ ?_
      · intro hw
        rw [Worker.ofJob] at hw
        split_ifs at hw
      · intro hw
        rw [Worker.ofJob] at hw
        split_ifs at hw

theorem workerExecute_inv (h : Inv created s) {i : ℕ} {job : QueueJob}
    (hi : s.worker i = .executing job) :
    Inv created
      { s.setWorker i (.executed job) with executed := s.executed ++ job.serial.toList } :=
  ⟨h.wf, h.free, ⟨h.ordered.order, h.ordered.kept, h.ordered.dropped_lt, h.ordered.numbered,
    h.ordered.removed, h.ordered.distinct⟩, h.once.execute hi,
    h.threads.move (by simp [hi]) rfl rfl rfl rfl (fun _ => id) (fun hw => by cases hw)
      fun hw => by cases hw⟩

/-- A worker that is done with its job, whatever it has signalled or cleaned up. -/
theorem workerDone_inv (h : Inv created s) {i : ℕ} (hi : s.worker i ≠ .gone) {w : Worker}
    (hw : w.carried = none) (hleaving : w ≠ .leaving) (hgone : w ≠ .gone) (signalled : Fence → Bool)
    (cleaned : List ℕ) :
    Inv created { s.setWorker i w with signalled := signalled, cleaned := cleaned } :=
  ⟨h.wf, h.free, ⟨h.ordered.order, h.ordered.kept, h.ordered.dropped_lt, h.ordered.numbered,
    h.ordered.removed, h.ordered.distinct⟩, h.once.release i hw,
    h.threads.move hi rfl rfl rfl rfl (fun _ => id) (fun hl => absurd hl hleaving)
      fun hg => absurd hg hgone⟩

/-- The drain of an empty or full ring, or of the jobs in between: in any case the ring is empty. -/
theorem drain_cases (hwf : s.queue.Wf) :
    (s.queue.numThreads ≠ 0 ∧ s.drain = some s) ∨
    (s.queue.numThreads = 0 ∧ ∃ is, s.queue.visited = some is ∧ s.drain = some { s with
      queue := { s.queue with
        jobs := (is.foldl drainOne (s.queue.jobs, s.signalled)).1
        readIdx := s.queue.writeIdx
        numQueued := 0 }
      signalled := (is.foldl drainOne (s.queue.jobs, s.signalled)).2
      discarded := s.discarded ++ s.queue.serials }) := by
  by_cases hthreads : s.queue.numThreads = 0
  · obtain ⟨is, his⟩ := Queue.visited_isSome hwf
    refine .inr ⟨hthreads, is, his, ?_⟩
    simp [State.drain, hthreads, his]
  · exact .inl ⟨hthreads, by simp [State.drain, hthreads]⟩

theorem workerDrain_inv (h : Inv created s) {i : ℕ} (hi : s.worker i = .leaving)
    (hs : (s.setWorker i .gone).drain = some s') : Inv created s' := by
  have hzero := h.threads.leaving i hi
  have hne : s.worker i ≠ .gone := by simp [hi]
  rcases drain_cases (s := s.setWorker i .gone) h.wf with ⟨hthreads, -⟩ | ⟨-, is, -, heq⟩
  · exact absurd hzero hthreads
  obtain rfl := Option.some.inj (heq.symm.trans hs)
  have hwrite : s.queue.writeIdx < s.queue.maxJobs := by
    rw [h.wf.write]
    exact Nat.mod_lt _ h.wf.pos
  refine ⟨⟨h.wf.pos, hwrite, Nat.zero_le _, ?_⟩, fun hthreads => absurd hzero hthreads,
    ⟨?_, fun hthreads => absurd hzero hthreads, h.ordered.dropped_lt, ?_, h.ordered.removed,
      h.ordered.distinct⟩, h.once.release i rfl, ?_⟩
  · exact (Nat.mod_eq_of_lt hwrite).symm
  · change s.taken ++ (s.discarded ++ s.queue.serials) ++ [] = _
    rw [List.append_nil, ← List.append_assoc]
    exact h.ordered.order
  · intro job hjob
    simp [Queue.contents, Ring.window] at hjob
  · exact h.threads.move hne rfl rfl rfl rfl (fun _ _ => rfl) (fun hw => by cases hw)
      fun _ => ⟨hzero, rfl⟩

/-! Drop calls -/

theorem setDropper_inv (h : Inv created s) (d : ℕ) {p : Dropper} (hp : ∀ f n, p ≠ .removed f n)
    (signalled : Fence → Bool) :
    Inv created { s.setDropper d p with signalled := signalled } := by
  have hold : ∀ d' f n, Function.update s.dropper d p d' = .removed f n →
      s.dropper d' = .removed f n := by
    intro d' f n hd
    rcases eq_or_ne d' d with rfl | hne
    · rw [Function.update_self] at hd
      exact absurd hd (hp f n)
    · rwa [Function.update_of_ne hne] at hd
  refine ⟨h.wf, h.free, ⟨h.ordered.order, h.ordered.kept, h.ordered.dropped_lt, h.ordered.numbered,
    fun d' f n hd => h.ordered.removed d' f n (hold d' f n hd), fun d₁ d₂ f f' n h₁ h₂ => ?_⟩,
    h.once, h.threads.frame rfl rfl rfl rfl rfl⟩
  exact h.ordered.distinct d₁ d₂ f f' n (hold d₁ f n h₁) (hold d₂ f' n h₂)

/-- What the section of `queue_drop_job` does: nothing, or it clears the first job with the fence. -/
theorem dropScan_cases (hwf : s.queue.Wf) {d : ℕ} {f : Fence} (hs : dropScan s d f = some s') :
    (s' = s.setDropper d (.waiting f) ∧
      (s.queue.full = false → ∀ job ∈ s.queue.contents, job.fence ≠ some f)) ∨
    (∃ as i bs, s.queue.slots = as ++ i :: bs ∧ (s.queue.jobs i).fence = some f ∧
      s.queue.full = false ∧
      s' = { s.setDropper d (.removed f (s.queue.jobs i).serial) with
        queue := { s.queue with jobs := Function.update s.queue.jobs i {} }
        dropped := (s.queue.jobs i).serial.toList ++ s.dropped
        cleaned := if (s.queue.jobs i).cleanup then (s.queue.jobs i).serial.toList ++ s.cleaned
          else s.cleaned }) := by
  cases hfull : s.queue.full with
  | true =>
    rw [dropScan, Queue.visited_full hwf hfull] at hs
    exact .inl ⟨(Option.some.inj hs).symm, fun hnot => by cases hnot⟩
  | false =>
    simp only [dropScan, Queue.visited_eq hwf hfull, Option.bind_eq_bind, Option.bind_some] at hs
    split at hs
    next hnone =>
      refine .inl ⟨(Option.some.inj hs).symm, fun _ job hjob => ?_⟩
      rw [Queue.contents_eq, List.mem_map] at hjob
      obtain ⟨i, hi, rfl⟩ := hjob
      simpa using List.find?_eq_none.mp hnone i hi
    next i hfound =>
      obtain ⟨hfence, as, bs, hslots, -⟩ := List.find?_eq_some_iff_append.mp hfound
      exact .inr ⟨as, i, bs, hslots, by simpa using hfence, rfl, (Option.some.inj hs).symm⟩

/-- The numbers of the queue without the job that is dropped. -/
theorem filter_dropped {l : List ℕ} {as bs : List ℕ} {n : ℕ} {dropped : List ℕ} {total : ℕ}
    (h : l ++ (as ++ n :: bs) = (List.range total).filter (· ∉ dropped)) :
    l ++ (as ++ bs) = (List.range total).filter (· ∉ n :: dropped) := by
  have hnodup : (l ++ (as ++ n :: bs)).Nodup := by
    rw [h]
    exact List.nodup_range.filter _
  have hsplit : (List.range total).filter (· ∉ n :: dropped) =
      ((List.range total).filter (· ∉ dropped)).filter (· ≠ n) := by
    rw [List.filter_filter]
    refine List.filter_congr fun m _ => ?_
    simp
  rw [hsplit, ← h, List.filter_append, List.filter_append, List.filter_cons_of_neg (by simp)]
  have hkeep : ∀ l' : List ℕ, n ∉ l' → l'.filter (· ≠ n) = l' := by
    intro l' hn
    refine List.filter_eq_self.mpr fun m hm => ?_
    simp only [ne_eq, decide_eq_true_eq]
    rintro rfl
    exact hn hm
  rw [List.nodup_append, List.nodup_append, List.nodup_cons] at hnodup
  obtain ⟨-, ⟨-, ⟨hbs, -⟩, has⟩, hl⟩ := hnodup
  rw [hkeep l fun hn => hl n hn n (by simp) rfl, hkeep as fun hn => has n hn n (by simp) rfl,
    hkeep bs hbs]

theorem dropScan_inv (h : Inv created s) {d : ℕ} {f : Fence} (hs : dropScan s d f = some s') :
    Inv created s' := by
  rcases dropScan_cases h.wf hs with ⟨rfl, -⟩ | ⟨as, i, bs, hslots, hfence, -, rfl⟩
  · exact setDropper_inv h d (by simp) s.signalled
  have hcontents : s.queue.contents = as.map s.queue.jobs ++ s.queue.jobs i :: bs.map s.queue.jobs := by
    rw [Queue.contents_eq, hslots, List.map_append, List.map_cons]
  have hjob : s.queue.jobs i ∈ s.queue.contents := by
    rw [hcontents]
    simp
  obtain ⟨n, hn⟩ : ∃ n, (s.queue.jobs i).serial = some n := by
    rcases h.ordered.numbered _ hjob with hclear | hn
    · rw [hclear] at hfence
      cases hfence
    · exact hn
  have hqueued := mem_serials hjob hn
  have hnew : Queue.contents { s.queue with jobs := Function.update s.queue.jobs i {} } =
      as.map s.queue.jobs ++ {} :: bs.map s.queue.jobs :=
    Ring.window_update h.wf.count hslots (QueueJob.mk none none false none)
  rw [hn]
  refine ⟨⟨h.wf.pos, h.wf.read, h.wf.count, h.wf.write⟩, fun hthreads => ?_,
    ⟨?_, h.ordered.kept, ?_, ?_, ?_, ?_⟩, h.once, h.threads.frame rfl rfl rfl rfl rfl⟩
  · exact (Queue.clear_ok h.wf (h.free hthreads) hslots).2.1
  · have horder := h.ordered.order
    rw [Queue.serials, hcontents, List.filterMap_append, List.filterMap_cons_some hn] at horder
    simp only [State.setDropper, Queue.serials]
    rw [hnew, List.filterMap_append, List.filterMap_cons_none rfl]
    exact filter_dropped horder
  · intro m hm
    rcases List.mem_cons.mp hm with rfl | hm
    · exact h.ordered.queued_lt hqueued
    · exact h.ordered.dropped_lt m hm
  · intro job hmem
    rw [hnew] at hmem
    rcases List.mem_append.mp hmem with hmem | hmem
    · exact h.ordered.numbered job (by rw [hcontents]; exact List.mem_append_left _ hmem)
    · rcases List.mem_cons.mp hmem with rfl | hmem
      · exact .inl rfl
      · refine h.ordered.numbered job ?_
        rw [hcontents]
        exact List.mem_append_right _ (List.mem_cons_of_mem _ hmem)
  · intro d' f' m hd
    simp only [State.setDropper] at hd
    rcases eq_or_ne d' d with rfl | hne
    · rw [Function.update_self] at hd
      cases hd
      exact ⟨n, by simp, rfl⟩
    · rw [Function.update_of_ne hne] at hd
      obtain ⟨k, hk, rfl⟩ := h.ordered.removed d' f' m hd
      exact ⟨k, List.mem_cons_of_mem _ hk, rfl⟩
  · -- the new number is queued, so no other call has removed it
    have hother : ∀ d' f', s.dropper d' ≠ .removed f' (some n) := by
      intro d' f' hd
      obtain ⟨k, hk, hkn⟩ := h.ordered.removed d' f' (some n) hd
      exact h.ordered.queued_not_dropped hqueued (Option.some.inj hkn ▸ hk)
    intro d₁ d₂ f₁ f₂ m h₁ h₂
    simp only [State.setDropper] at h₁ h₂
    rcases eq_or_ne d d₁ with rfl | hne₁ <;> rcases eq_or_ne d d₂ with rfl | hne₂
    · rfl
    · rw [Function.update_self] at h₁
      rw [Function.update_of_ne hne₂.symm] at h₂
      cases h₁
      exact absurd h₂ (hother d₂ f₂)
    · rw [Function.update_self] at h₂
      rw [Function.update_of_ne hne₁.symm] at h₁
      cases h₂
      exact absurd h₁ (hother d₁ f₁)
    · rw [Function.update_of_ne hne₁.symm] at h₁
      rw [Function.update_of_ne hne₂.symm] at h₂
      exact h.ordered.distinct d₁ d₂ f₁ f₂ m h₁ h₂

theorem destroyCall_inv (h : Inv created s) (hidle : s.destroy = .idle) :
    Inv created { s with
      queue := { s.queue with numThreads := 0 }
      destroy := .joining s.queue.numThreads } := by
  refine ⟨⟨h.wf.pos, h.wf.read, h.wf.count, h.wf.write⟩, fun hthreads => absurd rfl hthreads,
    ⟨h.ordered.order, fun hthreads => absurd rfl hthreads, h.ordered.dropped_lt, h.ordered.numbered,
      h.ordered.removed, h.ordered.distinct⟩, h.once,
    ⟨fun hd => (by cases hd), fun n hn => ?_, fun _ => rfl, h.threads.outside, fun _ _ => rfl,
      fun i hi hgone => ⟨rfl, (h.threads.gone i hi hgone).2⟩, fun hd => (by cases hd),
      h.threads.empty⟩⟩
  cases hn
  exact h.threads.idle hidle

theorem destroyReturn_inv (h : Inv created s) {n : ℕ} (hjoin : s.destroy = .joining n)
    (hgone : ∀ i < n, s.worker i = .gone) : Inv created { s with destroy := .returned } := by
  refine ⟨h.wf, h.free, ⟨h.ordered.order, h.ordered.kept, h.ordered.dropped_lt, h.ordered.numbered,
    h.ordered.removed, h.ordered.distinct⟩, h.once,
    ⟨fun hd => (by cases hd), fun _ hn => (by cases hn), fun _ => ?_, h.threads.outside,
      h.threads.leaving, h.threads.gone, fun _ => ?_, h.threads.empty⟩⟩
  · exact h.threads.destroyed (by simp [hjoin])
  · rw [← h.threads.joining n hjoin]
    exact hgone

theorem destroyReturn_gone {n : ℕ}
    (h : ((List.range n).all fun i => s.worker i matches .gone) = true) :
    ∀ i < n, s.worker i = .gone := by
  intro i hi
  have hgone := List.all_eq_true.mp h i (List.mem_range.mpr hi)
  split at hgone
  · assumption
  · cases hgone

theorem inv_step (h : Inv created s) (e : Event) (hs : step s e = some s') : Inv created s' := by
  cases e with
  | addJob job fence cleanup =>
    rw [step] at hs
    split_ifs at hs
    exact queueAddJob_inv h hs
  | workerLock i =>
    simp only [step] at hs
    split at hs
    next hi => exact workerLock_inv h hi hs
    next => cases hs
  | workerExecute i =>
    simp only [step] at hs
    split at hs
    next job hi =>
      cases hs
      exact workerExecute_inv h hi
    next => cases hs
  | workerSignal i =>
    simp only [step] at hs
    split at hs
    next job hi =>
      cases hs
      exact workerDone_inv h (by simp [hi]) rfl (by simp) (by simp) _ s.cleaned
    next => cases hs
  | workerCleanup i =>
    simp only [step] at hs
    split at hs
    next job hi =>
      cases hs
      exact workerDone_inv h (by simp [hi]) rfl (by simp) (by simp) s.signalled _
    next => cases hs
  | workerDrain i =>
    simp only [step] at hs
    split at hs
    next hi => exact workerDrain_inv h hi hs
    next => cases hs
  | dropCheck d fence =>
    simp only [step] at hs
    split at hs
    next =>
      split_ifs at hs
      · exact Option.some.inj hs ▸ h
      · cases hs
        exact setDropper_inv h d (by simp) s.signalled
    next => cases hs
  | dropScan d =>
    simp only [step] at hs
    split at hs
    next fence hd =>
      split_ifs at hs
      exact dropScan_inv h hs
    next => cases hs
  | dropFinish d =>
    simp only [step] at hs
    split at hs
    next fence n hd =>
      cases hs
      exact setDropper_inv h d (by simp) _
    next fence hd =>
      split_ifs at hs
      cases hs
      exact setDropper_inv h d (by simp) s.signalled
    next => cases hs
  | destroyCall =>
    simp only [step] at hs
    split_ifs at hs with hidle
    cases hs
    exact destroyCall_inv h hidle
  | destroyReturn =>
    simp only [step] at hs
    split at hs
    next n hjoin =>
      split_ifs at hs with hgone
      cases hs
      exact destroyReturn_inv h hjoin (destroyReturn_gone hgone)
    next => cases hs

end Steps

end FlakeWm.Jobs
