import FlakeWm.Schemes.Ring
import FlakeWm.Schemes.Run

/-! The job queue (`src/util/queue.c`).

    Producers put jobs into a ring, worker threads take them out and execute them, and a fence tells
    when its job is over. Each section under `queue->lock` or under a fence's mutex is one step; what
    a thread does between two of them (the check of `fence->signalled` before `queue_drop_job` takes
    the lock, `execute`, `cleanup`) is a step of its own, so that everything may happen in between.
    A step that is `none` is not offered (the thread waits, or is elsewhere) or an assertion fails in
    it.

    `serial` and the fields of `State` from `accepted` on are history variables: jobs are numbered in
    the order in which they are accepted. -/

namespace FlakeWm.Jobs

abbrev Fence := ℕ

/-- `struct queue_job`; `cleanup` says whether there is a cleanup function. A cleared slot is `{}`. -/
structure QueueJob where
  job : Option ℕ := none
  fence : Option Fence := none
  cleanup : Bool := false
  serial : Option ℕ := none
  deriving DecidableEq, Repr

/-- `struct queue`. -/
structure Queue where
  jobs : ℕ → QueueJob
  maxJobs : ℕ
  numQueued : ℕ
  writeIdx : ℕ
  readIdx : ℕ
  numThreads : ℕ

/-- Where a thread is in `queue_thread_func`: before the section that takes a job; with a job to
    execute; after `execute`, before the fence; after the fence, before `cleanup`; out of the loop;
    returned. -/
inductive Worker where
  | looping
  | executing (job : QueueJob)
  | executed (job : QueueJob)
  | signalled (job : QueueJob)
  | leaving
  | gone

/-- Where a call of `queue_drop_job` is: not called; past the check of the fence; with a job removed
    and its fence still to be signalled; in `queue_fence_wait`. -/
inductive Dropper where
  | idle
  | checked (fence : Fence)
  | removed (fence : Fence) (serial : Option ℕ)
  | waiting (fence : Fence)

/-- Where `queue_destroy` is: not called; joining the threads; returned. -/
inductive Destroy where
  | idle
  | joining (oldNumThreads : ℕ)
  | returned
  deriving DecidableEq

structure State where
  queue : Queue
  signalled : Fence → Bool
  worker : ℕ → Worker
  dropper : ℕ → Dropper
  destroy : Destroy
  /-- The number of accepted jobs, and the fences that came with them. -/
  accepted : ℕ
  fences : List Fence
  /-- The jobs in the order they were taken out of the ring, executed, dropped, and thrown away at
      the end, and those whose cleanup function was called. -/
  taken : List ℕ
  executed : List ℕ
  dropped : List ℕ
  discarded : List ℕ
  cleaned : List ℕ

namespace Queue

/-- The slots of the queued jobs, first in first. -/
def contents (q : Queue) : List QueueJob := Ring.window q.jobs q.maxJobs q.readIdx q.numQueued

/-- The numbers of the queued jobs. -/
def serials (q : Queue) : List ℕ := q.contents.filterMap (·.serial)

/-- The indices visited by `for (i = read_idx; i != write_idx; i = (i + 1) % max_jobs)`. -/
def visited (q : Queue) : Option (List ℕ) :=
  Ring.indices q.maxJobs q.writeIdx q.maxJobs q.readIdx

/-- The indices visited by the `do … while (i != write_idx)` loop that copies the jobs. -/
def copied (q : Queue) : Option (List ℕ) :=
  (Ring.indices q.maxJobs q.writeIdx q.maxJobs ((q.readIdx + 1) % q.maxJobs)).map (q.readIdx :: ·)

/-- The new array: the copied jobs first, the other slots zero. -/
def copyJobs (q : Queue) (is : List ℕ) : ℕ → QueueJob := fun k =>
  match is[k]? with
  | some i => q.jobs i
  | none => {}

/-- The growth of a full ring in `queue_add_job`. -/
def grow (q : Queue) : Option Queue := do
  let is ← q.copied
  -- assert(num_jobs == queue->num_queued)
  guard (is.length = q.numQueued)
  some { q with
    jobs := q.copyJobs is
    readIdx := 0
    writeIdx := is.length
    maxJobs := q.maxJobs + 8 }

/-- Writing the job into its slot. -/
def put (q : Queue) (job : QueueJob) : Option Queue := do
  -- assert(ptr->job == NULL)
  guard ((q.jobs q.writeIdx).job = none)
  some { q with
    jobs := Function.update q.jobs q.writeIdx job
    writeIdx := (q.writeIdx + 1) % q.maxJobs
    numQueued := q.numQueued + 1 }

/-- `queue_add_job` once it accepts the job. -/
def addJob (q : Queue) (job : QueueJob) : Option Queue := do
  -- assert(queue->num_queued >= 0 && queue->num_queued <= queue->max_jobs)
  guard (q.numQueued ≤ q.maxJobs)
  let q ← if q.numQueued = q.maxJobs then q.grow else some q
  q.put job

/-- Taking the first job out of the ring. -/
def take (q : Queue) : Queue :=
  { q with
    jobs := Function.update q.jobs q.readIdx {}
    readIdx := (q.readIdx + 1) % q.maxJobs
    numQueued := q.numQueued - 1 }

/-- Whether every slot of the ring is in use. -/
def full (q : Queue) : Bool := q.numQueued = q.maxJobs

end Queue

/-- Resets the fence of a job, if it has one (`queue_fence_reset`). -/
def reset (signalled : Fence → Bool) : Option Fence → Fence → Bool
  | none => signalled
  | some fence => Function.update signalled fence false

/-- Signals the fence of a job, if it has one (`queue_fence_signal`). -/
def signal (signalled : Fence → Bool) : Option Fence → Fence → Bool
  | none => signalled
  | some fence => Function.update signalled fence true

/-- One round of the loop that empties the ring when all threads go. -/
def drainOne (a : (ℕ → QueueJob) × (Fence → Bool)) (i : ℕ) : (ℕ → QueueJob) × (Fence → Bool) :=
  if (a.1 i).job.isSome then
    (Function.update a.1 i { a.1 i with job := none }, signal a.2 (a.1 i).fence)
  else a

/-- The last section of `queue_thread_func`. -/
def State.drain (s : State) : Option State := do
  if s.queue.numThreads = 0 then
    let is ← s.queue.visited
    let a := is.foldl drainOne (s.queue.jobs, s.signalled)
    some { s with
      queue := { s.queue with jobs := a.1, readIdx := s.queue.writeIdx, numQueued := 0 }
      signalled := a.2
      discarded := s.discarded ++ s.queue.serials }
  else some s

def State.setWorker (s : State) (i : ℕ) (w : Worker) : State :=
  { s with worker := Function.update s.worker i w }

def State.setDropper (s : State) (d : ℕ) (p : Dropper) : State :=
  { s with dropper := Function.update s.dropper d p }

/-- `queue_add_job`; a queue that is being destroyed accepts nothing. -/
def queueAddJob (s : State) (job : Option ℕ) (fence : Option Fence) (cleanup : Bool) :
    Option State :=
  if s.queue.numThreads = 0 then some s
  else do
    let q ← s.queue.addJob ⟨job, fence, cleanup, some s.accepted⟩
    some { s with
      queue := q
      signalled := reset s.signalled fence
      accepted := s.accepted + 1
      fences := fence.toList ++ s.fences }

/-- A thread with a job out of the ring: a cleared slot is a no-op job. -/
def Worker.ofJob (job : QueueJob) : Worker :=
  if job.job.isSome then .executing job else .looping

/-- The section of `queue_thread_func` that takes a job; it waits while the ring is empty. -/
def workerLock (s : State) (i : ℕ) : Option State :=
  -- assert(queue->num_queued >= 0 && queue->num_queued <= queue->max_jobs)
  if s.queue.numQueued > s.queue.maxJobs then none
  else if i ≥ s.queue.numThreads then some (s.setWorker i .leaving)
  else if s.queue.numQueued = 0 then none
  else
    let job := s.queue.jobs s.queue.readIdx
    some { s.setWorker i (.ofJob job) with
      queue := s.queue.take
      taken := s.taken ++ job.serial.toList }

/-- The section of `queue_drop_job`: the first job with the fence is cleared. -/
def dropScan (s : State) (d : ℕ) (fence : Fence) : Option State := do
  let is ← s.queue.visited
  match is.find? fun i => (s.queue.jobs i).fence = some fence with
  | none => some (s.setDropper d (.waiting fence))
  | some i =>
    let job := s.queue.jobs i
    some { s.setDropper d (.removed fence job.serial) with
      queue := { s.queue with jobs := Function.update s.queue.jobs i {} }
      dropped := job.serial.toList ++ s.dropped
      cleaned := if job.cleanup then job.serial.toList ++ s.cleaned else s.cleaned }

/-! ### Runs -/

inductive Event where
  | addJob (job : Option ℕ) (fence : Option Fence) (cleanup : Bool)
  | workerLock (i : ℕ)
  | workerExecute (i : ℕ)
  | workerSignal (i : ℕ)
  | workerCleanup (i : ℕ)
  | workerDrain (i : ℕ)
  | dropCheck (d : ℕ) (fence : Fence)
  | dropScan (d : ℕ)
  | dropFinish (d : ℕ)
  | destroyCall
  | destroyReturn

/-- One step of one thread. Once `queue_destroy` has returned the queue is gone, and nobody calls
    into it. -/
def step (s : State) : Event → Option State
  | .addJob job fence cleanup =>
      if s.destroy = .returned then none else queueAddJob s job fence cleanup
  | .workerLock i =>
      match s.worker i with
      | .looping => workerLock s i
      | _ => none
  | .workerExecute i =>
      match s.worker i with
      | .executing job =>
          some { s.setWorker i (.executed job) with executed := s.executed ++ job.serial.toList }
      | _ => none
  | .workerSignal i =>
      match s.worker i with
      | .executed job =>
          some { s.setWorker i (.signalled job) with signalled := signal s.signalled job.fence }
      | _ => none
  | .workerCleanup i =>
      match s.worker i with
      | .signalled job =>
          some { s.setWorker i .looping with
            cleaned := if job.cleanup then job.serial.toList ++ s.cleaned else s.cleaned }
      | _ => none
  | .workerDrain i =>
      match s.worker i with
      | .leaving => (s.setWorker i .gone).drain
      | _ => none
  | .dropCheck d fence =>
      match s.dropper d with
      | .idle =>
          if s.destroy = .returned then none
          else if s.signalled fence then some s
          else some (s.setDropper d (.checked fence))
      | _ => none
  | .dropScan d =>
      match s.dropper d with
      | .checked fence => if s.destroy = .returned then none else dropScan s d fence
      | _ => none
  | .dropFinish d =>
      match s.dropper d with
      | .removed fence _ =>
          some { s.setDropper d .idle with signalled := signal s.signalled (some fence) }
      | .waiting fence => if s.signalled fence then some (s.setDropper d .idle) else none
      | _ => none
  | .destroyCall =>
      if s.destroy = .idle then
        some { s with
          queue := { s.queue with numThreads := 0 }
          destroy := .joining s.queue.numThreads }
      else none
  | .destroyReturn =>
      match s.destroy with
      | .joining n =>
          if ((List.range n).all fun i => s.worker i matches .gone) then
            some { s with destroy := .returned }
          else none
      | _ => none

/-- `queue_create`: an empty ring and `numThreads` threads at the start of their loop. A fence that
    was not passed with a job is as `queue_fence_init` leaves it. -/
def create (maxJobs numThreads : ℕ) : State :=
  { queue := ⟨fun _ => {}, maxJobs, 0, 0, 0, numThreads⟩
    signalled := fun _ => true
    worker := fun i => if i < numThreads then .looping else .gone
    dropper := fun _ => .idle
    destroy := .idle
    accepted := 0
    fences := []
    taken := []
    executed := []
    dropped := []
    discarded := []
    cleaned := [] }

end FlakeWm.Jobs
