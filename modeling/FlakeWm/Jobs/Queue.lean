import FlakeWm.Jobs.Model

/-! The ring of the job queue.

    The three loops over the ring treat a full ring differently. The loop that copies the jobs when
    the ring grows is a `do … while` loop and copies all of them; the loops of `queue_drop_job` and of
    the last thread that leaves stop before they start, because `read_idx` and `write_idx` are equal
    (`visited_full`). -/

namespace FlakeWm.Jobs.Queue

/-- The indices of a queue fit its capacity and its number of jobs. -/
structure Wf (q : Queue) : Prop where
  pos : 0 < q.maxJobs
  read : q.readIdx < q.maxJobs
  count : q.numQueued ≤ q.maxJobs
  write : q.writeIdx = (q.readIdx + q.numQueued) % q.maxJobs

/-- The slots that hold no queued job have no job. -/
def Free (q : Queue) : Prop :=
  ∀ k, q.numQueued ≤ k → k < q.maxJobs → (q.jobs ((q.readIdx + k) % q.maxJobs)).job = none

/-- The indices of the queued jobs. -/
def slots (q : Queue) : List ℕ := Ring.offsets q.maxJobs q.readIdx q.numQueued

theorem contents_eq (q : Queue) : q.contents = q.slots.map q.jobs := rfl

variable {q : Queue}

theorem nodup_slots (hq : q.Wf) : q.slots.Nodup := Ring.nodup_offsets _ hq.count

theorem not_full (hq : q.Wf) (h : q.full = false) : q.numQueued < q.maxJobs := by
  have := hq.count
  simp only [full, decide_eq_false_iff_not] at h
  omega

theorem visited_eq (hq : q.Wf) (h : q.full = false) : q.visited = some q.slots := by
  rw [visited, hq.write, Ring.indices_eq hq.read (not_full hq h) hq.count]
  rfl

theorem visited_full (hq : q.Wf) (h : q.full = true) : q.visited = some [] := by
  have hwrite : q.writeIdx = q.readIdx := by
    simp only [full, decide_eq_true_eq] at h
    rw [hq.write, h, Nat.add_mod_right, Nat.mod_eq_of_lt hq.read]
  rw [visited, hwrite, Ring.indices_self]

theorem visited_isSome (hq : q.Wf) : ∃ is, q.visited = some is := by
  cases h : q.full with
  | true => exact ⟨_, visited_full hq h⟩
  | false => exact ⟨_, visited_eq hq h⟩

/-- The copying loop visits a full ring once around. -/
theorem copied_eq (hq : q.Wf) (h : q.numQueued = q.maxJobs) : q.copied = some q.slots := by
  have hpos := hq.pos
  have hwrite : q.writeIdx = ((q.readIdx + 1) % q.maxJobs + (q.maxJobs - 1)) % q.maxJobs := by
    rw [hq.write, h, Nat.mod_add_mod]
    congr 1
    omega
  have hslots : q.slots = q.readIdx :: Ring.offsets q.maxJobs ((q.readIdx + 1) % q.maxJobs)
      (q.maxJobs - 1) := by
    rw [← Ring.offsets_succ hq.read, slots, h]
    congr 1
    omega
  rw [copied, hwrite, Ring.indices_eq (Nat.mod_lt _ hpos) (by omega) (by omega), hslots]
  rfl

/-! ### The operations -/

theorem grow_eq (hq : q.Wf) (h : q.numQueued = q.maxJobs) : q.grow = some { q with
    jobs := q.copyJobs q.slots
    readIdx := 0
    writeIdx := q.numQueued
    maxJobs := q.maxJobs + 8 } := by
  have hlen : q.slots.length = q.numQueued := Ring.length_offsets _ _ _
  simp [grow, copied_eq hq h, hlen, guard]

theorem put_eq (h : (q.jobs q.writeIdx).job = none) (job : QueueJob) : q.put job = some { q with
    jobs := Function.update q.jobs q.writeIdx job
    writeIdx := (q.writeIdx + 1) % q.maxJobs
    numQueued := q.numQueued + 1 } := by
  simp [put, h, guard]

/-- Growing keeps the jobs and makes room. -/
theorem grow_ok (hq : q.Wf) (h : q.numQueued = q.maxJobs) :
    ∃ q', q.grow = some q' ∧ q'.Wf ∧ q'.Free ∧ q'.contents = q.contents ∧
      q'.numQueued < q'.maxJobs ∧ q'.numThreads = q.numThreads := by
  have hlen : q.slots.length = q.numQueued := Ring.length_offsets _ _ _
  refine ⟨_, grow_eq hq h, ⟨?_, ?_, ?_, ?_⟩, fun k hk hmax => ?_, ?_, ?_, rfl⟩
  · simp only
    omega
  · simp only
    omega
  · simp only
    omega
  · simp only [Nat.zero_add]
    exact (Nat.mod_eq_of_lt (by omega)).symm
  · simp only at hk hmax
    simp only [Nat.zero_add, Nat.mod_eq_of_lt hmax, copyJobs]
    rw [List.getElem?_eq_none (by omega)]
  · refine List.ext_getElem (by simp [contents]) fun k hk hk' => ?_
    have hk'' : k < q.slots.length := by
      rw [hlen]
      simpa [contents] using hk'
    have hmod : k % (q.maxJobs + 8) = k := Nat.mod_eq_of_lt (by omega)
    simp only [contents, Ring.window, Ring.offsets, List.getElem_map, List.getElem_range,
      Nat.zero_add, hmod, copyJobs]
    rw [List.getElem?_eq_getElem hk'']
    simp [slots, Ring.offsets]
  · simp only
    omega

/-- A job is put behind the queued ones. -/
theorem put_ok (hq : q.Wf) (hfree : q.Free) (h : q.numQueued < q.maxJobs) (job : QueueJob) :
    ∃ q', q.put job = some q' ∧ q'.Wf ∧ q'.Free ∧ q'.contents = q.contents ++ [job] ∧
      q'.numThreads = q.numThreads := by
  have hslot : (q.jobs q.writeIdx).job = none := by
    rw [hq.write]
    exact hfree _ le_rfl h
  refine ⟨_, put_eq hslot job, ⟨hq.pos, hq.read, h, ?_⟩, fun k hk hmax => ?_, ?_, rfl⟩
  · simp only [hq.write, Nat.mod_add_mod, Nat.add_assoc]
  · simp only at hk hmax ⊢
    have hne : (q.readIdx + k) % q.maxJobs ≠ q.writeIdx := by
      rw [hq.write]
      intro heq
      have := Ring.offset_inj hmax h heq
      omega
    rw [Function.update_of_ne hne]
    exact hfree k (by omega) hmax
  · rw [contents, contents, ← Ring.window_push _ _ h, ← hq.write]

/-- Accepting a job never fails an assertion and puts it behind the queued ones. -/
theorem addJob_ok (hq : q.Wf) (hfree : q.Free) (job : QueueJob) :
    ∃ q', q.addJob job = some q' ∧ q'.Wf ∧ q'.Free ∧ q'.contents = q.contents ++ [job] ∧
      q'.numThreads = q.numThreads := by
  by_cases hfull : q.numQueued = q.maxJobs
  · obtain ⟨q₁, hgrow, hq₁, hfree₁, hcontents, hroom, hthreads⟩ := grow_ok hq hfull
    obtain ⟨q₂, hput, hq₂, hfree₂, hcontents₂, hthreads₂⟩ := put_ok hq₁ hfree₁ hroom job
    refine ⟨q₂, ?_, hq₂, hfree₂, by rw [hcontents₂, hcontents], hthreads₂.trans hthreads⟩
    simp [addJob, hfull, hgrow, hput, guard]
  · have hcount := hq.count
    obtain ⟨q₂, hput, hrest⟩ := put_ok hq hfree (by omega) job
    refine ⟨q₂, ?_, hrest⟩
    simp [addJob, hfull, hput, guard, hcount]

/-- The first queued job is taken out. -/
theorem take_ok (hq : q.Wf) (hfree : q.Free) (h : q.numQueued ≠ 0) :
    q.take.Wf ∧ q.take.Free ∧ q.contents = q.jobs q.readIdx :: q.take.contents := by
  obtain ⟨n, hn⟩ : ∃ n, q.numQueued = n + 1 := ⟨q.numQueued - 1, by omega⟩
  have hcount := hq.count
  have hshift : ∀ k, ((q.readIdx + 1) % q.maxJobs + k) % q.maxJobs =
      (q.readIdx + (k + 1)) % q.maxJobs := by
    intro k
    rw [Nat.mod_add_mod]
    congr 1
    omega
  have hread : (q.readIdx + 0) % q.maxJobs = q.readIdx := Nat.mod_eq_of_lt hq.read
  refine ⟨⟨hq.pos, Nat.mod_lt _ hq.pos, ?_, ?_⟩, fun k hk hmax => ?_, ?_⟩
  · simp only [take]
    omega
  · simp only [take, hshift, hq.write, hn, Nat.add_sub_cancel]
  · simp only [take, hn, Nat.add_sub_cancel] at hk hmax
    simp only [take, hshift]
    by_cases hlast : k + 1 = q.maxJobs
    · have heq : (q.readIdx + (k + 1)) % q.maxJobs = q.readIdx := by
        rw [hlast, Nat.add_mod_right, Nat.mod_eq_of_lt hq.read]
      rw [heq, Function.update_self]
    · have hne : (q.readIdx + (k + 1)) % q.maxJobs ≠ q.readIdx := by
        intro heq
        have := Ring.offset_inj (b := 0) (by omega) hq.pos (heq.trans hread.symm)
        omega
      rw [Function.update_of_ne hne]
      exact hfree (k + 1) (by omega) (by omega)
  · have hnodup := Ring.nodup_offsets q.readIdx hcount
    rw [hn, Ring.offsets_succ hq.read, List.nodup_cons] at hnodup
    rw [contents, contents, take, hn, Ring.window_succ _ hq.read]
    congr 1
    refine (Ring.window_congr fun i hi => ?_).symm
    refine Function.update_of_ne ?_ _ _
    rintro rfl
    exact hnodup.1 hi

/-- Clearing the slot of a queued job. -/
theorem clear_ok (hq : q.Wf) (hfree : q.Free) {as bs : List ℕ} {i : ℕ}
    (h : q.slots = as ++ i :: bs) :
    Wf { q with jobs := Function.update q.jobs i {} } ∧
      Free { q with jobs := Function.update q.jobs i {} } ∧
      contents { q with jobs := Function.update q.jobs i {} } =
        as.map q.jobs ++ {} :: bs.map q.jobs := by
  refine ⟨⟨hq.pos, hq.read, hq.count, hq.write⟩, fun k hk hmax => ?_, ?_⟩
  · simp only [Function.update_apply]
    split_ifs
    · rfl
    · exact hfree k hk hmax
  · exact Ring.window_update hq.count h (QueueJob.mk none none false none)

end FlakeWm.Jobs.Queue
