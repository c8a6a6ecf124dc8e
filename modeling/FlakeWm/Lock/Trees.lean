import Mathlib.Data.List.Nodup
import FlakeWm.Lock.Model

/-! The trees of a lock, and the invariant that ties them to the outputs.

    `Covered s lock` is the invariant: one tree per output, on every enabled output, at the output's
    geometry, with the history of the output (`lastRecorded`, `shownSince`) explaining the tree's
    `previousCommitSeq` and `presented`. A handler is entered while the output it is about is out of
    step, so the lemmas carry `CoveredOn P`, the invariant for the outputs in `P` only, and
    `TreesOn.onOutput` restores the missing one. -/

namespace FlakeWm.Lock

/-! ### What the trace says about one output -/

/-- The commit sequence number recorded when the tree of `o` was last created or re-enabled. -/
def lastRecorded (o : OutputId) : List Note → Option UInt32
  | [] => none
  | .recorded o' seq :: r => if o' = o then some seq else lastRecorded o r
  | _ :: r => lastRecorded o r

/-- Since that record, `o` reported a presented frame with another commit sequence number. -/
def shownSince (o : OutputId) : List Note → Bool
  | [] => false
  | .recorded o' _ :: r => if o' = o then false else shownSince o r
  | .present o' seq presented :: r =>
    (o' = o && presented && lastRecorded o r != some seq) || shownSince o r
  | _ :: r => shownSince o r

/-- A note that is neither a record nor a presentation says nothing about any output. -/
def Note.silent : Note → Bool
  | .recorded .. => false
  | .present .. => false
  | _ => true

theorem lastRecorded_silent (o : OutputId) : ∀ (notes r : List Note), (∀ n ∈ notes, n.silent) →
    lastRecorded o (notes ++ r) = lastRecorded o r
  | [], _, _ => rfl
  | n :: notes, r, h => by
      have hrec := lastRecorded_silent o notes r fun m hm => h m (List.mem_cons_of_mem _ hm)
      have hn := h n (List.mem_cons_self ..)
      cases n <;> simp_all [lastRecorded, Note.silent]

theorem shownSince_silent (o : OutputId) : ∀ (notes r : List Note), (∀ n ∈ notes, n.silent) →
    shownSince o (notes ++ r) = shownSince o r
  | [], _, _ => rfl
  | n :: notes, r, h => by
      have hrec := shownSince_silent o notes r fun m hm => h m (List.mem_cons_of_mem _ hm)
      have hn := h n (List.mem_cons_self ..)
      cases n <;> simp_all [shownSince, Note.silent]

/-- The history of the tree `lo` is what the trace says about its output. -/
structure Recorded (trace : List Note) (lo : LockOutput) : Prop where
  seq : lastRecorded lo.output trace = some lo.previousCommitSeq
  shown : lo.presented = true → shownSince lo.output trace = true

theorem Recorded.silent {notes trace : List Note} {lo : LockOutput} (h : Recorded trace lo)
    (hn : ∀ n ∈ notes, n.silent) : Recorded (notes ++ trace) lo := by
  refine ⟨?_, fun hp => ?_⟩
  · rw [lastRecorded_silent _ _ _ hn]; exact h.seq
  · rw [shownSince_silent _ _ _ hn]; exact h.shown hp

theorem Recorded.other {o : OutputId} {seq : UInt32} {trace : List Note} {lo : LockOutput}
    (h : Recorded trace lo) (hne : lo.output ≠ o) : Recorded (.recorded o seq :: trace) lo := by
  refine ⟨?_, fun hp => ?_⟩
  · rw [lastRecorded, if_neg (Ne.symm hne)]; exact h.seq
  · rw [shownSince, if_neg (Ne.symm hne)]; exact h.shown hp

theorem Recorded.present {o : OutputId} {seq : UInt32} {b : Bool} {trace : List Note}
    {lo : LockOutput} (h : Recorded trace lo) : Recorded (.present o seq b :: trace) lo := by
  refine ⟨h.seq, fun hp => ?_⟩
  rw [shownSince, h.shown hp, Bool.or_true]

/-! ### The invariant -/

/-- The tree `lo` is shown where its output is. -/
structure Placed (out : Output) (lo : LockOutput) : Prop where
  enabled : lo.treeEnabled = true
  x : lo.x = out.geometry.x
  y : lo.y = out.geometry.y
  width : lo.width = out.geometry.width
  height : lo.height = out.geometry.height

/-- One tree per output, with covering and placement promised for the outputs in `P` only. -/
structure TreesOn (P : OutputId → Prop) (s : State) (lock : SessionLock) : Prop where
  nodup : (lock.outputs.map (·.output)).Nodup
  listed : ∀ lo ∈ lock.outputs, lo.output ∈ s.outputs
  covers : ∀ o ∈ s.outputs, P o → (s.output o).enabled = true → ∃ lo ∈ lock.outputs, lo.output = o
  placed : ∀ lo ∈ lock.outputs, P lo.output → (s.output lo.output).enabled = true →
    Placed (s.output lo.output) lo

/-- The invariant for the outputs in `P`: the trees, and their history. -/
structure CoveredOn (P : OutputId → Prop) (s : State) (lock : SessionLock) : Prop
    extends TreesOn P s lock where
  recorded : ∀ lo ∈ lock.outputs, Recorded s.trace lo

/-- The invariant of a lock. -/
abbrev Covered : State → SessionLock → Prop := CoveredOn fun _ => True

/-- The invariant of the manager. -/
structure Inv (s : State) : Prop where
  nodup : s.outputs.Nodup
  living : ∀ o ∈ s.outputs, (s.output o).destroying = false
  covered : ∀ lock, s.lock = some lock → Covered s lock

/-! ### Rewriting the trees of one output -/

theorem mem_onOutput {lock : SessionLock} {o : OutputId} {f : LockOutput → LockOutput}
    {lo' : LockOutput} (h : lo' ∈ (lock.onOutput o f).outputs) :
    ∃ lo ∈ lock.outputs, (lo.output = o ∧ lo' = f lo) ∨ (lo.output ≠ o ∧ lo' = lo) := by
  obtain ⟨lo, hlo, rfl⟩ := List.mem_map.mp h
  refine ⟨lo, hlo, ?_⟩
  by_cases ho : lo.output = o
  · exact Or.inl ⟨ho, if_pos ho⟩
  · exact Or.inr ⟨ho, if_neg ho⟩

theorem map_output_onOutput (lock : SessionLock) (o : OutputId) {f : LockOutput → LockOutput}
    (hf : ∀ lo, (f lo).output = lo.output) :
    (lock.onOutput o f).outputs.map (·.output) = lock.outputs.map (·.output) := by
  rw [SessionLock.onOutput, List.map_map]
  refine List.map_congr_left fun lo _ => ?_
  simp only [Function.comp]
  split_ifs
  · exact hf lo
  · rfl

theorem onOutput_onOutput (lock : SessionLock) (o : OutputId) {f g : LockOutput → LockOutput}
    (hf : ∀ lo, (f lo).output = lo.output) :
    (lock.onOutput o f).onOutput o g = lock.onOutput o (g ∘ f) := by
  simp only [SessionLock.onOutput, List.map_map, SessionLock.mk.injEq, and_true, true_and]
  refine List.map_congr_left fun lo _ => ?_
  by_cases ho : lo.output = o
  · simp [ho, hf]
  · simp [ho]

theorem CoveredOn.mono {P Q : OutputId → Prop} {s : State} {lock : SessionLock}
    (h : CoveredOn P s lock) (hPQ : ∀ o, Q o → P o) : CoveredOn Q s lock :=
  ⟨⟨h.nodup, h.listed, fun o ho hQ => h.covers o ho (hPQ o hQ),
    fun lo hlo hQ => h.placed lo hlo (hPQ _ hQ)⟩, h.recorded⟩

/-- Rewriting the trees of `o` restores the invariant when it held for the other outputs and the
    rewritten trees are right. -/
theorem TreesOn.onOutput {s s' : State} {lock : SessionLock} {o : OutputId}
    {f : LockOutput → LockOutput} (h : TreesOn (· ≠ o) s lock)
    (hf : ∀ lo, (f lo).output = lo.output) (houts : s'.outputs = s.outputs)
    (hother : ∀ o', o' ≠ o → s'.output o' = s.output o')
    (htrace : ∀ lo ∈ lock.outputs, lo.output ≠ o → Recorded s'.trace lo)
    (hrec : ∀ lo ∈ lock.outputs, lo.output = o → Recorded s'.trace (f lo))
    (hplaced : ∀ lo ∈ lock.outputs, lo.output = o → (s'.output o).enabled = true →
      Placed (s'.output o) (f lo))
    (hcov : o ∈ s.outputs → (s'.output o).enabled = true → ∃ lo ∈ lock.outputs, lo.output = o) :
    Covered s' (lock.onOutput o f) := by
  have hmem : ∀ {o'}, (∃ lo ∈ lock.outputs, lo.output = o') →
      ∃ lo ∈ (lock.onOutput o f).outputs, lo.output = o' := by
    rintro o' ⟨lo, hlo, rfl⟩
    have : lo.output ∈ (lock.onOutput o f).outputs.map (·.output) := by
      rw [map_output_onOutput lock o hf]; exact List.mem_map_of_mem hlo
    exact List.mem_map.mp this
  refine ⟨⟨by rw [map_output_onOutput lock o hf]; exact h.nodup, ?_, ?_, ?_⟩, ?_⟩
  · intro lo' hlo'
    rw [houts]
    obtain ⟨lo, hlo, ⟨_, rfl⟩ | ⟨_, rfl⟩⟩ := mem_onOutput hlo'
    · rw [hf]; exact h.listed lo hlo
    · exact h.listed _ hlo
  · intro o' ho' _ hen
    rw [houts] at ho'
    rcases eq_or_ne o' o with rfl | hne
    · exact hmem (hcov ho' hen)
    · rw [hother o' hne] at hen
      exact hmem (h.covers o' ho' hne hen)
  · intro lo' hlo' _ hen
    obtain ⟨lo, hlo, ⟨rfl, rfl⟩ | ⟨hne, rfl⟩⟩ := mem_onOutput hlo'
    · rw [hf] at hen ⊢; exact hplaced lo hlo rfl hen
    · rw [hother _ hne] at hen ⊢; exact h.placed _ hlo hne hen
  · intro lo' hlo'
    obtain ⟨lo, hlo, ⟨ho, rfl⟩ | ⟨hne, rfl⟩⟩ := mem_onOutput hlo'
    · exact hrec lo hlo ho
    · exact htrace _ hlo hne

/-- Silent notes and fields the invariant does not read leave it alone. -/
theorem CoveredOn.congr {P : OutputId → Prop} {s s' : State} {lock lock' : SessionLock}
    (h : CoveredOn P s lock) (hlo : lock'.outputs = lock.outputs) (houts : s'.outputs = s.outputs)
    (hout : s'.output = s.output) (notes : List Note) (htr : s'.trace = notes ++ s.trace)
    (hn : ∀ n ∈ notes, n.silent) : CoveredOn P s' lock' := by
  obtain ⟨⟨h1, h2, h3, h4⟩, h5⟩ := h
  refine ⟨⟨by rwa [hlo], ?_, ?_, ?_⟩, ?_⟩
  · rw [hlo, houts]; exact h2
  · rw [hlo, houts, hout]; exact h3
  · rw [hlo, hout]; exact h4
  · intro lo hmem
    rw [htr]; exact (h5 lo (hlo ▸ hmem)).silent hn

theorem mem_lockOutputFromWlrOutput {lock : SessionLock} {o : OutputId} {lo : LockOutput}
    (h : lockOutputFromWlrOutput lock o = some lo) : lo ∈ lock.outputs ∧ lo.output = o :=
  ⟨List.mem_of_find?_eq_some h, by simpa using List.find?_some h⟩

theorem lockOutputFromWlrOutput_none {lock : SessionLock} {o : OutputId} :
    lockOutputFromWlrOutput lock o = none ↔ ∀ lo ∈ lock.outputs, lo.output ≠ o := by
  simp [lockOutputFromWlrOutput]

/-- Two trees of one output are one tree. -/
theorem CoveredOn.unique {P : OutputId → Prop} {s : State} {lock : SessionLock}
    (h : CoveredOn P s lock) {a b : LockOutput} (ha : a ∈ lock.outputs) (hb : b ∈ lock.outputs)
    (hab : a.output = b.output) : a = b :=
  List.inj_on_of_nodup_map h.nodup ha hb hab

end FlakeWm.Lock
