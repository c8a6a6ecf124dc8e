import FlakeWm.ActiveOutputs.Model
import Mathlib.Data.List.Pairwise

/-! What refreshing a buffer's outputs achieves (`src/scene/buffer.c`).

    Before the refresh the events of a buffer agree with its old mask; the mask itself may be out of date. Afterwards
    the mask, the primary output and the events agree with where the buffer is. -/

namespace FlakeWm.ActiveOutputs

variable {outputs : List SceneOutput} {ignore : Option ℕ} {box : Box} {b : SceneBuffer} {x y : ℤ}

/-! ### What holds of a buffer -/

/-- Whether an output is entered after these events, the last one first; `none` when they do not alternate between
enter and leave, beginning with enter. -/
def status (id : ℕ) : List OutputEvent → Option Bool
  | [] => some false
  | e :: events =>
      if e.output = id then
        match status id events, e.enter with
        | some false, true => some true
        | some true, false => some false
        | _, _ => none
      else status id events

/-- An output shows something of a box. -/
def shows (box : Box) (o : SceneOutput) : Bool := o.enabled && meets box o.box

/-- No two outputs have one number or one index, and an index has a bit in the mask. -/
structure Distinct (outputs : List SceneOutput) : Prop where
  ids : outputs.Pairwise fun o p => o.id ≠ p.id
  indices : outputs.Pairwise fun o p => o.index ≠ p.index
  bits : ∀ o ∈ outputs, o.index < 64

/-- The events agree with the mask. -/
structure Logged (outputs : List SceneOutput) (b : SceneBuffer) : Prop where
  live : ∀ o ∈ outputs, status o.id b.events = some (b.activeOutputs.getLsbD o.index)
  gone : ∀ id, (∀ o ∈ outputs, o.id ≠ id) → status id b.events = some false

/-- The mask, the primary output and the events of a buffer are right for the place where it is. -/
structure BufferGood (outputs : List SceneOutput) (b : SceneBuffer) (x y : ℤ) : Prop where
  mask : ∀ o ∈ outputs, b.activeOutputs.getLsbD o.index = shows (b.box x y) o
  unused : ∀ i, (∀ o ∈ outputs, o.index ≠ i) → b.activeOutputs.getLsbD i = false
  primary : ∀ id, b.primaryOutput = some id → ∃ o ∈ outputs, o.id = id ∧ shows (b.box x y) o = true
  noPrimary : b.primaryOutput = none → ∀ o ∈ outputs, shows (b.box x y) o = false
  told : ∀ o ∈ outputs, status o.id b.events = some (shows (b.box x y) o)
  gone : ∀ id, (∀ o ∈ outputs, o.id ≠ id) → status id b.events = some false

theorem BufferGood.logged (h : BufferGood outputs b x y) : Logged outputs b where
  live o ho := by rw [h.told o ho, h.mask o ho]
  gone := h.gone

/-! ### The mask -/

/-- The first loop sets the bits of the outputs that it considers. -/
theorem foldl_activeOutputs (i : ℕ) : ∀ (outputs : List SceneOutput) (v : Overlap), (∀ o ∈ outputs, o.index < 64) →
    ((outputs.foldl (Overlap.add ignore box) v).activeOutputs.getLsbD i = true ↔
      v.activeOutputs.getLsbD i = true ∨ ∃ o ∈ outputs, o.index = i ∧ considered ignore box o = true)
  | [], v, _ => by simp
  | o :: outputs, v, hbits => by
      rw [List.foldl_cons, foldl_activeOutputs i outputs _ fun p hp => hbits p (List.mem_cons_of_mem _ hp)]
      have hbit := hbits o List.mem_cons_self
      by_cases hconsidered : considered ignore box o = true
      · rw [Overlap.add, if_pos hconsidered]
        dsimp only
        rw [BitVec.getLsbD_or, Bool.or_eq_true, BitVec.getLsbD_twoPow]
        simp [hbit, hconsidered, or_assoc]
      · rw [Overlap.add, if_neg hconsidered]
        simp [hconsidered]

/-- Nothing was considered while no output is primary, and then nothing is the largest. -/
theorem foldl_primaryOutput (ignore : Option ℕ) (box : Box) : ∀ (outputs : List SceneOutput) (v : Overlap), (v.primaryOutput = none → v.largest = 0) →
    (∀ id, (outputs.foldl (Overlap.add ignore box) v).primaryOutput = some id →
      v.primaryOutput = some id ∨ ∃ o ∈ outputs, o.id = id ∧ considered ignore box o = true) ∧
    ((outputs.foldl (Overlap.add ignore box) v).primaryOutput = none →
      v.primaryOutput = none ∧ ∀ o ∈ outputs, considered ignore box o = false)
  | [], v, _ => ⟨fun id h => Or.inl h, fun h => ⟨h, by simp⟩⟩
  | o :: outputs, v, hv => by
      rw [List.foldl_cons]
      by_cases hconsidered : considered ignore box o = true
      · have hadd : v.add ignore box o =
            { largest := if regionArea box o.box ≥ v.largest then regionArea box o.box else v.largest
              primaryOutput := if regionArea box o.box ≥ v.largest then some o.id else v.primaryOutput
              activeOutputs := v.activeOutputs ||| BitVec.twoPow 64 o.index } := by
          rw [Overlap.add, if_pos hconsidered]
        have hsome : (v.add ignore box o).primaryOutput ≠ none := by
          rw [hadd]
          dsimp only
          split
          · exact Option.some_ne_none _
          next hless =>
            intro hnone
            exact hless (by rw [hv hnone]; exact Nat.zero_le _)
        obtain ⟨hprimary, hnone⟩ := foldl_primaryOutput ignore box outputs (v.add ignore box o) fun h => absurd h hsome
        refine ⟨fun id h => ?_, fun h => absurd (hnone h).1 hsome⟩
        rcases hprimary id h with hid | ⟨p, hp, hid, hshows⟩
        · rw [hadd] at hid
          dsimp only at hid
          split at hid
          · exact Or.inr ⟨o, List.mem_cons_self, Option.some.inj hid, hconsidered⟩
          · exact Or.inl hid
        · exact Or.inr ⟨p, List.mem_cons_of_mem _ hp, hid, hshows⟩
      · have hadd : v.add ignore box o = v := if_neg hconsidered
        rw [hadd]
        obtain ⟨hprimary, hnone⟩ := foldl_primaryOutput ignore box outputs v hv
        refine ⟨fun id h => (hprimary id h).imp_right ?_, fun h => ⟨(hnone h).1, fun p hp => ?_⟩⟩
        · rintro ⟨p, hp, hid, hshows⟩
          exact ⟨p, List.mem_cons_of_mem _ hp, hid, hshows⟩
        · rcases List.mem_cons.1 hp with rfl | hp
          · simpa using hconsidered
          · exact (hnone h).2 p hp

/-! ### The events -/

theorem status_emitOutput {before after : BitVec 64} {events : List OutputEvent} {o : SceneOutput}
    (h : status o.id events = some (before.getLsbD o.index)) :
    status o.id (emitOutput before after events o) = some (after.getLsbD o.index) := by
  rw [emitOutput]
  cases hbefore : before.getLsbD o.index <;> cases hafter : after.getLsbD o.index <;>
    simp [status, h, hbefore]

theorem status_emitOutput_other {before after : BitVec 64} {events : List OutputEvent} {o : SceneOutput} {id : ℕ}
    (hne : o.id ≠ id) : status id (emitOutput before after events o) = status id events := by
  rw [emitOutput]
  split
  · simp [status, hne]
  · split
    · simp [status, hne]
    · rfl

/-- The second loop tells every output what has changed for it, and the others nothing. -/
theorem status_foldl (before after : BitVec 64) : ∀ (outputs : List SceneOutput) (events : List OutputEvent),
    (outputs.Pairwise fun o p => o.id ≠ p.id) →
    (∀ o ∈ outputs, status o.id events = some (before.getLsbD o.index)) →
    (∀ o ∈ outputs, status o.id (outputs.foldl (emitOutput before after) events) = some (after.getLsbD o.index)) ∧
      ∀ id, (∀ o ∈ outputs, o.id ≠ id) →
        status id (outputs.foldl (emitOutput before after) events) = status id events
  | [], events, _, _ => ⟨by simp, fun _ _ => rfl⟩
  | o :: outputs, events, hids, hstatus => by
      obtain ⟨hother, hids⟩ := List.pairwise_cons.1 hids
      obtain ⟨hlive, hgone⟩ := status_foldl before after outputs
        (emitOutput before after events o) hids fun p hp => by
          rw [status_emitOutput_other (hother p hp)]
          exact hstatus p (List.mem_cons_of_mem _ hp)
      rw [List.foldl_cons]
      refine ⟨fun p hp => ?_, fun id hid => ?_⟩
      · rcases List.mem_cons.1 hp with rfl | hp
        · rw [hgone p.id fun q hq => (hother q hq).symm]
          exact status_emitOutput (hstatus p List.mem_cons_self)
        · exact hlive p hp
      · rw [hgone id fun p hp => hid p (List.mem_cons_of_mem _ hp)]
        exact status_emitOutput_other (hid o List.mem_cons_self)

/-! ### A refresh -/

/-- With distinct indices a bit is about one output. -/
theorem Distinct.eq_of_index (h : Distinct outputs) {o p : SceneOutput} (ho : o ∈ outputs) (hp : p ∈ outputs)
    (heq : o.index = p.index) : o = p := by
  by_contra hne
  have : Std.Symm fun o p : SceneOutput => o.index ≠ p.index := ⟨fun _ _ hne => hne.symm⟩
  exact h.indices.forall ho hp hne heq

theorem Distinct.eq_of_id (h : Distinct outputs) {o p : SceneOutput} (ho : o ∈ outputs) (hp : p ∈ outputs)
    (heq : o.id = p.id) : o = p := by
  by_contra hne
  have : Std.Symm fun o p : SceneOutput => o.id ≠ p.id := ⟨fun _ _ hne => hne.symm⟩
  exact h.ids.forall ho hp hne heq

/-- The outputs that are not ignored. -/
def kept (ignore : Option ℕ) (outputs : List SceneOutput) : List SceneOutput :=
  outputs.filter fun o => decide (ignore ≠ some o.id)

@[simp] theorem kept_none (outputs : List SceneOutput) : kept none outputs = outputs := by
  simp [kept]

theorem mem_kept {o : SceneOutput} : o ∈ kept ignore outputs ↔ o ∈ outputs ∧ ignore ≠ some o.id := by
  rw [kept, List.mem_filter, decide_eq_true_eq]

theorem considered_iff {o : SceneOutput} :
    considered ignore box o = true ↔ ignore ≠ some o.id ∧ shows box o = true := by
  simp [considered, shows, and_assoc]

/-- A refresh makes a buffer right for the outputs that are not ignored. -/
theorem updateOutputs_good (hdistinct : Distinct outputs) (h : Logged outputs b) (ignore : Option ℕ) (x y : ℤ) :
    BufferGood (kept ignore outputs) (b.updateOutputs outputs ignore x y) x y := by
  have hbit (i : ℕ) : (b.updateOutputs outputs ignore x y).activeOutputs.getLsbD i = true ↔
      ∃ o ∈ outputs, o.index = i ∧ considered ignore (b.box x y) o = true := by
    refine (foldl_activeOutputs i outputs {} hdistinct.bits).trans (or_iff_right ?_)
    simp
  have hindex {o : SceneOutput} (ho : o ∈ outputs) :
      (b.updateOutputs outputs ignore x y).activeOutputs.getLsbD o.index = considered ignore (b.box x y) o := by
    rw [Bool.eq_iff_iff, hbit]
    constructor
    · rintro ⟨p, hp, heq, hconsidered⟩
      rwa [← hdistinct.eq_of_index hp ho heq]
    · exact fun hconsidered => ⟨o, ho, rfl, hconsidered⟩
  have hshows {o : SceneOutput} (ho : o ∈ kept ignore outputs) : considered ignore (b.box x y) o = shows (b.box x y) o := by
    rw [Bool.eq_iff_iff, considered_iff]
    exact and_iff_right (mem_kept.1 ho).2
  obtain ⟨hprimary, hnone⟩ := foldl_primaryOutput ignore (b.box x y) outputs {} fun _ => rfl
  obtain ⟨hlive, hgone⟩ := status_foldl b.activeOutputs (b.updateOutputs outputs ignore x y).activeOutputs outputs
    b.events hdistinct.ids h.live
  refine ⟨fun o ho => (hindex (mem_kept.1 ho).1).trans (hshows ho), fun i hi => ?_, fun id hid => ?_, fun hid o ho => ?_,
    fun o ho => ?_, fun id hid => ?_⟩
  · rw [Bool.eq_false_iff, ne_eq, hbit]
    rintro ⟨o, ho, heq, hconsidered⟩
    exact hi o (mem_kept.2 ⟨ho, (considered_iff.1 hconsidered).1⟩) heq
  · rcases hprimary id hid with hstart | ⟨o, ho, heq, hconsidered⟩
    · cases hstart
    · exact ⟨o, mem_kept.2 ⟨ho, (considered_iff.1 hconsidered).1⟩, heq, (considered_iff.1 hconsidered).2⟩
  · exact (hshows ho).symm.trans ((hnone hid).2 o (mem_kept.1 ho).1)
  · exact (hlive o (mem_kept.1 ho).1).trans (congrArg some ((hindex (mem_kept.1 ho).1).trans (hshows ho)))
  · by_cases hmem : ∃ o ∈ outputs, o.id = id
    · obtain ⟨o, ho, rfl⟩ := hmem
      -- the output is there but ignored: its bit is clear now
      have hignored : considered ignore (b.box x y) o = false := by
        rw [Bool.eq_false_iff, ne_eq, considered_iff]
        exact fun hconsidered => hid o (mem_kept.2 ⟨ho, hconsidered.1⟩) rfl
      exact (hlive o ho).trans (congrArg some ((hindex ho).trans hignored))
    · exact (hgone id fun o ho heq => hmem ⟨o, ho, heq⟩).trans (h.gone id fun o ho heq => hmem ⟨o, ho, heq⟩)

end FlakeWm.ActiveOutputs
