import FlakeWm.ActiveOutputs.Trees
import FlakeWm.Schemes.Exactly
import Mathlib.Tactic.Ring

/-! Every buffer knows its outputs over whole runs (`src/scene/buffer.c`, `scene.c`, `output.c`).

    The index of a new output is the first gap in the list, which is in the order of the indices; a destroyed output is
    left by every buffer before its index is free. All the operations refresh what they move or resize, except for a
    change of the transform. -/

namespace FlakeWm.ActiveOutputs

/-! ### Indices -/

/-- The outputs are in the order of their indices. -/
def Sorted (outputs : List SceneOutput) : Prop := outputs.Pairwise fun o p => o.index < p.index

theorem mem_insertOutput {new o : SceneOutput} : ∀ {outputs : List SceneOutput} {i : ℕ},
    o ∈ insertOutput new outputs i ↔ o = new ∨ o ∈ outputs
  | [], _ => by simp [insertOutput]
  | p :: outputs, i => by
      rw [insertOutput]
      split
      · rw [List.mem_cons, mem_insertOutput, List.mem_cons]
        tauto
      · simp

theorem insertOutput_perm (new : SceneOutput) : ∀ (outputs : List SceneOutput) (i : ℕ),
    (insertOutput new outputs i).Perm (new :: outputs)
  | [], _ => List.Perm.refl _
  | p :: outputs, i => by
      rw [insertOutput]
      split
      · exact ((insertOutput_perm new outputs (i + 1)).cons p).trans (List.Perm.swap new p outputs)
      · exact List.Perm.refl _

theorem le_freeIndex : ∀ (outputs : List SceneOutput) (i : ℕ), i ≤ freeIndex outputs i
  | [], _ => le_refl _
  | o :: outputs, i => by
      rw [freeIndex]
      split
      · exact (Nat.le_succ i).trans (le_freeIndex outputs (i + 1))
      · exact le_refl _

/-- The new index is not in use. -/
theorem freeIndex_unused : ∀ {outputs : List SceneOutput} {i : ℕ}, Sorted outputs → (∀ o ∈ outputs, i ≤ o.index) →
    ∀ o ∈ outputs, o.index ≠ freeIndex outputs i
  | [], _, _, _, _, ho => by cases ho
  | p :: outputs, i, hsorted, hle, o, ho => by
      obtain ⟨hfirst, hsorted⟩ := List.pairwise_cons.1 hsorted
      rw [freeIndex]
      split
      next heq =>
        rcases List.mem_cons.1 ho with rfl | ho
        · have := le_freeIndex outputs (i + 1)
          omega
        · refine freeIndex_unused hsorted (fun q hq => ?_) o ho
          have := hfirst q hq
          omega
      next hne =>
        have hp := hle p List.mem_cons_self
        rcases List.mem_cons.1 ho with rfl | ho
        · exact hne
        · have := hfirst o ho
          omega

/-- The new output is put where its index belongs. -/
theorem insertOutput_sorted {new : SceneOutput} : ∀ {outputs : List SceneOutput} {i : ℕ}, Sorted outputs →
    (∀ o ∈ outputs, i ≤ o.index) → new.index = freeIndex outputs i → Sorted (insertOutput new outputs i)
  | [], _, _, _, _ => List.pairwise_singleton _ _
  | p :: outputs, i, hsorted, hle, hnew => by
      obtain ⟨hfirst, hrest⟩ := List.pairwise_cons.1 hsorted
      rw [freeIndex] at hnew
      rw [insertOutput]
      split
      next heq =>
        rw [if_pos heq] at hnew
        refine List.pairwise_cons.2 ⟨fun o ho => ?_, insertOutput_sorted hrest (fun o ho => ?_) hnew⟩
        · rcases mem_insertOutput.1 ho with rfl | ho
          · have := le_freeIndex outputs (i + 1)
            omega
          · exact hfirst o ho
        · have := hfirst o ho
          omega
      next hne =>
        rw [if_neg hne] at hnew
        have hp := hle p List.mem_cons_self
        refine List.pairwise_cons.2 ⟨fun o ho => ?_, hsorted⟩
        rcases List.mem_cons.1 ho with rfl | ho
        · omega
        · have := hfirst o ho
          omega

/-! ### Good states -/

/-- The outputs are in order with distinct indices and numbers, and every buffer is right for the place where it is. -/
structure State.Good (s : State) : Prop where
  buffers : s.root.Good s.outputs 0 0
  sorted : Sorted s.outputs
  bits : ∀ o ∈ s.outputs, o.index < 64
  ids : s.outputs.Pairwise fun o p => o.id ≠ p.id
  fresh : ∀ o ∈ s.outputs, o.id < s.nextOutput

variable {s s' : State}

theorem State.Good.distinct (h : s.Good) : Distinct s.outputs :=
  ⟨h.ids, h.sorted.imp fun hlt => hlt.ne, h.bits⟩

theorem good_init : State.Good {} := by
  refine ⟨⟨trivial, trivial, trivial⟩, List.Pairwise.nil, ?_, List.Pairwise.nil, ?_⟩ <;> simp

/-- A change of the tree alone. -/
theorem State.Good.withRoot (h : s.Good) {root : Forest} (hroot : root.Good s.outputs 0 0) (nextNode : ℕ) :
    State.Good { s with root := root, nextNode := nextNode } :=
  ⟨hroot, h.sorted, h.bits, h.ids, h.fresh⟩

theorem create_good (h : s.Good) {parent : ℕ} {kind : Kind} (hkind : kind.Each (Logged s.outputs))
    (hs : s.create parent kind = some s') : s'.Good := by
  rw [State.create] at hs
  split at hs
  · cases hs
    have hchildren : Forest.nil.AllLogged s.outputs 0 0 := trivial
    exact h.withRoot (Forest.insert_good h.distinct parent hkind hchildren h.buffers) (s.nextNode + 1)
  · cases hs

theorem reparent_good (h : s.Good) {id parent : ℕ} (hs : s.reparent id parent = some s') : s'.Good := by
  rw [State.reparent] at hs
  split at hs
  next n children x y siblings hfind hparent =>
    split at hs
    · cases hs
      exact h
    · split at hs
      · cases hs
      · cases hs
        obtain ⟨hn, hchildren⟩ := Forest.each_find (Forest.Good.allLogged h.buffers) hfind
        exact h.withRoot (Forest.insert_good h.distinct parent hn hchildren (Forest.each_remove id h.buffers)) s.nextNode
  · cases hs

/-- A change of the buffer of a node is checked at its place. -/
theorem edit_good_iff (h : s.Good) (id : ℕ) (f : SceneBuffer → ℤ → ℤ → SceneBuffer) :
    State.Good { s with root := s.root.edit id f 0 0 } ↔
      s.root.Each (fun i b x y => i = id → BufferGood s.outputs (f b x y) x y) 0 0 := by
  have hroot : State.Good { s with root := s.root.edit id f 0 0 } ↔ (s.root.edit id f 0 0).Good s.outputs 0 0 :=
    ⟨fun hgood => hgood.buffers, fun hgood => h.withRoot hgood s.nextNode⟩
  rw [hroot, Forest.edit, Forest.Good, Forest.each_mapBuffers]
  refine Forest.Each.congr h.buffers fun i b x y hb => ?_
  by_cases hi : i = id
  · simp [hi]
  · simp [hi, hb]

theorem edit_good (h : s.Good) (id : ℕ) {f : SceneBuffer → ℤ → ℤ → SceneBuffer}
    (hf : ∀ b x y, BufferGood s.outputs b x y → BufferGood s.outputs (f b x y) x y) :
    State.Good { s with root := s.root.edit id f 0 0 } := by
  rw [edit_good_iff h id f]
  refine Forest.Each.mono ?_ h.buffers
  exact fun _ b x y hb _ => hf b x y hb

/-- What is right of a buffer depends on its box and on what it keeps about outputs. -/
theorem BufferGood.of_eq {outputs : List SceneOutput} {b b' : SceneBuffer} {x y : ℤ} (h : BufferGood outputs b x y)
    (hbox : ∀ o ∈ outputs, shows (b'.box x y) o = shows (b.box x y) o) (hmask : b'.activeOutputs = b.activeOutputs)
    (hprimary : b'.primaryOutput = b.primaryOutput) (hevents : b'.events = b.events) : BufferGood outputs b' x y where
  mask o ho := by rw [hmask, h.mask o ho, hbox o ho]
  unused := by
    rw [hmask]
    exact h.unused
  primary id hid := by
    obtain ⟨o, ho, heq, hshows⟩ := h.primary id (hprimary.symm.trans hid)
    exact ⟨o, ho, heq, (hbox o ho).trans hshows⟩
  noPrimary hnone o ho := (hbox o ho).trans (h.noPrimary (hprimary.symm.trans hnone) o ho)
  told o ho := by rw [hevents, h.told o ho, hbox o ho]
  gone := by
    rw [hevents]
    exact h.gone

/-- A buffer is refreshed where its size is changed. -/
theorem resized_good {outputs : List SceneOutput} {b b' : SceneBuffer} {x y : ℤ} (hdistinct : Distinct outputs)
    (h : BufferGood outputs b x y) (hmask : b'.activeOutputs = b.activeOutputs) (hevents : b'.events = b.events) :
    BufferGood outputs (b'.updateOutputs outputs none x y) x y := by
  have hlogged : Logged outputs b' := ⟨by rw [hmask, hevents]; exact h.logged.live, by rw [hevents]; exact h.gone⟩
  simpa using updateOutputs_good hdistinct hlogged none x y

theorem setBuffer_good {outputs : List SceneOutput} {b : SceneBuffer} {x y : ℤ} (hdistinct : Distinct outputs)
    (buffer : Option (ℤ × ℤ)) (h : BufferGood outputs b x y) :
    BufferGood outputs (b.setBuffer outputs buffer x y) x y := by
  rw [SceneBuffer.setBuffer]
  split
  · exact h
  · dsimp only
    split
    next hsize =>
      split
      · exact resized_good hdistinct h rfl rfl
      · refine h.of_eq (fun o _ => ?_) rfl rfl rfl
        rw [SceneBuffer.box, ← hsize]
        rfl
    · exact resized_good hdistinct h rfl rfl

theorem setDestSize_good {outputs : List SceneOutput} {b : SceneBuffer} {x y : ℤ} (hdistinct : Distinct outputs)
    (width height : ℤ) (h : BufferGood outputs b x y) :
    BufferGood outputs (b.setDestSize outputs width height x y) x y := by
  rw [SceneBuffer.setDestSize]
  split
  · exact h
  · exact resized_good hdistinct h rfl rfl

/-! ### Changes of the outputs -/

/-- All buffers are refreshed for outputs that their events agree with. -/
theorem updateAll_good {outputs : List SceneOutput} (hdistinct : Distinct outputs)
    (h : s.root.AllLogged outputs 0 0) (ignore : Option ℕ) :
    (s.updateAll outputs ignore).root.Good (kept ignore outputs) 0 0 :=
  Forest.updateOutputs_good hdistinct ignore h

theorem outputCreate_good (h : s.Good) {enabled : Bool} {width height : ℤ}
    (hs : s.outputCreate enabled width height = some s') : s'.Good := by
  rw [State.outputCreate] at hs
  dsimp only at hs
  split at hs
  case isFalse => cases hs
  case isTrue hbound =>
    cases hs
    have hle : ∀ o ∈ s.outputs, 0 ≤ o.index := fun o _ => Nat.zero_le _
    have hunused := freeIndex_unused h.sorted hle
    generalize hnew : (⟨s.nextOutput, freeIndex s.outputs 0, enabled, 0, 0, width, height⟩ : SceneOutput) = new
    have hindex : new.index = freeIndex s.outputs 0 := by rw [← hnew]
    have hid : new.id = s.nextOutput := by rw [← hnew]
    have hsorted := insertOutput_sorted h.sorted hle hindex
    have hids : (insertOutput new s.outputs 0).Pairwise fun o p => o.id ≠ p.id := by
      refine ((insertOutput_perm new s.outputs 0).pairwise_iff fun hne => hne.symm).2 ?_
      exact List.pairwise_cons.2 ⟨fun o ho => by
        have := h.fresh o ho
        omega, h.ids⟩
    have hbits : ∀ o ∈ insertOutput new s.outputs 0, o.index < 64 := fun o ho => by
      rcases mem_insertOutput.1 ho with rfl | ho
      · exact hindex ▸ hbound.2
      · exact h.bits o ho
    -- nobody was told about the new output, and its bit is clear
    have hlogged : s.root.AllLogged (insertOutput new s.outputs 0) 0 0 := by
      refine Forest.Each.mono (fun _ b x y hb => ⟨fun o ho => ?_, fun id hgone => ?_⟩) h.buffers
      · rcases mem_insertOutput.1 ho with rfl | ho
        · rw [hb.unused o.index (by rw [hindex]; exact hunused)]
          refine hb.gone o.id fun p hp => ?_
          have := h.fresh p hp
          omega
        · exact hb.logged.live o ho
      · exact hb.gone id fun o ho => hgone o (mem_insertOutput.2 (Or.inr ho))
    have hbuffers := updateAll_good (s := s) ⟨hids, hsorted.imp fun hlt => hlt.ne, hbits⟩ hlogged none
    rw [kept_none] at hbuffers
    refine ⟨hbuffers, hsorted, hbits, hids, fun o ho => ?_⟩
    show o.id < s.nextOutput + 1
    rcases mem_insertOutput.1 ho with rfl | ho
    · omega
    · have := h.fresh o ho
      omega

/-- A destroyed output is left by every buffer. -/
theorem outputDestroy_good (h : s.Good) (id : ℕ) : (s.outputDestroy id).Good := by
  have hkept : (s.outputs.filter fun o => decide (o.id ≠ id)) = kept (some id) s.outputs := by
    refine List.filter_congr fun o _ => ?_
    simp [eq_comm]
  have hsub : (s.outputs.filter fun o => decide (o.id ≠ id)).Sublist s.outputs := List.filter_sublist
  refine ⟨?_, h.sorted.sublist hsub, fun o ho => h.bits o (hsub.subset ho), h.ids.sublist hsub,
    fun o ho => h.fresh o (hsub.subset ho)⟩
  show Forest.Good (s.outputs.filter fun o => decide (o.id ≠ id)) (s.updateAll s.outputs (some id)).root 0 0
  rw [hkept]
  exact updateAll_good h.distinct (Forest.Good.allLogged h.buffers) (some id)

/-- An output is changed but for its number and its index. -/
theorem updateAll_edit_good (h : s.Good) (id : ℕ) {f : SceneOutput → SceneOutput} (hid : ∀ o, (f o).id = o.id)
    (hindex : ∀ o, (f o).index = o.index) : (s.updateAll (s.editOutput id f) none).Good := by
  have hids (o : SceneOutput) : (if o.id = id then f o else o).id = o.id := by
    split
    · exact hid o
    · rfl
  have hindices (o : SceneOutput) : (if o.id = id then f o else o).index = o.index := by
    split
    · exact hindex o
    · rfl
  have hsorted : Sorted (s.editOutput id f) := by
    refine List.pairwise_map.2 (h.sorted.imp fun {o p} hlt => ?_)
    rwa [hindices, hindices]
  have hpairs : (s.editOutput id f).Pairwise fun o p => o.id ≠ p.id := by
    refine List.pairwise_map.2 (h.ids.imp fun {o p} hne => ?_)
    rwa [hids, hids]
  have hbits : ∀ o ∈ s.editOutput id f, o.index < 64 := by
    intro o ho
    obtain ⟨p, hp, rfl⟩ := List.mem_map.1 ho
    rw [hindices]
    exact h.bits p hp
  have hlogged : s.root.AllLogged (s.editOutput id f) 0 0 := by
    refine Forest.Each.mono (fun _ b x y hb => ⟨fun o ho => ?_, fun i hgone => ?_⟩) h.buffers
    · obtain ⟨p, hp, rfl⟩ := List.mem_map.1 ho
      rw [hids, hindices]
      exact hb.logged.live p hp
    · refine hb.gone i fun o ho => ?_
      rw [← hids o]
      exact hgone _ (List.mem_map_of_mem ho)
  have hbuffers := updateAll_good ⟨hpairs, hsorted.imp fun hlt => hlt.ne, hbits⟩ hlogged none
  rw [kept_none] at hbuffers
  refine ⟨hbuffers, hsorted, hbits, hpairs, fun o ho => ?_⟩
  obtain ⟨p, hp, rfl⟩ := List.mem_map.1 ho
  rw [hids]
  exact h.fresh p hp

/-! ### Runs -/

/-- A change of the transform does not change which outputs show the buffer. -/
def Safe (s : State) : Event → Prop
  | .setTransform id transform =>
      s.root.Each (fun i b x y => i = id →
        ∀ o ∈ s.outputs, shows ((b.setTransform transform).box x y) o = shows (b.box x y) o) 0 0
  | _ => True

theorem setTransform_good_iff (h : s.Good) (id : ℕ) (transform : Transform) :
    State.Good { s with root := s.root.edit id (fun b _ _ => b.setTransform transform) 0 0 } ↔
      Safe s (.setTransform id transform) := by
  rw [edit_good_iff h]
  refine Forest.Each.congr h.buffers fun i b x y hb => forall_congr' fun _ => ?_
  constructor
  · intro hgood o ho
    exact (hgood.mask o ho).symm.trans (hb.mask o ho)
  · exact fun hbox => hb.of_eq hbox rfl rfl rfl

/-- An event keeps a state good exactly when it is safe. -/
theorem step_good_iff (h : s.Good) {e : Event} (hs : step s e = some s') : s'.Good ↔ Safe s e := by
  cases e with
  | treeCreate parent =>
    have hkind : Kind.tree.Each (Logged s.outputs) := trivial
    exact iff_of_true (create_good h hkind hs) trivial
  | rectCreate parent =>
    have hkind : Kind.rect.Each (Logged s.outputs) := trivial
    exact iff_of_true (create_good h hkind hs) trivial
  | bufferCreate parent buffer =>
    refine iff_of_true (create_good h ?_ hs) trivial
    exact ⟨fun o _ => by simp [status], fun _ _ => rfl⟩
  | setPosition id x y =>
    cases hs
    exact iff_of_true (h.withRoot (Forest.setPosition_good h.distinct id x y h.buffers) s.nextNode) trivial
  | reparent id parent => exact iff_of_true (reparent_good h hs) trivial
  | setBuffer id buffer =>
    cases hs
    exact iff_of_true (edit_good h id fun b x y hb => setBuffer_good h.distinct buffer hb) trivial
  | setDestSize id width height =>
    cases hs
    exact iff_of_true (edit_good h id fun b x y hb => setDestSize_good h.distinct width height hb) trivial
  | setTransform id transform =>
    cases hs
    exact setTransform_good_iff h id transform
  | outputCreate enabled width height => exact iff_of_true (outputCreate_good h hs) trivial
  | outputDestroy id =>
    cases hs
    exact iff_of_true (outputDestroy_good h id) trivial
  | outputSetPosition id x y =>
    cases hs
    refine iff_of_true ?_ trivial
    rw [State.outputSetPosition]
    split
    · exact h
    · split
      · exact h
      · exact updateAll_edit_good h id (fun _ => rfl) fun _ => rfl
  | outputCommit id enabled width height =>
    cases hs
    exact iff_of_true (updateAll_edit_good h id (fun _ => rfl) fun _ => rfl) trivial

/-- Throughout a run every buffer knows the outputs that show it, has one of them as its primary output, and has told
every output, also one that came and went or got an index again, of each entering and leaving in turn, exactly when no
change of a transform moves a buffer on or off an output. -/
theorem run_good_iff_safe (es : List Event) : Throughout step State.Good {} es ↔ AllMeet step Safe {} es := by
  refine throughout_iff (fun s e s' h hs => step_good_iff h hs) (fun s e _ hnone => ?_) es good_init
  cases e with
  | setTransform id transform => cases hnone
  | _ => trivial

end FlakeWm.ActiveOutputs
