import FlakeWm.Lock.Announce

/-! The output manager under a lock: what a committed state, a new output and a destroyed output do
    to the trees. Each of them changes one output first and then tells the lock, so the invariant
    is broken at that output only, and the handler of the signal restores it. -/

namespace FlakeWm.Lock

@[simp] theorem setOutput_output_self (s : State) (o : OutputId) (out : Output) :
    (s.setOutput o out).output o = out := Function.update_self ..

theorem setOutput_output_of_ne {s : State} {o o' : OutputId} {out : Output} (h : o' ≠ o) :
    (s.setOutput o out).output o' = s.output o' := Function.update_of_ne h ..

/-- Changing what is stored about `o` leaves the other outputs covered. -/
theorem setOutput_covered {s : State} (o : OutputId) (out : Output) {lock : SessionLock}
    (h : Covered s lock) : CoveredOn (· ≠ o) (s.setOutput o out) lock := by
  refine ⟨⟨h.nodup, h.listed, fun o' ho' hP he => ?_, fun lo hlo hP he => ?_⟩, h.recorded⟩
  · rw [setOutput_output_of_ne hP] at he; exact h.covers o' ho' trivial he
  · rw [setOutput_output_of_ne hP] at he ⊢; exact h.placed lo hlo trivial he

theorem setOutput_living {s : State} {o : OutputId} {out : Output} (h : Inv s)
    (hout : out.destroying = false) :
    ∀ o' ∈ s.outputs, ((s.setOutput o out).output o').destroying = false := by
  intro o' ho'
  rcases eq_or_ne o' o with rfl | hne
  · rw [setOutput_output_self]; exact hout
  · rw [setOutput_output_of_ne hne]; exact h.living o' ho'

theorem outputSyncCommittedState_step {s : State} (h : Inv s) {o : OutputId} (ho : o ∈ s.outputs)
    (enabled : Bool) (geo : Box) :
    Inv (outputSyncCommittedState s o enabled geo) ∧
      SentWhenShown s (outputSyncCommittedState s o enabled geo) := by
  unfold outputSyncCommittedState
  simp only
  have hliv : ((s.output o).synced enabled geo).destroying = false := h.living o ho
  have henew : ((s.output o).synced enabled geo).enabled = enabled := rfl
  have hseq : ((s.output o).synced enabled geo).commitSeq = (s.output o).commitSeq := rfl
  generalize (s.output o).synced enabled geo = new at hliv henew hseq ⊢
  have hen : ((s.setOutput o new).output o).enabled = enabled := by
    rw [setOutput_output_self, henew]
  have hcov : ∀ lock, (s.setOutput o new).lock = some lock →
      CoveredOn (· ≠ o) (s.setOutput o new) lock := fun lock hl =>
    setOutput_covered o _ (h.covered lock hl)
  have hliving := setOutput_living (o := o) h hliv
  split_ifs with hoff hgeo hon hon
  · -- turned off
    have hdis : ((s.setOutput o new).output o).enabled = false := by
      rw [hen]; simpa using hoff.2
    obtain ⟨hc, hs, houts, hout⟩ := handleOutputDisable_covered hcov hdis
      (by rw [setOutput_output_self]; exact hliv)
    exact ⟨⟨by rw [houts]; exact h.nodup, by rw [houts, hout]; exact hliving, hc⟩, hs⟩
  · -- turned on at a new geometry: the tree is placed twice
    obtain ⟨hc, hs, houts, hout⟩ := handleNewOutput_covered hcov ho
    obtain ⟨houts', hout'⟩ := lockOutputConfigure_fields (handleNewOutput (s.setOutput o new) o) o
    refine ⟨⟨by rw [handleOutputGeometry, houts', houts]; exact h.nodup,
      by rw [handleOutputGeometry, houts', hout', houts, hout]; exact hliving, ?_⟩, ?_⟩
    · intro lock' hl'
      cases hl : (handleNewOutput (s.setOutput o new) o).lock with
      | none => simp [handleOutputGeometry, lockOutputConfigure, hl] at hl'
      | some lock =>
        have hcl := hc lock hl
        exact lockOutputConfigure_covered hl (hcl.mono fun _ _ => trivial)
          (fun he lo hlo hlo' => (hcl.placed lo hlo trivial (by rw [hlo']; exact he)).enabled)
          (fun ho => hcl.covers o ho trivial) lock' hl'
    · refine FlagKept.sent fun lock' hl' hsent => ?_
      obtain ⟨lock₁, hl₁, hs₁, hp₁⟩ := lockOutputConfigure_flag _ o lock' hl' hsent
      obtain ⟨lock₂, hl₂, hs₂, hp₂⟩ := hs lock₁ hl₁ hs₁
      refine ⟨lock₂, hl₂, hs₂, ?_⟩
      rcases hp₁ with hp₁ | hp₁
      · rw [hp₁]; exact hp₂
      · exact Or.inr hp₁
  · -- stays on and moves
    have hsame : enabled = (s.output o).enabled := by simpa using hon
    obtain ⟨houts, hout⟩ := lockOutputConfigure_fields (s.setOutput o new) o
    refine ⟨⟨by rw [handleOutputGeometry, houts]; exact h.nodup,
      by rw [handleOutputGeometry, houts, hout]; exact hliving, ?_⟩,
      (lockOutputConfigure_flag _ o).sent⟩
    intro lock' hl'
    cases hl : s.lock with
    | none =>
      have hl₁ : (s.setOutput o new).lock = none := hl
      simp [handleOutputGeometry, lockOutputConfigure, hl₁] at hl'
    | some lock =>
      have hcl := h.covered lock hl
      refine lockOutputConfigure_covered (s := s.setOutput o new) hl (hcov lock hl) ?_ ?_ lock' hl'
      · intro he lo hlo hlo'
        rw [hen, hsame] at he
        exact (hcl.placed lo hlo trivial (by rw [hlo']; exact he)).enabled
      · intro _ he
        rw [hen, hsame] at he
        exact hcl.covers o ho trivial he
  · obtain ⟨hc, hs, houts, hout⟩ := handleNewOutput_covered hcov ho
    exact ⟨⟨by rw [houts]; exact h.nodup, by rw [houts, hout]; exact hliving, hc⟩, hs.sent⟩
  · -- nothing the lock looks at has changed
    have hsame : enabled = (s.output o).enabled := by simpa using hon
    have hg : new.geometry = (s.output o).geometry := by simpa using hgeo
    have hnewo : new = s.output o := by
      have hold := h.living o ho
      cases new; cases hso : s.output o
      rw [hso] at hold hsame hg hseq
      simp_all
    have hself : s.setOutput o new = s := by
      rw [hnewo, State.setOutput, Function.update_eq_self]
    rw [hself]
    exact ⟨h, (FlagKept.of_eq rfl).sent⟩

theorem outputCreate_step {s : State} (h : Inv s) {o : OutputId} (ho : o ∉ s.outputs) {out : Output}
    (hout : out.destroying = false) :
    Inv (outputCreate s o out) ∧ SentWhenShown s (outputCreate s o out) := by
  unfold outputCreate
  simp only
  set s₁ : State := { s.setOutput o out with outputs := o :: s.outputs } with hs₁
  have hnd : s₁.outputs.Nodup := List.nodup_cons.mpr ⟨ho, h.nodup⟩
  have hliv : ∀ o' ∈ s₁.outputs, (s₁.output o').destroying = false := by
    intro o' ho'
    rcases List.mem_cons.mp ho' with rfl | ho'
    · exact (congrArg Output.destroying (setOutput_output_self s o' out)).trans hout
    · exact setOutput_living h hout o' ho'
  have hcov : ∀ lock, s₁.lock = some lock → CoveredOn (· ≠ o) s₁ lock := by
    intro lock hl
    have hc := setOutput_covered o out (h.covered lock hl)
    refine ⟨⟨hc.nodup, fun lo hlo => List.mem_cons_of_mem _ (hc.listed lo hlo), ?_, hc.placed⟩,
      hc.recorded⟩
    intro o' ho' hne
    exact hc.covers o' ((List.mem_cons.mp ho').resolve_left hne) hne
  split_ifs with hen
  · obtain ⟨hc, hs, houts, hout'⟩ := handleNewOutput_covered hcov (List.mem_cons_self ..)
    exact ⟨⟨by rw [houts]; exact hnd, by rw [houts, hout']; exact hliv, hc⟩, hs.sent⟩
  · -- a disabled newcomer needs no tree
    have hself : s₁.output o = out := setOutput_output_self s o out
    refine ⟨⟨hnd, hliv, fun lock hl => ?_⟩, (FlagKept.of_eq rfl).sent⟩
    have hc := hcov lock hl
    refine ⟨⟨hc.nodup, hc.listed, fun o' ho' _ he => ?_, fun lo hlo _ he => ?_⟩, hc.recorded⟩
    · exact hc.covers o' ho' (by rintro rfl; rw [hself] at he; exact hen he) he
    · exact hc.placed lo hlo (by intro heq; rw [heq, hself] at he; exact hen he) he

theorem outputDestroy_step {s : State} (h : Inv s) {o : OutputId} :
    Inv (outputDestroy s o) ∧ SentWhenShown s (outputDestroy s o) := by
  unfold outputDestroy
  simp only
  set s₁ := s.setOutput o { s.output o with destroying := true } with hs₁
  have hcov : ∀ lock, s₁.lock = some lock → CoveredOn (· ≠ o) s₁ lock := fun lock hl =>
    setOutput_covered o _ (h.covered lock hl)
  have hne : ∀ o', o' ≠ o → s₁.output o' = s.output o' := fun o' => setOutput_output_of_ne
  have hdest : (s₁.output o).destroying = true := by rw [hs₁, setOutput_output_self]
  -- the disable handler removes the tree, if there is one
  have key : (∀ lock', (handleOutputDisable s₁ o).lock = some lock' →
        CoveredOn (· ≠ o) (handleOutputDisable s₁ o) lock' ∧ ∀ lo ∈ lock'.outputs, lo.output ≠ o) ∧
      SentWhenShown s₁ (handleOutputDisable s₁ o) ∧
      (handleOutputDisable s₁ o).outputs = s₁.outputs ∧
      (handleOutputDisable s₁ o).output = s₁.output := by
    cases hl : s₁.lock with
    | none =>
      rw [handleOutputDisable_none hl]
      exact ⟨fun lock' hl' => absurd (hl.symm.trans hl') (by simp), (FlagKept.of_eq rfl).sent,
        rfl, rfl⟩
    | some lock =>
      cases hlo : lockOutputFromWlrOutput lock o with
      | none =>
        have heq : handleOutputDisable s₁ o = s₁ := by simp only [handleOutputDisable, hl, hlo]
        rw [heq]
        refine ⟨fun lock' hl' => ⟨hcov lock' hl', ?_⟩, (FlagKept.of_eq rfl).sent, rfl, rfl⟩
        rw [hl, Option.some.injEq] at hl'
        subst hl'
        exact lockOutputFromWlrOutput_none.mp hlo
      | some _ =>
        have heq : handleOutputDisable s₁ o = lockOutputDestroy s₁ o := by
          simp only [handleOutputDisable, hl, hlo, hdest, if_true]
        rw [heq]
        exact lockOutputDestroy_covered hcov
  obtain ⟨hc, hs, houts, hout⟩ := key
  have hmem : ∀ o', o' ∈ (handleOutputDisable s₁ o).outputs.filter (fun o' => decide (o' ≠ o)) ↔
      o' ∈ s.outputs ∧ o' ≠ o := by
    intro o'
    rw [List.mem_filter, decide_eq_true_eq, houts]
    rfl
  refine ⟨⟨?_, ?_, ?_⟩, ?_⟩
  · refine List.Nodup.filter _ ?_
    rw [houts]; exact h.nodup
  · intro o' ho'
    obtain ⟨ho', hne'⟩ := (hmem o').mp ho'
    rw [hout, hne o' hne']
    exact h.living o' ho'
  · intro lock' hl'
    obtain ⟨hc', hno⟩ := hc lock' hl'
    refine ⟨⟨hc'.nodup, fun lo hlo => ?_, fun o' ho' _ he => ?_, fun lo hlo _ he => ?_⟩,
      hc'.recorded⟩
    · refine (hmem _).mpr ⟨?_, hno lo hlo⟩
      have hlisted := hc'.listed lo hlo
      rw [houts] at hlisted
      exact hlisted
    · obtain ⟨ho', hne'⟩ := (hmem o').mp ho'
      exact hc'.covers o' (by rw [houts]; exact ho') hne' he
    · exact hc'.placed lo hlo (hno lo hlo) he
  · exact hs

end FlakeWm.Lock
