import FlakeWm.WorkspaceThumbnails.Entries

/-! The entries of a workspace thumbnail stay in step over whole runs.

    A signal calls its listeners one by one, and the invariant holds between the calls. What goes
    wrong is left to the two other ways in which an entry loses its thumbnail, the window leaving the
    output and the `view_thumbnail` going first: neither unlinks the listener for minimizing. -/

namespace FlakeWm.WorkspaceThumbnails

variable {s s' : State} {e : Entry}

/-- A signal whose handlers only look at their entry. -/
theorem emit_handleDamage (h : Core s) (sig : Signal) :
    emit (·.signals sig) State.handleDamage s = s := by
  refine emit_inv (I := fun _ s' => s' = s) rfl ?_ fun _ _ _ hs _ => hs
  rintro l rest s' rfl hl
  cases l with
  | viewThumbnail => rfl
  | entry id =>
    obtain ⟨e, -, -, -, hwith⟩ := h.withEntry_eq hl
    exact hwith _

theorem emit_handleViewMinimize (h : Core s) (view : ℕ) :
    emit (·.signals (.viewMinimize view)) State.handleViewMinimize s = s := by
  refine emit_inv (I := fun _ s' => s' = s) rfl ?_ fun _ _ _ hs _ => hs
  rintro l rest s' rfl hl
  cases l with
  | viewThumbnail => rfl
  | entry id =>
    obtain ⟨e, -, -, hlinked, hwith⟩ := h.withEntry_eq hl
    have hsome : e.thumbnail.isNone = false := by
      rw [Entry.linked, Bool.and_eq_true] at hlinked
      rw [← Option.not_isSome, hlinked.2]
      rfl
    rw [State.handleViewMinimize, hwith, hsome]
    rfl

theorem Good.workspaceLeave (h : Good s) (view workspace : ℕ) :
    Good (emit (·.signals (.workspaceLeave view))
      (fun s l => s.withEntry l fun e => if s.workspace = workspace then s.entryDestroy e else s)
        s) := by
  refine emit_inv (I := fun _ s' => Good s') h ?_ fun _ _ _ hs _ => hs
  intro l rest s' hs hl
  cases l with
  | viewThumbnail => exact hs
  | entry id =>
    obtain ⟨e, he, -, -, hwith⟩ := hs.core.withEntry_eq hl
    rw [hwith]
    split
    · exact hs.entryDestroy he
    · exact hs

theorem entryDestroy_subset (h : Core s) (he : e ∈ s.entries) {e' : Entry}
    (he' : e' ∈ (s.entryDestroy e).entries) : e' ∈ s.entries ∧ e'.id ≠ e.id := by
  rw [(entryDestroy_spec h he).2.1, List.mem_filter, decide_eq_true_iff] at he'
  exact he'

/-- The entries with a thumbnail of the view are called before its `view_thumbnail`. -/
def CalledFirst (view : ℕ) (rest : List Listener) (s : State) : Prop :=
  ∀ e ∈ s.entries, e.view = view → e.thumbnail ≠ none →
    ∃ before after, rest = before ++ .entry e.id :: after ∧ .viewThumbnail ∉ before

theorem Good.viewUnmap (h : Good s) {view : ℕ}
    (hfirst : CalledFirst view (s.signals (.viewUnmap view)) s) :
    Good (emit (·.signals (.viewUnmap view)) (State.handleViewUnmap view) s) := by
  refine (emit_inv (I := fun rest s' => Good s' ∧ CalledFirst view rest s') ⟨h, hfirst⟩ ?_ ?_).1
  · rintro l rest s' ⟨hs, hrest⟩ hl
    cases l with
    | viewThumbnail =>
      have hnone : ∀ e ∈ s'.entries, e.view = view → e.thumbnail = none := by
        intro e he hv
        by_contra ht
        obtain ⟨before, after, heq, hnot⟩ := hrest e he hv ht
        cases before with
        | nil => cases heq
        | cons l before =>
          cases heq
          exact hnot List.mem_cons_self
      obtain ⟨hsame, hentries, hcore⟩ := viewThumbnailDestroy_spec hs.core hnone
      refine ⟨⟨hcore, hs.onOutput.congr hsame hentries⟩, fun e he hv ht => ?_⟩
      have he : e ∈ s'.entries := hentries ▸ he
      exact absurd (hnone e he hv) ht
    | entry id =>
      obtain ⟨e, he, rfl, -, hwith⟩ := hs.core.withEntry_eq hl
      have heq : s'.handleViewUnmap view (.entry e.id) = s'.entryDestroy e := hwith _
      rw [heq]
      refine ⟨hs.entryDestroy he, fun e' he' hv ht => ?_⟩
      obtain ⟨hmem, hne⟩ := entryDestroy_subset hs.core he he'
      obtain ⟨before, after, heq, hnot⟩ := hrest e' hmem hv ht
      cases before with
      | nil => exact absurd (Listener.entry.inj (List.cons.inj heq).1).symm hne
      | cons l before =>
        exact ⟨before, after, (List.cons.inj heq).2, fun hc => hnot (List.mem_cons_of_mem _ hc)⟩
  · rintro l rest s' ⟨hs, hrest⟩ hl
    refine ⟨hs, fun e he hv ht => ?_⟩
    obtain ⟨before, after, heq, hnot⟩ := hrest e he hv ht
    cases before with
    | nil =>
      cases heq
      -- the listener of a live entry of the view is linked
      have hcount := hs.core.linked e he (.viewUnmap view)
      rw [if_pos (by simp [Entry.linked, hv])] at hcount
      exact absurd (List.count_pos_iff.1 (by omega)) hl
    | cons l before =>
      cases heq
      exact ⟨before, after, rfl, fun hc => hnot (List.mem_cons_of_mem _ hc)⟩

/-- While the listeners of a moved view are called: its entries have a thumbnail as soon as they
    were called, if the view is now on the output. -/
structure Moving (view : ℕ) (output : Option ℕ) (s₀ : State) (rest : List Listener) (s : State) :
    Prop where
  core : Core s
  sameOutput : s.output = s₀.output
  moved : s.viewOutput = Function.update s₀.viewOutput view output
  others : ∀ e ∈ s.entries, e.view ≠ view →
    (e.thumbnail.isSome = true ↔ s.viewOutput e.view = some s.output)
  called : ∀ e ∈ s.entries, e.view = view →
    (e.thumbnail.isSome = true ↔ output = some s.output ∧ .entry e.id ∉ rest)
  once : ∀ id, rest.count (.entry id) ≤ 1

theorem Core.count_le_one (h : Core s) (sig : Signal) (id : ℕ) :
    (s.signals sig).count (.entry id) ≤ 1 := by
  by_cases hid : ∃ e ∈ s.entries, e.id = id
  · obtain ⟨e, he, rfl⟩ := hid
    rw [h.linked e he]
    split <;> omega
  · simp only [not_exists, not_and] at hid
    rw [h.freed sig id hid]
    omega

/-- A live entry of the view listens to its moves. -/
theorem Core.mem_viewOutput (h : Core s) (he : e ∈ s.entries) :
    .entry e.id ∈ s.signals (.viewOutput e.view) := by
  have hcount := h.linked e he (.viewOutput e.view)
  rw [if_pos (by simp [Entry.linked])] at hcount
  exact List.count_pos_iff.1 (by omega)

theorem Moving.skip {view : ℕ} {output : Option ℕ} {s₀ : State} {l : Listener}
    {rest : List Listener} (h : Moving view output s₀ (l :: rest) s)
    (hl : ∀ e ∈ s.entries, e.view = view → l ≠ .entry e.id) : Moving view output s₀ rest s :=
  { h with
    called := by
      intro e he hv
      rw [h.called e he hv, List.mem_cons, not_or]
      simp [Ne.symm (hl e he hv)]
    once := fun id => Nat.le_trans (List.count_le_count_cons) (h.once id) }

theorem Moving.call {view id : ℕ} {output old : Option ℕ} {s₀ : State} {rest : List Listener}
    (h : Moving view output s₀ (.entry id :: rest) s) (hold : old ≠ some s₀.output)
    (hl : .entry id ∈ s.signals (.viewOutput view)) :
    Moving view output s₀ rest (s.handleViewOutput old (.entry id)) := by
  obtain ⟨e, he, rfl, hlinked, hwith⟩ := h.core.withEntry_eq hl
  have hv : e.view = view := by simpa [Entry.linked] using hlinked
  have hnone : e.thumbnail = none := by
    have hcalled := (h.called e he hv).not.2 fun hc => hc.2 List.mem_cons_self
    simpa using hcalled
  have hrest : Listener.entry e.id ∉ rest := by
    have honce := h.once e.id
    rw [List.count_cons_self] at honce
    exact List.count_eq_zero.1 (by omega)
  have hout : ∀ s' : State, s'.output = s.output → ¬ old = some s'.output := by
    intro s' hs'
    rw [hs', h.sameOutput]
    exact hold
  have hnow : s.viewOutput e.view = output := by
    rw [h.moved, hv, Function.update_self]
  rw [State.handleViewOutput, hwith]
  by_cases hon : output = some s.output
  · obtain ⟨hsame, hviews⟩ := entryCreateThumbnail_fields s e
    rw [if_pos (hnow.trans hon)]
    dsimp only
    rw [if_neg (hout _ hsame)]
    refine ⟨h.core.entryCreateThumbnail he hnone, hsame.trans h.sameOutput, hviews.trans h.moved,
      fun e' he' hv' => ?_, fun e' he' hv' => ?_,
      fun id => Nat.le_trans List.count_le_count_cons (h.once id)⟩
    · obtain ⟨e₀, he₀, rfl⟩ := mem_entryCreateThumbnail.1 he'
      by_cases hid : e₀.id = e.id
      · rw [h.core.eq_of_id he₀ he hid, if_pos rfl] at hv'
        exact absurd hv hv'
      · rw [if_neg hid] at hv' ⊢
        rw [hviews, hsame]
        exact h.others e₀ he₀ hv'
    · obtain ⟨e₀, he₀, rfl⟩ := mem_entryCreateThumbnail.1 he'
      rw [hsame]
      by_cases hid : e₀.id = e.id
      · rw [if_pos hid]
        exact ⟨fun _ => ⟨hon, hid ▸ hrest⟩, fun _ => rfl⟩
      · rw [if_neg hid] at hv' ⊢
        rw [h.called e₀ he₀ hv', List.mem_cons, not_or]
        simp [hid]
  · rw [if_neg (fun hc => hon (hnow.symm.trans hc))]
    dsimp only
    rw [if_neg (hout s rfl)]
    refine { h with
      called := fun e' he' hv' => ?_
      once := fun id => Nat.le_trans List.count_le_count_cons (h.once id) }
    rw [h.called e' he' hv']
    simp [hon]

/-- The view moves onto the output, or between other outputs. -/
theorem Good.viewOutput (h : Good s) {view : ℕ} {output : Option ℕ}
    (hold : s.viewOutput view ≠ some s.output) :
    Good (emit (·.signals (.viewOutput view)) (State.handleViewOutput (s.viewOutput view))
      { s with viewOutput := Function.update s.viewOutput view output }) := by
  have hstart : Moving view output s (s.signals (.viewOutput view))
      { s with viewOutput := Function.update s.viewOutput view output } := by
    refine ⟨⟨h.core.nodup, h.core.fresh, h.core.linked, h.core.freed, h.core.live, h.core.own,
      h.core.distinct, h.core.apart, h.core.below, h.core.safe⟩, rfl, rfl, fun e he hv => ?_,
      fun e he hv => ?_, h.core.count_le_one _⟩
    · dsimp only
      rw [Function.update_of_ne hv]
      exact h.onOutput e he
    · rw [h.onOutput e he, hv]
      have hmem := h.core.mem_viewOutput he
      rw [hv] at hmem
      exact ⟨fun hc => absurd hc hold, fun hc => absurd hmem hc.2⟩
  have hend : Moving view output s [] (emit (·.signals (.viewOutput view))
      (State.handleViewOutput (s.viewOutput view))
      { s with viewOutput := Function.update s.viewOutput view output }) := by
    refine emit_inv (I := Moving view output s) hstart ?_ ?_
    · intro l rest s' hs hl
      cases l with
      | viewThumbnail => exact hs.skip fun _ _ _ hc => by cases hc
      | entry id => exact hs.call hold hl
    · intro l rest s' hs hl
      refine hs.skip fun e he hv hc => hl ?_
      rw [hc, ← hv]
      exact hs.core.mem_viewOutput he
  refine ⟨hend.core, fun e he => ?_⟩
  by_cases hv : e.view = view
  · rw [hend.called e he hv, hend.moved, hv, Function.update_self]
    simp
  · exact hend.others e he hv

/-- A view without entries moves. -/
theorem Good.viewOutput_of_no_entry (h : Good s) {view : ℕ} {output : Option ℕ}
    (hnone : ∀ e ∈ s.entries, e.view ≠ view) :
    Good (emit (·.signals (.viewOutput view)) (State.handleViewOutput (s.viewOutput view))
      { s with viewOutput := Function.update s.viewOutput view output }) := by
  have hmoved : Good { s with viewOutput := Function.update s.viewOutput view output } := by
    refine ⟨⟨h.core.nodup, h.core.fresh, h.core.linked, h.core.freed, h.core.live, h.core.own,
      h.core.distinct, h.core.apart, h.core.below, h.core.safe⟩, fun e he => ?_⟩
    dsimp only
    rw [Function.update_of_ne (hnone e he)]
    exact h.onOutput e he
  refine (emit_inv (I := fun _ s' => Good s' ∧ ∀ e ∈ s'.entries, e.view ≠ view) ⟨hmoved, hnone⟩ ?_
    fun _ _ _ hs _ => hs).1
  rintro l rest s' ⟨hs, hs'⟩ hl
  cases l with
  | viewThumbnail => exact ⟨hs, hs'⟩
  | entry id =>
    obtain ⟨e, he, -, hlinked, -⟩ := hs.core.withEntry_eq hl
    exact absurd (by simpa [Entry.linked] using hlinked) (hs' e he)

/-- The loop of `workspace_thumbnail_destroy`. -/
theorem Good.foldl_entryDestroy : ∀ (l : List Entry) {s : State}, Good s →
    (l.map (·.id)).Nodup → (∀ e ∈ l, e ∈ s.entries) → Good (l.foldl State.entryDestroy s)
  | [], _, h, _, _ => h
  | e :: l, s, h, hnd, hl => by
      have he := hl e List.mem_cons_self
      rw [List.map_cons, List.nodup_cons] at hnd
      refine foldl_entryDestroy l (h.entryDestroy he) hnd.2 fun e' he' => ?_
      rw [(entryDestroy_spec h.core he).2.1, List.mem_filter, decide_eq_true_iff]
      refine ⟨hl e' (List.mem_cons_of_mem _ he'), fun hid => hnd.1 ?_⟩
      exact List.mem_map.2 ⟨e', he', hid⟩

theorem Good.foldl_createEntry : ∀ (views : List ℕ) {s : State}, Good s →
    Good (views.foldl State.createEntry s)
  | [], _, h => h
  | view :: views, _, h => foldl_createEntry views (h.createEntry view)

/-- Whether there is a workspace thumbnail, and what is minimized, is not part of the invariant. -/
theorem Good.congr (h : Good s) (alive : Bool) (minimized : ℕ → Bool) :
    Good { s with alive := alive, minimized := minimized } :=
  ⟨⟨h.core.nodup, h.core.fresh, h.core.linked, h.core.freed, h.core.live, h.core.own,
    h.core.distinct, h.core.apart, h.core.below, h.core.safe⟩, h.onOutput⟩

theorem eq_takeWhile_append {a : Listener} : ∀ {l : List Listener}, a ∈ l →
    ∃ after, l = l.takeWhile (fun b => decide (b ≠ a)) ++ a :: after
  | b :: l, h => by
      by_cases hb : b = a
      · exact ⟨l, by simp [hb]⟩
      · obtain ⟨after, hl⟩ := eq_takeWhile_append ((List.mem_cons.1 h).resolve_left (Ne.symm hb))
        refine ⟨after, ?_⟩
        rw [List.takeWhile_cons_of_pos (by simpa using hb), List.cons_append, ← hl]

theorem calledFirst_of_kept (h : Core s) {view : ℕ} (hk : kept s (.viewUnmap view) = true) :
    CalledFirst view (s.signals (.viewUnmap view)) s := by
  intro e he hv ht
  have hkept := List.all_eq_true.1 hk e he
  rw [hv, decide_eq_false (fun hc => hc rfl), Bool.false_or, Option.isNone_eq_false_iff.2
    (Option.ne_none_iff_isSome.1 ht), Bool.false_or, decide_eq_true_iff] at hkept
  have hmem : Listener.entry e.id ∈ s.signals (.viewUnmap view) := by
    have hcount := h.linked e he (.viewUnmap view)
    rw [if_pos (by simp [Entry.linked, hv])] at hcount
    exact List.count_pos_iff.1 (by omega)
  obtain ⟨after, heq⟩ := eq_takeWhile_append hmem
  exact ⟨_, after, heq, hkept⟩

theorem step_good {ev : Event} (h : Good s) (hk : kept s ev = true) (hs : step s ev = some s') :
    Good s' := by
  cases ev with
  | create views =>
    rw [step, Option.ite_none_left_eq_some, Option.some.injEq] at hs
    obtain ⟨-, rfl⟩ := hs
    exact .foldl_createEntry views (h.congr true s.minimized)
  | viewEnter view =>
    cases hs
    by_cases ha : s.alive = true
    · rw [if_pos ha]
      exact h.createEntry view
    · rwa [if_neg ha]
  | workspaceLeave view workspace =>
    cases hs
    exact h.workspaceLeave view workspace
  | viewMove view =>
    cases hs
    rwa [emit_handleDamage h.core]
  | viewOutput view output =>
    rw [step, Option.ite_none_left_eq_some, Option.some.injEq] at hs
    obtain ⟨-, rfl⟩ := hs
    rw [kept, Bool.or_eq_true, decide_eq_true_iff, List.all_eq_true] at hk
    rcases hk with hold | hnone
    · exact h.viewOutput hold
    · exact h.viewOutput_of_no_entry fun e he => by simpa using hnone e he
  | viewMinimize view minimized =>
    cases hs
    have hgood := h.congr s.alive (Function.update s.minimized view minimized)
    rwa [emit_handleViewMinimize hgood.core]
  | viewUnmap view =>
    cases hs
    exact h.viewUnmap (calledFirst_of_kept h.core hk)
  | thumbnailUpdate t =>
    cases hs
    rwa [emit_handleDamage h.core]
  | renderFailure view =>
    rw [step, Option.ite_none_left_eq_some, Option.some.injEq] at hs
    obtain ⟨-, rfl⟩ := hs
    rw [kept, List.all_eq_true] at hk
    have hnone : ∀ e ∈ s.entries, e.view = view → e.thumbnail = none := by
      intro e he hv
      simpa [hv] using hk e he
    obtain ⟨hsame, hentries, hcore⟩ := viewThumbnailDestroy_spec h.core hnone
    exact ⟨hcore, h.onOutput.congr hsame hentries⟩
  | otherCreate view =>
    cases hs
    obtain ⟨hentries, hout, hviews, -⟩ := thumbnailCreateFromView_fields s view
    refine ⟨h.core.thumbnailCreateFromView view, fun e he => ?_⟩
    rw [hentries] at he
    rw [hout, hviews]
    exact h.onOutput e he
  | otherDestroy view t =>
    rw [step, Option.ite_none_right_eq_some, Option.some.injEq] at hs
    obtain ⟨⟨-, hfree⟩, rfl⟩ := hs
    obtain ⟨hsame, hentries, -⟩ := thumbnailDestroy_spec view (h.core.silent hfree)
    exact ⟨h.core.thumbnailDestroy hfree, h.onOutput.congr hsame hentries⟩
  | workspaceDestroy | outputDestroy | destroy =>
    rw [step, Option.ite_none_right_eq_some, Option.some.injEq] at hs
    obtain ⟨-, rfl⟩ := hs
    have hgood := h.foldl_entryDestroy s.entries h.core.nodup fun e he => he
    exact hgood.congr false _

theorem start_good (workspace output : ℕ) (viewOutput : ℕ → Option ℕ) :
    Good (start workspace output viewOutput) where
  core := by constructor <;> simp [start]
  onOutput := by simp [OnOutput, start]

/-- For every workspace, output and run in which no view with an entry leaves the output and no
    `view_thumbnail` goes before the entry that has a thumbnail of it, the entries and their
    listeners are in step. -/
theorem workspace_entries_in_step (workspace output : ℕ) (viewOutput : ℕ → Option ℕ)
    (h : Reach step (fun s ev => kept s ev = true) (start workspace output viewOutput) s) :
    InStep s :=
  (h.inv (start_good workspace output viewOutput) fun _ _ _ hg hk hs =>
    step_good hg hk hs).core.inStep

/-- The first view is on output 7, the others are on output 8. -/
def twoOutputs (view : ℕ) : Option ℕ := if view = 1 then some 7 else some 8

/-- Two views of the workspace, the second one on another output: it moves over, the first one is
    minimized and unmapped, and the workspace goes. -/
def workspaceRun : List Event :=
  [.create [1], .viewEnter 2, .otherCreate 2, .viewOutput 2 (some 7), .viewMinimize 1 true,
    .viewMinimize 2 false, .viewUnmap 1, .workspaceDestroy]

theorem workspaceRun_in_step :
    ∃ s, exec (guarded step kept) (start 0 7 twoOutputs) workspaceRun = some s ∧
      s.nextThumbnail = 3 ∧ InStep s :=
  ⟨_, rfl, rfl, workspace_entries_in_step 0 7 twoOutputs (.of_exec_guarded workspaceRun _ rfl)⟩

/-- A view of the workspace moves to another output and is minimized: the handler runs although the
    entry has no thumbnail any more. -/
theorem minimized_after_leaving :
    ¬ ∀ s, Reach step Always (start 0 7 fun _ => some 7) s → InStep s := by
  intro h
  have hs := h _ (.of_exec [.create [1], .viewOutput 1 (some 8), .viewMinimize 1 true] _ rfl)
  have hfault := hs.safe
  cases hfault

end FlakeWm.WorkspaceThumbnails
