import Mathlib.Data.List.Nodup
import FlakeWm.WorkspaceThumbnails.Model

/-! What making and destroying entries does to the listeners.

    Destroying an entry unlinks exactly what it should have linked, and making its thumbnail links
    exactly what is then missing; both are statements about counts. -/

namespace FlakeWm.WorkspaceThumbnails

/-- The invariant, but for which entries have a thumbnail. -/
structure Core (s : State) : Prop where
  nodup : (s.entries.map (·.id)).Nodup
  fresh : ∀ e ∈ s.entries, e.id < s.nextEntry
  linked : ∀ e ∈ s.entries, ∀ sig,
    (s.signals sig).count (.entry e.id) = if e.linked sig then 1 else 0
  freed : ∀ sig id, (∀ e ∈ s.entries, e.id ≠ id) → (s.signals sig).count (.entry id) = 0
  live : ∀ e ∈ s.entries, ∀ t, e.thumbnail = some t → t ∈ s.thumbnails e.view
  own : ∀ e ∈ s.entries, ∀ e' ∈ s.entries, ∀ t, e.thumbnail = some t → e'.thumbnail = some t →
    e.id = e'.id
  distinct : ∀ view, (s.thumbnails view).Nodup
  apart : ∀ view view' t, t ∈ s.thumbnails view → t ∈ s.thumbnails view' → view = view'
  below : ∀ view t, t ∈ s.thumbnails view → t < s.nextThumbnail
  safe : s.fault = false

/-- The entries with a thumbnail are those of the views on the output. -/
def OnOutput (s : State) : Prop :=
  ∀ e ∈ s.entries, e.thumbnail.isSome = true ↔ s.viewOutput e.view = some s.output

/-- What only the making of entries and thumbnails and the views themselves change. -/
structure SameViews (s s' : State) : Prop where
  workspace : s'.workspace = s.workspace
  output : s'.output = s.output
  alive : s'.alive = s.alive
  viewOutput : s'.viewOutput = s.viewOutput
  nextEntry : s'.nextEntry = s.nextEntry
  nextThumbnail : s'.nextThumbnail = s.nextThumbnail
  fault : s'.fault = s.fault

theorem SameViews.trans {s s' s'' : State} (h : SameViews s s') (h' : SameViews s' s'') :
    SameViews s s'' :=
  ⟨h'.workspace.trans h.workspace, h'.output.trans h.output, h'.alive.trans h.alive,
    h'.viewOutput.trans h.viewOutput, h'.nextEntry.trans h.nextEntry,
    h'.nextThumbnail.trans h.nextThumbnail, h'.fault.trans h.fault⟩

variable {s s' : State} {e : Entry}

theorem Core.inStep (h : Core s) : InStep s where
  linked := h.linked
  live := h.live
  freed sig id hmem := by
    by_contra hnone
    simp only [not_exists, not_and] at hnone
    exact List.count_eq_zero.1 (h.freed sig id hnone) hmem
  safe := h.safe

/-- An entry is determined by its id. -/
theorem Core.eq_of_id (h : Core s) {e' : Entry} (he : e ∈ s.entries) (he' : e' ∈ s.entries)
    (hid : e.id = e'.id) : e = e' :=
  List.inj_on_of_nodup_map h.nodup he he' hid

theorem mem_of_find {id : ℕ} (h : s.find id = some e) : e ∈ s.entries ∧ e.id = id :=
  ⟨List.mem_of_find?_eq_some h, by simpa using List.find?_some h⟩

theorem Core.find_eq (h : Core s) (he : e ∈ s.entries) : s.find e.id = some e := by
  cases hf : s.find e.id with
  | none =>
    have hne := List.find?_eq_none.1 hf e he
    simp at hne
  | some e' =>
    obtain ⟨he', hid⟩ := mem_of_find hf
    rw [h.eq_of_id he' he hid]

/-- A linked listener is one of an entry that should have it there. -/
theorem Core.entry_of_mem (h : Core s) {sig : Signal} {id : ℕ}
    (hmem : Listener.entry id ∈ s.signals sig) :
    ∃ e ∈ s.entries, e.id = id ∧ e.linked sig = true := by
  obtain ⟨e, he, rfl⟩ := h.inStep.freed sig id hmem
  refine ⟨e, he, rfl, ?_⟩
  by_contra hl
  have hcount := h.linked e he sig
  rw [if_neg hl] at hcount
  exact List.count_eq_zero.1 hcount hmem

/-- The handlers of a signal find their entry. -/
theorem Core.withEntry_eq (h : Core s) {sig : Signal} {id : ℕ}
    (hmem : Listener.entry id ∈ s.signals sig) :
    ∃ e ∈ s.entries, e.id = id ∧ e.linked sig = true ∧
      ∀ f : Entry → State, s.withEntry (.entry id) f = f e := by
  obtain ⟨e, he, rfl, hl⟩ := h.entry_of_mem hmem
  refine ⟨e, he, rfl, hl, fun f => ?_⟩
  rw [State.withEntry, h.find_eq he]

/-! ### Destroying -/

/-- The signals an entry listens to as long as it lives. -/
def Entry.window (e : Entry) : Signal → Bool
  | .viewMove view | .viewOutput view | .workspaceLeave view | .viewUnmap view => e.view == view
  | _ => false

theorem count_entryFree (s : State) (e : Entry) (sig : Signal) (id : ℕ) :
    ((s.entryFree e).signals sig).count (.entry id) =
      (s.signals sig).count (.entry id) - if id = e.id ∧ e.window sig then 1 else 0 := by
  unfold State.entryFree State.unlink
  by_cases hid : id = e.id <;> cases sig <;>
    simp [count_removeListener, Entry.window, hid, @eq_comm ℕ e.view]

/-- The destroy signal of a thumbnail that no entry listens to. -/
theorem emitThumbnailDestroy_eq {t : ℕ}
    (h : ∀ id, Listener.entry id ∉ s.signals (.thumbnailDestroy t)) :
    s.emitThumbnailDestroy t = s := by
  unfold State.emitThumbnailDestroy
  refine (emit_inv (I := fun rest s' => s' = s ∧ ∀ id, Listener.entry id ∉ rest) ⟨rfl, h⟩ ?_ ?_).1
  · rintro l rest s' ⟨rfl, hrest⟩ -
    cases l with
    | entry id => exact absurd List.mem_cons_self (hrest id)
    | viewThumbnail => exact ⟨rfl, fun id hid => hrest id (List.mem_cons_of_mem _ hid)⟩
  · rintro l rest s' ⟨rfl, hrest⟩ -
    exact ⟨rfl, fun id hid => hrest id (List.mem_cons_of_mem _ hid)⟩

/-- A thumbnail that no entry listens to leaves the list of its view. -/
theorem thumbnailDestroy_spec (view : ℕ) {t : ℕ}
    (h : ∀ id, Listener.entry id ∉ s.signals (.thumbnailDestroy t)) :
    SameViews s (s.thumbnailDestroy view t) ∧ (s.thumbnailDestroy view t).entries = s.entries ∧
      (∀ sig id, ((s.thumbnailDestroy view t).signals sig).count (.entry id) =
        (s.signals sig).count (.entry id)) ∧
      (s.thumbnailDestroy view t).thumbnails =
        Function.update s.thumbnails view ((s.thumbnails view).erase t) := by
  unfold State.thumbnailDestroy
  rw [emitThumbnailDestroy_eq h]
  dsimp only
  split
  · refine ⟨⟨rfl, rfl, rfl, rfl, rfl, rfl, rfl⟩, rfl, fun sig id => ?_, rfl⟩
    simp [State.unlink, count_removeListener]
  · exact ⟨⟨rfl, rfl, rfl, rfl, rfl, rfl, rfl⟩, rfl, fun _ _ => rfl, rfl⟩

/-- Destroying an entry: it unlinks what it should have linked, and its thumbnail goes with it. -/
theorem entryDestroy_spec (h : Core s) (he : e ∈ s.entries) :
    SameViews s (s.entryDestroy e) ∧
      (s.entryDestroy e).entries = s.entries.filter (fun e' => e'.id ≠ e.id) ∧
      (∀ sig id, ((s.entryDestroy e).signals sig).count (.entry id) =
        (s.signals sig).count (.entry id) - if id = e.id ∧ e.linked sig then 1 else 0) ∧
      ∀ view, (s.entryDestroy e).thumbnails view =
        if view = e.view then e.thumbnail.elim (s.thumbnails view) (s.thumbnails view).erase
        else s.thumbnails view := by
  unfold State.entryDestroy
  cases ht : e.thumbnail with
  | none =>
    refine ⟨⟨rfl, rfl, rfl, rfl, rfl, rfl, rfl⟩, rfl, fun sig id => ?_, fun view => ?_⟩
    · rw [count_entryFree]
      cases sig <;> simp [Entry.window, Entry.linked, ht]
    · by_cases hview : view = e.view <;> simp [hview, State.entryFree, State.unlink]
  | some t =>
    dsimp only
    generalize hs₁ : ((s.unlink (.thumbnailDestroy t) (.entry e.id)).unlink (.thumbnailUpdate t)
      (.entry e.id)).unlink (.viewMinimize e.view) (.entry e.id) = s₁
    have hcount : ∀ sig id, (s₁.signals sig).count (.entry id) = (s.signals sig).count (.entry id) -
        if id = e.id ∧ e.linked sig ∧ ¬ e.window sig then 1 else 0 := by
      intro sig id
      rw [← hs₁]
      unfold State.unlink
      by_cases hid : id = e.id <;> cases sig <;>
        simp [count_removeListener, Entry.window, Entry.linked, ht, hid, @eq_comm ℕ e.view,
          @eq_comm ℕ t]
    have hsilent : ∀ id, Listener.entry id ∉ s₁.signals (.thumbnailDestroy t) := by
      intro id
      rw [← List.count_eq_zero, hcount]
      by_cases hid : id = e.id
      · subst hid
        rw [h.linked e he]
        simp [Entry.linked, Entry.window, ht]
      · by_cases hmem : Listener.entry id ∈ s.signals (.thumbnailDestroy t)
        · obtain ⟨e', he', rfl, hl⟩ := h.entry_of_mem hmem
          have ht' : e'.thumbnail = some t := by simpa [Entry.linked] using hl
          exact absurd (h.own e' he' e he t ht' ht) hid
        · rw [List.count_eq_zero.2 hmem]
          exact Nat.zero_sub _
    obtain ⟨hsame, hentries, hsig, hthumb⟩ := thumbnailDestroy_spec e.view hsilent
    have hviews : SameViews s s₁ := by
      rw [← hs₁]
      exact ⟨rfl, rfl, rfl, rfl, rfl, rfl, rfl⟩
    refine ⟨(hviews.trans hsame).trans ⟨rfl, rfl, rfl, rfl, rfl, rfl, rfl⟩, ?_, fun sig id => ?_,
      fun view => ?_⟩
    · change (s₁.thumbnailDestroy e.view t).entries.filter _ = _
      rw [hentries, ← hs₁]
      rfl
    · rw [count_entryFree, hsig, hcount]
      by_cases hid : id = e.id
      · cases sig <;> simp [hid, Entry.linked, Entry.window, ht]
      · simp [hid]
    · change (s₁.thumbnailDestroy e.view t).thumbnails view = _
      rw [hthumb, ← hs₁]
      by_cases hview : view = e.view
      · subst hview
        simp [State.unlink]
      · simp [hview, State.unlink]

theorem Core.entryDestroy (h : Core s) (he : e ∈ s.entries) : Core (s.entryDestroy e) := by
  obtain ⟨hsame, hentries, hcount, hthumb⟩ := entryDestroy_spec h he
  have hmem : ∀ e', e' ∈ (s.entryDestroy e).entries ↔ e' ∈ s.entries ∧ e'.id ≠ e.id := by
    intro e'
    rw [hentries, List.mem_filter, decide_eq_true_iff]
  have hsub : ∀ view, ((s.entryDestroy e).thumbnails view).Sublist (s.thumbnails view) := by
    intro view
    rw [hthumb]
    split
    · cases e.thumbnail with
      | none => exact List.Sublist.refl _
      | some t => exact List.erase_sublist
    · exact List.Sublist.refl _
  constructor
  case nodup =>
    rw [hentries]
    exact h.nodup.sublist (List.filter_sublist.map _)
  case fresh =>
    intro e' he'
    rw [hsame.nextEntry]
    exact h.fresh e' ((hmem e').1 he').1
  case linked =>
    intro e' he' sig
    obtain ⟨he', hne⟩ := (hmem e').1 he'
    rw [hcount, if_neg (fun hid => hne hid.1), h.linked e' he', Nat.sub_zero]
  case freed =>
    intro sig id hnone
    rw [hcount]
    by_cases hid : id = e.id
    · subst hid
      rw [h.linked e he]
      simp
    · rw [h.freed sig id, Nat.zero_sub]
      intro e' he' hid'
      exact hnone e' ((hmem e').2 ⟨he', fun h => hid (hid'.symm.trans h)⟩) hid'
  case live =>
    intro e' he' t ht
    obtain ⟨he', hne⟩ := (hmem e').1 he'
    have hlive := h.live e' he' t ht
    rw [hthumb]
    split
    · cases ht' : e.thumbnail with
      | none => exact hlive
      | some t' =>
        refine (List.mem_erase_of_ne ?_).2 hlive
        rintro rfl
        exact hne (h.own e' he' e he _ ht ht')
    · exact hlive
  case own =>
    intro e₁ he₁ e₂ he₂
    exact h.own e₁ ((hmem e₁).1 he₁).1 e₂ ((hmem e₂).1 he₂).1
  case distinct => exact fun view => (h.distinct view).sublist (hsub view)
  case apart =>
    intro view view' t ht ht'
    exact h.apart view view' t ((hsub view).subset ht) ((hsub view').subset ht')
  case below =>
    intro view t ht
    rw [hsame.nextThumbnail]
    exact h.below view t ((hsub view).subset ht)
  case safe => exact hsame.fault.trans h.safe

theorem OnOutput.entryDestroy (ho : OnOutput s) (h : Core s) (he : e ∈ s.entries) :
    OnOutput (s.entryDestroy e) := by
  obtain ⟨hsame, hentries, -, -⟩ := entryDestroy_spec h he
  intro e' he'
  rw [hentries] at he'
  rw [hsame.viewOutput, hsame.output]
  exact ho e' (List.mem_of_mem_filter he')

/-- A thumbnail that no entry has is unknown to the listeners. -/
theorem Core.silent (h : Core s) {t : ℕ} (ht : ∀ e ∈ s.entries, e.thumbnail ≠ some t) (id : ℕ) :
    Listener.entry id ∉ s.signals (.thumbnailDestroy t) := by
  intro hmem
  obtain ⟨e, he, -, hl⟩ := h.entry_of_mem hmem
  exact ht e he (by simpa [Entry.linked] using hl)

/-- Fewer thumbnails, with those of the entries among them, and the same listeners of entries. -/
theorem Core.fewer (h : Core s) (hsame : SameViews s s') (hentries : s'.entries = s.entries)
    (hcount : ∀ sig id, (s'.signals sig).count (.entry id) = (s.signals sig).count (.entry id))
    (hsub : ∀ view, (s'.thumbnails view).Sublist (s.thumbnails view))
    (hlive : ∀ e ∈ s.entries, ∀ t, e.thumbnail = some t → t ∈ s'.thumbnails e.view) :
    Core s' where
  nodup := by rw [hentries]; exact h.nodup
  fresh := by rw [hentries, hsame.nextEntry]; exact h.fresh
  linked e he sig := by
    rw [hentries] at he
    rw [hcount, h.linked e he]
  freed sig id hnone := by
    rw [hentries] at hnone
    rw [hcount, h.freed sig id hnone]
  live := by rw [hentries]; exact hlive
  own := by rw [hentries]; exact h.own
  distinct view := (h.distinct view).sublist (hsub view)
  apart view view' t ht ht' :=
    h.apart view view' t ((hsub view).subset ht) ((hsub view').subset ht')
  below view t ht := by
    rw [hsame.nextThumbnail]
    exact h.below view t ((hsub view).subset ht)
  safe := hsame.fault.trans h.safe

theorem OnOutput.congr (ho : OnOutput s) (hsame : SameViews s s') (hentries : s'.entries = s.entries) :
    OnOutput s' := by
  intro e he
  rw [hentries] at he
  rw [hsame.viewOutput, hsame.output]
  exact ho e he

/-- Another user destroys a thumbnail. -/
theorem Core.thumbnailDestroy (h : Core s) {view t : ℕ}
    (ht : ∀ e ∈ s.entries, e.thumbnail ≠ some t) : Core (s.thumbnailDestroy view t) := by
  obtain ⟨hsame, hentries, hcount, hthumb⟩ :=
    thumbnailDestroy_spec view (h.silent ht)
  refine h.fewer hsame hentries hcount (fun view' => ?_) fun e he t' ht' => ?_
  · rw [hthumb]
    by_cases hv : view' = view
    · subst hv
      rw [Function.update_self]
      exact List.erase_sublist
    · rw [Function.update_of_ne hv]
  · rw [hthumb]
    have hlive := h.live e he t' ht'
    by_cases hv : e.view = view
    · rw [← hv, Function.update_self]
      refine (List.mem_erase_of_ne ?_).2 hlive
      rintro rfl
      exact ht e he ht'
    · rwa [Function.update_of_ne hv]

/-- The `view_thumbnail` of a view goes, with no entry having a thumbnail of it. -/
theorem viewThumbnailDestroy_spec (h : Core s) {view : ℕ}
    (hnone : ∀ e ∈ s.entries, e.view = view → e.thumbnail = none) :
    SameViews s (s.viewThumbnailDestroy view) ∧
      (s.viewThumbnailDestroy view).entries = s.entries ∧
      Core (s.viewThumbnailDestroy view) := by
  have hsilent : ∀ t ∈ s.thumbnails view, s.emitThumbnailDestroy t = s := by
    intro t ht
    refine emitThumbnailDestroy_eq (h.silent fun e he het => ?_)
    have hview := h.apart _ _ _ (h.live e he t het) ht
    rw [hnone e he hview] at het
    cases het
  have hfold : ∀ l : List ℕ, (∀ t ∈ l, s.emitThumbnailDestroy t = s) →
      l.foldl State.emitThumbnailDestroy s = s := by
    intro l hl
    induction l with
    | nil => rfl
    | cons t l ih =>
      rw [List.foldl_cons, hl t List.mem_cons_self]
      exact ih fun t' ht' => hl t' (List.mem_cons_of_mem _ ht')
  unfold State.viewThumbnailDestroy
  rw [hfold _ hsilent]
  refine ⟨⟨rfl, rfl, rfl, rfl, rfl, rfl, rfl⟩, rfl, h.fewer ⟨rfl, rfl, rfl, rfl, rfl, rfl, rfl⟩ rfl
    (fun sig id => ?_) (fun view' => ?_) fun e he t ht => ?_⟩
  · simp [State.unlink, count_removeListener]
  · by_cases hv : view' = view
    · subst hv
      simp [State.unlink]
    · simp [State.unlink, hv]
  · have hv : e.view ≠ view := by
      intro hv
      rw [hnone e he hv] at ht
      cases ht
    simp only [State.unlink, Function.update_of_ne hv]
    exact h.live e he t ht

/-! ### Making -/

theorem thumbnailCreateFromView_thumbnails (s : State) (view : ℕ) :
    (s.thumbnailCreateFromView view).thumbnails =
      Function.update s.thumbnails view (s.nextThumbnail :: s.thumbnails view) := by
  unfold State.thumbnailCreateFromView
  dsimp only
  split <;> rfl

theorem thumbnailCreateFromView_count (s : State) (view : ℕ) (sig : Signal) (id : ℕ) :
    ((s.thumbnailCreateFromView view).signals sig).count (.entry id) =
      (s.signals sig).count (.entry id) := by
  unfold State.thumbnailCreateFromView
  dsimp only
  split
  · simp [State.link, count_addListener]
  · rfl

/-- The other fields of the state after `thumbnail_create_from_view`. -/
theorem thumbnailCreateFromView_fields (s : State) (view : ℕ) :
    (s.thumbnailCreateFromView view).entries = s.entries ∧
      (s.thumbnailCreateFromView view).output = s.output ∧
      (s.thumbnailCreateFromView view).viewOutput = s.viewOutput ∧
      (s.thumbnailCreateFromView view).nextEntry = s.nextEntry ∧
      (s.thumbnailCreateFromView view).nextThumbnail = s.nextThumbnail + 1 ∧
      (s.thumbnailCreateFromView view).fault = s.fault := by
  unfold State.thumbnailCreateFromView
  dsimp only
  split <;> exact ⟨rfl, rfl, rfl, rfl, rfl, rfl⟩

theorem mem_thumbnailCreateFromView {view view' t : ℕ} :
    t ∈ (s.thumbnailCreateFromView view).thumbnails view' ↔
      t ∈ s.thumbnails view' ∨ (view' = view ∧ t = s.nextThumbnail) := by
  rw [thumbnailCreateFromView_thumbnails]
  by_cases hv : view' = view
  · subst hv
    simp [or_comm]
  · simp [hv]

theorem Core.thumbnailCreateFromView (h : Core s) (view : ℕ) :
    Core (s.thumbnailCreateFromView view) := by
  obtain ⟨hentries, -, -, hnext, hthumb, hfault⟩ := thumbnailCreateFromView_fields s view
  constructor
  case nodup => rw [hentries]; exact h.nodup
  case fresh => rw [hentries, hnext]; exact h.fresh
  case linked =>
    intro e he sig
    rw [hentries] at he
    rw [thumbnailCreateFromView_count, h.linked e he]
  case freed =>
    intro sig id hnone
    rw [hentries] at hnone
    rw [thumbnailCreateFromView_count, h.freed sig id hnone]
  case live =>
    rw [hentries]
    exact fun e he t ht => mem_thumbnailCreateFromView.2 (.inl (h.live e he t ht))
  case own => rw [hentries]; exact h.own
  case distinct =>
    intro view'
    rw [thumbnailCreateFromView_thumbnails]
    by_cases hv : view' = view
    · subst hv
      rw [Function.update_self]
      exact List.nodup_cons.2 ⟨fun ht => Nat.lt_irrefl _ (h.below _ _ ht), h.distinct view'⟩
    · rw [Function.update_of_ne hv]
      exact h.distinct view'
  case apart =>
    intro v v' t ht ht'
    rcases mem_thumbnailCreateFromView.1 ht with hold | ⟨hv, hnew⟩ <;>
      rcases mem_thumbnailCreateFromView.1 ht' with hold' | ⟨hv', hnew'⟩
    · exact h.apart v v' t hold hold'
    · exact absurd (hnew' ▸ h.below v t hold) (Nat.lt_irrefl _)
    · exact absurd (hnew ▸ h.below v' t hold') (Nat.lt_irrefl _)
    · exact hv.trans hv'.symm
  case below =>
    intro v t ht
    rw [hthumb]
    rcases mem_thumbnailCreateFromView.1 ht with ht | ⟨-, rfl⟩
    · exact Nat.lt_succ_of_lt (h.below v t ht)
    · exact Nat.lt_succ_self _
  case safe => exact hfault.trans h.safe

/-- The entry with its new thumbnail, and the others. -/
theorem mem_entryCreateThumbnail {e' : Entry} :
    e' ∈ (s.entryCreateThumbnail e).entries ↔
      ∃ e₀ ∈ s.entries, e' =
        if e₀.id = e.id then { e₀ with thumbnail := some s.nextThumbnail } else e₀ := by
  have hentries := (thumbnailCreateFromView_fields s e.view).1
  simp only [State.entryCreateThumbnail, State.link, State.setThumbnail, hentries, List.mem_map,
    eq_comm]

theorem count_entryCreateThumbnail (s : State) (e : Entry) (sig : Signal) (id : ℕ) :
    ((s.entryCreateThumbnail e).signals sig).count (.entry id) =
      (s.signals sig).count (.entry id) + if id = e.id ∧
        (sig = .thumbnailUpdate s.nextThumbnail ∨ sig = .thumbnailDestroy s.nextThumbnail ∨
          sig = .viewMinimize e.view) then 1 else 0 := by
  simp only [State.entryCreateThumbnail, State.link, State.setThumbnail, count_addListener,
    thumbnailCreateFromView_count]
  by_cases hid : id = e.id
  · cases sig <;> simp [hid]
  · simp [hid]

theorem Core.entryCreateThumbnail (h : Core s) (he : e ∈ s.entries) (hnone : e.thumbnail = none) :
    Core (s.entryCreateThumbnail e) := by
  have hc := h.thumbnailCreateFromView e.view
  have hthumbs : (s.entryCreateThumbnail e).thumbnails =
      (s.thumbnailCreateFromView e.view).thumbnails := rfl
  have hnew : ∀ e' ∈ s.entries, e'.thumbnail ≠ some s.nextThumbnail :=
    fun e' he' ht => Nat.lt_irrefl _ (h.below _ _ (h.live e' he' _ ht))
  -- the entries other than `e` are the old ones
  have hsplit : ∀ e' ∈ (s.entryCreateThumbnail e).entries,
      e' = { e with thumbnail := some s.nextThumbnail } ∨ (e' ∈ s.entries ∧ e'.id ≠ e.id) := by
    intro e' he'
    obtain ⟨e₀, he₀, rfl⟩ := mem_entryCreateThumbnail.1 he'
    by_cases hid : e₀.id = e.id
    · rw [if_pos hid, h.eq_of_id he₀ he hid]
      exact .inl rfl
    · rw [if_neg hid]
      exact .inr ⟨he₀, hid⟩
  have hids : (s.entryCreateThumbnail e).entries.map (·.id) = s.entries.map (·.id) := by
    have hentries : (s.entryCreateThumbnail e).entries = s.entries.map fun e' =>
        if e'.id = e.id then { e' with thumbnail := some s.nextThumbnail } else e' := by
      simp only [State.entryCreateThumbnail, State.link, State.setThumbnail,
        (thumbnailCreateFromView_fields s e.view).1]
    rw [hentries, List.map_map]
    refine List.map_congr_left fun e' _ => ?_
    by_cases hid : e'.id = e.id <;> simp [hid]
  constructor
  case nodup => rw [hids]; exact h.nodup
  case fresh =>
    intro e' he'
    have hnext : (s.entryCreateThumbnail e).nextEntry = s.nextEntry :=
      (thumbnailCreateFromView_fields s e.view).2.2.2.1
    rw [hnext]
    rcases hsplit e' he' with rfl | ⟨he', -⟩
    · exact h.fresh e he
    · exact h.fresh e' he'
  case linked =>
    intro e' he' sig
    rw [count_entryCreateThumbnail]
    rcases hsplit e' he' with rfl | ⟨he', hid⟩
    · rw [h.linked e he]
      cases sig <;>
        simp [Entry.linked, hnone, @eq_comm ℕ e.view, @eq_comm ℕ s.nextThumbnail]
    · rw [if_neg (fun hc => hid hc.1), h.linked e' he', Nat.add_zero]
  case freed =>
    intro sig id hnone'
    have hid : id ≠ e.id := by
      rintro rfl
      exact hnone' _ (mem_entryCreateThumbnail.2 ⟨e, he, rfl⟩) (by rw [if_pos rfl])
    rw [count_entryCreateThumbnail, if_neg (fun hc => hid hc.1), Nat.add_zero]
    refine h.freed sig id fun e' he' hid' => hnone' e' ?_ hid'
    exact mem_entryCreateThumbnail.2 ⟨e', he', by rw [if_neg (fun hc => hid (hid'.symm.trans hc))]⟩
  case live =>
    intro e' he' t ht
    rw [hthumbs]
    rcases hsplit e' he' with rfl | ⟨he', -⟩
    · cases ht
      exact mem_thumbnailCreateFromView.2 (.inr ⟨rfl, rfl⟩)
    · exact mem_thumbnailCreateFromView.2 (.inl (h.live e' he' t ht))
  case own =>
    intro e₁ he₁ e₂ he₂ t ht₁ ht₂
    rcases hsplit e₁ he₁ with rfl | ⟨he₁, -⟩ <;> rcases hsplit e₂ he₂ with rfl | ⟨he₂, -⟩
    · rfl
    · cases ht₁
      exact absurd ht₂ (hnew e₂ he₂)
    · cases ht₂
      exact absurd ht₁ (hnew e₁ he₁)
    · exact h.own e₁ he₁ e₂ he₂ t ht₁ ht₂
  case distinct => exact hc.distinct
  case apart => exact hc.apart
  case below => exact hc.below
  case safe => exact hc.safe

/-- A new entry, before it gets a thumbnail. -/
def State.addEntry (s : State) (view : ℕ) : State :=
  (((({ s with entries := ⟨s.nextEntry, view, none⟩ :: s.entries, nextEntry := s.nextEntry + 1 }.link
    (.viewOutput view) (.entry s.nextEntry)).link (.viewMove view) (.entry s.nextEntry)).link
      (.workspaceLeave view) (.entry s.nextEntry)).link (.viewUnmap view) (.entry s.nextEntry))

theorem createEntry_eq (s : State) (view : ℕ) :
    s.createEntry view = if s.viewOutput view = some s.output then
      (s.addEntry view).entryCreateThumbnail ⟨s.nextEntry, view, none⟩ else s.addEntry view := rfl

theorem Core.addEntry (h : Core s) (view : ℕ) : Core (s.addEntry view) := by
  have hmem : ∀ e, e ∈ (s.addEntry view).entries ↔ e = ⟨s.nextEntry, view, none⟩ ∨ e ∈ s.entries :=
    fun e => List.mem_cons
  have hcount : ∀ sig id, ((s.addEntry view).signals sig).count (.entry id) =
      (s.signals sig).count (.entry id) +
        if id = s.nextEntry ∧ (Entry.mk s.nextEntry view none).linked sig then 1 else 0 := by
    intro sig id
    unfold State.addEntry State.link
    by_cases hid : id = s.nextEntry <;> cases sig <;>
      simp [count_addListener, Entry.linked, hid, @eq_comm ℕ view]
  have hnew : ∀ e ∈ s.entries, e.id ≠ s.nextEntry :=
    fun e he hid => Nat.lt_irrefl _ (hid ▸ h.fresh e he)
  constructor
  case nodup =>
    refine List.nodup_cons.2 ⟨fun hid => ?_, h.nodup⟩
    obtain ⟨e, he, hid⟩ := List.mem_map.1 hid
    exact hnew e he hid
  case fresh =>
    intro e he
    rcases (hmem e).1 he with rfl | he
    · exact Nat.lt_succ_self _
    · exact Nat.lt_succ_of_lt (h.fresh e he)
  case linked =>
    intro e he sig
    rw [hcount]
    rcases (hmem e).1 he with rfl | he
    · rw [h.freed sig s.nextEntry hnew]
      simp
    · have hold : ¬ (e.id = s.nextEntry ∧ (Entry.mk s.nextEntry view none).linked sig = true) :=
        fun hc => hnew e he hc.1
      rw [if_neg hold, h.linked e he, Nat.add_zero]
  case freed =>
    intro sig id hnone
    have hid : id ≠ s.nextEntry := fun hid => hnone _ ((hmem _).2 (.inl rfl)) hid.symm
    rw [hcount, if_neg (fun hc => hid hc.1), Nat.add_zero]
    exact h.freed sig id fun e he => hnone e ((hmem e).2 (.inr he))
  case live =>
    intro e he t ht
    rcases (hmem e).1 he with rfl | he
    · cases ht
    · exact h.live e he t ht
  case own =>
    intro e₁ he₁ e₂ he₂ t ht₁ ht₂
    rcases (hmem e₁).1 he₁ with rfl | he₁
    · cases ht₁
    · rcases (hmem e₂).1 he₂ with rfl | he₂
      · cases ht₂
      · exact h.own e₁ he₁ e₂ he₂ t ht₁ ht₂
  case distinct => exact h.distinct
  case apart => exact h.apart
  case below => exact h.below
  case safe => exact h.safe

theorem entryCreateThumbnail_fields (s : State) (e : Entry) :
    (s.entryCreateThumbnail e).output = s.output ∧
      (s.entryCreateThumbnail e).viewOutput = s.viewOutput :=
  ⟨(thumbnailCreateFromView_fields s e.view).2.1, (thumbnailCreateFromView_fields s e.view).2.2.1⟩

/-- The whole invariant. -/
structure Good (s : State) : Prop where
  core : Core s
  onOutput : OnOutput s

theorem Good.createEntry (h : Good s) (view : ℕ) : Good (s.createEntry view) := by
  have hadd := h.core.addEntry view
  rw [createEntry_eq]
  by_cases hv : s.viewOutput view = some s.output
  · rw [if_pos hv]
    refine ⟨hadd.entryCreateThumbnail List.mem_cons_self rfl, fun e he => ?_⟩
    obtain ⟨hout, hview⟩ := entryCreateThumbnail_fields (s.addEntry view) ⟨s.nextEntry, view, none⟩
    rw [hout, hview]
    obtain ⟨e₀, he₀, rfl⟩ := mem_entryCreateThumbnail.1 he
    rcases List.mem_cons.1 he₀ with rfl | he₀
    · rw [if_pos rfl]
      exact ⟨fun _ => hv, fun _ => rfl⟩
    · have hne : e₀.id ≠ s.nextEntry := fun hid => Nat.lt_irrefl _ (hid ▸ h.core.fresh e₀ he₀)
      rw [if_neg hne]
      exact h.onOutput e₀ he₀
  · rw [if_neg hv]
    refine ⟨hadd, fun e he => ?_⟩
    rcases List.mem_cons.1 he with rfl | he
    · exact ⟨fun hc => absurd hc Bool.false_ne_true, fun hc => absurd hc hv⟩
    · exact h.onOutput e he

theorem Good.entryDestroy (h : Good s) (he : e ∈ s.entries) : Good (s.entryDestroy e) :=
  ⟨h.core.entryDestroy he, h.onOutput.entryDestroy h.core he⟩

end FlakeWm.WorkspaceThumbnails
