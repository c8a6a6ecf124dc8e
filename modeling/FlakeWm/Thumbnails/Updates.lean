import FlakeWm.Thumbnails.Release

/-! What the thumbnails of a source know of its content.

    A thumbnail that is not forced has the update for the last content and knows the buffer (`Known`).
    A render into another buffer forces the thumbnails that are paused; a render into the same buffer
    does not, and they miss it for good. -/

namespace FlakeWm.Thumbnails

variable {s s' : State} {tb : ThumbnailBuffer}

/-! ### Frames without listeners -/

theorem find?_of_mem {l : List Thumbnail} {t : Thumbnail} (hnodup : (l.map Thumbnail.id).Nodup)
    (ht : t ∈ l) : l.find? (fun a => a.id = t.id) = some t := by
  cases hfound : l.find? (fun a => decide (a.id = t.id)) with
  | none =>
    rw [List.find?_eq_none] at hfound
    exact absurd (decide_eq_true rfl) (hfound t ht)
  | some a =>
    have hid : a.id = t.id := by simpa using List.find?_some hfound
    rw [List.inj_on_of_nodup_map hnodup (List.mem_of_find?_eq_some hfound) ht hid]

/-- The edit of a thumbnail depends on that thumbnail only. -/
theorem edit_congr {f g : ThumbnailBuffer → Thumbnail → Thumbnail} {id : ℕ}
    (ho : s.owner = some tb) (hnodup : tb.ids.Nodup)
    (h : ∀ t, s.find id = some t → f tb t = g tb t) : s.edit id f = s.edit id g := by
  rw [State.edit, State.edit, ho]
  dsimp only
  congr 2
  refine List.map_congr_left fun t ht => ?_
  by_cases hid : t.id = id
  · subst hid
    rw [if_pos rfl, if_pos rfl]
    exact h t (by rw [find_eq_of_owner ho, find?_of_mem hnodup ht])
  · rw [if_neg hid, if_neg hid]

/-- The thumbnail buffer in a loop that edits one thumbnail after the other. -/
def edited (g : ThumbnailBuffer → Thumbnail → Thumbnail) (tb : ThumbnailBuffer) (rest : List ℕ) :
    ThumbnailBuffer :=
  { tb with
    canDestroy := false
    thumbnails := tb.thumbnails.map fun t => if t.id ∈ rest then t else g tb t }

/-- The state of such a loop, with the thumbnails that are still to come. -/
def Editing (g : ThumbnailBuffer → Thumbnail → Thumbnail) (tb : ThumbnailBuffer) (s : State)
    (rest : List ℕ) (s₁ : State) : Prop :=
  rest.Nodup ∧ rest ⊆ tb.ids ∧ s₁ = s.setOwner (edited g tb rest)

section Edits

variable {g : ThumbnailBuffer → Thumbnail → Thumbnail} (hid : ∀ tb t, (g tb t).id = t.id)
  (hsame : ∀ tb l c, g { tb with thumbnails := l, canDestroy := c } = g tb)

include hid in
theorem edited_ids (tb : ThumbnailBuffer) (rest : List ℕ) : (edited g tb rest).ids = tb.ids := by
  rw [edited, ThumbnailBuffer.ids, ThumbnailBuffer.ids, List.map_map]
  refine List.map_congr_left fun t _ => ?_
  rw [Function.comp_apply]
  split_ifs
  · rfl
  · exact hid tb t

include hid hsame in
theorem edited_next {i : ℕ} {rest : List ℕ} (hi : i ∉ rest) :
    (s.setOwner (edited g tb (i :: rest))).edit i g = s.setOwner (edited g tb rest) := by
  have hg : g (edited g tb (i :: rest)) = g tb := hsame tb _ _
  simp only [State.edit, State.setOwner, hg]
  congr 2
  simp only [edited, List.map_map]
  congr 1
  refine List.map_congr_left fun t _ => ?_
  rw [Function.comp_apply]
  by_cases ht : t.id = i
  · subst ht
    rw [if_pos List.mem_cons_self, if_pos rfl, if_neg hi]
  · by_cases hr : t.id ∈ rest
    · rw [if_pos (List.mem_cons_of_mem _ hr), if_neg ht, if_pos hr]
    · have hcons : t.id ∉ i :: rest := by simp [ht, hr]
      rw [if_neg hcons, if_neg hr, if_neg (by rw [hid]; exact ht)]

include hid hsame in
/-- The loop when its body is one edit of the thumbnail. -/
theorem notifyAll_eq {body : State → ℕ → State}
    (hbody : ∀ s tb i, s.owner = some tb → tb.ids.Nodup → body s i = s.edit i g)
    (hnodup : tb.ids.Nodup) :
    s.notifyAll tb body = (s.setOwner { tb with
      thumbnails := tb.thumbnails.map (g tb), canDestroy := true }).thumbnailBufferDestroy := by
  have hstep : ∀ (s₁ : State) (i : ℕ) (rest : List ℕ), Editing g tb s (i :: rest) s₁ →
      Editing g tb s rest (body s₁ i) := by
    rintro s₁ i rest ⟨hrest, hsub, rfl⟩
    obtain ⟨hi, hrest⟩ := List.nodup_cons.mp hrest
    rw [hbody _ _ i rfl (by rw [edited_ids hid]; exact hnodup), edited_next hid hsame hi]
    exact ⟨hrest, (List.cons_subset.mp hsub).2, rfl⟩
  have hlive : ∀ rest j, (s.setOwner (edited g tb rest)).live j = decide (j ∈ tb.ids) := by
    intro rest j
    rw [State.live, State.setOwner, Option.any_some, edited_ids hid]
  have hskip : ∀ (s₁ : State) (i : ℕ) (rest : List ℕ), Editing g tb s (i :: rest) s₁ →
      s₁.live i = false → Editing g tb s rest s₁ := by
    rintro s₁ i rest ⟨-, hsub, rfl⟩ hdead
    rw [hlive, decide_eq_false_iff_not] at hdead
    exact absurd (List.cons_subset.mp hsub).1 hdead
  have hstart : Editing g tb s tb.ids (s.setOwner { tb with canDestroy := false }) := by
    refine ⟨hnodup, List.Subset.refl _, ?_⟩
    rw [edited]
    congr 2
    refine (List.map_id' _).symm.trans (List.map_congr_left fun t ht => ?_)
    exact (if_pos (List.mem_map_of_mem ht)).symm
  have hrun : (forEachSafe State.live body (s.setOwner { tb with canDestroy := false }) none
      tb.ids).isSome = true := by
    refine forEachSafe_isSome (I := Editing g tb s) (fun s₁ i rest hI _ => hstep s₁ i rest hI) hskip
      (fun s₁ i rest hI _ j _ => ?_) tb.ids _ none hstart (fun t ht => by cases ht)
      (sparesNext_nil _ _)
    rw [(hstep s₁ i rest hI).2.2, hI.2.2, hlive, hlive]
    simp
  obtain ⟨s', hs'⟩ := Option.isSome_iff_exists.mp hrun
  obtain ⟨-, -, rfl⟩ := forEachSafe_inv (I := Editing g tb s)
    (fun s₁ i rest hI _ => hstep s₁ i rest hI) hskip tb.ids hstart hs'
  rw [State.notifyAll, hs']
  simp only [State.setOwner, edited, List.not_mem_nil, if_false]

end Edits

/-- What an update after rendering does to a thumbnail. -/
def told (changed : Bool) (tb : ThumbnailBuffer) (t : Thumbnail) : Thumbnail :=
  if t.wantsUpdate then State.emitUpdate (changed || t.forceUpdate) tb t
  else { t with forceUpdate := t.forceUpdate || changed }

/-- What an update without rendering does to a thumbnail. -/
def caughtUp (tb : ThumbnailBuffer) (t : Thumbnail) : Thumbnail :=
  if t.wantsUpdate && t.forceUpdate then State.emitUpdate true tb t else t

theorem notifyAll_update (changed : Bool) (hnodup : tb.ids.Nodup) :
    s.notifyAll tb (State.update changed fun _ => []) = (s.setOwner { tb with
      thumbnails := tb.thumbnails.map (told changed tb)
      canDestroy := true }).thumbnailBufferDestroy := by
  refine notifyAll_eq (fun tb t => ?_) (fun _ _ _ => rfl) (fun s tb i ho hnodup => ?_) hnodup
  · rw [told]
    split_ifs <;> rfl
  · rw [State.update]
    split_ifs with hwants
    · refine edit_congr ho hnodup fun t ht => ?_
      rw [ht, Option.any_some] at hwants
      rw [told, if_pos hwants]
    · refine edit_congr ho hnodup fun t ht => ?_
      rw [ht, Option.any_some] at hwants
      rw [told, if_neg hwants]

theorem notifyAll_updateForced (hnodup : tb.ids.Nodup) :
    s.notifyAll tb (State.updateForced fun _ => []) = (s.setOwner { tb with
      thumbnails := tb.thumbnails.map (caughtUp tb)
      canDestroy := true }).thumbnailBufferDestroy := by
  refine notifyAll_eq (fun tb t => ?_) (fun _ _ _ => rfl) (fun s tb i ho hnodup => ?_) hnodup
  · rw [caughtUp]
    split_ifs <;> rfl
  · rw [State.updateForced]
    split_ifs with hforced
    · refine edit_congr ho hnodup fun t ht => ?_
      rw [ht, Option.any_some] at hforced
      rw [caughtUp, if_pos hforced]
    · refine (edit_same s i).symm.trans (edit_congr ho hnodup fun t ht => ?_)
      rw [ht, Option.any_some] at hforced
      rw [caughtUp, if_neg hforced]

/-! ### What is known -/

/-- The thumbnail has the update for the last content, and knows the buffer. -/
def Thumbnail.Knows (tb : ThumbnailBuffer) (t : Thumbnail) : Prop :=
  t.received = some tb.version ∧ t.announced = tb.buffer.map WlrBuffer.id

/-- A thumbnail that is not forced knows the last content. -/
structure Known (tb : ThumbnailBuffer) : Prop where
  thumbnails : ∀ t ∈ tb.thumbnails, t.forceUpdate = false → t.Knows tb
  buffer : tb.wasDamaged = false → tb.buffer.isSome = true

/-- The thumbnails that want updates know the last content, unless the source is damaged. -/
def Informed (tb : ThumbnailBuffer) : Prop :=
  tb.wasDamaged = false → ∀ t ∈ tb.thumbnails, t.wantsUpdate = true →
    ∃ b, tb.buffer = some b ∧ t.received = some tb.version ∧ t.announced = some b.id

theorem Known.informed (h : Known tb)
    (hforced : ∀ t ∈ tb.thumbnails, t.wantsUpdate = true → t.forceUpdate = false) :
    Informed tb := by
  intro hdamaged t ht hwants
  obtain ⟨b, hb⟩ := Option.isSome_iff_exists.mp (h.buffer hdamaged)
  obtain ⟨hreceived, hannounced⟩ := h.thumbnails t ht (hforced t ht hwants)
  rw [hb] at hannounced
  exact ⟨b, hb, hreceived, hannounced⟩

/-- A frame without damage. -/
theorem caughtUp_known (h : Known tb) :
    Known { tb with thumbnails := tb.thumbnails.map (caughtUp tb), canDestroy := true } ∧
      Informed { tb with thumbnails := tb.thumbnails.map (caughtUp tb), canDestroy := true } := by
  have hknown : Known { tb with
      thumbnails := tb.thumbnails.map (caughtUp tb), canDestroy := true } := by
    refine ⟨fun t' ht' hforce => ?_, h.buffer⟩
    obtain ⟨t, ht, rfl⟩ := List.mem_map.mp ht'
    rw [caughtUp] at hforce ⊢
    split_ifs at hforce ⊢
    · exact ⟨rfl, rfl⟩
    · exact h.thumbnails t ht hforce
  refine ⟨hknown, hknown.informed fun t' ht' hwants => ?_⟩
  obtain ⟨t, ht, rfl⟩ := List.mem_map.mp ht'
  rw [caughtUp] at hwants ⊢
  split_ifs at hwants ⊢ with hboth
  · rfl
  · simpa [hwants] using hboth

/-- A frame that rendered: to the same buffer only if no paused thumbnail is up to date. -/
theorem told_known {b : WlrBuffer} {changed : Bool} (h : Known tb)
    (hsame : changed = false → tb.buffer = some b ∧
      ∀ t ∈ tb.thumbnails, t.wantsUpdate = true ∨ t.forceUpdate = true) :
    let tb' := { tb with wasDamaged := false, buffer := some b, version := tb.version + 1 }
    Known { tb' with thumbnails := tb'.thumbnails.map (told changed tb'), canDestroy := true } ∧
      Informed { tb' with thumbnails := tb'.thumbnails.map (told changed tb'), canDestroy := true } := by
  intro tb'
  have hknown : Known { tb' with
      thumbnails := tb'.thumbnails.map (told changed tb'), canDestroy := true } := by
    refine ⟨fun t' ht' hforce => ?_, fun _ => rfl⟩
    obtain ⟨t, ht, rfl⟩ := List.mem_map.mp ht'
    rw [told] at hforce ⊢
    split_ifs at hforce ⊢ with hwants
    · refine ⟨rfl, ?_⟩
      cases hboth : changed || t.forceUpdate with
      | true => rfl
      | false =>
        obtain ⟨hchanged, ht'⟩ := Bool.or_eq_false_iff.mp hboth
        obtain ⟨-, hannounced⟩ := h.thumbnails t ht ht'
        rw [(hsame hchanged).1] at hannounced
        exact hannounced
    · obtain ⟨ht', hchanged⟩ := Bool.or_eq_false_iff.mp hforce
      obtain hw | hf := (hsame hchanged).2 t ht
      · exact absurd hw hwants
      · rw [hf] at ht'
        cases ht'
  refine ⟨hknown, hknown.informed fun t' ht' hwants => ?_⟩
  obtain ⟨t, ht, rfl⟩ := List.mem_map.mp ht'
  rw [told] at hwants ⊢
  split_ifs at hwants ⊢ with hw
  · rfl
  · exact absurd hwants hw

/-! ### Steps -/

/-- The frames of the claim: the render succeeds and no listener touches the thumbnails. -/
def plainFrame : Event → Prop
  | .frame _ _ result listener => result = .rendered ∧ ∀ i, listener i = []
  | _ => True

/-- A frame renders into the buffer that is there only while every thumbnail wants updates or is
    forced. -/
def sparesPaused (s : State) : Event → Bool
  | .frame width height _ _ => s.owner.all fun tb =>
      !(tb.wasDamaged && tb.thumbnails.any Thumbnail.wantsUpdate && reuses tb width height) ||
        tb.thumbnails.all fun t => t.wantsUpdate || t.forceUpdate
  | _ => true

theorem listenersSpareNext_nil (p : Thumbnail → Bool) (tb : ThumbnailBuffer) :
    listenersSpareNext p tb (fun _ => []) = true := by
  have hnone : ∀ told : ℕ → Bool, destroyedBy told (fun _ => []) = fun _ => [] := by
    intro told
    funext i
    rw [destroyedBy, List.flatMap_nil, ite_self]
  rw [listenersSpareNext, hnone, sparesNext_nil]

theorem plainFrame_releases (type : ThumbnailType) : ∀ {ev : Event}, plainFrame ev →
    releasesOnce type s ev = true
  | .create, _ => rfl
  | .destroy _, _ => rfl
  | .markWantsUpdate _ _, _ => rfl
  | .sourceDamage, _ => rfl
  | .sourceDestroy, _ => rfl
  | .frame width height result listener, h => by
      obtain ⟨rfl, hlistener⟩ := h
      obtain rfl : listener = fun _ => [] := funext hlistener
      rw [releasesOnce, Option.all_eq_true]
      intro tb _
      rw [listenersSpareNext_nil, listenersSpareNext_nil]
      simp [succeeds, failsLate]

/-- The counts are right and the thumbnails that are not forced know the last content. -/
structure Tracked (s : State) : Prop where
  counted : Counted s
  known : ∀ tb, s.owner = some tb → Known tb

theorem destroy_owner {tb' : ThumbnailBuffer} (h : s.thumbnailBufferDestroy.owner = some tb') :
    ∃ tb b, s.owner = some tb ∧ tb' = { tb with needDestroy := b } := by
  rw [State.thumbnailBufferDestroy] at h
  split at h
  · next ho =>
    rw [ho] at h
    cases h
  · next tb ho =>
    split_ifs at h
    · exact ⟨tb', tb'.needDestroy, h, rfl⟩
    · cases h
      exact ⟨tb, true, ho, rfl⟩

theorem destroy_known (h : ∀ tb, s.owner = some tb → Known tb) :
    ∀ tb, s.thumbnailBufferDestroy.owner = some tb → Known tb := by
  intro tb' ho'
  obtain ⟨tb, b, ho, rfl⟩ := destroy_owner ho'
  exact ⟨(h tb ho).thumbnails, (h tb ho).buffer⟩

theorem destroy_informed (h : ∀ tb, s.owner = some tb → Informed tb) :
    ∀ tb, s.thumbnailBufferDestroy.owner = some tb → Informed tb := by
  intro tb' ho'
  obtain ⟨tb, b, ho, rfl⟩ := destroy_owner ho'
  exact h tb ho

/-- A frame keeps the thumbnails informed. -/
theorem render_known {type : ThumbnailType} {width height : ℤ} (h : Tracked s)
    (ho : s.owner = some tb)
    (hok : sparesPaused s (.frame width height .rendered fun _ => []) = true) :
    ∀ tb', (s.thumbnailBufferRender type tb width height .rendered fun _ => []).owner = some tb' →
      Known tb' ∧ Informed tb' := by
  have hboth : ∀ {s' : State} {tb₁ : ThumbnailBuffer}, Known tb₁ ∧ Informed tb₁ → ∀ tb',
      (s'.setOwner tb₁).thumbnailBufferDestroy.owner = some tb' → Known tb' ∧ Informed tb' := by
    rintro s' tb₁ ⟨hk, hi⟩ tb' ho'
    refine ⟨destroy_known (fun tb₂ h₂ => ?_) tb' ho', destroy_informed (fun tb₂ h₂ => ?_) tb' ho'⟩
    · cases h₂
      exact hk
    · cases h₂
      exact hi
  have hnodup : tb.ids.Nodup := by
    have hn := h.counted.thumbnails.nodup
    rwa [ho] at hn
  have hknown := h.known tb ho
  rw [State.thumbnailBufferRender]
  by_cases hdamaged : tb.wasDamaged = true
  swap
  · rw [if_pos (by simpa using hdamaged), notifyAll_updateForced hnodup]
    exact hboth (caughtUp_known hknown)
  rw [if_neg (by simpa using hdamaged)]
  by_cases hwants : tb.thumbnails.any Thumbnail.wantsUpdate = true
  swap
  · rw [if_pos (by simpa using hwants)]
    intro tb' ho'
    cases ho.symm.trans ho'
    refine ⟨hknown, fun hfalse => ?_⟩
    rw [hdamaged] at hfalse
    cases hfalse
  rw [if_neg (by simpa using hwants)]
  have hnodup' : ∀ b : WlrBuffer, { tb with
      wasDamaged := false, buffer := some b, version := tb.version + 1 }.ids.Nodup :=
    fun _ => hnodup
  obtain ⟨b, hbuffer, -, hreuses, heq⟩ | ⟨b, hid, -, heq⟩ | ⟨b, -, hlate, -⟩ | ⟨b, -, hlate, -⟩ |
    ⟨hfails, -⟩ := render_cases s type tb width height .rendered
  · rw [heq]
    dsimp only
    split_ifs with hchanged
    all_goals rw [notifyAll_update _ (hnodup' b)]
    all_goals refine hboth (told_known hknown fun _ => ⟨hbuffer, fun t ht => ?_⟩)
    all_goals
      rw [sparesPaused, ho, Option.all_some, hdamaged, hwants, hreuses] at hok
      simpa using List.all_eq_true.mp hok t ht
  · rw [heq]
    have hchanged : decide (tb.buffer.map WlrBuffer.id ≠ some b.id) = true := by
      have hb := h.counted.buffers
      rw [ho] at hb
      rw [decide_eq_true_eq, hid]
      intro hold
      exact absurd (hb.lt (a := s.buffers) (by simp [held, hold])) (lt_irrefl _)
    dsimp only
    rw [hchanged, if_pos rfl, notifyAll_update _ (hnodup' b)]
    exact hboth (told_known hknown fun hfalse => by cases hfalse)
  · simp [failsLate] at hlate
  · simp [failsLate] at hlate
  · simp [succeeds, failsLate] at hfails

theorem step_tracked {type : ThumbnailType} {ev : Event} (h : Tracked s) (hplain : plainFrame ev)
    (hok : sparesPaused s ev = true) (hs : step type s ev = some s') : Tracked s' := by
  refine ⟨step_counted h.counted (plainFrame_releases type hplain) hs, ?_⟩
  simp only [step, h.counted.no_fault, Bool.false_eq_true, if_false] at hs
  cases ev with
  | create =>
    cases hs
    intro tb' ho'
    rw [State.thumbnailCreate] at ho'
    dsimp only at ho'
    split at ho'
    · next tb ho =>
      cases ho'
      refine ⟨fun t ht hforce => ?_, (h.known tb ho).buffer⟩
      rcases List.mem_cons.mp ht with rfl | ht
      · cases hforce
      · exact (h.known tb ho).thumbnails t ht hforce
    · cases ho'
      refine ⟨fun t ht hforce => ?_, fun hfalse => by cases hfalse⟩
      rw [List.mem_singleton] at ht
      subst ht
      cases hforce
  | destroy id =>
    dsimp only at hs
    split_ifs at hs
    cases hs
    rw [State.thumbnailDestroy]
    split
    · exact h.known
    · next tb ho =>
      split_ifs
      · refine destroy_known fun tb' ho' => ?_
        cases ho'
        refine ⟨fun t ht => ?_, (h.known tb ho).buffer⟩
        exact (h.known tb ho).thumbnails t (List.mem_filter.mp ht).1
      · exact h.known
  | markWantsUpdate id wants =>
    dsimp only at hs
    split_ifs at hs
    cases hs
    rw [State.thumbnailMarkWantsUpdate]
    split
    · exact h.known
    · next tb ho =>
      intro tb' ho'
      cases ho'
      refine ⟨fun t' ht' hforce => ?_, (h.known tb ho).buffer⟩
      obtain ⟨t, ht, rfl⟩ := List.mem_map.mp ht'
      split_ifs at hforce ⊢
      · exact (h.known tb ho).thumbnails t ht hforce
      · exact (h.known tb ho).thumbnails t ht hforce
  | sourceDamage =>
    obtain ⟨tb, ho, rfl⟩ := Option.map_eq_some_iff.mp hs
    intro tb' ho'
    cases ho'
    exact ⟨(h.known tb ho).thumbnails, fun hfalse => by cases hfalse⟩
  | sourceDestroy =>
    obtain ⟨tb, ho, rfl⟩ := Option.map_eq_some_iff.mp hs
    refine destroy_known fun tb' ho' => ?_
    cases ho'
    exact ⟨(h.known tb ho).thumbnails, (h.known tb ho).buffer⟩
  | frame width height result listener =>
    obtain ⟨tb, ho, rfl⟩ := Option.map_eq_some_iff.mp hs
    obtain ⟨rfl, hlistener⟩ := hplain
    obtain rfl : listener = fun _ => [] := funext hlistener
    exact fun tb' ho' => (render_known h ho hok tb' ho').1

/-! ### Runs -/

theorem reach_tracked {type : ThumbnailType}
    (h : Reach (step type) (fun s ev => plainFrame ev ∧ sparesPaused s ev = true) {} s) :
    Tracked s := by
  refine h.inv ⟨counted_init, fun tb ho => by cases ho⟩ fun s ev s' hs hok hstep => ?_
  exact step_tracked hs hok.1 hok.2 hstep

/-- After every frame: if the source is not damaged, each thumbnail that wants updates has the one for
    the last content, and the last buffer announced to it as changed is the one that is there. -/
def UpToDate (s : State) : Prop :=
  ∀ tb, s.owner = some tb → tb.wasDamaged = false → ∀ t ∈ tb.thumbnails, t.wantsUpdate = true →
    ∃ b, tb.buffer = some b ∧ t.received = some tb.version ∧ t.announced = some b.id

/-- In every run in which a source is rendered into the same buffer only while no thumbnail is paused
    or the paused ones are forced, no thumbnail misses an update it wants. -/
theorem wanted_updates_arrive (type : ThumbnailType) (width height : ℤ)
    (h : Reach (step type) (fun s ev => plainFrame ev ∧ sparesPaused s ev = true) {} s)
    (hok : sparesPaused s (.frame width height .rendered fun _ => []) = true)
    (hs : step type s (.frame width height .rendered fun _ => []) = some s') : UpToDate s' := by
  have htracked := reach_tracked h
  simp only [step, htracked.counted.no_fault, Bool.false_eq_true, if_false] at hs
  obtain ⟨tb, ho, rfl⟩ := Option.map_eq_some_iff.mp hs
  exact fun tb' ho' => (render_known htracked ho hok tb' ho').2

/-- A thumbnail that is paused while the source grows is told when it goes on. -/
theorem paused_while_growing :
    ∃ s s', Reach (step .view) (fun s ev => plainFrame ev ∧ sparesPaused s ev = true) {} s ∧
      step .view s (.frame 2 2 .rendered fun _ => []) = some s' ∧ UpToDate s' ∧
      s'.owner.map (fun tb => tb.thumbnails.map Thumbnail.received) = some [some 2, some 2] := by
  have hrun : Reach (step .view) (fun s ev => plainFrame ev ∧ sparesPaused s ev = true) {} _ :=
    ((((((Reach.init.next .create ⟨trivial, rfl⟩ rfl).next .create ⟨trivial, rfl⟩ rfl).next
      (.frame 1 1 .rendered fun _ => []) ⟨⟨rfl, fun _ => rfl⟩, rfl⟩ rfl).next
      (.markWantsUpdate 0 false) ⟨trivial, rfl⟩ rfl).next .sourceDamage ⟨trivial, rfl⟩ rfl).next
      (.frame 2 2 .rendered fun _ => []) ⟨⟨rfl, fun _ => rfl⟩, rfl⟩ rfl).next
      (.markWantsUpdate 0 true) ⟨trivial, rfl⟩ rfl
  exact ⟨_, _, hrun, rfl, wanted_updates_arrive .view 2 2 hrun rfl rfl, rfl⟩

/-- Two thumbnails of a source, one of which is paused while the source is damaged and rendered again
    into the same buffer: when it goes on, it is not told. -/
theorem paused_thumbnail_misses_update :
    ¬ ∀ type s s' width height, Reach (step type) (fun _ ev => plainFrame ev) {} s →
      step type s (.frame width height .rendered fun _ => []) = some s' → UpToDate s' := by
  intro h
  have hrun : Reach (step .view) (fun _ ev => plainFrame ev) {} _ :=
    ((((((Reach.init.next .create trivial rfl).next .create trivial rfl).next
      (.frame 1 1 .rendered fun _ => []) ⟨rfl, fun _ => rfl⟩ rfl).next
      (.markWantsUpdate 0 false) trivial rfl).next .sourceDamage trivial rfl).next
      (.frame 1 1 .rendered fun _ => []) ⟨rfl, fun _ => rfl⟩ rfl).next
      (.markWantsUpdate 0 true) trivial rfl
  obtain ⟨b, -, hreceived, -⟩ := h .view _ _ 1 1 hrun rfl _ rfl rfl
    { id := 0, forceUpdate := false, received := some 1, announced := some 0 }
    (List.mem_cons_of_mem _ List.mem_cons_self) rfl
  cases hreceived

end FlakeWm.Thumbnails
