import FlakeWm.Panels.Following

/-! Reserved space belongs to live panels.

    The events of plasma surfaces keep the invariant, except for a resource that is destroyed while its
    panel is shown: `surface_handle_view_unmap` is then called for a view that is mapped, and leaves the
    listener of the freed surface in the list. X11 views keep it as long as they stay at their output
    while they are linked, their strut does not change without them, and they are not linked when they
    are destroyed (`keepsReserved`). -/

namespace FlakeWm.Panels

variable {s s' s₁ : State} {q : PlasmaSurface} {view : View} {o w id p : ℕ}

/-! ### The end of views and surfaces -/

theorem unmapIfMapped_inv (h : Inv s) (hs : unmapIfMapped s w = some s') :
    Inv s' ∧ ∀ view, (s'.surfaces w).view = some view → view.mapped = false := by
  rw [unmapIfMapped] at hs
  split_ifs at hs with hmapped
  · obtain ⟨h', -, hview⟩ := unmapSurface_inv h hs
    exact ⟨h', hview⟩
  · cases hs
    refine ⟨h, fun view hview => ?_⟩
    by_contra hv
    exact hmapped (h.mapped w view hview (by simpa using hv))

theorem Inv.unlinked (h : Inv s) (hview : ∀ view, (s.surfaces w).view = some view → view.mapped = false)
    (hq : q ∈ s.plasma) (hw : q.surface = w) (o : ℕ) : (.plasma q.id, o) ∉ s.links := by
  intro hlink
  obtain ⟨v, hv, hv', -⟩ := h.linked hq hlink
  rw [viewOf_eq_some, hw] at hv
  rw [hview v hv.2] at hv'
  cases hv'

/-- The surfaces of `w`, whose view is not mapped, are changed together with the `wl_surface`. -/
theorem Inv.editSurface {f : PlasmaSurface → PlasmaSurface} {t : WlSurface} (h : Inv s)
    (hf : KeepsPlace f) (hview : ∀ view, (s.surfaces w).view = some view → view.mapped = false)
    (ht : ∀ view, t.view = some view → view.mapped = false)
    (hflags : ∀ q ∈ s.plasma, q.surface = w →
      Flags { s with surfaces := Function.update s.surfaces w t } (f q)) :
    Inv { s with
      surfaces := Function.update s.surfaces w t
      plasma := s.plasma.map fun q => if q.surface = w then f q else q } := by
  set s₁ : State := { s with surfaces := Function.update s.surfaces w t } with hs₁
  have hw₁ : s₁.surfaces w = t := Function.update_self ..
  have hne₁ : ∀ w', w' ≠ w → s₁.surfaces w' = s.surfaces w' := fun w' hw' =>
    Function.update_of_ne hw' ..
  have hunlinked : ∀ p ∈ s.onSurface w fun _ => true, ∀ o, (.plasma p, o) ∉ s₁.links := by
    intro p hp o
    obtain ⟨q, hq, ⟨hw, -⟩, rfl⟩ := mem_onSurface.mp hp
    exact h.unlinked hview hq hw o
  have hedit : SettlesAll (s.onSurface w fun _ => true) f s₁
      (s₁.editAll (s.onSurface w fun _ => true) f) := by
    refine .editAll hf (.inr hunlinked) (fun q hq hin o => ?_) fun p hp o hlink =>
      absurd hlink (hunlinked p hp o)
    refine iff_of_false (hunlinked q.id hin o) ?_
    rw [wants_unmapped]
    · exact (Option.some_ne_none o).symm
    · intro v hv
      have hw := ((id_mem_onSurface h hq).mp hin).1
      have hv := (viewOf_eq_some.mp hv).2
      rw [hf.surface, hw, hw₁] at hv
      exact ht v hv
  have hplasma : (s₁.editAll (s.onSurface w fun _ => true) f) = { s₁ with
      plasma := s.plasma.map fun q => if q.surface = w then f q else q } := by
    rw [State.editAll]
    congr 1
    refine List.map_congr_left fun q hq => ?_
    simp only [id_mem_onSurface h hq, and_true]
  rw [hplasma] at hedit
  refine h.settlesAll s₁ hf rfl rfl rfl rfl rfl rfl ?_ onSurface_there ?_ ?_ hedit
  · intro w' v hv hv'
    by_cases hw : w' = w
    · rw [hw, hw₁] at hv
      rw [ht v hv] at hv'
      cases hv'
    · rw [hne₁ w' hw] at hv ⊢
      exact h.mapped w' v hv hv'
  · intro q hq hnot
    rw [id_mem_onSurface h hq] at hnot
    left
    rw [State.viewOf, State.viewOf, hne₁]
    exact fun hw => hnot ⟨hw, rfl⟩
  · intro q hq
    simp only [id_mem_onSurface h hq, and_true]
    split_ifs with hw
    · exact hflags q hq hw
    · exact (h.flags q hq).congr (by rw [hne₁ _ hw]) (by rw [hne₁ _ hw])

theorem Flags.not_following_of_unmapped (h : Flags s q)
    (hview : ∀ view, (s.surfaces q.surface).view = some view → view.mapped = false) :
    q.following = false := by
  by_contra hf
  obtain ⟨v, hv, hv'⟩ := h.following.mp (by simpa using hf)
  rw [hview v (viewOf_eq_some.mp hv).2] at hv'
  cases hv'

theorem destroySurface_inv (h : Inv s) (hs : destroySurface s w = some s') : Inv s' := by
  rw [destroySurface] at hs
  split_ifs at hs
  obtain ⟨s₁, hs₁, hs⟩ := Option.bind_eq_some_iff.mp hs
  obtain ⟨h₁, hview⟩ := unmapIfMapped_inv h hs₁
  cases hs
  refine h₁.editSurface ⟨fun _ => rfl, fun _ => rfl⟩ hview hview fun q hq hw => ?_
  have hflags := h₁.flags q hq
  have hfollowing := hflags.not_following_of_unmapped (hw.symm ▸ hview)
  refine ⟨fun hatt => ?_, fun hhooked => ⟨(hflags.hooked hhooked).1, rfl⟩, hflags.follows, ?_,
    fun _ _ => .inr ?_⟩
  · simp only [hw, Function.update_self]
    exact hw ▸ hflags.view hatt
  · refine iff_of_false (by simp [hfollowing]) ?_
    rintro ⟨v, hv, hv'⟩
    have hv := (viewOf_eq_some.mp hv).2
    simp only [hw, Function.update_self] at hv
    rw [hview v hv] at hv'
    cases hv'
  · simp only [hw, Function.update_self]

theorem destroyView_inv (h : Inv s) (hs : destroyView s w = some s') : Inv s' := by
  rw [destroyView] at hs
  split_ifs at hs
  obtain ⟨s₁, hs₁, hs⟩ := Option.bind_eq_some_iff.mp hs
  obtain ⟨h₁, hview⟩ := unmapIfMapped_inv h hs₁
  cases hs
  refine h₁.editSurface (t := { s₁.surfaces w with view := none }) ⟨fun _ => rfl, fun _ => rfl⟩ hview
    (fun v hv => by cases hv) fun q hq hw => ?_
  have hfollowing := (h₁.flags q hq).not_following_of_unmapped (hw.symm ▸ hview)
  refine ⟨fun hatt => ?_, fun hhooked => ?_, fun hf => ?_, ?_, fun hatt => ?_⟩
  · cases hatt
  · cases hhooked
  · change q.following = true at hf
    rw [hfollowing] at hf
    cases hf
  · refine iff_of_false (by simp [PlasmaSurface.detach, hfollowing]) ?_
    rintro ⟨v, hv, -⟩
    cases (viewOf_eq_some.mp hv).1
  · cases hatt

theorem newView_inv {geometry : Box} {output : ℕ} (h : Inv s) (hview : (s.surfaces w).view = none) :
    Inv (s.setView w (some { geometry := geometry, output := output })) := by
  refine h.changeUnmapped (fun v hv => ?_) rfl
  rw [hview] at hv
  cases hv

/-! ### Requests -/

theorem plasmaOf_addPlasma (hid : id ≠ s.made) :
    (s.addPlasma w false).plasmaOf id = s.plasmaOf id := by
  rw [State.plasmaOf, State.addPlasma, List.find?_append, State.plasmaOf]
  simp [hid.symm]

/-- A plasma surface that has not looked for its view. -/
theorem Inv.addPlasma (h : Inv s) (w : ℕ) : Inv (s.addPlasma w false) := by
  have hnew : s.made ∉ s.plasma.map (·.id) := by
    intro hmem
    obtain ⟨q, hq, hid⟩ := List.mem_map.mp hmem
    have := h.lt q hq
    omega
  have hplasma : ∀ q ∈ (s.addPlasma w false).plasma,
      q ∈ s.plasma ∨ q = { id := s.made, surface := w } := by
    intro q hq
    rcases List.mem_append.mp hq with hq | hq
    · exact .inl hq
    · exact .inr (List.mem_singleton.mp hq)
  refine ⟨?_, ?_, h.x11Nodup, fun x hx => Nat.lt_succ_of_lt (h.x11Lt x hx), h.mapped, ?_, h.once, ?_, ?_,
    h.x11, ?_⟩
  · simp only [State.addPlasma, List.map_append, List.map_cons, List.map_nil]
    rw [← List.concat_eq_append]
    exact h.nodup.concat hnew
  · intro q hq
    rcases hplasma q hq with hq | rfl
    · exact Nat.lt_succ_of_lt (h.lt q hq)
    · exact Nat.lt_succ_self _
  · intro q hq
    rcases hplasma q hq with hq | rfl
    · exact (h.flags q hq).congr rfl rfl
    · refine ⟨fun hatt => ?_, fun hhooked => ?_, fun hf => ?_, ?_, fun hatt => ?_⟩
      · cases hatt
      · cases hhooked
      · cases hf
      · refine iff_of_false Bool.false_ne_true ?_
        rintro ⟨v, hv, -⟩
        cases (viewOf_eq_some.mp hv).1
      · cases hatt
  · intro q hq o
    rcases hplasma q hq with hq | rfl
    · exact h.plasma q hq o
    · refine iff_of_false (fun hlink => ?_) ?_
      · obtain ⟨q, hq, hid⟩ := h.known _ o hlink
        have hid : q.id = s.made := hid
        exact hnew (hid ▸ List.mem_map_of_mem hq)
      · simp [State.wants, State.viewOf]
  · intro p o hlink
    obtain ⟨q, hq, hid⟩ := h.known p o hlink
    exact ⟨q, List.mem_append_left _ hq, hid⟩
  · intro o
    refine (h.fresh o).congr rfl rfl rfl fun l hl => ?_
    cases l with
    | x11 x => rfl
    | plasma p =>
      obtain ⟨q, hq, rfl⟩ := h.known p o (mem_listeners.mp hl)
      have hne : q.id ≠ s.made := Nat.ne_of_lt (h.lt q hq)
      simp only [State.listenerArea, plasmaOf_addPlasma hne]
      rfl

/-- One plasma surface is changed, and its listener put where it belongs. -/
theorem Inv.settleOne {f : PlasmaSurface → PlasmaSurface} (h : Inv s) (hf : KeepsPlace f)
    (hq : q ∈ s.plasma) (hflags : Flags s (f q)) (hs : SettlesAll [q.id] f s s') : Inv s' := by
  refine h.settlesAll s hf rfl rfl rfl rfl rfl rfl h.mapped (fun p hp => ?_) (fun _ _ _ => .inl rfl) ?_
    hs
  · rw [List.mem_singleton.mp hp]
    exact List.mem_map_of_mem hq
  · intro q' hq'
    split_ifs with hin
    · cases List.inj_on_of_nodup_map h.nodup hq' hq (List.mem_singleton.mp hin)
      exact hflags
    · exact h.flags q' hq'

/-- The first look for the view, in `handle_get_surface`. -/
def attach (found : Bool) (q : PlasmaSurface) : PlasmaSurface := { q with attached := found }

theorem keepsPlace_attach (found : Bool) : KeepsPlace (attach found) :=
  ⟨fun _ => rfl, fun _ => rfl⟩

theorem addPlasma_eq (hlt : ∀ q ∈ s.plasma, q.id < s.made) (found : Bool) :
    (s.addPlasma w false).editPlasma s.made (attach found) = s.addPlasma w found := by
  have hkept : s.plasma.map (fun q => if q.id = s.made then attach found q else q) = s.plasma := by
    refine (List.map_congr_left fun q hq => ?_).trans (List.map_id _)
    exact if_neg (Nat.ne_of_lt (hlt q hq))
  rw [State.editPlasma, State.addPlasma, State.addPlasma]
  congr 1
  rw [List.map_append, hkept]
  simp [attach]

theorem handleGetSurface_inv (h : Inv s) (hs : handleGetSurface s w = some s') : Inv s' := by
  have h₀ := h.addPlasma w
  have hedit := addPlasma_eq (w := w) h.lt (s.surfaces w).view.isSome
  set s₀ := s.addPlasma w false with hs₀
  set q₀ : PlasmaSurface := { id := s.made, surface := w } with hq₀
  have hmem : q₀ ∈ s₀.plasma := List.mem_append_right _ (List.mem_singleton_self _)
  have hf := keepsPlace_attach (s.surfaces w).view.isSome
  have hunlinked : ∀ o, (.plasma q₀.id, o) ∉ s₀.links := by
    intro o hlink
    obtain ⟨v, hv, -⟩ := h₀.linked hmem hlink
    cases (viewOf_eq_some.mp hv).1
  have hfound : ∀ view, s₀.viewOf (attach (s.surfaces w).view.isSome q₀) = some view →
      (s.surfaces w).view = some view := fun view hview => (viewOf_eq_some.mp hview).2
  have hmem₁ := mem_edit (f := attach (s.surfaces w).view.isSome) hmem
  rw [handleGetSurface, ← hedit] at hs
  by_cases hmapped : ∃ view, (s.surfaces w).view = some view ∧ view.mapped = true
  · obtain ⟨view, hview, hmapped⟩ := hmapped
    have hsettles : SettlesAll [q₀.id] (fun q => { (attach true q).hook with following := true }) s₀
        s' := by
      rw [hview] at hs hmem₁
      rw [h.mapped w view hview hmapped, if_pos rfl] at hs
      split_ifs at hs
      refine SettlesAll.edit_before (g := fun q => { q.hook with following := true })
        (keepsPlace_attach true) (.inr hunlinked) ?_
      exact handleMap_settles (q := attach true q₀) (nodup_edit (keepsPlace_attach true) h₀.nodup)
        hmem₁ hview hmapped hunlinked hs
    refine h₀.settleOne (f := fun q => { (attach true q).hook with following := true })
      ⟨fun _ => rfl, fun _ => rfl⟩ hmem ?_ hsettles
    refine ⟨fun _ => ?_, fun _ => ⟨rfl, rfl⟩, fun _ => rfl, ?_, fun _ hfalse => by cases hfalse⟩
    · change (s.surfaces w).view ≠ none
      rw [hview]
      exact Option.some_ne_none view
    · exact iff_of_true rfl ⟨view, hview, hmapped⟩
  · have hunmapped : ∀ view, (s.surfaces w).view = some view → view.mapped = false := by
      intro view hview
      by_contra hv
      exact hmapped ⟨view, hview, by simpa using hv⟩
    have hwants : s₀.wants (attach (s.surfaces w).view.isSome q₀) = none :=
      wants_unmapped fun v hv => hunmapped v (hfound v hv)
    split_ifs at hs
    · refine h₀.settleOne (f := fun q => early (s.surfaces w).view (attach (s.surfaces w).view.isSome q))
        ⟨fun q => (keepsPlace_early _).id _, fun q => (keepsPlace_early _).surface _⟩ hmem ?_ ?_
      · cases hview : (s.surfaces w).view with
        | none => exact (h₀.flags q₀ hmem).detached rfl false
        | some view =>
          refine ⟨fun _ => ?_, fun _ => ⟨rfl, rfl⟩, fun _ => rfl, ?_, fun _ hfalse => by cases hfalse⟩
          · change (s.surfaces w).view ≠ none
            rw [hview]
            exact Option.some_ne_none view
          · refine iff_of_false Bool.false_ne_true ?_
            rintro ⟨v, hv, hv'⟩
            have hv : (s.surfaces w).view = some v := (viewOf_eq_some.mp hv).2
            rw [hunmapped v hv] at hv'
            cases hv'
      · refine SettlesAll.edit_before hf (.inr hunlinked) ?_
        exact handleMap_early (q := attach (s.surfaces w).view.isSome q₀)
          (nodup_edit hf h₀.nodup) hmem₁ hunmapped hunlinked hs
    · cases hs
      refine h₀.settleOne hf hmem ?_ (.edit hf h₀.nodup hmem hunlinked hwants)
      refine ⟨fun hatt => ?_, fun hhooked => (by cases hhooked), fun hf => (by cases hf), ?_,
        fun _ _ => .inl rfl⟩
      · exact Option.isSome_iff_ne_none.mp hatt
      · refine iff_of_false Bool.false_ne_true ?_
        rintro ⟨v, hv, hv'⟩
        rw [hunmapped v (hfound v hv)] at hv'
        cases hv'

theorem handleSetRole_inv {role : Role} (h : Inv s) (hs : handleSetRole s id role = some s') :
    Inv s' := by
  obtain ⟨q, hfind, hs⟩ := Option.bind_eq_some_iff.mp hs
  obtain ⟨hq, rfl⟩ := mem_of_plasmaOf hfind
  split_ifs at hs
  · cases hs
    exact h
  have hflags := h.flags q hq
  set f : PlasmaSurface → PlasmaSurface := fun q' =>
    { q' with role := role,
              roleChanged := (q.roleChanged || decide (q.role ≠ role)) && !q'.attached } with hf
  have hplace : KeepsPlace f := ⟨fun _ => rfl, fun _ => rfl⟩
  refine h.settleOne (f := f) hplace hq
    ⟨hflags.view, hflags.hooked, hflags.follows, hflags.following, hflags.waits⟩ ?_
  dsimp only at hs
  split_ifs at hs with hset
  · simp only [Bool.and_eq_true] at hset
    obtain ⟨view, hview⟩ := Option.ne_none_iff_exists'.mp (hflags.view hset.1)
    have hviewOf : s.viewOf q = some view := viewOf_eq_some.mpr ⟨hset.1, hview⟩
    refine .edit_before (g := fun q => q) hplace (.inl fun _ => rfl) ?_
    refine setUsableArea_settles (q := f q) (nodup_edit hplace h.nodup) (mem_edit hq) hviewOf
      (fun o ho => ?_) hs
    obtain ⟨v, hv, -, hout⟩ := h.linked hq ho
    rw [hviewOf, Option.some.injEq] at hv
    rw [hv, hout]
  · cases hs
    -- without a view there is no area, and an attached surface keeps its role
    have hwants : s.wants (f q) = s.wants q := by
      simp only [Bool.and_eq_true, not_and, Bool.or_eq_true, not_or, decide_eq_true_eq,
        not_not] at hset
      cases hatt : q.attached with
      | false => simp [State.wants, State.viewOf, hf, hatt]
      | true =>
        have hrole := (hset hatt).2
        simp only [State.wants, State.viewOf, hf, PlasmaSurface.hasArea, hrole]
    rw [editPlasma_eq]
    refine .editAll hplace (.inl fun _ => rfl) (fun q' hq' hmem o => ?_) fun p _ o _ => h.fresh o
    cases List.inj_on_of_nodup_map h.nodup hq' hq (List.mem_singleton.mp hmem)
    rw [hwants]
    exact h.plasma q hq o

/-- A plasma surface that is not linked goes away. -/
theorem Inv.removePlasma (h : Inv s) (hunlinked : ∀ o, (.plasma p, o) ∉ s.links) :
    Inv { s with plasma := s.plasma.filter fun q => q.id ≠ p } := by
  have hmem : ∀ q, q ∈ s.plasma.filter (fun q => q.id ≠ p) ↔ q ∈ s.plasma ∧ q.id ≠ p := by
    intro q
    simp
  refine ⟨h.nodup.sublist (List.filter_sublist.map _), fun q hq => h.lt q ((hmem q).mp hq).1,
    h.x11Nodup, h.x11Lt, h.mapped, fun q hq => (h.flags q ((hmem q).mp hq).1).congr rfl rfl, h.once,
    fun q hq => h.plasma q ((hmem q).mp hq).1, fun p' o hlink => ?_, h.x11, fun o => ?_⟩
  · obtain ⟨q, hq, rfl⟩ := h.known p' o hlink
    refine ⟨q, (hmem q).mpr ⟨hq, ?_⟩, rfl⟩
    rintro rfl
    exact hunlinked o hlink
  · refine (h.fresh o).congr rfl rfl rfl fun l hl => ?_
    cases l with
    | x11 x => rfl
    | plasma p' =>
      have hne : p' ≠ p := by
        rintro rfl
        exact hunlinked o (mem_listeners.mp hl)
      have hof : State.plasmaOf { s with plasma := s.plasma.filter fun q => q.id ≠ p } p' =
          s.plasmaOf p' := by
        simp only [State.plasmaOf, List.find?_filter]
        congr 1
        funext q
        by_cases hq : q.id = p'
        · simp [hq, hne]
        · simp [hq]
      simp only [State.listenerArea, hof]
      rfl

/-- A resource that has no area leaves its view, and nothing else changes. -/
theorem leaveView_eq (h : Inv s) (hq : q ∈ s.plasma)
    (harea : ∀ view, s.viewOf q = some view → q.hasArea view = false)
    (hs : leaveView s q.id (s.viewOf q) = some s') :
    s' = s ∨ s' = s.editPlasma q.id fun q => { q with following := false } := by
  cases hview : s.viewOf q with
  | none =>
    rw [hview] at hs
    cases hs
    exact .inl rfl
  | some view =>
    simp only [hview, leaveView] at hs
    split_ifs at hs with hmapped
    · right
      rw [surfaceHandleViewUnmap, plasmaOf_of_mem h.nodup hq, Option.bind_eq_bind,
        Option.bind_some] at hs
      split_ifs at hs
      set f : PlasmaSurface → PlasmaSurface := fun q => { q with following := false } with hf
      have hof : (s.editPlasma q.id f).plasmaOf q.id = some (f q) :=
        plasmaOf_of_mem (q := f q) (nodup_edit ⟨fun _ => rfl, fun _ => rfl⟩ h.nodup) (mem_edit hq)
      have hview' : (s.editPlasma q.id f).viewOf (f q) = some view := hview
      have hno : (f q).hasArea view = false := harea view hview
      have hhad : (s.editPlasma q.id f).hadArea (.plasma q.id) = false := by
        by_contra hhad
        rw [Bool.not_eq_false, hadArea_iff] at hhad
        obtain ⟨o, ho⟩ := hhad
        obtain ⟨v, hv, hv', -⟩ := wants_eq_some.mp ((h.plasma q hq o).mp ho)
        rw [harea v hv] at hv'
        cases hv'
      rw [kdePlasmaSurfaceSetUsableArea, hof, Option.bind_eq_bind, Option.bind_some, hview',
        Option.bind_eq_bind, Option.bind_some, hno, State.setListener, if_pos rfl,
        State.dropListener, if_neg (by simp [hhad]), Option.some.injEq] at hs
      exact hs.symm
    · cases hs
      exact .inl rfl

theorem destroyResource_inv (h : Inv s)
    (hno : ∀ q view, s.plasmaOf id = some q → s.viewOf q = some view → q.hasArea view = false)
    (hs : kdePlasmaSurfaceHandleResourceDestroy s id = some s') : Inv s' := by
  obtain ⟨q, hq, hs⟩ := Option.bind_eq_some_iff.mp hs
  obtain ⟨s₁, hs₁, hs⟩ := Option.bind_eq_some_iff.mp hs
  have harea : ∀ view, s.viewOf q = some view → q.hasArea view = false := fun view =>
    hno q view hq
  obtain ⟨hmem, rfl⟩ := mem_of_plasmaOf hq
  have hunlinked : ∀ o, (.plasma q.id, o) ∉ s.links := by
    intro o ho
    obtain ⟨v, hv, hv', -⟩ := wants_eq_some.mp ((h.plasma q hmem o).mp ho)
    rw [harea v hv] at hv'
    cases hv'
  have hremoved := h.removePlasma hunlinked
  cases hs
  rcases leaveView_eq h hmem harea hs₁ with rfl | rfl
  · exact hremoved
  · have hsame : (s.editPlasma q.id fun q => { q with following := false }).plasma.filter
        (fun q' => q'.id ≠ q.id) = s.plasma.filter fun q' => q'.id ≠ q.id := by
      rw [State.editPlasma, List.filter_map]
      have hid : ∀ q' : PlasmaSurface,
          (if q'.id = q.id then { q' with following := false } else q').id = q'.id := by
        intro q'
        split_ifs <;> rfl
      simp only [Function.comp_def, hid]
      refine (List.map_congr_left fun q' hq' => ?_).trans (List.map_id _)
      exact if_neg (by simpa using (List.mem_filter.mp hq').2)
    rw [hsame]
    exact hremoved

/-! ### X11 views -/

section x11

variable {f : X11View → X11View} {x : X11View}

theorem x11Of_of_mem (h : (s.x11.map (·.id)).Nodup) (hx : x ∈ s.x11) : s.x11Of x.id = some x := by
  rw [State.x11Of]
  cases hfind : s.x11.find? fun x' => x'.id = x.id with
  | none =>
    have := List.find?_eq_none.mp hfind x hx
    simp at this
  | some x' =>
    have hid : x'.id = x.id := by simpa using List.find?_some hfind
    rw [List.inj_on_of_nodup_map h (List.mem_of_find?_eq_some hfind) hx hid]

theorem mem_of_x11Of (h : s.x11Of id = some x) : x ∈ s.x11 ∧ x.id = id :=
  ⟨List.mem_of_find?_eq_some h, by simpa using List.find?_some h⟩

/-- Only the X11 views and their listeners change. -/
theorem Inv.ofX11 (h : Inv s) (hplasma : s'.plasma = s.plasma) (hsurfaces : s'.surfaces = s.surfaces)
    (hmade : s.made ≤ s'.made)
    (hlinks : ∀ p o, (.plasma p, o) ∈ s'.links ↔ (.plasma p, o) ∈ s.links)
    (honce : (s'.links.map (·.1)).Nodup) (hnodup : (s'.x11.map (·.id)).Nodup)
    (hlt : ∀ x ∈ s'.x11, x.id < s'.made)
    (hx11 : ∀ x o, (.x11 x, o) ∈ s'.links →
      ∃ v ∈ s'.x11, v.id = x ∧ v.output = o ∧ v.hasArea = true)
    (hfresh : ∀ o, Fresh s' o) : Inv s' := by
  refine ⟨hplasma ▸ h.nodup, fun q hq => ?_, hnodup, hlt, hsurfaces ▸ h.mapped, fun q hq => ?_, honce,
    fun q hq o => ?_, fun p o hlink => ?_, hx11, hfresh⟩
  · rw [hplasma] at hq
    exact lt_of_lt_of_le (h.lt q hq) hmade
  · rw [hplasma] at hq
    exact (h.flags q hq).congr (by rw [hsurfaces]) (by rw [hsurfaces])
  · rw [hplasma] at hq
    rw [hlinks, h.plasma q hq o, State.wants, State.wants, State.viewOf, State.viewOf, hsurfaces]
  · rw [hplasma]
    exact h.known p o ((hlinks p o).mp hlink)

theorem map_ids_x11 (hf : ∀ x, (f x).id = x.id) (l : List X11View) :
    (l.map fun x => if x.id = id then f x else x).map (·.id) = l.map (·.id) := by
  rw [List.map_map]
  refine List.map_congr_left fun x _ => ?_
  simp only [Function.comp_apply]
  split_ifs
  · exact hf x
  · rfl

/-- The areas of the other listeners stay when an X11 view changes. -/
theorem listenerArea_editX11 {l : Listener} (hf : ∀ x, (f x).id = x.id)
    (hkeep : l ≠ .x11 id ∨
      ∀ x ∈ s.x11, x.id = id → (f x).output = x.output ∧ (f x).strut = x.strut) :
    (s.editX11 id f).listenerArea l = s.listenerArea l := by
  cases l with
  | plasma p => rfl
  | x11 p =>
    have hid : ∀ x : X11View, (if x.id = id then f x else x).id = x.id := by
      intro x
      split_ifs
      · exact hf x
      · rfl
    simp only [State.listenerArea, State.x11Of, State.editX11, List.find?_map, Function.comp_def, hid]
    cases hfind : s.x11.find? fun x => x.id = p with
    | none => rfl
    | some x =>
      simp only [Option.map_some, Option.bind_eq_bind, Option.bind_some]
      obtain ⟨hx, rfl⟩ := mem_of_x11Of (s := s) hfind
      split_ifs with hxid
      · rcases hkeep with hne | hsame
        · exact absurd (congrArg Listener.x11 hxid) hne
        · rw [(hsame x hx hxid).1, (hsame x hx hxid).2]
      · rfl

/-- An X11 view that is not linked, or keeps its output and its strut, changes. -/
theorem Inv.editX11 (h : Inv s) (hf : ∀ x, (f x).id = x.id)
    (hkeep : (∀ o, (.x11 id, o) ∉ s.links) ∨
      ∀ x ∈ s.x11, x.id = id → (f x).output = x.output ∧ (f x).strut = x.strut) :
    Inv (s.editX11 id f) := by
  refine h.ofX11 rfl rfl le_rfl (fun _ _ => Iff.rfl) h.once ?_ ?_ ?_ fun o => ?_
  · rw [State.editX11, map_ids_x11 hf]
    exact h.x11Nodup
  · intro x hx
    obtain ⟨x₀, hx₀, rfl⟩ := List.mem_map.mp hx
    split_ifs
    · rw [hf]
      exact h.x11Lt x₀ hx₀
    · exact h.x11Lt x₀ hx₀
  · intro x o hlink
    obtain ⟨v, hv, rfl, rfl, harea⟩ := h.x11 x o hlink
    refine ⟨_, List.mem_map_of_mem hv, ?_⟩
    split_ifs with hid
    · rcases hkeep with hunlinked | hsame
      · exact absurd (hid ▸ hlink) (hunlinked v.output)
      · refine ⟨hf v, (hsame v hv hid).1, ?_⟩
        rw [X11View.hasArea, (hsame v hv hid).2]
        exact harea
    · exact ⟨rfl, rfl, harea⟩
  · refine (h.fresh o).congr rfl rfl rfl fun l hl => listenerArea_editX11 hf ?_
    refine hkeep.imp_left fun hunlinked => ?_
    rintro rfl
    exact hunlinked o (mem_listeners.mp hl)

/-- An X11 view that is not linked, or keeps its output, changes, and its listener is put where it
    belongs. -/
theorem Inv.settleX11 (h : Inv s) (hf : ∀ x, (f x).id = x.id) (hx : x ∈ s.x11)
    (hkeep : (∀ o, (.x11 x.id, o) ∉ s.links) ∨ (f x).output = x.output)
    (hs : xwaylandViewSetStrutPartial (s.editX11 x.id f) x.id = some s') : Inv s' := by
  have hnodup : ((s.editX11 x.id f).x11.map (·.id)).Nodup := by
    rw [State.editX11, map_ids_x11 hf]
    exact h.x11Nodup
  have hx₁ : f x ∈ (s.editX11 x.id f).x11 := List.mem_map.mpr ⟨x, hx, if_pos rfl⟩
  have hof : (s.editX11 x.id f).x11Of x.id = some (f x) := by
    rw [← hf x]
    exact x11Of_of_mem (by rw [hf x]; exact hnodup) (by rw [hf x]; exact hx₁)
  rw [xwaylandViewSetStrutPartial, hof, Option.bind_eq_bind, Option.bind_some] at hs
  have hat : ∀ o, (.x11 x.id, o) ∈ s.links → o = (f x).output := by
    intro o ho
    obtain ⟨v, hv, hid, rfl, -⟩ := h.x11 x.id o ho
    cases List.inj_on_of_nodup_map h.x11Nodup hv hx hid
    exact (hkeep.resolve_left fun hnone => hnone _ ho).symm
  obtain ⟨hsettles, hown⟩ := setListener_spec (s := s.editX11 x.id f) hat hs
  refine h.ofX11 hsettles.same.plasma hsettles.same.surfaces hsettles.same.made.ge
    (fun p o => hsettles.others _ Listener.noConfusion o) (hsettles.once h.once)
    (hsettles.same.x11 ▸ hnodup) ?_ ?_ fun o => hsettles.fresh o ?_
  · intro v hv
    rw [hsettles.same.x11] at hv
    rw [hsettles.same.made]
    obtain ⟨v₀, hv₀, rfl⟩ := List.mem_map.mp hv
    split_ifs
    · rw [hf]
      exact h.x11Lt v₀ hv₀
    · exact h.x11Lt v₀ hv₀
  · intro p o hlink
    rw [hsettles.same.x11]
    by_cases hp : p = x.id
    · subst hp
      obtain ⟨harea, rfl⟩ := (hown o).mp hlink
      exact ⟨f x, hx₁, hf x, rfl, harea⟩
    · have hlink := (hsettles.others _ (fun heq => hp (Listener.x11.inj heq)) o).mp hlink
      obtain ⟨v, hv, rfl, hv'⟩ := h.x11 p o hlink
      exact ⟨v, List.mem_map.mpr ⟨v, hv, if_neg hp⟩, rfl, hv'⟩
  · by_cases hlink : (.x11 x.id, o) ∈ s.links
    · exact .inr hlink
    · refine .inl ((h.fresh o).congr rfl rfl rfl fun l hl => listenerArea_editX11 hf (.inl ?_))
      rintro rfl
      exact hlink (mem_listeners.mp hl)

theorem x11_unlinked_or {P : Prop} (hcond : s.hadArea (.x11 id) = false ∨ P) :
    (∀ o, (.x11 id, o) ∉ s.links) ∨ P := by
  refine hcond.imp_left fun hhad o ho => ?_
  rw [← Bool.not_eq_true, hadArea_iff] at hhad
  exact hhad ⟨o, ho⟩

theorem newX11_inv (h : Inv s) (output : ℕ) :
    Inv { s with x11 := s.x11 ++ [{ id := s.made, output := output }], made := s.made + 1 } := by
  refine h.ofX11 rfl rfl (Nat.le_succ _) (fun _ _ => Iff.rfl) h.once ?_ ?_ ?_ fun o => ?_
  · simp only [List.map_append, List.map_cons, List.map_nil]
    rw [← List.concat_eq_append]
    refine h.x11Nodup.concat fun hmem => ?_
    obtain ⟨x, hx, hid⟩ := List.mem_map.mp hmem
    exact absurd (h.x11Lt x hx) (by omega)
  · intro x hx
    rcases List.mem_append.mp hx with hx | hx
    · exact Nat.lt_succ_of_lt (h.x11Lt x hx)
    · rw [List.mem_singleton.mp hx]
      exact Nat.lt_succ_self _
  · intro x o hlink
    obtain ⟨v, hv, hv'⟩ := h.x11 x o hlink
    exact ⟨v, List.mem_append_left _ hv, hv'⟩
  · refine (h.fresh o).congr rfl rfl rfl fun l hl => ?_
    cases l with
    | plasma p => rfl
    | x11 p =>
      obtain ⟨v, hv, rfl, -⟩ := h.x11 p o (mem_listeners.mp hl)
      have hne : s.made ≠ v.id := (Nat.ne_of_lt (h.x11Lt v hv)).symm
      simp only [State.listenerArea, State.x11Of, List.find?_append]
      simp [hne]

theorem destroyX11_inv (h : Inv s) (hunlinked : ∀ o, (.x11 id, o) ∉ s.links) :
    Inv (xwaylandViewHandleDestroy s id) := by
  have hlinks : (xwaylandViewHandleDestroy s id).links = s.links := by
    refine List.filter_eq_self.mpr fun e he => ?_
    have hne : e.1 ≠ .x11 id := fun heq => hunlinked e.2 (heq ▸ he)
    simpa using hne
  refine h.ofX11 rfl rfl le_rfl (fun p o => by rw [hlinks]) (hlinks ▸ h.once)
    (h.x11Nodup.sublist (List.filter_sublist.map _))
    (fun x hx => h.x11Lt x (List.mem_filter.mp hx).1) ?_ fun o => ?_
  · intro x o hlink
    rw [hlinks] at hlink
    obtain ⟨v, hv, rfl, hv'⟩ := h.x11 x o hlink
    refine ⟨v, List.mem_filter.mpr ⟨hv, ?_⟩, rfl, hv'⟩
    simp only [ne_eq, decide_not, Bool.not_eq_eq_eq_not, Bool.not_true, decide_eq_false_iff_not]
    rintro rfl
    exact hunlinked o hlink
  · refine (h.fresh o).congr rfl (by rw [State.listeners, hlinks]; rfl) rfl fun l hl => ?_
    cases l with
    | plasma p => rfl
    | x11 p =>
      have hne : p ≠ id := by
        rintro rfl
        exact hunlinked o (mem_listeners.mp hl)
      have hof : (xwaylandViewHandleDestroy s id).x11Of p = s.x11Of p := by
        simp only [State.x11Of, xwaylandViewHandleDestroy, List.find?_filter]
        congr 1
        funext x
        by_cases hx : x.id = p
        · simp [hx, hne]
        · simp [hx]
      simp only [State.listenerArea, hof]
      rfl

end x11

/-! ### Runs -/

/-- The space reserved at the outputs belongs to live panels. -/
structure Reserved (s : State) : Prop where
  plasma : ∀ p o, (.plasma p, o) ∈ s.links ↔ ∃ q, s.plasmaOf p = some q ∧
    ∃ view, s.viewOf q = some view ∧ view.mapped = true ∧ view.minimized = false ∧
      view.output = o ∧ q.role = .panel
  x11 : ∀ p o, (.x11 p, o) ∈ s.links → ∃ x, s.x11Of p = some x ∧ x.output = o ∧ x.hasArea = true
  usable : ∀ o, s.doUpdateUsableArea o = some (s.usable o)

theorem Inv.reserved (h : Inv s) : Reserved s := by
  refine ⟨fun p o => ⟨fun hlink => ?_, ?_⟩, fun p o hlink => ?_, h.fresh⟩
  · obtain ⟨q, hq, rfl⟩ := h.known p o hlink
    obtain ⟨view, hview, harea, hout⟩ := wants_eq_some.mp ((h.plasma q hq o).mp hlink)
    simp only [PlasmaSurface.hasArea, Bool.and_eq_true, Bool.not_eq_true', decide_eq_true_eq] at harea
    exact ⟨q, plasmaOf_of_mem h.nodup hq, view, hview, harea.1.1, harea.1.2, hout, harea.2⟩
  · rintro ⟨q, hof, view, hview, hmapped, hminimized, hout, hrole⟩
    obtain ⟨hq, rfl⟩ := mem_of_plasmaOf hof
    refine (h.plasma q hq o).mpr (wants_eq_some.mpr ⟨view, hview, ?_, hout⟩)
    simp [PlasmaSurface.hasArea, hmapped, hminimized, hrole]
  · obtain ⟨x, hx, rfl, hout, harea⟩ := h.x11 p o hlink
    exact ⟨x, x11Of_of_mem h.x11Nodup hx, hout, harea⟩

/-- No resource is destroyed while its panel is shown; no X11 view that is linked changes its output,
    gets a strut while it is unmapped, or is destroyed. -/
def keepsReserved (s : State) : Event → Bool
  | .destroyResource id => (s.plasmaOf id).all fun q => (s.viewOf q).all fun view => !q.hasArea view
  | .mapX11 id output => !s.hadArea (.x11 id) || (s.x11Of id).all fun x => decide (x.output = output)
  | .moveX11 id output => !s.hadArea (.x11 id) || (s.x11Of id).all fun x => decide (x.output = output)
  | .setStrut id _ => !s.hadArea (.x11 id) || (s.x11Of id).all fun x => x.mapped
  | .destroyX11 id => !s.hadArea (.x11 id)
  | _ => true

theorem x11_all {P : X11View → Bool} (hnodup : (s.x11.map (·.id)).Nodup)
    (h : (s.x11Of id).all P = true) : ∀ x ∈ s.x11, x.id = id → P x = true := by
  rintro x hx rfl
  rw [x11Of_of_mem hnodup hx] at h
  exact h

theorem step_inv {ev : Event} (h : Inv s) (hok : keepsReserved s ev = true)
    (hs : step s ev = some s') : Inv s' := by
  cases ev with
  | newView w output geometry =>
    simp only [step] at hs
    split_ifs at hs with hguard
    cases hs
    exact newView_inv h hguard.2.2
  | map w geometry output => exact mapSurface_inv h hs
  | unmap w =>
    simp only [step] at hs
    split_ifs at hs
    exact (unmapSurface_inv h hs).1
  | minimize w minimized => exact minimizeView_inv h hs
  | move w geometry output => exact moveView_inv h hs
  | destroyView w => exact destroyView_inv h hs
  | destroySurface w => exact destroySurface_inv h hs
  | getSurface w => exact handleGetSurface_inv h hs
  | setRole id role => exact handleSetRole_inv h hs
  | destroyResource id =>
    refine destroyResource_inv h (fun q view hq hview => ?_) hs
    simpa [keepsReserved, hq, hview] using hok
  | newX11 output =>
    cases hs
    exact newX11_inv h output
  | mapX11 id output =>
    obtain ⟨x, hof, hs⟩ := Option.bind_eq_some_iff.mp hs
    obtain ⟨hx, rfl⟩ := mem_of_x11Of hof
    dsimp only at hs
    split_ifs at hs
    simp only [keepsReserved, Bool.or_eq_true, Bool.not_eq_true', hof, Option.all_some,
      decide_eq_true_eq] at hok
    exact h.settleX11 (f := fun x => { x with mapped := true, output := output }) (fun _ => rfl) hx
      (x11_unlinked_or (hok.imp_right Eq.symm)) hs
  | unmapX11 id =>
    cases hs
    exact h.editX11 (fun _ => rfl) (.inr fun _ _ _ => ⟨rfl, rfl⟩)
  | moveX11 id output =>
    cases hs
    simp only [keepsReserved, Bool.or_eq_true, Bool.not_eq_true'] at hok
    refine h.editX11 (fun _ => rfl) ((x11_unlinked_or hok).imp_right fun hsame x hx hid => ?_)
    have := x11_all h.x11Nodup hsame x hx hid
    exact ⟨(decide_eq_true_eq.mp this).symm, rfl⟩
  | setStrut id strut =>
    obtain ⟨x, hof, hs⟩ := Option.bind_eq_some_iff.mp hs
    obtain ⟨hx, rfl⟩ := mem_of_x11Of hof
    dsimp only at hs
    split_ifs at hs with hmapped
    · exact h.settleX11 (f := fun x => { x with strut := strut }) (fun _ => rfl) hx (.inr rfl) hs
    · cases hs
      simp only [keepsReserved, Bool.or_eq_true, Bool.not_eq_true', hof, Option.all_some] at hok
      exact h.editX11 (fun _ => rfl) (x11_unlinked_or (.inl (hok.resolve_right hmapped)))
  | destroyX11 id =>
    cases hs
    simp only [keepsReserved, Bool.not_eq_true'] at hok
    exact destroyX11_inv h ((x11_unlinked_or (.inl hok)).resolve_right not_false)

theorem start_inv (geometry : ℕ → Box) : Inv (start geometry) := by
  refine ⟨List.nodup_nil, fun q hq => ?_, List.nodup_nil, fun x hx => ?_, fun w view hview => ?_,
    fun q hq => ?_, List.nodup_nil, fun q hq => ?_, fun p o hlink => ?_, fun x o hlink => ?_,
    fun o => rfl⟩
  · exact absurd hq List.not_mem_nil
  · exact absurd hx List.not_mem_nil
  · cases hview
  · exact absurd hq List.not_mem_nil
  · exact absurd hq List.not_mem_nil
  · exact absurd hlink List.not_mem_nil
  · exact absurd hlink List.not_mem_nil

end FlakeWm.Panels
