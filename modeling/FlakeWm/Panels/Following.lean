import FlakeWm.Panels.Signals

/-! Plasma surfaces follow their views.

    Between events, a plasma surface is linked exactly where its view reserves space, an X11 view only
    where it has a strut, and the usable areas are current (`Inv`). What happens to a view keeps this:
    the plasma surfaces on it are told, and those that have not found it yet are not linked. -/

namespace FlakeWm.Panels

variable {s s' s₁ : State} {q : PlasmaSurface} {view : View} {o w id p : ℕ} {ps : List ℕ}
  {f : PlasmaSurface → PlasmaSurface}

/-- The listeners of a plasma surface fit the state of its view. -/
structure Flags (s : State) (q : PlasmaSurface) : Prop where
  view : q.attached = true → (s.surfaces q.surface).view ≠ none
  hooked : q.hooked = true → q.attached = true ∧ q.waiting = false
  follows : q.following = true → q.hooked = true
  following : q.following = true ↔ ∃ view, s.viewOf q = some view ∧ view.mapped = true
  waits : q.attached = true → q.hooked = false →
    q.waiting = true ∨ (s.surfaces q.surface).alive = false

structure Inv (s : State) : Prop where
  nodup : (s.plasma.map (·.id)).Nodup
  lt : ∀ q ∈ s.plasma, q.id < s.made
  x11Nodup : (s.x11.map (·.id)).Nodup
  x11Lt : ∀ x ∈ s.x11, x.id < s.made
  mapped : ∀ w view, (s.surfaces w).view = some view → view.mapped = true →
    (s.surfaces w).mapped = true
  flags : ∀ q ∈ s.plasma, Flags s q
  once : (s.links.map (·.1)).Nodup
  plasma : ∀ q ∈ s.plasma, ∀ o, (.plasma q.id, o) ∈ s.links ↔ s.wants q = some o
  known : ∀ p o, (.plasma p, o) ∈ s.links → ∃ q ∈ s.plasma, q.id = p
  x11 : ∀ x o, (.x11 x, o) ∈ s.links →
    ∃ v ∈ s.x11, v.id = x ∧ v.output = o ∧ v.hasArea = true
  fresh : ∀ o, Fresh s o

theorem wants_eq_some : s.wants q = some o ↔
    ∃ view, s.viewOf q = some view ∧ q.hasArea view = true ∧ view.output = o := by
  simp only [State.wants, Option.bind_eq_some_iff, Option.ite_none_right_eq_some, Option.some.injEq]

theorem viewOf_eq_some : s.viewOf q = some view ↔
    q.attached = true ∧ (s.surfaces q.surface).view = some view := by
  simp [State.viewOf]

theorem hasArea_mapped (h : q.hasArea view = true) : view.mapped = true := by
  simp only [PlasmaSurface.hasArea, Bool.and_eq_true] at h
  exact h.1.1

/-- A view changes, and the plasma surfaces `ps` are handled: the others want what they wanted. -/
theorem Inv.settlesAll (h : Inv s) (s₁ : State) (hf : KeepsPlace f)
    (hgeo : s₁.geometry = s.geometry) (husable : s₁.usable = s.usable) (hlinks : s₁.links = s.links)
    (hplasma : s₁.plasma = s.plasma) (hx11 : s₁.x11 = s.x11) (hmade : s₁.made = s.made)
    (hmapped : ∀ w view, (s₁.surfaces w).view = some view → view.mapped = true →
      (s₁.surfaces w).mapped = true)
    (hthere : ∀ p ∈ ps, p ∈ s.plasma.map (·.id))
    (hcover : ∀ q ∈ s.plasma, q.id ∉ ps →
      s₁.viewOf q = s.viewOf q ∨ s₁.wants q = none ∧ s.wants q = none)
    (hflags : ∀ q ∈ s.plasma, Flags s₁ (if q.id ∈ ps then f q else q))
    (hs : SettlesAll ps f s₁ s') : Inv s' := by
  have hids : s'.plasma.map (·.id) = s.plasma.map (·.id) := by
    rw [hs.plasma, map_ids hf.id, hplasma]
  have hother : ∀ q ∈ s.plasma, q.id ∉ ps → s₁.wants q = s.wants q := by
    intro q hq hps
    rcases hcover q hq hps with heq | ⟨h₁, h₂⟩
    · rw [State.wants, State.wants, heq]
    · rw [h₁, h₂]
  refine ⟨hids ▸ h.nodup, ?_, ?_, ?_, ?_, ?_, ?_, ?_, ?_, ?_, ?_⟩
  · intro q hq
    have hmem : q.id ∈ s.plasma.map (·.id) := hids ▸ List.mem_map_of_mem hq
    obtain ⟨q₀, hq₀, heq⟩ := List.mem_map.mp hmem
    rw [hs.made, hmade, ← heq]
    exact h.lt q₀ hq₀
  · rw [hs.x11, hx11]
    exact h.x11Nodup
  · rw [hs.x11, hx11, hs.made, hmade]
    exact h.x11Lt
  · rw [hs.surfaces]
    exact hmapped
  · intro q hq
    rw [hs.plasma, hplasma] at hq
    obtain ⟨q₀, hq₀, rfl⟩ := List.mem_map.mp hq
    have hq := hflags q₀ hq₀
    refine ⟨?_, hq.hooked, hq.follows, ?_, ?_⟩
    · rw [hs.surfaces]
      exact hq.view
    · rw [State.viewOf, hs.surfaces]
      exact hq.following
    · rw [hs.surfaces]
      exact hq.waits
  · exact hs.once (hlinks.symm ▸ h.once)
  · intro q hq o
    by_cases hps : q.id ∈ ps
    · exact hs.own q hq hps o
    · rw [hs.plasma, hplasma] at hq
      obtain ⟨q₀, hq₀, hmap⟩ := List.mem_map.mp hq
      have hq' : q₀ = q := by
        split_ifs at hmap with hin
        · rw [← hmap, hf.id] at hps
          exact absurd hin hps
        · exact hmap
      subst hq'
      rw [hs.others _ (plasma_ne hps), hlinks,
        h.plasma q₀ hq₀ o, ← hother q₀ hq₀ hps, State.wants, State.wants, State.viewOf,
        State.viewOf, hs.surfaces]
  · intro p o hlink
    have hmem : p ∈ s.plasma.map (·.id) := by
      by_cases hps : p ∈ ps
      · exact hthere p hps
      · rw [hs.others _ (plasma_ne hps), hlinks] at hlink
        obtain ⟨q, hq, rfl⟩ := h.known p o hlink
        exact List.mem_map_of_mem hq
    rw [← hids] at hmem
    exact List.mem_map.mp hmem
  · intro x o hlink
    rw [hs.others _ (fun p _ => Listener.noConfusion), hlinks] at hlink
    rw [hs.x11, hx11]
    exact h.x11 x o hlink
  · intro o
    refine hs.fresh o ?_
    by_cases hany : ∃ p ∈ ps, (Listener.plasma p, o) ∈ s₁.links
    · exact .inr hany
    · refine .inl ((h.fresh o).congr hgeo ?_ (congrFun husable o) ?_)
      · rw [State.listeners, hlinks]
        rfl
      · intro l hl
        cases l with
        | x11 x => simp only [State.listenerArea, State.x11Of, hgeo, hx11]
        | plasma p =>
          have hlink := mem_listeners.mp hl
          obtain ⟨q, hq, rfl⟩ := h.known p o hlink
          have hps : q.id ∉ ps := fun hps => hany ⟨q.id, hps, hlinks.symm ▸ hlink⟩
          have hwants := (h.plasma q hq o).mp hlink
          have hview : s₁.viewOf q = s.viewOf q := by
            refine (hcover q hq hps).resolve_right fun hnone => ?_
            rw [hnone.2] at hwants
            cases hwants
          have hof : s₁.plasmaOf q.id = s.plasmaOf q.id := by rw [State.plasmaOf, hplasma]; rfl
          simp only [State.listenerArea, hof, plasmaOf_of_mem h.nodup hq, Option.bind_eq_bind,
            Option.bind_some, hview, hgeo]

/-! ### Signals of a view -/

section views

variable {view' : View} {g : PlasmaSurface → Bool} {old : ℕ}

theorem mem_onSurface : p ∈ s.onSurface w g ↔
    ∃ q ∈ s.plasma, (q.surface = w ∧ g q = true) ∧ q.id = p := by
  simp [State.onSurface, and_assoc]

theorem id_mem_onSurface (h : Inv s) (hq : q ∈ s.plasma) :
    q.id ∈ s.onSurface w g ↔ q.surface = w ∧ g q = true := by
  rw [mem_onSurface]
  constructor
  · rintro ⟨q', hq', hg, hid⟩
    cases List.inj_on_of_nodup_map h.nodup hq' hq hid
    exact hg
  · intro hg
    exact ⟨q, hq, hg, rfl⟩

theorem onSurface_nodup (h : Inv s) (w : ℕ) (g : PlasmaSurface → Bool) :
    (s.onSurface w g).Nodup :=
  h.nodup.sublist (List.filter_sublist.map _)

theorem onSurface_there : ∀ p ∈ s.onSurface w g, p ∈ s.plasma.map (·.id) := by
  intro p hp
  obtain ⟨q, hq, -, hid⟩ := mem_onSurface.mp hp
  exact hid ▸ List.mem_map_of_mem hq

/-- Surfaces on a view that is not mapped are not linked. -/
theorem Inv.linked (h : Inv s) (hq : q ∈ s.plasma) (hlink : (.plasma q.id, o) ∈ s.links) :
    ∃ view, s.viewOf q = some view ∧ view.mapped = true ∧ view.output = o := by
  obtain ⟨view, hview, harea, hout⟩ := wants_eq_some.mp ((h.plasma q hq o).mp hlink)
  exact ⟨view, hview, hasArea_mapped harea, hout⟩

/-- The surfaces of `w` that meet `g` can be handled, after a change of the view. -/
theorem Inv.ready {L : ℕ → Prop} (h : Inv s) (s₁ : State) (hplasma : s₁.plasma = s.plasma)
    (hlinks : s₁.links = s.links)
    (hold : ∀ view, (s.surfaces w).view = some view → view.mapped = true → L view.output) :
    ∀ p ∈ s₁.onSurface w g, Ready s₁.surfaces (fun q => q.surface = w ∧ g q = true ∧ q ∈ s.plasma) L
      s₁ p := by
  intro p hp
  obtain ⟨q, hq, ⟨hw, hgq⟩, rfl⟩ := mem_onSurface.mp hp
  refine ⟨rfl, hplasma ▸ h.nodup, ⟨q, hq, rfl, hw, hgq, hplasma ▸ hq⟩, fun o ho => ?_⟩
  rw [hplasma] at hq
  rw [hlinks] at ho
  obtain ⟨view, hview, hmapped, rfl⟩ := h.linked hq ho
  rw [viewOf_eq_some, hw] at hview
  exact hold view hview.2 hmapped

@[simp] theorem setView_surfaces_self (v : Option View) :
    (s.setView w v).surfaces w = { s.surfaces w with view := v } :=
  Function.update_self ..

theorem setView_surfaces_of_ne {w' : ℕ} (hne : w' ≠ w) (v : Option View) :
    (s.setView w v).surfaces w' = s.surfaces w' :=
  Function.update_of_ne hne ..

theorem setView_alive {w' : ℕ} (v : Option View) :
    ((s.setView w v).surfaces w').alive = (s.surfaces w').alive := by
  by_cases hw : w' = w
  · rw [hw, setView_surfaces_self]
  · rw [setView_surfaces_of_ne hw]

theorem viewOf_setView_of_ne (hne : q.surface ≠ w) (v : Option View) :
    (s.setView w v).viewOf q = s.viewOf q := by
  rw [State.viewOf, State.viewOf, setView_surfaces_of_ne hne]

theorem viewOf_setView_self (hw : q.surface = w) (hattached : q.attached = true) (v : Option View) :
    (s.setView w v).viewOf q = v := by
  rw [State.viewOf, if_pos hattached, hw, setView_surfaces_self]

theorem viewOf_detached (hattached : q.attached = false) : s.viewOf q = none := by
  simp [State.viewOf, hattached]

theorem Flags.congr (h : Flags s q)
    (hview : (s'.surfaces q.surface).view = (s.surfaces q.surface).view)
    (halive : (s'.surfaces q.surface).alive = (s.surfaces q.surface).alive) : Flags s' q := by
  refine ⟨?_, h.hooked, h.follows, ?_, ?_⟩
  · rw [hview]
    exact h.view
  · rw [State.viewOf, hview]
    exact h.following
  · rw [halive]
    exact h.waits

/-- The view changes, and is mapped or not as before. -/
theorem Flags.stay (h : Flags s q) (hview : (s.surfaces q.surface).view = some view)
    (hview' : (s'.surfaces q.surface).view = some view') (hmapped : view.mapped = view'.mapped)
    (halive : (s'.surfaces q.surface).alive = (s.surfaces q.surface).alive) : Flags s' q := by
  refine ⟨fun _ => ?_, h.hooked, h.follows, ?_, ?_⟩
  · rw [hview']
    exact Option.some_ne_none view'
  · rw [h.following]
    simp [viewOf_eq_some, hview, hview', hmapped]
  · rw [halive]
    exact h.waits

/-- A change of a mapped view that all followers are told about. -/
theorem Inv.changeView (h : Inv s) (view' : View) (hview : (s.surfaces w).view = some view)
    (hmapped : view.mapped = true) (hmapped' : view'.mapped = true)
    {handler : State → ℕ → Option State}
    (hhandler : ∀ s₁ s' q, (s₁.plasma.map (·.id)).Nodup → q ∈ s₁.plasma → s₁.viewOf q = some view' →
      (∀ o, (.plasma q.id, o) ∈ s₁.links → o = view.output) → handler s₁ q.id = some s' →
        SettlesAll [q.id] (fun q => q) s₁ s')
    (hs : ((s.setView w (some view')).onSurface w fun q => q.following).foldlM handler
      (s.setView w (some view')) = some s') :
    Inv s' ∧ s'.surfaces = (s.setView w (some view')).surfaces := by
  have hready := h.ready (g := fun q => q.following) (L := (· = view.output))
    (s.setView w (some view')) rfl rfl fun v hv _ => by
      rw [hview, Option.some.injEq] at hv
      exact hv ▸ rfl
  have hsettles := foldlM_settlesAll (f := fun q => q) (fun _ => rfl) ?_ _
    (onSurface_nodup (s := s) h w _) hready hs
  · refine ⟨h.settlesAll (s.setView w (some view')) ⟨fun _ => rfl, fun _ => rfl⟩ rfl rfl rfl rfl rfl
      rfl ?_ (onSurface_there (s := s)) ?_ ?_ hsettles, hsettles.surfaces⟩
    · intro w' v hv hv'
      by_cases hw : w' = w
      · subst hw
        rw [setView_surfaces_self]
        exact h.mapped w' view hview hmapped
      · rw [setView_surfaces_of_ne hw] at hv ⊢
        exact h.mapped w' v hv hv'
    · intro q hq hnot
      rw [id_mem_onSurface h hq] at hnot
      left
      by_cases hw : q.surface = w
      · cases hatt : q.attached with
        | false => rw [viewOf_detached hatt, viewOf_detached hatt]
        | true =>
          refine absurd ⟨hw, (h.flags q hq).following.mpr ⟨view, ?_, hmapped⟩⟩ hnot
          rw [viewOf_eq_some, hw]
          exact ⟨hatt, hview⟩
      · exact viewOf_setView_of_ne hw _
    · intro q hq
      rw [ite_self]
      by_cases hw : q.surface = w
      · exact (h.flags q hq).stay (by rw [hw, hview]) (by rw [hw, setView_surfaces_self])
          (hmapped.trans hmapped'.symm) (setView_alive _)
      · exact (h.flags q hq).congr (by rw [setView_surfaces_of_ne hw]) (setView_alive _)
  · rintro s₁ p s₂ ⟨hsurfaces, hnodup, ⟨q, hq, rfl, hw, hfollowing, hmem⟩, hlinked⟩ hstep
    refine hhandler s₁ s₂ q hnodup hq ?_ hlinked hstep
    obtain ⟨v, hv, -⟩ := (h.flags q hmem).following.mp hfollowing
    rw [viewOf_eq_some, hsurfaces, hw, setView_surfaces_self]
    exact ⟨(viewOf_eq_some.mp hv).1, rfl⟩

theorem wants_unmapped (h : ∀ v, s.viewOf q = some v → v.mapped = false) : s.wants q = none := by
  rw [State.wants, Option.bind_eq_none_iff]
  intro v hv
  simp [PlasmaSurface.hasArea, h v hv]

/-- A surface that does not follow its view has no mapped view. -/
theorem Flags.unmapped (h : Flags s q) (hq : q.following = false) :
    ∀ v, s.viewOf q = some v → v.mapped = false := by
  intro v hv
  by_contra hmapped
  have := h.following.mpr ⟨v, hv, by simpa using hmapped⟩
  rw [hq] at this
  cases this

theorem Flags.not_following (h : Flags s q) (hq : ¬ q.hooked = true) : q.following = false := by
  cases hf : q.following with
  | false => rfl
  | true => exact absurd (h.follows hf) hq

/-- A surface that leaves the listeners of a mapped view, whose view is no longer mapped. -/
theorem Flags.leave (h : Flags s q) (hview : (s'.surfaces q.surface).view = some view)
    (hmapped : view.mapped = false)
    (halive : (s'.surfaces q.surface).alive = (s.surfaces q.surface).alive) :
    Flags s' { q with following := false } := by
  refine ⟨fun _ => ?_, h.hooked, fun hfalse => ?_, ?_, ?_⟩
  · rw [hview]
    exact Option.some_ne_none view
  · cases hfalse
  · refine ⟨fun hfalse => (by cases hfalse), ?_⟩
    rintro ⟨v, hv, hv'⟩
    obtain ⟨-, hv⟩ := viewOf_eq_some.mp hv
    rw [hview, Option.some.injEq] at hv
    rw [← hv, hmapped] at hv'
    cases hv'
  · rw [halive]
    exact h.waits

/-- The view of a `wl_surface` changes while it is not mapped. -/
theorem Inv.changeUnmapped (h : Inv s)
    (hold : ∀ view, (s.surfaces w).view = some view → view.mapped = false)
    (hnew : view'.mapped = false) : Inv (s.setView w (some view')) := by
  refine h.settlesAll (s.setView w (some view')) (f := fun q => q)
    ⟨fun _ => rfl, fun _ => rfl⟩ rfl rfl rfl rfl rfl rfl ?_ (fun p hp => absurd hp List.not_mem_nil)
    ?_ ?_ (.nil _ _)
  · intro w' v hv hv'
    by_cases hw : w' = w
    · subst hw
      rw [setView_surfaces_self, Option.some.injEq] at hv
      rw [← hv, hnew] at hv'
      cases hv'
    · rw [setView_surfaces_of_ne hw] at hv ⊢
      exact h.mapped w' v hv hv'
  · intro q hq _
    by_cases hw : q.surface = w
    · right
      refine ⟨wants_unmapped fun v hv => ?_, wants_unmapped fun v hv => ?_⟩
      · rw [viewOf_eq_some, hw, setView_surfaces_self, Option.some.injEq] at hv
        exact hv.2 ▸ hnew
      · rw [viewOf_eq_some, hw] at hv
        exact hold v hv.2
    · exact .inl (viewOf_setView_of_ne hw _)
  · intro q hq
    rw [if_neg List.not_mem_nil]
    by_cases hw : q.surface = w
    · have hfollowing : q.following = false := by
        by_contra hf
        obtain ⟨v, hv, hv'⟩ := (h.flags q hq).following.mp (by simpa using hf)
        rw [viewOf_eq_some, hw] at hv
        rw [hold v hv.2] at hv'
        cases hv'
      have hleft : Flags (s.setView w (some view')) { q with following := false } :=
        (h.flags q hq).leave (by rw [hw, setView_surfaces_self]) hnew (setView_alive _)
      rwa [← hfollowing] at hleft
    · exact (h.flags q hq).congr (by rw [setView_surfaces_of_ne hw]) (setView_alive _)

theorem minimizeView_inv {minimized : Bool} (h : Inv s) (hs : minimizeView s w minimized = some s') :
    Inv s' := by
  obtain ⟨view, hview, hs⟩ := Option.bind_eq_some_iff.mp hs
  split_ifs at hs with hsame hmapped
  · cases hs
    exact h
  · refine (h.changeView { view with minimized := minimized } hview hmapped hmapped ?_ hs).1
    exact fun s₁ s' q hnodup hq hq' hat hstep => setUsableArea_settles hnodup hq hq' hat hstep
  · cases hs
    refine h.changeUnmapped (fun v hv => ?_) (by simpa using hmapped)
    rw [hview, Option.some.injEq] at hv
    simpa [← hv] using hmapped

theorem setView_self (hview : (s.surfaces w).view = some view) : s.setView w (some view) = s := by
  rw [State.setView, ← hview]
  exact congrArg (fun surfaces => { s with surfaces := surfaces }) (Function.update_eq_self w _)

/-- `position` or `size` of a mapped view, at the output its followers are linked at. -/
theorem Inv.moved (h : Inv s) (view' : View) (hview : (s.surfaces w).view = some view)
    (hmapped : view.mapped = true) (hmapped' : view'.mapped = true)
    (hout : view'.output = view.output)
    (hs : ((s.setView w (some view')).onSurface w fun q => q.following).foldlM
      kdePlasmaSurfaceSetUsableArea (s.setView w (some view')) = some s') : Inv s' := by
  refine (h.changeView view' hview hmapped hmapped' ?_ hs).1
  intro s₁ s' q hnodup hq hq' hat hstep
  refine setUsableArea_settles hnodup hq hq' (fun o ho => ?_) hstep
  exact (hat o ho).trans hout.symm

theorem moveView_inv {geometry : Box} {output : ℕ} (h : Inv s)
    (hs : moveView s w geometry output = some s') : Inv s' := by
  obtain ⟨view, hview, hs⟩ := Option.bind_eq_some_iff.mp hs
  by_cases hmapped : view.mapped = false
  · rw [if_pos hmapped] at hs
    cases hs
    refine h.changeUnmapped (fun v hv => ?_) hmapped
    rw [hview, Option.some.injEq] at hv
    exact hv ▸ hmapped
  rw [if_neg hmapped] at hs
  have hmapped : view.mapped = true := by simpa using hmapped
  obtain ⟨s₁, hs₁, hs⟩ := Option.bind_eq_some_iff.mp hs
  rw [emitOutput] at hs₁
  by_cases hout : view.output = output
  · rw [if_pos hout] at hs₁
    cases hs₁
    split_ifs at hs with hgeo
    · cases hs
      have hsame : { view with geometry := geometry, output := output } = view := by
        rw [← hout, ← hgeo]
      rw [hsame, setView_self hview]
      exact h
    · exact h.moved { view with geometry := geometry, output := output } hview hmapped hmapped
        hout.symm hs
  · rw [if_neg hout] at hs₁
    obtain ⟨h₁, hsurfaces⟩ :=
      h.changeView { view with geometry := geometry, output := output } hview hmapped hmapped
        (fun s₁ s' q hnodup hq hq' hat hstep => handleViewOutput_settles hnodup hq hq' hat hstep) hs₁
    split_ifs at hs with hgeo
    · cases hs
      exact h₁
    · have hview₁ : (s₁.surfaces w).view =
          some { view with geometry := geometry, output := output } := by
        rw [hsurfaces, setView_surfaces_self]
      rw [← setView_self hview₁] at hs
      exact h₁.moved { view with geometry := geometry, output := output } hview₁ hmapped hmapped rfl hs

/-! ### Mapping and unmapping -/

@[simp] theorem setMapped_surfaces_self (b : Bool) :
    (s.setMapped w b).surfaces w = { s.surfaces w with mapped := b } :=
  Function.update_self ..

theorem setMapped_surfaces_of_ne {w' : ℕ} (hne : w' ≠ w) (b : Bool) :
    (s.setMapped w b).surfaces w' = s.surfaces w' :=
  Function.update_of_ne hne ..

theorem setMapped_view {w' : ℕ} (b : Bool) :
    ((s.setMapped w b).surfaces w').view = (s.surfaces w').view := by
  by_cases hw : w' = w
  · rw [hw, setMapped_surfaces_self]
  · rw [setMapped_surfaces_of_ne hw]

theorem setMapped_alive {w' : ℕ} (b : Bool) :
    ((s.setMapped w b).surfaces w').alive = (s.surfaces w').alive := by
  by_cases hw : w' = w
  · rw [hw, setMapped_surfaces_self]
  · rw [setMapped_surfaces_of_ne hw]

theorem viewOf_setMapped (b : Bool) : (s.setMapped w b).viewOf q = s.viewOf q := by
  rw [State.viewOf, State.viewOf, setMapped_view]

theorem unmapSurface_inv (h : Inv s) (hs : unmapSurface s w = some s') :
    Inv s' ∧ (s'.surfaces w).mapped = false ∧
      ∀ view, (s'.surfaces w).view = some view → view.mapped = false := by
  rw [unmapSurface] at hs
  simp only [setMapped_view] at hs
  cases hview : (s.surfaces w).view with
  | none =>
    simp only [hview, Option.some.injEq] at hs
    subst hs
    refine ⟨?_, ?_, ?_⟩
    · refine h.settlesAll (s.setMapped w false) (f := fun q => q)
        ⟨fun _ => rfl, fun _ => rfl⟩ rfl rfl rfl rfl rfl rfl ?_
        (fun p hp => absurd hp List.not_mem_nil) (fun q _ _ => .inl (viewOf_setMapped false)) ?_
        (.nil _ _)
      · intro w' v hv hv'
        rw [setMapped_view] at hv
        by_cases hw : w' = w
        · rw [hw, hview] at hv
          cases hv
        · rw [setMapped_surfaces_of_ne hw]
          exact h.mapped w' v hv hv'
      · intro q hq
        rw [if_neg List.not_mem_nil]
        exact (h.flags q hq).congr (setMapped_view false) (setMapped_alive false)
    · rw [setMapped_surfaces_self]
    · intro v hv
      rw [setMapped_view, hview] at hv
      cases hv
  | some view =>
    simp only [hview] at hs
    set s₁ := (s.setMapped w false).setView w (some { view with mapped := false }) with hs₁
    have hw₁ : s₁.surfaces w =
        { s.surfaces w with mapped := false, view := some { view with mapped := false } } := by
      rw [hs₁, setView_surfaces_self, setMapped_surfaces_self]
    have hne₁ : ∀ w', w' ≠ w → s₁.surfaces w' = s.surfaces w' := fun w' hw' => by
      rw [hs₁, setView_surfaces_of_ne hw', setMapped_surfaces_of_ne hw']
    have hready := h.ready (g := fun q => q.hooked) (L := (· = view.output)) s₁ rfl rfl
      fun v hv _ => by
        rw [hview, Option.some.injEq] at hv
        exact hv ▸ rfl
    have hsettles := foldlM_settlesAll (f := fun q => { q with following := false }) (fun _ => rfl)
      ?_ _ (onSurface_nodup (s := s) h w _) hready hs
    · refine ⟨?_, ?_, ?_⟩
      · refine h.settlesAll s₁ (f := fun q => { q with following := false })
          ⟨fun _ => rfl, fun _ => rfl⟩ rfl rfl rfl rfl rfl rfl ?_ (onSurface_there (s := s)) ?_ ?_
          hsettles
        · intro w' v hv hv'
          by_cases hw : w' = w
          · rw [hw, hw₁, Option.some.injEq] at hv
            rw [← hv] at hv'
            cases hv'
          · rw [hne₁ w' hw] at hv ⊢
            exact h.mapped w' v hv hv'
        · intro q hq hnot
          rw [id_mem_onSurface h hq] at hnot
          by_cases hw : q.surface = w
          · have hfollowing := (h.flags q hq).not_following fun hhooked => hnot ⟨hw, hhooked⟩
            right
            refine ⟨wants_unmapped fun v hv => ?_, wants_unmapped ((h.flags q hq).unmapped hfollowing)⟩
            rw [viewOf_eq_some, hw, hw₁, Option.some.injEq] at hv
            rw [← hv.2]
          · left
            rw [State.viewOf, State.viewOf, hne₁ _ hw]
        · intro q hq
          by_cases hw : q.surface = w
          · have hleft : Flags s₁ { q with following := false } :=
              (h.flags q hq).leave (by rw [hw, hw₁]) rfl (by rw [hw, hw₁])
            split_ifs with hin
            · exact hleft
            · rw [id_mem_onSurface h hq] at hin
              rwa [← (h.flags q hq).not_following fun hhooked => hin ⟨hw, hhooked⟩] at hleft
          · have hnot : q.id ∉ s.onSurface w fun q => q.hooked := fun hmem =>
              hw ((id_mem_onSurface h hq).mp hmem).1
            rw [if_neg hnot]
            exact (h.flags q hq).congr (by rw [hne₁ _ hw]) (by rw [hne₁ _ hw])
      · rw [hsettles.surfaces, hw₁]
      · intro v hv
        rw [hsettles.surfaces, hw₁, Option.some.injEq] at hv
        rw [← hv]
    · rintro s₂ p s₃ ⟨hsurfaces, hnodup, ⟨q, hq, rfl, hw, hhooked, hmem⟩, hlinked⟩ hstep
      refine handleViewUnmap_settles (v := { view with mapped := false }) hnodup hq ?_ hlinked hstep
      rw [viewOf_eq_some, hsurfaces, hw, hw₁]
      exact ⟨((h.flags q hmem).hooked hhooked).1, rfl⟩

/-- The surface is without a view, as it was. -/
theorem Flags.detached (h : Flags s q) (hq : q.attached = false) (f : Bool) :
    Flags s' { q with waiting := f } := by
  have hhooked : ¬ q.hooked = true := fun hhooked => by
    rw [(h.hooked hhooked).1] at hq
    cases hq
  have hfollowing := h.not_following hhooked
  refine ⟨fun hatt => ?_, fun htrue => absurd htrue hhooked, h.follows, ?_, fun hatt => ?_⟩
  · rw [hq] at hatt
    cases hatt
  · refine iff_of_false (by simp [hfollowing]) ?_
    rintro ⟨v, hv, -⟩
    rw [(viewOf_eq_some.mp hv).1] at hq
    cases hq
  · rw [hq] at hatt
    cases hatt

/-- What `surface_handle_map` does before the view is mapped. -/
def early (view : Option View) (q : PlasmaSurface) : PlasmaSurface :=
  if view.isSome then q.hook else { q with waiting := false }

theorem keepsPlace_early (v : Option View) : KeepsPlace (early v) := by
  refine ⟨fun q => ?_, fun q => ?_⟩ <;>
  · unfold early
    split_ifs <;> rfl

theorem early_waiting (v : Option View) : (early v q).waiting = false := by
  unfold early
  split_ifs <;> rfl

theorem handleMap_early (hnodup : (s.plasma.map (·.id)).Nodup) (hq : q ∈ s.plasma)
    (hview : ∀ view, (s.surfaces q.surface).view = some view → view.mapped = false)
    (hunlinked : ∀ o, (.plasma q.id, o) ∉ s.links) (h : surfaceHandleMap s q.id = some s') :
    SettlesAll [q.id] (early (s.surfaces q.surface).view) s s' := by
  rw [surfaceHandleMap, plasmaOf_of_mem hnodup hq, Option.bind_eq_bind, Option.bind_some] at h
  have hwants : s.wants (early (s.surfaces q.surface).view q) = none := by
    refine wants_unmapped fun v hv => ?_
    refine hview v ?_
    have hv := (viewOf_eq_some.mp hv).2
    rwa [(keepsPlace_early _).surface] at hv
  have hedit := SettlesAll.edit (keepsPlace_early (s.surfaces q.surface).view) hnodup hq hunlinked
    hwants
  cases hv : (s.surfaces q.surface).view with
  | none =>
    simp only [hv, Option.some.injEq] at h
    rw [hv] at hedit
    exact h ▸ hedit
  | some view =>
    simp only [hv, hview view hv, Bool.false_eq_true, if_false, Option.some.injEq] at h
    rw [hv] at hedit
    exact h ▸ hedit

/-- The plasma surfaces that were there before the view find it. -/
theorem mapEarly_inv (h : Inv s) (hunmapped : (s.surfaces w).mapped = false)
    (hs : ((s.setMapped w true).onSurface w fun q => q.waiting && !q.attached).foldlM
      surfaceHandleMap (s.setMapped w true) = some s') :
    Inv s' ∧ s'.surfaces = (s.setMapped w true).surfaces ∧
      ∀ q ∈ s'.plasma, q.surface = w → q.waiting = true → q.attached = true := by
  have hview : ∀ view, (s.surfaces w).view = some view → view.mapped = false := by
    intro view hview
    by_contra hmapped
    have := h.mapped w view hview (by simpa using hmapped)
    rw [hunmapped] at this
    cases this
  have hready := h.ready (g := fun q => q.waiting && !q.attached) (L := fun _ => False)
    (s.setMapped w true) rfl rfl fun v hv hv' => by
      rw [hview v hv] at hv'
      cases hv'
  have hsettles := foldlM_settlesAll (f := early (s.surfaces w).view) (keepsPlace_early _).id ?_ _
    (onSurface_nodup (s := s) h w _) hready hs
  · refine ⟨?_, hsettles.surfaces, ?_⟩
    · refine h.settlesAll (s.setMapped w true) (keepsPlace_early _) rfl rfl rfl rfl rfl rfl ?_
        (onSurface_there (s := s)) (fun q _ _ => .inl (viewOf_setMapped true)) ?_ hsettles
      · intro w' v hv hv'
        rw [setMapped_view] at hv
        by_cases hw : w' = w
        · rw [hw, setMapped_surfaces_self]
        · rw [setMapped_surfaces_of_ne hw]
          exact h.mapped w' v hv hv'
      · intro q hq
        have hflags := h.flags q hq
        split_ifs with hin
        · rw [id_mem_onSurface h hq] at hin
          obtain ⟨hw, hin⟩ := hin
          simp only [Bool.and_eq_true, Bool.not_eq_true'] at hin
          cases hv : (s.surfaces w).view with
          | none => exact hflags.detached hin.2 false
          | some view =>
            have hfollowing : q.following = false := by
              refine hflags.not_following fun hhooked => ?_
              rw [(hflags.hooked hhooked).1] at hin
              cases hin.2
            refine ⟨fun _ => ?_, fun _ => ⟨rfl, rfl⟩, fun _ => rfl, ?_, fun _ hfalse => ?_⟩
            · change ((s.setMapped w true).surfaces q.surface).view ≠ none
              rw [setMapped_view, hw, hv]
              exact Option.some_ne_none view
            · refine iff_of_false (by simp [early, PlasmaSurface.hook, hfollowing]) ?_
              rintro ⟨v, hv', hmapped⟩
              have hv' : ((s.setMapped w true).surfaces q.surface).view = some v :=
                (viewOf_eq_some.mp hv').2
              rw [setMapped_view, hw] at hv'
              rw [hview v hv'] at hmapped
              cases hmapped
            · cases hfalse
        · exact hflags.congr (setMapped_view true) (setMapped_alive true)
    · intro q hq hw hwaiting
      rw [hsettles.plasma] at hq
      obtain ⟨q₀, hq₀, rfl⟩ := List.mem_map.mp hq
      by_cases hin : q₀.id ∈ s.onSurface w fun q => q.waiting && !q.attached
      · rw [if_pos hin, early_waiting] at hwaiting
        cases hwaiting
      · rw [if_neg hin] at hw hwaiting ⊢
        by_contra hattached
        refine hin ((id_mem_onSurface h hq₀).mpr ⟨hw, ?_⟩)
        simpa [hwaiting] using hattached
  · rintro s₂ p s₃ ⟨hsurfaces, hnodup, ⟨q, hq, rfl, hw, hg, hmem⟩, hlinked⟩ hstep
    have hsame : (s₂.surfaces q.surface).view = (s.surfaces w).view := by
      rw [hsurfaces, setMapped_view, hw]
    rw [← hsame]
    exact handleMap_early hnodup hq (hsame ▸ hview) hlinked hstep

/-- What `surface_handle_view_map` or `surface_handle_map` does once the view is mapped. -/
def late (q : PlasmaSurface) : PlasmaSurface :=
  if q.hooked then { q with following := true } else { q.hook with following := true }

theorem keepsPlace_late : KeepsPlace late := by
  refine ⟨fun q => ?_, fun q => ?_⟩ <;>
  · unfold late
    split_ifs <;> rfl

/-- A surface that has a mapped view now. -/
theorem Flags.late (h : Flags s q) (hattached : q.attached = true)
    (hview : (s'.surfaces q.surface).view = some view) (hmapped : view.mapped = true) :
    Flags s' (late q) := by
  have hlate : (Panels.late q).attached = true ∧ (Panels.late q).hooked = true ∧
      (Panels.late q).waiting = false ∧ (Panels.late q).following = true := by
    unfold Panels.late
    split_ifs with hhooked
    · exact ⟨hattached, hhooked, (h.hooked hhooked).2, rfl⟩
    · exact ⟨rfl, rfl, rfl, rfl⟩
  have hsurface := keepsPlace_late.surface q
  refine ⟨fun _ => ?_, fun _ => ⟨hlate.1, hlate.2.2.1⟩, fun _ => hlate.2.1, ?_, fun _ hfalse => ?_⟩
  · rw [hsurface, hview]
    exact Option.some_ne_none view
  · refine iff_of_true hlate.2.2.2 ⟨view, ?_, hmapped⟩
    rw [viewOf_eq_some, hsurface]
    exact ⟨hlate.1, hview⟩
  · rw [hlate.2.1] at hfalse
    cases hfalse

/-- The view is mapped: its followers, and the plasma surfaces that came after it. -/
theorem mapLate_inv {geometry : Box} {output : ℕ} (h : Inv s) (hview : (s.surfaces w).view = some view)
    (hunmapped : view.mapped = false) (hmapped : (s.surfaces w).mapped = true)
    (halive : (s.surfaces w).alive = true)
    (hattached : ∀ q ∈ s.plasma, q.surface = w → q.waiting = true → q.attached = true)
    (hs₁ : viewMap s w geometry output = some s₁)
    (hs : (s₁.onSurface w fun q => q.waiting).foldlM surfaceHandleMap s₁ = some s') : Inv s' := by
  set view' : View := { view with geometry := geometry, output := output, mapped := true }
  set s₀ := s.setView w (some view') with hs₀
  have hw₀ : s₀.surfaces w = { s.surfaces w with view := some view' } := setView_surfaces_self _
  simp only [viewMap, hview] at hs₁
  have hready := h.ready (g := fun q => q.hooked) (L := fun _ => False) s₀ rfl rfl fun v hv hv' => by
    rw [hview, Option.some.injEq] at hv
    rw [← hv, hunmapped] at hv'
    cases hv'
  have hfirst : SettlesAll (s.onSurface w fun q => q.hooked) late s₀ s₁ := by
    have hsettles := foldlM_settlesAll (f := fun q => { q with following := true }) (fun _ => rfl)
      ?_ _ (onSurface_nodup (s := s) h w _) hready hs₁
    · refine hsettles.congr fun q hq hin => ?_
      rw [id_mem_onSurface h hq] at hin
      rw [late, if_pos hin.2]
    · rintro s₂ p s₃ ⟨hsurfaces, hnodup, ⟨q, hq, rfl, hw, hhooked, hmem⟩, hlinked⟩ hstep
      refine handleViewMap_settles (v := view') hnodup hq ?_ (fun o ho => (hlinked o ho).elim) hstep
      rw [viewOf_eq_some, hsurfaces, hw, hw₀]
      exact ⟨((h.flags q hmem).hooked hhooked).1, rfl⟩
  -- the surfaces that still wait are those that were not hooked
  have hwaits : ∀ q ∈ s₁.plasma, q.waiting = true →
      q ∈ s.plasma ∧ q.id ∉ s.onSurface w fun q => q.hooked := by
    intro q hq hwaiting
    rw [hfirst.plasma] at hq
    obtain ⟨q₀, hq₀, hmap⟩ := List.mem_map.mp hq
    by_cases hin : q₀.id ∈ s.onSurface w fun q => q.hooked
    · rw [if_pos hin] at hmap
      have hhooked := ((id_mem_onSurface h hq₀).mp hin).2
      rw [← hmap, late, if_pos hhooked] at hwaiting
      rw [((h.flags q₀ hq₀).hooked hhooked).2] at hwaiting
      cases hwaiting
    · rw [if_neg hin] at hmap
      exact hmap ▸ ⟨hq₀, hin⟩
  have hnodup₁ : (s₁.plasma.map (·.id)).Nodup := by
    rw [hfirst.plasma, map_ids keepsPlace_late.id]
    exact h.nodup
  have hsecond : SettlesAll (s₁.onSurface w fun q => q.waiting) late s₁ s' := by
    have hready : ∀ p ∈ s₁.onSurface w fun q => q.waiting, Ready s₀.surfaces
        (fun q => q.surface = w ∧ q.hooked = false) (fun _ => False) s₁ p := by
      intro p hp
      obtain ⟨q, hq, ⟨hw, hwaiting⟩, rfl⟩ := mem_onSurface.mp hp
      obtain ⟨hmem, hnot⟩ := hwaits q hq hwaiting
      refine ⟨hfirst.surfaces, hnodup₁, ⟨q, hq, rfl, hw, ?_⟩, fun o ho => ?_⟩
      · rw [id_mem_onSurface h hmem] at hnot
        simpa [hw] using hnot
      · rw [hfirst.others _ (plasma_ne hnot)] at ho
        obtain ⟨v, hv, hv', -⟩ := h.linked hmem ho
        rw [viewOf_eq_some, hw, hview, Option.some.injEq] at hv
        rw [← hv.2, hunmapped] at hv'
        cases hv'
    have hsettles := foldlM_settlesAll (f := fun q => { q.hook with following := true })
      (fun _ => rfl) ?_ _ ?_ hready hs
    · refine hsettles.congr fun q hq hin => ?_
      obtain ⟨q', hq', ⟨hw, hwaiting⟩, hid⟩ := mem_onSurface.mp hin
      cases List.inj_on_of_nodup_map hnodup₁ hq' hq hid
      obtain ⟨hmem, hnot⟩ := hwaits q hq hwaiting
      rw [id_mem_onSurface h hmem] at hnot
      rw [late, if_neg fun hhooked => hnot ⟨hw, hhooked⟩]
    · rintro s₂ p s₃ ⟨hsurfaces, hnodup, ⟨q, hq, rfl, hw, -⟩, hlinked⟩ hstep
      refine handleMap_settles (v := view') hnodup hq ?_ rfl hlinked hstep
      rw [hsurfaces, hw, hw₀]
    · exact hnodup₁.sublist (List.filter_sublist.map _)
  have hall := SettlesAll.append keepsPlace_late.id (fun p hp hp' => ?_) hfirst hsecond
  · have hin : ∀ q ∈ s.plasma, q.id ∈ (s.onSurface w fun q => q.hooked) ++
        s₁.onSurface w (fun q => q.waiting) → q.surface = w ∧ q.attached = true := by
      intro q hq hin
      rcases List.mem_append.mp hin with hin | hin
      · obtain ⟨hw, hhooked⟩ := (id_mem_onSurface h hq).mp hin
        exact ⟨hw, ((h.flags q hq).hooked hhooked).1⟩
      · obtain ⟨q', hq', ⟨hw, hwaiting⟩, hid⟩ := mem_onSurface.mp hin
        cases List.inj_on_of_nodup_map h.nodup (hwaits q' hq' hwaiting).1 hq hid
        exact ⟨hw, hattached q hq hw hwaiting⟩
    have hout : ∀ q ∈ s.plasma, q.id ∉ (s.onSurface w fun q => q.hooked) ++
        s₁.onSurface w (fun q => q.waiting) → q.surface = w → q.attached = false := by
      intro q hq hnot hw
      rw [List.mem_append, not_or, id_mem_onSurface h hq] at hnot
      have hhooked : q.hooked = false := by simpa [hw] using hnot.1
      by_contra hatt
      have hwaiting : q.waiting = true := by
        refine ((h.flags q hq).waits (by simpa using hatt) hhooked).resolve_right fun hdead => ?_
        rw [hw, halive] at hdead
        cases hdead
      refine hnot.2 (mem_onSurface.mpr ⟨q, ?_, ⟨hw, hwaiting⟩, rfl⟩)
      rw [hfirst.plasma]
      refine List.mem_map.mpr ⟨q, hq, if_neg ?_⟩
      rw [id_mem_onSurface h hq]
      exact hnot.1
    refine h.settlesAll s₀ keepsPlace_late rfl rfl rfl rfl rfl rfl ?_ ?_ ?_ ?_ hall
    · intro w' v hv hv'
      by_cases hw : w' = w
      · rw [hw, hw₀]
        exact hmapped
      · rw [hs₀, setView_surfaces_of_ne hw] at hv ⊢
        exact h.mapped w' v hv hv'
    · intro p hp
      rcases List.mem_append.mp hp with hp | hp
      · exact onSurface_there p hp
      · obtain ⟨q, hq, ⟨-, hwaiting⟩, rfl⟩ := mem_onSurface.mp hp
        exact List.mem_map_of_mem (hwaits q hq hwaiting).1
    · intro q hq hnot
      left
      by_cases hw : q.surface = w
      · rw [viewOf_detached (hout q hq hnot hw), viewOf_detached (hout q hq hnot hw)]
      · exact viewOf_setView_of_ne hw _
    · intro q hq
      split_ifs with hmem
      · obtain ⟨hw, hatt⟩ := hin q hq hmem
        exact (h.flags q hq).late hatt (by rw [hw, hw₀]) rfl
      · by_cases hw : q.surface = w
        · exact (h.flags q hq).detached (hout q hq hmem hw) q.waiting
        · exact (h.flags q hq).congr (by rw [hs₀, setView_surfaces_of_ne hw]) (setView_alive _)
  · obtain ⟨q, hq, ⟨-, hwaiting⟩, rfl⟩ := mem_onSurface.mp hp'
    exact (hwaits q hq hwaiting).2 hp

theorem mapSurface_inv {geometry : Box} {output : ℕ} (h : Inv s)
    (hs : mapSurface s w geometry output = some s') : Inv s' := by
  rw [mapSurface] at hs
  split_ifs at hs with hguard
  rw [not_or] at hguard
  have halive : (s.surfaces w).alive = true := by simpa using hguard.1
  have hunmapped : (s.surfaces w).mapped = false := by simpa using hguard.2
  obtain ⟨s₁, hs₁, hs⟩ := Option.bind_eq_some_iff.mp hs
  obtain ⟨s₂, hs₂, hs⟩ := Option.bind_eq_some_iff.mp hs
  obtain ⟨h₁, hsurfaces, hattached⟩ := mapEarly_inv h hunmapped hs₁
  have hw₁ : s₁.surfaces w = { s.surfaces w with mapped := true } := by
    rw [hsurfaces, setMapped_surfaces_self]
  cases hview : (s.surfaces w).view with
  | none =>
    have hview₁ : (s₁.surfaces w).view = none := by rw [hw₁, hview]
    simp only [viewMap, hview₁, Option.some.injEq] at hs₂
    subst hs₂
    have hnone : (s₁.onSurface w fun q => q.waiting) = [] := by
      refine List.eq_nil_iff_forall_not_mem.mpr fun p hp => ?_
      obtain ⟨q, hq, ⟨hw, hwaiting⟩, -⟩ := mem_onSurface.mp hp
      refine (h₁.flags q hq).view (hattached q hq hw hwaiting) ?_
      rw [hw, hview₁]
    rw [hnone] at hs
    cases hs
    exact h₁
  | some view =>
    have hview₁ : (s₁.surfaces w).view = some view := by rw [hw₁, hview]
    have hold : view.mapped = false := by
      by_contra hmapped
      have := h.mapped w view hview (by simpa using hmapped)
      rw [hunmapped] at this
      cases this
    exact mapLate_inv h₁ hview₁ hold (by rw [hw₁]) (by rw [hw₁]; exact halive) hattached hs₂ hs

end views

end FlakeWm.Panels
