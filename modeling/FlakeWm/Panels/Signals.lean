import Mathlib.Data.List.Nodup
import FlakeWm.Panels.Providers

/-! What the handlers of the providers do to the lists and the usable areas.

    An update reads the providers that are linked at the output, so an output whose list and whose
    providers did not change keeps a current area (`Fresh`). `setListener` changes one listener and
    updates the output (`Settles`), and a signal of a view does this for all plasma surfaces that
    listen to it (`SettlesAll`): meanwhile the outputs at which some of them are still to be handled
    may be out of date, and no other. -/

namespace FlakeWm.Panels

variable {s s' s₁ : State} {l : Listener} {o output w id : ℕ}

/-- The stored usable area is what an update would compute. -/
def Fresh (s : State) (o : ℕ) : Prop := s.doUpdateUsableArea o = some (s.usable o)

theorem mem_listeners : l ∈ s.listeners o ↔ (l, o) ∈ s.links := by
  simp [State.listeners]

theorem mapM_congr {α β : Type} {f g : α → Option β} : ∀ {l : List α}, (∀ a ∈ l, f a = g a) →
    l.mapM f = l.mapM g
  | [], _ => rfl
  | a :: l, h => by
      rw [List.mapM_cons, List.mapM_cons, h a List.mem_cons_self,
        mapM_congr fun b hb => h b (List.mem_cons_of_mem a hb)]

/-- The area of an output depends on its listeners only. -/
theorem Fresh.congr (h : Fresh s o) (hgeo : s'.geometry = s.geometry)
    (hlist : s'.listeners o = s.listeners o) (husable : s'.usable o = s.usable o)
    (harea : ∀ l ∈ s.listeners o, s'.listenerArea l = s.listenerArea l) : Fresh s' o := by
  rw [Fresh, State.doUpdateUsableArea, hlist, mapM_congr harea, hgeo, husable]
  exact h

/-- Everything but the lists and the usable areas. -/
structure SameProviders (s s' : State) : Prop where
  geometry : s'.geometry = s.geometry
  plasma : s'.plasma = s.plasma
  surfaces : s'.surfaces = s.surfaces
  x11 : s'.x11 = s.x11
  made : s'.made = s.made

theorem SameProviders.area (h : SameProviders s s') : s'.listenerArea = s.listenerArea := by
  funext l
  cases l <;>
    simp only [State.listenerArea, State.plasmaOf, State.viewOf, State.x11Of, h.geometry, h.plasma,
      h.surfaces, h.x11]

/-- One listener is put where it belongs. -/
structure Settles (l : Listener) (s s' : State) : Prop where
  same : SameProviders s s'
  others : ∀ l' ≠ l, ∀ o, (l', o) ∈ s'.links ↔ (l', o) ∈ s.links
  once : (s.links.map (·.1)).Nodup → (s'.links.map (·.1)).Nodup
  fresh : ∀ o, Fresh s o ∨ (l, o) ∈ s.links → Fresh s' o

theorem update_spec (h : s.outputUpdateUsableArea output = some s') :
    SameProviders s s' ∧ s'.links = s.links ∧ Fresh s' output ∧
      ∀ o, o ≠ output → s'.usable o = s.usable o := by
  obtain ⟨box, hbox, rfl⟩ := Option.map_eq_some_iff.mp h
  refine ⟨⟨rfl, rfl, rfl, rfl, rfl⟩, rfl, ?_, fun o ho => Function.update_of_ne ho _ _⟩
  simp only [Fresh, Function.update_self]
  exact hbox

theorem hadArea_iff : s.hadArea l = true ↔ ∃ o, (l, o) ∈ s.links := by
  simp [State.hadArea]

theorem mem_unlink {l' : Listener} : (l', o) ∈ (s.unlink l).links ↔ (l', o) ∈ s.links ∧ l' ≠ l := by
  simp [State.unlink]

theorem listeners_unlink (h : (l, o) ∉ s.links) : (s.unlink l).listeners o = s.listeners o := by
  simp only [State.listeners, State.unlink, List.filter_filter]
  congr 1
  refine List.filter_congr fun e he => ?_
  by_cases ho : e.2 = o
  · have hne : e.1 ≠ l := by
      rintro rfl
      exact h (ho ▸ he)
    simp [ho, hne]
  · simp [ho]

theorem listeners_link (h : o ≠ output) : (s.link l output).listeners o = s.listeners o := by
  simp [State.listeners, State.link, List.filter_append, Ne.symm h]

/-- An update after a change of the list of that output. -/
theorem Settles.of_update (s₁ : State) (hsame : SameProviders s s₁)
    (husable : s₁.usable = s.usable)
    (hothers : ∀ l' ≠ l, ∀ o, (l', o) ∈ s₁.links ↔ (l', o) ∈ s.links)
    (honce : (s.links.map (·.1)).Nodup → (s₁.links.map (·.1)).Nodup)
    (hlist : ∀ o, o ≠ output → s₁.listeners o = s.listeners o)
    (hat : ∀ o, (l, o) ∈ s.links → o = output)
    (h : s₁.outputUpdateUsableArea output = some s') : Settles l s s' := by
  obtain ⟨hsame', hlinks, hfresh, hrest⟩ := update_spec h
  have hsame'' : SameProviders s s' := ⟨hsame'.geometry.trans hsame.geometry,
    hsame'.plasma.trans hsame.plasma, hsame'.surfaces.trans hsame.surfaces,
    hsame'.x11.trans hsame.x11, hsame'.made.trans hsame.made⟩
  refine ⟨hsame'', ?_, ?_, ?_⟩
  · rw [hlinks]
    exact hothers
  · rw [hlinks]
    exact honce
  · intro o ho
    by_cases heq : o = output
    · exact heq ▸ hfresh
    · rcases ho with ho | ho
      · refine ho.congr hsame''.geometry ?_ ?_ fun l _ => by rw [hsame''.area]
        · rw [State.listeners, hlinks]
          exact hlist o heq
        · rw [hrest o heq, husable]
      · exact absurd (hat o ho) heq

/-- A listener is linked at the output of its provider exactly when the provider has an area. -/
theorem setListener_spec {hasArea : Bool} (hat : ∀ o, (l, o) ∈ s.links → o = output)
    (h : s.setListener l hasArea output = some s') :
    Settles l s s' ∧ ∀ o, (l, o) ∈ s'.links ↔ hasArea = true ∧ o = output := by
  have hkeep : SameProviders s s := ⟨rfl, rfl, rfl, rfl, rfl⟩
  rw [State.setListener] at h
  cases hasArea with
  | false =>
    simp only [if_true, Bool.false_eq_true, false_and, iff_false] at h ⊢
    rw [State.dropListener] at h
    split_ifs at h with hhad
    · refine ⟨Settles.of_update (s.unlink l) ⟨rfl, rfl, rfl, rfl, rfl⟩ rfl ?_ ?_ ?_ hat h, ?_⟩
      · intro l' hl' o
        rw [mem_unlink]
        exact and_iff_left hl'
      · exact fun hnodup => hnodup.sublist (List.filter_sublist.map _)
      · exact fun o ho => listeners_unlink fun hmem => ho (hat o hmem)
      · intro o
        rw [(update_spec h).2.1, mem_unlink]
        exact fun hmem => hmem.2 rfl
    · cases h
      have hnone : ∀ o, (l, o) ∉ s.links := fun o hmem => hhad (hadArea_iff.mpr ⟨o, hmem⟩)
      refine ⟨⟨hkeep, fun _ _ _ => Iff.rfl, fun hnodup => hnodup, fun o ho => ?_⟩, hnone⟩
      exact ho.resolve_right (hnone o)
  | true =>
    simp only [Bool.true_eq_false, if_false, true_and] at h ⊢
    split_ifs at h with hhad
    · refine ⟨Settles.of_update s hkeep rfl (fun _ _ _ => Iff.rfl) (fun hnodup => hnodup)
        (fun _ _ => rfl) hat h, fun o => ?_⟩
      rw [(update_spec h).2.1]
      refine ⟨hat o, ?_⟩
      rintro rfl
      obtain ⟨o', ho'⟩ := hadArea_iff.mp hhad
      exact hat o' ho' ▸ ho'
    · have hnone : ∀ o, (l, o) ∉ s.links := fun o hmem => hhad (hadArea_iff.mpr ⟨o, hmem⟩)
      refine ⟨Settles.of_update (s.link l output) ⟨rfl, rfl, rfl, rfl, rfl⟩ rfl ?_ ?_ ?_ hat h, ?_⟩
      · intro l' hl' o
        simp [State.link, hl']
      · intro hnodup
        simp only [State.link, List.map_append, List.map_cons, List.map_nil]
        rw [← List.concat_eq_append]
        refine hnodup.concat fun hmem => ?_
        obtain ⟨e, he, rfl⟩ := List.mem_map.mp hmem
        exact hnone e.2 he
      · exact fun o ho => listeners_link ho
      · intro o
        rw [(update_spec h).2.1]
        simp [State.link, hnone o]

/-! ### Plasma surfaces -/

/-- The output at which the listener of a plasma surface belongs, if any. -/
def State.wants (s : State) (q : PlasmaSurface) : Option ℕ :=
  (s.viewOf q).bind fun view => if q.hasArea view then some view.output else none

/-- The plasma surfaces `ps` are changed by `f`, and their listeners put where they belong. -/
structure SettlesAll (ps : List ℕ) (f : PlasmaSurface → PlasmaSurface) (s s' : State) : Prop where
  geometry : s'.geometry = s.geometry
  surfaces : s'.surfaces = s.surfaces
  x11 : s'.x11 = s.x11
  made : s'.made = s.made
  plasma : s'.plasma = s.plasma.map fun q => if q.id ∈ ps then f q else q
  others : ∀ l, (∀ p ∈ ps, l ≠ .plasma p) → ∀ o, (l, o) ∈ s'.links ↔ (l, o) ∈ s.links
  once : (s.links.map (·.1)).Nodup → (s'.links.map (·.1)).Nodup
  own : ∀ q ∈ s'.plasma, q.id ∈ ps → ∀ o, (.plasma q.id, o) ∈ s'.links ↔ s'.wants q = some o
  fresh : ∀ o, (Fresh s o ∨ ∃ p ∈ ps, (.plasma p, o) ∈ s.links) → Fresh s' o

/-- A plasma surface that a handler can be called for: what `B` says of it, and `L` of the output it
    is linked at. -/
structure Ready (surfaces : ℕ → WlSurface) (B : PlasmaSurface → Prop) (L : ℕ → Prop) (s : State)
    (p : ℕ) : Prop where
  surfaces : s.surfaces = surfaces
  nodup : (s.plasma.map (·.id)).Nodup
  there : ∃ q ∈ s.plasma, q.id = p ∧ B q
  linked : ∀ o, (.plasma p, o) ∈ s.links → L o

theorem plasmaOf_of_mem {q : PlasmaSurface} (h : (s.plasma.map (·.id)).Nodup) (hq : q ∈ s.plasma) :
    s.plasmaOf q.id = some q := by
  rw [State.plasmaOf]
  cases hfind : s.plasma.find? fun q' => q'.id = q.id with
  | none =>
    have := List.find?_eq_none.mp hfind q hq
    simp at this
  | some q' =>
    have hid : q'.id = q.id := by simpa using List.find?_some hfind
    rw [List.inj_on_of_nodup_map h (List.mem_of_find?_eq_some hfind) hq hid]

theorem mem_of_plasmaOf {q : PlasmaSurface} (h : s.plasmaOf id = some q) :
    q ∈ s.plasma ∧ q.id = id :=
  ⟨List.mem_of_find?_eq_some h, by simpa using List.find?_some h⟩

section loops

variable {f : PlasmaSurface → PlasmaSurface} {surfaces : ℕ → WlSurface} {B : PlasmaSurface → Prop}
  {L : ℕ → Prop} {p : ℕ} {ps : List ℕ}

theorem map_ids (hf : ∀ q, (f q).id = q.id) (ps : List ℕ) (l : List PlasmaSurface) :
    (l.map fun q => if q.id ∈ ps then f q else q).map (·.id) = l.map (·.id) := by
  rw [List.map_map]
  refine List.map_congr_left fun q _ => ?_
  simp only [Function.comp_apply]
  split_ifs
  · exact hf q
  · rfl

theorem Ready.keep {p' : ℕ} (hf : ∀ q, (f q).id = q.id) (h : Ready surfaces B L s p')
    (hs : SettlesAll [p] f s s') (hne : p' ≠ p) : Ready surfaces B L s' p' := by
  obtain ⟨q, hq, hid, hB⟩ := h.there
  refine ⟨hs.surfaces.trans h.surfaces, ?_, ⟨q, ?_, hid, hB⟩, fun o ho => ?_⟩
  · rw [hs.plasma, map_ids hf]
    exact h.nodup
  · rw [hs.plasma]
    refine List.mem_map.mpr ⟨q, hq, if_neg ?_⟩
    rw [hid, List.mem_singleton]
    exact hne
  · refine h.linked o ((hs.others _ ?_ o).mp ho)
    intro p₁ hp₁ heq
    rw [List.mem_singleton.mp hp₁] at heq
    exact hne (Listener.plasma.inj heq)

theorem SettlesAll.nil (f : PlasmaSurface → PlasmaSurface) (s : State) : SettlesAll [] f s s where
  geometry := rfl
  surfaces := rfl
  x11 := rfl
  made := rfl
  plasma := by simp
  others := fun _ _ _ => Iff.rfl
  once := fun h => h
  own := fun _ _ h => absurd h List.not_mem_nil
  fresh := by
    rintro o (h | ⟨p, hp, -⟩)
    · exact h
    · exact absurd hp List.not_mem_nil

theorem plasma_ne (hp : p ∉ ps) : ∀ p' ∈ ps, Listener.plasma p ≠ .plasma p' := by
  rintro p' hp' heq
  exact hp (Listener.plasma.inj heq ▸ hp')

theorem SettlesAll.append {qs : List ℕ} (hf : ∀ q, (f q).id = q.id) (hdisjoint : ∀ p ∈ ps, p ∉ qs)
    (h : SettlesAll ps f s s₁) (h' : SettlesAll qs f s₁ s') : SettlesAll (ps ++ qs) f s s' where
  geometry := h'.geometry.trans h.geometry
  surfaces := h'.surfaces.trans h.surfaces
  x11 := h'.x11.trans h.x11
  made := h'.made.trans h.made
  plasma := by
    rw [h'.plasma, h.plasma, List.map_map]
    refine List.map_congr_left fun q _ => ?_
    by_cases hq : q.id ∈ ps
    · simp [hq, hf, hdisjoint q.id hq]
    · simp [hq]
  others := by
    intro l hl o
    rw [h'.others l (fun p hp => hl p (List.mem_append_right ps hp)),
      h.others l (fun p hp => hl p (List.mem_append_left qs hp))]
  once := fun hnodup => h'.once (h.once hnodup)
  own := by
    intro q hq hmem o
    by_cases hqs : q.id ∈ qs
    · exact h'.own q hq hqs o
    · have hps : q.id ∈ ps := (List.mem_append.mp hmem).resolve_right hqs
      have hq₁ : q ∈ s₁.plasma := by
        rw [h'.plasma] at hq
        obtain ⟨q₁, hq₁, hmap⟩ := List.mem_map.mp hq
        split_ifs at hmap with hin
        · rw [← hmap, hf] at hqs
          exact absurd hin hqs
        · exact hmap ▸ hq₁
      have hown := h.own q hq₁ hps o
      rw [h'.others _ (plasma_ne hqs) o, hown, State.wants, State.wants, State.viewOf, State.viewOf,
        h'.surfaces]
  fresh := by
    rintro o (hfresh | ⟨p, hp, hlink⟩)
    · exact h'.fresh o (.inl (h.fresh o (.inl hfresh)))
    · by_cases hps : p ∈ ps
      · exact h'.fresh o (.inl (h.fresh o (.inr ⟨p, hps, hlink⟩)))
      · refine h'.fresh o (.inr ⟨p, (List.mem_append.mp hp).resolve_left hps, ?_⟩)
        exact (h.others _ (plasma_ne hps) o).mpr hlink

theorem SettlesAll.congr {g : PlasmaSurface → PlasmaSurface}
    (hfg : ∀ q ∈ s.plasma, q.id ∈ ps → f q = g q) (h : SettlesAll ps f s s') :
    SettlesAll ps g s s' :=
  { h with
    plasma := by
      rw [h.plasma]
      refine List.map_congr_left fun q hq => ?_
      by_cases hmem : q.id ∈ ps
      · simp [hmem, hfg q hq hmem]
      · simp [hmem] }

/-- A signal calls its handler for each of the surfaces. -/
theorem foldlM_settlesAll {handler : State → ℕ → Option State} (hf : ∀ q, (f q).id = q.id)
    (hstep : ∀ s p s', Ready surfaces B L s p → handler s p = some s' → SettlesAll [p] f s s') :
    ∀ (ps : List ℕ) {s s' : State}, ps.Nodup → (∀ p ∈ ps, Ready surfaces B L s p) →
      ps.foldlM handler s = some s' → SettlesAll ps f s s'
  | [], s, s', _, _, h => by
      cases h
      exact .nil f s
  | p :: ps, s, s', hnodup, hready, h => by
      rw [List.foldlM_cons, Option.bind_eq_bind, Option.bind_eq_some_iff] at h
      obtain ⟨s₁, hp, h⟩ := h
      obtain ⟨hnot, hnodup⟩ := List.nodup_cons.mp hnodup
      have hs := hstep s p s₁ (hready p List.mem_cons_self) hp
      refine SettlesAll.append hf (fun p' hp' => List.mem_singleton.mp hp' ▸ hnot) hs
        (foldlM_settlesAll hf hstep ps hnodup (fun p' hp' => ?_) h)
      refine (hready p' (List.mem_cons_of_mem p hp')).keep hf hs ?_
      rintro rfl
      exact hnot hp'

end loops

/-! ### The handlers of a plasma surface -/

section handlers

variable {f : PlasmaSurface → PlasmaSurface} {q : PlasmaSurface} {v : View} {p old : ℕ}
  {ps : List ℕ}

theorem Settles.settlesAll (h : Settles (.plasma q.id) s s')
    (hnodup : (s.plasma.map (·.id)).Nodup) (hq : q ∈ s.plasma)
    (hown : ∀ o, (.plasma q.id, o) ∈ s'.links ↔ s.wants q = some o) :
    SettlesAll [q.id] (fun q => q) s s' where
  geometry := h.same.geometry
  surfaces := h.same.surfaces
  x11 := h.same.x11
  made := h.same.made
  plasma := by simp [h.same.plasma]
  others := fun l hl o => h.others l (hl q.id (List.mem_singleton_self _)) o
  once := h.once
  own := by
    intro q' hq' hmem o
    rw [h.same.plasma] at hq'
    cases List.inj_on_of_nodup_map hnodup hq' hq (List.mem_singleton.mp hmem)
    rw [hown, State.wants, State.wants, State.viewOf, State.viewOf, h.same.surfaces]
  fresh := by
    rintro o (hfresh | ⟨p, hp, hlink⟩)
    · exact h.fresh o (.inl hfresh)
    · rw [List.mem_singleton.mp hp] at hlink
      exact h.fresh o (.inr hlink)

/-- `kde_plasma_surface_set_usable_area`. -/
theorem setUsableArea_settles (hnodup : (s.plasma.map (·.id)).Nodup) (hq : q ∈ s.plasma)
    (hview : s.viewOf q = some v)
    (hat : ∀ o, (.plasma q.id, o) ∈ s.links → o = v.output)
    (h : kdePlasmaSurfaceSetUsableArea s q.id = some s') :
    SettlesAll [q.id] (fun q => q) s s' := by
  rw [kdePlasmaSurfaceSetUsableArea, plasmaOf_of_mem hnodup hq, Option.bind_eq_bind,
    Option.bind_some, hview, Option.bind_eq_bind, Option.bind_some] at h
  obtain ⟨hsettles, hown⟩ := setListener_spec hat h
  refine hsettles.settlesAll hnodup hq fun o => ?_
  rw [hown, State.wants, hview, Option.bind_some]
  cases q.hasArea v <;> simp [eq_comm]

theorem SettlesAll.after (h : Settles (.plasma p) s s₁) (h' : SettlesAll [p] f s₁ s') :
    SettlesAll [p] f s s' where
  geometry := h'.geometry.trans h.same.geometry
  surfaces := h'.surfaces.trans h.same.surfaces
  x11 := h'.x11.trans h.same.x11
  made := h'.made.trans h.same.made
  plasma := by rw [h'.plasma, h.same.plasma]
  others := fun l hl o => (h'.others l hl o).trans (h.others l (hl p (List.mem_singleton_self _)) o)
  once := fun hnodup => h'.once (h.once hnodup)
  own := h'.own
  fresh := by
    rintro o (hfresh | ⟨p', hp', hlink⟩)
    · exact h'.fresh o (.inl (h.fresh o (.inl hfresh)))
    · rw [List.mem_singleton.mp hp'] at hlink
      exact h'.fresh o (.inl (h.fresh o (.inr hlink)))

/-- `surface_handle_view_output`. -/
theorem handleViewOutput_settles (hnodup : (s.plasma.map (·.id)).Nodup) (hq : q ∈ s.plasma)
    (hview : s.viewOf q = some v) (hat : ∀ o, (.plasma q.id, o) ∈ s.links → o = old)
    (h : surfaceHandleViewOutput old s q.id = some s') :
    SettlesAll [q.id] (fun q => q) s s' := by
  obtain ⟨s₁, hs₁, h⟩ := Option.bind_eq_some_iff.mp h
  have hs₁ : s.setListener (.plasma q.id) false old = some s₁ := by
    rw [State.setListener, if_pos rfl]
    exact hs₁
  obtain ⟨hsettles, hown⟩ := setListener_spec hat hs₁
  refine .after hsettles (setUsableArea_settles (v := v) ?_ ?_ ?_ ?_ h)
  · rw [hsettles.same.plasma]
    exact hnodup
  · rw [hsettles.same.plasma]
    exact hq
  · rw [State.viewOf, hsettles.same.surfaces]
    exact hview
  · intro o ho
    exact absurd ((hown o).mp ho).1 Bool.false_ne_true

/-- Changes of a plasma surface that keep it on its `wl_surface`. -/
structure KeepsPlace (f : PlasmaSurface → PlasmaSurface) : Prop where
  id : ∀ q, (f q).id = q.id
  surface : ∀ q, (f q).surface = q.surface

/-- Some of the plasma surfaces are changed. -/
def State.editAll (s : State) (ps : List ℕ) (f : PlasmaSurface → PlasmaSurface) : State :=
  { s with plasma := s.plasma.map fun q => if q.id ∈ ps then f q else q }

theorem editPlasma_eq : s.editPlasma p f = s.editAll [p] f := by
  simp [State.editPlasma, State.editAll]

theorem plasmaOf_editAll (hf : KeepsPlace f) (id : ℕ) : (s.editAll ps f).plasmaOf id =
    (s.plasmaOf id).map fun q => if q.id ∈ ps then f q else q := by
  have hid : ∀ q : PlasmaSurface, (if q.id ∈ ps then f q else q).id = q.id := by
    intro q
    split_ifs
    · exact hf.id q
    · rfl
  rw [State.plasmaOf, State.editAll, List.find?_map, State.plasmaOf]
  simp only [Function.comp_def, hid]

/-- Plasma surfaces that stay with their v, or are not linked, may change. -/
theorem Fresh.editAll (hf : KeepsPlace f)
    (hkeep : (∀ q, (f q).attached = q.attached) ∨ ∀ p ∈ ps, ∀ o, (.plasma p, o) ∉ s.links)
    (h : Fresh s o) : Fresh (s.editAll ps f) o := by
  refine h.congr rfl rfl rfl fun l hl => ?_
  cases l with
  | x11 id => rfl
  | plasma id =>
    simp only [State.listenerArea, plasmaOf_editAll hf]
    cases hq : s.plasmaOf id with
    | none => rfl
    | some q =>
      simp only [Option.map_some, Option.bind_eq_bind, Option.bind_some]
      by_cases hp : q.id ∈ ps
      · rcases hkeep with hkeep | hunlinked
        · rw [if_pos hp, State.viewOf, hkeep q, hf.surface q]
          rfl
        · rw [← (mem_of_plasmaOf hq).2] at hl
          exact absurd (mem_listeners.mp hl) (hunlinked q.id hp o)
      · rw [if_neg hp]
        rfl

theorem Fresh.edit (hf : KeepsPlace f)
    (hkeep : (∀ q, (f q).attached = q.attached) ∨ ∀ o, (.plasma p, o) ∉ s.links) (h : Fresh s o) :
    Fresh (s.editPlasma p f) o := by
  rw [editPlasma_eq]
  refine h.editAll hf (hkeep.imp_right fun hunlinked p' hp' => ?_)
  rw [List.mem_singleton.mp hp']
  exact hunlinked

theorem nodup_edit (hf : KeepsPlace f) (h : (s.plasma.map (·.id)).Nodup) :
    ((s.editPlasma p f).plasma.map (·.id)).Nodup := by
  have hids := map_ids hf.id [p] s.plasma
  simp only [List.mem_singleton] at hids
  rw [State.editPlasma, hids]
  exact h

theorem mem_edit (hq : q ∈ s.plasma) : f q ∈ (s.editPlasma q.id f).plasma :=
  List.mem_map.mpr ⟨q, hq, if_pos rfl⟩

/-- Surfaces are changed that are linked where they belong then. -/
theorem SettlesAll.editAll (hf : KeepsPlace f)
    (hkeep : (∀ q, (f q).attached = q.attached) ∨ ∀ p ∈ ps, ∀ o, (.plasma p, o) ∉ s.links)
    (hown : ∀ q ∈ s.plasma, q.id ∈ ps → ∀ o, (.plasma q.id, o) ∈ s.links ↔ s.wants (f q) = some o)
    (hfresh : ∀ p ∈ ps, ∀ o, (.plasma p, o) ∈ s.links → Fresh s o) :
    SettlesAll ps f s (s.editAll ps f) where
  geometry := rfl
  surfaces := rfl
  x11 := rfl
  made := rfl
  plasma := rfl
  others := fun _ _ _ => Iff.rfl
  once := fun h => h
  own := by
    intro q hq hmem o
    obtain ⟨q₀, hq₀, hmap⟩ := List.mem_map.mp hq
    split_ifs at hmap with hq₀'
    · rw [← hmap, hf.id]
      exact hown q₀ hq₀ hq₀' o
    · rw [← hmap] at hmem
      exact absurd hmem hq₀'
  fresh := by
    rintro o (ho | ⟨p, hp, hlink⟩)
    · exact ho.editAll hf hkeep
    · exact (hfresh p hp o hlink).editAll hf hkeep

/-- A surface that is not linked is changed, and does not belong in a list then either. -/
theorem SettlesAll.edit (hf : KeepsPlace f) (hnodup : (s.plasma.map (·.id)).Nodup) (hq : q ∈ s.plasma)
    (hunlinked : ∀ o, (.plasma q.id, o) ∉ s.links) (hwants : s.wants (f q) = none) :
    SettlesAll [q.id] f s (s.editPlasma q.id f) := by
  rw [editPlasma_eq]
  refine .editAll hf (.inr fun p hp => ?_) (fun q' hq' hmem o => ?_) fun p hp o hlink => ?_
  · rw [List.mem_singleton.mp hp]
    exact hunlinked
  · cases List.inj_on_of_nodup_map hnodup hq' hq (List.mem_singleton.mp hmem)
    refine iff_of_false (hunlinked o) ?_
    rw [hwants]
    exact (Option.some_ne_none o).symm
  · rw [List.mem_singleton.mp hp] at hlink
    exact absurd hlink (hunlinked o)

/-- A surface is changed and its listener then put where it belongs. -/
theorem SettlesAll.edit_before {g : PlasmaSurface → PlasmaSurface} (hf : KeepsPlace f)
    (hkeep : (∀ q, (f q).attached = q.attached) ∨ ∀ o, (.plasma p, o) ∉ s.links)
    (h : SettlesAll [p] g (s.editPlasma p f) s') : SettlesAll [p] (fun q => g (f q)) s s' where
  geometry := h.geometry
  surfaces := h.surfaces
  x11 := h.x11
  made := h.made
  plasma := by
    rw [h.plasma, State.editPlasma, List.map_map]
    refine List.map_congr_left fun q _ => ?_
    by_cases hq : q.id = p
    · simp [hq, hf.id]
    · simp [hq]
  others := h.others
  once := h.once
  own := h.own
  fresh := by
    rintro o (hfresh | hlink)
    · exact h.fresh o (.inl (hfresh.edit hf hkeep))
    · exact h.fresh o (.inr hlink)

/-- The listener of a surface is put where it belongs, and then the surface changed. -/
theorem SettlesAll.edit_after {g : PlasmaSurface → PlasmaSurface} (hg : ∀ q, (g q).id = q.id)
    (hf : KeepsPlace f) (hattached : ∀ q, (f q).attached = q.attached)
    (hrole : ∀ q, (f q).role = q.role) (h : SettlesAll [p] g s s') :
    SettlesAll [p] (fun q => f (g q)) s (s'.editPlasma p f) where
  geometry := h.geometry
  surfaces := h.surfaces
  x11 := h.x11
  made := h.made
  plasma := by
    rw [State.editPlasma, h.plasma, List.map_map]
    refine List.map_congr_left fun q _ => ?_
    by_cases hq : q.id = p
    · simp [hq, hg]
    · simp [hq]
  others := h.others
  once := h.once
  own := by
    intro q hq hmem o
    obtain ⟨q₀, hq₀, hmap⟩ := List.mem_map.mp hq
    split_ifs at hmap with hp
    · subst hmap
      have hown := h.own q₀ hq₀ (List.mem_singleton.mpr hp) o
      rw [hf.id]
      refine hown.trans ?_
      simp only [State.wants, State.viewOf, hattached, hf.surface, PlasmaSurface.hasArea, hrole]
      rfl
    · rw [← hmap, List.mem_singleton] at hmem
      exact absurd hmem hp
  fresh := fun o ho => (h.fresh o ho).edit hf (.inl hattached)

/-- `surface_handle_view_map`. -/
theorem handleViewMap_settles (hnodup : (s.plasma.map (·.id)).Nodup) (hq : q ∈ s.plasma)
    (hview : s.viewOf q = some v)
    (hat : ∀ o, (.plasma q.id, o) ∈ s.links → o = v.output)
    (h : surfaceHandleViewMap s q.id = some s') :
    SettlesAll [q.id] (fun q => { q with following := true }) s s' := by
  obtain ⟨s₁, hs₁, h⟩ := Option.bind_eq_some_iff.mp h
  cases h
  exact (setUsableArea_settles hnodup hq hview hat hs₁).edit_after (fun _ => rfl)
    ⟨fun _ => rfl, fun _ => rfl⟩ (fun _ => rfl) fun _ => rfl

/-- `surface_handle_view_unmap`. -/
theorem handleViewUnmap_settles (hnodup : (s.plasma.map (·.id)).Nodup) (hq : q ∈ s.plasma)
    (hview : s.viewOf q = some v)
    (hat : ∀ o, (.plasma q.id, o) ∈ s.links → o = v.output)
    (h : surfaceHandleViewUnmap s q.id = some s') :
    SettlesAll [q.id] (fun q => { q with following := false }) s s' := by
  rw [surfaceHandleViewUnmap, plasmaOf_of_mem hnodup hq, Option.bind_eq_bind, Option.bind_some] at h
  split_ifs at h
  have hf : KeepsPlace fun q => { q with following := false } := ⟨fun _ => rfl, fun _ => rfl⟩
  refine SettlesAll.edit_before (g := fun q => q) hf (.inl fun _ => rfl) ?_
  exact setUsableArea_settles (q := { q with following := false }) (nodup_edit hf hnodup)
    (mem_edit hq) hview hat h

theorem keepsPlace_hook : KeepsPlace PlasmaSurface.hook := ⟨fun _ => rfl, fun _ => rfl⟩

/-- `surface_handle_map` of a surface whose v is mapped. -/
theorem handleMap_settles (hnodup : (s.plasma.map (·.id)).Nodup) (hq : q ∈ s.plasma)
    (hview : (s.surfaces q.surface).view = some v) (hmapped : v.mapped = true)
    (hunlinked : ∀ o, (.plasma q.id, o) ∉ s.links) (h : surfaceHandleMap s q.id = some s') :
    SettlesAll [q.id] (fun q => { q.hook with following := true }) s s' := by
  rw [surfaceHandleMap, plasmaOf_of_mem hnodup hq, Option.bind_eq_bind, Option.bind_some] at h
  simp only [hview, hmapped, if_true] at h
  obtain ⟨s₁, hs₁, h⟩ := Option.bind_eq_some_iff.mp h
  cases h
  have hset : SettlesAll [q.id] (fun q => q) (s.editPlasma q.id PlasmaSurface.hook) s₁ :=
    setUsableArea_settles (q := q.hook) (nodup_edit keepsPlace_hook hnodup) (mem_edit hq) hview
      (fun o ho => absurd ho (hunlinked o)) hs₁
  refine SettlesAll.edit_after (g := PlasmaSurface.hook) (f := fun q => { q with following := true })
    (fun _ => rfl) ⟨fun _ => rfl, fun _ => rfl⟩ (fun _ => rfl) (fun _ => rfl) ?_
  exact SettlesAll.edit_before (g := fun q => q) keepsPlace_hook (.inr hunlinked) hset

end handlers

end FlakeWm.Panels
