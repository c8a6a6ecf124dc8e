import FlakeWm.LayerShell.UsableArea

/-! Every event keeps the usable area exact.

    `Good` is what holds between two events: the stored area is the fold, and every shell is in the
    list of its current layer. Inside a commit neither has to hold: the new state is in effect before
    the handlers have run. -/

namespace FlakeWm.LayerShell

/-- The stored area is the fold of the exclusive zones. -/
def Exact (s : State) : Prop := s.reserved = some s.usableArea

/-- Between two events. -/
structure Good (s : State) : Prop where
  sane : Sane s.geometry
  exact : Exact s
  layered : ∀ id surface, s.surface id = some surface → surface.treeLayer = surface.current.layer

theorem Exact.inside {s : State} (h : Exact s) (hs : Sane s.geometry) :
    Inside s.geometry s.usableArea := by
  obtain ⟨b, hb, hin⟩ := reserved_ok hs
  obtain rfl := Option.some.inj (h.symm.trans hb)
  exact hin

/-! ### What is not counted does not matter -/

theorem counted_mapped_false (surface : Surface) (h : surface.mapped = false) :
    counted (some surface) = none := by
  rw [counted, if_neg (by simp [h])]

theorem counted_zone {surface : Surface} (h : ¬ surface.current.exclusiveZone > 0) :
    counted (some surface) = none := by
  rw [counted, if_neg fun hc => h hc.2]

theorem placed_congr {s s' : State} (hshells : s'.shells = s.shells)
    (hsurface : ∀ id, counted (s'.surface id) = counted (s.surface id)) : s'.placed = s.placed := by
  simp only [State.placed, hshells, hsurface]

/-- A surface that is replaced by one that counts for the same. -/
theorem placed_setSurface {s : State} {id : ℕ} {surface : Surface}
    (h : counted (some surface) = counted (s.surface id)) :
    (s.setSurface id surface).placed = s.placed := by
  refine placed_congr rfl fun k => ?_
  simp only [State.setSurface]
  rcases eq_or_ne k id with rfl | hne
  · rw [Function.update_self, h]
  · rw [Function.update_of_ne hne]

theorem filterMap_filter_ne {f : ℕ → Option LayerState} {id : ℕ} (h : f id = none) :
    ∀ l : List ℕ, (l.filter (· ≠ id)).filterMap f = l.filterMap f
  | [] => rfl
  | k :: l => by
      by_cases hk : k = id
      · rw [List.filter_cons_of_neg (by simp [hk]), filterMap_filter_ne h l,
          List.filterMap_cons_none (by rw [hk, h])]
      · rw [List.filter_cons_of_pos (by simp [hk]), List.filterMap_cons, List.filterMap_cons,
          filterMap_filter_ne h l]

theorem placed_unlink {s : State} {id : ℕ} (h : counted (s.surface id) = none) :
    (s.unlink id).placed = s.placed := by
  simp only [State.placed, State.unlink]
  refine congrArg List.flatten (List.map_congr_left fun i _ => ?_)
  exact filterMap_filter_ne h (s.shells i)

theorem placed_link {s : State} {id : ℕ} (h : counted (s.surface id) = none) (layer : Fin 4) :
    (s.link layer id).placed = s.placed := by
  simp only [State.placed, State.link]
  refine congrArg List.flatten (List.map_congr_left fun i _ => ?_)
  rcases eq_or_ne i layer with rfl | hne
  · rw [Function.update_self, List.filterMap_cons, h]
  · rw [Function.update_of_ne hne]

theorem Exact.of_placed {s s' : State} (h : Exact s) (hplaced : s'.placed = s.placed)
    (hgeometry : s'.geometry = s.geometry) (harea : s'.usableArea = s.usableArea) : Exact s' := by
  rw [Exact, State.reserved, hplaced, hgeometry, harea]
  exact h

/-- Recomputing the area makes it exact, whatever it was. -/
theorem outputUpdateUsableArea_good {s : State} (hs : Sane s.geometry)
    (hlayered : ∀ id surface, s.surface id = some surface → surface.treeLayer = surface.current.layer) :
    ∃ s', s.outputUpdateUsableArea = some s' ∧ Good s' ∧ s'.geometry = s.geometry ∧
      s'.surface = s.surface := by
  obtain ⟨b, hb, -, hupdate⟩ := outputUpdateUsableArea_ok hs
  exact ⟨_, hupdate, ⟨hs, hb, hlayered⟩, rfl, rfl⟩

/-! ### The layer of a shell -/

section Layer

variable (s : State) (id : ℕ) (surface : Surface)

theorem updateLayer_geometry : (layerShellUpdateLayer s id surface).geometry = s.geometry := by
  rw [layerShellUpdateLayer]
  split_ifs <;> rfl

theorem updateLayer_usableArea : (layerShellUpdateLayer s id surface).usableArea = s.usableArea := by
  rw [layerShellUpdateLayer]
  split_ifs <;> rfl

theorem updateLayer_other {k : ℕ} (hk : k ≠ id) :
    (layerShellUpdateLayer s id surface).surface k = s.surface k := by
  rw [layerShellUpdateLayer]
  split_ifs
  · rfl
  · exact Function.update_of_ne hk _ _

theorem updateLayer_self (hs : s.surface id = some surface) :
    (layerShellUpdateLayer s id surface).surface id =
      some { surface with treeLayer := surface.current.layer } := by
  rw [layerShellUpdateLayer]
  split_ifs with heq
  · rw [hs, ← heq]
  · exact Function.update_self ..

/-- The other shells are as before and this one is where it belongs. -/
theorem updateLayer_layered (hs : s.surface id = some surface)
    (hothers : ∀ k sf, k ≠ id → s.surface k = some sf → sf.treeLayer = sf.current.layer) :
    ∀ k sf, (layerShellUpdateLayer s id surface).surface k = some sf →
      sf.treeLayer = sf.current.layer := by
  intro k sf hk
  rcases eq_or_ne k id with rfl | hne
  · rw [updateLayer_self s k surface hs] at hk
    cases hk
    rfl
  · rw [updateLayer_other s id surface hne] at hk
    exact hothers k sf hne hk

theorem updateLayer_placed (hs : s.surface id = some surface) (h : counted (some surface) = none) :
    (layerShellUpdateLayer s id surface).placed = s.placed := by
  rw [layerShellUpdateLayer]
  split_ifs
  · rfl
  have hnone : counted (s.surface id) = none := by rw [hs, h]
  have hunlinked : counted ((s.unlink id).surface id) = none := hnone
  have hlinked : counted (((s.unlink id).link surface.current.layer id).surface id) = none := hnone
  rw [placed_setSurface (by rw [hlinked]; exact h), placed_link hunlinked, placed_unlink hnone]

end Layer

/-! ### Handlers -/

section Handlers

variable {s : State} {id : ℕ} {surface : Surface}

/-- Handing the stored area to a surface that reserves nothing does not pollute it. -/
theorem configureStored_eq (s : State) (h : counted (some surface) = none) :
    s.configureStored surface = some s := by
  rw [State.configureStored, configure_of_not_counted h]
  rfl

theorem handleCommit_good (hs : s.surface id = some surface) (hsane : Sane s.geometry)
    (hin : Inside s.geometry s.usableArea)
    (hothers : ∀ k sf, k ≠ id → s.surface k = some sf → sf.treeLayer = sf.current.layer)
    {committed : Committed}
    (hquiet : surface.mapped = false ∨ committed.rest = false → Exact s)
    (hlayer : surface.mapped = true → committed.rest = false →
      surface.treeLayer = surface.current.layer) :
    ∃ s', layerShellHandleCommit s id committed = some s' ∧ Good s' ∧ s'.geometry = s.geometry := by
  have hlayered := updateLayer_layered s id surface hs hothers
  have hgeometry := updateLayer_geometry s id surface
  have harea := updateLayer_usableArea s id surface
  simp only [layerShellHandleCommit, hs]
  cases hmapped : surface.mapped with
  | false =>
    have hnone := counted_mapped_false surface hmapped
    simp only [Bool.not_false, if_true, configureStored_eq _ hnone]
    refine ⟨_, rfl, ⟨hgeometry ▸ hsane, ?_, hlayered⟩, hgeometry⟩
    exact (hquiet (.inl hmapped)).of_placed (updateLayer_placed s id surface hs hnone) hgeometry harea
  | true =>
    simp only [Bool.not_true, Bool.false_eq_true, if_false]
    cases hrest : committed.rest with
    | false =>
      have hnoop : layerShellUpdateLayer s id surface = s := by
        rw [layerShellUpdateLayer, if_pos (hlayer hmapped hrest)]
      simp only [Bool.false_eq_true, if_false, hnoop] at hlayered ⊢
      exact ⟨s, rfl, ⟨hsane, hquiet (.inr hrest), hlayered⟩, rfl⟩
    | true =>
      simp only [if_true]
      obtain ⟨b, hb⟩ : ∃ b, layerShellConfigureSurface surface s.usableArea = some b := by
        rw [layerShellConfigureSurface]
        split_ifs
        · obtain ⟨b, hb, -⟩ := layerSurfaceExclusiveZone_ok hsane.int hsane.fit hin surface.current
          exact ⟨b, hb⟩
        · exact ⟨_, rfl⟩
      obtain ⟨s', hs', hgood, hg, -⟩ := outputUpdateUsableArea_good (hgeometry ▸ hsane) hlayered
      rw [harea, hb]
      exact ⟨s', hs', hgood, hg.trans hgeometry⟩

theorem handleMap_good (hs : s.surface id = some surface) (hsane : Sane s.geometry)
    (hothers : ∀ k sf, k ≠ id → s.surface k = some sf → sf.treeLayer = sf.current.layer)
    (hquiet : ¬ surface.current.exclusiveZone > 0 → Exact s) :
    ∃ s', layerShellHandleMap s id = some s' ∧ Good s' ∧ s'.geometry = s.geometry ∧
      s'.surface id = some { surface with treeLayer := surface.current.layer } := by
  have hlayered := updateLayer_layered s id surface hs hothers
  have hgeometry := updateLayer_geometry s id surface
  have hself := updateLayer_self s id surface hs
  simp only [layerShellHandleMap, hs]
  split_ifs with hzone
  · obtain ⟨s', hs', hgood, hg, hsurface⟩ := outputUpdateUsableArea_good (hgeometry ▸ hsane) hlayered
    exact ⟨s', hs', hgood, hg.trans hgeometry, by rw [hsurface, hself]⟩
  · have hnone := counted_zone hzone
    rw [configureStored_eq _ hnone]
    refine ⟨_, rfl, ⟨hgeometry ▸ hsane, ?_, hlayered⟩, hgeometry, hself⟩
    exact (hquiet hzone).of_placed (updateLayer_placed s id surface hs hnone) hgeometry
      (updateLayer_usableArea s id surface)

theorem setSurface_self (s : State) (id : ℕ) (surface : Surface) :
    (s.setSurface id surface).surface id = some surface := Function.update_self ..

theorem setSurface_others (h : Good s) (id : ℕ) (surface : Surface) :
    ∀ k sf, k ≠ id → (s.setSurface id surface).surface k = some sf →
      sf.treeLayer = sf.current.layer := by
  intro k sf hk hsf
  simp only [State.setSurface] at hsf
  rw [Function.update_of_ne hk] at hsf
  exact h.layered k sf hsf

/-- Mapping an unmapped surface, whose own list may be out of date. -/
theorem map_unmapped (hs : s.surface id = some surface) (hmapped : surface.mapped = false)
    (hsane : Sane s.geometry) (hexact : Exact s)
    (hothers : ∀ k sf, k ≠ id → s.surface k = some sf → sf.treeLayer = sf.current.layer) :
    ∃ s' sf, wlrSurfaceMap s id = some s' ∧ Good s' ∧ s'.geometry = s.geometry ∧
      s'.surface id = some sf := by
  have hquiet : ¬ surface.current.exclusiveZone > 0 →
      Exact (s.setSurface id { surface with mapped := true }) := by
    intro hzone
    refine hexact.of_placed (placed_setSurface ?_) rfl rfl
    rw [hs, counted_mapped_false surface hmapped]
    exact counted_zone hzone
  have hothers' : ∀ k sf, k ≠ id →
      (s.setSurface id { surface with mapped := true }).surface k = some sf →
      sf.treeLayer = sf.current.layer := by
    intro k sf hk hsf
    simp only [State.setSurface] at hsf
    rw [Function.update_of_ne hk] at hsf
    exact hothers k sf hk hsf
  obtain ⟨s', hs', hgood, hg, hself⟩ := handleMap_good
    (setSurface_self s id { surface with mapped := true }) hsane hothers' hquiet
  refine ⟨s', _, ?_, hgood, hg, hself⟩
  simp only [wlrSurfaceMap, hs, hmapped, Bool.false_eq_true, if_false]
  exact hs'

theorem map_good (h : Good s) (hs : s.surface id = some surface) :
    ∃ s', wlrSurfaceMap s id = some s' ∧ Good s' ∧ s'.geometry = s.geometry := by
  cases hmapped : surface.mapped with
  | true => exact ⟨s, by simp [wlrSurfaceMap, hs, hmapped], h, rfl⟩
  | false =>
    obtain ⟨s', -, hs', hgood, hg, -⟩ := map_unmapped hs hmapped h.sane h.exact
      fun k sf _ => h.layered k sf
    exact ⟨s', hs', hgood, hg⟩

theorem unmap_good (h : Good s) (hs : s.surface id = some surface) :
    ∃ s', wlrSurfaceUnmap s id = some s' ∧ Good s' ∧ s'.geometry = s.geometry ∧
      s'.surface id = some { surface with mapped := false } := by
  simp only [wlrSurfaceUnmap, hs]
  split_ifs with hmapped
  · have hself := setSurface_self s id { surface with mapped := false }
    have hlayered : ∀ k sf, (s.setSurface id { surface with mapped := false }).surface k = some sf →
        sf.treeLayer = sf.current.layer := by
      intro k sf hk
      rcases eq_or_ne k id with rfl | hne
      · rw [hself] at hk
        cases hk
        exact h.layered k surface hs
      · exact setSurface_others h id _ k sf hne hk
    simp only [layerShellHandleUnmap, hself]
    split_ifs with hzone
    · obtain ⟨s', hs', hgood, hg, hsurface⟩ := outputUpdateUsableArea_good (by exact h.sane) hlayered
      exact ⟨s', hs', hgood, hg, by rw [hsurface, hself]⟩
    · refine ⟨_, rfl, ⟨h.sane, ?_, hlayered⟩, rfl, hself⟩
      refine h.exact.of_placed (placed_setSurface ?_) rfl rfl
      rw [hs, counted_zone hzone]
      exact counted_mapped_false _ rfl
  · exact ⟨s, rfl, h, rfl, by rw [hs]; cases surface; simp_all⟩

theorem handleDestroy_good (h : Good s) (hs : s.surface id = some surface) :
    ∃ s', layerShellHandleDestroy s id = some s' ∧ Good s' ∧ s'.geometry = s.geometry := by
  have hlayered : ∀ k sf, Function.update s.surface id none k = some sf →
      sf.treeLayer = sf.current.layer := by
    intro k sf hk
    rcases eq_or_ne k id with rfl | hne
    · rw [Function.update_self] at hk
      cases hk
    · rw [Function.update_of_ne hne] at hk
      exact h.layered k sf hk
  simp only [layerShellHandleDestroy, hs]
  split_ifs with hcounts
  · obtain ⟨s', hs', hgood, hg, -⟩ := outputUpdateUsableArea_good
      (s := { s.unlink id with surface := Function.update s.surface id none }) h.sane hlayered
    exact ⟨s', hs', hgood, hg⟩
  · refine ⟨_, rfl, ⟨h.sane, ?_, hlayered⟩, rfl⟩
    have hnone : counted (s.surface id) = none := by
      rw [hs, counted, if_neg fun hc => hcounts ⟨hc.2, hc.1⟩]
    refine h.exact.of_placed ?_ rfl rfl
    rw [← placed_unlink hnone]
    refine placed_congr rfl fun k => ?_
    rcases eq_or_ne k id with rfl | hne
    · simp only [Function.update_self]
      exact hnone.symm
    · simp only [Function.update_of_ne hne]
      rfl

/-! ### Commits -/

/-- Without a flag the new state reserves what the old one does, on the same layer. -/
theorem rest_of_covers {committed : Committed} {current next : LayerState}
    (hcovers : committed.covers current next = true) (hrest : committed.rest = false) :
    current = next := by
  simp only [Committed.covers, Committed.rest, Bool.and_eq_true, Bool.or_eq_true, Bool.or_eq_false_iff,
    beq_iff_eq] at hcovers hrest
  obtain ⟨⟨⟨hanchor, hzone⟩, hmargin⟩, hlayer⟩ := hcovers
  obtain ⟨⟨⟨⟨⟨-, h₁⟩, h₂⟩, h₃⟩, h₄⟩, -⟩ := hrest
  have hmargins := hmargin.resolve_left (by simp [h₃])
  cases current
  cases next
  rw [LayerState.mk.injEq]
  exact ⟨hanchor.resolve_left (by simp [h₁]), hzone.resolve_left (by simp [h₂]), hmargins.1.1.1,
    hmargins.1.1.2, hmargins.1.2, hmargins.2, hlayer.resolve_left (by simp [h₄])⟩

theorem handleCommit_of_good (h : Good s) (hs : s.surface id = some surface) (committed : Committed) :
    ∃ s', layerShellHandleCommit s id committed = some s' ∧ Good s' ∧ s'.geometry = s.geometry :=
  handleCommit_good hs h.sane (h.exact.inside h.sane) (fun k sf _ => h.layered k sf) (fun _ => h.exact)
    fun _ _ => h.layered id surface hs

/-- The commit handler on the new state of a surface that was neither mapped nor unmapped. -/
theorem handleCommit_moved (h : Good s) (hs : s.surface id = some surface) {next : LayerState}
    {committed : Committed} (hcovers : committed.covers surface.current next = true) :
    ∃ s', layerShellHandleCommit (s.setSurface id { surface with current := next }) id committed =
      some s' ∧ Good s' ∧ s'.geometry = s.geometry := by
  refine handleCommit_good (setSurface_self s id _) h.sane (h.exact.inside h.sane)
    (setSurface_others h id _) ?_ ?_
  · intro hquiet
    refine h.exact.of_placed (placed_setSurface ?_) rfl rfl
    rw [hs]
    rcases hquiet with hmapped | hrest
    · rw [counted_mapped_false surface hmapped]
      exact counted_mapped_false _ hmapped
    · rw [← rest_of_covers hcovers hrest]
  · intro _ hrest
    simp only [← rest_of_covers hcovers hrest]
    exact h.layered id surface hs

theorem commit_good (h : Good s) (hs : s.surface id = some surface) {next : LayerState}
    {committed : Committed} (hcovers : committed.covers surface.current next = true)
    (buffer : Buffer) :
    ∃ s', surfaceCommitState s id next committed buffer = some s' ∧ Good s' ∧
      s'.geometry = s.geometry := by
  cases buffer with
  | keep =>
    simp only [surfaceCommitState, moveState, hs, reduceCtorEq, if_false, Option.bind_eq_bind,
      Option.bind_some]
    exact handleCommit_moved h hs hcovers
  | remove =>
    obtain ⟨s₁, hs₁, hgood₁, hg₁, hself₁⟩ := unmap_good h hs
    simp only [surfaceCommitState, moveState, hs₁, hself₁, reduceCtorEq, if_true, if_false,
      Option.bind_eq_bind, Option.bind_some]
    obtain ⟨s', hs', hgood, hg⟩ := handleCommit_moved hgood₁ hself₁ hcovers
    exact ⟨s', hs', hgood, hg.trans hg₁⟩
  | attach =>
    cases hmapped : surface.mapped with
    | true =>
      simp only [surfaceCommitState, moveState, hs, reduceCtorEq, if_true, if_false,
        Option.bind_eq_bind, Option.bind_some, wlrSurfaceMap, setSurface_self, hmapped]
      simpa [hmapped] using handleCommit_moved h hs hcovers
    | false =>
      -- the surface is mapped with its new state, before the commit is signalled
      have hexact : Exact (s.setSurface id { surface with current := next }) := by
        refine h.exact.of_placed (placed_setSurface ?_) rfl rfl
        rw [hs, counted_mapped_false surface hmapped]
        exact counted_mapped_false _ hmapped
      obtain ⟨s₁, sf, hs₁, hgood₁, hg₁, hself₁⟩ := map_unmapped
        (setSurface_self s id { surface with current := next }) hmapped h.sane hexact
        (setSurface_others h id _)
      simp only [surfaceCommitState, moveState, hs, reduceCtorEq, if_true, if_false,
        Option.bind_eq_bind, Option.bind_some, hs₁]
      obtain ⟨s', hs', hgood, hg⟩ := handleCommit_of_good hgood₁ hself₁ committed
      exact ⟨s', hs', hgood, hg.trans hg₁⟩

end Handlers

/-! ### Runs -/

theorem newSurface_good {s : State} (h : Good s) {id : ℕ} (hid : s.surface id = none) (layer : Fin 4) :
    Good (handleNewLayerSurface s id layer) := by
  have hnone : counted (s.surface id) = none := by rw [hid]; rfl
  have hlinked : counted ((s.link layer id).surface id) = none := hnone
  refine ⟨h.sane, h.exact.of_placed ?_ rfl rfl, fun k sf hk => ?_⟩
  · rw [handleNewLayerSurface, placed_setSurface, placed_link hnone]
    rw [hlinked]
    exact counted_mapped_false _ rfl
  · simp only [handleNewLayerSurface, State.setSurface] at hk
    rcases eq_or_ne k id with rfl | hne
    · rw [Function.update_self] at hk
      cases hk
      rfl
    · rw [Function.update_of_ne hne] at hk
      exact h.layered k sf hk

/-- Every offered event has a defined result and keeps the area exact. -/
theorem handle_good {s : State} (h : Good s) (e : Event) (hoffered : offered s e = true) :
    ∃ s', handle s e = some s' ∧ Good s' ∧ s'.geometry = s.geometry := by
  cases e with
  | newSurface id layer =>
    exact ⟨_, rfl, newSurface_good h (by simpa [offered] using hoffered) layer, rfl⟩
  | commit id next committed buffer =>
    simp only [offered] at hoffered
    split at hoffered
    · cases hoffered
    next surface hs => exact commit_good h hs hoffered buffer
  | map id =>
    obtain ⟨surface, hs⟩ := Option.isSome_iff_exists.mp hoffered
    exact map_good h hs
  | unmap id =>
    obtain ⟨surface, hs⟩ := Option.isSome_iff_exists.mp hoffered
    obtain ⟨s', hs', hgood, hg, -⟩ := unmap_good h hs
    exact ⟨s', hs', hgood, hg⟩
  | destroy id unmapped =>
    obtain ⟨surface, hs⟩ := Option.isSome_iff_exists.mp hoffered
    cases unmapped with
    | false =>
      simp only [handle, layerSurfaceDestroy, Bool.false_eq_true, if_false, Option.bind_eq_bind,
        Option.bind_some]
      exact handleDestroy_good h hs
    | true =>
      obtain ⟨s₁, hs₁, hgood₁, hg₁, hself₁⟩ := unmap_good h hs
      simp only [handle, layerSurfaceDestroy, if_true, Option.bind_eq_bind, hs₁, Option.bind_some]
      obtain ⟨s', hs', hgood, hg⟩ := handleDestroy_good hgood₁ hself₁
      exact ⟨s', hs', hgood, hg.trans hg₁⟩
  | reconfigure id =>
    obtain ⟨surface, hs⟩ := Option.isSome_iff_exists.mp hoffered
    simp only [handle, wlrLayerShellReconfigureSurface, hs]
    split_ifs
    · obtain ⟨b, hb⟩ : ∃ b, layerShellConfigureSurface surface s.usableArea = some b := by
        rw [layerShellConfigureSurface]
        split_ifs
        · obtain ⟨b, hb, -⟩ := layerSurfaceExclusiveZone_ok h.sane.int h.sane.fit
            (h.exact.inside h.sane) surface.current
          exact ⟨b, hb⟩
        · exact ⟨_, rfl⟩
      rw [hb]
      exact ⟨s, rfl, h, rfl⟩
    · exact ⟨s, rfl, h, rfl⟩

/-- A state that reserves as much as it can at one edge. -/
def greedy (anchor : UInt32) : LayerState :=
  { anchor := anchor, exclusiveZone := 2147483647, layer := 0 }

/-- The commit that maps a surface with this state. -/
def mapGreedy (anchor : UInt32) : Event :=
  .commit 0 (greedy anchor) ⟨true, true, true, true, true, true, true⟩ .attach

/-- The area is recomputed when the surface is mapped, so the commit has no result if the fold has
    none. -/
theorem mapGreedy_none {g : Box} {anchor : UInt32}
    (h : layerSurfaceExclusiveZone (greedy anchor) g = none) :
    offered (handleNewLayerSurface (start g) 0 0) (mapGreedy anchor) = true ∧
      handle (handleNewLayerSurface (start g) 0 0) (mapGreedy anchor) = none := by
  refine ⟨rfl, ?_⟩
  generalize hs : (handleNewLayerSurface (start g) 0 0).setSurface 0 ⟨greedy anchor, true, 0⟩ = s
  have hreserved : s.reserved = none := by
    have hplaced : s.placed = [greedy anchor] := by
      rw [← hs]
      rfl
    have hgeometry : s.geometry = g := by rw [← hs]; rfl
    rw [State.reserved, hplaced, hgeometry, List.foldlM_cons, h]
    rfl
  have hupdate : s.outputUpdateUsableArea = none := by
    rw [State.outputUpdateUsableArea, State.outputDoUpdateUsableArea,
      handleOutputUpdateUsableArea_eq, hreserved]
    rfl
  have hmap : handle (handleNewLayerSurface (start g) 0 0) (mapGreedy anchor) =
      s.outputUpdateUsableArea.bind fun s =>
        layerShellHandleCommit s 0 ⟨true, true, true, true, true, true, true⟩ := by
    have hmoved : moveState (handleNewLayerSurface (start g) 0 0) 0 (greedy anchor) =
        some ((handleNewLayerSurface (start g) 0 0).setSurface 0 ⟨greedy anchor, false, 0⟩) := by
      have hnew : (handleNewLayerSurface (start g) 0 0).surface 0 =
          some ⟨{ layer := 0 }, false, 0⟩ := setSurface_self _ 0 _
      simp only [moveState, hnew]
    have hmapped : wlrSurfaceMap
        ((handleNewLayerSurface (start g) 0 0).setSurface 0 ⟨greedy anchor, false, 0⟩) 0 =
        layerShellHandleMap s 0 := by
      rw [← hs]
      simp [wlrSurfaceMap, State.setSurface]
    have hhandled : layerShellHandleMap s 0 = s.outputUpdateUsableArea := by
      have hself : s.surface 0 = some ⟨greedy anchor, true, 0⟩ := by
        rw [← hs]
        exact setSurface_self _ 0 _
      have hzone : (2147483647 : Int32) > 0 := by decide
      simp only [layerShellHandleMap, hself, layerShellUpdateLayer, greedy, hzone, if_true]
    simp only [handle, mapGreedy, surfaceCommitState, reduceCtorEq, if_false, if_true,
      Option.bind_eq_bind, Option.bind_some, hmoved, hmapped, hhandled]
  rw [hmap, hupdate]
  rfl

theorem toInt_of_gt {z : ℤ} (h : intMax < z) : toInt z = none := if_neg fun hc => by omega

theorem boundedExclusiveZone_greedy {available : ℤ} (hpos : 0 < available)
    (hmax : available ≤ intMax) : boundedExclusiveZone 2147483647 0 available = available := by
  have hzone : (2147483647 : Int32).toInt + (0 : Int32).toInt = intMax := by decide
  simp only [boundedExclusiveZone, hzone]
  have hmaxpos : 0 < intMax := by decide
  rw [if_neg (by omega), if_neg (by omega)]

/-- For every output of `int`s with sizes that are not negative: the usable area is the fold of the
    exclusive zones, inside the geometry and not negative, and no sum on the way overflows, in every
    run and for every event — if and only if the right and bottom edges of the output are `int`s. -/
theorem usable_area_exact (g : Box) (hint : IntBox g) (hwidth : 0 ≤ g.width) (hheight : 0 ≤ g.height) :
    (∀ s, Reach step Always (start g) s → (Exact s ∧ Inside g s.usableArea) ∧
      ∀ e, offered s e = true → (handle s e).isSome) ↔ EdgesFit g := by
  constructor
  · intro hall
    have hnew : Reach step Always (start g) (handleNewLayerSurface (start g) 0 0) :=
      .next (.newSurface 0 0) .init trivial rfl
    obtain ⟨⟨-, hx⟩, ⟨-, hy⟩, ⟨-, hw⟩, -, hh⟩ := hint
    -- a surface that reserves the whole width, or height, moves the corner past the last `int`
    refine ⟨?_, ?_⟩
    · by_contra hright
      have hnone : layerSurfaceExclusiveZone (greedy anchorLeft) g = none := by
        have hzone := boundedExclusiveZone_greedy (show 0 < g.width by omega) hw
        simp only [layerSurfaceExclusiveZone, greedy, hzone]
        rw [if_neg (by decide), if_neg (by decide), if_pos (by decide), toInt_of_gt (by omega)]
        rfl
      obtain ⟨hoffered, hhandle⟩ := mapGreedy_none hnone
      have hsome := (hall _ hnew).2 _ hoffered
      rw [hhandle] at hsome
      cases hsome
    · by_contra hbottom
      have hnone : layerSurfaceExclusiveZone (greedy anchorTop) g = none := by
        have hzone := boundedExclusiveZone_greedy (show 0 < g.height by omega) hh
        simp only [layerSurfaceExclusiveZone, greedy, hzone]
        rw [if_pos (by decide), toInt_of_gt (by omega)]
        rfl
      obtain ⟨hoffered, hhandle⟩ := mapGreedy_none hnone
      have hsome := (hall _ hnew).2 _ hoffered
      rw [hhandle] at hsome
      cases hsome
  · intro hfit s hreach
    obtain ⟨hgood, hg⟩ : Good s ∧ s.geometry = g := by
      refine hreach.inv (I := fun s => Good s ∧ s.geometry = g)
        ⟨⟨⟨hint, hfit, hwidth, hheight⟩, (show Exact (start g) from rfl), fun _ _ h => by cases h⟩,
          rfl⟩ ?_
      rintro s e s' ⟨hgood, hg⟩ - hs
      rw [step, Option.ite_none_right_eq_some] at hs
      obtain ⟨s₁, hs₁, hgood₁, hg₁⟩ := handle_good hgood e hs.1
      obtain rfl := Option.some.inj (hs₁.symm.trans hs.2)
      exact ⟨hgood₁, hg₁.trans hg⟩
    refine ⟨⟨hgood.exact, hg ▸ hgood.exact.inside hgood.sane⟩, fun e hoffered => ?_⟩
    obtain ⟨s', hs', -⟩ := handle_good hgood e hoffered
    rw [hs']
    rfl

/-- A full-HD output at the last `int`: a panel at its left edge moves the area past it. -/
theorem output_at_last_int_overflows :
    ¬ ∀ g, IntBox g → 0 ≤ g.width → 0 ≤ g.height → ∀ s, Reach step Always (start g) s →
      (Exact s ∧ Inside g s.usableArea) ∧ ∀ e, offered s e = true → (handle s e).isSome := by
  intro h
  have hnone : layerSurfaceExclusiveZone (greedy anchorLeft) ⟨2147483647, 0, 1920, 1080⟩ = none := by decide
  obtain ⟨hoffered, hhandle⟩ := mapGreedy_none hnone
  have hint : IntBox ⟨2147483647, 0, 1920, 1080⟩ := by simp [IntBox, intMin, intMax]
  have hsome := (h _ hint (by decide) (by decide) _ (.next (.newSurface 0 0) .init trivial rfl)).2 _
    hoffered
  rw [hhandle] at hsome
  cases hsome

/-- A panel of 30 pixels at the top of a full-HD output. -/
theorem panel_reserves_top : ∃ s,
    exec step (start ⟨0, 0, 1920, 1080⟩) [.newSurface 0 2,
      .commit 0 { anchor := 13, exclusiveZone := 30, layer := 2 }
        ⟨true, true, true, false, false, false, false⟩ .attach] = some s ∧
    s.usableArea = ⟨0, 30, 1920, 1050⟩ ∧ Exact s ∧ Inside ⟨0, 0, 1920, 1080⟩ s.usableArea := by
  obtain ⟨s, hs, harea⟩ : ∃ s, exec step (start ⟨0, 0, 1920, 1080⟩) [.newSurface 0 2,
      .commit 0 { anchor := 13, exclusiveZone := 30, layer := 2 }
        ⟨true, true, true, false, false, false, false⟩ .attach] = some s ∧
      s.usableArea = ⟨0, 30, 1920, 1050⟩ := ⟨_, rfl, rfl⟩
  have hint : IntBox ⟨0, 0, 1920, 1080⟩ := by simp [IntBox, intMin, intMax]
  have hfit : EdgesFit ⟨0, 0, 1920, 1080⟩ := by simp [EdgesFit, intMax]
  have hexact := ((usable_area_exact ⟨0, 0, 1920, 1080⟩ hint (by decide) (by decide)).mpr hfit s
    (.of_exec _ _ hs)).1
  exact ⟨s, hs, harea, hexact⟩

end FlakeWm.LayerShell
