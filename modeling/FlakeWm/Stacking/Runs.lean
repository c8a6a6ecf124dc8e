import FlakeWm.Stacking.Order

/-! The two stacking orders over whole runs.

    Of the events only three change the layer of a view that is in a workspace:
    `kywc_view_set_kept_above`, `kywc_view_set_kept_below` and `view_set_parent`. `keepsOrder` asks
    them to do it in front of the other layer; all other events keep the orders the same by
    themselves. -/

namespace FlakeWm.Stacking

open FlakeWm.Workspaces FlakeWm.Workspaces.Membership
open Scene

variable {d d' : Desk}

/-! ### The desktop -/

/-- The views of a desktop, in whatever workspaces. -/
def Desk.world (d : Desk) : World := ⟨d.scene.mem.views, fun _ => True⟩

theorem stacked_of_world {world : World} (h : Stacked world d.scene) : Stacked d.world d.scene := by
  refine ⟨⟨h.toLinked, rfl, fun v u hu => ?_, fun p v w hp => ⟨?_, trivial⟩⟩, h.order⟩
  · rw [Desk.world, h.views]
    exact h.parent_mem v u hu
  · rw [Desk.world, h.views]
    exact (h.owner_mem p v w hp).1

theorem onViews_stacked {vs : List ViewId} {scene : Option Scene}
    (hscene : ∀ c, (∀ v ∈ vs, v ∈ d.scene.mem.views) → scene = some c → Stacked d.world c)
    (hs : onViews d vs scene = some d') : Stacked d'.world d'.scene := by
  unfold onViews at hs
  split_ifs at hs with hviews
  obtain ⟨c, hc, rfl⟩ := Option.map_eq_some_iff.mp hs
  exact stacked_of_world (d := { d with scene := c }) (hscene c hviews hc)

theorem onWorkspace_stacked {v : ViewId} {w : WorkspaceId} {scene : Option Scene}
    (hscene : ∀ c, v ∈ d.scene.mem.views → scene = some c → Stacked d.world c)
    (hs : onWorkspace d v w scene = some d') : Stacked d'.world d'.scene := by
  unfold onWorkspace at hs
  split_ifs at hs
  exact onViews_stacked (fun c hv hc => hscene c (hv v (List.mem_singleton.mpr rfl)) hc) hs

theorem autoAddView_stacked {world : World} {cur : Option WorkspaceId} {w : WorkspaceId}
    {c c' : Scene} {p : ProxyId} (h : Stacked world c) (hw : world.live w)
    (hs : Desk.autoAddView cur w c p = some c') : Stacked world c' := by
  unfold Desk.autoAddView at hs
  split at hs
  · cases hs
    exact h
  · next x hx =>
    have howner : c.mem.owner p = some (x.view, x.workspace) := owner_eq_some.mpr ⟨x, hx, rfl, rfl⟩
    split_ifs at hs
    · exact viewAdd_stacked h (h.owner_mem p _ _ howner).1 hw hs
    · cases hs
      exact h

theorem workspaceCreate_stacked {name : Option String} {position : ℕ}
    (h : Stacked d.world d.scene) (hs : d.workspaceCreate name position = some d') :
    Stacked d'.world d'.scene := by
  unfold Desk.workspaceCreate at hs
  split_ifs at hs
  · cases hs
    exact h
  · simp only [Option.bind_eq_bind, Option.bind_eq_some_iff] at hs
    obtain ⟨c, hfold, hs⟩ := hs
    cases hs
    have hc : Stacked d.world c :=
      foldlM_inv _ h (fun p _ a b ha hb => autoAddView_stacked ha trivial hb) hfold
    exact stacked_of_world (d := ⟨_, c⟩) hc

theorem moveToTarget_stacked {world : World} {cur : Option WorkspaceId} {target : WorkspaceId}
    {c c' : Scene} {p : ProxyId} (h : Stacked world c) (htarget : world.live target)
    (hs : Desk.moveToTarget cur target c p = some c') : Stacked world c' := by
  unfold Desk.moveToTarget at hs
  split at hs
  · cases hs
    exact h
  · next x hx =>
    have howner : c.mem.owner p = some (x.view, x.workspace) := owner_eq_some.mpr ⟨x, hx, rfl, rfl⟩
    simp only [Option.bind_eq_bind, Option.bind_eq_some_iff] at hs
    obtain ⟨⟨c₁, new⟩, hcall, hs⟩ := hs
    have h₁ := viewAddWorkspace_stacked htarget h (h.owner_mem p _ _ howner).1 hcall
    cases hs
    refine viewProxyDestroy_stacked ?_ p
    cases new with
    | none => exact h₁
    | some q => exact setCurrent_stacked h₁ x.view q

/-! ### Events that touch no proxy -/

/-- The proxies and the lists of the workspaces are the same, and still linked. -/
structure SameProxies (m m' : Membership) : Prop where
  proxy : m'.proxy = m.proxy
  listed : m'.listed = m.listed
  base : ∀ world, Base world m → Base world m'

theorem SameProxies.refl (m : Membership) : SameProxies m m := ⟨rfl, rfl, fun _ h => h⟩

theorem SameProxies.trans {m m' m'' : Membership} (h : SameProxies m m') (h' : SameProxies m' m'') :
    SameProxies m m'' :=
  ⟨h'.proxy.trans h.proxy, h'.listed.trans h.listed, fun world hb => h'.base world (h.base world hb)⟩

theorem SameProxies.stacked {world : World} {c : Scene} {m : Membership} (h : SameProxies c.mem m)
    (hc : Stacked world c) : Stacked world { c with mem := m } :=
  write_stacked (f := fun _ => m) hc (h.base world hc.toBase) h.proxy h.listed

theorem showProxies_same (m : Membership) (w : WorkspaceId) : SameProxies m (m.showProxies w) := by
  unfold showProxies
  generalize m.listed w = l
  induction l generalizing m with
  | nil => exact .refl m
  | cons p l ih =>
    refine SameProxies.trans ?_ (ih (m.showProxy p))
    unfold showProxy
    split
    · exact .refl m
    · next x _ =>
      obtain ⟨hproxy, hlisted, -, -⟩ := viewSetCurrentProxy_links m x.view p
      exact ⟨hproxy, hlisted, fun _ h => viewSetCurrentProxy_base h x.view p⟩

theorem workspaceSetActivated_same (s : State) (w : WorkspaceId) (b : Bool) :
    SameProxies s.mem (workspaceSetActivated s w b).mem := by
  unfold workspaceSetActivated
  split_ifs
  · exact .refl s.mem
  · exact showProxies_same s.mem w

theorem workspaceActivate_same (s : State) (w : WorkspaceId) :
    SameProxies s.mem (workspaceActivate s w).mem := by
  unfold workspaceActivate
  split_ifs
  · exact .refl s.mem
  · cases s.mgr.current with
    | none => exact workspaceSetActivated_same (setCurrent s w) w true
    | some old =>
      exact (workspaceSetActivated_same s old false).trans
        (workspaceSetActivated_same (setCurrent (workspaceSetActivated s old false) w) w true)

theorem setView_same {m : Membership} {v : ViewId} {x : View}
    (hproxies : x.proxies = (m.view v).proxies) (hparent : x.parent = (m.view v).parent) :
    SameProxies m (m.setView v x) :=
  ⟨rfl, rfl, fun _ h => setView_base h hproxies fun _ hu => .inl (hparent ▸ hu)⟩

theorem workspaceDestroy_stacked {w : WorkspaceId} (h : Stacked d.world d.scene)
    (hs : d.workspaceDestroy w = some d') : Stacked d'.world d'.scene := by
  unfold Desk.workspaceDestroy at hs
  rw [Option.bind_eq_bind, Option.bind_eq_some_iff] at hs
  obtain ⟨d₁, hfix, hs⟩ := hs
  cases hs
  suffices hd₁ : Stacked d₁.world d₁.scene from hd₁
  simp only [Desk.fixWorkspace] at hfix
  split_ifs at hfix with hcount hcur
  · cases hfix
    exact h
  · simp only [Option.bind_eq_bind, Option.bind_eq_some_iff] at hfix
    obtain ⟨c, hfold, hfix⟩ := hfix
    cases hfix
    have h₁ := (workspaceActivate_same ⟨d.mgr.remove w, d.scene.mem⟩
      ((d.mgr.remove w).successor w)).stacked h
    have hc : Stacked d.world c :=
      foldlM_inv _ h₁ (fun p _ a b ha hb => moveToTarget_stacked ha trivial hb) hfold
    exact stacked_of_world (d := ⟨_, c⟩) hc
  · simp only [Option.bind_eq_bind, Option.bind_eq_some_iff] at hfix
    obtain ⟨c, hfold, hfix⟩ := hfix
    cases hfix
    have hc : Stacked d.world c :=
      foldlM_inv _ h (fun p _ a b ha hb => moveToTarget_stacked ha trivial hb) hfold
    exact stacked_of_world (d := ⟨_, c⟩) hc

/-! ### Runs -/

/-- The events that keep the two orders the same, where they are handled: a view changes its layer
    only if its proxies come before those of the other layer. -/
def keepsOrder (d : Desk) : Event → Prop
  | .desktop (.viewSetKeptAbove v b) => (d.scene.mem.view v).keptAbove ≠ b →
    LeadsAll d.scene.mem (if b then .above else .normal) (d.scene.mem.view v).proxies
  | .desktop (.viewSetKeptBelow v b) => (d.scene.mem.view v).keptBelow ≠ b →
    LeadsAll d.scene.mem (if b then .below else .normal) (d.scene.mem.view v).proxies
  | .desktop (.viewSetParent v parent) => ParentOnTop d.scene.mem v parent
  | _ => True

/-- The events that `desktopStep` takes from `Workspaces.step` touch no proxy. -/
theorem other_stacked {e : Workspaces.Event} (h : Stacked d.world d.scene)
    (hsame : ∀ s, Workspaces.step d.state e = some s → SameProxies d.scene.mem s.mem)
    (hs : (Workspaces.step d.state e).map (fun s => d.write fun _ => s) = some d') :
    Stacked d'.world d'.scene := by
  obtain ⟨s, hstep, rfl⟩ := Option.map_eq_some_iff.mp hs
  exact stacked_of_world (d := d.write fun _ => s) ((hsame s hstep).stacked h)

theorem onViews_same {s s' : State} {vs : List ViewId} {m : Membership}
    (hs : Workspaces.onViews s vs (some m) = some s') : s'.mem = m := by
  unfold Workspaces.onViews at hs
  split_ifs at hs
  cases hs
  rfl

theorem desktopStep_stacked (h : Stacked d.world d.scene) (e : Workspaces.Event)
    (he : keepsOrder d (.desktop e)) (hs : desktopStep d e = some d') :
    Stacked d'.world d'.scene := by
  have hone : ∀ {v : ViewId}, (∀ u ∈ [v], u ∈ d.scene.mem.views) → v ∈ d.world.views := fun hv =>
    hv _ (List.mem_singleton.mpr rfl)
  cases e
  case workspaceCreate name position => exact workspaceCreate_stacked h hs
  case workspaceDestroy w =>
    rw [desktopStep, Option.ite_none_right_eq_some] at hs
    exact workspaceDestroy_stacked h hs.2
  case workspaceActivate w =>
    refine other_stacked h (fun s hstep => ?_) hs
    rw [Workspaces.step, Option.ite_none_right_eq_some, Option.some.injEq] at hstep
    exact hstep.2 ▸ workspaceActivate_same d.state w
  case workspaceSetPosition w position =>
    refine other_stacked h (fun s hstep => ?_) hs
    rw [Workspaces.step, Option.ite_none_right_eq_some, Option.some.injEq] at hstep
    obtain ⟨-, rfl⟩ := hstep
    exact .refl _
  case viewInit v =>
    rw [desktopStep] at hs
    split at hs
    · cases hs
    · next w _ =>
      split_ifs at hs with hv
      obtain ⟨c, hset, rfl⟩ := Option.map_eq_some_iff.mp hs
      have hnew : Stacked { d.world with views := v :: d.world.views }
          (d.scene.write (·.newView v w)) := ⟨newView_base h.toBase hv, h.order⟩
      have hc := viewDoSetWorkspace_stacked trivial hnew List.mem_cons_self hset
      exact stacked_of_world (d := { d with scene := c }) hc
  case viewSetModal v modal =>
    refine other_stacked h (fun s hstep => ?_) hs
    rw [onViews_same hstep]
    exact setView_same rfl rfl
  case viewSetWorkspace v w =>
    exact onWorkspace_stacked (fun c hv hc => viewDoSetWorkspace_stacked trivial h hv hc) hs
  case viewUnsetWorkspace v layer =>
    exact onViews_stacked (fun c _ hc => viewUnsetWorkspace_stacked h hc) hs
  case viewAddWorkspace v w =>
    exact onWorkspace_stacked (fun c hv hc => viewAdd_stacked h hv trivial hc) hs
  case viewRemoveWorkspace v w =>
    exact onWorkspace_stacked
      (fun c hv hc => viewRemoveWorkspace_stacked (fun _ => trivial) h hv hc) hs
  case viewAddAllWorkspace v =>
    exact onViews_stacked
      (fun c hv hc => viewAddAllWorkspace_stacked h (hone hv) (fun _ => trivial) hc) hs
  case viewSetParent v parent =>
    refine onViews_stacked (fun c hvs hc => ?_) hs
    refine viewSetParent_stacked h (hvs v List.mem_cons_self) (fun _ => trivial)
      (fun u hu => ?_) he hc
    exact hvs u (List.mem_cons_of_mem _ (Option.mem_toList.mpr hu))
  case viewSetKeptAbove v b =>
    exact onViews_stacked (fun c _ hc => viewSetKeptAbove_stacked h he hc) hs
  case viewSetKeptBelow v b =>
    exact onViews_stacked (fun c _ hc => viewSetKeptBelow_stacked h he hc) hs
  case viewReparentFullscreen v active =>
    refine other_stacked h (fun s hstep => ?_) hs
    rw [onViews_same hstep]
    simp only [viewReparentFullscreen]
    split_ifs
    · exact setView_same rfl rfl
    · split
      · exact .refl _
      · exact setView_same rfl rfl
  case clientBind =>
    refine other_stacked (e := .clientBind) h (fun s hstep => ?_) hs
    cases hstep
    exact .refl _
  case clientStop client =>
    refine other_stacked (e := .clientStop client) h (fun s hstep => ?_) hs
    cases hstep
    exact .refl _
  case clientRelease client w =>
    refine other_stacked (e := .clientRelease client w) h (fun s hstep => ?_) hs
    cases hstep
    exact .refl _

theorem step_stacked (h : Stacked d.world d.scene) (e : Event) (he : keepsOrder d e)
    (hs : step d e = some d') : Stacked d'.world d'.scene := by
  cases e with
  | desktop e => exact desktopStep_stacked h e he hs
  | viewRaiseToTop v findParent =>
    exact onViews_stacked (fun c _ hc => viewRaiseToTop_stacked h hc) hs

/-- The view of the proxy passes the test. -/
def ofView (m : Membership) (test : ViewId → Bool) (p : ProxyId) : Bool :=
  (m.proxy p).any fun x => test x.view

/-- The two stacking orders agree, and so does what is picked by them. -/
structure OrdersAgree (c : Scene) : Prop where
  /-- The children of a layer, from the top, are the proxies of the workspace that are in it, as
      they are listed there. -/
  order : ∀ w l, c.children w l = (c.mem.listed w).filter (inLayer c.mem l)
  /-- The proxy picked by `view_activate_topmost` is the topmost one among the eligible children of
      its layer. -/
  topmost : ∀ eligible offerFocus w p, activateTopmost eligible offerFocus c w = some p →
    ∃ x, c.mem.proxy p = some x ∧ (c.children w x.layer).find? (ofView c.mem eligible) = some p

/-- The first element that passes one test is also the first among those that pass another one. -/
theorem find?_filter_of_find? {f g : ProxyId → Bool} {p : ProxyId} : ∀ {ps : List ProxyId},
    ps.find? f = some p → g p = true → (ps.filter g).find? f = some p
  | q :: ps, hfind, hp => by
    rw [List.find?_cons] at hfind
    cases hq : f q with
    | true =>
      rw [hq, Option.some.injEq] at hfind
      subst hfind
      rw [List.filter_cons, if_pos hp, List.find?_cons, hq]
    | false =>
      rw [hq] at hfind
      have ih := find?_filter_of_find? hfind hp
      rw [List.filter_cons]
      split_ifs
      · rw [List.find?_cons, hq]
        exact ih
      · exact ih

theorem Stacked.agree {world : World} {c : Scene} (h : Stacked world c) : OrdersAgree c := by
  refine ⟨h.order, fun eligible offerFocus w p hpick => ?_⟩
  unfold activateTopmost at hpick
  split at hpick
  · cases hpick
  · next q hfind =>
    split_ifs at hpick
    rw [Option.some.injEq] at hpick
    subst hpick
    have hmem := List.mem_of_find?_eq_some hfind
    obtain ⟨v, hv⟩ := (h.listed_mem w q).mp hmem
    obtain ⟨x, hx, -, -⟩ := owner_eq_some.mp hv
    refine ⟨x, hx, ?_⟩
    rw [h.order]
    refine find?_filter_of_find? hfind ?_
    rw [inLayer_of_proxy hx, decide_eq_true rfl]

theorem empty_stacked (m : Manager) : Stacked (Desk.world ⟨m, .empty⟩) Scene.empty := by
  have hstart : Stacked (State.world ⟨m, .empty⟩) (Desk.scene ⟨m, .empty⟩) :=
    ⟨(empty_members m).base, fun _ _ => rfl⟩
  exact stacked_of_world hstart

/-- In every run from `handle_server_ready` whose layer changes are made in front of the other layer
    (`keepsOrder`), the scene and the workspaces stack the views in the same order. -/
theorem stacking_orders_agree (n : ℕ) :
    ∃ d₀, Desk.ready n = some d₀ ∧ ∀ d, Reach step keepsOrder d₀ d → OrdersAgree d.scene := by
  obtain ⟨m, hready, -, -⟩ := handleServerReady_ok n (J := fun _ _ => True) trivial
    fun _ _ _ _ _ _ => trivial
  refine ⟨⟨m, .empty⟩, by rw [Desk.ready, hready, Option.map_some], fun d hreach => ?_⟩
  have hinv : Stacked d.world d.scene :=
    hreach.inv (I := fun d => Stacked d.world d.scene) (empty_stacked m)
      fun d e d' h he hs => step_stacked h e he hs
  exact hinv.agree

/-- A view that was kept above and is not any more comes to the top of the normal layer, but stays
    behind the other view in the list of the workspace. -/
theorem kept_above_and_back_swaps_scene :
    ¬ ∀ n d₀ d, Desk.ready n = some d₀ → Reach step Always d₀ d → OrdersAgree d.scene := by
  intro h
  obtain ⟨d₀, d, hready, hs, hchildren, hlisted⟩ : ∃ d₀ d, Desk.ready 1 = some d₀ ∧
      exec step d₀ [.desktop (.viewInit 0), .desktop (.viewInit 1),
        .desktop (.viewSetKeptAbove 0 true), .desktop (.viewSetKeptAbove 0 false)] = some d ∧
      d.scene.children 0 .normal = [0, 1] ∧
      (d.scene.mem.listed 0).filter (inLayer d.scene.mem .normal) = [1, 0] :=
    ⟨_, _, rfl, rfl, rfl, rfl⟩
  have horder := (h 1 d₀ d hready (.of_exec _ _ hs)).order 0 .normal
  rw [hchildren, hlisted] at horder
  exact absurd horder (by decide)

/-- A view that was raised first can be kept above. -/
theorem raised_view_kept_above :
    ∃ d₀ d, Desk.ready 1 = some d₀ ∧
      exec step d₀ [.desktop (.viewInit 0), .desktop (.viewInit 1), .viewRaiseToTop 0 true,
        .desktop (.viewSetKeptAbove 0 true)] = some d ∧
      d.scene.children 0 .above = [0] ∧ d.scene.mem.listed 0 = [0, 1] ∧ OrdersAgree d.scene := by
  obtain ⟨d₀, hready, hkept⟩ := stacking_orders_agree 1
  obtain ⟨d₁, d₂, d₃, d₄, h₁, h₂, h₃, h₄, hproxies, hproxy, hlisted, hchildren, hlisted₄⟩ :
      ∃ d₁ d₂ d₃ d₄, step d₀ (.desktop (.viewInit 0)) = some d₁ ∧
      step d₁ (.desktop (.viewInit 1)) = some d₂ ∧ step d₂ (.viewRaiseToTop 0 true) = some d₃ ∧
      step d₃ (.desktop (.viewSetKeptAbove 0 true)) = some d₄ ∧
      (d₃.scene.mem.view 0).proxies = [0] ∧ d₃.scene.mem.proxy 0 = some ⟨0, 0, .normal⟩ ∧
      d₃.scene.mem.listed 0 = [0, 1] ∧ d₄.scene.children 0 .above = [0] ∧
      d₄.scene.mem.listed 0 = [0, 1] := by
    cases hready
    exact ⟨_, _, _, _, rfl, rfl, rfl, rfl, rfl, rfl, rfl, rfl, rfl⟩
  have hleads : keepsOrder d₃ (.desktop (.viewSetKeptAbove 0 true)) := by
    intro _ p hp x hx _ q hq
    rw [hproxies, List.mem_singleton] at hp
    subst hp
    rw [hproxy, Option.some.injEq] at hx
    rw [← hx, hlisted] at hq
    cases hq
  refine ⟨d₀, d₄, hready, ?_, hchildren, hlisted₄, hkept d₄ ?_⟩
  · simp [exec_cons, h₁, h₂, h₃, h₄]
  · exact (((Reach.init.next (.desktop (.viewInit 0)) trivial h₁).next (.desktop (.viewInit 1))
      trivial h₂).next (.viewRaiseToTop 0 true) trivial h₃).next _ hleads h₄

end FlakeWm.Stacking
