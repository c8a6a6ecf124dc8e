import FlakeWm.Workspaces.Members

/-! Sticky views, over whole runs.

    `view_add_all_workspace` puts a view into every workspace and marks it sticky; leaving a
    workspace clears the mark, and a new workspace takes the sticky views in. To find them,
    `workspace_auto_add_views` looks into `workspaces[0]`, and by then this is the new workspace
    itself if that was created at position 0: it is empty, so no view is added.

    Nothing here depends on what carries a view, so the conditions of `sound` are not needed: `Base`
    is the part of the membership invariant that every event keeps. -/

namespace FlakeWm.Workspaces

namespace Membership

variable {world : World} {cur : Option WorkspaceId} {m m' m'' : Membership} {v u : ViewId}
variable {w : WorkspaceId} {live : WorkspaceId → Prop}

/-- Sticky views are in all these workspaces. -/
def StickyIn (live : WorkspaceId → Prop) (m : Membership) : Prop :=
  ∀ v, (m.view v).sticky = true → ∀ w, live w → m.In v w

/-- Views joined workspaces, and none left one. -/
structure Grown (m m' : Membership) : Prop where
  sticky : ∀ u, (m'.view u).sticky = (m.view u).sticky
  kept : ∀ p o, m.owner p = some o → m'.owner p = some o

/-- The views that are sticky afterwards were so before, and did not leave a workspace. -/
def Spares (m m' : Membership) : Prop :=
  ∀ u, (m'.view u).sticky = true → (m.view u).sticky = true ∧ ∀ w, m.In u w → m'.In u w

theorem Grown.refl (m : Membership) : Grown m m := ⟨fun _ => rfl, fun _ _ ho => ho⟩

theorem Grown.trans (h : Grown m m') (h' : Grown m' m'') : Grown m m'' :=
  ⟨fun u => (h'.sticky u).trans (h.sticky u), fun p o ho => h'.kept p o (h.kept p o ho)⟩

theorem Grown.in_mono (h : Grown m m') (hin : m.In u w) : m'.In u w := by
  obtain ⟨p, hp⟩ := hin
  exact ⟨p, h.kept p _ hp⟩

theorem Grown.of_owner (hsticky : ∀ u, (m'.view u).sticky = (m.view u).sticky)
    (howner : m'.owner = m.owner) : Grown m m' := by
  refine ⟨hsticky, fun p o ho => ?_⟩
  rw [howner]
  exact ho

theorem Grown.spares (h : Grown m m') : Spares m m' := fun u hu =>
  ⟨h.sticky u ▸ hu, fun _ => h.in_mono⟩

theorem Spares.refl (m : Membership) : Spares m m := (Grown.refl m).spares

theorem Spares.trans (h : Spares m m') (h' : Spares m' m'') : Spares m m'' := by
  intro u hu
  obtain ⟨hu', hkept'⟩ := h' u hu
  obtain ⟨hu'', hkept⟩ := h u hu'
  exact ⟨hu'', fun w hin => hkept' w (hkept w hin)⟩

theorem Spares.stickyIn (h : Spares m m') (hin : StickyIn live m) : StickyIn live m' := by
  intro v hv w hw
  obtain ⟨hbefore, hkept⟩ := h v hv
  exact hkept w (hin v hbefore w hw)

/-- Only a view that is not sticky afterwards lost proxies. -/
theorem Spares.of_others (hself : (m'.view v).sticky = false)
    (hsticky : ∀ u, u ≠ v → (m'.view u).sticky = (m.view u).sticky)
    (hkept : ∀ u, u ≠ v → ∀ w, m.In u w → m'.In u w) : Spares m m' := by
  intro u hu
  have hne : u ≠ v := by
    rintro rfl
    rw [hself] at hu
    cases hu
  exact ⟨hsticky u hne ▸ hu, hkept u hne⟩

/-! ### One proxy -/

theorem viewSetCurrentProxy_grown (m : Membership) (v : ViewId) (p : ProxyId) :
    Grown m (m.viewSetCurrentProxy v p) :=
  .of_owner (viewSetCurrentProxy_family m v p).sticky (viewSetCurrentProxy_owner m v p)

/-- A destroyed proxy is the loss of its own view only. -/
theorem foldl_viewProxyDestroy_spared {l : List ProxyId} (h : Base world m)
    (hl : ∀ p ∈ l, p ∈ (m.view v).proxies) :
    Base world (l.foldl viewProxyDestroy m) ∧
      (∀ u, ((l.foldl viewProxyDestroy m).view u).sticky = (m.view u).sticky) ∧
      ∀ u, u ≠ v → ∀ w, m.In u w → (l.foldl viewProxyDestroy m).In u w := by
  have hown : ∀ p ∈ l, ∀ u w, m.owner p = some (u, w) → u = v := by
    intro p hp u w ho
    obtain ⟨w', ho'⟩ := (h.view_mem v p).mp (hl p hp)
    rw [ho, Option.some.injEq, Prod.mk.injEq] at ho'
    exact ho'.1
  clear hl
  induction l generalizing m with
  | nil => exact ⟨h, fun _ => rfl, fun _ _ _ hin => hin⟩
  | cons p l ih =>
    obtain ⟨hbase, hsticky, hkept⟩ := ih (viewProxyDestroy_base h p) fun q hq u w ho => by
      rw [viewProxyDestroy_owner] at ho
      split_ifs at ho
      exact hown q (List.mem_cons_of_mem _ hq) u w ho
    refine ⟨hbase, fun u => ?_, fun u hu w hin => hkept u hu w ?_⟩
    · exact (hsticky u).trans ((viewProxyDestroy_family m p).sticky u)
    · obtain ⟨q, hq⟩ := hin
      refine ⟨q, ?_⟩
      rw [viewProxyDestroy_owner, if_neg, hq]
      rintro rfl
      exact hu (hown q List.mem_cons_self u w hq)

theorem clearSticky_view (m : Membership) (v u : ViewId) :
    ((m.clearSticky v).view u).sticky = if u = v then false else (m.view u).sticky := by
  unfold clearSticky
  split_ifs with hst huv huv
  · rw [huv, setView_view_self]
  · rw [setView_view_of_ne _ _ huv]
  · rw [huv]
    exact Bool.eq_false_iff.mpr hst
  · rfl

theorem clearSticky_owner (m : Membership) (v : ViewId) : (m.clearSticky v).owner = m.owner := by
  unfold clearSticky
  split_ifs
  · rfl
  · rfl

/-- Writing fields that the links do not depend on. -/
theorem setView_base (h : Base world m) {x : View} (hproxies : x.proxies = (m.view v).proxies)
    (hparent : ∀ u, x.parent = some u → (m.view v).parent = some u ∨ u ∈ world.views) :
    Base world (m.setView v x) := by
  refine h.congr (fun u => ?_) (fun u y hy => ?_) rfl rfl rfl rfl
  · rcases eq_or_ne u v with rfl | hu
    · rw [setView_view_self, hproxies]
    · rw [setView_view_of_ne _ _ hu]
  · rcases eq_or_ne u v with rfl | hu
    · rw [setView_view_self] at hy
      exact (hparent y hy).elim (h.parent_mem u y) id
    · rw [setView_view_of_ne _ _ hu] at hy
      exact h.parent_mem u y hy

theorem setView_grown {x : View} (hsticky : x.sticky = (m.view v).sticky) :
    Grown m (m.setView v x) := by
  refine .of_owner (fun u => ?_) rfl
  rcases eq_or_ne u v with rfl | hu
  · rw [setView_view_self, hsticky]
  · rw [setView_view_of_ne _ _ hu]

theorem clearSticky_base (h : Base world m) : Base world (m.clearSticky v) := by
  unfold clearSticky
  split_ifs
  · exact setView_base h rfl fun _ => .inl
  · exact h

/-! ### Setting the workspace -/

theorem proxyIn_grown (h : Base world m) (hv : v ∈ world.views) (hw : world.live w) :
    Base world (m.proxyIn v w).1 ∧ Grown m (m.proxyIn v w).1 := by
  unfold proxyIn
  cases hfind : m.viewProxyByWorkspace v w with
  | some p => exact ⟨h, .refl m⟩
  | none =>
    have hnot := (viewProxyByWorkspace_eq_none h.toLinked).mp hfind
    refine ⟨viewProxyCreate_base h hnot hv hw, fun u => ?_, fun p o ho => ?_⟩
    · rw [viewProxyCreate_view]
      split_ifs with huv
      · rw [huv]
      · rfl
    · rw [viewProxyCreate_owner, if_neg (h.fresh p o ho).ne, ho]

theorem viewDoSetWorkspace_spares (hw : world.live w) : ∀ {n : ℕ} {m : Membership} {v : ViewId}
    {m' : Membership}, Base world m → v ∈ world.views → viewDoSetWorkspace w n m v = some m' →
    Base world m' ∧ Spares m m' := by
  intro n
  induction n with
  | zero =>
    intro m v m' _ _ hs
    cases hs
  | succ n ih =>
    intro m v m' h hv hs
    rw [viewDoSetWorkspace, Option.bind_eq_bind, Option.bind_eq_some_iff] at hs
    obtain ⟨m₁, hparents, hs⟩ := hs
    obtain ⟨h₁, hspares⟩ : Base world m₁ ∧ Spares m m₁ :=
      forModalParents_inv (I := fun a => Base world a ∧ Spares m a)
        (fun u hu a b ha hb => by
          obtain ⟨hbase, hab⟩ := ih ha.1 (h.parent_mem v u hu.2) hb
          exact ⟨hbase, ha.2.trans hab⟩)
        ⟨h, .refl m⟩ hparents
    obtain ⟨h₂, hgrown⟩ := proxyIn_grown h₁ hv hw
    rcases hp : m₁.proxyIn v w with ⟨m₂, p⟩
    rw [hp] at hs h₂ hgrown
    simp only [Option.some.injEq] at hs h₂ hgrown
    set m₃ := if (m₂.view v).treeParent ≠ .proxy p then m₂.viewSetCurrentProxy v p else m₂ with hm₃
    obtain ⟨h₃, hgrown₃⟩ : Base world m₃ ∧ Grown m₂ m₃ := by
      rw [hm₃]
      split_ifs
      · exact ⟨viewSetCurrentProxy_base h₂ v p, viewSetCurrentProxy_grown m₂ v p⟩
      · exact ⟨h₂, .refl m₂⟩
    obtain ⟨h₄, hsticky, hkept⟩ := foldl_viewProxyDestroy_spared
      (l := (m₃.view v).proxies.filter fun q => decide (q ≠ p)) (v := v) h₃ fun q hq =>
        List.mem_of_mem_filter hq
    rw [← hs]
    refine ⟨clearSticky_base h₄, (hspares.trans (hgrown.trans hgrown₃).spares).trans ?_⟩
    refine Spares.of_others (v := v) ?_ (fun u hu => ?_) fun u hu w' hin => ?_
    · rw [clearSticky_view, if_pos rfl]
    · rw [clearSticky_view, if_neg hu]
      exact hsticky u
    · rw [In, clearSticky_owner]
      exact hkept u hu w' hin

/-- All proxies of a view that is not sticky go. -/
theorem viewUnsetWorkspace_spares (h : Base world m) {layer : Layer}
    (hsticky : (m.view v).sticky = false) (hs : m.viewUnsetWorkspace v layer = some m') :
    Base world m' ∧ Spares m m' := by
  simp only [viewUnsetWorkspace] at hs
  set m₁ := m.setView v { m.view v with treeParent := .layer layer } with hm₁
  have h₁ : Base world m₁ := setView_base h rfl fun _ => .inl
  have hgrown : Grown m m₁ := setView_grown rfl
  split_ifs at hs
  · rw [Option.some.injEq] at hs
    exact hs ▸ ⟨h₁, hgrown.spares⟩
  · obtain ⟨rfl, -⟩ := viewClearCurrentProxy_eq_some hs
    obtain ⟨h₂, hst, hkept⟩ := foldl_viewProxyDestroy_spared (v := v) h₁ fun p hp => hp
    refine ⟨setView_base h₂ rfl fun _ => .inl, hgrown.spares.trans ?_⟩
    refine Spares.of_others (v := v) ?_ (fun u hu => ?_) hkept
    · rw [dropCurrent, setView_view_self]
      exact (hst v).trans ((hgrown.sticky v).trans hsticky)
    · rw [dropCurrent, setView_view_of_ne _ _ hu]
      exact hst u

/-! ### Joining workspaces -/

theorem join_grown (h : Base world m) (hv : v ∈ world.views) (hw : world.live w)
    (hnot : ¬ m.In v w) :
    Base world (m.join cur w v) ∧ Grown m (m.join cur w v) ∧ (m.join cur w v).In v w := by
  have hadded : Added cur w v m (m.join cur w v) := join_added h.toLinked hnot
  refine ⟨?_, ⟨hadded.sticky, hadded.kept⟩, m.next, ?_⟩
  · have hbase := viewProxyCreate_base h hnot hv hw
    unfold join
    split_ifs
    · exact viewSetCurrentProxy_base hbase v m.next
    · exact hbase
  · rw [join_owner, if_pos rfl]

theorem viewAddWorkspace_grown (hw : world.live w) : ∀ {n : ℕ} {m : Membership} {v : ViewId}
    {m' : Membership} {new : Option ProxyId}, Base world m → v ∈ world.views →
    viewAddWorkspace cur w n m v = some (m', new) → Base world m' ∧ Grown m m' ∧ m'.In v w := by
  intro n
  induction n with
  | zero =>
    intro m v m' new _ _ hs
    cases hs
  | succ n ih =>
    intro m v m' new h hv hs
    rw [viewAddWorkspace, Option.bind_eq_bind, Option.bind_eq_some_iff] at hs
    obtain ⟨m₁, hparents, hs⟩ := hs
    obtain ⟨h₁, hgrown⟩ : Base world m₁ ∧ Grown m m₁ :=
      forModalParents_inv (I := fun a => Base world a ∧ Grown m a)
        (fun u hu a b ha hb => by
          obtain ⟨⟨_, new'⟩, hcall, rfl⟩ := Option.map_eq_some_iff.mp hb
          obtain ⟨hbase, hab, -⟩ := ih ha.1 (h.parent_mem v u hu.2) hcall
          exact ⟨hbase, ha.2.trans hab⟩)
        ⟨h, .refl m⟩ hparents
    cases hfind : m₁.viewProxyByWorkspace v w with
    | some p =>
      rw [hfind] at hs
      cases hs
      exact ⟨h₁, hgrown, p, (viewProxyByWorkspace_eq_some h₁.toLinked).mp hfind⟩
    | none =>
      have hnot := (viewProxyByWorkspace_eq_none h₁.toLinked).mp hfind
      rw [hfind] at hs
      simp only [Option.some.injEq, Prod.mk.injEq] at hs
      obtain ⟨rfl, -⟩ := hs
      have hjoined : Base world (m₁.join cur w v) ∧ m₁.Grown (m₁.join cur w v) ∧
          (m₁.join cur w v).In v w := join_grown h₁ hv hw hnot
      exact ⟨hjoined.1, hgrown.trans hjoined.2.1, hjoined.2.2⟩

theorem viewAdd_grown (h : Base world m) (hv : v ∈ world.views) (hw : world.live w)
    (hs : viewAdd cur m v w = some m') : Base world m' ∧ Grown m m' ∧ m'.In v w := by
  obtain ⟨⟨_, new⟩, hcall, rfl⟩ := Option.map_eq_some_iff.mp hs
  exact viewAddWorkspace_grown hw h hv hcall

theorem foldlM_viewAdd_grown (hv : v ∈ world.views) : ∀ (order : List WorkspaceId) {m : Membership},
    Base world m → (∀ w ∈ order, world.live w) →
    order.foldlM (fun m w => viewAdd cur m v w) m = some m' →
    Base world m' ∧ Grown m m' ∧ ∀ w ∈ order, m'.In v w
  | [], _, h, _, hs => by
    cases hs
    exact ⟨h, .refl _, fun w hw => absurd hw List.not_mem_nil⟩
  | w :: order, m, h, hlive, hs => by
    rw [List.foldlM_cons, Option.bind_eq_bind, Option.bind_eq_some_iff] at hs
    obtain ⟨m₁, hcall, hs⟩ := hs
    obtain ⟨h₁, hgrown₁, hin⟩ := viewAdd_grown h hv (hlive w List.mem_cons_self) hcall
    obtain ⟨h₂, hgrown₂, hall⟩ := foldlM_viewAdd_grown hv order h₁
      (fun w' hw' => hlive w' (List.mem_cons_of_mem _ hw')) hs
    refine ⟨h₂, hgrown₁.trans hgrown₂, fun w' hw' => ?_⟩
    rcases List.mem_cons.mp hw' with rfl | hw'
    · exact hgrown₂.in_mono hin
    · exact hall w' hw'

/-- A view becomes sticky once it is everywhere. -/
theorem viewAddAllWorkspace_stickyIn {order : List WorkspaceId} (h : Base world m)
    (hst : StickyIn live m) (hv : v ∈ world.views) (hworld : ∀ w ∈ order, world.live w)
    (hlive : ∀ w, live w → w ∈ order) (hs : viewAddAllWorkspace cur order m v = some m') :
    Base world m' ∧ StickyIn live m' := by
  unfold viewAddAllWorkspace at hs
  split_ifs at hs
  · cases hs
    exact ⟨h, hst⟩
  · rw [Option.bind_eq_bind, Option.bind_eq_some_iff] at hs
    obtain ⟨m₁, hfold, hs⟩ := hs
    cases hs
    obtain ⟨h₁, hgrown, hall⟩ := foldlM_viewAdd_grown hv order h hworld hfold
    refine ⟨setView_base h₁ rfl fun _ => .inl, fun u hu w hw => ?_⟩
    change m₁.In u w
    rcases eq_or_ne u v with rfl | hne
    · exact hall w (hlive w hw)
    · rw [setView_view_of_ne _ _ hne] at hu
      exact hgrown.spares.stickyIn hst u hu w hw

/-- A view leaves a workspace and is not sticky any more, or it was in this one only and becomes
    sticky. -/
theorem viewRemoveWorkspace_stickyIn {order : List WorkspaceId}
    (hworld : ∀ w ∈ order, world.live w) (hlive : ∀ w, live w → w ∈ order) :
    ∀ {n : ℕ} {m : Membership} {v : ViewId} {m' : Membership}, Base world m → StickyIn live m →
    v ∈ world.views → viewRemoveWorkspace cur order w n m v = some m' →
    Base world m' ∧ StickyIn live m' := by
  intro n
  induction n with
  | zero =>
    intro m v m' _ _ _ hs
    cases hs
  | succ n ih =>
    intro m v m' h hst hv hs
    rw [viewRemoveWorkspace, Option.bind_eq_bind, Option.bind_eq_some_iff] at hs
    obtain ⟨m₁, hparents, hs⟩ := hs
    obtain ⟨h₁, hst₁⟩ : Base world m₁ ∧ StickyIn live m₁ :=
      forModalParents_inv (I := fun a => Base world a ∧ StickyIn live a)
        (fun u hu a b ha => ih ha.1 ha.2 (h.parent_mem v u hu.2)) ⟨h, hst⟩ hparents
    split at hs
    · cases hs
      exact ⟨h₁, hst₁⟩
    · next p hfind =>
      have howner := (viewProxyByWorkspace_eq_some h₁.toLinked).mp hfind
      split at hs
      · exact viewAddAllWorkspace_stickyIn h₁ hst₁ hv hworld hlive hs
      · next q _ =>
        simp only [Option.some.injEq] at hs
        rw [← hs]
        set m₂ := if (m₁.view v).current = some p then m₁.viewSetCurrentProxy v q else m₁ with hm₂
        obtain ⟨h₂, hgrown, howner₂⟩ : Base world m₂ ∧ Grown m₁ m₂ ∧ m₂.owner = m₁.owner := by
          rw [hm₂]
          split_ifs
          · exact ⟨viewSetCurrentProxy_base h₁ v q, viewSetCurrentProxy_grown m₁ v q,
              viewSetCurrentProxy_owner m₁ v q⟩
          · exact ⟨h₁, .refl m₁, rfl⟩
        have hp : p ∈ (m₂.view v).proxies :=
          (h₂.view_mem v p).mpr ⟨w, (congrFun howner₂ p).trans howner⟩
        obtain ⟨h₃, hsticky, hkept⟩ := foldl_viewProxyDestroy_spared (l := [p]) (v := v) h₂
          fun r hr => List.mem_singleton.mp hr ▸ hp
        refine ⟨clearSticky_base h₃, Spares.stickyIn ?_ (hgrown.spares.stickyIn hst₁)⟩
        refine Spares.of_others (v := v) ?_ (fun u hu => ?_) fun u hu w' hin => ?_
        · rw [clearSticky_view, if_pos rfl]
        · rw [clearSticky_view, if_neg hu]
          exact hsticky u
        · rw [In, clearSticky_owner]
          exact hkept u hu w' hin

/-! ### Layers and parents -/

theorem moveProxies_base (h : Base world m) (l : WorkspaceLayer) :
    Base world (m.moveProxies v l) ∧ Grown m (m.moveProxies v l) :=
  ⟨h.congr (fun _ => rfl) h.parent_mem (moveProxies_owner m v l) rfl rfl rfl,
    .of_owner (fun _ => rfl) (moveProxies_owner m v l)⟩

theorem viewSetLayerInWorkspace_grown (h : Base world m) (layer : Layer) :
    Base world (m.viewSetLayerInWorkspace v layer) ∧
      Grown m (m.viewSetLayerInWorkspace v layer) := by
  unfold viewSetLayerInWorkspace
  split_ifs
  · exact ⟨h, .refl m⟩
  · exact ⟨setView_base h rfl fun _ => .inl, setView_grown rfl⟩
  · split
    · exact ⟨h, .refl m⟩
    · exact moveProxies_base h _

/-- What both `kept` setters do. -/
theorem setView_moveProxies_grown (h : Base world m) {x : View} {l : WorkspaceLayer}
    (hproxies : x.proxies = (m.view v).proxies) (hparent : x.parent = (m.view v).parent)
    (hsticky : x.sticky = (m.view v).sticky) :
    Base world ((m.setView v x).moveProxies v l) ∧ Grown m ((m.setView v x).moveProxies v l) := by
  have hset : Base world (m.setView v x) := setView_base h hproxies fun u hu => .inl (hparent ▸ hu)
  obtain ⟨hbase, hgrown⟩ := moveProxies_base (v := v) hset l
  exact ⟨hbase, (setView_grown hsticky).trans hgrown⟩

theorem viewSetKeptAbove_grown (h : Base world m) {b : Bool}
    (hs : m.viewSetKeptAbove v b = some m') : Base world m' ∧ Grown m m' := by
  simp only [viewSetKeptAbove] at hs
  split_ifs at hs
  · cases hs
    exact ⟨h, .refl m⟩
  all_goals
    cases hs
    exact setView_moveProxies_grown h rfl rfl rfl

theorem viewSetKeptBelow_grown (h : Base world m) {b : Bool}
    (hs : m.viewSetKeptBelow v b = some m') : Base world m' ∧ Grown m m' := by
  simp only [viewSetKeptBelow] at hs
  split_ifs at hs
  · cases hs
    exact ⟨h, .refl m⟩
  all_goals
    cases hs
    exact setView_moveProxies_grown h rfl rfl rfl

theorem viewReparentFullscreen_grown (h : Base world m) (active : Bool) :
    Base world (m.viewReparentFullscreen v active) ∧
      Grown m (m.viewReparentFullscreen v active) := by
  simp only [viewReparentFullscreen]
  split_ifs
  · exact ⟨setView_base h rfl fun _ => .inl, setView_grown rfl⟩
  · cases hcur : (m.view v).current with
    | none => exact ⟨h, .refl m⟩
    | some p => exact ⟨setView_base h rfl fun _ => .inl, setView_grown rfl⟩

/-- A view leaves its workspaces when its new parent is in none. -/
theorem viewFollowParentLayer_spares (h : Base world m) (hv : v ∈ world.views)
    (hworld : ∀ w, world.live w) {parent : ViewId} {layer : Layer}
    (hparent : (m.view v).sticky = true → (m.view parent).current ≠ none)
    (hs : viewFollowParentLayer cur m v parent layer = some m') : Base world m' ∧ Spares m m' := by
  unfold viewFollowParentLayer at hs
  split at hs
  · cases hs
    obtain ⟨hbase, hgrown⟩ := viewSetLayerInWorkspace_grown (v := v) h layer
    exact ⟨hbase, hgrown.spares⟩
  · next hnone =>
    refine viewUnsetWorkspace_spares h (Bool.eq_false_iff.mpr fun hst => ?_) hs
    exact hparent hst hnone
  · simp only [Option.bind_eq_bind, Option.bind_eq_some_iff] at hs
    obtain ⟨x, -, m₁, hadd, hs⟩ := hs
    cases hs
    obtain ⟨h₁, hgrown₁, -⟩ := viewAdd_grown h hv (hworld _) hadd
    obtain ⟨hbase, hgrown⟩ := viewSetLayerInWorkspace_grown (v := v) h₁ layer
    exact ⟨hbase, (hgrown₁.trans hgrown).spares⟩
  · cases hs
    refine ⟨setView_base h rfl fun _ => .inl, Grown.spares ?_⟩
    exact setView_grown rfl

theorem viewSetParent_spares (h : Base world m) (hv : v ∈ world.views)
    (hworld : ∀ w, world.live w) {parent : Option ViewId} (hviews : ∀ u ∈ parent, u ∈ world.views)
    (hparent : ∀ u ∈ parent, (m.view v).sticky = true → (m.view u).current ≠ none)
    (hs : viewSetParent cur m v parent = some m') : Base world m' ∧ Spares m m' := by
  unfold viewSetParent at hs
  split_ifs at hs with hsame
  · cases hs
    exact ⟨h, .refl m⟩
  · rw [Option.bind_eq_bind, Option.bind_eq_some_iff] at hs
    obtain ⟨m₁, hmove, hs⟩ := hs
    cases hs
    have hrelink : Base world (m.relink v parent) :=
      h.congr (fun _ => rfl) h.parent_mem rfl rfl rfl rfl
    have hgrown : Grown m (m.relink v parent) := .of_owner (fun _ => rfl) rfl
    obtain ⟨h₁, hspares⟩ : Base world m₁ ∧ Spares (m.relink v parent) m₁ := by
      cases parent with
      | none =>
        cases hmove
        exact ⟨hrelink, .refl _⟩
      | some u =>
        simp only [raiseToParent, Option.bind_eq_bind, Option.bind_eq_some_iff] at hmove
        obtain ⟨_, -, _, -, hmove⟩ := hmove
        split_ifs at hmove
        · exact viewFollowParentLayer_spares hrelink hv hworld (hparent u rfl) hmove
        · cases hmove
          exact ⟨hrelink, .refl _⟩
    refine ⟨setView_base h₁ rfl fun u hu => .inr (hviews u hu),
      (hgrown.spares.trans hspares).trans (Grown.spares ?_)⟩
    exact setView_grown rfl

/-- A new view is not sticky. -/
theorem newView_spares (m : Membership) (v : ViewId) (w : WorkspaceId) :
    Spares m (m.newView v w) := by
  refine Spares.of_others (v := v) ?_ (fun u hu => ?_) fun u _ w' hin => hin
  · rw [newView_view, if_pos rfl]
  · rw [newView_view, if_neg hu]

end Membership

open FlakeWm.Workspaces.Membership

variable {s s' : State}

/-! ### States -/

/-- The views of a state, in whatever workspaces. -/
def State.anywhere (s : State) : World := ⟨s.mem.views, fun _ => True⟩

/-- The links are right, and the sticky views are in all live workspaces. -/
structure Sticks (s : State) : Prop where
  base : Base s.anywhere s.mem
  sticky : StickyIn (fun w => s.mgr.live w = true) s.mem

theorem sticks_of_base {world : World} (h : Base world s.mem)
    (hsticky : StickyIn (fun w => s.mgr.live w = true) s.mem) : Sticks s := by
  refine ⟨⟨h.toLinked, rfl, fun v u hu => ?_, fun p v w hp => ⟨?_, trivial⟩⟩, hsticky⟩
  · rw [State.anywhere, h.views]
    exact h.parent_mem v u hu
  · rw [State.anywhere, h.views]
    exact (h.owner_mem p v w hp).1

/-- The workspaces changed, but no live one is new. -/
theorem Sticks.of_live {m : Manager} (h : Sticks s)
    (hlive : ∀ w, m.live w = true → s.mgr.live w = true) : Sticks { s with mgr := m } :=
  sticks_of_base (s := { s with mgr := m }) h.base fun v hv w hw => h.sticky v hv w (hlive w hw)

theorem onViews_sticks {vs : List ViewId} {mem : Option Membership}
    (hmem : ∀ m, (∀ v ∈ vs, v ∈ s.mem.views) → mem = some m →
      Base s.anywhere m ∧ StickyIn (fun w => s.mgr.live w = true) m)
    (hs : onViews s vs mem = some s') : Sticks s' := by
  unfold onViews at hs
  split_ifs at hs with hviews
  obtain ⟨m, hm, rfl⟩ := Option.map_eq_some_iff.mp hs
  obtain ⟨hbase, hst⟩ := hmem m hviews hm
  exact sticks_of_base (s := { s with mem := m }) hbase hst

theorem onWorkspace_sticks {v : ViewId} {w : WorkspaceId} {mem : Option Membership}
    (hmem : ∀ m, v ∈ s.mem.views → mem = some m →
      Base s.anywhere m ∧ StickyIn (fun w => s.mgr.live w = true) m)
    (hs : onWorkspace s v w mem = some s') : Sticks s' := by
  unfold onWorkspace at hs
  split_ifs at hs
  exact onViews_sticks (fun m hv hm => hmem m (hv v (List.mem_singleton.mpr rfl)) hm) hs

/-! ### Activation -/

theorem foldl_showProxy_grown {world : World} : ∀ (l : List ProxyId) {m : Membership},
    Base world m → Base world (l.foldl showProxy m) ∧ Grown m (l.foldl showProxy m)
  | [], m, h => ⟨h, .refl m⟩
  | p :: l, m, h => by
    obtain ⟨h₁, hgrown₁⟩ : Base world (m.showProxy p) ∧ Grown m (m.showProxy p) := by
      unfold showProxy
      split
      · exact ⟨h, .refl m⟩
      · next x _ => exact ⟨viewSetCurrentProxy_base h x.view p, viewSetCurrentProxy_grown m x.view p⟩
    obtain ⟨h₂, hgrown₂⟩ := foldl_showProxy_grown l h₁
    exact ⟨h₂, hgrown₁.trans hgrown₂⟩

theorem workspaceSetActivated_sticks (h : Sticks s) (w : WorkspaceId) (b : Bool) :
    Sticks (workspaceSetActivated s w b) := by
  unfold workspaceSetActivated
  split_ifs
  · exact h
  · obtain ⟨hbase, hgrown⟩ := foldl_showProxy_grown (s.mem.listed w) h.base
    exact sticks_of_base (s := ⟨s.mgr.setActivated w b, s.mem.showProxies w⟩) hbase
      (hgrown.spares.stickyIn h.sticky)

theorem workspaceActivate_sticks (h : Sticks s) (w : WorkspaceId) :
    Sticks (workspaceActivate s w) := by
  have hset : ∀ {s₁ : State}, Sticks s₁ →
      Sticks (workspaceSetActivated (setCurrent s₁ w) w true) := by
    intro s₁ h₁
    have h₂ : Sticks (setCurrent s₁ w) := h₁.of_live fun _ hu => hu
    exact workspaceSetActivated_sticks h₂ w true
  unfold workspaceActivate
  split_ifs
  · exact h
  · cases s.mgr.current with
    | none => exact hset h
    | some old => exact hset (workspaceSetActivated_sticks h old false)

/-! ### Creation -/

/-- The first workspace stays the first, unless the new one takes its place. -/
theorem insert_slots_zero {m : Manager} (h : Manager.Inv m) (hroom : m.count ≠ MAX_WORKSPACES)
    (name : Option String) {position : ℕ} (hpos : position ≠ 0) :
    (m.insert name position).slots 0 = m.slots 0 := by
  obtain ⟨hok, -, horder, -, -⟩ := h.insert_ok hroom name position
  have hone := h.count_pos
  have hclamped : m.clamped position ≠ 0 := by
    unfold Manager.clamped
    split_ifs <;> omega
  have hsome : (m.insert name position).count ≠ 0 := by
    have hlen := congrArg List.length horder
    rw [Manager.order, length_listing, Manager.order, List.length_insertIdx, length_listing] at hlen
    split_ifs at hlen <;> omega
  have hfirst := congrArg (·[0]?) horder
  simp only [Manager.order, getElem?_listing] at hfirst
  rw [List.getElem?_insertIdx_of_lt (by omega), getElem?_listing, if_pos (by omega),
    if_pos (by omega), Option.some.injEq] at hfirst
  exact hfirst

/-- Every sticky view that has a proxy in the list joins the workspace. -/
theorem foldlM_autoAddView_grown {world : World} {cur : Option WorkspaceId} {w : WorkspaceId}
    {m' : Membership} (hw : world.live w) : ∀ (l : List ProxyId) {m : Membership},
    Base world m → l.foldlM (autoAddView cur w) m = some m' →
    Base world m' ∧ Grown m m' ∧ ∀ p ∈ l, ∀ v w', m.owner p = some (v, w') →
      (m.view v).sticky = true → m'.In v w
  | [], _, h, hs => by
    cases hs
    exact ⟨h, .refl _, fun p hp => absurd hp List.not_mem_nil⟩
  | p :: l, m, h, hs => by
    rw [List.foldlM_cons, Option.bind_eq_bind, Option.bind_eq_some_iff] at hs
    obtain ⟨m₁, hadd, hs⟩ := hs
    obtain ⟨h₁, hgrown₁, hjoined⟩ : Base world m₁ ∧ Grown m m₁ ∧ ∀ v w', m.owner p = some (v, w') →
        (m.view v).sticky = true → m₁.In v w := by
      unfold autoAddView at hadd
      cases hx : m.proxy p with
      | none =>
        rw [hx] at hadd
        cases hadd
        refine ⟨h, .refl m, fun v w' ho => ?_⟩
        rw [owner, hx] at ho
        cases ho
      | some x =>
        have howner : m.owner p = some (x.view, x.workspace) := by rw [owner, hx, Option.map_some]
        rw [hx] at hadd
        simp only at hadd
        split_ifs at hadd with hst
        · obtain ⟨h₁, hgrown₁, hin⟩ := viewAdd_grown h (h.owner_mem p _ _ howner).1 hw hadd
          refine ⟨h₁, hgrown₁, fun v w' ho _ => ?_⟩
          rw [howner, Option.some.injEq, Prod.mk.injEq] at ho
          exact ho.1 ▸ hin
        · cases hadd
          refine ⟨h, .refl m, fun v w' ho hv => ?_⟩
          rw [howner, Option.some.injEq, Prod.mk.injEq] at ho
          exact absurd (ho.1 ▸ hv) hst
    obtain ⟨h₂, hgrown₂, hall⟩ := foldlM_autoAddView_grown hw l h₁ hs
    refine ⟨h₂, hgrown₁.trans hgrown₂, fun q hq v w' ho hv => ?_⟩
    rcases List.mem_cons.mp hq with rfl | hq
    · exact hgrown₂.in_mono (hjoined v w' ho hv)
    · exact hall q hq v w' (hgrown₁.kept q _ ho) ((hgrown₁.sticky v).trans hv)

/-- The manager is full, the first workspace stays the first, or there is no sticky view. -/
def findsSticky (s : State) (position : ℕ) : Prop :=
  s.mgr.count = MAX_WORKSPACES ∨ position ≠ 0 ∨ ∀ v, (s.mem.view v).sticky = false

theorem workspaceCreate_sticks {name : Option String} {position : ℕ} (hm : Manager.Inv s.mgr)
    (h : Sticks s) (hfind : findsSticky s position)
    (hs : workspaceCreate s name position = some s') : Sticks s' := by
  unfold workspaceCreate at hs
  split_ifs at hs with hfull
  · cases hs
    exact h
  · obtain ⟨-, -, -, -, hlive⟩ := hm.insert_ok hfull name position
    unfold workspaceAutoAddViews at hs
    rw [Option.bind_eq_bind, Option.bind_eq_some_iff] at hs
    obtain ⟨mem, hfold, hs⟩ := hs
    cases hs
    obtain ⟨hbase, hgrown, hjoined⟩ := foldlM_autoAddView_grown trivial _ h.base hfold
    refine sticks_of_base (s := ⟨s.mgr.insert name position, mem⟩) hbase fun v hv w hw => ?_
    change (mem.view v).sticky = true at hv
    change (s.mgr.insert name position).live w = true at hw
    rw [hgrown.sticky] at hv
    rw [hlive] at hw
    rcases eq_or_ne w s.mgr.next with rfl | hne
    · -- the view has a proxy in the first workspace, which is still the first
      rcases hfind with hcount | hpos | hnone
      · exact absurd hcount hfull
      · have hfirst : s.mgr.live (s.mgr.slots 0) = true :=
          (hm.live_iff _).mpr ⟨0, hm.count_pos, rfl⟩
        obtain ⟨p, hp⟩ := h.sticky v hv _ hfirst
        refine hjoined p ?_ v _ hp hv
        change p ∈ s.mem.listed ((s.mgr.insert name position).slots 0)
        rw [insert_slots_zero hm hfull name hpos]
        exact (h.base.listed_mem _ p).mpr ⟨v, hp⟩
      · rw [hnone v] at hv
        cases hv
    · rw [Function.update_of_ne hne] at hw
      exact hgrown.in_mono (h.sticky v hv w hw)

/-! ### Destruction -/

/-- A turn of the loop in `fix_workspace` destroys one proxy and keeps all others. -/
theorem moveToTarget_kept {world : World} {cur : Option WorkspaceId} {target : WorkspaceId}
    {m m' : Membership} {p : ProxyId} (h : Base world m) (htarget : world.live target)
    (hs : moveToTarget cur target m p = some m') :
    Base world m' ∧ (∀ u, (m'.view u).sticky = (m.view u).sticky) ∧
      ∀ q o, q ≠ p → m.owner q = some o → m'.owner q = some o := by
  cases hx : m.proxy p with
  | none =>
    unfold moveToTarget at hs
    rw [hx] at hs
    cases hs
    exact ⟨h, fun _ => rfl, fun _ _ _ ho => ho⟩
  | some x =>
    obtain ⟨m₁, new, hcall, rfl⟩ := moveToTarget_cases hx hs
    have howner : m.owner p = some (x.view, x.workspace) := by rw [owner, hx, Option.map_some]
    obtain ⟨h₁, hgrown, -⟩ := viewAddWorkspace_grown htarget h (h.owner_mem p _ _ howner).1 hcall
    obtain ⟨h₂, hgrown₂⟩ : Base world (m₁.carryBy x.view new) ∧
        Grown m₁ (m₁.carryBy x.view new) := by
      cases new with
      | none => exact ⟨h₁, .refl m₁⟩
      | some q => exact ⟨viewSetCurrentProxy_base h₁ x.view q, viewSetCurrentProxy_grown m₁ x.view q⟩
    refine ⟨viewProxyDestroy_base h₂ p, fun u => ?_, fun q o hq ho => ?_⟩
    · rw [(viewProxyDestroy_family _ p).sticky]
      exact (hgrown.trans hgrown₂).sticky u
    · rw [viewProxyDestroy_owner, if_neg hq]
      exact (hgrown.trans hgrown₂).kept q o ho

theorem workspaceDestroy_sticks {w : WorkspaceId} (hm : Manager.Inv s.mgr) (h : Sticks s)
    (hw : s.mgr.live w = true) (hmany : 1 < s.mgr.count) (hs : workspaceDestroy s w = some s') :
    Sticks s' := by
  obtain ⟨-, -, hkept, -⟩ := Manager.remove_ok hm.toArrayOk hw
  obtain ⟨mem, hfold, rfl⟩ := workspaceDestroy_cases hm hw hmany hs
  have h₁ : Sticks { s with mgr := s.mgr.remove w } := by
    refine h.of_live fun u hu => ?_
    rw [← hkept.live]
    exact hu
  have h₂ : Sticks (withSuccessor s w) := by
    unfold withSuccessor
    split_ifs
    · exact workspaceActivate_sticks h₁ _
    · exact h₁
  set s₂ := withSuccessor s w
  -- only proxies of the destroyed workspace go
  obtain ⟨hbase, hsticky, hothers⟩ := foldlM_inv (s₂.mem.listed w)
    (I := fun m => Base s₂.anywhere m ∧ (∀ u, (m.view u).sticky = (s₂.mem.view u).sticky) ∧
      ∀ q o, q ∉ s₂.mem.listed w → s₂.mem.owner q = some o → m.owner q = some o)
    ⟨h₂.base, fun _ => rfl, fun _ _ _ ho => ho⟩ (fun p hp a b ha hb => by
      obtain ⟨ha, hsticky, hothers⟩ := ha
      obtain ⟨hb, hsame, hkept⟩ := moveToTarget_kept ha trivial hb
      refine ⟨hb, fun u => (hsame u).trans (hsticky u), fun q o hq ho => ?_⟩
      exact hkept q o (fun heq => hq (heq ▸ hp)) (hothers q o hq ho)) hfold
  refine sticks_of_base (s := ⟨s₂.mgr.free w, mem⟩) hbase fun v hv u hu => ?_
  change (mem.view v).sticky = true at hv
  change Function.update s₂.mgr.live w false u = true at hu
  rw [hsticky] at hv
  have hne : u ≠ w := by
    rintro rfl
    rw [Function.update_self] at hu
    cases hu
  rw [Function.update_of_ne hne] at hu
  obtain ⟨p, hp⟩ := h₂.sticky v hv u hu
  refine ⟨p, hothers p _ (fun hmem => ?_) hp⟩
  obtain ⟨v', hv'⟩ := (h₂.base.listed_mem w p).mp hmem
  rw [hp, Option.some.injEq, Prod.mk.injEq] at hv'
  exact hne hv'.2

/-! ### Runs -/

/-- Every sticky view has a proxy in every live workspace. -/
def StickyEverywhere (s : State) : Prop :=
  ∀ v, (s.mem.view v).sticky = true → ∀ w, s.mgr.live w = true →
    ∃ p, s.mem.viewProxyByWorkspace v w = some p

/-- The events that keep the sticky views everywhere, where they are handled. Apart from the
    creation of a workspace, only two can take a sticky view out of its workspaces without clearing
    its mark: `view_unset_workspace`, and `view_set_parent` with a parent that is in none. -/
def keepsSticky (s : State) : Event → Prop
  | .workspaceCreate _ position => findsSticky s position
  | .viewUnsetWorkspace v _ => (s.mem.view v).sticky = false
  | .viewSetParent v parent =>
    ∀ u ∈ parent, (s.mem.view v).sticky = true → (s.mem.view u).current ≠ none
  | _ => True

theorem sticks_step (hm : Manager.Inv s.mgr) (h : Sticks s) (e : Event) (he : keepsSticky s e)
    (hs : step s e = some s') : Sticks s' := by
  have horder : ∀ w, s.mgr.live w = true → w ∈ s.mgr.order := fun w hw =>
    mem_listing.mpr ((hm.live_iff w).mp hw)
  have hspared : ∀ {m : Membership}, Base s.anywhere m ∧ Spares s.mem m →
      Base s.anywhere m ∧ StickyIn (fun w => s.mgr.live w = true) m := fun hm =>
    ⟨hm.1, hm.2.stickyIn h.sticky⟩
  have hgrown : ∀ {m : Membership}, Base s.anywhere m ∧ Grown s.mem m →
      Base s.anywhere m ∧ StickyIn (fun w => s.mgr.live w = true) m := fun hm =>
    hspared ⟨hm.1, hm.2.spares⟩
  have hone : ∀ {v : ViewId}, (∀ u ∈ [v], u ∈ s.mem.views) → v ∈ s.anywhere.views := fun hv =>
    hv _ (List.mem_singleton.mpr rfl)
  cases e
  case workspaceCreate name position => exact workspaceCreate_sticks hm h he hs
  case workspaceDestroy w =>
    rw [step, Option.ite_none_right_eq_some] at hs
    exact workspaceDestroy_sticks hm h hs.1.1 hs.1.2 hs.2
  case workspaceActivate w =>
    rw [step, Option.ite_none_right_eq_some, Option.some.injEq] at hs
    obtain ⟨-, rfl⟩ := hs
    exact workspaceActivate_sticks h w
  case workspaceSetPosition w position =>
    rw [step, Option.ite_none_right_eq_some, Option.some.injEq] at hs
    obtain ⟨hw, rfl⟩ := hs
    obtain ⟨-, hkept, -⟩ := Manager.workspaceSetPosition_ok hm.toArrayOk hw position
    exact h.of_live fun u hu => by rwa [hkept.live] at hu
  case viewInit v =>
    obtain ⟨w, hcur, -⟩ := hm.current
    rw [step, hcur] at hs
    simp only at hs
    split_ifs at hs with hv
    obtain ⟨m, hset, rfl⟩ := Option.map_eq_some_iff.mp hs
    obtain ⟨hbase, hspares⟩ := viewDoSetWorkspace_spares trivial (newView_base h.base hv)
      List.mem_cons_self hset
    exact sticks_of_base (s := { s with mem := m }) hbase
      (((newView_spares s.mem v w).trans hspares).stickyIn h.sticky)
  case viewSetModal v modal =>
    refine onViews_sticks (fun m _ hm' => ?_) hs
    cases hm'
    refine hgrown ⟨setView_base h.base rfl fun _ => .inl, ?_⟩
    exact setView_grown rfl
  case viewSetWorkspace v w =>
    exact onWorkspace_sticks
      (fun m hv hm' => hspared (viewDoSetWorkspace_spares trivial h.base hv hm')) hs
  case viewUnsetWorkspace v layer =>
    exact onViews_sticks (fun m _ hm' => hspared (viewUnsetWorkspace_spares h.base he hm')) hs
  case viewAddWorkspace v w =>
    refine onWorkspace_sticks (fun m hv hm' => ?_) hs
    obtain ⟨hbase, hadd, -⟩ := viewAdd_grown h.base hv trivial hm'
    exact hgrown ⟨hbase, hadd⟩
  case viewRemoveWorkspace v w =>
    exact onWorkspace_sticks (fun m hv hm' =>
      viewRemoveWorkspace_stickyIn (fun _ _ => trivial) horder h.base h.sticky hv hm') hs
  case viewAddAllWorkspace v =>
    exact onViews_sticks (fun m hv hm' => viewAddAllWorkspace_stickyIn h.base h.sticky (hone hv)
      (fun _ _ => trivial) horder hm') hs
  case viewSetParent v parent =>
    refine onViews_sticks (fun m hvs hm' => hspared ?_) hs
    refine viewSetParent_spares h.base (hvs v List.mem_cons_self) (fun _ => trivial)
      (fun u hu => ?_) he hm'
    exact hvs u (List.mem_cons_of_mem _ (Option.mem_toList.mpr hu))
  case viewSetKeptAbove v b =>
    exact onViews_sticks (fun m _ hm' => hgrown (viewSetKeptAbove_grown h.base hm')) hs
  case viewSetKeptBelow v b =>
    exact onViews_sticks (fun m _ hm' => hgrown (viewSetKeptBelow_grown h.base hm')) hs
  case viewReparentFullscreen v b =>
    refine onViews_sticks (fun m _ hm' => ?_) hs
    cases hm'
    exact hgrown (viewReparentFullscreen_grown h.base b)
  all_goals
    cases hs
    exact h.of_live fun _ hw => hw

/-- In every run from `handle_server_ready` in which no workspace is created in the first place
    while there are sticky views, and none of these is taken out of its workspaces, the sticky views
    are in every live workspace. -/
theorem sticky_views_everywhere (n : ℕ) :
    ∃ s₀, handleServerReady n = some s₀ ∧ ∀ s, Reach step keepsSticky s₀ s → StickyEverywhere s := by
  obtain ⟨m, hready, hm, -⟩ := handleServerReady_ok n (J := fun _ _ => True) trivial
    fun _ _ _ _ _ _ => trivial
  refine ⟨_, hready, fun s hreach => ?_⟩
  have hempty : Sticks ⟨m, .empty⟩ := sticks_of_base (empty_members m).base fun v hv => by cases hv
  have hinv : Manager.Inv s.mgr ∧ Sticks s := by
    refine hreach.inv (I := fun s => Manager.Inv s.mgr ∧ Sticks s) ⟨hm, hempty⟩ ?_
    rintro s e s' ⟨hi, hst⟩ he hs
    exact ⟨(mgr_inv_step hi e hs).1, sticks_step hi hst e he hs⟩
  intro v hv w hw
  obtain ⟨p, hp⟩ := hinv.2.sticky v hv w hw
  exact ⟨p, (viewProxyByWorkspace_eq_some hinv.2.base.toLinked).mpr hp⟩

/-- A workspace that is created in the first place does not get the sticky view. -/
theorem creation_in_first_place_misses_sticky :
    ¬ ∀ n s₀ s, handleServerReady n = some s₀ → Reach step Always s₀ s → StickyEverywhere s := by
  intro h
  obtain ⟨s₀, s, hready, hs, hsticky, hlive, hnone⟩ : ∃ s₀ s, handleServerReady 1 = some s₀ ∧
      exec step s₀ [.viewInit 0, .viewAddAllWorkspace 0, .workspaceCreate none 0] = some s ∧
      (s.mem.view 0).sticky = true ∧ s.mgr.live 1 = true ∧ s.mem.viewProxyByWorkspace 0 1 = none :=
    ⟨_, _, rfl, rfl, rfl, rfl, rfl⟩
  obtain ⟨p, hp⟩ := h 1 s₀ s hready (.of_exec _ _ hs) 0 hsticky 1 hlive
  rw [hnone] at hp
  cases hp

/-- At the end of the array the new workspace gets it. -/
theorem creation_in_last_place_adds_sticky :
    ∃ s₀ s, handleServerReady 1 = some s₀ ∧
      exec step s₀ [.viewInit 0, .viewAddAllWorkspace 0, .workspaceCreate none 1] = some s ∧
      (s.mem.view 0).sticky = true ∧ s.mgr.live 1 = true ∧ StickyEverywhere s := by
  obtain ⟨s₀, hready, hkept⟩ := sticky_views_everywhere 1
  obtain ⟨s₁, s₂, s₃, h₁, h₂, h₃, hsticky, hlive⟩ : ∃ s₁ s₂ s₃, step s₀ (.viewInit 0) = some s₁ ∧
      step s₁ (.viewAddAllWorkspace 0) = some s₂ ∧ step s₂ (.workspaceCreate none 1) = some s₃ ∧
      (s₃.mem.view 0).sticky = true ∧ s₃.mgr.live 1 = true := by
    cases hready
    exact ⟨_, _, _, rfl, rfl, rfl, rfl, rfl⟩
  refine ⟨s₀, s₃, hready, ?_, hsticky, hlive, hkept s₃ ?_⟩
  · simp [exec_cons, h₁, h₂, h₃]
  · exact ((Reach.init.next (.viewInit 0) trivial h₁).next (.viewAddAllWorkspace 0) trivial h₂).next
      (.workspaceCreate none 1) (Or.inr (Or.inl (by decide))) h₃

end FlakeWm.Workspaces
