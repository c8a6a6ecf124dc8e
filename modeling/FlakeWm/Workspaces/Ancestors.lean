import FlakeWm.Schemes.Walk
import FlakeWm.Workspaces.Sticky

/-! The ancestors that a modal view takes along.

    The three membership functions loop over the parents of a modal view up to the next modal one,
    but call themselves on `view->parent` in every round: the other parents stay where they are. The
    second round matters all the same, when the parent leaves a workspace: the first one makes a
    parent sticky that was in this workspace only, and the second takes it out again. And a modal
    view that becomes sticky itself pulls its parent into every workspace, the one it just left
    included. `carriesAll` and `removesAll` say when nothing of this shows. -/

namespace FlakeWm.Workspaces

namespace Membership

variable {world : World} {c : Option WorkspaceId} {order : List WorkspaceId}
variable {P Q : ViewId → Prop} {m m' m'' m₀ : Membership} {v u a : ViewId} {w : WorkspaceId} {n : ℕ}

def ChildOf (m : Membership) (x u : ViewId) : Prop := (m.view x).parent = some u

/-! ### What stays -/

/-- Only views in `P` changed what they are in and whether they are sticky. -/
structure Within (P : ViewId → Prop) (m m' : Membership) : Prop where
  parent : ∀ u, (m'.view u).parent = (m.view u).parent
  modal : ∀ u, (m'.view u).modal = (m.view u).modal
  views : m'.views = m.views
  stays : ∀ u, ¬ P u → ∀ w, m'.In u w ↔ m.In u w
  sticky : ∀ u, ¬ P u → (m'.view u).sticky = (m.view u).sticky

theorem Within.refl (m : Membership) : Within P m m :=
  ⟨fun _ => rfl, fun _ => rfl, rfl, fun _ _ _ => Iff.rfl, fun _ _ => rfl⟩

theorem Within.trans (h : Within P m m') (h' : Within P m' m'') : Within P m m'' :=
  ⟨fun u => (h'.parent u).trans (h.parent u), fun u => (h'.modal u).trans (h.modal u),
    h'.views.trans h.views, fun u hu w => (h'.stays u hu w).trans (h.stays u hu w),
    fun u hu => (h'.sticky u hu).trans (h.sticky u hu)⟩

theorem Within.mono (h : Within P m m') (hPQ : ∀ u, P u → Q u) : Within Q m m' :=
  ⟨h.parent, h.modal, h.views, fun u hu => h.stays u (mt (hPQ u) hu),
    fun u hu => h.sticky u (mt (hPQ u) hu)⟩

theorem Within.pulls (h : Within P m m') : m'.Pulls = m.Pulls := by
  funext v u
  rw [Pulls, Pulls, h.modal, h.parent]

theorem Within.pulled (h : Within P m m') : m'.Pulled = m.Pulled := by
  rw [Pulled, Pulled, h.pulls]

theorem Within.childOf (h : Within P m m') : m'.ChildOf = m.ChildOf := by
  funext x u
  rw [ChildOf, ChildOf, h.parent]

/-- No proxy comes or goes, and no view changes its relatives. -/
theorem within_of_owner (h : SameFamily m m') (howner : m'.owner = m.owner) : Within P m m' := by
  refine ⟨h.parent, h.modal, h.views, fun u _ w => ?_, fun u _ => h.sticky u⟩
  rw [In, In, howner]

theorem clearSticky_within (m : Membership) (v : ViewId) : Within (· = v) m (m.clearSticky v) := by
  have hfield : ∀ u, ((m.clearSticky v).view u).parent = (m.view u).parent ∧
      ((m.clearSticky v).view u).modal = (m.view u).modal := by
    intro u
    unfold clearSticky
    split_ifs
    · rcases eq_or_ne u v with rfl | hu
      · simp
      · simp [setView_view_of_ne _ _ hu]
    · exact ⟨rfl, rfl⟩
  refine ⟨fun u => (hfield u).1, fun u => (hfield u).2, ?_, fun u _ w => ?_, fun u hu => ?_⟩
  · unfold clearSticky
    split_ifs
    · rfl
    · rfl
  · rw [In, In, clearSticky_owner]
  · rw [clearSticky_view, if_neg hu]

theorem viewProxyDestroy_within {p : ProxyId} (hp : ∀ u w, m.owner p = some (u, w) → u = v) :
    Within (· = v) m (m.viewProxyDestroy p) := by
  have h := viewProxyDestroy_family m p
  refine ⟨h.parent, h.modal, h.views, fun u hu w => ?_, fun u _ => h.sticky u⟩
  constructor
  · rintro ⟨q, hq⟩
    rw [viewProxyDestroy_owner] at hq
    split_ifs at hq
    exact ⟨q, hq⟩
  · rintro ⟨q, hq⟩
    refine ⟨q, ?_⟩
    rw [viewProxyDestroy_owner, if_neg, hq]
    rintro rfl
    exact hu (hp u w hq)

theorem foldl_viewProxyDestroy_within : ∀ (l : List ProxyId) {m : Membership},
    (∀ p ∈ l, ∀ u w, m.owner p = some (u, w) → u = v) →
    Within (· = v) m (l.foldl viewProxyDestroy m)
  | [], m, _ => .refl m
  | p :: l, m, hown => by
      refine (viewProxyDestroy_within (hown p List.mem_cons_self)).trans
        (foldl_viewProxyDestroy_within l fun q hq u w ho => ?_)
      rw [viewProxyDestroy_owner] at ho
      split_ifs at ho
      exact hown q (List.mem_cons_of_mem p hq) u w ho

theorem foldl_viewProxyDestroy_owner {p : ProxyId} : ∀ (l : List ProxyId) {m : Membership}, p ∉ l →
    (l.foldl viewProxyDestroy m).owner p = m.owner p
  | [], _, _ => rfl
  | q :: l, m, hp => by
      rw [List.mem_cons, not_or] at hp
      rw [List.foldl_cons, foldl_viewProxyDestroy_owner l hp.2, viewProxyDestroy_owner, if_neg hp.1]

theorem viewProxyCreate_within (h : Linked m) (v : ViewId) (w : WorkspaceId) :
    Within (· = v) m (m.viewProxyCreate v w) := by
  refine ⟨fun u => ?_, fun u => ?_, rfl, fun u hu w' => ?_, fun u hu => ?_⟩
  · rw [viewProxyCreate_view]
    split_ifs with huv
    · rw [huv]
    · rfl
  · rw [viewProxyCreate_view]
    split_ifs with huv
    · rw [huv]
    · rfl
  · rw [viewProxyCreate_in h]
    exact or_iff_left fun hand => hu hand.1
  · rw [viewProxyCreate_view, if_neg hu]

theorem proxyIn_within (h : Linked m) (v : ViewId) (w : WorkspaceId) :
    Within (· = v) m (m.proxyIn v w).1 ∧ (m.proxyIn v w).1.owner (m.proxyIn v w).2 = some (v, w) := by
  unfold proxyIn
  cases hfind : m.viewProxyByWorkspace v w with
  | some p => exact ⟨.refl m, (viewProxyByWorkspace_eq_some h).mp hfind⟩
  | none => exact ⟨viewProxyCreate_within h v w, by simp [viewProxyCreate_owner]⟩

theorem setSticky_within (m : Membership) (v : ViewId) :
    Within (· = v) m (m.setView v { m.view v with sticky := true }) := by
  refine ⟨fun u => ?_, fun u => ?_, rfl, fun u _ w => Iff.rfl, fun u hu => ?_⟩
  · rcases eq_or_ne u v with rfl | hu
    · rw [setView_view_self]
    · rw [setView_view_of_ne _ _ hu]
  · rcases eq_or_ne u v with rfl | hu
    · rw [setView_view_self]
    · rw [setView_view_of_ne _ _ hu]
  · rw [setView_view_of_ne _ _ hu]

/-! ### Setting the workspace -/

/-- What `view_do_set_workspace` does after its parents. -/
def setOwn (w : WorkspaceId) (m : Membership) (v : ViewId) : Membership :=
  let q := m.proxyIn v w
  let m := if (q.1.view v).treeParent ≠ .proxy q.2 then q.1.viewSetCurrentProxy v q.2 else q.1
  let m := ((m.view v).proxies.filter fun p => decide (p ≠ q.2)).foldl viewProxyDestroy m
  m.clearSticky v

theorem viewDoSetWorkspace_succ : viewDoSetWorkspace w (n + 1) m v =
    (forModalParents (viewDoSetWorkspace w n) m v).map fun m => setOwn w m v := by
  rw [viewDoSetWorkspace]
  cases forModalParents (viewDoSetWorkspace w n) m v with
  | none => rfl
  | some m₁ => rfl

theorem setOwn_spec (h : Base world m) (hv : v ∈ world.views) (hw : world.live w) :
    Base world (setOwn w m v) ∧ Within (· = v) m (setOwn w m v) ∧ (setOwn w m v).In v w := by
  obtain ⟨h₁, -⟩ := proxyIn_grown h hv hw
  obtain ⟨hwithin, howner⟩ := proxyIn_within h.toLinked v w
  unfold setOwn
  set q := m.proxyIn v w with hq
  set m₂ := if (q.1.view v).treeParent ≠ .proxy q.2 then q.1.viewSetCurrentProxy v q.2 else q.1
    with hm₂
  obtain ⟨h₂, hwithin₂, howner₂⟩ : Base world m₂ ∧ Within (· = v) q.1 m₂ ∧ m₂.owner = q.1.owner := by
    rw [hm₂]
    split_ifs
    · have hsame := viewSetCurrentProxy_owner q.1 v q.2
      exact ⟨viewSetCurrentProxy_base h₁ v q.2,
        within_of_owner (viewSetCurrentProxy_family q.1 v q.2) hsame, hsame⟩
    · exact ⟨h₁, .refl q.1, rfl⟩
  have hown : ∀ p ∈ (m₂.view v).proxies.filter (fun p => decide (p ≠ q.2)), ∀ u w,
      m₂.owner p = some (u, w) → u = v := by
    intro p hp u w' ho
    obtain ⟨w₀, ho'⟩ := (h₂.view_mem v p).mp (List.mem_of_mem_filter hp)
    exact (Prod.mk.inj (Option.some.inj (ho.symm.trans ho'))).1
  obtain ⟨h₃, -, -⟩ := foldl_viewProxyDestroy_spared
    (l := (m₂.view v).proxies.filter fun p => decide (p ≠ q.2)) (v := v) h₂ fun p hp =>
      List.mem_of_mem_filter hp
  refine ⟨clearSticky_base h₃, ((hwithin.trans hwithin₂).trans
    (foldl_viewProxyDestroy_within _ hown)).trans (clearSticky_within _ v), q.2, ?_⟩
  rw [clearSticky_owner, foldl_viewProxyDestroy_owner, howner₂]
  · exact howner
  · intro hmem
    simp at hmem

/-- The views that a call on `v` touches before `v` itself. -/
def PulledAbove (m : Membership) (v x : ViewId) : Prop := ∃ u, m.Pulls v u ∧ m.Pulled u x

theorem PulledAbove.pulled (h : m.PulledAbove v u) : m.Pulled v u := by
  obtain ⟨x, hvx, hxu⟩ := h
  exact .head hvx hxu

/-- The rule for the calls on the parent, all of which stay among the views it pulls. -/
theorem forModalParents_within {call : Membership → ViewId → Option Membership} (h : Base world m)
    (hcall : ∀ u, m.Pulls v u → ∀ a b, Base world a → call a u = some b →
      Base world b ∧ Within (a.Pulled u) a b)
    (hs : forModalParents call m v = some m') : Base world m' ∧ Within (m.PulledAbove v) m m' := by
  refine forModalParents_inv (I := fun a => Base world a ∧ Within (m.PulledAbove v) m a)
    (fun u hu a b ha hb => ?_) ⟨h, .refl m⟩ hs
  obtain ⟨hbase, hab⟩ := hcall u hu a b ha.1 hb
  refine ⟨hbase, ha.2.trans (hab.mono fun x hx => ⟨u, hu, ?_⟩)⟩
  rwa [ha.2.pulled] at hx

theorem pulled_self (h : Within (· = v) m m') : Within (m.Pulled v) m m' :=
  h.mono fun _ hu => hu ▸ .refl

theorem viewDoSetWorkspace_within (hw : world.live w) : ∀ (n : ℕ) {m : Membership} {v : ViewId}
    {m' : Membership}, Base world m → v ∈ world.views → viewDoSetWorkspace w n m v = some m' →
    Base world m' ∧ Within (m.Pulled v) m m' ∧ m'.In v w
  | 0, _, _, _, _, _, hs => by cases hs
  | n + 1, m, v, m', h, hv, hs => by
      rw [viewDoSetWorkspace_succ, Option.map_eq_some_iff] at hs
      obtain ⟨m₁, hparents, rfl⟩ := hs
      obtain ⟨h₁, hwithin⟩ := forModalParents_within h (fun u hu a b ha hb => by
        obtain ⟨hb, hab, -⟩ := viewDoSetWorkspace_within hw n ha (h.parent_mem v u hu.2) hb
        exact ⟨hb, hab⟩) hparents
      obtain ⟨h₂, hown, hin⟩ := setOwn_spec h₁ hv hw
      refine ⟨h₂, (hwithin.mono fun _ => PulledAbove.pulled).trans ?_, hin⟩
      have := pulled_self hown
      rwa [hwithin.pulled] at this

/-! ### Joining workspaces -/

/-- What the first call on the parent brings about and no later one undoes. -/
theorem forModalParents_after {call : Membership → ViewId → Option Membership}
    {I J : Membership → Prop} (hu : m.Pulls v u)
    (hcall : ∀ a b, I a → call a u = some b → I b ∧ (J a → J b))
    (hfirst : ∀ b, call m u = some b → J b) (h : I m) (hs : forModalParents call m v = some m') :
    I m' ∧ J m' := by
  rcases forModalParents_cases hs with ⟨-, hnone⟩ | ⟨x, hx, m₁, hm₁, hrest⟩
  · exact absurd hu (hnone u)
  · obtain rfl : x = u := Option.some.inj (hx.2.symm.trans hu.2)
    have h₁ : I m₁ ∧ J m₁ := ⟨(hcall m m₁ h hm₁).1, hfirst m₁ hm₁⟩
    clear hs
    induction hrest with
    | refl => exact h₁
    | tail _ hb ih =>
      obtain ⟨hi, hj⟩ := hcall _ _ ih.1 hb
      exact ⟨hi, hj ih.2⟩

/-- The views pulled by `v` join the workspaces `ws`. -/
structure Enters (v : ViewId) (ws : WorkspaceId → Prop) (m m' : Membership) : Prop
    extends Within (m.Pulled v) m m' where
  grown : Grown m m'
  all : ∀ u, m.Pulled v u → ∀ w, ws w → m'.In u w
  only : ∀ u w, m'.In u w → m.In u w ∨ ws w

/-- `view_add_workspace` without the proxy it returns. -/
def addCall (c : Option WorkspaceId) (w : WorkspaceId) (n : ℕ) (m : Membership) (v : ViewId) :
    Option Membership :=
  (viewAddWorkspace c w n m v).map Prod.fst

def addOwn (c : Option WorkspaceId) (w : WorkspaceId) (m : Membership) (v : ViewId) : Membership :=
  if m.viewProxyByWorkspace v w = none then m.join c w v else m

theorem addCall_succ : addCall c w (n + 1) m v =
    (forModalParents (addCall c w n) m v).map fun m => addOwn c w m v := by
  rw [addCall, viewAddWorkspace]
  change Option.map Prod.fst ((forModalParents (addCall c w n) m v).bind _) = _
  cases forModalParents (addCall c w n) m v with
  | none => rfl
  | some m₁ =>
    rw [Option.bind_some, Option.map_some, addOwn]
    cases hfind : m₁.viewProxyByWorkspace v w with
    | none => rfl
    | some p => rfl

theorem addOwn_spec (h : Base world m) (hv : v ∈ world.views) (hw : world.live w) :
    Base world (addOwn c w m v) ∧ Within (· = v) m (addOwn c w m v) ∧
      Grown m (addOwn c w m v) ∧ (addOwn c w m v).In v w ∧
      ∀ u w', (addOwn c w m v).In u w' → m.In u w' ∨ w' = w := by
  unfold addOwn
  split_ifs with hfind
  · have hnot := (viewProxyByWorkspace_eq_none h.toLinked).mp hfind
    have hadded : Added c w v m (m.join c w v) := join_added h.toLinked hnot
    obtain ⟨hbase, hgrown, hin⟩ : Base world (m.join c w v) ∧ Grown m (m.join c w v) ∧
        (m.join c w v).In v w := join_grown h hv hw hnot
    have hnew : ∀ u w', (m.join c w v).In u w' → m.In u w' ∨ u = v ∧ w' = w := by
      rintro u w' ⟨p, hp⟩
      rw [join_owner] at hp
      split_ifs at hp
      · rw [Option.some.injEq, Prod.mk.injEq] at hp
        exact .inr ⟨hp.1.symm, hp.2.symm⟩
      · exact .inl ⟨p, hp⟩
    refine ⟨hbase, ⟨hadded.parent, hadded.modal, hadded.views, fun u hu w' => ?_,
      fun u _ => hadded.sticky u⟩, hgrown, hin, fun u w' hu => (hnew u w' hu).imp_right And.right⟩
    exact ⟨fun hin => (hnew u w' hin).resolve_right fun hand => hu hand.1, hgrown.in_mono⟩
  · obtain ⟨p, hp⟩ := Option.ne_none_iff_exists'.mp hfind
    exact ⟨h, .refl m, .refl m, ⟨p, (viewProxyByWorkspace_eq_some h.toLinked).mp hp⟩,
      fun _ _ => .inl⟩

theorem addCall_enters (hw : world.live w) : ∀ (n : ℕ) {m : Membership} {v : ViewId}
    {m' : Membership}, Base world m → v ∈ world.views → addCall c w n m v = some m' →
    Base world m' ∧ Enters v (· = w) m m'
  | 0, _, _, _, _, _, hs => by cases hs
  | n + 1, m, v, m', h, hv, hs => by
      rw [addCall_succ, Option.map_eq_some_iff] at hs
      obtain ⟨m₁, hparents, rfl⟩ := hs
      have hcall : ∀ u, m.Pulls v u → ∀ a b, Base world a → addCall c w n a u = some b →
          Base world b ∧ Enters u (· = w) a b := fun u hu a b ha =>
        addCall_enters hw n ha (h.parent_mem v u hu.2)
      obtain ⟨h₁, hwithin⟩ := forModalParents_within h
        (fun u hu a b ha hb => ⟨(hcall u hu a b ha hb).1, (hcall u hu a b ha hb).2.toWithin⟩) hparents
      obtain ⟨-, hgrown, honly⟩ : Base world m₁ ∧ Grown m m₁ ∧
          ∀ u w', m₁.In u w' → m.In u w' ∨ w' = w := by
        refine forModalParents_inv
          (I := fun a => Base world a ∧ Grown m a ∧ ∀ u w', a.In u w' → m.In u w' ∨ w' = w)
          (fun u hu a b ha hb => ?_) ⟨h, .refl m, fun _ _ => .inl⟩ hparents
        obtain ⟨hbase, hab⟩ := hcall u hu a b ha.1 hb
        refine ⟨hbase, ha.2.1.trans hab.grown, fun x w' hx => ?_⟩
        exact (hab.only x w' hx).elim (ha.2.2 x w') .inr
      have hpulls : ∀ u, m.Pulls v u → ∀ x, m.Pulled u x → m₁.In x w := by
        intro u hu x hx
        refine (forModalParents_after (I := fun a => Base world a) (J := fun a => a.In x w) hu
          (fun a b ha hb => ?_) (fun b hb => ?_) h hparents).2
        · obtain ⟨hbase, hab⟩ := hcall u hu a b ha hb
          exact ⟨hbase, hab.grown.in_mono⟩
        · exact (hcall u hu m b h hb).2.all x hx w rfl
      obtain ⟨h₂, hown, hgrown₂, hin, honly₂⟩ := addOwn_spec (c := c) h₁ hv hw
      have hown := pulled_self hown
      rw [hwithin.pulled] at hown
      refine ⟨h₂, (hwithin.mono fun _ => PulledAbove.pulled).trans hown, hgrown.trans hgrown₂, fun u hu w' hw' => ?_, fun u w' hu => ?_⟩
      · rw [hw']
        rcases Relation.ReflTransGen.cases_head hu with rfl | ⟨x, hvx, hxu⟩
        · exact hin
        · exact hgrown₂.in_mono (hpulls x hvx u hxu)
      · exact (honly₂ u w' hu).elim (honly u w') .inr

theorem foldlM_viewAdd_enters (hv : v ∈ world.views) : ∀ (order : List WorkspaceId)
    {m m' : Membership}, Base world m → (∀ w ∈ order, world.live w) →
    order.foldlM (fun m w => viewAdd c m v w) m = some m' →
    Base world m' ∧ Enters v (· ∈ order) m m'
  | [], m, m', h, _, hs => by
      cases hs
      exact ⟨h, .refl m, .refl m, fun _ _ w hw => absurd hw List.not_mem_nil, fun _ _ => .inl⟩
  | w :: order, m, m', h, hlive, hs => by
      rw [List.foldlM_cons, Option.bind_eq_bind, Option.bind_eq_some_iff] at hs
      obtain ⟨m₁, hcall, hs⟩ := hs
      obtain ⟨h₁, hfirst⟩ := addCall_enters (hlive w List.mem_cons_self) _ h hv hcall
      obtain ⟨h₂, hrest⟩ := foldlM_viewAdd_enters hv order h₁
        (fun w' hw' => hlive w' (List.mem_cons_of_mem w hw')) hs
      have hwithin := hrest.toWithin
      rw [hfirst.pulled] at hwithin
      refine ⟨h₂, hfirst.toWithin.trans hwithin, hfirst.grown.trans hrest.grown,
        fun u hu w' hw' => ?_, fun u w' hu => ?_⟩
      · rcases List.mem_cons.mp hw' with rfl | hw'
        · exact hrest.grown.in_mono (hfirst.all u hu w' rfl)
        · exact hrest.all u (hfirst.pulled ▸ hu) w' hw'
      · rcases hrest.only u w' hu with hu | hw'
        · rcases hfirst.only u w' hu with hu | rfl
          · exact .inl hu
          · exact .inr List.mem_cons_self
        · exact .inr (List.mem_cons_of_mem w hw')

/-! ### Leaving a workspace -/

/-- The view is in this workspace and in no other. -/
def Only (m : Membership) (v : ViewId) (w : WorkspaceId) : Prop := ∀ w', m.In v w' ↔ w' = w

/-- What `view_remove_workspace` does after its parents. -/
def removeOwn (c : Option WorkspaceId) (order : List WorkspaceId) (w : WorkspaceId)
    (m : Membership) (v : ViewId) : Option Membership :=
  match m.viewProxyByWorkspace v w with
  | none => some m
  | some p =>
    match (m.view v).proxies.reverse.find? fun q => decide (q ≠ p) with
    | none => viewAddAllWorkspace c order m v
    | some q =>
      let m := if (m.view v).current = some p then m.viewSetCurrentProxy v q else m
      some ((m.viewProxyDestroy p).clearSticky v)

theorem viewRemoveWorkspace_succ : viewRemoveWorkspace c order w (n + 1) m v =
    (forModalParents (viewRemoveWorkspace c order w n) m v).bind
      fun m => removeOwn c order w m v := rfl

/-- The four things that can happen to a view that is to leave a workspace. -/
inductive Leaves (order : List WorkspaceId) (w : WorkspaceId) (v : ViewId) (m m' : Membership) :
    Prop
  | absent (hnot : ¬ m.In v w) (hsame : m' = m)
  | gone (hin : m.In v w) (hother : ∃ w', w' ≠ w ∧ m.In v w') (hout : ¬ m'.In v w)
      (hsticky : (m'.view v).sticky = false) (hwithin : Within (· = v) m m')
  | stays (honly : m.Only v w) (hsticky : (m.view v).sticky = true) (hsame : m' = m)
  | everywhere (honly : m.Only v w) (hsticky : (m.view v).sticky = false) (m₁ : Membership)
      (henters : Enters v (· ∈ order) m m₁)
      (hset : m' = m₁.setView v { m₁.view v with sticky := true })

theorem removeOwn_leaves (h : Base world m) (hv : v ∈ world.views)
    (hlive : ∀ w ∈ order, world.live w) (hs : removeOwn c order w m v = some m') :
    Base world m' ∧ Leaves order w v m m' := by
  unfold removeOwn at hs
  split at hs
  · next hnone =>
    cases hs
    exact ⟨h, .absent ((viewProxyByWorkspace_eq_none h.toLinked).mp hnone) rfl⟩
  · next p hp =>
    have hp := (viewProxyByWorkspace_eq_some h.toLinked).mp hp
    split at hs
    · next hnone =>
      have honly : m.Only v w := by
        intro w'
        constructor
        · rintro ⟨q, hq⟩
          have hmem := (h.view_mem v q).mpr ⟨w', hq⟩
          have := List.find?_eq_none.mp hnone q (List.mem_reverse.mpr hmem)
          simp only [ne_eq, decide_not, Bool.not_eq_true, Bool.not_eq_false', decide_eq_true_eq] at this
          rw [this, hp, Option.some.injEq, Prod.mk.injEq] at hq
          exact hq.2.symm
        · rintro rfl
          exact ⟨p, hp⟩
      unfold viewAddAllWorkspace at hs
      split_ifs at hs with hsticky
      · cases hs
        exact ⟨h, .stays honly hsticky rfl⟩
      · obtain ⟨m₁, hfold, hs⟩ := Option.bind_eq_some_iff.mp hs
        cases hs
        obtain ⟨h₁, henters⟩ := foldlM_viewAdd_enters hv order h hlive hfold
        exact ⟨setView_base h₁ rfl fun _ => .inl,
          .everywhere honly (Bool.eq_false_iff.mpr hsticky) m₁ henters rfl⟩
    · next q hq =>
      cases hs
      have hne : q ≠ p := by simpa using List.find?_some hq
      obtain ⟨w', hq⟩ := (h.view_mem v q).mp (List.mem_reverse.mp (List.mem_of_find?_eq_some hq))
      set m₁ := if (m.view v).current = some p then m.viewSetCurrentProxy v q else m with hm₁
      obtain ⟨h₁, hwithin, howner⟩ : Base world m₁ ∧ Within (· = v) m m₁ ∧ m₁.owner = m.owner := by
        rw [hm₁]
        split_ifs
        · have hsame := viewSetCurrentProxy_owner m v q
          exact ⟨viewSetCurrentProxy_base h v q,
            within_of_owner (viewSetCurrentProxy_family m v q) hsame, hsame⟩
        · exact ⟨h, .refl m, rfl⟩
      refine ⟨clearSticky_base (viewProxyDestroy_base h₁ p), .gone ⟨p, hp⟩ ⟨w', ?_, q, hq⟩ ?_ ?_ ?_⟩
      · rintro rfl
        exact hne (h.unique v w' q p hq hp)
      · rintro ⟨r, hr⟩
        rw [clearSticky_owner, viewProxyDestroy_owner, howner] at hr
        split_ifs at hr with hrp
        exact hrp (h.unique v w r p hr hp)
      · rw [clearSticky_view, if_pos rfl]
      · refine (hwithin.trans (viewProxyDestroy_within fun u w₁ ho => ?_)).trans
          (clearSticky_within _ v)
        rw [howner, hp, Option.some.injEq, Prod.mk.injEq] at ho
        exact ho.1.symm

theorem Leaves.within (h : Leaves order w v m m') : Within (m.Pulled v) m m' := by
  cases h with
  | absent hnot hsame =>
    subst hsame
    exact .refl m'
  | gone hin hother hout hsticky hwithin => exact pulled_self hwithin
  | stays honly hsticky hsame =>
    subst hsame
    exact .refl m'
  | everywhere honly hsticky m₁ henters hset =>
    subst hset
    have := pulled_self (setSticky_within m₁ v)
    rw [henters.pulled] at this
    exact henters.toWithin.trans this

theorem not_pulled_above (hacyclic : Acyclic m.ChildOf) : ¬ m.PulledAbove v v := by
  rintro ⟨u, hu, hback⟩
  have hmono : Relation.ReflTransGen m.ChildOf u v :=
    Relation.ReflTransGen.mono (fun _ _ h => h.2) _ _ hback
  exact hacyclic v (Relation.TransGen.head' hu.2 hmono)

theorem viewRemoveWorkspace_leaves (hlive : ∀ w ∈ order, world.live w) : ∀ (n : ℕ)
    {m : Membership} {v : ViewId} {m' : Membership}, Base world m → v ∈ world.views →
    viewRemoveWorkspace c order w n m v = some m' →
    Base world m' ∧ Within (m.Pulled v) m m' ∧
      ∃ m₁, Within (m.PulledAbove v) m m₁ ∧ Leaves order w v m₁ m'
  | 0, _, _, _, _, _, hs => by cases hs
  | n + 1, m, v, m', h, hv, hs => by
      rw [viewRemoveWorkspace_succ, Option.bind_eq_some_iff] at hs
      obtain ⟨m₁, hparents, hs⟩ := hs
      obtain ⟨h₁, hwithin⟩ := forModalParents_within h (fun u hu a b ha hb => by
        obtain ⟨hbase, hab, -⟩ := viewRemoveWorkspace_leaves hlive n ha (h.parent_mem v u hu.2) hb
        exact ⟨hbase, hab⟩) hparents
      obtain ⟨h₂, hleaves⟩ := removeOwn_leaves h₁ hv hlive hs
      have hown := hleaves.within
      rw [hwithin.pulled] at hown
      exact ⟨h₂, (hwithin.mono fun _ => PulledAbove.pulled).trans hown, m₁, hwithin, hleaves⟩

/-! ### The walks end -/

/-- The states that the walks from `m₀` come through. -/
structure Kin (world : World) (m₀ m : Membership) : Prop where
  base : Base world m
  parent : ∀ u, (m.view u).parent = (m₀.view u).parent
  views : m.views = m₀.views

theorem Kin.within (h : Kin world m₀ m) (hbase : Base world m') (hwithin : Within P m m') :
    Kin world m₀ m' :=
  ⟨hbase, fun u => (hwithin.parent u).trans (h.parent u), hwithin.views.trans h.views⟩

theorem parentLoop_isSome {call : Membership → Option Membership} (hacyclic : Acyclic m₀.ChildOf)
    (h₀ : Base world m₀) (hcall : ∀ a, Kin world m₀ a → ∃ b, call a = some b ∧ Kin world m₀ b) :
    ∀ (n : ℕ) {m : Membership} {x : ViewId}, Kin world m₀ m → x ∈ m₀.views →
    Enough m₀.ChildOf m₀.views n x →
    ∃ m', parentLoop call n m (some x) = some m' ∧ Kin world m₀ m'
  | 0, _, _, _, _, hn => absurd rfl hn.pos
  | n + 1, m, x, h, hx, hn => by
      obtain ⟨b, hb, hkin⟩ := hcall m h
      rw [parentLoop, Option.bind_eq_bind, hb, Option.bind_some]
      split_ifs
      · exact ⟨b, rfl, hkin⟩
      · rw [hkin.parent]
        cases hp : (m₀.view x).parent with
        | none => exact ⟨b, by rw [parentLoop], hkin⟩
        | some y =>
          refine parentLoop_isSome hacyclic h₀ hcall n hkin ?_ (hn.step hacyclic hx hp)
          rw [h₀.views]
          exact h₀.parent_mem x y hp

/-- The calls on the parent return when each of them does. -/
theorem forModalParents_isSome {call : Membership → ViewId → Option Membership}
    (hacyclic : Acyclic m₀.ChildOf) (h₀ : Base world m₀) (h : Kin world m₀ m) (hv : v ∈ m₀.views)
    (hn : Enough m₀.ChildOf m₀.views (n + 1) v)
    (hcall : ∀ u, m₀.ChildOf v u → u ∈ m₀.views → Enough m₀.ChildOf m₀.views n u →
      ∀ a, Kin world m₀ a → ∃ b, call a u = some b ∧ Kin world m₀ b) :
    ∃ m', forModalParents call m v = some m' ∧ Kin world m₀ m' := by
  unfold forModalParents
  split
  · next u _ hparent =>
    rw [h.parent] at hparent
    have hu : u ∈ m₀.views := by
      rw [h₀.views]
      exact h₀.parent_mem v u hparent
    refine parentLoop_isSome hacyclic h₀ (hcall u hparent hu (hn.step hacyclic hv hparent)) m.fuel h hu
      (.start u ?_)
    rw [Membership.fuel, h.views]
    exact Nat.lt_succ_self _
  · exact ⟨m, rfl, h⟩

theorem viewDoSetWorkspace_isSome (hacyclic : Acyclic m₀.ChildOf) (h₀ : Base world m₀)
    (hw : world.live w) : ∀ (n : ℕ) {m : Membership} {v : ViewId}, Kin world m₀ m → v ∈ m₀.views →
    Enough m₀.ChildOf m₀.views n v →
    ∃ m', viewDoSetWorkspace w n m v = some m' ∧ Kin world m₀ m'
  | 0, _, _, _, _, hn => absurd rfl hn.pos
  | n + 1, m, v, h, hv, hn => by
      obtain ⟨m₁, hm₁, h₁⟩ := forModalParents_isSome hacyclic h₀ h hv hn fun u _ hu hn a ha =>
        viewDoSetWorkspace_isSome hacyclic h₀ hw n ha hu hn
      obtain ⟨hbase, hwithin, -⟩ := setOwn_spec h₁.base (h₀.views ▸ hv) hw
      refine ⟨setOwn w m₁ v, ?_, h₁.within hbase hwithin⟩
      rw [viewDoSetWorkspace_succ, hm₁, Option.map_some]

theorem addCall_isSome (hacyclic : Acyclic m₀.ChildOf) (h₀ : Base world m₀) (hw : world.live w) :
    ∀ (n : ℕ) {m : Membership} {v : ViewId}, Kin world m₀ m → v ∈ m₀.views →
    Enough m₀.ChildOf m₀.views n v → ∃ m', addCall c w n m v = some m' ∧ Kin world m₀ m'
  | 0, _, _, _, _, hn => absurd rfl hn.pos
  | n + 1, m, v, h, hv, hn => by
      obtain ⟨m₁, hm₁, h₁⟩ := forModalParents_isSome hacyclic h₀ h hv hn fun u _ hu hn a ha =>
        addCall_isSome hacyclic h₀ hw n ha hu hn
      obtain ⟨hbase, hwithin, -⟩ := addOwn_spec (c := c) h₁.base (h₀.views ▸ hv) hw
      refine ⟨addOwn c w m₁ v, ?_, h₁.within hbase hwithin⟩
      rw [addCall_succ, hm₁, Option.map_some]

theorem viewAdd_isSome (hacyclic : Acyclic m₀.ChildOf) (h₀ : Base world m₀) (hw : world.live w)
    (h : Kin world m₀ m) (hv : v ∈ m₀.views) :
    ∃ m', viewAdd c m v w = some m' ∧ Kin world m₀ m' := by
  refine addCall_isSome hacyclic h₀ hw m.fuel h hv (.start v ?_)
  rw [Membership.fuel, h.views]
  exact Nat.lt_succ_self _

theorem foldlM_viewAdd_isSome (hacyclic : Acyclic m₀.ChildOf) (h₀ : Base world m₀)
    (hv : v ∈ m₀.views) : ∀ (order : List WorkspaceId) {m : Membership}, Kin world m₀ m →
    (∀ w ∈ order, world.live w) →
    ∃ m', order.foldlM (fun m w => viewAdd c m v w) m = some m'
  | [], m, _, _ => ⟨m, rfl⟩
  | w :: order, m, h, hlive => by
      obtain ⟨m₁, hm₁, h₁⟩ := viewAdd_isSome (c := c) hacyclic h₀ (hlive w List.mem_cons_self) h hv
      rw [List.foldlM_cons, Option.bind_eq_bind, hm₁, Option.bind_some]
      exact foldlM_viewAdd_isSome hacyclic h₀ hv order h₁ fun w' hw' =>
        hlive w' (List.mem_cons_of_mem w hw')

theorem removeOwn_isSome (hacyclic : Acyclic m₀.ChildOf) (h₀ : Base world m₀)
    (hlive : ∀ w ∈ order, world.live w) (h : Kin world m₀ m) (hv : v ∈ m₀.views) :
    ∃ m', removeOwn c order w m v = some m' := by
  unfold removeOwn
  split
  · exact ⟨m, rfl⟩
  · split
    · unfold viewAddAllWorkspace
      split_ifs
      · exact ⟨m, rfl⟩
      · obtain ⟨m₁, hm₁⟩ := foldlM_viewAdd_isSome (c := c) hacyclic h₀ hv order h hlive
        exact ⟨_, by rw [hm₁]; rfl⟩
    · exact ⟨_, rfl⟩

theorem viewRemoveWorkspace_isSome (hacyclic : Acyclic m₀.ChildOf) (h₀ : Base world m₀)
    (hlive : ∀ w ∈ order, world.live w) : ∀ (n : ℕ) {m : Membership} {v : ViewId},
    Kin world m₀ m → v ∈ m₀.views → Enough m₀.ChildOf m₀.views n v →
    ∃ m', viewRemoveWorkspace c order w n m v = some m' ∧ Kin world m₀ m'
  | 0, _, _, _, _, hn => absurd rfl hn.pos
  | n + 1, m, v, h, hv, hn => by
      obtain ⟨m₁, hm₁, h₁⟩ := forModalParents_isSome hacyclic h₀ h hv hn fun u _ hu hn a ha =>
        viewRemoveWorkspace_isSome hacyclic h₀ hlive n ha hu hn
      obtain ⟨m', hm'⟩ := removeOwn_isSome (c := c) (w := w) hacyclic h₀ hlive h₁ hv
      obtain ⟨hbase, hleaves⟩ := removeOwn_leaves h₁.base (h₀.views ▸ hv) hlive hm'
      refine ⟨m', ?_, h₁.within hbase hleaves.within⟩
      rw [viewRemoveWorkspace_succ, hm₁, Option.bind_some, hm']

/-! ### The rounds of the loop -/

/-- One round, or two and possibly more. -/
theorem forModalParents_rounds {call : Membership → ViewId → Option Membership} (hu : m.Pulls v u)
    (hs : forModalParents call m v = some m') :
    ∃ m₁, call m u = some m₁ ∧
      (((m₁.view u).modal = true ∨ (m₁.view u).parent = none) → m' = m₁) ∧
      (¬ ((m₁.view u).modal = true ∨ (m₁.view u).parent = none) → ∃ m₂, call m₁ u = some m₂ ∧
        Relation.ReflTransGen (fun a b => call a u = some b) m₂ m') := by
  unfold forModalParents at hs
  rw [hu.1, hu.2] at hs
  simp only [Membership.fuel, parentLoop, Option.bind_eq_bind, Option.bind_eq_some_iff] at hs
  obtain ⟨m₁, hm₁, hs⟩ := hs
  refine ⟨m₁, hm₁, fun hend => ?_, fun hmore => ?_⟩
  · split_ifs at hs with hmodal
    · exact (Option.some.inj hs).symm
    · rw [hend.resolve_left hmodal, parentLoop] at hs
      exact (Option.some.inj hs).symm
  · rw [not_or] at hmore
    obtain ⟨y, hy⟩ := Option.ne_none_iff_exists'.mp hmore.2
    rw [if_neg hmore.1, hy] at hs
    exact parentLoop_cases hs

/-- One call on a view, seen from the view itself: what it pulls is above it. -/
theorem viewRemoveWorkspace_self (hacyclic : Acyclic m.ChildOf) (hlive : ∀ w ∈ order, world.live w)
    (h : Base world m) (hv : v ∈ world.views)
    (hs : viewRemoveWorkspace c order w n m v = some m') :
    ∃ m₁, (∀ w', m₁.In v w' ↔ m.In v w') ∧ (m₁.view v).sticky = (m.view v).sticky ∧
      Leaves order w v m₁ m' := by
  obtain ⟨-, -, m₁, hwithin, hleaves⟩ := viewRemoveWorkspace_leaves hlive n h hv hs
  have hself := not_pulled_above (v := v) hacyclic
  exact ⟨m₁, hwithin.stays v hself, hwithin.sticky v hself, hleaves⟩

theorem Only.congr (h : m.Only v w) (hin : ∀ w', m'.In v w' ↔ m.In v w') : m'.Only v w :=
  fun w' => (hin w').trans (h w')

/-- The view is out of the workspace, or sticky because it was nowhere else. -/
def TakenOut (m m' : Membership) (a : ViewId) (w : WorkspaceId) : Prop :=
  ¬ m'.In a w ∨ m.Only a w ∧ (m'.view a).sticky = true

section rounds

variable {m₁ : Membership}

/-- The first round takes a view out, and the others leave it so. -/
theorem Leaves.takenOut (h : Leaves order w v m₁ m'') (hin : ∀ w', m₁.In v w' ↔ m'.In v w')
    (hsticky : (m₁.view v).sticky = (m'.view v).sticky) (hprev : m' = m ∨ TakenOut m m' v w) :
    TakenOut m m'' v w := by
  have honly : m₁.Only v w → ¬ m.Only v w → False := by
    intro h₁ hnot
    rcases hprev with rfl | hout | ⟨ho, -⟩
    · exact hnot (h₁.congr fun w' => (hin w').symm)
    · exact hout ((hin w).mp ((h₁ w).mpr rfl))
    · exact hnot ho
  cases h with
  | absent hnot hsame =>
    subst hsame
    exact .inl hnot
  | gone hin hother hout hst hwithin => exact .inl hout
  | stays ho hst hsame =>
    subst hsame
    exact .inr ⟨by_contra (honly ho), hst⟩
  | everywhere ho hst m₂ henters hset =>
    subst hset
    exact .inr ⟨by_contra (honly ho), by rw [setView_view_self]⟩

theorem Leaves.only_sticky (h : Leaves order w v m₁ m'') (honly : m₁.Only v w)
    (hst : (m₁.view v).sticky = true) : m''.Only v w ∧ (m''.view v).sticky = true := by
  cases h with
  | absent hnot hsame => exact absurd ((honly w).mpr rfl) hnot
  | gone hin hother hout hst' hwithin =>
    obtain ⟨w', hne, hin'⟩ := hother
    exact absurd ((honly w').mp hin') hne
  | stays ho hst' hsame =>
    subst hsame
    exact ⟨honly, hst⟩
  | everywhere ho hst' m₂ henters hset =>
    rw [hst] at hst'
    cases hst'

theorem Leaves.only_everywhere (h : Leaves order w v m₁ m'') (hw : w ∈ order) (honly : m₁.Only v w)
    (hst : (m₁.view v).sticky = false) :
    (∀ w', m''.In v w' ↔ w' ∈ order) ∧ (m''.view v).sticky = true := by
  cases h with
  | absent hnot hsame => exact absurd ((honly w).mpr rfl) hnot
  | gone hin hother hout hst' hwithin =>
    obtain ⟨w', hne, hin'⟩ := hother
    exact absurd ((honly w').mp hin') hne
  | stays ho hst' hsame =>
    rw [hst] at hst'
    cases hst'
  | everywhere ho hst' m₂ henters hset =>
    subst hset
    refine ⟨fun w' => ⟨fun hin => ?_, fun hw' => henters.all v .refl w' hw'⟩, by rw [setView_view_self]⟩
    rcases henters.only v w' hin with hin | hw'
    · rw [(honly w').mp hin]
      exact hw
    · exact hw'

theorem Leaves.other_gone (h : Leaves order w v m₁ m'') (hin : m₁.In v w) {w' : WorkspaceId}
    (hne : w' ≠ w) (hother : m₁.In v w') : ¬ m''.In v w ∧ (m''.view v).sticky = false := by
  cases h with
  | absent hnot hsame => exact absurd hin hnot
  | gone hin' hother' hout hst hwithin => exact ⟨hout, hst⟩
  | stays ho hst hsame => exact absurd ((ho w').mp hother) hne
  | everywhere ho hst m₂ henters hset => exact absurd ((ho w').mp hother) hne

theorem Leaves.absent_same (h : Leaves order w v m₁ m'') (hnot : ¬ m₁.In v w) : m'' = m₁ := by
  cases h with
  | absent hnot' hsame => exact hsame
  | gone hin hother hout hst hwithin => exact absurd hin hnot
  | stays ho hst hsame => exact absurd ((ho w).mpr rfl) hnot
  | everywhere ho hst m₂ henters hset => exact absurd ((ho w).mpr rfl) hnot

end rounds

/-- A round on the parent of `v`, in a state that earlier rounds came to. -/
theorem round_spec (hacyclic : Acyclic m.ChildOf) (hlive : ∀ w ∈ order, world.live w)
    (hu : u ∈ world.views) (hpull : m.Pulls v u) (hm' : Base world m' ∧ Within (m.PulledAbove v) m m')
    (hs : viewRemoveWorkspace c order w n m' u = some m'') :
    (Base world m'' ∧ Within (m.PulledAbove v) m m'') ∧
      ∃ m₁, (∀ w', m₁.In u w' ↔ m'.In u w') ∧ (m₁.view u).sticky = (m'.view u).sticky ∧
        Leaves order w u m₁ m'' := by
  obtain ⟨hbase, hwithin, -⟩ := viewRemoveWorkspace_leaves hlive n hm'.1 hu hs
  refine ⟨⟨hbase, hm'.2.trans (hwithin.mono fun x hx => ⟨u, hpull, ?_⟩)⟩, ?_⟩
  · rwa [hm'.2.pulled] at hx
  · refine viewRemoveWorkspace_self ?_ hlive hm'.1 hu hs
    rw [hm'.2.childOf]
    exact hacyclic

theorem removeParents_takenOut (hacyclic : Acyclic m.ChildOf) (hlive : ∀ w ∈ order, world.live w)
    (h : Base world m) (hpull : m.Pulls v u)
    (hs : forModalParents (viewRemoveWorkspace c order w n) m v = some m') :
    TakenOut m m' u w := by
  have hu := h.parent_mem v u hpull.2
  refine (forModalParents_after (I := fun a => Base world a ∧ Within (m.PulledAbove v) m a)
    (J := fun a => TakenOut m a u w) hpull (fun a b ha hb => ?_) (fun b hb => ?_) ⟨h, .refl m⟩ hs).2
  · obtain ⟨hb, m₁, hin, hsticky, hleaves⟩ := round_spec hacyclic hlive hu hpull ha hb
    exact ⟨hb, fun hout => hleaves.takenOut hin hsticky (.inr hout)⟩
  · obtain ⟨-, m₁, hin, hsticky, hleaves⟩ := round_spec hacyclic hlive hu hpull ⟨h, .refl m⟩ hb
    exact hleaves.takenOut hin hsticky (.inl rfl)

/-- What further rounds leave as it is. -/
theorem rounds_keep {K : Membership → Prop} (hacyclic : Acyclic m.ChildOf)
    (hlive : ∀ w ∈ order, world.live w) (hu : u ∈ world.views) (hpull : m.Pulls v u)
    (hK : ∀ a m₁ b, K a → (∀ w', m₁.In u w' ↔ a.In u w') → (m₁.view u).sticky = (a.view u).sticky →
      Leaves order w u m₁ b → K b)
    (hm' : Base world m' ∧ Within (m.PulledAbove v) m m') (h : K m')
    (hs : Relation.ReflTransGen (fun a b => viewRemoveWorkspace c order w n a u = some b) m' m'') :
    K m'' := by
  have hinv : (Base world m'' ∧ Within (m.PulledAbove v) m m'') ∧ K m'' := by
    induction hs with
    | refl => exact ⟨hm', h⟩
    | tail _ hb ih =>
      obtain ⟨hi, m₁, hin, hsticky, hleaves⟩ := round_spec hacyclic hlive hu hpull ih.1 hb
      exact ⟨hi, hK _ m₁ _ ih.2 hin hsticky hleaves⟩
  exact hinv.2

/-- A parent that was in this workspace only is sticky afterwards, unless the second round finds it in
    other workspaces. -/
theorem removeParents_sticky (hacyclic : Acyclic m.ChildOf) (hlive : ∀ w ∈ order, world.live w)
    (hw : w ∈ order) (h : Base world m) (hpull : m.Pulls v u) (honly : m.Only u w)
    (hs : forModalParents (viewRemoveWorkspace c order w n) m v = some m') :
    (m'.view u).sticky = true ↔ (m.view u).sticky = true ∨ (m.view u).modal = true ∨
      (m.view u).parent = none ∨ ∀ w' ∈ order, w' = w := by
  have hu := h.parent_mem v u hpull.2
  have hkeep : ∀ a m₁ b : Membership, (a.Only u w ∧ (a.view u).sticky = true) →
      (∀ w', m₁.In u w' ↔ a.In u w') → (m₁.view u).sticky = (a.view u).sticky →
      Leaves order w u m₁ b → b.Only u w ∧ (b.view u).sticky = true := by
    intro a m₁ b ha hin hsticky hleaves
    exact hleaves.only_sticky (ha.1.congr hin) (hsticky.trans ha.2)
  obtain ⟨m₁, hm₁, hend, hmore⟩ := forModalParents_rounds hpull hs
  obtain ⟨hi, a₁, hin, hsticky, hleaves⟩ := round_spec hacyclic hlive hu hpull ⟨h, .refl m⟩ hm₁
  rw [hi.2.modal, hi.2.parent] at hend hmore
  have honly₁ := honly.congr hin
  cases hst : (m.view u).sticky with
  | true =>
    rw [hst] at hsticky
    have hfirst := hleaves.only_sticky honly₁ hsticky
    refine iff_of_true ?_ (.inl rfl)
    by_cases hstop : (m.view u).modal = true ∨ (m.view u).parent = none
    · rw [hend hstop]
      exact hfirst.2
    · obtain ⟨m₂, hm₂, hrest⟩ := hmore hstop
      exact (rounds_keep hacyclic hlive hu hpull hkeep hi hfirst (.head hm₂ hrest)).2
  | false =>
    rw [hst] at hsticky
    obtain ⟨hall, hsticky₁⟩ := hleaves.only_everywhere hw honly₁ hsticky
    by_cases hstop : (m.view u).modal = true ∨ (m.view u).parent = none
    · rw [hend hstop]
      exact iff_of_true hsticky₁ (.inr (hstop.elim .inl fun hnone => .inr (.inl hnone)))
    · obtain ⟨m₂, hm₂, hrest⟩ := hmore hstop
      by_cases hone : ∀ w' ∈ order, w' = w
      · have hfirst : m₁.Only u w := fun w' =>
          (hall w').trans ⟨hone w', fun heq => heq ▸ hw⟩
        refine iff_of_true ?_ (.inr (.inr (.inr hone)))
        exact (rounds_keep hacyclic hlive hu hpull hkeep hi ⟨hfirst, hsticky₁⟩ (.head hm₂ hrest)).2
      · rw [not_or] at hstop
        have hno : ¬ ((false = true) ∨ (m.view u).modal = true ∨ (m.view u).parent = none ∨
            ∀ w' ∈ order, w' = w) := by
          rintro (hfalse | hmodal | hnone | hall)
          · cases hfalse
          · exact hstop.1 hmodal
          · exact hstop.2 hnone
          · exact hone hall
        refine iff_of_false ?_ hno
        simp only [not_forall, exists_prop] at hone
        obtain ⟨w', hw', hne⟩ := hone
        obtain ⟨hi₂, a₂, hin₂, -, hleaves₂⟩ := round_spec hacyclic hlive hu hpull hi hm₂
        have hgone := hleaves₂.other_gone ((hin₂ w).mpr ((hall w).mpr hw)) hne
          ((hin₂ w').mpr ((hall w').mpr hw'))
        have hlast := rounds_keep (K := fun a => ¬ a.In u w ∧ (a.view u).sticky = false) hacyclic
          hlive hu hpull (fun a b₁ b ha hin hsticky hleaves => ?_) hi₂ hgone hrest
        · rw [hlast.2]
          exact Bool.false_ne_true
        · have hnot : ¬ b₁.In u w := fun h => ha.1 ((hin w).mp h)
          rw [hleaves.absent_same hnot]
          exact ⟨hnot, hsticky.trans ha.2⟩

/-! ### The ancestors -/

/-- The ancestors of `v` up to the nearest modal one. -/
inductive Carried (m : Membership) (v : ViewId) : ViewId → Prop
  | parent {u : ViewId} : m.ChildOf v u → Carried m v u
  | next {a b : ViewId} : Carried m v a → (m.view a).modal = false → m.ChildOf a b → Carried m v b

theorem Carried.beyond (h : m.Carried v a) (hu : m.ChildOf v u) (hne : a ≠ u) :
    (m.view u).modal = false ∧ Relation.TransGen m.ChildOf u a := by
  have hmain : a = u ∨ (m.view u).modal = false ∧ Relation.TransGen m.ChildOf u a := by
    clear hne
    induction h with
    | parent hx => exact .inl (Option.some.inj (hx.symm.trans hu))
    | next _ hmodal hchild ih =>
      right
      rcases ih with rfl | ⟨hm, hpath⟩
      · exact ⟨hmodal, .single hchild⟩
      · exact ⟨hm, hpath.tail hchild⟩
  exact hmain.resolve_left hne

/-- The other ancestors are not pulled. -/
theorem Carried.not_pulled (h : m.Carried v a) (hacyclic : Acyclic m.ChildOf) (hu : m.ChildOf v u)
    (hne : a ≠ u) : ¬ m.Pulled v a := by
  obtain ⟨hmodal, hpath⟩ := h.beyond hu hne
  intro hpulled
  rcases Relation.ReflTransGen.cases_head hpulled with rfl | ⟨x, hvx, hxa⟩
  · exact hacyclic v (.head hu hpath)
  · obtain rfl : x = u := Option.some.inj (hvx.2.symm.trans hu)
    rcases Relation.ReflTransGen.cases_head hxa with rfl | ⟨y, hxy, -⟩
    · exact hne rfl
    · rw [hxy.1] at hmodal
      cases hmodal

/-- The ancestors that the loop passes by are in the workspace already. -/
def CarriesAll (m : Membership) (v : ViewId) (w : WorkspaceId) : Prop :=
  ∀ a, m.Carried v a → ¬ m.ChildOf v a → m.In a w

/-- The ancestors that the loop passes by are out of the workspace already, or sticky in it; and the
    parent stays out of it, or sticky, if the view itself becomes sticky. -/
def RemovesAll (order : List WorkspaceId) (m : Membership) (v : ViewId) (w : WorkspaceId) : Prop :=
  (∀ a, m.Carried v a → ¬ m.ChildOf v a → TakenOut m m a w) ∧
    (m.Only v w → (m.view v).sticky = false → ∀ u, m.ChildOf v u → m.Only u w ∧
      ((m.view u).sticky = true ∨ (m.view u).modal = true ∨ (m.view u).parent = none ∨
        ∀ w' ∈ order, w' = w))

section ancestors

variable (hacyclic : Acyclic m.ChildOf) (h : Base world m) (hv : v ∈ world.views)

include hacyclic h hv

theorem viewSetWorkspace_carries (hw : world.live w) (hpull : m.Pulls v u) :
    ∃ m', m.viewSetWorkspace v w = some m' ∧
      ((∀ a, m.Carried v a → m'.In a w) ↔ m.CarriesAll v w) := by
  have hv₀ : v ∈ m.views := h.views ▸ hv
  obtain ⟨m', hs, -⟩ := viewDoSetWorkspace_isSome hacyclic h hw m.fuel ⟨h, fun _ => rfl, rfl⟩ hv₀
    (.start v (Nat.lt_succ_self _))
  obtain ⟨-, hwithin, -⟩ := viewDoSetWorkspace_within hw _ h hv hs
  refine ⟨m', hs, fun hall a ha hne => ?_, fun hcond a ha => ?_⟩
  · refine (hwithin.stays a (ha.not_pulled hacyclic hpull.2 ?_) w).mp (hall a ha)
    rintro rfl
    exact hne hpull.2
  · by_cases hau : a = u
    · subst hau
      rw [Membership.fuel, viewDoSetWorkspace_succ, Option.map_eq_some_iff] at hs
      obtain ⟨m₁, hparents, rfl⟩ := hs
      have hu := h.parent_mem v a hpull.2
      obtain ⟨h₁, hin⟩ := forModalParents_after (I := fun b => Base world b)
        (J := fun b => b.In a w) hpull (fun b c hb hc => by
          obtain ⟨hbase, -, hin⟩ := viewDoSetWorkspace_within hw _ hb hu hc
          exact ⟨hbase, fun _ => hin⟩)
        (fun b hb => (viewDoSetWorkspace_within hw _ h hu hb).2.2) h hparents
      exact ((setOwn_spec h₁ hv hw).2.1.stays a (hacyclic.ne hpull.2).symm w).mpr hin
    · refine (hwithin.stays a (ha.not_pulled hacyclic hpull.2 hau) w).mpr (hcond a ha fun hchild => ?_)
      exact hau (Option.some.inj (hchild.symm.trans hpull.2))

theorem viewAdd_carries (hw : world.live w) (hpull : m.Pulls v u) :
    ∃ m', viewAdd c m v w = some m' ∧
      ((∀ a, m.Carried v a → m'.In a w) ↔ m.CarriesAll v w) := by
  have hv₀ : v ∈ m.views := h.views ▸ hv
  obtain ⟨m', hs, -⟩ := viewAdd_isSome (c := c) hacyclic h hw ⟨h, fun _ => rfl, rfl⟩ hv₀
  obtain ⟨-, henters⟩ := addCall_enters hw _ h hv hs
  refine ⟨m', hs, fun hall a ha hne => ?_, fun hcond a ha => ?_⟩
  · refine (henters.stays a (ha.not_pulled hacyclic hpull.2 ?_) w).mp (hall a ha)
    rintro rfl
    exact hne hpull.2
  · by_cases hau : a = u
    · exact henters.all a (.single (hau ▸ hpull)) w rfl
    · refine (henters.stays a (ha.not_pulled hacyclic hpull.2 hau) w).mpr (hcond a ha fun hchild => ?_)
      exact hau (Option.some.inj (hchild.symm.trans hpull.2))

theorem viewRemoveWorkspace_removes (hlive : ∀ w ∈ order, world.live w) (hw : w ∈ order)
    (hpull : m.Pulls v u) :
    ∃ m', viewRemoveWorkspace c order w m.fuel m v = some m' ∧
      ((∀ a, m.Carried v a → TakenOut m m' a w) ↔ m.RemovesAll order v w) := by
  have hv₀ : v ∈ m.views := h.views ▸ hv
  obtain ⟨m', hs, -⟩ := viewRemoveWorkspace_isSome (c := c) (w := w) hacyclic h hlive m.fuel
    ⟨h, fun _ => rfl, rfl⟩ hv₀ (.start v (Nat.lt_succ_self _))
  refine ⟨m', hs, ?_⟩
  obtain ⟨-, hwithin, -⟩ := viewRemoveWorkspace_leaves hlive _ h hv hs
  rw [Membership.fuel, viewRemoveWorkspace_succ, Option.bind_eq_some_iff] at hs
  obtain ⟨m₁, hparents, hs⟩ := hs
  obtain ⟨h₁, hwithin₁⟩ := forModalParents_within h (fun x hx a b ha hb => by
    obtain ⟨hbase, hab, -⟩ := viewRemoveWorkspace_leaves hlive _ ha (h.parent_mem v x hx.2) hb
    exact ⟨hbase, hab⟩) hparents
  obtain ⟨-, hleaves⟩ := removeOwn_leaves h₁ hv hlive hs
  have hne : u ≠ v := (hacyclic.ne hpull.2).symm
  have hself := not_pulled_above (v := v) hacyclic
  have hout := removeParents_takenOut hacyclic hlive h hpull hparents
  -- the other ancestors are where they were
  have hrest : ∀ a, m.Carried v a → a ≠ u → (TakenOut m m' a w ↔ TakenOut m m a w) := by
    intro a ha hau
    have hnot := ha.not_pulled hacyclic hpull.2 hau
    rw [TakenOut, TakenOut, hwithin.stays a hnot, hwithin.sticky a hnot]
  -- the parent is as the loop left it, unless the view becomes sticky and pulls it back
  have hparent : TakenOut m m' u w ↔ (m.Only v w → (m.view v).sticky = false → m.Only u w ∧
      ((m.view u).sticky = true ∨ (m.view u).modal = true ∨ (m.view u).parent = none ∨
        ∀ w' ∈ order, w' = w)) := by
    have honly : m₁.Only v w ↔ m.Only v w :=
      ⟨fun ho => ho.congr fun w' => (hwithin₁.stays v hself w').symm,
        fun ho => ho.congr (hwithin₁.stays v hself)⟩
    have hsticky := hwithin₁.sticky v hself
    have hkept : ∀ {m₂ : Membership}, Within (· = v) m₁ m₂ → TakenOut m m₂ u w := by
      intro m₂ h₂
      rw [TakenOut, h₂.stays u hne, h₂.sticky u hne]
      exact hout
    cases hleaves with
    | absent hnot hsame =>
      subst hsame
      exact iff_of_true hout fun ho => absurd ((honly.mpr ho w).mpr rfl) hnot
    | gone hin hother hgone hst hown =>
      refine iff_of_true (hkept hown) fun ho => ?_
      obtain ⟨w', hw', hin'⟩ := hother
      exact absurd ((honly.mpr ho w').mp hin') hw'
    | stays ho hst hsame =>
      subst hsame
      refine iff_of_true hout fun _ hfalse => ?_
      rw [← hsticky, hst] at hfalse
      cases hfalse
    | everywhere ho hst m₂ henters hset =>
      subst hset
      have hback : m₂.In u w := henters.all u (.single (hwithin₁.pulls ▸ hpull)) w hw
      have hview : ((m₂.setView v { m₂.view v with sticky := true }).view u).sticky =
          (m₁.view u).sticky := by
        rw [setView_view_of_ne _ _ hne]
        exact henters.grown.sticky u
      have hiff : TakenOut m (m₂.setView v { m₂.view v with sticky := true }) u w ↔
          m.Only u w ∧ (m₁.view u).sticky = true := by
        rw [TakenOut, hview]
        exact or_iff_right fun hnot => hnot hback
      rw [hiff]
      refine Iff.trans (and_congr_right fun hou => ?_) ⟨fun hand _ _ => hand,
        fun himp => himp (honly.mp ho) (hsticky.symm.trans hst)⟩
      exact removeParents_sticky hacyclic hlive hw h hpull hou hparents
  constructor
  · intro hall
    refine ⟨fun a ha hchild => (hrest a ha ?_).mp (hall a ha), fun ho hst x hx => ?_⟩
    · rintro rfl
      exact hchild hpull.2
    · obtain rfl : x = u := Option.some.inj (hx.symm.trans hpull.2)
      exact hparent.mp (hall x (.parent hx)) ho hst
  · rintro ⟨hothers, hagain⟩ a ha
    by_cases hau : a = u
    · rw [hau]
      exact hparent.mpr fun ho hst => hagain ho hst u hpull.2
    · refine (hrest a ha hau).mpr (hothers a ha fun hchild => ?_)
      exact hau (Option.some.inj (hchild.symm.trans hpull.2))

/-- A modal view takes its ancestors along exactly when those beyond its parent are already where it
    goes, or out of what it leaves. -/
theorem modal_views_take_ancestors (hmodal : (m.view v).modal = true)
    (hlive : ∀ w ∈ order, world.live w) (hw : w ∈ order) :
    (∃ m', m.viewSetWorkspace v w = some m' ∧
      ((∀ a, m.Carried v a → m'.In a w) ↔ m.CarriesAll v w)) ∧
    (∃ m', viewAdd c m v w = some m' ∧
      ((∀ a, m.Carried v a → m'.In a w) ↔ m.CarriesAll v w)) ∧
    ∃ m', viewRemoveWorkspace c order w m.fuel m v = some m' ∧
      ((∀ a, m.Carried v a → TakenOut m m' a w) ↔ m.RemovesAll order v w) := by
  cases hp : (m.view v).parent with
  | some u =>
    have hpull : m.Pulls v u := ⟨hmodal, hp⟩
    exact ⟨viewSetWorkspace_carries hacyclic h hv (hlive w hw) hpull,
      viewAdd_carries hacyclic h hv (hlive w hw) hpull,
      viewRemoveWorkspace_removes hacyclic h hv hlive hw hpull⟩
  | none =>
    have hno : ∀ u, ¬ m.ChildOf v u := by
      intro u hu
      rw [ChildOf, hp] at hu
      cases hu
    have hnone : ∀ a, ¬ m.Carried v a := by
      intro a ha
      induction ha with
      | parent hu => exact hno _ hu
      | next _ _ _ ih => exact ih
    have hv₀ : v ∈ m.views := h.views ▸ hv
    have hkin : Kin world m m := ⟨h, fun _ => rfl, rfl⟩
    have hstart : Enough m.ChildOf m.views m.fuel v := .start v (Nat.lt_succ_self _)
    obtain ⟨m₁, hm₁, -⟩ := viewDoSetWorkspace_isSome hacyclic h (hlive w hw) m.fuel hkin hv₀ hstart
    obtain ⟨m₂, hm₂, -⟩ := viewAdd_isSome (c := c) hacyclic h (hlive w hw) hkin hv₀
    obtain ⟨m₃, hm₃, -⟩ := viewRemoveWorkspace_isSome (c := c) (w := w) hacyclic h hlive m.fuel
      hkin hv₀ hstart
    refine ⟨⟨m₁, hm₁, ?_⟩, ⟨m₂, hm₂, ?_⟩, m₃, hm₃, ?_⟩
    · exact iff_of_true (fun a ha => absurd ha (hnone a)) fun a ha => absurd ha (hnone a)
    · exact iff_of_true (fun a ha => absurd ha (hnone a)) fun a ha => absurd ha (hnone a)
    · exact iff_of_true (fun a ha => absurd ha (hnone a))
        ⟨fun a ha => absurd ha (hnone a), fun _ _ u hu => absurd hu (hno u)⟩

end ancestors

/-! ### Three views -/

/-- Three views in one workspace, stacked in the order of their creation. -/
def threeViews (parent : ViewId → Option ViewId) (children : ViewId → List ViewId)
    (modal : ViewId → Bool) : Membership where
  views := [0, 1, 2]
  view v :=
    { empty.view v with
      parent := parent v
      children := children v
      modal := modal v
      proxies := if v < 3 then [v] else []
      current := if v < 3 then some v else none
      treeParent := if v < 3 then .proxy v else .destroyed }
  proxy p := if p < 3 then some ⟨p, 0, .normal⟩ else none
  listed w := if w = 0 then [2, 1, 0] else []
  next := 3

section three

variable {parent : ViewId → Option ViewId} {children : ViewId → List ViewId} {modal : ViewId → Bool}

theorem threeViews_owner {p : ProxyId} {o : ViewId × WorkspaceId} :
    (threeViews parent children modal).owner p = some o ↔ p < 3 ∧ o = (p, 0) := by
  simp [owner, threeViews, eq_comm]

theorem threeViews_in : (threeViews parent children modal).In v w ↔ v < 3 ∧ w = 0 := by
  simp only [In, threeViews_owner, Prod.mk.injEq]
  constructor
  · rintro ⟨p, hp, rfl, rfl⟩
    exact ⟨hp, rfl⟩
  · rintro ⟨hv, rfl⟩
    exact ⟨v, hv, rfl, rfl⟩

theorem mem_three {x : ℕ} : x ∈ [2, 1, 0] ↔ x < 3 := by
  simp only [List.mem_cons, List.not_mem_nil, or_false]
  omega

theorem threeViews_linked : Linked (threeViews parent children modal) := by
  refine ⟨fun v p => ?_, fun w p => ?_, fun v => ?_, fun w => ?_, fun v w p q hp hq => ?_,
    fun p o hp => (threeViews_owner.mp hp).1⟩
  · simp only [threeViews_owner]
    by_cases hv : v < 3
    · simp only [threeViews, if_pos hv, List.mem_singleton, Prod.mk.injEq]
      constructor
      · rintro rfl
        exact ⟨0, hv, rfl, rfl⟩
      · rintro ⟨w, -, rfl, -⟩
        rfl
    · simp only [threeViews, if_neg hv, List.not_mem_nil, Prod.mk.injEq, false_iff]
      rintro ⟨w, hp, rfl, -⟩
      exact hv hp
  · simp only [threeViews_owner, Prod.mk.injEq]
    by_cases hw : w = 0
    · simp only [threeViews, if_pos hw, mem_three]
      exact ⟨fun hp => ⟨p, hp, rfl, hw⟩, fun ⟨_, hp, _⟩ => hp⟩
    · simp only [threeViews, if_neg hw, List.not_mem_nil, false_iff]
      rintro ⟨v, -, -, hw'⟩
      exact hw hw'
  · by_cases hv : v < 3
    · simp [threeViews, hv]
    · simp [threeViews, hv]
  · by_cases hw : w = 0
    · simp only [threeViews, if_pos hw]
      decide
    · simp [threeViews, hw]
  · have hp := (Prod.mk.inj (threeViews_owner.mp hp).2).1
    have hq := (Prod.mk.inj (threeViews_owner.mp hq).2).1
    exact hp.symm.trans hq

/-- Younger views are children of older ones. -/
theorem threeViews_base (hparent : ∀ v u, parent v = some u → u < v ∧ v < 3) :
    Base ⟨[0, 1, 2], fun _ => True⟩ (threeViews parent children modal) ∧
      Acyclic (threeViews parent children modal).ChildOf := by
  have hmem : ∀ v : ViewId, v < 3 → v ∈ [0, 1, 2] := by
    intro v hv
    have := mem_three.mpr hv
    rwa [← List.mem_reverse] at this
  refine ⟨⟨threeViews_linked, rfl, fun v u hu => ?_, fun p v w ho => ⟨?_, trivial⟩⟩, fun x hx => ?_⟩
  · obtain ⟨huv, hv⟩ := hparent v u hu
    exact hmem u (huv.trans hv)
  · obtain ⟨hp, heq⟩ := threeViews_owner.mp ho
    rw [(Prod.mk.inj heq).1]
    exact hmem p hp
  · have hlt : ∀ {y : ViewId}, Relation.TransGen (threeViews parent children modal).ChildOf x y →
        y < x := by
      intro y hy
      induction hy with
      | single h => exact (hparent x _ h).1
      | tail _ h ih => exact (hparent _ _ h).1.trans ih
    exact lt_irrefl x (hlt hx)

end three

/-- View 2 is a dialog of view 1. -/
def oneParent : Membership :=
  threeViews (fun v => if v = 2 then some 1 else none) (fun v => if v = 1 then [2] else [])
    fun v => decide (v = 2)

/-- View 2 is a dialog of view 1, which is a child of view 0. -/
def twoParents : Membership :=
  threeViews (fun v => if v = 2 then some 1 else if v = 1 then some 0 else none)
    (fun v => if v = 1 then [2] else if v = 0 then [1] else []) fun v => decide (v = 2)

theorem oneParent_base :
    Base ⟨[0, 1, 2], fun _ => True⟩ oneParent ∧ Acyclic oneParent.ChildOf := by
  refine threeViews_base fun v u hu => ?_
  split_ifs at hu with hv
  cases hu
  exact hv ▸ ⟨by decide, by decide⟩

theorem twoParents_base :
    Base ⟨[0, 1, 2], fun _ => True⟩ twoParents ∧ Acyclic twoParents.ChildOf := by
  refine threeViews_base fun v u hu => ?_
  split_ifs at hu with h₂ h₁
  · cases hu
    exact h₂ ▸ ⟨by decide, by decide⟩
  · cases hu
    exact h₁ ▸ ⟨by decide, by decide⟩

theorem oneParent_carried (h : oneParent.Carried 2 a) : oneParent.ChildOf 2 a := by
  induction h with
  | parent hu => exact hu
  | next _ _ hchild ih =>
    obtain rfl := Option.some.inj ih
    cases hchild

theorem oneParent_taken :
    (∃ m', oneParent.viewSetWorkspace 2 1 = some m' ∧ m'.In 1 1) ∧
    (∃ m', viewAdd (some 0) oneParent 2 1 = some m' ∧ m'.In 1 1) ∧
    ∃ m', viewRemoveWorkspace (some 0) [0, 1] 0 oneParent.fuel oneParent 2 = some m' ∧
      TakenOut oneParent m' 1 0 := by
  obtain ⟨hbase, hacyclic⟩ := oneParent_base
  have hall : oneParent.CarriesAll 2 1 := fun a ha hchild => absurd (oneParent_carried ha) hchild
  have hremoves : oneParent.RemovesAll [0, 1] 2 0 := by
    refine ⟨fun a ha hchild => absurd (oneParent_carried ha) hchild, fun _ _ u hu => ?_⟩
    obtain rfl := Option.some.inj hu
    refine ⟨fun w' => ?_, .inr (.inr (.inl rfl))⟩
    rw [oneParent, threeViews_in]
    exact and_iff_right (by decide)
  obtain ⟨⟨m₁, hm₁, hiff₁⟩, ⟨m₂, hm₂, hiff₂⟩, -⟩ := modal_views_take_ancestors (c := some 0)
    (w := 1) hacyclic hbase (v := 2) (by decide) rfl (fun w (_ : w ∈ [0, 1]) => trivial) (by decide)
  obtain ⟨-, -, m₃, hm₃, hiff₃⟩ := modal_views_take_ancestors (c := some 0) (w := 0) hacyclic hbase
    (v := 2) (by decide) rfl (fun w (_ : w ∈ [0, 1]) => trivial) (by decide)
  exact ⟨⟨m₁, hm₁, hiff₁.mpr hall 1 (.parent rfl)⟩, ⟨m₂, hm₂, hiff₂.mpr hall 1 (.parent rfl)⟩,
    m₃, hm₃, hiff₃.mpr hremoves 1 (.parent rfl)⟩

/-- The parent of the parent stays behind. -/
theorem grandparent_stays_behind :
    ¬ ∀ (world : World) (m : Membership) (v : ViewId) (w : WorkspaceId), Base world m →
      Acyclic m.ChildOf → v ∈ world.views → (m.view v).modal = true → world.live w →
      ∃ m', m.viewSetWorkspace v w = some m' ∧ ∀ a, m.Carried v a → m'.In a w := by
  intro h
  obtain ⟨hbase, hacyclic⟩ := twoParents_base
  obtain ⟨m', hm', hall⟩ := h _ twoParents 2 1 hbase hacyclic (by decide) rfl trivial
  obtain ⟨m'', hm'', hiff⟩ := viewSetWorkspace_carries (w := 1) hacyclic hbase
    (show (2 : ViewId) ∈ [0, 1, 2] by decide) trivial (show twoParents.Pulls 2 1 from ⟨rfl, rfl⟩)
  rw [hm', Option.some.injEq] at hm''
  subst hm''
  have hin := hiff.mp hall 0 (.next (.parent rfl) rfl rfl) (by simp [ChildOf, twoParents, threeViews])
  rw [twoParents, threeViews_in] at hin
  cases hin.2

end Membership

end FlakeWm.Workspaces
