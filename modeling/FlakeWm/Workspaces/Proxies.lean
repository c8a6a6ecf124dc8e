import Mathlib.Data.List.Nodup
import FlakeWm.Workspaces.Membership

/-! The links between views, proxies and workspaces, and the operations on one proxy.

    `InvOn P` is the membership invariant, relaxed for the views outside `P`: such a view may have
    proxies without a current one. The relaxed form is what holds between the creation of a proxy
    and `view_set_current_proxy`, and while a view joins all workspaces one after the other. -/

namespace FlakeWm.Workspaces

namespace Membership

/-- The view and the workspace of a proxy that was not freed. -/
def owner (m : Membership) (p : ProxyId) : Option (ViewId × WorkspaceId) :=
  (m.proxy p).map fun x => (x.view, x.workspace)

/-- The view has a proxy in the workspace. -/
def In (m : Membership) (v : ViewId) (w : WorkspaceId) : Prop := ∃ p, m.owner p = some (v, w)

/-- A proxy is in the list of its view and in the list of its workspace, once, and in no other;
    freed proxies are in no list, and a view has one proxy for a workspace at most. -/
structure Linked (m : Membership) : Prop where
  view_mem : ∀ v p, p ∈ (m.view v).proxies ↔ ∃ w, m.owner p = some (v, w)
  listed_mem : ∀ w p, p ∈ m.listed w ↔ ∃ v, m.owner p = some (v, w)
  view_nodup : ∀ v, (m.view v).proxies.Nodup
  listed_nodup : ∀ w, (m.listed w).Nodup
  unique : ∀ v w p q, m.owner p = some (v, w) → m.owner q = some (v, w) → p = q
  fresh : ∀ p o, m.owner p = some o → p < m.next

/-- The views and the workspaces there are. -/
structure World where
  views : List ViewId
  live : WorkspaceId → Prop

/-- Proxies and parents are of this world. -/
structure Known (world : World) (m : Membership) : Prop where
  views : m.views = world.views
  parent_mem : ∀ v u, (m.view v).parent = some u → u ∈ world.views
  owner_mem : ∀ p v w, m.owner p = some (v, w) → v ∈ world.views ∧ world.live w

/-- The membership invariant, where only the views in `P` need a current proxy. -/
structure InvOn (P : ViewId → Prop) (world : World) (m : Membership) : Prop
    extends Linked m, Known world m where
  current_mem : ∀ v p, (m.view v).current = some p → p ∈ (m.view v).proxies
  current_some : ∀ v, P v → (m.view v).proxies ≠ [] → (m.view v).current ≠ none
  tree : ∀ v p, (m.view v).treeParent = .proxy p → (m.view v).current = some p

/-- The part of the invariant that says nothing about what carries a view. -/
structure Base (world : World) (m : Membership) : Prop extends Linked m, Known world m

/-- The whole membership invariant. -/
abbrev Inv (world : World) (m : Membership) : Prop := InvOn (fun _ => True) world m

variable {P Q : ViewId → Prop} {world world' : World}
variable {m m' m'' : Membership}

theorem InvOn.mono (h : InvOn P world m)
    (hQ : ∀ v, Q v → P v ∨ (m.view v).current ≠ none ∨ (m.view v).proxies = []) :
    InvOn Q world m := by
  refine ⟨h.toLinked, h.toKnown, h.current_mem, fun v hv hne => ?_, h.tree⟩
  rcases hQ v hv with hP | hcur | hnil
  · exact h.current_some v hP hne
  · exact hcur
  · exact absurd hnil hne

theorem InvOn.in_world (h : InvOn P world m) (hknown : Known world' m) : InvOn P world' m :=
  ⟨h.toLinked, hknown, h.current_mem, h.current_some, h.tree⟩

theorem InvOn.base (h : InvOn P world m) : Base world m := ⟨h.toLinked, h.toKnown⟩

/-- Changing what the links do not depend on. -/
theorem Base.congr (h : Base world m)
    (hproxies : ∀ v, (m'.view v).proxies = (m.view v).proxies)
    (hparent : ∀ v u, (m'.view v).parent = some u → u ∈ world.views)
    (howner : m'.owner = m.owner) (hlisted : m'.listed = m.listed) (hnext : m'.next = m.next)
    (hviews : m'.views = m.views) : Base world m' := by
  refine ⟨⟨fun v p => ?_, fun w p => ?_, fun v => ?_, fun w => ?_, ?_, ?_⟩,
    ⟨hviews.trans h.views, hparent, ?_⟩⟩
  · rw [hproxies, howner]; exact h.view_mem v p
  · rw [hlisted, howner]; exact h.listed_mem w p
  · rw [hproxies]; exact h.view_nodup v
  · rw [hlisted]; exact h.listed_nodup w
  · rw [howner]; exact h.unique
  · rw [howner, hnext]; exact h.fresh
  · rw [howner]; exact h.owner_mem

/-- Changing what the links do not depend on; the tree may go to the current proxy or elsewhere. -/
theorem InvOn.congr (h : InvOn P world m) (hproxies : ∀ v, (m'.view v).proxies =
      (m.view v).proxies) (hcurrent : ∀ v, (m'.view v).current = (m.view v).current)
    (htree : ∀ v p, (m'.view v).treeParent = .proxy p →
      (m.view v).treeParent = .proxy p ∨ (m.view v).current = some p)
    (hparent : ∀ v u, (m'.view v).parent = some u → u ∈ world.views)
    (howner : m'.owner = m.owner) (hlisted : m'.listed = m.listed) (hnext : m'.next = m.next)
    (hviews : m'.views = m.views) : InvOn P world m' := by
  have hbase := h.base.congr hproxies hparent howner hlisted hnext hviews
  refine ⟨hbase.toLinked, hbase.toKnown, fun v p hc => ?_, fun v hv hne => ?_, fun v p ht => ?_⟩
  · rw [hcurrent] at hc
    rw [hproxies]
    exact h.current_mem v p hc
  · rw [hcurrent]
    rw [hproxies] at hne
    exact h.current_some v hv hne
  · rw [hcurrent]
    rcases htree v p ht with h' | h'
    · exact h.tree v p h'
    · exact h'

/-! ### Lookup -/

theorem viewProxyByWorkspace_eq_some (h : Linked m) {v : ViewId} {w : WorkspaceId} {p : ProxyId} :
    m.viewProxyByWorkspace v w = some p ↔ m.owner p = some (v, w) := by
  have hhit : ∀ q ∈ (m.view v).proxies, (m.proxy q).any (·.workspace = w) = true →
      m.owner q = some (v, w) := by
    intro q hq hany
    obtain ⟨w', hw'⟩ := (h.view_mem v q).mp hq
    rw [owner, Option.map_eq_some_iff] at hw' ⊢
    obtain ⟨x, hx, heq⟩ := hw'
    rw [hx, Option.any_some, decide_eq_true_eq] at hany
    rw [Prod.mk.injEq] at heq
    exact ⟨x, hx, by rw [heq.1, hany]⟩
  constructor
  · intro hfind
    exact hhit p (List.mem_of_find?_eq_some hfind) (by simpa using List.find?_some hfind)
  · intro ho
    have hmem := (h.view_mem v p).mpr ⟨w, ho⟩
    have hany : (m.proxy p).any (·.workspace = w) = true := by
      rw [owner, Option.map_eq_some_iff] at ho
      obtain ⟨x, hx, heq⟩ := ho
      rw [Prod.mk.injEq] at heq
      rw [hx, Option.any_some, decide_eq_true_eq]
      exact heq.2
    cases hfind : m.viewProxyByWorkspace v w with
    | none =>
      have := List.find?_eq_none.mp hfind p hmem
      simp [hany] at this
    | some q =>
      have hq := hhit q (List.mem_of_find?_eq_some hfind) (by simpa using List.find?_some hfind)
      rw [h.unique v w q p hq ho]

theorem viewProxyByWorkspace_eq_none (h : Linked m) {v : ViewId} {w : WorkspaceId} :
    m.viewProxyByWorkspace v w = none ↔ ¬ m.In v w := by
  constructor
  · rintro hnone ⟨p, hp⟩
    rw [(viewProxyByWorkspace_eq_some h).mpr hp] at hnone
    cases hnone
  · intro hnot
    cases hfind : m.viewProxyByWorkspace v w with
    | none => rfl
    | some p => exact absurd ⟨p, (viewProxyByWorkspace_eq_some h).mp hfind⟩ hnot

/-! ### One proxy -/

/-- Parents, modality and stickiness are the same. -/
structure SameFamily (m m' : Membership) : Prop where
  parent : ∀ u, (m'.view u).parent = (m.view u).parent
  modal : ∀ u, (m'.view u).modal = (m.view u).modal
  sticky : ∀ u, (m'.view u).sticky = (m.view u).sticky
  views : m'.views = m.views

theorem SameFamily.trans (h : SameFamily m m') (h' : SameFamily m' m'') : SameFamily m m'' :=
  ⟨fun u => (h'.parent u).trans (h.parent u), fun u => (h'.modal u).trans (h.modal u),
    fun u => (h'.sticky u).trans (h.sticky u), h'.views.trans h.views⟩

@[simp] theorem setView_view_self (m : Membership) (v : ViewId) (x : View) :
    (m.setView v x).view v = x := Function.update_self ..

theorem setView_view_of_ne (m : Membership) {v u : ViewId} (x : View) (h : u ≠ v) :
    (m.setView v x).view u = m.view u := Function.update_of_ne h ..

/-- Writing the other fields of a view; its tree may go to its current proxy. -/
theorem setView_inv (h : InvOn P world m) {v : ViewId} {x : View}
    (hproxies : x.proxies = (m.view v).proxies) (hcurrent : x.current = (m.view v).current)
    (htree : ∀ p, x.treeParent = .proxy p →
      (m.view v).treeParent = .proxy p ∨ (m.view v).current = some p)
    (hparent : ∀ u, x.parent = some u → (m.view v).parent = some u ∨ u ∈ world.views) :
    InvOn P world (m.setView v x) := by
  refine h.congr (fun u => ?_) (fun u => ?_) (fun u p hu => ?_) (fun u y hy => ?_) rfl rfl rfl rfl
  · rcases eq_or_ne u v with rfl | hu
    · rw [setView_view_self, hproxies]
    · rw [setView_view_of_ne _ _ hu]
  · rcases eq_or_ne u v with rfl | hu
    · rw [setView_view_self, hcurrent]
    · rw [setView_view_of_ne _ _ hu]
  · rcases eq_or_ne u v with rfl | hne
    · rw [setView_view_self] at hu
      exact htree p hu
    · rw [setView_view_of_ne _ _ hne] at hu
      exact .inl hu
  · rcases eq_or_ne u v with rfl | hne
    · rw [setView_view_self] at hy
      exact (hparent y hy).elim (h.parent_mem u y) id
    · rw [setView_view_of_ne _ _ hne] at hy
      exact h.parent_mem u y hy

theorem viewProxyCreate_owner (m : Membership) (v : ViewId) (w : WorkspaceId) (p : ProxyId) :
    (m.viewProxyCreate v w).owner p = if p = m.next then some (v, w) else m.owner p := by
  rcases eq_or_ne p m.next with rfl | hne
  · simp [owner, viewProxyCreate]
  · simp [owner, viewProxyCreate, hne]

theorem viewProxyCreate_view (m : Membership) (v : ViewId) (w : WorkspaceId) (u : ViewId) :
    (m.viewProxyCreate v w).view u =
      if u = v then { m.view v with proxies := m.next :: (m.view v).proxies } else m.view u := by
  rcases eq_or_ne u v with rfl | hne
  · rw [if_pos rfl]
    exact Function.update_self ..
  · rw [if_neg hne]
    exact Function.update_of_ne hne ..

/-- A new proxy is linked. -/
theorem viewProxyCreate_base (h : Base world m) {v : ViewId} {w : WorkspaceId}
    (hnot : ¬ m.In v w) (hv : v ∈ world.views) (hw : world.live w) :
    Base world (m.viewProxyCreate v w) := by
  have hnext : m.owner m.next = none := by
    cases ho : m.owner m.next with
    | none => rfl
    | some o => exact absurd (h.fresh _ _ ho) (lt_irrefl _)
  refine ⟨⟨fun u p => ?_, fun w' p => ?_, fun u => ?_, fun w' => ?_, ?_, ?_⟩,
    ⟨h.views, fun u y hy => ?_, fun p u w' hp => ?_⟩⟩
  · rw [viewProxyCreate_view, viewProxyCreate_owner]
    by_cases hp : p = m.next
    · subst hp
      have hfree : m.next ∉ (m.view u).proxies := by
        rw [h.view_mem, hnext]
        simp
      rw [if_pos rfl]
      split_ifs with huv
      · simp [huv]
      · simp [hfree, Ne.symm huv]
    · rw [if_neg hp]
      split_ifs with huv
      · rw [huv, List.mem_cons, or_iff_right hp]
        exact h.view_mem v p
      · exact h.view_mem u p
  · rw [viewProxyCreate_owner]
    have hlist : (m.viewProxyCreate v w).listed w' =
        if w' = w then m.next :: m.listed w else m.listed w' := by
      rcases eq_or_ne w' w with rfl | hne
      · rw [if_pos rfl]
        exact Function.update_self ..
      · rw [if_neg hne]
        exact Function.update_of_ne hne ..
    rw [hlist]
    by_cases hp : p = m.next
    · subst hp
      have hfree : m.next ∉ m.listed w' := by
        rw [h.listed_mem, hnext]
        simp
      rw [if_pos rfl]
      split_ifs with hww
      · simp [hww]
      · simp [hfree, Ne.symm hww]
    · rw [if_neg hp]
      split_ifs with hww
      · rw [hww, List.mem_cons, or_iff_right hp]
        exact h.listed_mem w p
      · exact h.listed_mem w' p
  · rw [viewProxyCreate_view]
    split_ifs
    · refine List.nodup_cons.mpr ⟨?_, h.view_nodup v⟩
      rw [h.view_mem, hnext]
      simp
    · exact h.view_nodup u
  · rcases eq_or_ne w' w with rfl | hne
    · have hlist : (m.viewProxyCreate v w').listed w' = m.next :: m.listed w' :=
        Function.update_self ..
      rw [hlist]
      refine List.nodup_cons.mpr ⟨?_, h.listed_nodup w'⟩
      rw [h.listed_mem, hnext]
      simp
    · have hlist : (m.viewProxyCreate v w).listed w' = m.listed w' := Function.update_of_ne hne ..
      rw [hlist]
      exact h.listed_nodup w'
  · intro u w' p q hp hq
    rw [viewProxyCreate_owner] at hp hq
    split_ifs at hp hq with h1 h2 h2
    · rw [h1, h2]
    · rw [Option.some.injEq, Prod.mk.injEq] at hp
      rw [← hp.1, ← hp.2] at hq
      exact absurd ⟨q, hq⟩ hnot
    · rw [Option.some.injEq, Prod.mk.injEq] at hq
      rw [← hq.1, ← hq.2] at hp
      exact absurd ⟨p, hp⟩ hnot
    · exact h.unique u w' p q hp hq
  · intro p o hp
    rw [viewProxyCreate_owner] at hp
    change p < m.next + 1
    split_ifs at hp with heq
    · rw [heq]
      exact Nat.lt_succ_self _
    · exact Nat.lt_succ_of_lt (h.fresh p o hp)
  · rw [viewProxyCreate_view] at hy
    split_ifs at hy with huv
    · exact h.parent_mem v y hy
    · exact h.parent_mem u y hy
  · rw [viewProxyCreate_owner] at hp
    split_ifs at hp with heq
    · rw [Option.some.injEq, Prod.mk.injEq] at hp
      rw [← hp.1, ← hp.2]
      exact ⟨hv, hw⟩
    · exact h.owner_mem p u w' hp

/-- The view needs a current proxy then, or be exempted. -/
theorem viewProxyCreate_inv (h : InvOn P world m) {v : ViewId} {w : WorkspaceId}
    (hnot : ¬ m.In v w) (hv : v ∈ world.views) (hw : world.live w)
    (hcur : P v → (m.view v).current ≠ none) : InvOn P world (m.viewProxyCreate v w) := by
  have hbase := viewProxyCreate_base h.base hnot hv hw
  refine ⟨hbase.toLinked, hbase.toKnown, fun u p hc => ?_, fun u hu hne => ?_, fun u p ht => ?_⟩
  · rw [viewProxyCreate_view] at hc ⊢
    split_ifs at hc ⊢ with huv
    · exact List.mem_cons_of_mem _ (h.current_mem v p hc)
    · exact h.current_mem u p hc
  · rw [viewProxyCreate_view] at hne ⊢
    split_ifs at hne ⊢ with huv
    · exact hcur (huv ▸ hu)
    · exact h.current_some u hu hne
  · rw [viewProxyCreate_view] at ht ⊢
    split_ifs at ht ⊢ with huv
    · exact h.tree v p ht
    · exact h.tree u p ht

theorem viewSetCurrentProxy_view (m : Membership) (v u : ViewId) (p : ProxyId) :
    (m.viewSetCurrentProxy v p).view u =
      if u = v ∧ (m.view v).current ≠ some p
        then { m.view v with treeParent := .proxy p, current := some p } else m.view u := by
  simp only [viewSetCurrentProxy]
  by_cases hp : (m.view v).current = some p
  · simp [hp]
  · rcases eq_or_ne u v with rfl | hne
    · simp [hp]
    · simp [hp, hne, setView_view_of_ne]

theorem viewSetCurrentProxy_current (m : Membership) (v u : ViewId) (p : ProxyId) :
    ((m.viewSetCurrentProxy v p).view u).current =
      if u = v then some p else (m.view u).current := by
  rw [viewSetCurrentProxy_view]
  rcases eq_or_ne u v with rfl | hne
  · by_cases hp : (m.view u).current = some p
    · simp [hp]
    · simp [hp]
  · simp [hne]

theorem viewSetCurrentProxy_proxies (m : Membership) (v u : ViewId) (p : ProxyId) :
    ((m.viewSetCurrentProxy v p).view u).proxies = (m.view u).proxies := by
  rw [viewSetCurrentProxy_view]
  split_ifs with h
  · rw [h.1]
  · rfl

/-- The proxies and the lists do not change with the current proxy. -/
theorem viewSetCurrentProxy_links (m : Membership) (v : ViewId) (p : ProxyId) :
    (m.viewSetCurrentProxy v p).proxy = m.proxy ∧ (m.viewSetCurrentProxy v p).listed = m.listed ∧
      (m.viewSetCurrentProxy v p).next = m.next ∧ (m.viewSetCurrentProxy v p).views = m.views := by
  simp only [viewSetCurrentProxy]
  split_ifs
  · exact ⟨rfl, rfl, rfl, rfl⟩
  · exact ⟨rfl, rfl, rfl, rfl⟩

theorem viewSetCurrentProxy_owner (m : Membership) (v : ViewId) (p : ProxyId) :
    (m.viewSetCurrentProxy v p).owner = m.owner := by
  funext q
  rw [owner, owner, (viewSetCurrentProxy_links m v p).1]

theorem viewSetCurrentProxy_family (m : Membership) (v : ViewId) (p : ProxyId) :
    SameFamily m (m.viewSetCurrentProxy v p) := by
  have hview : ∀ u, ((m.viewSetCurrentProxy v p).view u).parent = (m.view u).parent ∧
      ((m.viewSetCurrentProxy v p).view u).modal = (m.view u).modal ∧
      ((m.viewSetCurrentProxy v p).view u).sticky = (m.view u).sticky := by
    intro u
    rw [viewSetCurrentProxy_view]
    split_ifs with h
    · rw [h.1]
      exact ⟨rfl, rfl, rfl⟩
    · exact ⟨rfl, rfl, rfl⟩
  exact ⟨fun u => (hview u).1, fun u => (hview u).2.1, fun u => (hview u).2.2,
    (viewSetCurrentProxy_links m v p).2.2.2⟩

theorem viewSetCurrentProxy_base (h : Base world m) (v : ViewId) (p : ProxyId) :
    Base world (m.viewSetCurrentProxy v p) := by
  obtain ⟨-, hlisted, hnext, hviews⟩ := viewSetCurrentProxy_links m v p
  refine h.congr (fun u => viewSetCurrentProxy_proxies m v u p) (fun u y hy => ?_)
    (viewSetCurrentProxy_owner m v p) hlisted hnext hviews
  rw [(viewSetCurrentProxy_family m v p).parent] at hy
  exact h.parent_mem u y hy

/-- A view that is carried by one of its proxies needs no exemption. -/
theorem viewSetCurrentProxy_inv (h : InvOn P world m) {v : ViewId} {p : ProxyId}
    (hp : p ∈ (m.view v).proxies) :
    InvOn (fun u => P u ∨ u = v) world (m.viewSetCurrentProxy v p) := by
  have hproxies := fun u => viewSetCurrentProxy_proxies m v u p
  have hbase := viewSetCurrentProxy_base h.base v p
  refine ⟨hbase.toLinked, hbase.toKnown, fun u q hc => ?_, fun u hu hne => ?_, fun u q ht => ?_⟩
  · rw [viewSetCurrentProxy_current] at hc
    rw [hproxies]
    split_ifs at hc with huv
    · rw [huv, ← Option.some.inj hc]
      exact hp
    · exact h.current_mem u q hc
  · rw [viewSetCurrentProxy_current]
    rw [hproxies] at hne
    split_ifs with huv
    · simp
    · exact h.current_some u (hu.resolve_right huv) hne
  · rw [viewSetCurrentProxy_current]
    rw [viewSetCurrentProxy_view] at ht
    split_ifs at ht with hset
    · rw [if_pos hset.1, TreeParent.proxy.inj ht]
    · split_ifs with huv
      · have hcur : (m.view v).current = some p := by
          by_contra hne
          exact hset ⟨huv, hne⟩
        rw [← hcur, ← huv]
        exact h.tree u q ht
      · exact h.tree u q ht

/-! ### Destroying proxies -/

theorem viewProxyDestroy_owner (m : Membership) (p q : ProxyId) :
    (m.viewProxyDestroy p).owner q = if q = p then none else m.owner q := by
  unfold viewProxyDestroy
  split
  · next hp =>
    split_ifs with hqp
    · rw [hqp, owner, hp, Option.map_none]
    · rfl
  · rcases eq_or_ne q p with rfl | hne
    · simp [owner]
    · simp [owner, hne]

theorem viewProxyDestroy_current (m : Membership) (p : ProxyId) (u : ViewId) :
    ((m.viewProxyDestroy p).view u).current = (m.view u).current := by
  unfold viewProxyDestroy
  split
  · rfl
  · next x _ =>
    rcases eq_or_ne u x.view with rfl | hne
    · simp
    · simp [setView_view_of_ne _ _ hne]

theorem viewProxyDestroy_tree (m : Membership) (p q : ProxyId) (u : ViewId)
    (h : ((m.viewProxyDestroy p).view u).treeParent = .proxy q) :
    (m.view u).treeParent = .proxy q := by
  unfold viewProxyDestroy at h
  split at h
  · exact h
  · next x _ =>
    rcases eq_or_ne u x.view with rfl | hne
    · simp only [setView_view_self] at h
      split_ifs at h
      exact h
    · simpa [setView_view_of_ne _ _ hne] using h

/-- The lists lose the destroyed proxy; only those of its view and its workspace held it. -/
theorem viewProxyDestroy_lists (h : Linked m) (p : ProxyId) :
    (∀ u, ((m.viewProxyDestroy p).view u).proxies = (m.view u).proxies.filter (· ≠ p)) ∧
      ∀ w, (m.viewProxyDestroy p).listed w = (m.listed w).filter (· ≠ p) := by
  have hkeep : ∀ l : List ProxyId, p ∉ l → l = l.filter (· ≠ p) := by
    intro l hl
    refine (List.filter_eq_self.mpr fun q hq => ?_).symm
    rw [decide_eq_true_eq]
    rintro rfl
    exact hl hq
  unfold viewProxyDestroy
  split
  · next hp =>
    have hnone : m.owner p = none := by rw [owner, hp, Option.map_none]
    refine ⟨fun u => hkeep _ ?_, fun w => hkeep _ ?_⟩
    · rw [h.view_mem, hnone]
      simp
    · rw [h.listed_mem, hnone]
      simp
  · next x hp =>
    have hsome : m.owner p = some (x.view, x.workspace) := by rw [owner, hp, Option.map_some]
    refine ⟨fun u => ?_, fun w => ?_⟩
    · rcases eq_or_ne u x.view with rfl | hne
      · simp
      · rw [← hkeep (m.view u).proxies]
        · simp [setView_view_of_ne _ _ hne]
        · rw [h.view_mem, hsome]
          rintro ⟨w, heq⟩
          exact hne (Prod.mk.inj (Option.some.inj heq)).1.symm
    · rcases eq_or_ne w x.workspace with rfl | hne
      · simp
      · rw [← hkeep (m.listed w)]
        · simp [hne]
        · rw [h.listed_mem, hsome]
          rintro ⟨v, heq⟩
          exact hne (Prod.mk.inj (Option.some.inj heq)).2.symm

theorem viewProxyDestroy_family (m : Membership) (p : ProxyId) :
    SameFamily m (m.viewProxyDestroy p) := by
  unfold viewProxyDestroy
  split
  · exact ⟨fun _ => rfl, fun _ => rfl, fun _ => rfl, rfl⟩
  · next x _ =>
    refine ⟨fun u => ?_, fun u => ?_, fun u => ?_, rfl⟩
    all_goals
      rcases eq_or_ne u x.view with rfl | hne
      · simp
      · simp [setView_view_of_ne _ _ hne]

theorem viewProxyDestroy_base (h : Base world m) (p : ProxyId) :
    Base world (m.viewProxyDestroy p) := by
  obtain ⟨hproxies, hlisted⟩ := viewProxyDestroy_lists h.toLinked p
  have howner := viewProxyDestroy_owner m p
  have hsome : ∀ {q o}, (m.viewProxyDestroy p).owner q = some o → m.owner q = some o := by
    intro q o hq
    rw [howner] at hq
    split_ifs at hq
    exact hq
  refine ⟨⟨fun u q => ?_, fun w q => ?_, fun u => ?_, fun w => ?_, ?_, ?_⟩,
    ⟨?_, fun u y hy => ?_, fun q v w hq => h.owner_mem q v w (hsome hq)⟩⟩
  · rw [hproxies, howner, List.mem_filter, decide_eq_true_eq]
    split_ifs with hqp
    · simp [hqp]
    · simp [hqp, h.view_mem]
  · rw [hlisted, howner, List.mem_filter, decide_eq_true_eq]
    split_ifs with hqp
    · simp [hqp]
    · simp [hqp, h.listed_mem]
  · rw [hproxies]
    exact (h.view_nodup u).filter _
  · rw [hlisted]
    exact (h.listed_nodup w).filter _
  · intro v w q r hq hr
    exact h.unique v w q r (hsome hq) (hsome hr)
  · intro q o hq
    have hnext : (m.viewProxyDestroy p).next = m.next := by
      unfold viewProxyDestroy
      split <;> rfl
    rw [hnext]
    exact h.fresh q o (hsome hq)
  · rw [(viewProxyDestroy_family m p).views]
    exact h.views
  · rw [(viewProxyDestroy_family m p).parent] at hy
    exact h.parent_mem u y hy

/-- A proxy that does not carry its view can go. -/
theorem viewProxyDestroy_inv (h : InvOn P world m) {p : ProxyId}
    (hp : ∀ v w, m.owner p = some (v, w) → (m.view v).current ≠ some p) :
    InvOn P world (m.viewProxyDestroy p) := by
  obtain ⟨hproxies, -⟩ := viewProxyDestroy_lists h.toLinked p
  have hbase := viewProxyDestroy_base h.base p
  refine ⟨hbase.toLinked, hbase.toKnown, fun u q hc => ?_, fun u hu hne => ?_, fun u q ht => ?_⟩
  · rw [viewProxyDestroy_current] at hc
    have hmem := h.current_mem u q hc
    rw [hproxies, List.mem_filter, decide_eq_true_eq]
    refine ⟨hmem, ?_⟩
    rintro rfl
    obtain ⟨w, hw⟩ := (h.view_mem u q).mp hmem
    exact hp u w hw hc
  · rw [viewProxyDestroy_current]
    refine h.current_some u hu fun hnil => hne ?_
    rw [hproxies, hnil, List.filter_nil]
  · rw [viewProxyDestroy_current]
    exact h.tree u q (viewProxyDestroy_tree m p q u ht)

/-- Destroying proxies of one view, none of which carries it. -/
theorem foldl_viewProxyDestroy_inv {v : ViewId} : ∀ (l : List ProxyId) {m : Membership},
    InvOn P world m → (∀ p ∈ l, ∀ u w, m.owner p = some (u, w) → u = v) →
    (∀ p ∈ l, (m.view v).current ≠ some p) → InvOn P world (l.foldl viewProxyDestroy m)
  | [], _, h, _, _ => h
  | p :: l, m, h, howned, hcur => by
    refine foldl_viewProxyDestroy_inv (v := v) l (viewProxyDestroy_inv h fun u w ho => ?_)
      (fun q hq u w ho => ?_) fun q hq => ?_
    · rw [howned p List.mem_cons_self u w ho]
      exact hcur p List.mem_cons_self
    · rw [viewProxyDestroy_owner] at ho
      split_ifs at ho
      exact howned q (List.mem_cons_of_mem _ hq) u w ho
    · rw [viewProxyDestroy_current]
      exact hcur q (List.mem_cons_of_mem _ hq)

theorem foldl_viewProxyDestroy_current (u : ViewId) : ∀ (l : List ProxyId) (m : Membership),
    ((l.foldl viewProxyDestroy m).view u).current = (m.view u).current
  | [], _ => rfl
  | p :: l, m => by
    rw [List.foldl_cons, foldl_viewProxyDestroy_current u l, viewProxyDestroy_current]

/-- The view is carried by no proxy. -/
def dropCurrent (m : Membership) (v : ViewId) : Membership :=
  m.setView v { m.view v with current := none }

theorem viewProxyDestroy_dropCurrent (m : Membership) (v : ViewId) (p : ProxyId) :
    (m.dropCurrent v).viewProxyDestroy p = (m.viewProxyDestroy p).dropCurrent v := by
  unfold viewProxyDestroy
  have hproxy : (m.dropCurrent v).proxy p = m.proxy p := rfl
  rw [hproxy]
  cases m.proxy p with
  | none => rfl
  | some x =>
    rcases eq_or_ne x.view v with rfl | hne
    · simp [dropCurrent, setView]
    · simp [dropCurrent, setView, hne, hne.symm, Function.update_comm hne]

theorem foldl_viewProxyDestroy_dropCurrent (v : ViewId) : ∀ (l : List ProxyId) (m : Membership),
    l.foldl viewProxyDestroy (m.dropCurrent v) = (l.foldl viewProxyDestroy m).dropCurrent v
  | [], _ => rfl
  | p :: l, m => by
    rw [List.foldl_cons, List.foldl_cons, viewProxyDestroy_dropCurrent,
      foldl_viewProxyDestroy_dropCurrent v l]

theorem viewClearCurrentProxy_eq_some {v : ViewId} (h : m.viewClearCurrentProxy v = some m') :
    m' = m.dropCurrent v ∧ ((m.view v).current ≠ none → (m.view v).proxies = []) := by
  simp only [viewClearCurrentProxy] at h
  split_ifs at h with hnone hempty
  · cases h
    refine ⟨?_, absurd hnone⟩
    rw [dropCurrent, setView, ← hnone, Function.update_eq_self]
  · cases h
    exact ⟨rfl, fun _ => by simpa using hempty⟩

/-- A view that left the trees of its proxies can lose all of them. -/
theorem viewProxiesDestroy_inv (h : InvOn P world m) {v : ViewId}
    (htree : ∀ p, (m.view v).treeParent ≠ .proxy p) (hcur : (m.view v).current ≠ none)
    (hs : m.viewProxiesDestroy v = some m') : InvOn P world m' := by
  obtain ⟨rfl, hempty⟩ := viewClearCurrentProxy_eq_some hs
  have hother : ∀ u, u ≠ v → (m.dropCurrent v).view u = m.view u := fun u hu =>
    setView_view_of_ne m _ hu
  have hproxies : ∀ u, ((m.dropCurrent v).view u).proxies = (m.view u).proxies := by
    intro u
    rcases eq_or_ne u v with rfl | hu
    · rw [dropCurrent, setView_view_self]
    · rw [hother u hu]
  have hnone : ((m.dropCurrent v).view v).current = none := by
    rw [dropCurrent, setView_view_self]
  have hdrop : InvOn (fun u => P u ∧ u ≠ v) world (m.dropCurrent v) := by
    refine ⟨⟨fun u p => ?_, h.listed_mem, fun u => ?_, h.listed_nodup, h.unique, h.fresh⟩,
      ⟨h.views, fun u y hy => ?_, h.owner_mem⟩, fun u p hc => ?_, fun u hu hne => ?_,
      fun u p ht => ?_⟩
    · rw [hproxies]
      exact h.view_mem u p
    · rw [hproxies]
      exact h.view_nodup u
    · rcases eq_or_ne u v with rfl | hu
      · rw [dropCurrent, setView_view_self] at hy
        exact h.parent_mem u y hy
      · rw [hother u hu] at hy
        exact h.parent_mem u y hy
    · rcases eq_or_ne u v with rfl | hu
      · rw [hnone] at hc
        cases hc
      · rw [hother u hu] at hc ⊢
        exact h.current_mem u p hc
    · rw [hother u hu.2] at hne ⊢
      exact h.current_some u hu.1 hne
    · rcases eq_or_ne u v with rfl | hu
      · rw [dropCurrent, setView_view_self] at ht
        exact absurd ht (htree p)
      · rw [hother u hu] at ht ⊢
        exact h.tree u p ht
  rw [← foldl_viewProxyDestroy_dropCurrent]
  have hfold := foldl_viewProxyDestroy_inv (v := v) (m.view v).proxies hdrop (fun p hp u w ho => ?_)
    fun p _ => by rw [hnone]; exact Option.some_ne_none p |>.symm
  · refine hfold.mono fun u hu => ?_
    rcases eq_or_ne u v with rfl | hne
    · refine .inr (.inr ?_)
      rw [foldl_viewProxyDestroy_dropCurrent, dropCurrent, setView_view_self]
      exact hempty (by rwa [foldl_viewProxyDestroy_current])
    · exact .inl ⟨hu, hne⟩
  · obtain ⟨w', ho'⟩ := (h.view_mem v p).mp hp
    have heq : some (u, w) = some (v, w') := ho.symm.trans ho'
    exact (Prod.mk.inj (Option.some.inj heq)).1

end Membership

end FlakeWm.Workspaces
