import FlakeWm.Schemes.ToFront
import FlakeWm.Stacking.Model
import FlakeWm.Workspaces.Sticky

/-! The two stacking orders agree.

    `Stacked` says that the children of a layer are the proxies of the workspace that are in this
    layer, in the order of `workspace->view_proxies`. Creating, destroying and raising a proxy do the
    same to both lists. Reparenting does not: `kywc_view_set_kept_above` and its siblings move the
    tree to the top of the other layer and leave the proxy where it is in the list of its workspace.
    The orders still agree if no proxy of the other layer is before it there (`Leads`). -/

namespace FlakeWm.Stacking

open FlakeWm.Workspaces FlakeWm.Workspaces.Membership

/-- The tree of the proxy is in this layer of its workspace. -/
def inLayer (m : Membership) (l : WorkspaceLayer) (p : ProxyId) : Bool :=
  (m.proxy p).any fun x => decide (x.layer = l)

/-- The membership is linked, and the layers are stacked like the lists of their workspaces. -/
structure Stacked (world : World) (c : Scene) : Prop extends Base world c.mem where
  order : ∀ w l, c.children w l = (c.mem.listed w).filter (inLayer c.mem l)

namespace Scene

variable {world : World} {cur : Option WorkspaceId} {c c' : Scene} {v u : ViewId}
variable {w : WorkspaceId} {l : WorkspaceLayer} {p : ProxyId}

theorem setChildren_children (c : Scene) (w w' : WorkspaceId) (l l' : WorkspaceLayer)
    (ps : List ProxyId) : (c.setChildren w l ps).children w' l' =
      if w' = w ∧ l' = l then ps else c.children w' l' := by
  rcases eq_or_ne w' w with rfl | hw
  · rcases eq_or_ne l' l with rfl | hl
    · simp [setChildren]
    · simp [setChildren, hl]
  · simp [setChildren, hw]

/-- What touches neither the proxies nor the lists of the workspaces. -/
theorem write_stacked {f : Membership → Membership} (h : Stacked world c)
    (hbase : Base world (f c.mem)) (hproxy : (f c.mem).proxy = c.mem.proxy)
    (hlisted : (f c.mem).listed = c.mem.listed) : Stacked world (c.write f) := by
  refine ⟨hbase, fun w l => ?_⟩
  have hlayer : inLayer (f c.mem) l = inLayer c.mem l := by
    funext p
    rw [inLayer, inLayer, hproxy]
  change c.children w l = ((f c.mem).listed w).filter (inLayer (f c.mem) l)
  rw [hlisted, hlayer]
  exact h.order w l

theorem setView_stacked (h : Stacked world c) {x : Membership → View}
    (hproxies : (x c.mem).proxies = (c.mem.view v).proxies)
    (hparent : ∀ u, (x c.mem).parent = some u → (c.mem.view v).parent = some u ∨ u ∈ world.views) :
    Stacked world (c.write fun m => m.setView v (x m)) :=
  write_stacked h (setView_base h.toBase hproxies hparent) rfl rfl

theorem setCurrent_stacked (h : Stacked world c) (v : ViewId) (p : ProxyId) :
    Stacked world (c.write (·.viewSetCurrentProxy v p)) := by
  obtain ⟨hproxy, hlisted, -, -⟩ := viewSetCurrentProxy_links c.mem v p
  exact write_stacked h (viewSetCurrentProxy_base h.toBase v p) hproxy hlisted

theorem clearSticky_stacked (h : Stacked world c) (v : ViewId) :
    Stacked world (c.write (·.clearSticky v)) := by
  refine write_stacked h (clearSticky_base h.toBase) ?_ ?_
  all_goals
    unfold clearSticky
    split_ifs <;> rfl

/-! ### Proxies -/

theorem inLayer_of_proxy {m : Membership} {x : Proxy} (hx : m.proxy p = some x) :
    inLayer m l p = decide (x.layer = l) := by
  rw [inLayer, hx, Option.any_some]

theorem listed_workspace {x : Proxy} (h : Stacked world c) (hx : c.mem.proxy p = some x) :
    p ∈ c.mem.listed w ↔ w = x.workspace := by
  rw [h.listed_mem]
  simp [owner, hx, eq_comm]

/-- A proxy is a child of its own layer only. -/
theorem mem_children {x : Proxy} (h : Stacked world c) (hx : c.mem.proxy p = some x) :
    p ∈ c.children w l ↔ w = x.workspace ∧ l = x.layer := by
  rw [h.order, List.mem_filter, listed_workspace h hx, inLayer_of_proxy hx, decide_eq_true_eq]
  exact and_congr_right fun _ => eq_comm

theorem without_of_not_mem {ps : List ProxyId} (hp : p ∉ ps) : without ps p = ps := by
  refine List.filter_eq_self.mpr fun q hq => ?_
  rw [decide_eq_true_eq]
  rintro rfl
  exact hp hq

theorem viewProxyCreate_stacked (h : Stacked world c) (hnot : ¬ c.mem.In v w)
    (hv : v ∈ world.views) (hw : world.live w) : Stacked world (c.viewProxyCreate v w) := by
  refine ⟨viewProxyCreate_base h.toBase hnot hv hw, fun w' l' => ?_⟩
  have hnew : ∀ w', c.mem.next ∉ c.mem.listed w' := by
    intro w' hmem
    obtain ⟨u, hu⟩ := (h.listed_mem w' _).mp hmem
    exact lt_irrefl _ (h.fresh _ _ hu)
  have hlisted : (c.mem.viewProxyCreate v w).listed w' =
      if w' = w then c.mem.next :: c.mem.listed w else c.mem.listed w' := by
    rcases eq_or_ne w' w with rfl | hne
    · exact (Function.update_self ..).trans (if_pos rfl).symm
    · exact (Function.update_of_ne hne ..).trans (if_neg hne).symm
  -- the other proxies are where they were
  have hold : (c.mem.listed w').filter (inLayer (c.mem.viewProxyCreate v w) l') =
      c.children w' l' := by
    rw [h.order]
    refine List.filter_congr fun q hq => ?_
    have hne : q ≠ c.mem.next := fun heq => hnew w' (heq ▸ hq)
    have hproxy : (c.mem.viewProxyCreate v w).proxy q = c.mem.proxy q :=
      Function.update_of_ne hne ..
    rw [inLayer, inLayer, hproxy]
  have hself : inLayer (c.mem.viewProxyCreate v w) l' c.mem.next =
      decide (View.proxyLayer (c.mem.view v) = l') := by
    refine inLayer_of_proxy (x := ⟨v, w, View.proxyLayer (c.mem.view v)⟩) ?_
    exact Function.update_self ..
  change (c.setChildren w _ _).children w' l' =
    ((c.mem.viewProxyCreate v w).listed w').filter (inLayer (c.mem.viewProxyCreate v w) l')
  rw [setChildren_children, hlisted]
  by_cases hww : w' = w
  · subst hww
    rw [if_pos rfl, List.filter_cons, hold, hself]
    by_cases hl : l' = View.proxyLayer (c.mem.view v)
    · simp [hl]
    · simp [hl, Ne.symm hl]
  · rw [if_neg hww, if_neg (fun hand => hww hand.1), hold]

theorem viewProxyDestroy_stacked (h : Stacked world c) (p : ProxyId) :
    Stacked world (c.viewProxyDestroy p) := by
  unfold viewProxyDestroy
  split
  · exact h
  · next x hx =>
    refine ⟨viewProxyDestroy_base h.toBase p, fun w l => ?_⟩
    have hchildren : ((c.setChildren x.workspace x.layer
        (without (c.children x.workspace x.layer) p)).write (·.viewProxyDestroy p)).children w l =
        without (c.children w l) p := by
      change (c.setChildren _ _ _).children w l = _
      rw [setChildren_children]
      split_ifs with hand
      · rw [hand.1, hand.2]
      · rw [without_of_not_mem]
        rwa [mem_children h hx]
    rw [hchildren, h.order]
    change _ = ((c.mem.viewProxyDestroy p).listed w).filter (inLayer (c.mem.viewProxyDestroy p) l)
    rw [(viewProxyDestroy_lists h.toLinked p).2, without, List.filter_comm]
    refine List.filter_congr fun q hq => ?_
    have hne : q ≠ p := by
      rw [List.mem_filter, decide_eq_true_eq] at hq
      exact hq.2
    have hproxy : (c.mem.viewProxyDestroy p).proxy q = c.mem.proxy q := by
      rw [Membership.viewProxyDestroy, hx]
      exact Function.update_of_ne hne ..
    rw [inLayer, inLayer, hproxy]

theorem foldl_viewProxyDestroy_stacked : ∀ (ps : List ProxyId) {c : Scene}, Stacked world c →
    Stacked world (ps.foldl viewProxyDestroy c)
  | [], _, h => h
  | p :: ps, _, h => foldl_viewProxyDestroy_stacked ps (viewProxyDestroy_stacked h p)

theorem filter_without (ps : List ProxyId) (p : ProxyId) (f : ProxyId → Bool) :
    (without ps p).filter f = without (ps.filter f) p := by
  rw [without, without, List.filter_comm]

theorem listFirst_listed (m : Membership) (w w' : WorkspaceId) (p : ProxyId) :
    (listFirst w p m).listed w' =
      if w' = w then p :: without (m.listed w') p else m.listed w' := by
  rcases eq_or_ne w' w with rfl | hne
  · exact (Function.update_self ..).trans (if_pos rfl).symm
  · exact (Function.update_of_ne hne ..).trans (if_neg hne).symm

theorem raiseProxy_stacked (h : Stacked world c) (p : ProxyId) :
    Stacked world (c.raiseProxy p) := by
  unfold raiseProxy
  split
  · exact h
  · next x hx =>
    have hmem : p ∈ c.mem.listed x.workspace := (listed_workspace h hx).mpr rfl
    have hraised : (c.write (listFirst x.workspace p)).nodeRaiseToTop p =
        (c.write (listFirst x.workspace p)).setChildren x.workspace x.layer
          (p :: without (c.children x.workspace x.layer) p) := by
      have hx' : (c.write (listFirst x.workspace p)).mem.proxy p = some x := hx
      rw [nodeRaiseToTop, hx']
      rfl
    rw [hraised]
    refine ⟨⟨⟨h.view_mem, fun w q => ?_, h.view_nodup, fun w => ?_, h.unique, h.fresh⟩,
      ⟨h.views, h.parent_mem, h.owner_mem⟩⟩, fun w l => ?_⟩
    · change q ∈ (listFirst x.workspace p c.mem).listed w ↔ _
      rw [listFirst_listed]
      split_ifs with hw
      · subst hw
        exact (mem_toFront hmem).trans (h.listed_mem _ q)
      · exact h.listed_mem w q
    · change ((listFirst x.workspace p c.mem).listed w).Nodup
      rw [listFirst_listed]
      split_ifs
      · exact nodup_toFront (h.listed_nodup w)
      · exact h.listed_nodup w
    · change (setChildren _ _ _ _).children w l =
        ((listFirst x.workspace p c.mem).listed w).filter (inLayer c.mem l)
      have hold : (c.write (listFirst x.workspace p)).children w l = c.children w l := rfl
      rw [setChildren_children, listFirst_listed, hold]
      by_cases hw : w = x.workspace
      · subst hw
        rw [if_pos rfl, List.filter_cons, inLayer_of_proxy hx, filter_without, ← h.order]
        by_cases hl : l = x.layer
        · simp [hl]
        · have hnot : p ∉ c.children x.workspace l := by
            rw [mem_children h hx]
            exact fun hand => hl hand.2
          simp [hl, Ne.symm hl, without_of_not_mem hnot]
      · rw [if_neg hw, if_neg (fun hand => hw hand.1), h.order]

theorem foldl_raiseProxy_stacked : ∀ (ps : List ProxyId) {c : Scene}, Stacked world c →
    Stacked world (ps.foldl raiseProxy c)
  | [], _, h => h
  | p :: ps, _, h => foldl_raiseProxy_stacked ps (raiseProxy_stacked h p)

/-! ### Reparenting -/

/-- No proxy of layer `l` is before `p` in the list. -/
def Leads (m : Membership) (l : WorkspaceLayer) (ps : List ProxyId) (p : ProxyId) : Prop :=
  ∀ q ∈ ps.takeWhile fun q => decide (q ≠ p), inLayer m l q = false

/-- Adding `p` to a filter puts it first, when nothing before it passes. -/
theorem filter_insert_first {f g : ProxyId → Bool} : ∀ {ps : List ProxyId}, ps.Nodup → p ∈ ps →
    (∀ q ∈ ps.takeWhile fun q => decide (q ≠ p), f q = false) → f p = false → g p = true →
    (∀ q, q ≠ p → g q = f q) → ps.filter g = p :: ps.filter f
  | q :: ps, hnodup, hmem, hbefore, hf, hg, hsame => by
    obtain ⟨hq, hnodup⟩ := List.nodup_cons.mp hnodup
    rcases eq_or_ne q p with rfl | hne
    · have hrest : ps.filter g = ps.filter f := by
        refine List.filter_congr fun r hr => hsame r ?_
        rintro rfl
        exact hq hr
      rw [List.filter_cons, List.filter_cons, hf, hg, hrest]
      simp
    · have hp : p ∈ ps := (List.mem_cons.mp hmem).resolve_left hne.symm
      rw [List.takeWhile_cons, if_pos (decide_eq_true hne)] at hbefore
      have hfq := hbefore q List.mem_cons_self
      have ih := filter_insert_first hnodup hp
        (fun r hr => hbefore r (List.mem_cons_of_mem _ hr)) hf hg hsame
      rw [List.filter_cons, List.filter_cons, hsame q hne, hfq, ih]
      simp

/-- What `ky_scene_node_reparent` changes, when it does anything. -/
theorem nodeReparent_changes (h : Stacked world c) {x : Proxy} (hx : c.mem.proxy p = some x)
    (hne : x.layer ≠ l) :
    (c.nodeReparent l p).mem = setLayer p x l c.mem ∧
      ∀ w' l', (c.nodeReparent l p).children w' l' = if w' = x.workspace ∧ l' = l
        then p :: c.children x.workspace l else without (c.children w' l') p := by
  unfold nodeReparent
  rw [hx]
  simp only [if_neg hne]
  refine ⟨rfl, fun w' l' => ?_⟩
  change (setChildren _ _ _ _).children w' l' = _
  rw [setChildren_children, setChildren_children, setChildren_children]
  have hother : ¬ (x.workspace = x.workspace ∧ l = x.layer) := fun hand => hne hand.2.symm
  rw [if_neg hother]
  split_ifs with hnew hold
  · rfl
  · rw [hold.1, hold.2]
  · rw [without_of_not_mem]
    rwa [mem_children h hx]

theorem setLayer_proxy_of_ne {m : Membership} {x : Proxy} {q : ProxyId} (hne : q ≠ p) :
    (setLayer p x l m).proxy q = m.proxy q := Function.update_of_ne hne ..

theorem setLayer_inLayer {m : Membership} {x : Proxy} (q : ProxyId) (l' : WorkspaceLayer) :
    inLayer (setLayer p x l m) l' q = if q = p then decide (l = l') else inLayer m l' q := by
  rcases eq_or_ne q p with rfl | hne
  · simp [inLayer, setLayer]
  · simp [inLayer, setLayer, hne]

theorem setLayer_owner {m : Membership} {x : Proxy} (hx : m.proxy p = some x) :
    (setLayer p x l m).owner = m.owner := by
  funext q
  rcases eq_or_ne q p with rfl | hne
  · simp [owner, setLayer, hx]
  · simp [owner, setLayer, hne]

theorem nodeReparent_stacked (h : Stacked world c) {x : Proxy} (hx : c.mem.proxy p = some x)
    (hleads : x.layer ≠ l → Leads c.mem l (c.mem.listed x.workspace) p) :
    Stacked world (c.nodeReparent l p) := by
  by_cases hne : x.layer = l
  · unfold nodeReparent
    rw [hx]
    simpa only [if_pos hne] using h
  · obtain ⟨hmem, hchildren⟩ := nodeReparent_changes h hx hne
    refine ⟨?_, fun w' l' => ?_⟩
    · rw [hmem]
      exact h.toBase.congr (fun _ => rfl) h.parent_mem (setLayer_owner hx) rfl rfl rfl
    · rw [hchildren, hmem, h.order, h.order]
      change _ = (c.mem.listed w').filter _
      split_ifs with hnew
      · rw [hnew.1, hnew.2]
        refine (filter_insert_first (h.listed_nodup _) ((listed_workspace h hx).mpr rfl)
          (hleads hne) ?_ ?_ fun q hq => ?_).symm
        · rw [inLayer_of_proxy hx, decide_eq_false hne]
        · rw [setLayer_inLayer, if_pos rfl, decide_eq_true rfl]
        · rw [setLayer_inLayer, if_neg hq]
      · rw [without, List.filter_filter]
        refine List.filter_congr fun q hq => ?_
        rw [setLayer_inLayer]
        split_ifs with hqp
        · subst hqp
          rw [listed_workspace h hx] at hq
          have hl : l ≠ l' := fun heq => hnew ⟨hq, heq.symm⟩
          simp [hl]
        · simp [hqp]

/-- Every proxy of the view that is in another layer comes before the proxies of layer `l`. -/
def LeadsAll (m : Membership) (l : WorkspaceLayer) (ps : List ProxyId) : Prop :=
  ∀ p ∈ ps, ∀ x, m.proxy p = some x → x.layer ≠ l → Leads m l (m.listed x.workspace) p

theorem foldl_nodeReparent_stacked : ∀ (ps : List ProxyId) {c : Scene}, Stacked world c →
    ps.Nodup → (∀ p ∈ ps, ∃ w, c.mem.owner p = some (v, w)) → LeadsAll c.mem l ps →
    Stacked world (ps.foldl (·.nodeReparent l) c)
  | [], _, h, _, _, _ => h
  | p :: ps, c, h, hnodup, howned, hleads => by
    obtain ⟨hp, hnodup⟩ := List.nodup_cons.mp hnodup
    obtain ⟨w, hw⟩ := howned p List.mem_cons_self
    obtain ⟨x, hx, -, hxw⟩ := owner_eq_some.mp hw
    have h₁ := nodeReparent_stacked (l := l) h hx (hleads p List.mem_cons_self x hx)
    by_cases hne : x.layer = l
    · have hsame : c.nodeReparent l p = c := by
        unfold nodeReparent
        rw [hx]
        exact if_pos hne
      rw [List.foldl_cons, hsame]
      exact foldl_nodeReparent_stacked ps h hnodup
        (fun q hq => howned q (List.mem_cons_of_mem _ hq))
        fun q hq => hleads q (List.mem_cons_of_mem _ hq)
    · obtain ⟨hmem, -⟩ := nodeReparent_changes (l := l) h hx hne
      refine foldl_nodeReparent_stacked ps h₁ hnodup (fun q hq => ?_) fun q hq y hy hyl r hr => ?_
      · rw [hmem, setLayer_owner hx]
        exact howned q (List.mem_cons_of_mem _ hq)
      · -- the other proxies of the view are in other workspaces
        have hqp : q ≠ p := fun heq => hp (heq ▸ hq)
        rw [hmem] at hy hr ⊢
        have hy' : c.mem.proxy q = some y := by rwa [setLayer_proxy_of_ne hqp] at hy
        obtain ⟨w', hw'⟩ := howned q (List.mem_cons_of_mem _ hq)
        obtain ⟨y', hy'', hview, -⟩ := owner_eq_some.mp hw'
        rw [hy', Option.some.injEq] at hy''
        subst hy''
        have hother : r ≠ p := by
          rintro rfl
          have hrmem := (List.takeWhile_sublist _).mem hr
          have hws : y.workspace = x.workspace := (listed_workspace h hx).mp hrmem
          have hqo : c.mem.owner q = some (v, w) :=
            owner_eq_some.mpr ⟨y, hy', hview, hws.trans hxw⟩
          exact hqp (h.unique _ _ q r hqo hw)
        rw [setLayer_inLayer, if_neg hother]
        exact hleads q (List.mem_cons_of_mem _ hq) y hy' hyl r hr

theorem moveProxies_stacked (h : Stacked world c)
    (hleads : LeadsAll c.mem l (c.mem.view v).proxies) : Stacked world (c.moveProxies v l) :=
  foldl_nodeReparent_stacked _ h (h.view_nodup v) (fun p hp => (h.view_mem v p).mp hp) hleads

/-! ### Modal views and their parents -/

theorem parentLoop_inv {call : Scene → Option Scene} {I : Scene → Prop}
    (hcall : ∀ a b, I a → call a = some b → I b) : ∀ {n : ℕ} {c : Scene} {parent : Option ViewId},
    I c → parentLoop call n c parent = some c' → I c' := by
  intro n
  induction n with
  | zero =>
    intro c parent h hs
    cases parent with
    | none =>
      cases hs
      exact h
    | some u => cases hs
  | succ n ih =>
    intro c parent h hs
    cases parent with
    | none =>
      cases hs
      exact h
    | some u =>
      rw [parentLoop, Option.bind_eq_bind, Option.bind_eq_some_iff] at hs
      obtain ⟨c₁, hc, hs⟩ := hs
      have h₁ := hcall c c₁ h hc
      split_ifs at hs
      · cases hs
        exact h₁
      · exact ih h₁ hs

/-- The invariant rule for the calls on the parent. -/
theorem forModalParents_inv {call : Scene → ViewId → Option Scene} {I : Scene → Prop}
    (hcall : ∀ u, c.mem.Pulls v u → ∀ a b, I a → call a u = some b → I b) (h : I c)
    (hs : forModalParents call c v = some c') : I c' := by
  unfold forModalParents at hs
  split at hs
  · next u hmodal hparent => exact parentLoop_inv (hcall u ⟨hmodal, hparent⟩) h hs
  · cases hs
    exact h

/-! ### Workspaces -/

theorem proxyIn_stacked (h : Stacked world c) (hv : v ∈ world.views) (hw : world.live w) :
    Stacked world (c.proxyIn v w).1 := by
  unfold proxyIn
  cases hfind : c.mem.viewProxyByWorkspace v w with
  | some p => exact h
  | none =>
    have hnot := (viewProxyByWorkspace_eq_none h.toLinked).mp hfind
    exact viewProxyCreate_stacked h hnot hv hw

theorem viewDoSetWorkspace_stacked (hw : world.live w) : ∀ {n : ℕ} {c : Scene} {v : ViewId}
    {c' : Scene}, Stacked world c → v ∈ world.views → viewDoSetWorkspace w n c v = some c' →
    Stacked world c' := by
  intro n
  induction n with
  | zero =>
    intro c v c' _ _ hs
    cases hs
  | succ n ih =>
    intro c v c' h hv hs
    rw [viewDoSetWorkspace, Option.bind_eq_bind, Option.bind_eq_some_iff] at hs
    obtain ⟨c₁, hparents, hs⟩ := hs
    have h₁ : Stacked world c₁ := forModalParents_inv
      (fun u hu a b ha => ih ha (h.parent_mem v u hu.2)) h hparents
    have h₂ := proxyIn_stacked h₁ hv hw
    rcases hp : c₁.proxyIn v w with ⟨c₂, p⟩
    rw [hp] at hs h₂
    simp only [Option.some.injEq] at hs h₂
    rw [← hs]
    refine clearSticky_stacked (foldl_viewProxyDestroy_stacked _ ?_) v
    split_ifs
    · exact setCurrent_stacked h₂ v p
    · exact h₂

theorem viewUnsetWorkspace_stacked (h : Stacked world c) {layer : Layer}
    (hs : c.viewUnsetWorkspace v layer = some c') : Stacked world c' := by
  simp only [viewUnsetWorkspace] at hs
  split_ifs at hs
  all_goals
    have h₁ : Stacked world
        (c.write fun m => m.setView v { m.view v with treeParent := .layer layer }) :=
      setView_stacked h rfl fun _ => .inl
  · cases hs
    exact h₁
  · rw [viewProxiesDestroy, Option.bind_eq_bind, Option.bind_eq_some_iff] at hs
    obtain ⟨m, hclear, hs⟩ := hs
    cases hs
    obtain ⟨rfl, -⟩ := viewClearCurrentProxy_eq_some hclear
    exact setView_stacked (v := v) (x := fun m => { m.view v with current := none })
      (foldl_viewProxyDestroy_stacked _ h₁) rfl fun _ => .inl

theorem viewAddWorkspace_stacked (hw : world.live w) : ∀ {n : ℕ} {c : Scene} {v : ViewId}
    {c' : Scene} {new : Option ProxyId}, Stacked world c → v ∈ world.views →
    viewAddWorkspace cur w n c v = some (c', new) → Stacked world c' := by
  intro n
  induction n with
  | zero =>
    intro c v c' new _ _ hs
    cases hs
  | succ n ih =>
    intro c v c' new h hv hs
    rw [viewAddWorkspace, Option.bind_eq_bind, Option.bind_eq_some_iff] at hs
    obtain ⟨c₁, hparents, hs⟩ := hs
    have h₁ : Stacked world c₁ := forModalParents_inv
      (fun u hu a b ha hb => by
        obtain ⟨⟨_, new'⟩, hcall, rfl⟩ := Option.map_eq_some_iff.mp hb
        exact ih ha (h.parent_mem v u hu.2) hcall) h hparents
    cases hfind : c₁.mem.viewProxyByWorkspace v w with
    | some p =>
      rw [hfind] at hs
      cases hs
      exact h₁
    | none =>
      have hnot := (viewProxyByWorkspace_eq_none h₁.toLinked).mp hfind
      have h₂ := viewProxyCreate_stacked h₁ hnot hv hw
      rw [hfind] at hs
      simp only [Option.some.injEq, Prod.mk.injEq] at hs
      obtain ⟨rfl, -⟩ := hs
      split_ifs
      · exact setCurrent_stacked h₂ v _
      · exact h₂

theorem viewAdd_stacked (h : Stacked world c) (hv : v ∈ world.views) (hw : world.live w)
    (hs : viewAdd cur c v w = some c') : Stacked world c' := by
  obtain ⟨⟨_, new⟩, hcall, rfl⟩ := Option.map_eq_some_iff.mp hs
  exact viewAddWorkspace_stacked hw h hv hcall

theorem viewAddAllWorkspace_stacked {order : List WorkspaceId} (h : Stacked world c)
    (hv : v ∈ world.views) (hlive : ∀ w, world.live w)
    (hs : viewAddAllWorkspace cur order c v = some c') : Stacked world c' := by
  unfold viewAddAllWorkspace at hs
  split_ifs at hs
  · cases hs
    exact h
  · rw [Option.bind_eq_bind, Option.bind_eq_some_iff] at hs
    obtain ⟨c₁, hfold, hs⟩ := hs
    cases hs
    have h₁ : Stacked world c₁ :=
      foldlM_inv order h (fun w _ a b ha hb => viewAdd_stacked ha hv (hlive w) hb) hfold
    exact setView_stacked h₁ rfl fun _ => .inl

theorem viewRemoveWorkspace_stacked {order : List WorkspaceId} (hlive : ∀ w, world.live w) :
    ∀ {n : ℕ} {c : Scene} {v : ViewId} {c' : Scene}, Stacked world c → v ∈ world.views →
    viewRemoveWorkspace cur order w n c v = some c' → Stacked world c' := by
  intro n
  induction n with
  | zero =>
    intro c v c' _ _ hs
    cases hs
  | succ n ih =>
    intro c v c' h hv hs
    rw [viewRemoveWorkspace, Option.bind_eq_bind, Option.bind_eq_some_iff] at hs
    obtain ⟨c₁, hparents, hs⟩ := hs
    have h₁ : Stacked world c₁ := forModalParents_inv
      (fun u hu a b ha => ih ha (h.parent_mem v u hu.2)) h hparents
    split at hs
    · cases hs
      exact h₁
    · next p _ =>
      split at hs
      · exact viewAddAllWorkspace_stacked h₁ hv hlive hs
      · next q _ =>
        simp only [Option.some.injEq] at hs
        rw [← hs]
        refine clearSticky_stacked (viewProxyDestroy_stacked ?_ p) v
        split_ifs
        · exact setCurrent_stacked h₁ v q
        · exact h₁

/-! ### Raising -/

theorem raiseProxies_stacked (h : Stacked world c) (v : ViewId) :
    Stacked world (c.raiseProxies v) := by
  unfold raiseProxies
  split_ifs
  · exact h
  · exact foldl_raiseProxy_stacked _ h

theorem viewRaiseToTop_stacked : ∀ {n : ℕ} {c : Scene} {v : ViewId} {findParent : Bool}
    {c' : Scene}, Stacked world c → viewRaiseToTop n c v findParent = some c' →
    Stacked world c' := by
  intro n
  induction n with
  | zero =>
    intro c v findParent c' _ hs
    cases hs
  | succ n ih =>
    intro c v findParent c' h hs
    rw [viewRaiseToTop, Option.bind_eq_bind, Option.bind_eq_some_iff] at hs
    obtain ⟨c₁, hparent, hs⟩ := hs
    have h₁ : Stacked world c₁ := by
      cases hp : if findParent then (c.mem.view v).parent else none with
      | none =>
        rw [hp] at hparent
        cases hparent
        exact h
      | some u =>
        rw [hp] at hparent
        exact ih h hparent
    exact foldlM_inv _ (raiseProxies_stacked h₁ v) (fun child _ a b ha hb => ih ha hb) hs

/-! ### Layers and parents -/

theorem viewSetLayerInWorkspace_stacked (h : Stacked world c) {layer : Layer}
    (hleads : ∀ l, workspaceLayer layer = some l → LeadsAll c.mem l (c.mem.view v).proxies) :
    Stacked world (c.viewSetLayerInWorkspace v layer) := by
  unfold viewSetLayerInWorkspace
  split_ifs
  · exact h
  · exact setView_stacked h rfl fun _ => .inl
  · split
    · exact h
    · next l hl => exact moveProxies_stacked h (hleads l hl)

/-- What both `kept` setters do. -/
theorem setView_moveProxies_stacked (h : Stacked world c) {x : View}
    (hproxies : x.proxies = (c.mem.view v).proxies) (hparent : x.parent = (c.mem.view v).parent)
    (hleads : LeadsAll c.mem l (c.mem.view v).proxies) :
    Stacked world ((c.write (·.setView v x)).moveProxies v l) := by
  have h₁ : Stacked world (c.write (·.setView v x)) :=
    setView_stacked (x := fun _ => x) h hproxies fun u hu => .inl (hparent ▸ hu)
  refine moveProxies_stacked h₁ ?_
  change LeadsAll c.mem l ((c.mem.setView v x).view v).proxies
  rw [setView_view_self, hproxies]
  exact hleads

theorem viewSetKeptAbove_stacked (h : Stacked world c) {b : Bool}
    (hleads : (c.mem.view v).keptAbove ≠ b →
      LeadsAll c.mem (if b then .above else .normal) (c.mem.view v).proxies)
    (hs : c.viewSetKeptAbove v b = some c') : Stacked world c' := by
  simp only [viewSetKeptAbove] at hs
  by_cases hnone : (c.mem.view v).current = none
  · rw [if_pos hnone] at hs
    cases hs
  · rw [if_neg hnone] at hs
    by_cases hsame : (c.mem.view v).keptAbove = b
    · rw [if_pos hsame] at hs
      cases hs
      exact h
    · rw [if_neg hsame] at hs
      cases hs
      exact setView_moveProxies_stacked h rfl rfl (hleads hsame)

theorem viewSetKeptBelow_stacked (h : Stacked world c) {b : Bool}
    (hleads : (c.mem.view v).keptBelow ≠ b →
      LeadsAll c.mem (if b then .below else .normal) (c.mem.view v).proxies)
    (hs : c.viewSetKeptBelow v b = some c') : Stacked world c' := by
  simp only [viewSetKeptBelow] at hs
  by_cases hnone : (c.mem.view v).current = none
  · rw [if_pos hnone] at hs
    cases hs
  · rw [if_neg hnone] at hs
    by_cases hsame : (c.mem.view v).keptBelow = b
    · rw [if_pos hsame] at hs
      cases hs
      exact h
    · rw [if_neg hsame] at hs
      cases hs
      exact setView_moveProxies_stacked h rfl rfl (hleads hsame)

/-- A view that goes up to the layer of its new parent does so in front of the proxies there, or as
    the first proxy it has. -/
def FollowsOnTop (m : Membership) (v parent : ViewId) (layer : Layer) : Prop :=
  match (m.view v).current, (m.view parent).current with
  | some _, some _ => ∀ l, workspaceLayer layer = some l → LeadsAll m l (m.view v).proxies
  | none, some _ => (m.view v).modal = false ∧ (m.view v).proxies = []
  | _, none => True

/-- The only proxy of a view that just joined a workspace is the first there. -/
theorem viewAdd_first (h : Stacked world c) (hmodal : (c.mem.view v).modal = false)
    (hnone : (c.mem.view v).proxies = []) (hs : viewAdd cur c v w = some c') :
    LeadsAll c'.mem l (c'.mem.view v).proxies := by
  have hfind : c.mem.viewProxyByWorkspace v w = none := by
    rw [viewProxyByWorkspace_eq_none h.toLinked]
    rintro ⟨p, hp⟩
    have hmem := (h.view_mem v p).mpr ⟨w, hp⟩
    rw [hnone] at hmem
    cases hmem
  obtain ⟨⟨c₁, new⟩, hcall, rfl⟩ := Option.map_eq_some_iff.mp hs
  have hfuel : c.mem.fuel = c.mem.views.length + 1 := rfl
  rw [hfuel, viewAddWorkspace, forModalParents, hmodal] at hcall
  simp only [Option.bind_eq_bind, Option.bind_some, hfind, Option.some.injEq, Prod.mk.injEq] at hcall
  obtain ⟨rfl, -⟩ := hcall
  -- whether it is carried by the new proxy makes no difference
  set c₂ := c.viewProxyCreate v w
  have hlinks : ∀ c₃, c₃ = c₂ ∨ c₃ = c₂.write (·.viewSetCurrentProxy v c.mem.next) →
      c₃.mem.proxy = c₂.mem.proxy ∧ c₃.mem.listed = c₂.mem.listed ∧
        (c₃.mem.view v).proxies = (c₂.mem.view v).proxies := by
    rintro c₃ (rfl | rfl)
    · exact ⟨rfl, rfl, rfl⟩
    · obtain ⟨hproxy, hlisted, -, -⟩ := viewSetCurrentProxy_links c₂.mem v c.mem.next
      exact ⟨hproxy, hlisted, viewSetCurrentProxy_proxies c₂.mem v v c.mem.next⟩
  obtain ⟨hproxy, hlisted, hproxies⟩ := hlinks
    (if cur = some w then c₂.write (·.viewSetCurrentProxy v c.mem.next) else c₂) (by
      split_ifs
      · exact .inr rfl
      · exact .inl rfl)
  have honly : (c₂.mem.view v).proxies = [c.mem.next] := by
    change ((c.mem.viewProxyCreate v w).view v).proxies = _
    rw [viewProxyCreate_view, if_pos rfl, hnone]
  intro p hp x hx _ q hq
  rw [hproxies, honly, List.mem_singleton] at hp
  subst hp
  rw [hproxy] at hx
  have hx' : c₂.mem.proxy c.mem.next = some ⟨v, w, View.proxyLayer (c.mem.view v)⟩ :=
    Function.update_self ..
  rw [hx', Option.some.injEq] at hx
  have hfirst : c₂.mem.listed w = c.mem.next :: c.mem.listed w := Function.update_self ..
  rw [hlisted, ← hx, hfirst, List.takeWhile_cons] at hq
  simp at hq

theorem viewFollowParentLayer_stacked (h : Stacked world c) (hv : v ∈ world.views)
    (hlive : ∀ w, world.live w) {parent : ViewId} {layer : Layer}
    (hfollow : FollowsOnTop c.mem v parent layer)
    (hs : viewFollowParentLayer cur c v parent layer = some c') : Stacked world c' := by
  unfold viewFollowParentLayer at hs
  unfold FollowsOnTop at hfollow
  split at hs
  · next hcur hpcur =>
    rw [hcur, hpcur] at hfollow
    cases hs
    exact viewSetLayerInWorkspace_stacked h hfollow
  · exact viewUnsetWorkspace_stacked h hs
  · next q hcur hpcur =>
    rw [hcur, hpcur] at hfollow
    simp only [Option.bind_eq_bind, Option.bind_eq_some_iff] at hs
    obtain ⟨x, -, c₁, hadd, hs⟩ := hs
    cases hs
    exact viewSetLayerInWorkspace_stacked (viewAdd_stacked h hv (hlive _) hadd)
      fun l _ => viewAdd_first h hfollow.1 hfollow.2 hadd
  · cases hs
    exact setView_stacked h rfl fun _ => .inl

/-- When a new parent leaves the orders alone. -/
def ParentOnTop (m : Membership) (v : ViewId) (parent : Option ViewId) : Prop :=
  (m.view v).parent ≠ parent → ∀ u ∈ parent, ∀ lp l, m.layerByNode u = some lp →
    m.layerByNode v = some l → lp.rank > l.rank → FollowsOnTop m v u lp

theorem viewSetParent_stacked (h : Stacked world c) (hv : v ∈ world.views)
    (hlive : ∀ w, world.live w) {parent : Option ViewId} (hviews : ∀ u ∈ parent, u ∈ world.views)
    (hparent : ParentOnTop c.mem v parent)
    (hs : viewSetParent cur c v parent = some c') : Stacked world c' := by
  unfold viewSetParent at hs
  split_ifs at hs with hsame
  · cases hs
    exact h
  · rw [Option.bind_eq_bind, Option.bind_eq_some_iff] at hs
    obtain ⟨c₁, hmove, hs⟩ := hs
    cases hs
    have hrelink : Stacked world (c.write (·.relink v parent)) :=
      write_stacked h (h.toBase.congr (fun _ => rfl) h.parent_mem rfl rfl rfl rfl) rfl rfl
    have h₁ : Stacked world c₁ := by
      cases parent with
      | none =>
        cases hmove
        exact hrelink
      | some u =>
        simp only [raiseToParent, Option.bind_eq_bind, Option.bind_eq_some_iff] at hmove
        obtain ⟨lp, hlp, l, hl, hmove⟩ := hmove
        split_ifs at hmove with hrank
        · exact viewFollowParentLayer_stacked hrelink hv hlive
            (hparent hsame u rfl lp l hlp hl hrank) hmove
        · cases hmove
          exact hrelink
    exact setView_stacked h₁ rfl fun u hu => .inr (hviews u hu)

end Scene

end FlakeWm.Stacking
