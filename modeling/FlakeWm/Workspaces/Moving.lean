import FlakeWm.Workspaces.Joining
import FlakeWm.Workspaces.Model

/-! Layers, parents, and the moves of many views at once: `workspace_set_activated` carries every
    view of a workspace by its proxy there, `fix_workspace` moves them to another workspace.

    `fix_workspace` destroys the proxy of a view after `view_add_workspace`. That is wrong for a
    view that was in the target before: it may still be carried by the destroyed proxy. `MayLeave`
    is the condition under which this does not happen. -/

namespace FlakeWm.Workspaces

namespace Membership

variable {P Q : ViewId → Prop} {world : World} {cur : Option WorkspaceId}
variable {m m' : Membership} {v u : ViewId} {w : WorkspaceId}

/-! ### Layers -/

theorem moveProxies_owner (m : Membership) (v : ViewId) (l : WorkspaceLayer) :
    (m.moveProxies v l).owner = m.owner := by
  funext p
  simp only [owner, moveProxies]
  split_ifs
  · rw [Option.map_map]
    rfl
  · rfl

theorem moveProxies_inv (h : InvOn P world m) (l : WorkspaceLayer) :
    InvOn P world (m.moveProxies v l) :=
  h.congr (fun _ => rfl) (fun _ => rfl) (fun _ _ => .inl) h.parent_mem (moveProxies_owner m v l) rfl
    rfl rfl

theorem viewSetLayerInWorkspace_inv (h : InvOn P world m) (layer : Layer) :
    InvOn P world (m.viewSetLayerInWorkspace v layer) := by
  unfold viewSetLayerInWorkspace
  split_ifs
  · exact h
  · exact setView_inv h rfl rfl (fun p hp => TreeParent.noConfusion hp) fun _ => .inl
  · split
    · exact h
    · exact moveProxies_inv h _

theorem viewSetKeptAbove_inv (h : InvOn P world m) {b : Bool}
    (hs : m.viewSetKeptAbove v b = some m') : InvOn P world m' := by
  simp only [viewSetKeptAbove] at hs
  split_ifs at hs
  · cases hs
    exact h
  all_goals
    cases hs
    refine moveProxies_inv ?_ _
    exact setView_inv h rfl rfl (fun _ => .inl) fun _ => .inl

theorem viewSetKeptBelow_inv (h : InvOn P world m) {b : Bool}
    (hs : m.viewSetKeptBelow v b = some m') : InvOn P world m' := by
  simp only [viewSetKeptBelow] at hs
  split_ifs at hs
  · cases hs
    exact h
  all_goals
    cases hs
    refine moveProxies_inv ?_ _
    exact setView_inv h rfl rfl (fun _ => .inl) fun _ => .inl

theorem viewReparentFullscreen_inv (h : InvOn P world m) (active : Bool) :
    InvOn P world (m.viewReparentFullscreen v active) := by
  simp only [viewReparentFullscreen]
  split_ifs
  · exact setView_inv h rfl rfl (fun p hp => TreeParent.noConfusion hp) fun _ => .inl
  · cases hcur : (m.view v).current with
    | none => exact h
    | some p =>
      refine setView_inv h rfl hcur.symm (fun q hq => .inr ?_) fun _ => .inl
      rw [hcur, TreeParent.proxy.inj hq]

/-! ### Parents -/

/-- `view_set_parent` adds the view to the workspace of its parent, because the view is in none and
    the parent is in a higher layer; then this is the workspace that is shown. -/
def FollowsShown (cur : Option WorkspaceId) (m : Membership) (v parent : ViewId) : Prop :=
  ∀ q x lp l, (m.view v).current = none → (m.view parent).current = some q → m.proxy q = some x →
    m.layerByNode parent = some lp → m.layerByNode v = some l → lp.rank > l.rank →
    cur = some x.workspace

theorem relink_inv (h : InvOn P world m) (parent : Option ViewId) :
    InvOn P world (m.relink v parent) :=
  h.congr (fun _ => rfl) (fun _ => rfl) (fun _ _ => .inl) h.parent_mem rfl rfl rfl rfl

theorem viewFollowParentLayer_inv (h : Inv world m) (hv : v ∈ world.views) {parent : ViewId} {layer : Layer}
    (hfollow : ∀ q x, (m.view v).current = none → (m.view parent).current = some q →
      m.proxy q = some x → cur = some x.workspace)
    (hs : viewFollowParentLayer cur m v parent layer = some m') : Inv world m' := by
  unfold viewFollowParentLayer at hs
  split at hs
  · cases hs
    exact viewSetLayerInWorkspace_inv h layer
  · exact viewUnsetWorkspace_inv h hs
  · next q hnone hparent =>
    simp only [Option.bind_eq_bind, Option.bind_eq_some_iff] at hs
    obtain ⟨x, hx, m₁, hadd, hs⟩ := hs
    cases hs
    have howner : m.owner q = some (x.view, x.workspace) := by rw [owner, hx, Option.map_some]
    refine viewSetLayerInWorkspace_inv
      (viewAdd_inv h hv (h.owner_mem q _ _ howner).2 (.inl ?_) hadd).1 layer
    exact hfollow q x hnone hparent hx
  · cases hs
    exact setView_inv h rfl rfl (fun p hp => TreeParent.noConfusion hp) fun _ => .inl

theorem viewSetParent_inv (h : Inv world m) (hv : v ∈ world.views) {parent : Option ViewId}
    (hparent : ∀ u ∈ parent, u ∈ world.views)
    (hfollow : (m.view v).parent ≠ parent → ∀ u ∈ parent, FollowsShown cur m v u)
    (hs : viewSetParent cur m v parent = some m') : Inv world m' := by
  unfold viewSetParent at hs
  split_ifs at hs with hsame
  · cases hs
    exact h
  · rw [Option.bind_eq_bind, Option.bind_eq_some_iff] at hs
    obtain ⟨m₁, hmove, hs⟩ := hs
    cases hs
    refine setView_inv ?_ rfl rfl (fun _ => .inl) fun u hu => .inr (hparent u hu)
    have hrelink := relink_inv (v := v) h parent
    cases parent with
    | none =>
      cases hmove
      exact hrelink
    | some u =>
      simp only [raiseToParent, Option.bind_eq_bind, Option.bind_eq_some_iff] at hmove
      obtain ⟨lp, hlp, l, hl, hmove⟩ := hmove
      split_ifs at hmove with hrank
      · exact viewFollowParentLayer_inv hrelink hv (fun q x hv hu hx =>
          hfollow hsame u rfl q x lp l hv hu hx hlp hl hrank) hmove
      · cases hmove
        exact hrelink

/-! ### Showing a workspace -/

theorem showProxy_owner (m : Membership) (p : ProxyId) : (m.showProxy p).owner = m.owner := by
  unfold showProxy
  split
  · rfl
  · exact viewSetCurrentProxy_owner _ _ _

theorem showProxy_current (m : Membership) (p : ProxyId) (u : ViewId) :
    ((m.showProxy p).view u).current =
      if (m.owner p).any (·.1 = u) then some p else (m.view u).current := by
  unfold showProxy
  split
  · next hp => simp [owner, hp]
  · next x hp =>
    rw [viewSetCurrentProxy_current]
    simp [owner, hp, @eq_comm _ u]

theorem showProxy_inv (h : InvOn P world m) (p : ProxyId) : InvOn P world (m.showProxy p) := by
  unfold showProxy
  split
  · exact h
  · next x hp =>
    refine (viewSetCurrentProxy_inv h ?_).mono fun _ hu => .inl (.inl hu)
    rw [h.view_mem]
    exact ⟨x.workspace, by rw [owner, hp, Option.map_some]⟩

theorem foldl_showProxy : ∀ (l : List ProxyId) {m : Membership}, InvOn P world m →
    InvOn P world (l.foldl showProxy m) ∧ (l.foldl showProxy m).owner = m.owner ∧
      ∀ u w p, m.owner p = some (u, w) → (∀ q ∈ l, ∀ x, m.owner q = some x → x.2 = w) →
        ((m.view u).current = some p ∨ p ∈ l) →
        ((l.foldl showProxy m).view u).current = some p
  | [], m, h => ⟨h, rfl, fun u w p _ _ hp => hp.resolve_right List.not_mem_nil⟩
  | q :: l, m, h => by
    obtain ⟨hinv, howner, hshow⟩ := foldl_showProxy l (showProxy_inv h q)
    rw [showProxy_owner] at howner hshow
    refine ⟨hinv, howner, fun u w p hp hl hor => ?_⟩
    refine hshow u w p hp (fun r hr => hl r (List.mem_cons_of_mem _ hr)) ?_
    rw [showProxy_current]
    -- a proxy of the same view in the same workspace is the same proxy
    split_ifs with hq
    · rw [Option.any_eq_true] at hq
      obtain ⟨⟨v, w'⟩, hq, huv⟩ := hq
      simp only [decide_eq_true_eq] at huv
      have hw' : w' = w := hl q List.mem_cons_self _ hq
      rw [huv, hw'] at hq
      exact .inl (congrArg some (h.unique u w q p hq hp))
    · refine hor.imp_right fun hmem => ?_
      rcases List.mem_cons.mp hmem with rfl | hmem
      · simp [hp] at hq
      · exact hmem

/-- Afterwards every view of the workspace is carried by its proxy there. -/
theorem showProxies_inv (h : InvOn P world m) (w : WorkspaceId) :
    InvOn P world (m.showProxies w) ∧ (m.showProxies w).owner = m.owner ∧
      ∀ u p, m.owner p = some (u, w) → ((m.showProxies w).view u).current = some p := by
  obtain ⟨hinv, howner, hshow⟩ := foldl_showProxy (m.listed w) h
  refine ⟨hinv, howner, fun u p hp => hshow u w p hp (fun q hq x hx => ?_) (.inr ?_)⟩
  · obtain ⟨v, hv⟩ := (h.listed_mem w q).mp hq
    rw [hv, Option.some.injEq] at hx
    rw [← hx]
  · exact (h.listed_mem w p).mpr ⟨u, hp⟩

/-! ### Leaving a workspace -/

/-- When the views of the proxies can move to `target`: those they pull have a current proxy, and
    one that is carried by its proxy in the list is not in `target` before its turn. Nothing is
    asked of the pulled views when `target` is shown, since they are carried by their proxy there. -/
structure MayLeave (cur : Option WorkspaceId) (target : WorkspaceId) (m : Membership)
    (l : List ProxyId) : Prop where
  carried : cur = some target ∨ ∀ p ∈ l, ∀ v w, m.owner p = some (v, w) →
    ∀ u, m.Pulled v u → (m.view u).current ≠ none
  absent : ∀ p ∈ l, ∀ v w, m.owner p = some (v, w) → (m.view v).current = some p →
    ¬ m.In v target
  first : cur = some target ∨ l.Pairwise fun q p => ∀ v u w w', m.owner q = some (v, w) →
    m.owner p = some (u, w') → (m.view u).current = some p → ¬ m.Pulled v u

/-- What the turn of one proxy does for the others. -/
structure Left (cur : Option WorkspaceId) (target : WorkspaceId) (p : ProxyId) (v : ViewId)
    (m m' : Membership) : Prop extends SameFamily m m' where
  kept : ∀ q o, q ≠ p → m.owner q = some o → m'.owner q = some o
  gone : m'.owner p = none
  new : ∀ q u w, m'.owner q = some (u, w) →
    m.owner q = some (u, w) ∨ (w = target ∧ m.Pulled v u)
  current : ∀ u, (m.view u).current ≠ none → (m'.view u).current ≠ none
  carried : ∀ q u w, m.owner q = some (u, w) → w ≠ target → (m'.view u).current = some q →
    (m.view u).current = some q ∧ (cur = some target → m'.In u target → m.In u target)

/-- The new proxy of a moved view carries it. -/
def carryBy (m : Membership) (v : ViewId) : Option ProxyId → Membership
  | none => m
  | some q => m.viewSetCurrentProxy v q

theorem carryBy_owner (m : Membership) (v : ViewId) (new : Option ProxyId) :
    (m.carryBy v new).owner = m.owner := by
  cases new with
  | none => rfl
  | some q => exact viewSetCurrentProxy_owner m v q

theorem carryBy_current (m : Membership) (v u : ViewId) (new : Option ProxyId) :
    ((m.carryBy v new).view u).current = (m.view u).current ∨
      ∃ q ∈ new, u = v ∧ ((m.carryBy v new).view u).current = some q := by
  cases new with
  | none => exact .inl rfl
  | some q =>
    simp only [carryBy, viewSetCurrentProxy_current]
    split_ifs with huv
    · exact .inr ⟨q, rfl, huv, rfl⟩
    · exact .inl rfl

theorem carryBy_inv {m₁ : Membership} {new : Option ProxyId}
    (hj : Joined (fun _ => True) world cur w v m m₁ new) : Inv world (m₁.carryBy v new) := by
  have h₁ : Inv world m₁ := hj.inv.mono fun _ _ => .inl (.inl trivial)
  cases new with
  | none => exact h₁
  | some q =>
    refine (viewSetCurrentProxy_inv h₁ ?_).mono fun _ _ => .inl (.inl trivial)
    exact (h₁.view_mem v q).mpr ⟨w, hj.returned.2⟩

/-- What one turn of the loop in `fix_workspace` consists of. -/
theorem moveToTarget_cases {target : WorkspaceId} {p : ProxyId} {x : Proxy}
    (hx : m.proxy p = some x) (hs : moveToTarget cur target m p = some m') :
    ∃ m₁ new, viewAddWorkspace cur target m.fuel m x.view = some (m₁, new) ∧
      m' = (m₁.carryBy x.view new).viewProxyDestroy p := by
  unfold moveToTarget at hs
  rw [hx] at hs
  simp only [Option.bind_eq_bind, Option.bind_eq_some_iff] at hs
  obtain ⟨⟨m₁, new⟩, hcall, hs⟩ := hs
  cases hs
  refine ⟨m₁, new, hcall, ?_⟩
  cases new <;> rfl

theorem moveToTarget_left {target : WorkspaceId} {p : ProxyId} {v : ViewId} (h : Inv world m)
    (htarget : world.live target) (hne : w ≠ target) (howner : m.owner p = some (v, w))
    (hmay : MayJoin (fun _ => True) cur target m v)
    (habsent : (m.view v).current = some p → ¬ m.In v target)
    (hs : moveToTarget cur target m p = some m') : Inv world m' ∧ Left cur target p v m m' := by
  obtain ⟨x, hx, hxo⟩ := Option.map_eq_some_iff.mp howner
  rw [Prod.mk.injEq] at hxo
  obtain ⟨m₁, new, hcall, hm'⟩ := moveToTarget_cases hx hs
  rw [hxo.1] at hcall hm'
  have hj := viewAddWorkspace_joined (P := fun _ => True) htarget (h.mono fun _ _ => .inl trivial)
    (h.owner_mem p v w howner).1 hmay hcall
  set m₂ := m₁.carryBy v new with hm₂
  have howner₂ : m₂.owner = m₁.owner := carryBy_owner m₁ v new
  have hp₂ : m₂.owner p = some (v, w) := by rw [howner₂, hj.added.kept p _ howner]
  -- a view is carried as before, or by its proxy in the target
  have hcurrent : ∀ u, (m₂.view u).current = (m.view u).current ∨
      ∃ q, (m₂.view u).current = some q ∧ m₂.owner q = some (u, target) := by
    intro u
    rw [howner₂]
    rcases carryBy_current m₁ v u new with heq | ⟨q, hq, rfl, heq⟩
    · rcases hj.added.current u with heq' | ⟨-, q, hq, ho⟩
      · exact .inl (heq.trans heq')
      · exact .inr ⟨q, heq.trans hq, ho⟩
    · cases hq
      exact .inr ⟨q, heq, hj.returned.2⟩
  have helsewhere : ∀ {q u w'}, m₂.owner q = some (u, w') → w' ≠ target →
      (m₂.view u).current = some q → (m₂.view u).current = (m.view u).current := by
    intro q u w' ho hw' hcur
    rcases hcurrent u with heq | ⟨r, hr, hro⟩
    · exact heq
    · rw [hcur, Option.some.injEq] at hr
      rw [← hr, ho, Option.some.injEq, Prod.mk.injEq] at hro
      exact absurd hro.2 hw'
  have hcarried : (m₂.view v).current ≠ some p := by
    intro hcur
    have hbefore := (helsewhere hp₂ hne hcur).symm.trans hcur
    cases new with
    | none => exact habsent hbefore hj.returned
    | some q =>
      have hq : (m₂.view v).current = some q := by
        rw [hm₂, carryBy, viewSetCurrentProxy_current, if_pos rfl]
      rw [hcur, Option.some.injEq] at hq
      have hqo := hj.returned.2
      rw [← hq, hj.added.kept p _ howner, Option.some.injEq, Prod.mk.injEq] at hqo
      exact hne hqo.2
  have hfamily : SameFamily m m' := by
    rw [hm']
    refine hj.added.toSameFamily.trans (SameFamily.trans ?_ (viewProxyDestroy_family m₂ p))
    cases new with
    | none => exact ⟨fun _ => rfl, fun _ => rfl, fun _ => rfl, rfl⟩
    | some q => exact viewSetCurrentProxy_family m₁ v q
  refine ⟨?_, hfamily, fun q o hqp ho => ?_, ?_, fun q u w' ho => ?_, fun u hu => ?_, ?_⟩
  · rw [hm']
    refine viewProxyDestroy_inv (carryBy_inv hj) fun u w' ho => ?_
    rw [hp₂, Option.some.injEq, Prod.mk.injEq] at ho
    rw [← ho.1]
    exact hcarried
  · rw [hm', viewProxyDestroy_owner, if_neg hqp, howner₂]
    exact hj.added.kept q o ho
  · rw [hm', viewProxyDestroy_owner, if_pos rfl]
  · rw [hm', viewProxyDestroy_owner, howner₂] at ho
    split_ifs at ho
    exact (hj.added.new q u w' ho).imp_right fun hnew => ⟨hnew.1, hnew.2.1⟩
  · rw [hm', viewProxyDestroy_current]
    rcases hcurrent u with heq | ⟨q, hq, -⟩
    · rw [heq]
      exact hu
    · rw [hq]
      simp
  · intro q u w' ho hw' hcur
    rw [hm', viewProxyDestroy_current] at hcur
    have ho₂ : m₂.owner q = some (u, w') := by rw [howner₂, hj.added.kept q _ ho]
    have hbefore := helsewhere ho₂ hw' hcur
    refine ⟨hbefore.symm.trans hcur, fun hshown hin => ?_⟩
    by_contra hnot
    obtain ⟨r, hr⟩ := hin
    rw [hm', viewProxyDestroy_owner, howner₂] at hr
    split_ifs at hr
    obtain ⟨t, ht, hto⟩ := hj.added.shown hshown u ⟨r, hr⟩ hnot
    -- the view is carried by its new proxy in the target, not by `q`
    have hq : (m₂.view u).current = some t ∨ ∃ q', (m₂.view u).current = some q' ∧
        m₂.owner q' = some (u, target) := by
      rcases carryBy_current m₁ v u new with heq | ⟨q', hq', rfl, heq⟩
      · exact .inl (heq.trans ht)
      · cases hq'
        exact .inr ⟨q', heq, by rw [howner₂]; exact hj.returned.2⟩
    rw [hcur] at hq
    rcases hq with hq | ⟨q', hq, hqo⟩
    · rw [Option.some.injEq] at hq
      rw [← hq, hj.added.kept q _ ho, Option.some.injEq, Prod.mk.injEq] at hto
      exact hw' hto.2
    · rw [Option.some.injEq] at hq
      rw [← hq, ho₂, Option.some.injEq, Prod.mk.injEq] at hqo
      exact hw' hqo.2

/-- Every proxy of the list goes, and all others of its workspace stay. -/
theorem foldlM_moveToTarget {target : WorkspaceId} (htarget : world.live target) (hne : w ≠ target) :
    ∀ (l : List ProxyId) {m : Membership}, Inv world m → l.Nodup →
      (∀ p ∈ l, ∃ v, m.owner p = some (v, w)) → MayLeave cur target m l →
      l.foldlM (moveToTarget cur target) m = some m' →
      Inv world m' ∧ ∀ p v, m'.owner p = some (v, w) → m.owner p = some (v, w) ∧ p ∉ l
  | [], m, h, _, _, _, hs => by
    cases hs
    exact ⟨h, fun p v hp => ⟨hp, List.not_mem_nil⟩⟩
  | p :: l, m, h, hnodup, hlist, hmay, hs => by
    rw [List.foldlM_cons, Option.bind_eq_bind, Option.bind_eq_some_iff] at hs
    obtain ⟨m₁, hmove, hs⟩ := hs
    obtain ⟨v, howner⟩ := hlist p List.mem_cons_self
    obtain ⟨hp, hnodup⟩ := List.nodup_cons.mp hnodup
    have hne' : ∀ q ∈ l, q ≠ p := fun q hq heq => hp (heq ▸ hq)
    obtain ⟨h₁, hleft⟩ := moveToTarget_left h htarget hne howner
      (hmay.carried.imp_right fun hc u hu _ => hc p List.mem_cons_self v w howner u hu)
      (hmay.absent p List.mem_cons_self v w howner) hmove
    have hback : ∀ q ∈ l, ∀ u w', m₁.owner q = some (u, w') → m.owner q = some (u, w') ∧ w' = w := by
      intro q hq u w' ho
      obtain ⟨u', hu'⟩ := hlist q (List.mem_cons_of_mem _ hq)
      rw [hleft.kept q _ (hne' q hq) hu', Option.some.injEq, Prod.mk.injEq] at ho
      rw [← ho.1, ← ho.2]
      exact ⟨hu', rfl⟩
    have hmay₁ : MayLeave cur target m₁ l := by
      refine ⟨hmay.carried.imp_right fun hc q hq u w' ho x hx => ?_, fun q hq u w' ho hcur => ?_,
        hmay.first.imp_right fun hf => ?_⟩
      · rw [hleft.pulled] at hx
        exact hleft.current x (hc q (List.mem_cons_of_mem _ hq) u w' (hback q hq u w' ho).1 x hx)
      · obtain ⟨ho, rfl⟩ := hback q hq u w' ho
        obtain ⟨hbefore, hshown⟩ := hleft.carried q u w' ho hne hcur
        have hnot := hmay.absent q (List.mem_cons_of_mem _ hq) u w' ho hbefore
        rintro ⟨r, hr⟩
        rcases hleft.new r u target hr with hr' | ⟨-, hpull⟩
        · exact hnot ⟨r, hr'⟩
        · rcases hmay.first with hcur | hf
          · exact hnot (hshown hcur ⟨r, hr⟩)
          · exact (List.pairwise_cons.mp hf).1 q hq v u w' w' howner ho hbefore hpull
      · refine List.Pairwise.imp_of_mem (fun {a b} ha hb hab => ?_) (List.pairwise_cons.mp hf).2
        intro x u w₁ w₂ hxo huo hcur
        obtain ⟨hxo, -⟩ := hback a ha x w₁ hxo
        obtain ⟨huo, rfl⟩ := hback b hb u w₂ huo
        rw [hleft.pulled]
        exact hab x u w₁ w₂ hxo huo (hleft.carried b u w₂ huo hne hcur).1
    obtain ⟨hinv, hgone⟩ := foldlM_moveToTarget htarget hne l h₁ hnodup (fun q hq => by
      obtain ⟨u, hu⟩ := hlist q (List.mem_cons_of_mem _ hq)
      exact ⟨u, hleft.kept q _ (hne' q hq) hu⟩) hmay₁ hs
    refine ⟨hinv, fun q u ho => ?_⟩
    obtain ⟨ho₁, hq⟩ := hgone q u ho
    have hqp : q ≠ p := by
      rintro rfl
      rw [hleft.gone] at ho₁
      cases ho₁
    refine ⟨?_, fun hmem => (List.mem_cons.mp hmem).elim hqp hq⟩
    exact (hleft.new q u w ho₁).resolve_right fun hnew => hne hnew.1

end Membership

end FlakeWm.Workspaces
