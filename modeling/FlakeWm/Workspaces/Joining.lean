import Mathlib.Logic.Relation
import FlakeWm.Workspaces.Proxies

/-! How views join and leave workspaces, with the parents that a modal view takes along.

    `Joined` says everything a call of `view_add_workspace` does: which views got a proxy, which of
    them are carried by it, and that nothing else changed. A view that had no proxy is left without
    a current one, unless the workspace is the one that is shown. -/

namespace FlakeWm.Workspaces

namespace Membership

variable {P Q : ViewId → Prop} {world : World} {cur : Option WorkspaceId}
variable {m m' m'' : Membership} {v u : ViewId} {w : WorkspaceId}

/-! ### Modal views and their parents -/

/-- A modal view takes its parent along. -/
def Pulls (m : Membership) (v u : ViewId) : Prop :=
  (m.view v).modal = true ∧ (m.view v).parent = some u

/-- The views that follow `v` into a workspace, with `v` itself. -/
def Pulled (m : Membership) : ViewId → ViewId → Prop := Relation.ReflTransGen m.Pulls

theorem parentLoop_cases {call : Membership → Option Membership} {parent : ViewId} :
    ∀ {n : ℕ} {m : Membership}, parentLoop call n m (some parent) = some m' →
      ∃ m₁, call m = some m₁ ∧ Relation.ReflTransGen (fun a b => call a = some b) m₁ m' := by
  intro n
  induction n generalizing parent with
  | zero =>
    intro m h
    cases h
  | succ n ih =>
    intro m h
    rw [parentLoop, Option.bind_eq_bind, Option.bind_eq_some_iff] at h
    obtain ⟨m₁, hcall, h⟩ := h
    refine ⟨m₁, hcall, ?_⟩
    split_ifs at h
    · cases h
      exact .refl
    · cases hparent : (m₁.view parent).parent with
      | none =>
        rw [hparent, parentLoop] at h
        cases h
        exact .refl
      | some grandparent =>
        rw [hparent] at h
        obtain ⟨m₂, hcall₂, hrest⟩ := ih h
        exact .head hcall₂ hrest

/-- Nothing happens, or one call on the parent and possibly the same call again. -/
theorem forModalParents_cases {call : Membership → ViewId → Option Membership}
    (h : forModalParents call m v = some m') :
    (m' = m ∧ ∀ u, ¬ m.Pulls v u) ∨ ∃ u, m.Pulls v u ∧ ∃ m₁, call m u = some m₁ ∧
      Relation.ReflTransGen (fun a b => call a u = some b) m₁ m' := by
  unfold forModalParents at h
  split at h
  · next u hmodal hparent =>
    exact .inr ⟨u, ⟨hmodal, hparent⟩, parentLoop_cases h⟩
  · next hnone =>
    cases h
    exact .inl ⟨rfl, fun u hu => hnone u hu.1 hu.2⟩

/-- The invariant rule for the calls on the parent. -/
theorem forModalParents_inv {call : Membership → ViewId → Option Membership} {I : Membership → Prop}
    (hcall : ∀ u, m.Pulls v u → ∀ a b, I a → call a u = some b → I b) (h : I m)
    (hs : forModalParents call m v = some m') : I m' := by
  rcases forModalParents_cases hs with ⟨rfl, -⟩ | ⟨u, hpull, m₁, hm₁, hrest⟩
  · exact h
  · have h₁ := hcall u hpull m m₁ h hm₁
    clear hs
    induction hrest with
    | refl => exact h₁
    | tail _ hb ih => exact hcall u hpull _ _ ih hb

/-! ### Setting the workspace -/

theorem clearSticky_inv (h : InvOn P world m) : InvOn P world (m.clearSticky v) := by
  unfold clearSticky
  split_ifs
  · exact setView_inv h rfl rfl (fun _ => .inl) fun _ => .inl
  · exact h

/-- The view has a proxy in the workspace now, whether it was there before or not. -/
theorem proxyIn_inv (h : InvOn P world m) (hv : v ∈ world.views) (hw : world.live w) :
    InvOn (fun u => P u ∧ u ≠ v) world (m.proxyIn v w).1 ∧
      (m.proxyIn v w).1.owner (m.proxyIn v w).2 = some (v, w) := by
  have hmono : InvOn (fun u => P u ∧ u ≠ v) world m := h.mono fun u hu => .inl hu.1
  unfold proxyIn
  cases hfind : m.viewProxyByWorkspace v w with
  | some p => exact ⟨hmono, (viewProxyByWorkspace_eq_some h.toLinked).mp hfind⟩
  | none =>
    have hnot := (viewProxyByWorkspace_eq_none h.toLinked).mp hfind
    exact ⟨viewProxyCreate_inv hmono hnot hv hw fun hv => absurd rfl hv.2,
      by simp [viewProxyCreate_owner]⟩

theorem viewDoSetWorkspace_inv (hw : world.live w) : ∀ {n : ℕ} {m : Membership} {v : ViewId}
    {m' : Membership}, InvOn P world m → v ∈ world.views → viewDoSetWorkspace w n m v = some m' →
    InvOn P world m' := by
  intro n
  induction n with
  | zero =>
    intro m v m' _ _ hs
    cases hs
  | succ n ih =>
    intro m v m' h hv hs
    rw [viewDoSetWorkspace, Option.bind_eq_bind, Option.bind_eq_some_iff] at hs
    obtain ⟨m₁, hparents, hs⟩ := hs
    have h₁ : InvOn P world m₁ := forModalParents_inv
      (fun u hu _ _ ha => ih ha (h.parent_mem v u hu.2)) h hparents
    obtain ⟨h₂, howner⟩ := proxyIn_inv h₁ hv hw
    rcases hp : m₁.proxyIn v w with ⟨m₂, p⟩
    rw [hp] at hs h₂ howner
    simp only [Option.some.injEq] at hs h₂ howner
    have hmem : p ∈ (m₂.view v).proxies := (h₂.view_mem v p).mpr ⟨w, howner⟩
    set m₃ := if (m₂.view v).treeParent ≠ .proxy p then m₂.viewSetCurrentProxy v p else m₂ with hm₃
    -- either way the view is carried by `p` from here on
    have h₃ : InvOn P world m₃ ∧ (m₃.view v).current = some p := by
      rw [hm₃]
      split_ifs with htree
      · refine ⟨(viewSetCurrentProxy_inv h₂ hmem).mono fun u hu => .inl ?_, ?_⟩
        · rcases eq_or_ne u v with huv | huv
          · exact .inr huv
          · exact .inl ⟨hu, huv⟩
        · rw [viewSetCurrentProxy_current, if_pos rfl]
      · have hcur := h₂.tree v p (not_not.mp htree)
        refine ⟨h₂.mono fun u hu => ?_, hcur⟩
        rcases eq_or_ne u v with rfl | huv
        · exact .inr (.inl (by rw [hcur]; simp))
        · exact .inl ⟨hu, huv⟩
    obtain ⟨h₃, hcur⟩ := h₃
    rw [← hs]
    refine clearSticky_inv (foldl_viewProxyDestroy_inv (v := v) _ h₃ (fun q hq u w' ho => ?_)
      fun q hq => ?_)
    · obtain ⟨w₀, ho'⟩ := (h₃.view_mem v q).mp (List.mem_of_mem_filter hq)
      have heq : some (u, w') = some (v, w₀) := ho.symm.trans ho'
      exact (Prod.mk.inj (Option.some.inj heq)).1
    · rw [List.mem_filter, decide_eq_true_eq] at hq
      rw [hcur, ne_eq, Option.some.injEq]
      exact Ne.symm hq.2

theorem viewUnsetWorkspace_inv (h : InvOn P world m) {layer : Layer}
    (hs : m.viewUnsetWorkspace v layer = some m') : InvOn P world m' := by
  simp only [viewUnsetWorkspace] at hs
  split_ifs at hs with hlayer hnone
  all_goals
    have hmoved : InvOn P world (m.setView v { m.view v with treeParent := .layer layer }) :=
      setView_inv h rfl rfl (fun p hp => TreeParent.noConfusion hp) fun _ => .inl
  · cases hs
    exact hmoved
  · refine viewProxiesDestroy_inv hmoved (fun p => ?_) hnone hs
    rw [setView_view_self]
    exact TreeParent.noConfusion

/-! ### Joining a workspace -/

theorem SameFamily.pulls (h : SameFamily m m') : m'.Pulls = m.Pulls := by
  funext v u
  rw [Pulls, Pulls, h.modal, h.parent]

theorem SameFamily.pulled (h : SameFamily m m') : m'.Pulled = m.Pulled := by
  rw [Pulled, Pulled, h.pulls]

/-- What joining `w` may change: views pulled by `v` get a proxy there, and are carried by it when
    `w` is shown. -/
structure Added (cur : Option WorkspaceId) (w : WorkspaceId) (v : ViewId) (m m' : Membership) : Prop
    extends SameFamily m m' where
  kept : ∀ p o, m.owner p = some o → m'.owner p = some o
  new : ∀ p u w', m'.owner p = some (u, w') →
    m.owner p = some (u, w') ∨ (w' = w ∧ m.Pulled v u ∧ ¬ m.In u w)
  current : ∀ u, (m'.view u).current = (m.view u).current ∨
    (cur = some w ∧ ∃ p, (m'.view u).current = some p ∧ m'.owner p = some (u, w))
  shown : cur = some w → ∀ u, m'.In u w → ¬ m.In u w →
    ∃ p, (m'.view u).current = some p ∧ m'.owner p = some (u, w)

theorem Added.refl (m : Membership) : Added cur w v m m where
  parent _ := rfl
  modal _ := rfl
  sticky _ := rfl
  views := rfl
  kept _ _ h := h
  new _ _ _ h := .inl h
  current _ := .inl rfl
  shown _ _ h hnot := absurd h hnot

theorem Added.in_mono (h : Added cur w v m m') {w' : WorkspaceId} (hin : m.In u w') : m'.In u w' := by
  obtain ⟨p, hp⟩ := hin
  exact ⟨p, h.kept p _ hp⟩

theorem Added.trans (h : Added cur w v m m') (h' : Added cur w v m' m'') : Added cur w v m m'' where
  toSameFamily := h.toSameFamily.trans h'.toSameFamily
  kept p o ho := h'.kept p o (h.kept p o ho)
  new p u w' ho := by
    rcases h'.new p u w' ho with ho | ⟨hw, hpull, hnot⟩
    · exact h.new p u w' ho
    · rw [h.pulled] at hpull
      exact .inr ⟨hw, hpull, fun hin => hnot (h.in_mono hin)⟩
  current u := by
    rcases h'.current u with heq | hset
    · rcases h.current u with heq' | ⟨hcur, p, hp, ho⟩
      · exact .inl (heq.trans heq')
      · exact .inr ⟨hcur, p, heq.trans hp, h'.kept p _ ho⟩
    · exact .inr hset
  shown hcur u hin hnot := by
    by_cases hmid : m'.In u w
    · obtain ⟨p, hp, ho⟩ := h.shown hcur u hmid hnot
      rcases h'.current u with heq | ⟨-, hset⟩
      · exact ⟨p, heq.trans hp, h'.kept p _ ho⟩
      · exact hset
    · exact h'.shown hcur u hin hmid

/-- What the parent pulls, the view pulls. -/
theorem Added.lift (h : Added cur w u m m') (hpull : m.Pulls v u) : Added cur w v m m' :=
  { h with
    new := fun p x w' ho => (h.new p x w' ho).imp_right fun hx =>
      ⟨hx.1, .head hpull hx.2.1, hx.2.2⟩ }

theorem Added.current_ne_none (h : Added cur w v m m') (hcur : (m.view u).current ≠ none) :
    (m'.view u).current ≠ none := by
  rcases h.current u with heq | ⟨-, p, hp, -⟩
  · rw [heq]
    exact hcur
  · rw [hp]
    simp

/-- The exempted views that are in the workspace that is shown have a current proxy too. -/
def Shown (cur : Option WorkspaceId) (m : Membership) (v : ViewId) : Prop :=
  ∃ w, cur = some w ∧ m.In v w

theorem viewProxyCreate_in (h : Linked m) (u : ViewId) (w' : WorkspaceId) :
    (m.viewProxyCreate v w).In u w' ↔ m.In u w' ∨ (u = v ∧ w' = w) := by
  constructor
  · rintro ⟨p, hp⟩
    rw [viewProxyCreate_owner] at hp
    split_ifs at hp
    · rw [Option.some.injEq, Prod.mk.injEq] at hp
      exact .inr ⟨hp.1.symm, hp.2.symm⟩
    · exact .inl ⟨p, hp⟩
  · rintro (⟨p, hp⟩ | ⟨rfl, rfl⟩)
    · exact ⟨p, by rw [viewProxyCreate_owner, if_neg (h.fresh p _ hp).ne, hp]⟩
    · exact ⟨m.next, by rw [viewProxyCreate_owner, if_pos rfl]⟩

/-- The end of `view_add_workspace` for a view that is not in the workspace. -/
def join (cur : Option WorkspaceId) (w : WorkspaceId) (m : Membership) (v : ViewId) : Membership :=
  if cur = some w then (m.viewProxyCreate v w).viewSetCurrentProxy v m.next
  else m.viewProxyCreate v w

theorem join_owner (m : Membership) (p : ProxyId) :
    (m.join cur w v).owner p = if p = m.next then some (v, w) else m.owner p := by
  unfold join
  split_ifs with hcur hp hp
  · rw [viewSetCurrentProxy_owner, viewProxyCreate_owner, if_pos hp]
  · rw [viewSetCurrentProxy_owner, viewProxyCreate_owner, if_neg hp]
  · rw [viewProxyCreate_owner, if_pos hp]
  · rw [viewProxyCreate_owner, if_neg hp]

theorem join_inv (h : InvOn (fun u => P u ∨ Shown cur m u) world m) (hv : v ∈ world.views)
    (hw : world.live w) (hnot : ¬ m.In v w) (hcond : cur = some w ∨ (P v → (m.view v).current ≠ none)) :
    InvOn (fun u => P u ∨ Shown cur (m.join cur w v) u) world (m.join cur w v) := by
  have hin := viewProxyCreate_in (v := v) (w := w) h.toLinked
  by_cases hcur : cur = some w
  · have hjoin : m.join cur w v = (m.viewProxyCreate v w).viewSetCurrentProxy v m.next := if_pos hcur
    have hshown : ∀ u, Shown cur (m.join cur w v) u → Shown cur m u ∨ u = v := by
      rintro u ⟨w', hw', hu⟩
      rw [hjoin, In, viewSetCurrentProxy_owner] at hu
      rcases (hin u w').mp hu with hu | ⟨huv, -⟩
      · exact .inl ⟨w', hw', hu⟩
      · exact .inr huv
    have h₁ : InvOn (fun u => (P u ∨ Shown cur m u) ∧ u ≠ v) world m := h.mono fun u hu => .inl hu.1
    have h₂ := viewProxyCreate_inv h₁ hnot hv hw fun hv => absurd rfl hv.2
    have hmem : m.next ∈ ((m.viewProxyCreate v w).view v).proxies := by
      rw [viewProxyCreate_view, if_pos rfl]
      exact List.mem_cons_self
    have h₃ := viewSetCurrentProxy_inv h₂ hmem
    rw [← hjoin] at h₃
    refine h₃.mono fun u hu => .inl ?_
    rcases eq_or_ne u v with huv | huv
    · exact .inr huv
    · exact .inl ⟨hu.imp_right fun hs => (hshown u hs).resolve_right huv, huv⟩
  · have hjoin : m.join cur w v = m.viewProxyCreate v w := if_neg hcur
    rw [hjoin]
    have hcurrent : (P v ∨ Shown cur m v) → (m.view v).current ≠ none := by
      rintro (hP | ⟨w', hw', p, hp⟩)
      · exact hcond.resolve_left hcur hP
      · refine h.current_some v (.inr ⟨w', hw', p, hp⟩) fun hnil => ?_
        have hmem := (h.view_mem v p).mpr ⟨w', hp⟩
        rw [hnil] at hmem
        cases hmem
    refine (viewProxyCreate_inv h hnot hv hw hcurrent).mono fun u hu => .inl (hu.imp_right ?_)
    rintro ⟨w', hw', hu⟩
    rcases (hin u w').mp hu with hu | ⟨-, rfl⟩
    · exact ⟨w', hw', hu⟩
    · exact absurd hw' hcur

theorem join_view (m : Membership) (u : ViewId) :
    ((m.join cur w v).view u).parent = (m.view u).parent ∧
      ((m.join cur w v).view u).modal = (m.view u).modal ∧
      ((m.join cur w v).view u).sticky = (m.view u).sticky ∧
      ((m.join cur w v).view u).current =
        if cur = some w ∧ u = v then some m.next else (m.view u).current := by
  unfold join
  rcases eq_or_ne u v with rfl | hne
  · split_ifs with hcur hand hand
    · rw [viewSetCurrentProxy_current, if_pos rfl, viewSetCurrentProxy_view]
      split_ifs <;> simp [viewProxyCreate_view]
    · exact absurd ⟨hcur, rfl⟩ hand
    · exact absurd hand.1 hcur
    · simp [viewProxyCreate_view]
  · split_ifs with hcur hand hand
    · exact absurd hand.2 hne
    · simp [viewSetCurrentProxy_view, viewProxyCreate_view, hne]
    · exact absurd hand.1 hcur
    · simp [viewProxyCreate_view, hne]

theorem join_added (h : Linked m) (hnot : ¬ m.In v w) : Added cur w v m (m.join cur w v) where
  parent u := (join_view m u).1
  modal u := (join_view m u).2.1
  sticky u := (join_view m u).2.2.1
  views := by
    unfold join
    split_ifs
    · exact (viewSetCurrentProxy_links _ v m.next).2.2.2
    · rfl
  kept p o ho := by rw [join_owner, if_neg (h.fresh p o ho).ne, ho]
  new p u w' ho := by
    rw [join_owner] at ho
    split_ifs at ho
    · rw [Option.some.injEq, Prod.mk.injEq] at ho
      obtain ⟨rfl, rfl⟩ := ho
      exact .inr ⟨rfl, .refl, hnot⟩
    · exact .inl ho
  current u := by
    rw [(join_view m u).2.2.2]
    split_ifs with hcur
    · exact .inr ⟨hcur.1, m.next, rfl, by rw [join_owner, if_pos rfl, hcur.2]⟩
    · exact .inl rfl
  shown hcur u hin hold := by
    obtain ⟨p, hp⟩ := hin
    rw [join_owner] at hp
    split_ifs at hp
    · rw [Option.some.injEq, Prod.mk.injEq] at hp
      rw [(join_view m u).2.2.2, if_pos ⟨hcur, hp.1.symm⟩]
      exact ⟨m.next, rfl, by rw [join_owner, if_pos rfl, hp.1]⟩
    · exact absurd ⟨p, hp⟩ hold

/-- Everything a call of `view_add_workspace` on `v` does, and the proxy it returns. -/
structure Joined (P : ViewId → Prop) (world : World) (cur : Option WorkspaceId)
    (w : WorkspaceId) (v : ViewId) (m m' : Membership) (new : Option ProxyId) : Prop where
  inv : InvOn (fun u => P u ∨ Shown cur m' u) world m'
  added : Added cur w v m m'
  joined : ∀ u, m.Pulled v u → m'.In u w
  acyclic : Acc (fun a b => m.Pulls b a) v
  returned : match new with
    | none => m.In v w
    | some p => ¬ m.In v w ∧ m'.owner p = some (v, w)

/-- When joining `w` leaves no view in need of a current proxy without one. -/
def MayJoin (P : ViewId → Prop) (cur : Option WorkspaceId) (w : WorkspaceId) (m : Membership)
    (v : ViewId) : Prop :=
  cur = some w ∨ ∀ u, m.Pulled v u → P u → (m.view u).current ≠ none

theorem MayJoin.added {x : ViewId} (h : MayJoin P cur w m v) (ha : Added cur w x m m') :
    MayJoin P cur w m' v := by
  refine h.imp_right fun h u hu hP => ha.current_ne_none (h u ?_ hP)
  rwa [ha.pulled] at hu

theorem MayJoin.of_pulls (h : MayJoin P cur w m v) (hpull : m.Pulls v u) : MayJoin P cur w m u :=
  h.imp_right fun h x hx => h x (.head hpull hx)

/-- A walk that comes to an end does not pass through the view it started from. -/
theorem not_pulled_of_acc (h : Acc (fun a b => m.Pulls b a) v) (hpull : m.Pulls v u) :
    ¬ m.Pulled u v := by
  intro hback
  have hcycle : Relation.TransGen (fun a b => m.Pulls b a) v v :=
    Relation.transGen_swap.mpr (Relation.TransGen.head' hpull hback)
  have hirrefl : ∀ x, Acc (Relation.TransGen fun a b => m.Pulls b a) x →
      ¬ Relation.TransGen (fun a b => m.Pulls b a) x x := by
    intro x hx
    induction hx with
    | intro x _ ih => exact fun hxx => ih x hxx hxx
  exact hirrefl v h.transGen hcycle

theorem viewAddWorkspace_joined (hw : world.live w) : ∀ {n : ℕ} {m : Membership} {v : ViewId}
    {m' : Membership} {new : Option ProxyId}, InvOn (fun u => P u ∨ Shown cur m u) world m →
    v ∈ world.views → MayJoin P cur w m v → viewAddWorkspace cur w n m v = some (m', new) →
    Joined P world cur w v m m' new := by
  intro n
  induction n with
  | zero =>
    intro m v m' new _ _ _ hs
    cases hs
  | succ n ih =>
    intro m v m' new h hv hmay hs
    rw [viewAddWorkspace, Option.bind_eq_bind, Option.bind_eq_some_iff] at hs
    obtain ⟨m₁, hparents, hs⟩ := hs
    -- the parents are in the workspace now, and the view itself is where it was
    obtain ⟨h₁, hadded, hparent, hacc, hself⟩ : InvOn (fun u => P u ∨ Shown cur m₁ u) world m₁ ∧
        Added cur w v m m₁ ∧ (∀ u, m.Pulls v u → ∀ x, m.Pulled u x → m₁.In x w) ∧
        Acc (fun a b => m.Pulls b a) v ∧ (m₁.In v w → m.In v w) := by
      rcases forModalParents_cases hparents with ⟨rfl, hnone⟩ | ⟨u, hpull, m₂, hcall, hrest⟩
      · exact ⟨h, .refl _, fun u hu => absurd hu (hnone u),
          ⟨v, fun u hu => absurd hu (hnone u)⟩, id⟩
      · have hu : u ∈ world.views := h.parent_mem v u hpull.2
        have honly : ∀ x, m.Pulls v x → x = u := fun x hx =>
          Option.some.inj (hx.2.symm.trans hpull.2)
        have hcall' := fun {m a : Membership} (hs : (viewAddWorkspace cur w n m u).map Prod.fst =
          some a) => Option.map_eq_some_iff.mp hs
        obtain ⟨⟨_, new₂⟩, hone, rfl⟩ := hcall' hcall
        have hfirst := ih h hu (hmay.of_pulls hpull) hone
        have hlater : InvOn (fun u => P u ∨ Shown cur m₁ u) world m₁ ∧ Added cur w u m m₁ ∧
            ∀ x, m.Pulled u x → m₁.In x w := by
          clear hparents hs
          induction hrest with
          | refl => exact ⟨hfirst.inv, hfirst.added, hfirst.joined⟩
          | tail _ hb ih' =>
            obtain ⟨hi, ha, hj⟩ := ih'
            obtain ⟨⟨_, new₃⟩, hone, rfl⟩ := hcall' hb
            have hnext := ih hi hu ((hmay.of_pulls hpull).added ha) hone
            exact ⟨hnext.inv, ha.trans hnext.added, fun x hx => hnext.added.in_mono (hj x hx)⟩
        obtain ⟨hi, ha, hj⟩ := hlater
        have hacc : Acc (fun a b => m.Pulls b a) v :=
          ⟨v, fun x hx => honly x hx ▸ hfirst.acyclic⟩
        refine ⟨hi, ha.lift hpull, fun x hx => honly x hx ▸ hj, hacc, ?_⟩
        rintro ⟨p, hp⟩
        rcases ha.new p v w hp with hp | ⟨-, hback, -⟩
        · exact ⟨p, hp⟩
        · exact absurd hback (not_pulled_of_acc hacc hpull)
    have hjoined : ∀ {m₂}, Added cur w v m₁ m₂ → m₂.In v w → ∀ u, m.Pulled v u → m₂.In u w := by
      intro m₂ ha hv u hu
      rcases Relation.ReflTransGen.cases_head hu with rfl | ⟨x, hvx, hxu⟩
      · exact hv
      · exact ha.in_mono (hparent x hvx u hxu)
    cases hfind : m₁.viewProxyByWorkspace v w with
    | some p =>
      have hin : m₁.In v w := ⟨p, (viewProxyByWorkspace_eq_some h₁.toLinked).mp hfind⟩
      rw [hfind] at hs
      cases hs
      exact ⟨h₁, hadded, hjoined (.refl _) hin, hacc, hself hin⟩
    | none =>
      have hnot := (viewProxyByWorkspace_eq_none h₁.toLinked).mp hfind
      rw [hfind] at hs
      simp only [Option.some.injEq, Prod.mk.injEq] at hs
      obtain ⟨rfl, rfl⟩ := hs
      have ha : Added cur w v m₁ (m₁.join cur w v) := join_added h₁.toLinked hnot
      have howner : (m₁.join cur w v).owner m₁.next = some (v, w) := by
        rw [join_owner, if_pos rfl]
      refine ⟨join_inv h₁ hv hw hnot ?_, hadded.trans ha, hjoined ha ⟨_, howner⟩, hacc, ?_, howner⟩
      · exact (hmay.added hadded).imp_right fun hcur hP => hcur v .refl hP
      · exact fun hin => hnot (hadded.in_mono hin)

theorem viewAdd_inv (h : Inv world m) (hv : v ∈ world.views) (hw : world.live w)
    (hmay : MayJoin (fun _ => True) cur w m v) (hs : viewAdd cur m v w = some m') : Inv world m' ∧ Added cur w v m m' := by
  obtain ⟨⟨_, new⟩, hcall, rfl⟩ := Option.map_eq_some_iff.mp hs
  have hjoined := viewAddWorkspace_joined (P := fun _ => True) hw
    (h.mono fun _ _ => .inl trivial) hv hmay hcall
  exact ⟨hjoined.inv.mono fun _ _ => .inl (.inl trivial), hjoined.added⟩

/-! ### All workspaces -/

/-- A view and what it pulls join workspaces one after the other; meanwhile they are exempted. -/
theorem foldlM_viewAdd_joined (hv : v ∈ world.views) : ∀ (order : List WorkspaceId) {m : Membership},
    InvOn (fun u => ¬ m.Pulled v u ∨ Shown cur m u) world m → (∀ w ∈ order, world.live w) →
    order.foldlM (fun m w => viewAdd cur m v w) m = some m' →
    InvOn (fun u => ¬ m.Pulled v u ∨ Shown cur m' u) world m' ∧
      (∀ u w', m.In u w' → m'.In u w') ∧ ∀ w ∈ order, ∀ u, m.Pulled v u → m'.In u w
  | [], m, h, _, hs => by
    cases hs
    exact ⟨h, fun _ _ hin => hin, fun w hw => absurd hw List.not_mem_nil⟩
  | w :: order, m, h, hlive, hs => by
    rw [List.foldlM_cons, Option.bind_eq_bind, Option.bind_eq_some_iff] at hs
    obtain ⟨m₁, hcall, hs⟩ := hs
    obtain ⟨⟨_, new⟩, hone, rfl⟩ := Option.map_eq_some_iff.mp hcall
    have hjoined := viewAddWorkspace_joined (hlive w List.mem_cons_self) h hv
      (.inr fun u hu hP => absurd hu hP) hone
    have hpulled := hjoined.added.pulled
    have hinv := hjoined.inv
    rw [← hpulled] at hinv
    obtain ⟨hi, hmono, hall⟩ := foldlM_viewAdd_joined hv order hinv
      (fun w' hw' => hlive w' (List.mem_cons_of_mem _ hw')) hs
    rw [hpulled] at hi hall
    refine ⟨hi, fun u w' hin => hmono u w' (hjoined.added.in_mono hin), fun w' hw' u hu => ?_⟩
    rcases List.mem_cons.mp hw' with rfl | hw'
    · exact hmono u w' (hjoined.joined u hu)
    · exact hall w' hw' u hu

/-- Joining all workspaces ends in the one that is shown for every view that follows. -/
theorem viewAddAllWorkspace_inv {order : List WorkspaceId} (h : Inv world m) (hv : v ∈ world.views)
    (hlive : ∀ w ∈ order, world.live w) (hcur : ∃ w ∈ order, cur = some w)
    (hs : viewAddAllWorkspace cur order m v = some m') : Inv world m' := by
  unfold viewAddAllWorkspace at hs
  split_ifs at hs
  · cases hs
    exact h
  · rw [Option.bind_eq_bind, Option.bind_eq_some_iff] at hs
    obtain ⟨m₁, hfold, hs⟩ := hs
    cases hs
    obtain ⟨hi, -, hall⟩ := foldlM_viewAdd_joined hv order (h.mono fun _ _ => .inl trivial) hlive hfold
    obtain ⟨w, hw, hcur⟩ := hcur
    refine setView_inv (hi.mono fun u _ => .inl ?_) rfl rfl (fun _ => .inl) fun _ => .inl
    by_cases hpull : m.Pulled v u
    · exact .inr ⟨w, hcur, hall w hw u hpull⟩
    · exact .inl hpull

theorem viewRemoveWorkspace_inv {order : List WorkspaceId} (hlive : ∀ w ∈ order, world.live w)
    (hcur : ∃ w ∈ order, cur = some w) : ∀ {n : ℕ} {m : Membership} {v : ViewId} {m' : Membership},
    Inv world m → v ∈ world.views → viewRemoveWorkspace cur order w n m v = some m' →
    Inv world m' := by
  intro n
  induction n with
  | zero =>
    intro m v m' _ _ hs
    cases hs
  | succ n ih =>
    intro m v m' h hv hs
    rw [viewRemoveWorkspace, Option.bind_eq_bind, Option.bind_eq_some_iff] at hs
    obtain ⟨m₁, hparents, hs⟩ := hs
    have h₁ : Inv world m₁ := forModalParents_inv
      (fun u hu _ _ ha => ih ha (h.parent_mem v u hu.2)) h hparents
    split at hs
    · cases hs
      exact h₁
    · next p hfind =>
      have howner := (viewProxyByWorkspace_eq_some h₁.toLinked).mp hfind
      split at hs
      · exact viewAddAllWorkspace_inv h₁ hv hlive hcur hs
      · next q hother =>
        simp only [Option.some.injEq] at hs
        rw [← hs]
        have hq : q ∈ (m₁.view v).proxies := by
          have := List.mem_of_find?_eq_some hother
          rwa [List.mem_reverse] at this
        have hqp : q ≠ p := by simpa using List.find?_some hother
        -- another proxy carries the view before the one in `w` goes
        have hown : ∀ u w', m₁.owner p = some (u, w') → u = v := by
          intro u w' ho
          rw [howner, Option.some.injEq, Prod.mk.injEq] at ho
          exact ho.1.symm
        refine clearSticky_inv ?_
        split_ifs with hcarried
        · refine viewProxyDestroy_inv ((viewSetCurrentProxy_inv h₁ hq).mono fun _ _ => .inl
            (.inl trivial)) fun u w' ho => ?_
          rw [viewSetCurrentProxy_owner] at ho
          rw [hown u w' ho, viewSetCurrentProxy_current, if_pos rfl, ne_eq, Option.some.injEq]
          exact hqp
        · refine viewProxyDestroy_inv h₁ fun u w' ho => ?_
          rw [hown u w' ho]
          exact hcarried

end Membership

end FlakeWm.Workspaces
