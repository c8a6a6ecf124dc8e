import FlakeWm.Workspaces.Moving
import FlakeWm.Workspaces.Order

/-! The membership of views over whole runs.

    `MembershipOk` is what the lists and pointers should look like at any time. Three slips break
    it. `view_add_workspace` leaves `current_proxy` at `NULL` for a view that was in no workspace,
    unless the workspace is shown; `view_set_parent` and the sticky views of a new workspace reach
    the same code. And `fix_workspace` destroys the proxy that carries a view which was in the
    inheriting workspace already. `sound` excludes them, event by event. -/

namespace FlakeWm.Workspaces

open FlakeWm.Workspaces.Membership

variable {s s' : State}

/-- What the lists of views and workspaces and the current proxies should be. -/
structure MembershipOk (s : State) : Prop where
  /-- A view has one proxy for a workspace at most. -/
  unique : ∀ v, ∀ p ∈ (s.mem.view v).proxies, ∀ q ∈ (s.mem.view v).proxies, ∀ x y,
    s.mem.proxy p = some x → s.mem.proxy q = some y → x.workspace = y.workspace → p = q
  /-- A proxy is in the list of its view, once, and in no other list of a view. -/
  in_view : ∀ p x, s.mem.proxy p = some x →
    ∀ v, (s.mem.view v).proxies.count p = if v = x.view then 1 else 0
  /-- A proxy is in the list of its workspace, once, and in no other list of a workspace. -/
  in_workspace : ∀ p x, s.mem.proxy p = some x →
    ∀ w, (s.mem.listed w).count p = if w = x.workspace then 1 else 0
  /-- The lists hold no freed proxy and none of a destroyed workspace. -/
  not_freed : ∀ p, (∃ v, p ∈ (s.mem.view v).proxies) ∨ (∃ w, p ∈ s.mem.listed w) →
    ∃ x, s.mem.proxy p = some x ∧ s.mgr.live x.workspace = true
  current_none : ∀ v, (s.mem.view v).current = none ↔ (s.mem.view v).proxies = []
  current_mem : ∀ v p, (s.mem.view v).current = some p → p ∈ (s.mem.view v).proxies

/-- The views and the live workspaces of a state. -/
def State.world (s : State) : World := ⟨s.mem.views, fun w => s.mgr.live w = true⟩

/-- The membership invariant of a state. -/
def Members (s : State) : Prop := Membership.Inv s.world s.mem

theorem owner_eq_some {m : Membership} {p : ProxyId} {v : ViewId} {w : WorkspaceId} :
    m.owner p = some (v, w) ↔ ∃ x, m.proxy p = some x ∧ x.view = v ∧ x.workspace = w := by
  simp [owner, Option.map_eq_some_iff]

theorem Members.ok (h : Members s) : MembershipOk s := by
  have howner : ∀ {p x}, s.mem.proxy p = some x → s.mem.owner p = some (x.view, x.workspace) :=
    fun hx => owner_eq_some.mpr ⟨_, hx, rfl, rfl⟩
  have hfreed : ∀ {p o}, s.mem.owner p = some o →
      ∃ x, s.mem.proxy p = some x ∧ s.mgr.live x.workspace = true := by
    rintro p ⟨v, w⟩ ho
    obtain ⟨x, hx, -, rfl⟩ := owner_eq_some.mp ho
    exact ⟨x, hx, (h.owner_mem p v _ ho).2⟩
  refine ⟨fun v p hp q hq x y hx hy hxy => ?_, fun p x hx v => ?_, fun p x hx w => ?_, ?_,
    fun v => ⟨fun hnone => ?_, fun hnil => ?_⟩, h.current_mem⟩
  · obtain ⟨w, hw⟩ := (h.view_mem v p).mp hp
    obtain ⟨w', hw'⟩ := (h.view_mem v q).mp hq
    obtain ⟨x', hx', -, rfl⟩ := owner_eq_some.mp hw
    obtain ⟨y', hy', -, rfl⟩ := owner_eq_some.mp hw'
    rw [hx, Option.some.injEq] at hx'
    rw [hy, Option.some.injEq] at hy'
    subst hx' hy'
    exact h.unique v _ p q hw (hxy ▸ hw')
  · split_ifs with hv
    · refine List.count_eq_one_of_mem (h.view_nodup v) ((h.view_mem v p).mpr ⟨x.workspace, ?_⟩)
      rw [howner hx, hv]
    · refine List.count_eq_zero_of_not_mem fun hp => ?_
      obtain ⟨w, hw⟩ := (h.view_mem v p).mp hp
      rw [howner hx, Option.some.injEq, Prod.mk.injEq] at hw
      exact hv hw.1.symm
  · split_ifs with hw
    · refine List.count_eq_one_of_mem (h.listed_nodup w) ((h.listed_mem w p).mpr ⟨x.view, ?_⟩)
      rw [howner hx, hw]
    · refine List.count_eq_zero_of_not_mem fun hp => ?_
      obtain ⟨v, hv⟩ := (h.listed_mem w p).mp hp
      rw [howner hx, Option.some.injEq, Prod.mk.injEq] at hv
      exact hw hv.2.symm
  · rintro p (⟨v, hp⟩ | ⟨w, hp⟩)
    · obtain ⟨w, hw⟩ := (h.view_mem v p).mp hp
      exact hfreed hw
    · obtain ⟨v, hv⟩ := (h.listed_mem w p).mp hp
      exact hfreed hv
  · by_contra hne
    exact h.current_some v trivial hne hnone
  · cases hcur : (s.mem.view v).current with
    | none => rfl
    | some p =>
      have hp := h.current_mem v p hcur
      rw [hnil] at hp
      cases hp

/-- Operations keep the views; workspaces that are there may become more. -/
theorem members_of_inv {world : World} (h : Membership.Inv world s.mem)
    (hlive : ∀ w, world.live w → s.mgr.live w = true) : Members s := by
  refine h.in_world ⟨rfl, fun v u hu => ?_, fun p v w hp => ⟨?_, hlive w (h.owner_mem p v w hp).2⟩⟩
  · rw [State.world, h.views]
    exact h.parent_mem v u hu
  · rw [State.world, h.views]
    exact (h.owner_mem p v w hp).1

/-! ### Activation -/

theorem workspaceSetActivated_members (h : Members s) (w : WorkspaceId) (b : Bool) :
    Members (workspaceSetActivated s w b) ∧
      (workspaceSetActivated s w b).mem.owner = s.mem.owner ∧
      ((s.mgr.workspace w).activated ≠ b → ∀ u p, s.mem.owner p = some (u, w) →
        ((workspaceSetActivated s w b).mem.view u).current = some p) := by
  unfold workspaceSetActivated
  split_ifs with hsame
  · exact ⟨h, rfl, absurd hsame⟩
  · obtain ⟨hinv, howner, hshow⟩ := showProxies_inv h w
    exact ⟨members_of_inv hinv fun _ hw => hw, howner, fun _ => hshow⟩

/-- A workspace that was not shown carries its views after its activation. -/
theorem workspaceActivate_members (h : Members s) (w : WorkspaceId) :
    Members (workspaceActivate s w) ∧ (workspaceActivate s w).mem.owner = s.mem.owner ∧
      (s.mgr.current ≠ some w → (s.mgr.workspace w).activated = false →
        ∀ u p, s.mem.owner p = some (u, w) →
          ((workspaceActivate s w).mem.view u).current = some p) := by
  have hset : ∀ {s₁ : State}, Members s₁ → s₁.mem.owner = s.mem.owner →
      ((s.mgr.workspace w).activated = false → (s₁.mgr.workspace w).activated = false) →
      Members (workspaceSetActivated (setCurrent s₁ w) w true) ∧
      (workspaceSetActivated (setCurrent s₁ w) w true).mem.owner = s.mem.owner ∧
      ((s.mgr.workspace w).activated = false → ∀ u p, s.mem.owner p = some (u, w) →
        ((workspaceSetActivated (setCurrent s₁ w) w true).mem.view u).current = some p) := by
    intro s₁ h₁ howner₁ hact
    have h₁' : Members (setCurrent s₁ w) := h₁
    obtain ⟨hinv, howner, hshow⟩ := workspaceSetActivated_members h₁' w true
    refine ⟨hinv, howner.trans howner₁, fun hidle u p hp => hshow ?_ u p ?_⟩
    · have hidle₁ : ((setCurrent s₁ w).mgr.workspace w).activated = false := hact hidle
      rw [hidle₁]
      exact Bool.false_ne_true
    · exact (congrFun howner₁ p).trans hp
  unfold workspaceActivate
  split_ifs with hsame
  · exact ⟨h, rfl, absurd hsame⟩
  · cases s.mgr.current with
    | none =>
      obtain ⟨hinv, howner, hshow⟩ := hset h rfl id
      exact ⟨hinv, howner, fun _ => hshow⟩
    | some old =>
      obtain ⟨h₁, howner₁, -⟩ := workspaceSetActivated_members h old false
      obtain ⟨hinv, howner, hshow⟩ := hset h₁ howner₁ fun hidle => by
        rw [(workspaceSetActivated_mgr s old false).2.2]
        split_ifs
        · rfl
        · exact hidle
      exact ⟨hinv, howner, fun _ => hshow⟩

/-! ### Creation -/

/-- The views of these proxies that are sticky, and those they pull, have a current proxy. -/
def StickyCarried (m : Membership) (l : List ProxyId) : Prop :=
  ∀ p ∈ l, ∀ v w, m.owner p = some (v, w) → (m.view v).sticky = true →
    ∀ u, m.Pulled v u → (m.view u).current ≠ none

theorem foldlM_autoAddView {world : World} {cur : Option WorkspaceId} {w : WorkspaceId}
    {m' : Membership} (hw : world.live w) : ∀ (l : List ProxyId) {m : Membership},
    Membership.Inv world m → (∀ p ∈ l, ∃ o, m.owner p = some o) → StickyCarried m l →
    l.foldlM (autoAddView cur w) m = some m' → Membership.Inv world m'
  | [], m, h, _, _, hs => by
    cases hs
    exact h
  | p :: l, m, h, hlist, hsticky, hs => by
    rw [List.foldlM_cons, Option.bind_eq_bind, Option.bind_eq_some_iff] at hs
    obtain ⟨m₁, hadd, hs⟩ := hs
    obtain ⟨⟨v, w'⟩, howner⟩ := hlist p List.mem_cons_self
    obtain ⟨x, hx, rfl, rfl⟩ := owner_eq_some.mp howner
    unfold autoAddView at hadd
    rw [hx] at hadd
    simp only at hadd
    split_ifs at hadd with hst
    · obtain ⟨h₁, hadded⟩ := viewAdd_inv h (h.owner_mem p _ _ howner).1 hw
        (.inr fun u hu _ => hsticky p List.mem_cons_self _ _ howner hst u hu) hadd
      refine foldlM_autoAddView hw l h₁ (fun q hq => ?_) (fun q hq v w' ho hsv u hu => ?_) hs
      · obtain ⟨o, ho⟩ := hlist q (List.mem_cons_of_mem _ hq)
        exact ⟨o, hadded.kept q o ho⟩
      · obtain ⟨o, ho'⟩ := hlist q (List.mem_cons_of_mem _ hq)
        rw [hadded.kept q o ho', Option.some.injEq] at ho
        rw [ho] at ho'
        rw [hadded.sticky] at hsv
        rw [hadded.pulled] at hu
        exact hadded.current_ne_none
          (hsticky q (List.mem_cons_of_mem _ hq) v w' ho' hsv u hu)
    · cases hadd
      exact foldlM_autoAddView hw l h (fun q hq => hlist q (List.mem_cons_of_mem _ hq))
        (fun q hq => hsticky q (List.mem_cons_of_mem _ hq)) hs

theorem workspaceCreate_members {name : Option String} {position : ℕ} (hm : Manager.Inv s.mgr)
    (h : Members s) (hsticky : s.mgr.count ≠ MAX_WORKSPACES →
      StickyCarried s.mem (s.mem.listed ((s.mgr.insert name position).slots 0)))
    (hs : workspaceCreate s name position = some s') : Members s' := by
  unfold workspaceCreate at hs
  split_ifs at hs with hfull
  · cases hs
    exact h
  · obtain ⟨-, -, -, -, hlive⟩ := hm.insert_ok hfull name position
    have hgrow : Members { s with mgr := s.mgr.insert name position } := by
      refine members_of_inv (s := { s with mgr := s.mgr.insert name position }) h fun w hw => ?_
      change (s.mgr.insert name position).live w = true
      rw [hlive]
      rcases eq_or_ne w s.mgr.next with rfl | hne
      · exact Function.update_self ..
      · rw [Function.update_of_ne hne]
        exact hw
    unfold workspaceAutoAddViews at hs
    rw [Option.bind_eq_bind, Option.bind_eq_some_iff] at hs
    obtain ⟨mem, hfold, hs⟩ := hs
    cases hs
    have hnew : (s.mgr.insert name position).live s.mgr.next = true := by
      rw [hlive]
      exact Function.update_self ..
    have howned : ∀ p ∈ s.mem.listed ((s.mgr.insert name position).slots 0), ∃ o,
        s.mem.owner p = some o := by
      intro p hp
      obtain ⟨v, hv⟩ := (h.listed_mem _ p).mp hp
      exact ⟨_, hv⟩
    have hinv := foldlM_autoAddView hnew _ hgrow howned (hsticky hfull) hfold
    exact members_of_inv hinv fun _ hw => hw

/-! ### Destruction -/

/-- The end of `workspace_destroy`: the views move, and no proxy of the workspace is left. -/
theorem moved_members {w target : WorkspaceId} {mem : Membership} (h : Members s)
    (htarget : s.mgr.live target = true) (hne : w ≠ target)
    (hmay : MayLeave s.mgr.current target s.mem (s.mem.listed w))
    (hfold : (s.mem.listed w).foldlM (moveToTarget s.mgr.current target) s.mem = some mem) :
    Members { mgr := s.mgr.free w, mem := mem } := by
  obtain ⟨hinv, hgone⟩ := foldlM_moveToTarget htarget hne (s.mem.listed w) h (h.listed_nodup w)
    (fun p hp => (h.listed_mem w p).mp hp) hmay hfold
  have hleft : ∀ p v u, mem.owner p = some (v, u) → u ≠ w := by
    rintro p v _ hp rfl
    obtain ⟨hp, hnot⟩ := hgone p v hp
    exact hnot ((h.listed_mem _ p).mpr ⟨v, hp⟩)
  have hknown : Known ⟨s.mem.views, fun u => (s.mgr.free w).live u = true⟩ mem := by
    refine ⟨hinv.views, hinv.parent_mem, fun p v u hp => ⟨(hinv.owner_mem p v u hp).1, ?_⟩⟩
    change Function.update s.mgr.live w false u = true
    rw [Function.update_of_ne (hleft p v u hp)]
    exact (hinv.owner_mem p v u hp).2
  exact members_of_inv (s := ⟨s.mgr.free w, mem⟩) (hinv.in_world hknown) fun _ hu => hu

/-- The state in which the views of `w` move: the gap is closed, and the successor is shown if `w`
    was. -/
def withSuccessor (s : State) (w : WorkspaceId) : State :=
  if (s.mgr.remove w).current = some w
    then workspaceActivate { s with mgr := s.mgr.remove w } ((s.mgr.remove w).successor w)
    else { s with mgr := s.mgr.remove w }

theorem workspaceDestroy_cases {w : WorkspaceId} (hm : Manager.Inv s.mgr)
    (hw : s.mgr.live w = true) (hmany : 1 < s.mgr.count) (hs : workspaceDestroy s w = some s') :
    ∃ mem, ((withSuccessor s w).mem.listed w).foldlM (moveToTarget (withSuccessor s w).mgr.current
        ((s.mgr.remove w).successor w)) (withSuccessor s w).mem = some mem ∧
      s' = ⟨(withSuccessor s w).mgr.free w, mem⟩ := by
  obtain ⟨-, hok, -, -⟩ := Manager.remove_ok hm.toArrayOk hw
  obtain ⟨hne, htarget⟩ := successor_ok hm.toArrayOk hw hmany
  have hsome : (s.mgr.remove w).count ≠ 0 := by
    obtain ⟨i, hi, -⟩ := (hok.live_iff ((s.mgr.remove w).successor w)).mp (by
      change Function.update s.mgr.live w false _ = true
      rw [Function.update_of_ne hne]
      exact htarget)
    have hi' : i < (s.mgr.remove w).count := hi
    omega
  unfold workspaceDestroy at hs
  rw [Option.bind_eq_bind, Option.bind_eq_some_iff] at hs
  obtain ⟨s₂, hfix, hs⟩ := hs
  cases hs
  unfold fixWorkspace at hfix
  simp only [hsome, if_false] at hfix
  rw [Option.bind_eq_bind, Option.bind_eq_some_iff] at hfix
  obtain ⟨mem, hfold, hfix⟩ := hfix
  cases hfix
  exact ⟨mem, hfold, rfl⟩

theorem workspaceDestroy_members {w : WorkspaceId} (hm : Manager.Inv s.mgr) (h : Members s)
    (hw : s.mgr.live w = true) (hmany : 1 < s.mgr.count)
    (hmay : s.mgr.current = some w ∨
      MayLeave s.mgr.current ((s.mgr.remove w).successor w) s.mem (s.mem.listed w))
    (hs : workspaceDestroy s w = some s') : Members s' := by
  obtain ⟨-, -, hkept, -⟩ := Manager.remove_ok hm.toArrayOk hw
  obtain ⟨hne, htarget⟩ := successor_ok hm.toArrayOk hw hmany
  set target := (s.mgr.remove w).successor w with htargetdef
  set s₁ : State := { s with mgr := s.mgr.remove w } with hs₁
  have h₁ : Members s₁ := by
    refine members_of_inv (s := s₁) h fun u hu => ?_
    change (s.mgr.remove w).live u = true
    rw [hkept.live]
    exact hu
  have htarget₁ : s₁.mgr.live target = true := by
    change (s.mgr.remove w).live target = true
    rw [hkept.live]
    exact htarget
  obtain ⟨mem, hfold, rfl⟩ := workspaceDestroy_cases hm hw hmany hs
  unfold withSuccessor at hfold ⊢
  by_cases hcur : (s.mgr.remove w).current = some w
  · -- the successor is shown first, so it carries its views already
    simp only [hcur, if_true] at hfold ⊢
    obtain ⟨h₂, howner, hshow⟩ := workspaceActivate_members h₁ target
    have hother : s₁.mgr.current ≠ some target := by
      change (s.mgr.remove w).current ≠ some target
      rw [hcur, ne_eq, Option.some.injEq]
      exact hne.symm
    have hidle : (s₁.mgr.workspace target).activated = false := by
      have hact := hm.activated target htarget
      rw [← hkept.current, ← hkept.activated target] at hact
      exact Bool.eq_false_iff.mpr fun htrue => hother (hact.mp htrue)
    obtain ⟨hplaces, hcur₂, -⟩ := workspaceActivate_mgr s₁ target fun hbad => absurd hbad hother
    have htarget₂ : (workspaceActivate s₁ target).mgr.live target = true := by
      rw [hplaces.live]
      exact htarget₁
    refine moved_members h₂ htarget₂ hne.symm ⟨.inl hcur₂, fun p hp v u ho hcarried => ?_, .inl hcur₂⟩
      hfold
    rintro ⟨q, hq⟩
    obtain ⟨v', hv'⟩ := (h₂.listed_mem w p).mp hp
    rw [howner] at hq
    rw [hshow hother hidle v q hq, Option.some.injEq] at hcarried
    rw [← howner, hcarried, hv', Option.some.injEq, Prod.mk.injEq] at hq
    exact hne hq.2.symm
  · simp only [hcur, if_false] at hfold ⊢
    have hcur' : s₁.mgr.current = s.mgr.current := hkept.current
    refine moved_members h₁ htarget₁ hne.symm ?_ hfold
    rw [hcur']
    exact hmay.resolve_left fun hbad => hcur (hkept.current.trans hbad)

/-! ### Views -/

theorem newView_view (m : Membership) (v u : ViewId) (w : WorkspaceId) :
    (m.newView v w).view u = if u = v then ⟨none, [], false, false, false, false, [], none,
      .workspaceLayer w .normal⟩ else m.view u := by
  split_ifs with hu
  · rw [hu]
    exact Function.update_self ..
  · exact Function.update_of_ne hu ..

/-- A new view has no proxies yet, and no proxy is its own. -/
theorem newView_base {world : World} {m : Membership} {v : ViewId} {w : WorkspaceId}
    (h : Base world m) (hv : v ∉ m.views) :
    Base { world with views := v :: world.views } (m.newView v w) := by
  have hnone : ∀ p w', m.owner p ≠ some (v, w') := fun p w' hp =>
    hv (h.views ▸ (h.owner_mem p v w' hp).1)
  refine ⟨⟨fun u p => ?_, h.listed_mem, fun u => ?_, h.listed_nodup, h.unique, h.fresh⟩,
    ⟨congrArg (v :: ·) h.views, fun u y hy => ?_, fun p u w' hp => ?_⟩⟩
  · rw [newView_view]
    split_ifs with hu
    · rw [hu]
      exact iff_of_false List.not_mem_nil fun ⟨w', hp⟩ => hnone p w' hp
    · exact h.view_mem u p
  · rw [newView_view]
    split_ifs
    · exact List.nodup_nil
    · exact h.view_nodup u
  · rw [newView_view] at hy
    split_ifs at hy
    exact List.mem_cons_of_mem _ (h.parent_mem u y hy)
  · exact ⟨List.mem_cons_of_mem _ (h.owner_mem p u w' hp).1, (h.owner_mem p u w' hp).2⟩

theorem newView_inv {world : World} {m : Membership} {v : ViewId} {w : WorkspaceId}
    (h : Membership.Inv world m) (hv : v ∉ m.views) :
    Membership.Inv { world with views := v :: world.views } (m.newView v w) := by
  have hbase : Base { world with views := v :: world.views } (m.newView v w) :=
    newView_base h.base hv
  refine ⟨hbase.toLinked, hbase.toKnown, fun u p hc => ?_, fun u _ hne => ?_, fun u p ht => ?_⟩
  · rw [newView_view] at hc ⊢
    split_ifs at hc ⊢
    exact h.current_mem u p hc
  · rw [newView_view] at hne ⊢
    split_ifs at hne ⊢
    · exact absurd rfl hne
    · exact h.current_some u trivial hne
  · rw [newView_view] at ht ⊢
    split_ifs at ht ⊢
    exact h.tree u p ht

theorem onViews_members {vs : List ViewId} {mem : Option Membership}
    (hinv : ∀ m, (∀ v ∈ vs, v ∈ s.mem.views) → mem = some m → Membership.Inv s.world m)
    (hs : onViews s vs mem = some s') : Members s' := by
  unfold onViews at hs
  split_ifs at hs with hviews
  obtain ⟨m, hm, rfl⟩ := Option.map_eq_some_iff.mp hs
  exact members_of_inv (s := { s with mem := m }) (hinv m hviews hm) fun _ hw => hw

theorem onWorkspace_members {v : ViewId} {w : WorkspaceId} {mem : Option Membership}
    (hinv : ∀ m, v ∈ s.mem.views → s.mgr.live w = true → mem = some m → Membership.Inv s.world m)
    (hs : onWorkspace s v w mem = some s') : Members s' := by
  unfold onWorkspace at hs
  split_ifs at hs with hlive
  exact onViews_members (fun m hv hm => hinv m (hv v (List.mem_singleton.mpr rfl)) hlive hm) hs

/-! ### Runs -/

/-- The events that keep the membership right, where they are handled. A view joins a workspace
    that is not shown only if it and the modal chain above it are in some workspace already, and a
    destroyed workspace is shown, or its views can leave it (`MayLeave`). -/
def sound (s : State) : Event → Prop
  | .workspaceCreate name position => s.mgr.count ≠ MAX_WORKSPACES →
    StickyCarried s.mem (s.mem.listed ((s.mgr.insert name position).slots 0))
  | .workspaceDestroy w => s.mgr.current = some w ∨
    MayLeave s.mgr.current ((s.mgr.remove w).successor w) s.mem (s.mem.listed w)
  | .viewAddWorkspace v w => MayJoin (fun _ => True) s.mgr.current w s.mem v
  | .viewSetParent v parent => (s.mem.view v).parent ≠ parent →
    ∀ u ∈ parent, FollowsShown s.mgr.current s.mem v u
  | _ => True

theorem members_step (hm : Manager.Inv s.mgr) (h : Members s) (e : Event) (he : sound s e)
    (hs : step s e = some s') : Members s' := by
  obtain ⟨c, hcur, hc⟩ := hm.current
  have horder : ∀ w, s.mgr.live w = true ↔ w ∈ s.mgr.order := fun w =>
    (hm.live_iff w).trans mem_listing.symm
  have hshown : ∃ w ∈ s.mgr.order, s.mgr.current = some w := ⟨c, (horder c).mp hc, hcur⟩
  have hlive : ∀ w ∈ s.mgr.order, s.world.live w := fun w hw => (horder w).mpr hw
  have hone : ∀ {v : ViewId}, (∀ u ∈ [v], u ∈ s.mem.views) → v ∈ s.world.views := fun hv =>
    hv _ (List.mem_singleton.mpr rfl)
  cases e
  case workspaceCreate name position => exact workspaceCreate_members hm h he hs
  case workspaceDestroy w =>
    rw [step, Option.ite_none_right_eq_some] at hs
    exact workspaceDestroy_members hm h hs.1.1 hs.1.2 he hs.2
  case workspaceActivate w =>
    rw [step, Option.ite_none_right_eq_some, Option.some.injEq] at hs
    obtain ⟨-, rfl⟩ := hs
    exact (workspaceActivate_members h w).1
  case workspaceSetPosition w position =>
    rw [step, Option.ite_none_right_eq_some, Option.some.injEq] at hs
    obtain ⟨hw, rfl⟩ := hs
    obtain ⟨-, hkept, -⟩ := Manager.workspaceSetPosition_ok hm.toArrayOk hw position
    refine members_of_inv (s := { s with mgr := s.mgr.workspaceSetPosition w position }) h
      fun u hu => ?_
    change (s.mgr.workspaceSetPosition w position).live u = true
    rw [hkept.live]
    exact hu
  case viewInit v =>
    rw [step, hcur] at hs
    simp only at hs
    split_ifs at hs with hv
    obtain ⟨m, hset, rfl⟩ := Option.map_eq_some_iff.mp hs
    have hinv := viewDoSetWorkspace_inv hc (newView_inv h hv) List.mem_cons_self hset
    exact members_of_inv (s := { s with mem := m }) hinv fun _ hw => hw
  case viewSetModal v modal =>
    refine onViews_members (fun m _ hm' => ?_) hs
    cases hm'
    exact setView_inv h rfl rfl (fun _ => .inl) fun _ => .inl
  case viewSetWorkspace v w =>
    refine onWorkspace_members (fun m hv hw hm' => ?_) hs
    have hlivew : s.world.live w := hw
    exact viewDoSetWorkspace_inv hlivew h hv hm'
  case viewUnsetWorkspace v layer =>
    exact onViews_members (fun m _ hm' => viewUnsetWorkspace_inv h hm') hs
  case viewAddWorkspace v w =>
    exact onWorkspace_members (fun m hv hw hm' => (viewAdd_inv h hv hw he hm').1) hs
  case viewRemoveWorkspace v w =>
    refine onWorkspace_members (fun m hv _ hm' => ?_) hs
    have horder : ∀ u ∈ s.mgr.order, s.world.live u := hlive
    exact viewRemoveWorkspace_inv horder hshown h hv hm'
  case viewAddAllWorkspace v =>
    exact onViews_members (fun m hv hm' => viewAddAllWorkspace_inv h (hone hv) hlive hshown hm') hs
  case viewSetParent v parent =>
    refine onViews_members (fun m hvs hm' => ?_) hs
    refine viewSetParent_inv h (hvs v List.mem_cons_self) (fun u hu => ?_) he hm'
    exact hvs u (List.mem_cons_of_mem _ (Option.mem_toList.mpr hu))
  case viewSetKeptAbove v b => exact onViews_members (fun m _ hm' => viewSetKeptAbove_inv h hm') hs
  case viewSetKeptBelow v b => exact onViews_members (fun m _ hm' => viewSetKeptBelow_inv h hm') hs
  case viewReparentFullscreen v b =>
    refine onViews_members (fun m _ hm' => ?_) hs
    cases hm'
    exact viewReparentFullscreen_inv h b
  all_goals
    cases hs
    exact members_of_inv h fun _ hw => hw

theorem empty_members (m : Manager) : Members ⟨m, .empty⟩ := by
  refine ⟨⟨fun v p => ?_, fun w p => ?_, fun _ => List.nodup_nil, fun _ => List.nodup_nil, ?_, ?_⟩,
    ⟨rfl, ?_, ?_⟩, ?_, ?_, ?_⟩
  · simp [Membership.empty, owner]
  · simp [Membership.empty, owner]
  all_goals
    intros
    simp_all [Membership.empty, owner]

/-- In every run from `handle_server_ready` whose events are `sound`, the lists of the views and of
    the workspaces hold the same proxies, each once, and a view has a current proxy, one of its own,
    exactly when it has any. -/
theorem membership_kept (n : ℕ) :
    ∃ s₀, handleServerReady n = some s₀ ∧ ∀ s, Reach step sound s₀ s → MembershipOk s := by
  obtain ⟨m, hready, hm, -⟩ := handleServerReady_ok n (J := fun _ _ => True) trivial
    fun _ _ _ _ _ _ => trivial
  refine ⟨_, hready, fun s hreach => ?_⟩
  have hinv : Manager.Inv s.mgr ∧ Members s := by
    refine hreach.inv (I := fun s => Manager.Inv s.mgr ∧ Members s) ⟨hm, empty_members m⟩ ?_
    rintro s e s' ⟨hi, hmem⟩ he hs
    exact ⟨(mgr_inv_step hi e hs).1, members_step hi hmem e he hs⟩
  exact hinv.2.ok

/-- A view in the second and third workspace, carried by its proxy in the third, is left with that
    proxy as its current one when the third workspace, which is not shown, is destroyed. -/
theorem destruction_leaves_freed_proxy :
    ¬ ∀ n s₀ s, handleServerReady n = some s₀ → Reach step Always s₀ s → MembershipOk s := by
  intro h
  obtain ⟨s₀, s, hready, hs, hcur, hproxies⟩ : ∃ s₀ s, handleServerReady 3 = some s₀ ∧
      exec step s₀ [.viewInit 0, .viewSetWorkspace 0 2, .viewAddWorkspace 0 1,
        .workspaceDestroy 2] = some s ∧
      (s.mem.view 0).current = some 1 ∧ (s.mem.view 0).proxies = [2] :=
    ⟨_, _, rfl, rfl, rfl, rfl⟩
  have hmem := (h 3 s₀ s hready (.of_exec _ _ hs)).current_mem 0 1 hcur
  rw [hproxies] at hmem
  exact absurd hmem (by decide)

/-- A view that is in the first two workspaces keeps one proxy when the first, which is shown, is
    destroyed. -/
theorem shown_workspace_destroyed :
    ∃ s₀ s, handleServerReady 3 = some s₀ ∧
      exec step s₀ [.viewInit 0, .viewAddWorkspace 0 1, .workspaceDestroy 0] = some s ∧
      (s.mem.view 0).proxies = [1] ∧ MembershipOk s := by
  obtain ⟨s₀, hready, hkept⟩ := membership_kept 3
  obtain ⟨s₁, s₂, s₃, h₁, h₂, h₃, hcur, halone, hshown, hproxies⟩ : ∃ s₁ s₂ s₃,
      step s₀ (.viewInit 0) = some s₁ ∧ step s₁ (.viewAddWorkspace 0 1) = some s₂ ∧
      step s₂ (.workspaceDestroy 0) = some s₃ ∧ (s₁.mem.view 0).current = some 0 ∧
      (s₁.mem.view 0).modal = false ∧ s₂.mgr.current = some 0 ∧ (s₃.mem.view 0).proxies = [1] := by
    cases hready
    exact ⟨_, _, _, rfl, rfl, rfl, rfl, rfl, rfl, rfl⟩
  have hjoin : sound s₁ (.viewAddWorkspace 0 1) := by
    refine .inr fun u hu _ => ?_
    rcases Relation.ReflTransGen.cases_head hu with rfl | ⟨x, hx, -⟩
    · rw [hcur]
      simp
    · rw [hx.1] at halone
      cases halone
  refine ⟨s₀, s₃, hready, ?_, hproxies, hkept s₃ ?_⟩
  · simp [exec_cons, h₁, h₂, h₃]
  · exact ((Reach.init.next (.viewInit 0) trivial h₁).next _ hjoin h₂).next (.workspaceDestroy 0)
      (Or.inl hshown) h₃

end FlakeWm.Workspaces
