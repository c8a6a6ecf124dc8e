import FlakeWm.Workspaces.Array

/-! The workspaces over whole runs: between one and `MAX_WORKSPACES` of them, in array order, with
    one of them current and activated. Views never enter here: every event changes the manager in a
    way that depends on the manager only. -/

namespace FlakeWm.Workspaces

namespace Manager

variable {m m' : Manager}

/-- The whole invariant of the manager: an array with a current, activated workspace. -/
structure Inv (m : Manager) : Prop extends ArrayOk m, ActiveOk m where
  current : ∃ w, m.current = some w ∧ m.live w = true

theorem Inv.count_pos (h : Inv m) : 1 ≤ m.count := by
  obtain ⟨w, -, hw⟩ := h.current
  obtain ⟨i, hi, -⟩ := (h.live_iff w).mp hw
  omega

theorem Inv.sameArray (h : Inv m) (hs : SameArray m m') : Inv m' := by
  refine ⟨h.toArrayOk.samePlaces hs.places, h.toActiveOk.kept hs.toKept, ?_⟩
  rw [hs.current, hs.live]
  exact h.current

/-! ### Activation -/

theorem setActivated_samePlaces (m : Manager) (w : WorkspaceId) (b : Bool) :
    SamePlaces m (m.setActivated w b) := by
  refine ⟨rfl, rfl, rfl, rfl, fun u => ?_⟩
  rcases eq_or_ne u w with rfl | hne
  · simp [setActivated, emitActivate, notify, setWorkspace]
  · simp [setActivated, emitActivate, notify, setWorkspace, hne]

theorem setActivated_activated (m : Manager) (w u : WorkspaceId) (b : Bool) :
    ((m.setActivated w b).workspace u).activated =
      if u = w then b else (m.workspace u).activated := by
  rcases eq_or_ne u w with rfl | hne
  · simp [setActivated, emitActivate, notify, setWorkspace]
  · simp [setActivated, emitActivate, notify, setWorkspace, hne]

end Manager

open Manager

variable {s s' : State}

/-- `workspace_set_activated` writes the flag of one workspace. -/
theorem workspaceSetActivated_mgr (s : State) (w : WorkspaceId) (b : Bool) :
    SamePlaces s.mgr (workspaceSetActivated s w b).mgr ∧
    (workspaceSetActivated s w b).mgr.current = s.mgr.current ∧
    ∀ u, ((workspaceSetActivated s w b).mgr.workspace u).activated =
      if u = w then b else (s.mgr.workspace u).activated := by
  unfold workspaceSetActivated
  split_ifs with hsame
  · refine ⟨(SameArray.refl _).places, rfl, fun u => ?_⟩
    split_ifs with hu
    · rw [hu, hsame]
    · rfl
  · exact ⟨setActivated_samePlaces _ w b, rfl, fun u => setActivated_activated _ w u b⟩

theorem setCurrent_samePlaces (s : State) (w : WorkspaceId) :
    SamePlaces s.mgr (setCurrent s w).mgr := ⟨rfl, rfl, rfl, rfl, fun _ => rfl⟩

/-- After `workspace_activate(w)`, `w` is current and the previous workspace is not activated. -/
theorem workspaceActivate_mgr (s : State) (w : WorkspaceId)
    (hcur : s.mgr.current = some w → (s.mgr.workspace w).activated = true) :
    SamePlaces s.mgr (workspaceActivate s w).mgr ∧
    (workspaceActivate s w).mgr.current = some w ∧
    ∀ u, ((workspaceActivate s w).mgr.workspace u).activated =
      if u = w then true else if s.mgr.current = some u then false
        else (s.mgr.workspace u).activated := by
  unfold workspaceActivate
  split_ifs with hsame
  · refine ⟨(SameArray.refl _).places, hsame, fun u => ?_⟩
    split_ifs with hu hu'
    · rw [hu, hcur hsame]
    · rw [hsame, Option.some.injEq] at hu'
      exact absurd hu'.symm hu
    · rfl
  · cases hold : s.mgr.current with
    | none =>
      simp only
      obtain ⟨hp, hc, ha⟩ := workspaceSetActivated_mgr (setCurrent s w) w true
      refine ⟨(setCurrent_samePlaces s w).trans hp, hc, fun u => ?_⟩
      rw [ha]
      simp [setCurrent]
    | some old =>
      simp only
      obtain ⟨hp₁, hc₁, ha₁⟩ := workspaceSetActivated_mgr s old false
      set s₁ := workspaceSetActivated s old false
      obtain ⟨hp, hc, ha⟩ := workspaceSetActivated_mgr (setCurrent s₁ w) w true
      refine ⟨hp₁.trans ((setCurrent_samePlaces s₁ w).trans hp), hc, fun u => ?_⟩
      have hflag : ((setCurrent s₁ w).mgr.workspace u).activated =
          if u = old then false else (s.mgr.workspace u).activated := ha₁ u
      rw [ha, hflag]
      simp only [Option.some.injEq, @eq_comm _ old u]

theorem workspaceActivate_inv (h : Inv s.mgr) {w : WorkspaceId} (hw : s.mgr.live w = true) :
    Inv (workspaceActivate s w).mgr ∧ (workspaceActivate s w).mgr.order = s.mgr.order := by
  obtain ⟨hp, hc, ha⟩ := workspaceActivate_mgr s w fun hcur => (h.activated w hw).mpr hcur
  refine ⟨⟨h.toArrayOk.samePlaces hp, ⟨fun u hu => ?_⟩, w, hc, by rw [hp.live]; exact hw⟩,
    order_eq hp.slots hp.count⟩
  rw [ha, hc, Option.some.injEq]
  have hold := h.activated u (hp.live ▸ hu)
  split_ifs with huw hcur
  · simp [huw]
  · simp [Ne.symm huw]
  · have hne : w ≠ u := Ne.symm huw
    simp only [hne, iff_false]
    rw [hold]
    exact hcur

/-! ### Creation -/

theorem workspaceAutoAddViews_mgr {w : WorkspaceId} (h : workspaceAutoAddViews s w = some s') :
    s'.mgr = s.mgr := by
  unfold workspaceAutoAddViews at h
  rw [Option.bind_eq_bind, Option.bind_eq_some_iff] at h
  obtain ⟨mem, -, h⟩ := h
  cases h
  rfl

/-- `workspace_create` is rejected, or inserts into the array. -/
theorem workspaceCreate_mgr {name : Option String} {position : ℕ}
    (h : workspaceCreate s name position = some s') :
    (s.mgr.count = MAX_WORKSPACES ∧ s' = s) ∨
    (s.mgr.count ≠ MAX_WORKSPACES ∧ s'.mgr = s.mgr.insert name position) := by
  unfold workspaceCreate at h
  split_ifs at h with hfull
  · cases h
    exact .inl ⟨hfull, rfl⟩
  · exact .inr ⟨hfull, workspaceAutoAddViews_mgr h⟩

/-- `insert_ok` under the whole invariant, when there is room. -/
theorem Manager.Inv.insert_ok {m : Manager} (h : Inv m) (hroom : m.count ≠ MAX_WORKSPACES)
    (name : Option String) (position : ℕ) :
    ArrayOk (m.insert name position) ∧ ActiveOk (m.insert name position) ∧
      (m.insert name position).order = m.order.insertIdx (m.clamped position) m.next ∧
      (m.insert name position).current = m.current ∧
      (m.insert name position).live = Function.update m.live m.next true := by
  obtain ⟨w, hcur, hw⟩ := h.current
  refine Manager.insert_ok h.toArrayOk h.toActiveOk (fun u hu => ?_)
    (lt_of_le_of_ne h.count_le hroom) name position
  rw [hcur, Option.some.injEq] at hu
  exact hu ▸ hw

theorem insert_inv {m : Manager} (h : Inv m) (hroom : m.count ≠ MAX_WORKSPACES)
    (name : Option String) (position : ℕ) :
    Inv (m.insert name position) ∧
      (m.insert name position).order.filter (· ≠ m.next) = m.order.filter (· ≠ m.next) := by
  obtain ⟨hok, hact, horder, hc, hlive⟩ := h.insert_ok hroom name position
  obtain ⟨w, hcur, hw⟩ := h.current
  refine ⟨⟨hok, hact, w, hc.trans hcur, ?_⟩, by rw [horder, filter_insertIdx]⟩
  rw [hlive]
  rcases eq_or_ne w m.next with rfl | hne
  · exact Function.update_self ..
  · rw [Function.update_of_ne hne]
    exact hw

/-! ### Destruction -/

/-- The manager after `workspace_destroy(w)`: closed up, with a successor activated if needed. -/
theorem workspaceDestroy_mgr {w : WorkspaceId} (h : workspaceDestroy s w = some s') :
    ∃ s₁ : State, s₁.mgr = s.mgr.remove w ∧
      (s'.mgr = (s.mgr.remove w).free w ∧
          ((s.mgr.remove w).count = 0 ∨ (s.mgr.remove w).current ≠ some w) ∨
        (s.mgr.remove w).current = some w ∧
          s'.mgr = (workspaceActivate s₁ ((s.mgr.remove w).successor w)).mgr.free w) := by
  unfold workspaceDestroy at h
  rw [Option.bind_eq_bind, Option.bind_eq_some_iff] at h
  obtain ⟨s₂, hfix, h⟩ := h
  cases h
  refine ⟨{ s with mgr := s.mgr.remove w }, rfl, ?_⟩
  unfold fixWorkspace at hfix
  simp only at hfix
  split_ifs at hfix with hzero hcur
  · cases hfix
    exact .inl ⟨rfl, .inl hzero⟩
  · rw [Option.bind_eq_bind, Option.bind_eq_some_iff] at hfix
    obtain ⟨mem, -, hfix⟩ := hfix
    cases hfix
    exact .inr ⟨hcur, rfl⟩
  · rw [Option.bind_eq_bind, Option.bind_eq_some_iff] at hfix
    obtain ⟨mem, -, hfix⟩ := hfix
    cases hfix
    exact .inl ⟨rfl, .inr hcur⟩

/-- The successor of a destroyed workspace is another workspace of the array. -/
theorem successor_ok {m : Manager} (h : ArrayOk m) {w : WorkspaceId} (hw : m.live w = true)
    (hmany : 1 < m.count) :
    (m.remove w).successor w ≠ w ∧ m.live ((m.remove w).successor w) = true := by
  obtain ⟨horder, hok, hkept, hpos⟩ := remove_ok h hw
  obtain ⟨hlt, hslot⟩ := h.slot_position hw
  have hcount : (m.remove w).count = m.count - 1 := by
    have hlen := congrArg List.length horder
    rw [order, length_listing, List.length_eraseIdx_of_lt (by rw [order, length_listing]; exact hlt),
      order, length_listing] at hlen
    exact hlen
  have hin : Function.update m.live w false ((m.remove w).successor w) = true := by
    refine (hok.live_iff _).mpr ⟨_, ?_, rfl⟩
    change (if ((m.remove w).workspace w).position ≠ 0 then _ else _) < (m.remove w).count
    rw [hpos, hcount]
    split_ifs <;> omega
  rcases eq_or_ne ((m.remove w).successor w) w with heq | hne
  · rw [heq, Function.update_self] at hin
    cases hin
  · rw [Function.update_of_ne hne] at hin
    exact ⟨hne, hin⟩

theorem workspaceDestroy_inv (h : Inv s.mgr) {w : WorkspaceId} (hw : s.mgr.live w = true)
    (hmany : 1 < s.mgr.count) (hs : workspaceDestroy s w = some s') :
    Inv s'.mgr ∧ s'.mgr.order.filter (· ≠ w) = s.mgr.order.filter (· ≠ w) := by
  obtain ⟨horder, hok, hkept, -⟩ := remove_ok h.toArrayOk hw
  obtain ⟨hne, htarget⟩ := successor_ok h.toArrayOk hw hmany
  obtain ⟨hlt, hslot⟩ := h.toArrayOk.slot_position hw
  have hget : s.mgr.order[(s.mgr.workspace w).position]? = some w := by
    rw [order, getElem?_listing, if_pos hlt, hslot]
  have hfilter : (s.mgr.remove w).order.filter (· ≠ w) = s.mgr.order.filter (· ≠ w) := by
    rw [horder, filter_eraseIdx _ _ _ hget]
  obtain ⟨s₁, hs₁, hcase⟩ := workspaceDestroy_mgr hs
  set target := (s.mgr.remove w).successor w
  -- in both cases the array is the closed one, and some other workspace is current
  suffices hmain : ∃ m₂ : Manager, s'.mgr = m₂.free w ∧ SamePlaces (s.mgr.remove w) m₂ ∧
      (∃ u, u ≠ w ∧ s.mgr.live u = true ∧ m₂.current = some u) ∧
      ∀ u, u ≠ w → s.mgr.live u = true →
        ((m₂.workspace u).activated = true ↔ m₂.current = some u) by
    obtain ⟨m₂, heq, hp, ⟨u, hu, hul, hcur⟩, hact⟩ := hmain
    have hlive : (m₂.free w).live = Function.update s.mgr.live w false := by
      change Function.update m₂.live w false = _
      rw [hp.live, hkept.live]
    have hplaces : SamePlaces { s.mgr.remove w with live := Function.update s.mgr.live w false }
        (m₂.free w) := ⟨hp.slots, hp.count, hlive, hp.next, hp.position⟩
    rw [heq]
    refine ⟨⟨hok.samePlaces hplaces, ⟨fun v hv => ?_⟩, u, hcur, ?_⟩, ?_⟩
    · rw [hlive] at hv
      rcases eq_or_ne v w with rfl | hvw
      · rw [Function.update_self] at hv
        cases hv
      · rw [Function.update_of_ne hvw] at hv
        exact hact v hvw hv
    · rw [hlive, Function.update_of_ne hu]
      exact hul
    · have horder₂ : (m₂.free w).order = (s.mgr.remove w).order := order_eq hp.slots hp.count
      rw [horder₂]
      exact hfilter
  have hcurrent : (s.mgr.remove w).current = s.mgr.current := hkept.current
  rcases hcase with ⟨heq, hstay⟩ | ⟨hcur, heq⟩
  · refine ⟨s.mgr.remove w, heq, (SameArray.refl _).places, ?_, fun u hu hul => ?_⟩
    · obtain ⟨u, hucur, hul⟩ := h.current
      refine ⟨u, ?_, hul, hcurrent.trans hucur⟩
      rintro rfl
      rcases hstay with hzero | hstay
      · obtain ⟨i, hi, -⟩ := (hok.live_iff target).mp (by
          change Function.update s.mgr.live u false target = true
          rw [Function.update_of_ne hne]
          exact htarget)
        have hi' : i < (s.mgr.remove u).count := hi
        omega
      · exact hstay (hcurrent.trans hucur)
    · rw [hcurrent, ← h.activated u hul]
      exact iff_of_eq (congrArg (· = true) (hkept.activated u))
  · have hact : s₁.mgr.current = some target → (s₁.mgr.workspace target).activated = true := by
      intro hbad
      rw [hs₁, hcur, Option.some.injEq] at hbad
      exact absurd hbad.symm hne
    obtain ⟨hp, hc, ha⟩ := workspaceActivate_mgr s₁ target hact
    rw [hs₁] at hp
    refine ⟨_, heq, hp, ⟨target, hne, htarget, hc⟩, fun u hu hul => ?_⟩
    rw [ha, hc, Option.some.injEq, hs₁, hcur]
    have hold : ((s.mgr.remove w).workspace u).activated = false := by
      have hk := hkept.activated u
      have hiff := h.activated u hul
      rw [← hcurrent, hcur, Option.some.injEq] at hiff
      rw [Bool.eq_false_iff]
      intro htrue
      exact hu (hiff.mp (hk.symm.trans htrue)).symm
    split_ifs with hut huw
    · simp [hut]
    · exact absurd (Option.some.inj huw).symm hu
    · simp [hold, Ne.symm hut]

/-! ### Runs -/

/-- What an event may do to the order of the workspaces: the one it names moves, the rest stays. -/
def KeepsOrder (s : State) (e : Event) (s' : State) : Prop :=
  match e with
  | .workspaceCreate _ _ =>
    s'.mgr.order.filter (· ≠ s.mgr.next) = s.mgr.order.filter (· ≠ s.mgr.next)
  | .workspaceDestroy w => s'.mgr.order.filter (· ≠ w) = s.mgr.order.filter (· ≠ w)
  | .workspaceSetPosition w _ => s'.mgr.order.filter (· ≠ w) = s.mgr.order.filter (· ≠ w)
  | _ => s'.mgr.order = s.mgr.order

theorem onViews_mgr {vs : List ViewId} {mem : Option Membership} (h : onViews s vs mem = some s') :
    s'.mgr = s.mgr := by
  unfold onViews at h
  split_ifs at h
  obtain ⟨m, -, rfl⟩ := Option.map_eq_some_iff.mp h
  rfl

theorem onWorkspace_mgr {v : ViewId} {w : WorkspaceId} {mem : Option Membership}
    (h : onWorkspace s v w mem = some s') : s'.mgr = s.mgr := by
  unfold onWorkspace at h
  split_ifs at h
  exact onViews_mgr h

/-- The events that move no workspace: the manager keeps its array. -/
theorem step_sameArray {e : Event} (hs : step s e = some s')
    (he : match e with
      | .workspaceCreate _ _ | .workspaceDestroy _ | .workspaceActivate _
      | .workspaceSetPosition _ _ => False
      | _ => True) : SameArray s.mgr s'.mgr := by
  have hview : s'.mgr = s.mgr → SameArray s.mgr s'.mgr := fun h => by rw [h]; exact .refl _
  cases e <;> simp only at he <;> rw [step] at hs
  case viewInit v =>
    split at hs
    · cases hs
    · split_ifs at hs
      obtain ⟨m, -, rfl⟩ := Option.map_eq_some_iff.mp hs
      exact .refl _
  case clientBind | clientStop c | clientRelease c w =>
    cases hs
    exact ⟨⟨rfl, rfl, rfl, rfl, fun _ => rfl⟩, rfl, fun _ => rfl⟩
  case viewSetModal v modal => exact hview (onViews_mgr hs)
  case viewSetWorkspace v w => exact hview (onWorkspace_mgr hs)
  case viewUnsetWorkspace v layer => exact hview (onViews_mgr hs)
  case viewAddWorkspace v w => exact hview (onWorkspace_mgr hs)
  case viewRemoveWorkspace v w => exact hview (onWorkspace_mgr hs)
  case viewAddAllWorkspace v => exact hview (onViews_mgr hs)
  case viewSetParent v parent => exact hview (onViews_mgr hs)
  case viewSetKeptAbove v b => exact hview (onViews_mgr hs)
  case viewSetKeptBelow v b => exact hview (onViews_mgr hs)
  case viewReparentFullscreen v b => exact hview (onViews_mgr hs)

/-- One event keeps the invariant of the manager and the order of the other workspaces. -/
theorem mgr_inv_step (h : Inv s.mgr) (e : Event) (hs : step s e = some s') :
    Inv s'.mgr ∧ KeepsOrder s e s' := by
  cases e
  case workspaceCreate name position =>
    rcases workspaceCreate_mgr hs with ⟨-, rfl⟩ | ⟨hroom, hm⟩
    · exact ⟨h, rfl⟩
    · rw [KeepsOrder, hm]
      exact insert_inv h hroom name position
  case workspaceDestroy w =>
    rw [step, Option.ite_none_right_eq_some] at hs
    exact workspaceDestroy_inv h hs.1.1 hs.1.2 hs.2
  case workspaceActivate w =>
    rw [step, Option.ite_none_right_eq_some, Option.some.injEq] at hs
    obtain ⟨hw, rfl⟩ := hs
    exact workspaceActivate_inv h hw
  case workspaceSetPosition w position =>
    rw [step, Option.ite_none_right_eq_some, Option.some.injEq] at hs
    obtain ⟨hw, rfl⟩ := hs
    obtain ⟨hok, hkept, horder⟩ := workspaceSetPosition_ok h.toArrayOk hw position
    refine ⟨⟨hok, h.toActiveOk.kept hkept, ?_⟩, horder⟩
    change ∃ w', (s.mgr.workspaceSetPosition w position).current = some w' ∧
      (s.mgr.workspaceSetPosition w position).live w' = true
    rw [hkept.current, hkept.live]
    exact h.current
  all_goals
    have hsame := step_sameArray hs trivial
    exact ⟨h.sameArray hsame, order_eq hsame.slots hsame.count⟩

/-! ### Start -/

/-- Without views there is nothing to add to a new workspace. -/
theorem workspaceCreate_no_views {m : Manager} (name : Option String) (position : ℕ) :
    ∃ m', workspaceCreate ⟨m, .empty⟩ name position = some ⟨m', .empty⟩ := by
  unfold workspaceCreate
  split_ifs
  · exact ⟨m, rfl⟩
  · exact ⟨m.insert name position, rfl⟩

theorem workspaceActivate_no_views {m : Manager} (w : WorkspaceId) :
    (workspaceActivate ⟨m, .empty⟩ w).mem = .empty := by
  have hset : ∀ (s : State) (u : WorkspaceId) (b : Bool), s.mem = .empty →
      (workspaceSetActivated s u b).mem = .empty := by
    intro s u b h
    unfold workspaceSetActivated
    split_ifs
    · exact h
    · rw [h]
      rfl
  unfold workspaceActivate
  split_ifs
  · rfl
  · cases m.current with
    | none => exact hset _ _ _ rfl
    | some old => exact hset _ _ _ (hset _ _ _ rfl)

/-- The manager with the default workspace only. -/
def firstManager : Manager :=
  (workspaceActivate ⟨Manager.empty.insert none 0, .empty⟩ Manager.empty.next).mgr

theorem firstManager_inv : Inv firstManager := by
  have hempty : ArrayOk Manager.empty := by
    refine ⟨by decide, fun i hi => ?_, fun w => ?_, fun i hi => ?_, fun w hw => ?_⟩
    · simp [Manager.empty] at hi
    · simp [Manager.empty]
    · simp [Manager.empty] at hi
    · simp [Manager.empty] at hw
  have hidle : ActiveOk Manager.empty := ⟨fun w hw => by simp [Manager.empty] at hw⟩
  obtain ⟨hok, hact, -, hcur, hlive⟩ := insert_ok hempty hidle (by simp [Manager.empty]) (by decide)
    none 0
  set s₁ : State := ⟨Manager.empty.insert none 0, .empty⟩ with hs₁
  have hw : s₁.mgr.live Manager.empty.next = true := by
    change (Manager.empty.insert none 0).live Manager.empty.next = true
    rw [hlive, Function.update_self]
  have hnone : s₁.mgr.current = none := hcur
  obtain ⟨hp, hc, ha⟩ := workspaceActivate_mgr s₁ Manager.empty.next (by rw [hnone]; simp)
  change Inv (workspaceActivate s₁ Manager.empty.next).mgr
  refine ⟨hok.samePlaces hp, ⟨fun u hu => ?_⟩, _, hc, by rw [hp.live]; exact hw⟩
  rw [hp.live] at hu
  change (Manager.empty.insert none 0).live u = true at hu
  rw [hlive] at hu
  rcases eq_or_ne u Manager.empty.next with rfl | hne
  · rw [ha, hc]
    simp
  · rw [Function.update_of_ne hne] at hu
    simp [Manager.empty] at hu

/-- `handle_server_ready` appends the configured workspaces to the default one; `J i` is what holds
    before the creation at position `i`. -/
theorem handleServerReady_ok (n : ℕ) {J : ℕ → Manager → Prop} (hfirst : J 1 firstManager)
    (hcreate : ∀ (i : ℕ) (m m' : Manager), Inv m → J i m →
      workspaceCreate ⟨m, .empty⟩ none i = some ⟨m', .empty⟩ → J (i + 1) m') :
    ∃ m, handleServerReady n = some ⟨m, .empty⟩ ∧ Inv m ∧ ∃ i, J i m := by
  have hrest : ∀ (k i : ℕ) (m : Manager), Inv m → J i m →
      ∃ m', (List.range' i k).foldlM (fun s i => workspaceCreate s none i) (⟨m, .empty⟩ : State) =
        some ⟨m', .empty⟩ ∧ Inv m' ∧ ∃ i, J i m' := by
    intro k
    induction k with
    | zero => exact fun i m h hj => ⟨m, rfl, h, i, hj⟩
    | succ k ih =>
      intro i m h hj
      obtain ⟨m', hm'⟩ := workspaceCreate_no_views (m := m) none i
      have hinv' : Inv m' := (mgr_inv_step (s := ⟨m, .empty⟩) h (.workspaceCreate none i) hm').1
      obtain ⟨m'', hm'', h''⟩ := ih (i + 1) m' hinv' (hcreate i m m' h hj hm')
      exact ⟨m'', by rw [List.range'_succ, List.foldlM_cons, hm']; exact hm'', h''⟩
  obtain ⟨m, hm, hinv, hj⟩ := hrest (n - 1) 1 firstManager firstManager_inv hfirst
  refine ⟨m, ?_, hinv, hj⟩
  have hmem : (workspaceActivate ⟨Manager.empty.insert none 0, .empty⟩ Manager.empty.next).mem =
      .empty := workspaceActivate_no_views _
  have hstate : workspaceActivate ⟨Manager.empty.insert none 0, .empty⟩ Manager.empty.next =
      ⟨firstManager, .empty⟩ := by
    rw [← hmem]
    rfl
  rw [← hstate] at hm
  exact hm

/-- From `handle_server_ready` on, in every run: there are between one and `MAX_WORKSPACES`
    workspaces, the used slots hold the live ones, each once and at its own position, exactly the
    current one is activated, and every event keeps the order of the workspaces it does not name. -/
theorem workspace_array (n : ℕ) :
    ∃ s₀, handleServerReady n = some s₀ ∧ ∀ s, Reach step Always s₀ s →
      (1 ≤ s.mgr.count ∧ s.mgr.count ≤ MAX_WORKSPACES) ∧
      s.mgr.order.Nodup ∧
      (∀ w, s.mgr.live w = true ↔ w ∈ s.mgr.order) ∧
      (∀ i < s.mgr.count, (s.mgr.workspace (s.mgr.slots i)).position = i) ∧
      (∃ w ∈ s.mgr.order, s.mgr.current = some w) ∧
      (∀ w ∈ s.mgr.order, (s.mgr.workspace w).activated = true ↔ s.mgr.current = some w) ∧
      ∀ e s', step s e = some s' → KeepsOrder s e s' := by
  obtain ⟨m, hready, hm, -⟩ := handleServerReady_ok n (J := fun _ _ => True) trivial
    fun _ _ _ _ _ _ => trivial
  refine ⟨_, hready, fun s hreach => ?_⟩
  have h : Inv s.mgr := hreach.inv (I := fun s => Inv s.mgr) hm
    fun s e s' hi _ hs => (mgr_inv_step hi e hs).1
  have hmem : ∀ w, s.mgr.live w = true ↔ w ∈ s.mgr.order := fun w =>
    (h.live_iff w).trans mem_listing.symm
  obtain ⟨w, hcur, hw⟩ := h.current
  exact ⟨⟨h.count_pos, h.count_le⟩, nodup_listing.mpr h.distinct, hmem, h.position,
    ⟨w, (hmem w).mp hw, hcur⟩, fun w hw => h.activated w ((hmem w).mpr hw),
    fun e s' hs => (mgr_inv_step h e hs).2⟩

end FlakeWm.Workspaces
