import FlakeWm.ShowDesktop.Model

/-! Showing the desktop and going back leaves every window as it was.

    While no mode but the desktop's is on and nothing is to be authenticated, an activation only takes
    windows that are not minimised, so all that is called on the way changes nothing but what is active:
    `Same`. What the two loops do to a window is then a function of the window alone. -/

namespace FlakeWm.ShowDesktop

variable {s s' s'' : Manager} {v n : ℕ}

/-! ### Windows -/

/-- A view but for whether it is active. -/
def window (view : View) : View := { view with activated := false }

theorem minimized_of_window {a b : View} (h : window a = window b) : a.minimized = b.minimized :=
  (congrArg View.minimized h : (window a).minimized = (window b).minimized)

theorem workspace_of_window {a b : View} (h : window a = window b) : a.workspace = b.workspace :=
  (congrArg View.workspace h : (window a).workspace = (window b).workspace)

/-- The managers differ in what is active, and in the view `v` as said. -/
structure ChangedAt (s s' : Manager) (v : ℕ) (view : View) : Prop where
  proxies : s'.proxies = s.proxies
  current : s'.current = s.current
  globalAuthentication : s'.globalAuthentication = s.globalAuthentication
  showDesktop : s'.showDesktop = s.showDesktop
  showActiveOnly : s'.showActiveOnly = s.showActiveOnly
  here : window (s'.view v) = window view
  elsewhere : ∀ v' ≠ v, window (s'.view v') = window (s.view v')

/-- The managers differ in what is active. -/
structure Same (s s' : Manager) : Prop where
  proxies : s'.proxies = s.proxies
  current : s'.current = s.current
  globalAuthentication : s'.globalAuthentication = s.globalAuthentication
  showDesktop : s'.showDesktop = s.showDesktop
  showActiveOnly : s'.showActiveOnly = s.showActiveOnly
  windows : ∀ v, window (s'.view v) = window (s.view v)

theorem Same.refl (s : Manager) : Same s s := ⟨rfl, rfl, rfl, rfl, rfl, fun _ => rfl⟩

theorem Same.trans (h : Same s s') (h' : Same s' s'') : Same s s'' where
  proxies := h'.proxies.trans h.proxies
  current := h'.current.trans h.current
  globalAuthentication := h'.globalAuthentication.trans h.globalAuthentication
  showDesktop := h'.showDesktop.trans h.showDesktop
  showActiveOnly := h'.showActiveOnly.trans h.showActiveOnly
  windows v := (h'.windows v).trans (h.windows v)

theorem Same.minimized (h : Same s s') (v : ℕ) : (s'.view v).minimized = (s.view v).minimized :=
  minimized_of_window (h.windows v)

theorem Same.workspace (h : Same s s') (v : ℕ) : (s'.view v).workspace = (s.view v).workspace :=
  workspace_of_window (h.windows v)

@[simp] theorem setView_self (s : Manager) (v : ℕ) (view : View) : (s.setView v view).view v = view := by
  simp [Manager.setView]

theorem ChangedAt.same (h : ChangedAt s s' v (s.view v)) : Same s s' := by
  refine ⟨h.proxies, h.current, h.globalAuthentication, h.showDesktop, h.showActiveOnly, fun v' => ?_⟩
  by_cases hne : v' = v
  · rw [hne]
    exact h.here
  · exact h.elsewhere v' hne

theorem setView_changedAt (s : Manager) (v : ℕ) (view : View) : ChangedAt s (s.setView v view) v view := by
  refine ⟨rfl, rfl, rfl, rfl, rfl, ?_, fun v' hne => ?_⟩
  · rw [setView_self]
  · exact congrArg window (Function.update_of_ne hne _ _)

theorem ChangedAt.trans_same {view : View} (h : ChangedAt s s' v view) (h' : Same s' s'') : ChangedAt s s'' v view where
  proxies := h'.proxies.trans h.proxies
  current := h'.current.trans h.current
  globalAuthentication := h'.globalAuthentication.trans h.globalAuthentication
  showDesktop := h'.showDesktop.trans h.showDesktop
  showActiveOnly := h'.showActiveOnly.trans h.showActiveOnly
  here := (h'.windows v).trans h.here
  elsewhere v' hne := (h'.windows v').trans (h.elsewhere v' hne)

theorem ChangedAt.trans {view view' : View} (h : ChangedAt s s' v view) (h' : ChangedAt s' s'' v view') :
    ChangedAt s s'' v view' where
  proxies := h'.proxies.trans h.proxies
  current := h'.current.trans h.current
  globalAuthentication := h'.globalAuthentication.trans h.globalAuthentication
  showDesktop := h'.showDesktop.trans h.showDesktop
  showActiveOnly := h'.showActiveOnly.trans h.showActiveOnly
  here := h'.here
  elsewhere v' hne := (h'.elsewhere v' hne).trans (h.elsewhere v' hne)

/-! ### Activation -/

/-- Nothing is to be authenticated, not only the active window is shown, and the views of the current
    workspace are on it. -/
structure Quiet (s : Manager) : Prop where
  globalAuthentication : s.globalAuthentication = none
  showActiveOnly : s.showActiveOnly = false
  workspace : ∀ v ∈ s.proxies s.current, (s.view v).workspace = some s.current

theorem Quiet.changedAt {view : View} (h : Quiet s) (hchange : ChangedAt s s' v view)
    (hworkspace : view.workspace = (s.view v).workspace) : Quiet s' := by
  refine ⟨hchange.globalAuthentication.trans h.globalAuthentication, hchange.showActiveOnly.trans h.showActiveOnly,
    fun v' hmem => ?_⟩
  rw [hchange.proxies, hchange.current] at hmem
  rw [hchange.current, ← h.workspace v' hmem]
  by_cases hne : v' = v
  · rw [hne]
    exact (workspace_of_window hchange.here).trans hworkspace
  · exact workspace_of_window (hchange.elsewhere v' hne)

theorem Quiet.same (h : Quiet s) (hsame : Same s s') : Quiet s' :=
  h.changedAt (v := 0) ⟨hsame.proxies, hsame.current, hsame.globalAuthentication, hsame.showDesktop,
    hsame.showActiveOnly, hsame.windows 0, fun v _ => hsame.windows v⟩ rfl

/-- Activating a window that is not minimised, or deactivating any. -/
theorem setActivated_same (n : ℕ) (s : Manager) (v : ℕ) (activated : Bool)
    (h : activated = true → (s.view v).minimized = false) :
    ∃ s', run (n + 1) (.setActivated v activated) s = some s' ∧ Same s s' := by
  have hcond : ((s.view v).minimized && activated) = false := by
    cases activated with
    | false => exact Bool.and_false _
    | true => rw [h rfl, Bool.false_and]
  rw [run_setActivated]
  by_cases heq : (s.view v).activated = activated
  · exact ⟨s, if_pos heq, .refl s⟩
  · rw [if_neg heq]
    dsimp only
    rw [hcond]
    refine ⟨_, rfl, rfl, rfl, rfl, rfl, rfl, fun v' => ?_⟩
    by_cases hne : v' = v
    · rw [hne, setView_self]
      rfl
    · exact congrArg window (Function.update_of_ne hne _ _)

theorem hideFullscreenView_same (n : ℕ) (s : Manager) :
    ∃ s', run (n + 2) .hideFullscreenView s = some s' ∧ Same s s' := by
  rw [run_hideFullscreenView]
  cases s.activated with
  | none => exact ⟨s, rfl, .refl s⟩
  | some v =>
    dsimp only [callIf]
    split_ifs
    · exact setActivated_same n s _ false nofun
    · exact ⟨s, rfl, .refl s⟩

/-- Activating a window of the current workspace that is not minimised. -/
theorem doActivate_same (n : ℕ) (h : Quiet s) (hmem : v ∈ s.proxies s.current)
    (hminimized : (s.view v).minimized = false) : ∃ s', run (n + 2) (.doActivate v) s = some s' ∧ Same s s' := by
  have hlast : ∃ s₁, (s.activated.elim (some s) fun last => run (n + 1) (.setActivated last false) s) = some s₁ ∧
      Same s s₁ := by
    cases s.activated with
    | none => exact ⟨s, rfl, .refl s⟩
    | some last => exact setActivated_same n s last false nofun
  obtain ⟨s₁, hs₁, hsame₁⟩ := hlast
  obtain ⟨s₂, hs₂, hsame₂⟩ := setActivated_same n s₁ v true fun _ => (hsame₁.minimized v).trans hminimized
  have hstay : ∀ {t : Manager}, Same s t → ((t.view v).workspace.elim (some t) fun w =>
      callIf (decide (w ≠ t.current)) (run (n + 1) (.workspaceActivate w)) t) = some t := by
    intro t hsame
    rw [hsame.workspace v, h.workspace v hmem, hsame.current, Option.elim_some, callIf,
      decide_eq_false (not_not.2 rfl), if_neg Bool.false_ne_true]
  rw [run_doActivate, h.showActiveOnly]
  split_ifs with hactivatable hactive
  · exact ⟨s, rfl, .refl s⟩
  · refine ⟨s₂, ?_, hsame₁.trans hsame₂⟩
    dsimp only [callIf]
    rw [if_neg Bool.false_ne_true, Option.bind_some, hs₁, Option.bind_some, hs₂, Option.bind_some]
    exact hstay (hsame₁.trans hsame₂)
  · exact ⟨s, hstay (.refl s), .refl s⟩

theorem activateTopmost_same (n : ℕ) (h : Quiet s) : ∃ s', run (n + 3) .activateTopmost s = some s' ∧ Same s s' := by
  rw [run_activateTopmost, h.globalAuthentication]
  dsimp only
  cases htop : (s.proxies s.current).find? fun v =>
      (s.view v).mapped && !(s.view v).minimized && (s.view v).activatable with
  | none => exact hideFullscreenView_same n s
  | some v =>
    dsimp only
    split_ifs
    · exact hideFullscreenView_same n s
    · have hv := List.find?_some htop
      simp only [Bool.and_eq_true, Bool.not_eq_true'] at hv
      exact doActivate_same n h (List.mem_of_find?_eq_some htop) hv.1.2

theorem activatedViewMinimized_same (n : ℕ) (h : Quiet s) :
    ∃ s', run (n + 4) .activatedViewMinimized s = some s' ∧ Same s s' := by
  rw [run_activatedViewMinimized]
  cases s.activated with
  | none => exact ⟨s, rfl, .refl s⟩
  | some v =>
    dsimp only
    split_ifs
    · exact ⟨s, rfl, .refl s⟩
    · obtain ⟨s₁, hs₁, hsame₁⟩ := setActivated_same (n + 2) s v false nofun
      obtain ⟨s₂, hs₂, hsame₂⟩ := activateTopmost_same n (h.same hsame₁)
      refine ⟨s₂, ?_, hsame₁.trans hsame₂⟩
      rw [hs₁]
      exact hs₂

/-! ### Minimising -/

/-- Minimising, and restoring while the desktop is not shown, changes the one window. -/
theorem doMinimized_changes (n : ℕ) (h : Quiet s) (v : ℕ) (minimized : Bool)
    (hdesktop : minimized = false → s.showDesktop = false) :
    ∃ s', run (n + 5) (.doMinimized v minimized) s = some s' ∧
      ChangedAt s s' v { s.view v with minimized := minimized } := by
  rw [run_doMinimized]
  split_ifs with heq
  · refine ⟨s, rfl, rfl, rfl, rfl, rfl, rfl, ?_, fun _ _ => rfl⟩
    rw [← heq]
  · have hset := setView_changedAt s v { s.view v with minimized := minimized }
    dsimp only
    split_ifs
    · exact ⟨_, rfl, hset⟩
    · have hquiet := h.changedAt hset rfl
      have hemit : ∀ t, Quiet t → ∃ t', callIf (decide (t.activated = some v)) (run (n + 4) .activatedViewMinimized) t =
          some t' ∧ Same t t' := by
        intro t ht
        rw [callIf]
        split_ifs
        · exact activatedViewMinimized_same n ht
        · exact ⟨_, rfl, .refl _⟩
      obtain ⟨t, ht, hsame⟩ := hemit _ hquiet
      refine ⟨t, ?_, hset.trans_same hsame⟩
      have hminimized : (t.view v).minimized = minimized := by
        rw [hsame.minimized v, setView_self]
      rw [ht, Option.bind_some, hminimized]
      cases minimized with
      | true => rfl
      | false =>
        rw [if_neg Bool.false_ne_true, hsame.showDesktop, hset.showDesktop, hdesktop rfl, callIf,
          if_neg Bool.false_ne_true, Option.bind_some, hsame.showActiveOnly, hset.showActiveOnly, h.showActiveOnly,
          callIf, if_neg Bool.false_ne_true]

theorem requestMinimized_changes (n : ℕ) (h : Quiet s) (v : ℕ) (minimized : Bool)
    (hdesktop : minimized = false → s.showDesktop = false) :
    ∃ s', run (n + 6) (.requestMinimized v minimized) s = some s' ∧
      ChangedAt s s' v (if s.viewIsMinimizable v then { s.view v with minimized := minimized } else s.view v) := by
  rw [run_requestMinimized, callIf]
  split_ifs
  · exact doMinimized_changes n h v minimized hdesktop
  · exact ⟨s, rfl, rfl, rfl, rfl, rfl, rfl, rfl, fun _ _ => rfl⟩

/-! ### The two loops -/

/-- What showing the desktop does to a window. -/
def hide (view : View) : View :=
  if view.mapped then
    { view with minimizedWhenShowDesktop := !view.minimized, minimized := view.minimized || view.minimizable }
  else view

/-- What going back does to a window. -/
def restore (view : View) : View :=
  if view.mapped && view.minimizedWhenShowDesktop then
    { view with minimized := view.minimized && !view.minimizable, minimizedWhenShowDesktop := false }
  else view

/-- A window with the flag is minimisable whatever its family. -/
theorem viewIsMinimizable_flagged (h : (s.view v).minimizedWhenShowDesktop = true) :
    s.viewIsMinimizable v = (s.view v).minimizable := by
  rw [Manager.viewIsMinimizable, h]
  cases (s.view v).minimizable <;> rfl

/-- The flag is set first, and then the window is minimised if it can be. -/
theorem hide_eq (view : View) (hmapped : view.mapped = true) (minimizable : Bool)
    (h : view.minimized = false → minimizable = view.minimizable) :
    (if minimizable then { view with minimizedWhenShowDesktop := !view.minimized, minimized := true }
      else { view with minimizedWhenShowDesktop := !view.minimized }) = hide view := by
  obtain ⟨mapped, minimized, able, _⟩ := view
  obtain rfl : mapped = true := hmapped
  cases minimized with
  | true => cases minimizable <;> rfl
  | false =>
    obtain rfl : minimizable = able := h rfl
    cases minimizable <;> rfl

theorem restore_eq (view : View) (hmapped : view.mapped = true) (hflag : view.minimizedWhenShowDesktop = true) :
    (if view.minimizable then { view with minimized := false, minimizedWhenShowDesktop := false }
      else { view with minimizedWhenShowDesktop := false }) = restore view := by
  rw [restore, hmapped, hflag, Bool.and_self, if_pos rfl]
  cases hminimizable : view.minimizable with
  | true => simp
  | false => simp

theorem hide_changes (n : ℕ) (h : Quiet s) (v : ℕ) :
    ∃ s', showDesktopView (fun v s => run (n + 6) (.requestMinimized v true) s) true true s v = some s' ∧
      ChangedAt s s' v (hide (s.view v)) := by
  rw [showDesktopView]
  cases hmapped : (s.view v).mapped with
  | false =>
    have hhide : hide (s.view v) = s.view v := by rw [hide, hmapped, if_neg Bool.false_ne_true]
    exact ⟨s, rfl, rfl, rfl, rfl, rfl, rfl, congrArg window hhide.symm, fun _ _ => rfl⟩
  | true =>
    have hset := setView_changedAt s v { s.view v with minimizedWhenShowDesktop := !(s.view v).minimized }
    obtain ⟨s', hs', hchange⟩ := requestMinimized_changes n (h.changedAt hset rfl) v true nofun
    refine ⟨s', ?_, ?_⟩
    · rw [Bool.not_true, if_neg Bool.false_ne_true, Bool.false_and, if_neg Bool.false_ne_true]
      dsimp only
      rw [if_pos rfl, Bool.true_or, callIf, if_pos rfl, hs']
      rfl
    · have hall := hset.trans hchange
      rw [setView_self] at hall
      have hflagged : (s.view v).minimized = false →
          (s.setView v { s.view v with minimizedWhenShowDesktop := !(s.view v).minimized }).viewIsMinimizable v =
            (s.view v).minimizable := by
        intro hminimized
        rw [viewIsMinimizable_flagged (by rw [setView_self, hminimized, Bool.not_false]), setView_self]
      rw [← hide_eq (s.view v) hmapped _ hflagged]
      exact hall

theorem restore_changes (n : ℕ) (h : Quiet s) (hdesktop : s.showDesktop = false) (v : ℕ) :
    ∃ s', showDesktopView (fun v s => run (n + 6) (.requestMinimized v false) s) false true s v = some s' ∧
      ChangedAt s s' v (restore (s.view v)) := by
  rw [showDesktopView]
  cases hmapped : (s.view v).mapped with
  | false =>
    have hrestore : restore (s.view v) = s.view v := by rw [restore, hmapped, Bool.false_and, if_neg Bool.false_ne_true]
    exact ⟨s, rfl, rfl, rfl, rfl, rfl, rfl, congrArg window hrestore.symm, fun _ _ => rfl⟩
  | true =>
    cases hflag : (s.view v).minimizedWhenShowDesktop with
    | false =>
      have hrestore : restore (s.view v) = s.view v := by rw [restore, hflag, Bool.and_false, if_neg Bool.false_ne_true]
      exact ⟨s, rfl, rfl, rfl, rfl, rfl, rfl, congrArg window hrestore.symm, fun _ _ => rfl⟩
    | true =>
      obtain ⟨s', hs', hchange⟩ := requestMinimized_changes n h v false fun _ => hdesktop
      have hset := setView_changedAt s' v { s'.view v with minimizedWhenShowDesktop := false }
      have hall := hchange.trans hset
      refine ⟨s'.setView v { s'.view v with minimizedWhenShowDesktop := false }, ?_, hall.proxies, hall.current,
        hall.globalAuthentication, hall.showDesktop, hall.showActiveOnly, ?_, hall.elsewhere⟩
      · rw [Bool.not_true, if_neg Bool.false_ne_true, Bool.not_false, Bool.true_and, if_neg Bool.false_ne_true]
        dsimp only
        rw [if_neg Bool.false_ne_true, Bool.true_or, callIf, if_pos rfl, hs']
        rfl
      · have hhere := hchange.here
        rw [viewIsMinimizable_flagged hflag] at hhere
        have hwindow : ∀ view : View, window { view with minimizedWhenShowDesktop := false } =
            { window view with minimizedWhenShowDesktop := false } := fun _ => rfl
        rw [hall.here, hwindow, hhere, ← restore_eq _ hmapped hflag]
        split_ifs <;> rfl

/-- A loop over different views of the current workspace that changes each of them alike. -/
theorem foldlM_changes (change : View → View) {body : Manager → ℕ → Option Manager} {desktop : Bool}
    (hwindow : ∀ view, window (change view) = change (window view))
    (hworkspace : ∀ view, (change view).workspace = view.workspace)
    (hbody : ∀ s v, Quiet s → s.showDesktop = desktop → ∃ s', body s v = some s' ∧
      ChangedAt s s' v (change (s.view v))) :
    ∀ (l : List ℕ) (s : Manager), l.Nodup → Quiet s → s.showDesktop = desktop →
      ∃ s', l.foldlM body s = some s' ∧ Quiet s' ∧ s'.showDesktop = desktop ∧ s'.proxies = s.proxies ∧
        s'.current = s.current ∧
        ∀ v, window (s'.view v) = if v ∈ l then change (window (s.view v)) else window (s.view v)
  | [], s, _, hquiet, hdesktop => ⟨s, rfl, hquiet, hdesktop, rfl, rfl, fun _ => (if_neg List.not_mem_nil).symm⟩
  | v :: l, s, hnodup, hquiet, hdesktop => by
      obtain ⟨hnot, hnodup⟩ := List.nodup_cons.1 hnodup
      obtain ⟨s₁, hs₁, hchange⟩ := hbody s v hquiet hdesktop
      have hquiet₁ := hquiet.changedAt hchange (hworkspace _)
      obtain ⟨s', hs', hquiet', hdesktop', hproxies, hcurrent, hviews⟩ :=
        foldlM_changes change hwindow hworkspace hbody l s₁ hnodup hquiet₁ (hchange.showDesktop.trans hdesktop)
      refine ⟨s', ?_, hquiet', hdesktop', hproxies.trans hchange.proxies, hcurrent.trans hchange.current, fun v' => ?_⟩
      · rw [List.foldlM_cons, Option.bind_eq_bind, hs₁]
        exact hs'
      · rw [hviews v']
        by_cases hne : v' = v
        · subst hne
          rw [if_neg hnot, if_pos List.mem_cons_self, hchange.here, hwindow]
        · rw [hchange.elsewhere v' hne]
          simp only [List.mem_cons, hne, false_or]

/-- Showing the desktop and going back at once leaves every window minimised or not as it was, and no window
    with the flag. -/
theorem show_desktop_twice (s : Manager) (n : ℕ) (hdesktop : s.showDesktop = false)
    (hactive : s.showActiveOnly = false) (hauthentication : s.globalAuthentication = none)
    (hnodup : (s.proxies s.current).Nodup)
    (hworkspace : ∀ v ∈ s.proxies s.current, (s.view v).workspace = some s.current)
    (hflags : ∀ v, (s.view v).minimizedWhenShowDesktop = false) :
    ∃ s₁ s₂, run (n + 7) (.showDesktop true true) s = some s₁ ∧ run (n + 7) (.showDesktop false true) s₁ = some s₂ ∧
      ∀ v, (s₂.view v).minimized = (s.view v).minimized ∧ (s₂.view v).minimizedWhenShowDesktop = false := by
  have hquiet : Quiet { s with showDesktop := true } := ⟨hauthentication, hactive, hworkspace⟩
  obtain ⟨s₁, hs₁, hquiet₁, hdesktop₁, hproxies₁, hcurrent₁, hviews₁⟩ := foldlM_changes hide
    (by intro view; rw [hide, hide]; cases hm : view.mapped <;> simp [window, hm])
    (by intro view; rw [hide]; split_ifs <;> rfl) (fun s v hquiet _ => hide_changes n hquiet v)
    (s.proxies s.current).reverse { s with showDesktop := true } (List.nodup_reverse.2 hnodup) hquiet rfl
  have hquiet₂ : Quiet { s₁ with showDesktop := false } :=
    ⟨hquiet₁.globalAuthentication, hquiet₁.showActiveOnly, hquiet₁.workspace⟩
  obtain ⟨s₂, hs₂, hquiet₃, -, -, -, hviews₂⟩ := foldlM_changes restore
    (by intro view; rw [restore, restore]; cases hm : view.mapped <;> cases hf : view.minimizedWhenShowDesktop <;>
          simp [window, hm, hf])
    (by intro view; rw [restore]; split_ifs <;> rfl) (fun s v hquiet hdesktop => restore_changes n hquiet hdesktop v)
    (s₁.proxies s₁.current).reverse { s₁ with showDesktop := false }
    (by rw [hproxies₁, hcurrent₁]; exact List.nodup_reverse.2 hnodup) hquiet₂ rfl
  obtain ⟨s₃, hs₃, hsame⟩ := activateTopmost_same (n + 3) hquiet₃
  refine ⟨s₁, s₃, ?_, ?_, fun v => ?_⟩
  · rw [run_showDesktop, hdesktop, if_neg Bool.false_ne_true]
    dsimp only
    rw [hs₁]
    rfl
  · rw [run_showDesktop, hdesktop₁, if_neg Bool.false_ne_true.symm]
    dsimp only
    rw [hs₂]
    exact hs₃
  · have hwindow := hsame.windows v
    rw [hviews₂ v, hviews₁ v] at hwindow
    simp only [hproxies₁, hcurrent₁, List.mem_reverse] at hwindow
    have hflag : (window (s.view v)).minimizedWhenShowDesktop = false := hflags v
    have hgoal : (window (s₃.view v)).minimized = (window (s.view v)).minimized ∧
        (window (s₃.view v)).minimizedWhenShowDesktop = false := by
      rw [hwindow]
      split_ifs
      · generalize window (s.view v) = view at hflag
        cases hm : view.mapped <;> cases hn : view.minimized <;> cases ho : view.minimizable <;>
          simp [hide, restore, hm, hn, ho, hflag]
      · exact ⟨rfl, hflag⟩
    exact hgoal

/-- A window with a modal dialog, which is active. -/
def windowWithDialog : Manager where
  view v := if v = 0 then { children := [1], workspace := some 0 }
    else { modal := true, activated := true, parent := some 0, workspace := some 0 }
  proxies _ := [1, 0]
  current := 0
  activated := some 1
  depth := 2

/-- The window that is not minimisable otherwise is minimised, and both are restored. -/
theorem dialog_shown_again : ∃ s₁ s₂, run 7 (.showDesktop true true) windowWithDialog = some s₁ ∧
    run 7 (.showDesktop false true) s₁ = some s₂ ∧ ∀ v,
      (s₂.view v).minimized = (windowWithDialog.view v).minimized ∧ (s₂.view v).minimizedWhenShowDesktop = false := by
  refine show_desktop_twice windowWithDialog 0 rfl rfl rfl (by decide) (by decide) fun v => ?_
  show (if v = 0 then _ else _ : View).minimizedWhenShowDesktop = false
  split_ifs <;> rfl

end FlakeWm.ShowDesktop
