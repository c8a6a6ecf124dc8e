import FlakeWm.Views.Model

/-! Outstanding configures.

    A configure that changes the size is outstanding until a commit acknowledges it or its timer
    fires. `Finishing` says that nothing is outstanding without a timer and a mapped view, and what
    follows from that for a view that is mapped again: its placement is carried out and no commit
    moves it to a geometry from before the unmap. `view_unmap` removes the timer and forgets the
    rest, so this holds along the runs that unmap a view only while nothing is outstanding. -/

namespace FlakeWm.Views

variable {layout : Layout} {view : View} {serial : UInt32}

/-! ### Actions -/

@[simp] theorem viewActionChangeSize_empty : viewActionChangeSize ∅ = false := by
  simp [viewActionChangeSize]

/-- Only the bits that name no size are left out of `view_action_change_size`. -/
theorem viewActionChangeSize_iff (action : Actions) :
    viewActionChangeSize action = true ↔
      ∃ a ∈ action, a ≠ .activate ∧ a ≠ .minimize ∧ a ≠ .move := by
  rw [viewActionChangeSize, decide_eq_true_iff, ← Finset.nonempty_iff_ne_empty]
  constructor
  · rintro ⟨a, ha⟩
    rw [Finset.mem_sdiff] at ha
    exact ⟨a, ha.1, by simpa using ha.2⟩
  · rintro ⟨a, ha, h⟩
    exact ⟨a, Finset.mem_sdiff.2 ⟨ha, by simpa using h⟩⟩

theorem viewActionChangeSize_insert {action : Actions} {a : ViewAction}
    (ha : a = .activate ∨ a = .minimize ∨ a = .move)
    (h : viewActionChangeSize (insert a action) = true) : viewActionChangeSize action = true := by
  rw [viewActionChangeSize_iff] at h ⊢
  obtain ⟨b, hb, h⟩ := h
  rcases Finset.mem_insert.1 hb with rfl | hb
  · rcases ha with rfl | rfl | rfl <;> simp at h
  · exact ⟨b, hb, h⟩

/-- What `xdg_view_configure` leaves of an action changes the size, as its assertion says. -/
theorem viewActionChangeSize_of_dropDirect (h : view.dropDirect.pending.action ≠ ∅) :
    viewActionChangeSize view.pending.action = true := by
  obtain ⟨a, ha⟩ := Finset.nonempty_iff_ne_empty.2 h
  simp only [View.dropDirect, Finset.mem_erase] at ha
  exact (viewActionChangeSize_iff _).2 ⟨a, ha.2.2.2, ha.2.1, ha.2.2.1, ha.1⟩

/-! ### Moves -/

/-- `view'` may differ from `view` in geometry, output and saved state, not in what it has asked for
    and what is outstanding. -/
structure SameRequests (view view' : View) : Prop where
  mapped : view'.mapped = view.mapped
  pending : view'.pending = view.pending
  requests : view'.requests = view.requests

theorem viewUpdateOutput_same (layout : Layout) (view : View) :
    SameRequests view (viewUpdateOutput layout view) := by
  unfold viewUpdateOutput
  dsimp only
  split_ifs <;> exact ⟨rfl, rfl, rfl⟩

@[simp] theorem viewUpdateOutput_geometry :
    (viewUpdateOutput layout view).geometry = view.geometry := by
  unfold viewUpdateOutput
  dsimp only
  split_ifs <;> rfl

theorem viewHelperMove_same (x y : ℤ) : SameRequests view (viewHelperMove layout view x y) := by
  have h := viewUpdateOutput_same layout
    { view with geometry := { view.geometry with x := x, y := y } }
  exact ⟨h.mapped, h.pending, h.requests⟩

@[simp] theorem viewHelperMove_geometry (x y : ℤ) :
    (viewHelperMove layout view x y).geometry = { view.geometry with x := x, y := y } :=
  viewUpdateOutput_geometry

theorem viewUpdateSize_same (layout : Layout) (view : View) (size : Size) :
    SameRequests view (viewUpdateSize layout view size) := by
  unfold viewUpdateSize
  dsimp only
  split_ifs
  · have h := viewUpdateOutput_same layout { view with
      geometry := { view.geometry with width := size.width, height := size.height }
      minWidth := size.minWidth
      minHeight := size.minHeight
      maxWidth := size.maxWidth
      maxHeight := size.maxHeight }
    exact ⟨h.mapped, h.pending, h.requests⟩
  · exact ⟨rfl, rfl, rfl⟩

theorem viewHandleOutputDestroy_same (layout : Layout) (view : View) :
    SameRequests view (viewHandleOutputDestroy layout view) := by
  unfold viewHandleOutputDestroy
  split_ifs <;> exact ⟨rfl, rfl, rfl⟩

/-! ### The invariant -/

/-- What is outstanding has a timer and a mapped view and was asked for since the last unmap, and so
    was the size that waits in `pending.geometry`. -/
structure Tracked (view : View) : Prop where
  finishes : view.pending.configureAction ≠ ∅ →
    view.mapped = true ∧ view.pending.configureTimeout = true
  recent : view.pending.configureAction ≠ ∅ → view.pending.configureGeometry ∈ view.requests
  asked : viewActionChangeSize view.pending.action = true → view.pending.geometry ∈ view.requests
  idle : view.pending.configureAction = ∅ → view.pending.configureSerial = 0
  armed : view.pending.configureTimeout = true → view.mapped = true

/-- Between two events a mapped view has nothing left to ask for. -/
structure Settled (view : View) : Prop extends Tracked view where
  clean : view.mapped = true → view.pending.action = ∅

theorem Tracked.of_same {view' : View} (h : Tracked view) (hs : SameRequests view view') :
    Tracked view' := by
  obtain ⟨hm, hp, hr⟩ := hs
  refine ⟨?_, ?_, ?_, ?_, ?_⟩
  · rw [hp, hm]
    exact h.finishes
  · rw [hp, hr]
    exact h.recent
  · rw [hp, hr]
    exact h.asked
  · rw [hp]
    exact h.idle
  · rw [hp, hm]
    exact h.armed

theorem Settled.of_same {view' : View} (h : Settled view) (hs : SameRequests view view') :
    Settled view' := by
  refine ⟨h.toTracked.of_same hs, ?_⟩
  rw [hs.mapped, hs.pending]
  exact h.clean

/-- Nothing is outstanding on a view that is not mapped. -/
theorem Tracked.none_outstanding (h : Tracked view) (hm : view.mapped = false) :
    view.pending.configureAction = ∅ := by
  by_contra hne
  rw [(h.finishes hne).1] at hm
  cases hm

theorem Tracked.ask (h : Tracked view) (action : Actions) (geometry : Box) :
    Tracked (view.ask action geometry) :=
  ⟨h.finishes, fun hne => List.mem_cons_of_mem _ (h.recent hne), fun _ => List.mem_cons_self,
    h.idle, h.armed⟩

theorem Tracked.mark (h : Tracked view) {a : ViewAction}
    (ha : a = .activate ∨ a = .minimize ∨ a = .move) : Tracked (view.mark a) :=
  ⟨h.finishes, h.recent, fun hc => h.asked (viewActionChangeSize_insert ha hc), h.idle,
    h.armed⟩

/-! ### Configures -/

theorem viewConfigure_settled (hm : view.mapped = true) (hserial : serial ≠ 0)
    (haction : view.pending.action ≠ ∅) (hgeo : view.pending.geometry ∈ view.requests) :
    Settled (viewConfigure view serial) := by
  refine ⟨⟨fun _ => ⟨hm, ?_⟩, fun _ => hgeo, ?_, ?_, fun _ => hm⟩, fun _ => rfl⟩
  · simp [viewConfigure, hserial]
  · intro hc
    simp [viewConfigure] at hc
  · intro he
    obtain ⟨a, ha⟩ := Finset.nonempty_iff_ne_empty.2 haction
    have hmem : a ∈ (viewConfigure view serial).pending.configureAction :=
      Finset.mem_union_right _ ha
    rw [he] at hmem
    cases hmem

theorem viewConfigured_settled (hclean : view.mapped = true → view.pending.action = ∅)
    (hasked : viewActionChangeSize view.pending.action = false) :
    Settled (viewConfigured view) := by
  refine ⟨⟨fun hne => absurd rfl hne, fun hne => absurd rfl hne, ?_, fun _ => rfl, ?_⟩, hclean⟩
  rotate_left
  · intro harmed
    cases harmed
  intro hc
  rw [show (viewConfigured view).pending.action = view.pending.action from rfl, hasked] at hc
  cases hc

theorem dropDirect_tracked (h : Tracked view) : Tracked view.dropDirect := by
  refine ⟨h.finishes, h.recent, ?_, h.idle, h.armed⟩
  intro hc
  obtain ⟨a, ha, hn⟩ := (viewActionChangeSize_iff _).1 hc
  exact h.asked (viewActionChangeSize_of_dropDirect (Finset.nonempty_iff_ne_empty.1 ⟨a, ha⟩))

theorem configureDirect_same (layout : Layout) (view : View) :
    SameRequests view.dropDirect (configureDirect layout view) := by
  unfold configureDirect moveUnlessPending
  split_ifs
  · exact ⟨rfl, rfl, rfl⟩
  · exact viewHelperMove_same _ _
  · exact ⟨rfl, rfl, rfl⟩

theorem xdgViewConfigure_settled (h : Tracked view) (hm : view.mapped = true)
    (hserial : serial ≠ 0) : Settled (xdgViewConfigure layout view serial) := by
  have hs := configureDirect_same layout view
  have ht := (dropDirect_tracked h).of_same hs
  unfold xdgViewConfigure
  split_ifs with he
  · exact ⟨ht, fun _ => he⟩
  · have hd : view.dropDirect.pending.action ≠ ∅ := by rwa [hs.pending] at he
    refine viewConfigure_settled (hs.mapped.trans hm) hserial he ?_
    rw [hs.pending, hs.requests]
    exact h.asked (viewActionChangeSize_of_dropDirect hd)

theorem configureMapped_settled (h : Tracked view) (hserial : view.mapped = true → serial ≠ 0) :
    Settled (configureMapped layout view serial) := by
  unfold configureMapped
  split_ifs with hm
  · exact xdgViewConfigure_settled h hm (hserial hm)
  · exact ⟨h, fun hm' => absurd hm' hm⟩

@[simp] theorem configureMapped_mapped :
    (configureMapped layout view serial).mapped = view.mapped := by
  have hs := (configureDirect_same layout view).mapped
  unfold configureMapped xdgViewConfigure
  split_ifs
  · exact hs
  · exact hs
  · rfl

/-! ### Requests -/

/-- What a request comes to: nothing, or a configure after the request is noted in `pending`. -/
inductive Asks (layout : Layout) (view : View) (serial : UInt32) : View → Prop
  | skip : Asks layout view serial view
  | ask {view' : View} (hs : SameRequests view view') (action : Actions) (geometry : Box) :
      Asks layout view serial (configureMapped layout (view'.ask action geometry) serial)
  | mark {view' : View} (hs : SameRequests view view') (a : ViewAction)
      (ha : a = .activate ∨ a = .minimize ∨ a = .move) :
      Asks layout view serial (configureMapped layout (view'.mark a) serial)

theorem Asks.mapped {view' : View} (h : Asks layout view serial view') :
    view'.mapped = view.mapped := by
  cases h with
  | skip => rfl
  | ask hs => exact configureMapped_mapped.trans hs.mapped
  | mark hs => exact configureMapped_mapped.trans hs.mapped

theorem Asks.settled {view' : View} (hasks : Asks layout view serial view') (h : Settled view)
    (hserial : view.mapped = true → serial ≠ 0) : Settled view' := by
  cases hasks with
  | skip => exact h
  | ask hs action geometry =>
      refine configureMapped_settled ((h.toTracked.of_same hs).ask action geometry) ?_
      intro hm
      exact hserial (hs.mapped ▸ hm)
  | mark hs a ha =>
      refine configureMapped_settled ((h.toTracked.of_same hs).mark ha) ?_
      intro hm
      exact hserial (hs.mapped ▸ hm)

theorem viewDoMove_asks (x y : ℤ) :
    Asks layout view serial (viewDoMove layout view x y serial) :=
  .ask ⟨rfl, rfl, rfl⟩ _ _

theorem viewDoResize_asks (geometry : Box) :
    Asks layout view serial (viewDoResize layout view geometry serial) :=
  .ask ⟨rfl, rfl, rfl⟩ _ _

theorem viewDoTiled_asks (tile : Tile) (output : Option ℕ) :
    Asks layout view serial (viewDoTiled layout view tile output serial) := by
  rw [viewDoTiled]
  split
  · exact .skip
  · refine .ask ?_ _ _
    exact ⟨rfl, rfl, rfl⟩

theorem viewDoMaximized_asks (maximized : Bool) (output : Option ℕ) :
    Asks layout view serial (viewDoMaximized layout view maximized output serial) := by
  rw [viewDoMaximized]
  split
  · exact .skip
  · refine .ask ?_ _ _
    exact ⟨rfl, rfl, rfl⟩

theorem viewDoFullscreen_asks (fullscreen : Bool) (output : Option ℕ) :
    Asks layout view serial (viewDoFullscreen layout view fullscreen output serial) := by
  rw [viewDoFullscreen]
  split
  · exact .skip
  · refine .ask ?_ _ _
    exact ⟨rfl, rfl, rfl⟩

theorem viewDoMinimized_asks (minimized : Bool) :
    Asks layout view serial (viewDoMinimized layout view minimized serial) := by
  rw [viewDoMinimized]
  split
  · exact .skip
  · refine .mark ?_ _ (.inr (.inl rfl))
    exact ⟨rfl, rfl, rfl⟩

theorem stackModeViewMinimized_asks (minimized : Bool) :
    Asks layout view serial (stackModeViewMinimized layout view minimized serial) := by
  rw [stackModeViewMinimized]
  split
  · exact viewDoMinimized_asks minimized
  · exact .skip

theorem stackModeViewMaximized_asks (maximized : Bool) (output : Option ℕ) :
    Asks layout view serial (stackModeViewMaximized layout view maximized output serial) := by
  rw [stackModeViewMaximized]
  split
  · exact viewDoMaximized_asks maximized output
  · exact .skip

theorem stackModeViewFullscreen_asks (fullscreen : Bool) (output : Option ℕ) :
    Asks layout view serial (stackModeViewFullscreen layout view fullscreen output serial) := by
  rw [stackModeViewFullscreen]
  split
  · exact viewDoFullscreen_asks fullscreen output
  · exact .skip

/-- An activation that un-minimizes the view asks twice. -/
theorem viewSetActivated_asks (activated : Bool) :
    ∃ shown, Asks layout view serial shown ∧
      Asks layout shown serial (viewSetActivated layout view activated serial) := by
  rw [viewSetActivated]
  split
  · exact ⟨view, .skip, .skip⟩
  · dsimp only
    split
    · refine ⟨_, stackModeViewMinimized_asks false, .mark ?_ _ (.inl rfl)⟩
      exact ⟨rfl, rfl, rfl⟩
    · refine ⟨view, .skip, .mark ?_ _ (.inl rfl)⟩
      exact ⟨rfl, rfl, rfl⟩

theorem viewSetActivated_settled (h : Settled view) (hserial : view.mapped = true → serial ≠ 0)
    (activated : Bool) : Settled (viewSetActivated layout view activated serial) := by
  obtain ⟨shown, hshown, hasks⟩ := @viewSetActivated_asks layout view serial activated
  exact hasks.settled (hshown.settled h hserial) (hshown.mapped ▸ hserial)

/-! ### Mapping -/

/-- A view between an unmap and the next map. -/
def Away (view : View) : Prop := Settled view ∧ view.mapped = false

/-- No serial is drawn for a request to a view that is not mapped. -/
theorem Asks.away {view' : View} (hasks : Asks layout view serial view') (h : Away view) :
    Away view' := by
  refine ⟨hasks.settled h.1 ?_, hasks.mapped.trans h.2⟩
  rw [h.2]
  intro hm
  cases hm

theorem applyRequested_away (h : Away view) (m : Mapping) : Away (applyRequested layout view m) := by
  have hsize := viewUpdateSize_same layout view m.size
  have hsized : Away (viewUpdateSize layout view m.size) :=
    ⟨h.1.of_same hsize, hsize.mapped.trans h.2⟩
  unfold applyRequested
  refine (stackModeViewFullscreen_asks _ _).away ?_
  refine (stackModeViewMaximized_asks _ _).away ?_
  exact (stackModeViewMinimized_asks _).away hsized

theorem positionerAddNewView_away (layout : Layout) (h : Away view)
    (placement : Option (ℤ × ℤ)) : Away (positionerAddNewView layout view placement) := by
  unfold positionerAddNewView
  split_ifs
  · exact h
  · split
    · exact h
    · exact (viewDoMove_asks _ _).away h

/-- Nothing is outstanding when a view is mapped, so mapping it breaks nothing. -/
theorem Away.mapped {view' : View} (h : Away view) (hp : view'.pending = view.pending)
    (hr : view'.requests = view.requests) : Tracked view' := by
  have hoff := h.2
  have hnone : view'.pending.configureAction = ∅ := by rw [hp, h.1.none_outstanding hoff]
  refine ⟨fun hne => absurd hnone hne, fun hne => absurd hnone hne, ?_, ?_, ?_⟩
  · rw [hp, hr]
    exact h.1.asked
  · rw [hp]
    exact h.1.idle
  · rw [hp]
    intro harmed
    rw [h.1.armed harmed] at hoff
    cases hoff

theorem mapConfigure_settled (h : Away view) (hserial : serial ≠ 0) :
    Settled (mapConfigure layout view serial) := by
  rw [mapConfigure]
  split
  next he => exact ⟨h.mapped rfl rfl, fun _ => he⟩
  next =>
    refine xdgViewConfigure_settled ?_ rfl hserial
    exact h.mapped rfl rfl

theorem viewMap_settled (h : Away view) (hserial : serial ≠ 0) (placement : Option (ℤ × ℤ)) :
    Settled (viewMap layout view placement serial) :=
  (mapConfigure_settled (positionerAddNewView_away layout h placement) hserial).of_same
    ⟨rfl, rfl, rfl⟩

/-- Losing the activation only leaves the bit in `pending.action` of a view that is not mapped. -/
theorem viewSetActivated_off (hm : view.mapped = false) :
    (viewSetActivated layout view false serial).mapped = false ∧
    (viewSetActivated layout view false serial).pending.configureAction =
      view.pending.configureAction ∧
    (viewSetActivated layout view false serial).pending.configureSerial =
      view.pending.configureSerial ∧
    (viewSetActivated layout view false serial).pending.action ⊆
      insert .activate view.pending.action := by
  rw [viewSetActivated]
  split
  · exact ⟨hm, rfl, rfl, Finset.subset_insert _ _⟩
  · simp [configureMapped, View.mark, hm]

/-- An unmap while nothing is outstanding leaves nothing to be finished. -/
theorem viewUnmap_settled (h : Settled view) (hm : view.mapped = true)
    (hnone : view.pending.configureAction = ∅) : Settled (viewUnmap layout view) := by
  obtain ⟨hoff, hconfigure, hserial, haction⟩ :=
    @viewSetActivated_off layout { view with mapped := false } 0 rfl
  have hunmapped : (viewUnmap layout view).mapped = false := hoff
  have hconfigure' : (viewUnmap layout view).pending.configureAction = ∅ := hconfigure.trans hnone
  refine ⟨⟨fun hne => absurd hconfigure' hne, fun hne => absurd hconfigure' hne, ?_, ?_,
    fun harmed => (by cases harmed)⟩, fun hm => ?_⟩
  · intro hc
    obtain ⟨a, ha, hne, -⟩ := (viewActionChangeSize_iff _).1 hc
    have hmem := haction ha
    rw [h.clean hm] at hmem
    exact absurd (by simpa using hmem) hne
  · intro _
    exact hserial.trans (h.idle hnone)
  · rw [hunmapped] at hm
    cases hm

/-! ### Commits and timeouts -/

theorem viewConfigured_of_same {view' : View} (h : Settled view) (hm : view.mapped = true)
    (hs : SameRequests view view') : Settled (viewConfigured view') := by
  have hclean : view'.pending.action = ∅ := by rw [hs.pending, h.clean hm]
  exact viewConfigured_settled (fun _ => hclean) (by simp [hclean])

theorem followResize_same (layout : Layout) (view : View) (current : UInt32) :
    SameRequests view (followResize layout view current) := by
  unfold followResize
  split_ifs
  · exact viewHelperMove_same _ _
  · exact ⟨rfl, rfl, rfl⟩

theorem finishCommit_settled (h : Settled view) (hm : view.mapped = true) (current : UInt32) :
    Settled (finishCommit layout view current) := by
  have hs := followResize_same layout view current
  unfold finishCommit
  split_ifs
  · refine viewConfigured_of_same (h.of_same hs) (hs.mapped.trans hm) ?_
    exact viewHelperMove_same _ _
  · exact h.of_same hs

theorem xdgViewHandleCommit_settled (h : Settled view) (c : Commit) :
    Settled (xdgViewHandleCommit layout view c) := by
  have hs := viewUpdateSize_same layout view c.size
  rw [xdgViewHandleCommit]
  split_ifs with hinit hm
  · exact h
  · exact h
  · dsimp only
    split
    · exact h.of_same hs
    · exact finishCommit_settled (h.of_same hs) (hs.mapped.trans (by simpa using hm)) _

theorem configureFallback_same (layout : Layout) (view : View) :
    SameRequests view (configureFallback layout view) := by
  unfold configureFallback
  split_ifs
  · exact viewHelperMove_same _ _
  · exact viewHelperMove_same _ _
  · exact ⟨rfl, rfl, rfl⟩

theorem viewHandleConfigureTimeout_settled (h : Settled view)
    (htimer : view.pending.configureTimeout = true) :
    Settled (viewHandleConfigureTimeout layout view) :=
  viewConfigured_of_same h (h.armed htimer) (configureFallback_same layout view)

/-! ### Runs -/

/-- A view is unmapped only while nothing is outstanding, and no configure gets the serial 0. -/
def settles (s : State) : Event → Bool
  | .unmap => decide (s.view.pending.configureAction = ∅)
  | e => decide (e.drawn ≠ some 0)

theorem drawn_ne_zero {s : State} {e : Event} (hok : settles s e = true)
    (he : e.drawn = some serial) : serial ≠ 0 := by
  rintro rfl
  cases e with
  | unmap => cases he
  | _ => simp [settles, he] at hok

theorem step_settled {s s' : State} {e : Event} (h : Settled s.view) (hok : settles s e = true)
    (hstep : step s e = some s') : Settled s'.view := by
  cases e with
  | unmap =>
      simp only [step, Option.ite_none_right_eq_some, Option.some.injEq] at hstep
      obtain ⟨hm, rfl⟩ := hstep
      exact viewUnmap_settled h hm (by simpa [settles] using hok)
  | timeout =>
      simp only [step, Option.ite_none_right_eq_some, Option.some.injEq] at hstep
      obtain ⟨htimer, rfl⟩ := hstep
      exact viewHandleConfigureTimeout_settled h htimer
  | map m serial =>
      simp only [step, Option.ite_none_left_eq_some, Option.some.injEq] at hstep
      obtain ⟨hm, rfl⟩ := hstep
      have haway : Away s.view := ⟨h, by simpa using hm⟩
      exact viewMap_settled (applyRequested_away haway m) (drawn_ne_zero hok rfl) _
  | commit c =>
      obtain rfl := Option.some.inj hstep
      exact xdgViewHandleCommit_settled h c
  | outputDestroy =>
      obtain rfl := Option.some.inj hstep
      exact h.of_same (viewHandleOutputDestroy_same _ _)
  | layoutChange layout | traitsChange traits | grab edges =>
      obtain rfl := Option.some.inj hstep
      exact h.of_same ⟨rfl, rfl, rfl⟩
  | move x y serial =>
      obtain rfl := Option.some.inj hstep
      exact (viewDoMove_asks x y).settled h fun _ => drawn_ne_zero hok rfl
  | resize geometry serial =>
      obtain rfl := Option.some.inj hstep
      exact (viewDoResize_asks geometry).settled h fun _ => drawn_ne_zero hok rfl
  | tiled tile output serial =>
      obtain rfl := Option.some.inj hstep
      exact (viewDoTiled_asks tile output).settled h fun _ => drawn_ne_zero hok rfl
  | maximized maximized output serial =>
      obtain rfl := Option.some.inj hstep
      exact (viewDoMaximized_asks maximized output).settled h fun _ => drawn_ne_zero hok rfl
  | fullscreen fullscreen output serial =>
      obtain rfl := Option.some.inj hstep
      exact (viewDoFullscreen_asks fullscreen output).settled h fun _ => drawn_ne_zero hok rfl
  | minimized minimized serial =>
      obtain rfl := Option.some.inj hstep
      exact (viewDoMinimized_asks minimized).settled h fun _ => drawn_ne_zero hok rfl
  | activated activated serial =>
      obtain rfl := Option.some.inj hstep
      exact viewSetActivated_settled h (fun _ => drawn_ne_zero hok rfl) activated

/-! ### What follows for a view that is mapped again -/

/-- Where the positioner puts a view that is mapped, if it moves it at all. -/
def willPlace (s : State) (m : Mapping) : Option (ℤ × ℤ) :=
  let view := applyRequested s.layout s.view m
  if view.maximized || view.minimized || view.fullscreen || view.traits.hasInitialPosition then none
  else m.placement

/-- What is outstanding has a way to finish; a map carries out its placement; and a commit moves the
    view, if at all, to a geometry asked for since the last unmap. -/
structure Finishing (s : State) : Prop where
  finishes : s.view.pending.configureAction ≠ ∅ →
    s.view.mapped = true ∧ s.view.pending.configureTimeout = true
  placed : ∀ m serial p, s.view.mapped = false → willPlace s m = some p →
    (xdgViewHandleMap s.layout s.view m serial).position = p
  fresh : ∀ c : Commit,
    (xdgViewHandleCommit s.layout s.view c).position = s.view.position ∨
    ∃ g ∈ s.view.requests,
      (xdgViewHandleCommit s.layout s.view c).position = (g.x, g.y) ∨
      (xdgViewHandleCommit s.layout s.view c).position =
        fixWobbling (viewUpdateSize s.layout s.view c.size) g

@[simp] theorem viewHelperMove_position (x y : ℤ) :
    (viewHelperMove layout view x y).position = (x, y) := by
  simp [View.position]

@[simp] theorem viewUpdateSize_position (size : Size) :
    (viewUpdateSize layout view size).position = view.position := by
  unfold viewUpdateSize View.position
  dsimp only
  split_ifs <;> simp

/-- A move that waits on a view with nothing outstanding is carried out. -/
theorem xdgViewConfigure_position (hnone : view.pending.configureAction = ∅)
    (hmove : .move ∈ view.pending.action) :
    (xdgViewConfigure layout view serial).position =
      (view.pending.geometry.x, view.pending.geometry.y) := by
  have hdirect : (configureDirect layout view).position =
      (view.pending.geometry.x, view.pending.geometry.y) := by
    rw [configureDirect, if_pos hmove, moveUnlessPending, if_neg]
    · exact viewHelperMove_position _ _
    · simp [View.dropDirect, hnone]
  unfold xdgViewConfigure
  split_ifs
  · exact hdirect
  · exact hdirect

/-- The positioner leaves its move in `pending`, since the view is not mapped yet. -/
theorem positionerAddNewView_some (hm : view.mapped = false) (x y : ℤ)
    (hfree : ¬ (view.maximized || view.minimized || view.fullscreen ||
      view.traits.hasInitialPosition) = true) :
    positionerAddNewView layout view (some (x, y)) =
      view.ask {.move} { view.pending.geometry with x := x, y := y } := by
  simp only [positionerAddNewView, if_neg hfree, viewDoMove, configureMapped]
  exact if_neg (by simp [View.ask, hm])

theorem viewMap_position (h : Away view) (x y : ℤ)
    (hfree : ¬ (view.maximized || view.minimized || view.fullscreen ||
      view.traits.hasInitialPosition) = true) :
    (viewMap layout view (some (x, y)) serial).position = (x, y) := by
  have hmem : ViewAction.move ∈ view.pending.action ∪ {.move} := by simp
  rw [viewMap, positionerAddNewView_some h.2 x y hfree, mapConfigure, if_neg]
  · exact xdgViewConfigure_position (h.1.none_outstanding h.2) hmem
  · exact Finset.nonempty_iff_ne_empty.1 ⟨_, hmem⟩

theorem xdgViewHandleMap_position {s : State} (h : Settled s.view) (hm : s.view.mapped = false)
    {m : Mapping} {p : ℤ × ℤ} (hp : willPlace s m = some p) :
    (xdgViewHandleMap s.layout s.view m serial).position = p := by
  obtain ⟨x, y⟩ := p
  simp only [willPlace, Option.ite_none_left_eq_some] at hp
  rw [xdgViewHandleMap, hp.2]
  exact viewMap_position (applyRequested_away ⟨h, hm⟩ m) x y hp.1

theorem finishCommit_position (current : UInt32) :
    (finishCommit layout view current).position = view.position ∨
    (finishCommit layout view current).position = commitTarget view current := by
  unfold finishCommit
  split_ifs
  · exact .inr (viewHelperMove_position _ _)
  · unfold followResize
    split_ifs
    · exact .inr (viewHelperMove_position _ _)
    · exact .inl rfl

theorem xdgViewHandleCommit_fresh (h : Settled view) (c : Commit) :
    (xdgViewHandleCommit layout view c).position = view.position ∨
    ∃ g ∈ view.requests,
      (xdgViewHandleCommit layout view c).position = (g.x, g.y) ∨
      (xdgViewHandleCommit layout view c).position =
        fixWobbling (viewUpdateSize layout view c.size) g := by
  have hs := viewUpdateSize_same layout view c.size
  have hsize := h.of_same hs
  rw [xdgViewHandleCommit]
  split_ifs with hinit hm
  · exact .inl rfl
  · exact .inl rfl
  · dsimp only
    split
    next => exact .inl (viewUpdateSize_position _)
    next hout =>
      have hne : (viewUpdateSize layout view c.size).pending.configureAction ≠ ∅ :=
        fun he => hout ⟨he, hsize.idle he⟩
      rcases @finishCommit_position layout (viewUpdateSize layout view c.size) c.configureSerial
        with hpos | hpos
      · exact .inl (hpos.trans (viewUpdateSize_position _))
      · refine .inr ⟨_, hs.requests ▸ hsize.recent hne, ?_⟩
        rw [hpos]
        unfold commitTarget
        split_ifs
        · exact .inr rfl
        · exact .inl rfl

theorem Settled.finishing {s : State} (h : Settled s.view) : Finishing s where
  finishes := h.finishes
  placed _ _ _ hm hp := xdgViewHandleMap_position h hm hp
  fresh := xdgViewHandleCommit_fresh h

/-- A new xdg view. -/
def start (layout : Layout) (traits : Traits) (output : ℕ) : State :=
  { layout := layout, view := { traits := traits, output := output } }

theorem start_settled (layout : Layout) (traits : Traits) (output : ℕ) :
    Settled (start layout traits output).view :=
  ⟨⟨fun h => absurd rfl h, fun h => absurd rfl h, fun h => (by cases h), fun _ => rfl,
    fun h => (by cases h)⟩, fun h => (by cases h)⟩

/-- Along every run that unmaps the view only while no configure is outstanding, and in which no
    configure gets the serial 0, what is outstanding always finishes. -/
theorem configures_finish (layout : Layout) (traits : Traits) (output : ℕ) (s : State)
    (h : Reach step (fun s e => settles s e = true) (start layout traits output) s) :
    Finishing s :=
  Settled.finishing (h.inv (I := fun s => Settled s.view) (start_settled layout traits output)
    fun _ _ _ hi hok hstep => step_settled hi hok hstep)

/-- A single output, a window that is mapped and resized on it. -/
def oneOutput : Layout :=
  { outputs := fun _ => { geometry := ⟨0, 0, 1920, 1080⟩, usableArea := ⟨0, 0, 1920, 1080⟩ }
    outputAtPoint := fun _ _ => some 0
    fallback := 0 }

def mapAt (x y : ℤ) : Event := .map { size := ⟨100, 80, 0, 0, 0, 0⟩, placement := some (x, y) } 1

/-- A resize that is acknowledged before the window is unmapped and mapped again. -/
theorem acked_resize_finishes :
    (exec (guarded step settles) (start oneOutput {} 0)
      [mapAt 0 0, .resize ⟨50, 60, 300, 200⟩ 2,
       .commit { size := ⟨300, 200, 0, 0, 0, 0⟩, configureSerial := 2 }, .unmap, mapAt 10 20]).map
        (fun s => s.view.position) = some (10, 20) ∧
    ∀ s, exec (guarded step settles) (start oneOutput {} 0)
      [mapAt 0 0, .resize ⟨50, 60, 300, 200⟩ 2,
       .commit { size := ⟨300, 200, 0, 0, 0, 0⟩, configureSerial := 2 }, .unmap, mapAt 10 20] =
        some s → Finishing s :=
  ⟨by decide, fun s h => configures_finish _ _ _ s (Reach.of_exec_guarded _ _ h)⟩

/-- A window unmapped before it acknowledges a resize: the configure stays outstanding without a
    timer, the placement of the next map is skipped, and the next commit moves the window to the
    geometry of the old resize. -/
theorem unmap_strands_configure :
    ∃ s t, Reach step Always (start oneOutput {} 0) s ∧ Reach step Always (start oneOutput {} 0) t ∧
      (s.view.pending.configureAction = {.resize} ∧ s.view.mapped = false ∧
        s.view.pending.configureTimeout = false) ∧
      ¬ Finishing s ∧ t.view.position = (0, 0) ∧ t.view.requests = [⟨10, 20, 100, 80⟩] ∧
      (xdgViewHandleCommit t.layout t.view
        { size := ⟨100, 80, 0, 0, 0, 0⟩, configureSerial := 2 }).position = (50, 60) := by
  refine ⟨_, _, Reach.of_exec [mapAt 0 0, .resize ⟨50, 60, 300, 200⟩ 2, .unmap] _ rfl,
    Reach.of_exec [mapAt 0 0, .resize ⟨50, 60, 300, 200⟩ 2, .unmap, mapAt 10 20] _ rfl,
    ⟨by decide, rfl, rfl⟩, ?_, by decide, by decide, by decide⟩
  intro h
  have := (h.finishes (by decide)).1
  cases this

end FlakeWm.Views
