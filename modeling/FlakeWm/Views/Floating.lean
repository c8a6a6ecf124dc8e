import FlakeWm.Views.Configure
import Mathlib.Data.Finset.Lattice.Lemmas

/-! The geometry of a floating window across maximize, fullscreen and tile requests.

    `saved.geometry` is what a window returns to. It is written from `base.geometry`, which lags
    behind until the client has committed, and it is written again by a repeated request that names
    another output. `home` is the geometry the window is to return to: the one it is to have while it
    floats, `saved.geometry` while it does not. It survives exactly the requests that store the right
    geometry. -/

namespace FlakeWm.Views

variable {layout : Layout} {view : View} {serial : UInt32}

/-- A request of the stack mode. -/
inductive Request where
  | maximized (maximized : Bool) (output : Option ℕ)
  | fullscreen (fullscreen : Bool) (output : Option ℕ)
  | tiled (tile : Tile) (output : Option ℕ)

def Request.apply (layout : Layout) (view : View) (serial : UInt32) : Request → View
  | .maximized b output => stackModeViewMaximized layout view b output serial
  | .fullscreen b output => stackModeViewFullscreen layout view b output serial
  | .tiled tile output => stackModeViewTiled layout view tile output serial

/-- Neither maximized nor fullscreen nor tiled. -/
def View.floating (view : View) : Bool :=
  !view.maximized && !view.fullscreen && decide (view.tiled = .none)

/-- The geometry the view has once the client has acknowledged what is outstanding. -/
def View.target (view : View) : Box :=
  if view.pending.configureAction = ∅ then view.geometry else view.pending.configureGeometry

/-- The geometry a view is to return to. -/
def View.home (view : View) : Box :=
  if view.floating then view.target else view.savedGeometry

/-- The request names an output other than the view's. -/
def View.elsewhere (view : View) (output : Option ℕ) : Bool :=
  decide (¬ (output = none ∨ output = some view.output))

/-- The request is not permitted, or the view is as it asks already. -/
def Request.skips (view : View) : Request → Bool
  | .maximized b output =>
      !viewIsMaximizable view ||
        (decide (view.tiled = .none) && decide (view.maximized = b) && !view.elsewhere output)
  | .fullscreen b output =>
      !viewIsFullscreenable view || (decide (view.fullscreen = b) && !view.elsewhere output)
  | .tiled tile output =>
      !viewIsResizable view || (decide (view.tiled = tile) && !view.elsewhere output)

/-- The request stores `base.geometry` as the geometry to return to. -/
def Request.stores (view : View) : Request → Bool
  | .maximized b _ => b && decide (view.tiled = .none)
  | .fullscreen b _ => b && !view.maximized && decide (view.tiled = .none)
  | .tiled tile _ => !view.maximized && decide (view.tiled = .none) && decide (tile ≠ .none)

/-- The request takes a state away from the view. -/
def Request.unsets : Request → Bool
  | .maximized b _ => !b
  | .fullscreen b _ => !b
  | .tiled tile _ => decide (tile = .none)

/-- What a request stores is the geometry to return to, and so is what it takes out of the store for
    a view that floats already. -/
def keeps (view : View) (r : Request) : Bool :=
  r.skips view ||
    ((!r.stores view || decide (view.geometry = view.home)) &&
      (!(view.floating && r.unsets) || decide (view.savedGeometry = view.home)))

/-! ### What a request comes to -/

/-- A request whose size is sent to the client. -/
def View.sent (view : View) (action : Actions) (geometry : Box) (serial : UInt32) : View :=
  { view with
    pending :=
      { action := ∅
        geometry := view.geometry
        configureSerial := serial
        configureAction := view.pending.configureAction ∪ action
        configureGeometry := geometry
        configureTimeout := if serial = 0 then view.pending.configureTimeout else true }
    requests := geometry :: view.requests }

theorem configureMapped_ask (hm : view.mapped = true) (hclean : view.pending.action = ∅)
    {action : Actions} (ha : action.Nonempty)
    (hdirect : .minimize ∉ action ∧ .activate ∉ action ∧ .move ∉ action) (geometry : Box) :
    configureMapped layout (view.ask action geometry) serial = view.sent action geometry serial := by
  have haction : (view.ask action geometry).pending.action = action := by simp [View.ask, hclean]
  have hdrop : (view.ask action geometry).dropDirect = view.ask action geometry := by
    rw [View.dropDirect, haction, Finset.erase_eq_of_notMem hdirect.1,
      Finset.erase_eq_of_notMem hdirect.2.1, Finset.erase_eq_of_notMem hdirect.2.2]
    simp [View.ask, hclean]
  have hmoved : configureDirect layout (view.ask action geometry) = view.ask action geometry := by
    rw [configureDirect, haction, if_neg hdirect.2.2, hdrop]
  rw [configureMapped, if_pos (show (view.ask action geometry).mapped = true from hm),
    xdgViewConfigure, hmoved, haction, if_neg ha.ne_empty]
  simp [viewConfigure, View.ask, View.sent, hclean]

/-- The view with its new flags and `saved.geometry`. -/
def Request.kept (view : View) : Request → View
  | .maximized b _ =>
      { view with
        savedGeometry := if b ∧ view.tiled = .none then view.geometry else view.savedGeometry
        tiled := .none
        maximized := b }
  | .fullscreen b _ =>
      { view with
        savedGeometry := if b ∧ !view.maximized ∧ view.tiled = .none then view.geometry
          else view.savedGeometry
        fullscreen := b }
  | .tiled tile _ =>
      { view with
        savedGeometry := if view.tiled = .none ∧ tile ≠ .none ∧ !view.maximized then view.geometry
          else view.savedGeometry
        maximized := false
        tiled := tile }

def Request.action (view : View) : Request → Actions
  | .maximized _ _ => if view.tiled = .none then {.maximize} else {.tile, .maximize}
  | .fullscreen _ _ => {.fullscreen}
  | .tiled _ _ => if view.maximized then {.maximize, .tile} else {.tile}

def Request.geometry (layout : Layout) (view : View) : Request → Box
  | .maximized b output =>
      if b then viewGetTiledGeometry layout view (output.getD view.output) .all
      else view.savedGeometry
  | .fullscreen b output => fullscreenGeometry layout view b output
  | .tiled tile output => viewGetTiledGeometry layout view (output.getD view.output) tile

theorem action_bits (view : View) (r : Request) : (r.action view).Nonempty ∧
    .resize ∉ r.action view ∧ .minimize ∉ r.action view ∧ .activate ∉ r.action view ∧
    .move ∉ r.action view := by
  cases r with
  | maximized b output =>
      rw [Request.action]
      split_ifs <;> simp
  | fullscreen b output => simp [Request.action]
  | tiled tile output =>
      rw [Request.action]
      split_ifs <;> simp

theorem ite_skip {ok skips : Bool} {same : Prop} [Decidable same] {a b : View}
    (h : skips = true ↔ ok = false ∨ same) :
    (if ok = true then (if same then a else b) else a) = if skips = true then a else b := by
  cases ok with
  | false => rw [if_neg Bool.false_ne_true, if_pos (h.2 (.inl rfl))]
  | true =>
      rw [if_pos rfl]
      by_cases hsame : same
      · rw [if_pos hsame, if_pos (h.2 (.inr hsame))]
      · rw [if_neg hsame, if_neg]
        intro hs
        rcases h.1 hs with hok | hs
        · cases hok
        · exact hsame hs

/-- A request is skipped, or sent to the client. -/
theorem apply_eq (hm : view.mapped = true) (hclean : view.pending.action = ∅) (r : Request) :
    r.apply layout view serial = if r.skips view then view
      else (r.kept view).sent (r.action view) (r.geometry layout view) serial := by
  have hsent : configureMapped layout ((r.kept view).ask (r.action view) (r.geometry layout view))
      serial = (r.kept view).sent (r.action view) (r.geometry layout view) serial := by
    obtain ⟨ha, -, hdirect⟩ := action_bits view r
    refine configureMapped_ask ?_ ?_ ha hdirect _
    · cases r <;> exact hm
    · cases r <;> exact hclean
  rw [← hsent]
  cases r with
  | maximized b output =>
      rw [Request.apply, stackModeViewMaximized, viewDoMaximized]
      exact ite_skip (by simp [Request.skips, View.elsewhere, and_assoc])
  | fullscreen b output =>
      rw [Request.apply, stackModeViewFullscreen, viewDoFullscreen]
      exact ite_skip (by simp [Request.skips, View.elsewhere])
  | tiled tile output =>
      rw [Request.apply, stackModeViewTiled, viewDoTiled]
      exact ite_skip (by simp [Request.skips, View.elsewhere])

theorem kept_saved (view : View) (r : Request) :
    (r.kept view).savedGeometry =
      if r.stores view then view.geometry else view.savedGeometry := by
  cases r <;> simp [Request.kept, Request.stores, and_comm, and_assoc, and_left_comm]

theorem kept_same (view : View) (r : Request) : SameRequests view (r.kept view) := by
  cases r <;> exact ⟨rfl, rfl, rfl⟩

/-- A floating view that stops floating stores its geometry. -/
theorem stores_of_leaves (r : Request) (hfloat : view.floating = true)
    (hkept : (r.kept view).floating = false) : r.stores view = true := by
  simp only [View.floating, Bool.and_eq_true, Bool.not_eq_true', decide_eq_true_eq] at hfloat
  obtain ⟨⟨hmax, hfull⟩, htiled⟩ := hfloat
  cases r with
  | maximized b output =>
      simp [Request.kept, View.floating, hfull] at hkept
      simp [Request.stores, hkept, htiled]
  | fullscreen b output =>
      simp [Request.kept, View.floating, hmax, htiled] at hkept
      simp [Request.stores, hkept, hmax, htiled]
  | tiled tile output =>
      simp [Request.kept, View.floating, hfull] at hkept
      simp [Request.stores, hkept, hmax, htiled]

/-- A request after which the view floats asks for `saved.geometry`. -/
theorem geometry_of_floats (r : Request)
    (hkept : (r.kept view).floating = true) :
    r.geometry layout view = view.savedGeometry ∧ r.unsets = true := by
  cases r with
  | maximized b output =>
      simp [Request.kept, View.floating] at hkept
      simp [Request.geometry, Request.unsets, hkept]
  | fullscreen b output =>
      simp [Request.kept, View.floating] at hkept
      simp [Request.geometry, Request.unsets, fullscreenGeometry, hkept]
  | tiled tile output =>
      simp [Request.kept, View.floating] at hkept
      simp [Request.geometry, Request.unsets, viewGetTiledGeometry, hkept]

/-! ### One step -/

/-- The view is mapped, a request is either sent or done with, and `geometry` is what the view is to
    return to. -/
structure Remembers (geometry : Box) (view : View) : Prop where
  mapped : view.mapped = true
  clean : view.pending.action = ∅
  sizes : .resize ∉ view.pending.configureAction
  idle : view.pending.configureAction = ∅ → view.pending.configureSerial = 0
  home : view.home = geometry

theorem sent_home (view : View) {action : Actions} (ha : action.Nonempty) (geometry : Box) :
    (view.sent action geometry serial).home =
      if view.floating then geometry else view.savedGeometry := by
  have hne : (view.sent action geometry serial).pending.configureAction ≠ ∅ :=
    (ha.mono Finset.subset_union_right).ne_empty
  rw [View.home, View.target, if_neg hne]
  rfl

/-- A request that keeps the geometry to return to. -/
theorem sent_keeps {r : Request} (hskip : r.skips view = false) (hkeeps : keeps view r = true) :
    ((r.kept view).sent (r.action view) (r.geometry layout view) serial).home = view.home := by
  rw [keeps, hskip, Bool.false_or, Bool.and_eq_true] at hkeeps
  obtain ⟨hstores, hrefloats⟩ := hkeeps
  rw [sent_home _ (action_bits view r).1]
  split_ifs with hfloats
  · obtain ⟨hgeometry, hunsets⟩ := @geometry_of_floats layout view r hfloats
    rw [hgeometry]
    cases hfloating : view.floating with
    | true => simpa [hfloating, hunsets] using hrefloats
    | false => simp [View.home, hfloating]
  · rw [kept_saved]
    split_ifs with hs
    · simpa [hs] using hstores
    · cases hfloating : view.floating with
      | true => exact absurd (stores_of_leaves r hfloating (by simpa using hfloats)) hs
      | false => simp [View.home, hfloating]

theorem apply_remembers {geometry : Box} (h : Remembers geometry view) {r : Request}
    (hkeeps : keeps view r = true) : Remembers geometry (r.apply layout view serial) := by
  rw [apply_eq h.mapped h.clean]
  split_ifs with hskip
  · exact h
  · obtain ⟨ha, hresize, -⟩ := action_bits view r
    obtain ⟨hm, hp, -⟩ := kept_same view r
    refine ⟨hm.trans h.mapped, rfl, ?_, ?_, ?_⟩
    · have hnot : ViewAction.resize ∉ (r.kept view).pending.configureAction := hp ▸ h.sizes
      simpa [View.sent] using ⟨hnot, hresize⟩
    · intro he
      exact absurd he (ha.mono Finset.subset_union_right).ne_empty
    · exact (sent_keeps (by simpa using hskip) hkeeps).trans h.home

/-! ### Acknowledged configures -/

/-- The commit that acknowledges what is outstanding, with the size that was asked for; the limits
    of the toplevel may change with it. -/
def acked (view : View) (minWidth minHeight maxWidth maxHeight : ℤ) : Commit :=
  { size := ⟨view.pending.configureGeometry.width, view.pending.configureGeometry.height,
      minWidth, minHeight, maxWidth, maxHeight⟩
    configureSerial := view.pending.configureSerial }

/-- A move or a new size changes neither the states of a view nor what it returns to. -/
structure SameStates (view view' : View) : Prop where
  floating : view'.floating = view.floating
  saved : view'.savedGeometry = view.savedGeometry

theorem viewUpdateOutput_states (layout : Layout) (view : View) :
    SameStates view (viewUpdateOutput layout view) := by
  unfold viewUpdateOutput
  dsimp only
  split_ifs <;> exact ⟨rfl, rfl⟩

theorem viewHelperMove_states (layout : Layout) (view : View) (x y : ℤ) :
    SameStates view (viewHelperMove layout view x y) := by
  obtain ⟨hf, hs⟩ := viewUpdateOutput_states layout
    { view with geometry := { view.geometry with x := x, y := y } }
  exact ⟨hf, hs⟩

theorem viewUpdateSize_states (layout : Layout) (view : View) (size : Size) :
    SameStates view (viewUpdateSize layout view size) := by
  unfold viewUpdateSize
  dsimp only
  split_ifs
  · obtain ⟨hf, hs⟩ := viewUpdateOutput_states layout { view with
      geometry := { view.geometry with width := size.width, height := size.height }
      minWidth := size.minWidth
      minHeight := size.minHeight
      maxWidth := size.maxWidth
      maxHeight := size.maxHeight }
    exact ⟨hf, hs⟩
  · exact ⟨rfl, rfl⟩

theorem viewUpdateSize_geometry (layout : Layout) (view : View) (size : Size) :
    (viewUpdateSize layout view size).geometry =
      { view.geometry with width := size.width, height := size.height } := by
  unfold viewUpdateSize
  dsimp only
  split_ifs with hsize
  · exact viewUpdateOutput_geometry
  · rw [not_or, not_not, not_not] at hsize
    rw [← hsize.1, ← hsize.2]

/-- A commit that acknowledges a configure without a resize moves the view to its place. -/
theorem finishCommit_acked (hresize : .resize ∉ view.pending.configureAction) :
    finishCommit layout view view.pending.configureSerial =
      viewConfigured (viewHelperMove layout view view.pending.configureGeometry.x
        view.pending.configureGeometry.y) := by
  have hunacked : ¬ unackedResize view view.pending.configureSerial = true := by
    simp [unackedResize, hresize]
  have hserial : view.pending.configureSerial ≥ view.pending.configureSerial :=
    UInt32.le_refl _
  rw [finishCommit, if_pos hserial, followResize, if_neg hunacked, commitTarget, if_neg hunacked]

theorem xdgViewHandleCommit_outstanding (hm : view.mapped = true)
    (hout : view.pending.configureAction ≠ ∅) (c : Commit) (hc : c.initialCommit = false) :
    xdgViewHandleCommit layout view c =
      finishCommit layout (viewUpdateSize layout view c.size) c.configureSerial := by
  rw [xdgViewHandleCommit, if_neg (by simp [hc]), if_neg (by simp [hm])]
  refine if_neg ?_
  rw [(viewUpdateSize_same layout view c.size).pending]
  exact fun h => hout h.1

theorem viewConfigured_home (view : View) : (viewConfigured view).home =
    if view.floating then view.geometry else view.savedGeometry := by
  rw [View.home, View.target, if_pos (show (viewConfigured view).pending.configureAction = ∅ from rfl)]
  rfl

/-- A commit that acknowledges what is outstanding gives the view the geometry it was to have. -/
theorem acked_remembers {geometry : Box} (h : Remembers geometry view)
    (hout : view.pending.configureAction ≠ ∅) (minWidth minHeight maxWidth maxHeight : ℤ) :
    Remembers geometry (xdgViewHandleCommit layout view
      (acked view minWidth minHeight maxWidth maxHeight)) := by
  rw [xdgViewHandleCommit_outstanding h.mapped hout _ rfl]
  have hgeometry := viewUpdateSize_geometry layout view
    (acked view minWidth minHeight maxWidth maxHeight).size
  have hsame := viewUpdateSize_same layout view
    (acked view minWidth minHeight maxWidth maxHeight).size
  have hstates := viewUpdateSize_states layout view
    (acked view minWidth minHeight maxWidth maxHeight).size
  generalize viewUpdateSize layout view
    (acked view minWidth minHeight maxWidth maxHeight).size = sized at hgeometry hsame hstates ⊢
  have hserial : (acked view minWidth minHeight maxWidth maxHeight).configureSerial =
      sized.pending.configureSerial := by rw [hsame.pending, acked]
  have hresize : .resize ∉ sized.pending.configureAction := by
    rw [hsame.pending]
    exact h.sizes
  rw [hserial, finishCommit_acked hresize]
  have hmove := @viewHelperMove_same layout sized sized.pending.configureGeometry.x
    sized.pending.configureGeometry.y
  have hmoved := viewHelperMove_states layout sized sized.pending.configureGeometry.x
    sized.pending.configureGeometry.y
  refine ⟨?_, ?_, by simp [viewConfigured], fun _ => rfl, ?_⟩
  · exact hmove.mapped.trans (hsame.mapped.trans h.mapped)
  · exact (congrArg Pending.action (hmove.pending.trans hsame.pending)).trans h.clean
  · have hhome := h.home
    rw [View.home, View.target, if_neg hout] at hhome
    rw [viewConfigured_home, hmoved.floating, hstates.floating, hmoved.saved, hstates.saved,
      viewHelperMove_geometry, hgeometry, hsame.pending]
    exact hhome

/-! ### Runs -/

/-- A request of the stack mode, or a commit that acknowledges what is outstanding. -/
inductive Detour where
  | request (r : Request) (serial : UInt32)
  | ack (minWidth minHeight maxWidth maxHeight : ℤ)

def detour (layout : Layout) (view : View) : Detour → Option View
  | .request r serial => some (r.apply layout view serial)
  | .ack minWidth minHeight maxWidth maxHeight =>
      if view.pending.configureAction = ∅ then none
      else some (xdgViewHandleCommit layout view (acked view minWidth minHeight maxWidth maxHeight))

/-- The requests of a run keep the geometry to return to. -/
def keepsHome (view : View) : Detour → Bool
  | .request r _ => keeps view r
  | .ack _ _ _ _ => true

theorem detour_remembers {geometry : Box} {view' : View} {d : Detour} (h : Remembers geometry view)
    (hkeeps : keepsHome view d = true) (hd : detour layout view d = some view') :
    Remembers geometry view' := by
  cases d with
  | request r serial =>
      obtain rfl := Option.some.inj hd
      exact apply_remembers h hkeeps
  | ack minWidth minHeight maxWidth maxHeight =>
      rw [detour, Option.ite_none_left_eq_some, Option.some.injEq] at hd
      obtain ⟨hout, rfl⟩ := hd
      exact acked_remembers h hout _ _ _ _

/-- Every request that makes the view float again asks for `geometry`: one that ends a state the view
    is in, and one that keeps the geometry of a view that floats already. -/
structure Returns (layout : Layout) (geometry : Box) (view : View) : Prop where
  ends : ∀ r serial, view.floating = false → (Request.apply layout view serial r).floating = true →
    (Request.apply layout view serial r).requests = geometry :: view.requests
  stays : ∀ r serial, keeps view r = true → Request.skips view r = false →
    (Request.apply layout view serial r).floating = true →
    (Request.apply layout view serial r).requests = geometry :: view.requests

/-- A request that is sent and makes the view float asks for `saved.geometry`. -/
theorem apply_requests {geometry : Box} (h : Remembers geometry view) {r : Request}
    (hskip : r.skips view = false) (hfloats : (r.apply layout view serial).floating = true) :
    (r.apply layout view serial).requests = view.savedGeometry :: view.requests ∧
      r.unsets = true := by
  rw [apply_eq h.mapped h.clean, hskip, if_neg Bool.false_ne_true] at hfloats ⊢
  obtain ⟨hgeometry, hunsets⟩ := @geometry_of_floats layout view r hfloats
  refine ⟨?_, hunsets⟩
  rw [View.sent, hgeometry, (kept_same view r).requests]

theorem Remembers.returns {geometry : Box} (h : Remembers geometry view) :
    Returns layout geometry view where
  ends r serial hoff hfloats := by
    have hskip : r.skips view = false := by
      by_contra hs
      rw [apply_eq h.mapped h.clean, if_pos (by simpa using hs), hoff] at hfloats
      cases hfloats
    have hhome := h.home
    rw [View.home, hoff, if_neg Bool.false_ne_true] at hhome
    rw [(apply_requests h hskip hfloats).1, hhome]
  stays r serial hkeeps hskip hfloats := by
    obtain ⟨hrequests, hunsets⟩ := apply_requests h hskip hfloats
    rw [hrequests, ← h.home]
    cases hfloating : view.floating with
    | true =>
        simp only [keeps, hskip, hfloating, hunsets, Bool.false_or, Bool.and_eq_true] at hkeeps
        rw [of_decide_eq_true hkeeps.2]
    | false => simp [View.home, hfloating]

/-- A mapped floating window with nothing outstanding. -/
structure AtHome (geometry : Box) (view : View) : Prop where
  mapped : view.mapped = true
  floating : view.floating = true
  placed : view.geometry = geometry
  clean : view.pending.action = ∅
  settled : view.pending.configureAction = ∅ ∧ view.pending.configureSerial = 0

theorem AtHome.remembers {geometry : Box} (h : AtHome geometry view) : Remembers geometry view := by
  obtain ⟨haction, hserial⟩ := h.settled
  refine ⟨h.mapped, h.clean, by simp [haction], fun _ => hserial, ?_⟩
  rw [View.home, if_pos h.floating, View.target, if_pos haction, h.placed]

/-- From a floating window at `geometry`, along every run of requests that keep the geometry to
    return to and of acknowledging commits, each request that makes the window float again asks for
    `geometry`. -/
theorem floating_geometry_returns (layout : Layout) (geometry : Box) (start view : View)
    (hstart : AtHome geometry start)
    (h : Reach (detour layout) (fun view d => keepsHome view d = true) start view) :
    Returns layout geometry view :=
  Remembers.returns (h.inv (I := Remembers geometry) hstart.remembers
    fun _ _ _ hi hok hd => detour_remembers hi hok hd)

/-- A window at (100, 100) on `oneOutput`. -/
def homeWindow : View := { mapped := true, geometry := ⟨100, 100, 400, 300⟩ }

theorem homeWindow_atHome : AtHome ⟨100, 100, 400, 300⟩ homeWindow :=
  ⟨rfl, rfl, rfl, rfl, rfl, rfl⟩

/-- Maximized, then fullscreen over that, each acknowledged: the way back leads to (100, 100). -/
theorem maximized_window_returns :
    AtHome ⟨100, 100, 400, 300⟩ homeWindow ∧
    ∃ view, exec (guarded (detour oneOutput) keepsHome) homeWindow
      [.request (.maximized true none) 1, .ack 0 0 0 0, .request (.fullscreen true none) 2,
        .ack 0 0 0 0, .request (.fullscreen false none) 3] = some view ∧
      view.maximized = true ∧ Returns oneOutput ⟨100, 100, 400, 300⟩ view := by
  obtain ⟨view, hrun, hmax⟩ : ∃ view, exec (guarded (detour oneOutput) keepsHome) homeWindow
      [.request (.maximized true none) 1, .ack 0 0 0 0, .request (.fullscreen true none) 2,
        .ack 0 0 0 0, .request (.fullscreen false none) 3] = some view ∧ view.maximized = true :=
    ⟨_, rfl, rfl⟩
  exact ⟨homeWindow_atHome, view, hrun, hmax, floating_geometry_returns _ _ _ _ homeWindow_atHome
    (Reach.of_exec_guarded _ _ hrun)⟩

/-- A window that is unmaximized and maximized again before the client has committed: the geometry of
    the maximized window is stored, and unmaximizing it asks for that. -/
theorem quick_maximize_forgets :
    AtHome ⟨100, 100, 400, 300⟩ homeWindow ∧
    ∃ view, Reach (detour oneOutput) Always homeWindow view ∧ view.floating = false ∧
      (Request.apply oneOutput view 4 (.maximized false none)).floating = true ∧
      (Request.apply oneOutput view 4 (.maximized false none)).requests.head? =
        some ⟨0, 0, 1920, 1080⟩ ∧
      ¬ Returns oneOutput ⟨100, 100, 400, 300⟩ view := by
  refine ⟨homeWindow_atHome, _, Reach.of_exec [.request (.maximized true none) 1, .ack 0 0 0 0,
    .request (.maximized false none) 2, .request (.maximized true none) 3] _ rfl,
    by decide, by decide, by decide, ?_⟩
  intro h
  have hasked := h.ends (.maximized false none) 4 (by decide) (by decide)
  exact absurd (congrArg List.head? hasked) (by decide)

end FlakeWm.Views
