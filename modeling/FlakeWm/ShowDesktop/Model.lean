import FlakeWm.Schemes.Run
import Mathlib.Data.Finset.Insert
import Mathlib.Logic.Function.Basic

/-! Minimising all windows for a while (`src/view/view.c`, `src/view/stack_mode.c`,
    `src/view/workspace.c`).

    To show the desktop minimises the windows of the current workspace, to show the active window only
    all but that one; each window that was minimised so has a flag. A window that is minimised while
    active hands the activation on, and one that is restored ends both modes, so these functions call
    each other. They are one function `run` here, with a `Call` for each; it counts the depth of the
    calls down. Effects, scene, configuring of clients and keyboard focus are left out; the effect of
    switching workspaces is off. -/

namespace FlakeWm.ShowDesktop

/-- `struct view`; `workspace` is that of its current proxy. -/
structure View where
  mapped : Bool := true
  minimized : Bool := false
  minimizable : Bool := true
  modal : Bool := false
  activatable : Bool := true
  fullscreen : Bool := false
  activated : Bool := false
  offersFocus : Bool := false
  minimizedWhenShowDesktop : Bool := false
  minimizedWhenShowActiveOnly : Bool := false
  parent : Option ℕ := none
  children : List ℕ := []
  workspace : Option ℕ := none
  deriving DecidableEq

/-- `view_manager` with its views and the workspaces, whose proxies are listed from top to bottom. The
    families of views are not deeper than `depth`. -/
structure Manager where
  view : ℕ → View
  proxies : ℕ → List ℕ
  current : ℕ
  activated : Option ℕ := none
  globalAuthentication : Option ℕ := none
  showDesktop : Bool := false
  showActiveOnly : Bool := false
  depth : ℕ

namespace Manager

variable (s : Manager)

def setView (v : ℕ) (view : View) : Manager := { s with view := Function.update s.view v view }

/-- `view_has_modal_child`. -/
def viewHasModalChild : ℕ → ℕ → Bool
  | 0, _ => false
  | depth + 1, v => (s.view v).children.any fun child =>
      (s.view child).mapped && ((s.view child).modal || viewHasModalChild depth child)

/-- `view_has_modal_property`. -/
def viewHasModalProperty (v : ℕ) : Bool := (s.view v).modal || s.viewHasModalChild s.depth v

/-- `view_is_minimizable`. -/
def viewIsMinimizable (v : ℕ) : Bool :=
  if !(s.view v).minimizable then false
  else !(!(s.view v).minimizedWhenShowDesktop && s.viewHasModalProperty v)

/-- `view_find_fullscreen_ancestor`, with the ancestor found so far. -/
def viewFindFullscreenAncestor : ℕ → ℕ → Option ℕ → Option ℕ
  | 0, _, found => found
  | depth + 1, v, found =>
    match (s.view v).parent with
    | none => found
    | some parent => viewFindFullscreenAncestor depth parent (if (s.view parent).fullscreen then some parent else found)

end Manager

/-- A call of one of the functions. -/
inductive Call where
  | requestMinimized (v : ℕ) (minimized : Bool)
  | doMinimized (v : ℕ) (minimized : Bool)
  | activatedViewMinimized
  | setActivated (v : ℕ) (activated : Bool)
  | activateTopmost
  | doActivate (v : ℕ)
  | hideFullscreenView
  | showDesktop (enabled apply : Bool)
  | showActiveOnly (enabled apply : Bool)
  | workspaceActivate (w : ℕ)

/-- A call under a condition. -/
def callIf (condition : Bool) (call : Manager → Option Manager) (s : Manager) : Option Manager :=
  if condition then call s else some s

/-- The loop body of `view_manager_show_desktop`, given `kywc_view_set_minimized`. -/
def showDesktopView (request : ℕ → Manager → Option Manager) (enabled apply : Bool) (s : Manager) (v : ℕ) :
    Option Manager :=
  if !(s.view v).mapped then some s
  else if !enabled && !(s.view v).minimizedWhenShowDesktop then some s
  else
    let s := if enabled then
        s.setView v { s.view v with minimizedWhenShowDesktop := !(s.view v).minimized }
      else s
    (callIf (apply || s.viewHasModalProperty v) (request v) s).map fun s =>
      if !enabled then s.setView v { s.view v with minimizedWhenShowDesktop := false } else s

/-- The loop body of `view_manager_show_active_only`, given what emits the signal of the view. -/
def showActiveOnlyView (emit : ℕ → Manager → Option Manager) (active : ℕ) (enabled apply : Bool) (s : Manager)
    (v : ℕ) : Option Manager :=
  if !(s.view v).mapped || decide (v = active) || s.viewHasModalProperty v then some s
  else if !enabled && !(s.view v).minimizedWhenShowActiveOnly then some s
  else
    let s := if enabled then
        s.setView v { s.view v with minimizedWhenShowActiveOnly := !(s.view v).minimized }
      else s
    if apply && (decide ((s.view v).minimized = enabled) || !s.viewIsMinimizable v) then some s
    else
      (if apply then emit v (s.setView v { s.view v with minimized := enabled }) else some s).map fun s =>
        if !enabled then s.setView v { s.view v with minimizedWhenShowActiveOnly := false } else s

/-- A call that may go `n` deep, counting itself; `none` when it has to go deeper. -/
def run : ℕ → Call → Manager → Option Manager
  | 0, _, _ => none
  -- `kywc_view_set_minimized` and `stack_mode_view_minimized`
  | n + 1, .requestMinimized v minimized, s => callIf (s.viewIsMinimizable v) (run n (.doMinimized v minimized)) s
  -- `view_do_minimized`
  | n + 1, .doMinimized v minimized, s =>
    if (s.view v).minimized = minimized then some s
    else
      let s := s.setView v { s.view v with minimized := minimized }
      if !(s.view v).mapped then some s
      else
        (callIf (decide (s.activated = some v)) (run n .activatedViewMinimized) s).bind fun s =>
          if (s.view v).minimized then some s
          else
            (callIf s.showDesktop (run n (.showDesktop false false)) s).bind fun s =>
              callIf s.showActiveOnly (run n (.showActiveOnly false false)) s
  -- `handle_activated_view_minimized`
  | n + 1, .activatedViewMinimized, s =>
    match s.activated with
    | none => some s
    | some v =>
      if !(s.view v).minimized then some s
      else (run n (.setActivated v false) s).bind fun s => run n .activateTopmost s
  -- `view_set_activated`
  | n + 1, .setActivated v activated, s =>
    if (s.view v).activated = activated then some s
    else
      let s : Manager := { s with activated := if activated then some v else none }
      (callIf ((s.view v).minimized && activated) (run n (.requestMinimized v false)) s).map fun s =>
        s.setView v { s.view v with activated := activated }
  -- `view_activate_topmost`
  | n + 1, .activateTopmost, s =>
    match s.globalAuthentication with
    | some v => run n (.doActivate v) s
    | none =>
      let top := (s.proxies s.current).find? fun v =>
        (s.view v).mapped && !(s.view v).minimized && (s.view v).activatable
      match top with
      | none => run n .hideFullscreenView s
      | some v => if (s.view v).offersFocus then run n .hideFullscreenView s else run n (.doActivate v) s
  -- `view_do_activate`
  | n + 1, .doActivate v, s =>
    if !(s.view v).activatable then some s
    else
      (if s.activated ≠ some v then
          let last := s.activated
          (callIf s.showActiveOnly (run n (.showActiveOnly false false)) s).bind fun s =>
            (last.elim (some s) fun last => run n (.setActivated last false) s).bind fun s =>
              run n (.setActivated v true) s
        else some s).bind fun s =>
      (s.view v).workspace.elim (some s) fun w =>
        callIf (decide (w ≠ s.current)) (run n (.workspaceActivate w)) s
  -- `view_hide_fullscreen_view_in_empty_workspace`
  | n + 1, .hideFullscreenView, s =>
    match s.activated with
    | none => some s
    | some v =>
      let ancestor := (s.viewFindFullscreenAncestor s.depth v none).getD v
      callIf ((s.view ancestor).fullscreen && decide (ancestor ∉ s.proxies s.current))
        (run n (.setActivated ancestor false)) s
  -- `view_manager_show_desktop`
  | n + 1, .showDesktop enabled apply, s =>
    if s.showDesktop = enabled then some s
    else
      let s : Manager := { s with showDesktop := enabled }
      ((s.proxies s.current).reverse.foldlM
          (showDesktopView (fun v s => run n (.requestMinimized v enabled) s) enabled apply) s).bind fun s =>
        callIf (apply && !enabled) (run n .activateTopmost) s
  -- `view_manager_show_active_only`
  | n + 1, .showActiveOnly enabled apply, s =>
    if s.showActiveOnly = enabled then some s
    else
      let s : Manager := { s with showActiveOnly := enabled }
      s.activated.elim (some s) fun active =>
        (s.proxies s.current).reverse.foldlM
          (showActiveOnlyView
            (fun v s => callIf (decide (s.activated = some v)) (run n .activatedViewMinimized) s)
            active enabled apply) s
  -- `workspace_activate`
  | n + 1, .workspaceActivate w, s =>
    if s.current = w then some s
    else
      (run n (.showDesktop false true) s).bind fun s =>
        let s : Manager := { s with
          current := w
          view := fun v => if v ∈ s.proxies w then { s.view v with workspace := some w } else s.view v }
        run n .activateTopmost s

/-! ### What a call does -/

variable {n : ℕ} {s : Manager}

theorem run_requestMinimized (v : ℕ) (minimized : Bool) :
    run (n + 1) (.requestMinimized v minimized) s =
      callIf (s.viewIsMinimizable v) (run n (.doMinimized v minimized)) s := rfl

theorem run_doMinimized (v : ℕ) (minimized : Bool) :
    run (n + 1) (.doMinimized v minimized) s =
      if (s.view v).minimized = minimized then some s
      else
        let s := s.setView v { s.view v with minimized := minimized }
        if !(s.view v).mapped then some s
        else
          (callIf (decide (s.activated = some v)) (run n .activatedViewMinimized) s).bind fun s =>
            if (s.view v).minimized then some s
            else
              (callIf s.showDesktop (run n (.showDesktop false false)) s).bind fun s =>
                callIf s.showActiveOnly (run n (.showActiveOnly false false)) s := rfl

theorem run_activatedViewMinimized :
    run (n + 1) .activatedViewMinimized s =
      match s.activated with
      | none => some s
      | some v =>
        if !(s.view v).minimized then some s
        else (run n (.setActivated v false) s).bind fun s => run n .activateTopmost s := rfl

theorem run_setActivated (v : ℕ) (activated : Bool) :
    run (n + 1) (.setActivated v activated) s =
      if (s.view v).activated = activated then some s
      else
        let s : Manager := { s with activated := if activated then some v else none }
        (callIf ((s.view v).minimized && activated) (run n (.requestMinimized v false)) s).map fun s =>
          s.setView v { s.view v with activated := activated } := rfl

theorem run_activateTopmost :
    run (n + 1) .activateTopmost s =
      match s.globalAuthentication with
      | some v => run n (.doActivate v) s
      | none =>
        let top := (s.proxies s.current).find? fun v =>
          (s.view v).mapped && !(s.view v).minimized && (s.view v).activatable
        match top with
        | none => run n .hideFullscreenView s
        | some v => if (s.view v).offersFocus then run n .hideFullscreenView s else run n (.doActivate v) s := rfl

theorem run_doActivate (v : ℕ) :
    run (n + 1) (.doActivate v) s =
      if !(s.view v).activatable then some s
      else
        (if s.activated ≠ some v then
            let last := s.activated
            (callIf s.showActiveOnly (run n (.showActiveOnly false false)) s).bind fun s =>
              (last.elim (some s) fun last => run n (.setActivated last false) s).bind fun s =>
                run n (.setActivated v true) s
          else some s).bind fun s =>
        (s.view v).workspace.elim (some s) fun w =>
          callIf (decide (w ≠ s.current)) (run n (.workspaceActivate w)) s := rfl

theorem run_hideFullscreenView :
    run (n + 1) .hideFullscreenView s =
      match s.activated with
      | none => some s
      | some v =>
        let ancestor := (s.viewFindFullscreenAncestor s.depth v none).getD v
        callIf ((s.view ancestor).fullscreen && decide (ancestor ∉ s.proxies s.current))
          (run n (.setActivated ancestor false)) s := rfl

theorem run_showDesktop (enabled apply : Bool) :
    run (n + 1) (.showDesktop enabled apply) s =
      if s.showDesktop = enabled then some s
      else
        let s : Manager := { s with showDesktop := enabled }
        ((s.proxies s.current).reverse.foldlM
            (showDesktopView (fun v s => run n (.requestMinimized v enabled) s) enabled apply) s).bind fun s =>
          callIf (apply && !enabled) (run n .activateTopmost) s := rfl

end FlakeWm.ShowDesktop
