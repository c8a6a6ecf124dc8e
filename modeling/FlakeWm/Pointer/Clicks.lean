import FlakeWm.Pointer.Model
import Mathlib.Data.List.Basic

/-! Which node gets the release of a button: the one that got the press, when the release comes on that node
    or right after the press. -/

namespace FlakeWm.Pointer

open State

variable {s s' : State} {n m b c : ℕ} {under after : Option ℕ} {pressed : Bool} {time doubleClickTime : UInt32}

/-- A call as a click of a button on a node. -/
def Call.clickOn (n b : ℕ) : Call → Option Bool
  | click m c pressed _ => if m = n ∧ c = b then some pressed else none
  | _ => none

/-- The clicks of a button on a node, the last first. -/
def clicksOn (s : State) (n b : ℕ) : List Bool := s.calls.filterMap (Call.clickOn n b)

/-- Presses and releases alternate, and the first is a press. -/
def Alternates : List Bool → Prop
  | [] => True
  | pressed :: clicks => pressed = !(clicks.headD false) ∧ Alternates clicks

/-- All but the calls and the node that is hovered is the same, and no node is clicked. -/
structure Quiet (s s' : State) : Prop where
  clicks : ∀ n b, clicksOn s' n b = clicksOn s n b
  focus : s'.focus = s.focus
  lastClickButton : s'.lastClickButton = s.lastClickButton
  lastClickPressed : s'.lastClickPressed = s.lastClickPressed
  down : s'.down = s.down

theorem Quiet.refl (s : State) : Quiet s s := ⟨fun _ _ => rfl, rfl, rfl, rfl, rfl⟩

theorem Quiet.trans {s'' : State} (h : Quiet s s') (h' : Quiet s' s'') : Quiet s s'' :=
  ⟨fun n b => (h'.clicks n b).trans (h.clicks n b), h'.focus.trans h.focus, h'.lastClickButton.trans h.lastClickButton,
    h'.lastClickPressed.trans h.lastClickPressed, h'.down.trans h.down⟩

@[simp] theorem callNode_focus (s : State) (node : Option ℕ) (call : ℕ → Call) : (s.callNode node call).focus = s.focus := by
  cases node <;> rfl

@[simp] theorem callNode_lastClickButton (s : State) (node : Option ℕ) (call : ℕ → Call) :
    (s.callNode node call).lastClickButton = s.lastClickButton := by
  cases node <;> rfl

@[simp] theorem callNode_lastClickPressed (s : State) (node : Option ℕ) (call : ℕ → Call) :
    (s.callNode node call).lastClickPressed = s.lastClickPressed := by
  cases node <;> rfl

/-- Calls that are no clicks are quiet. -/
theorem callNode_quiet (s : State) (node : Option ℕ) {call : ℕ → Call} (hcall : ∀ m n b, (call m).clickOn n b = none) :
    Quiet s (s.callNode node call) := by
  cases node with
  | none => exact .refl s
  | some m => exact ⟨fun n b => List.filterMap_cons_none (hcall m n b), rfl, rfl, rfl, rfl⟩

theorem hoverHeld_quiet (s : State) : Quiet s s.hoverHeld := by
  rw [hoverHeld]
  split
  · exact callNode_quiet s s.focus fun _ _ _ => rfl
  · exact .refl s

/-- A motion clicks nothing. -/
theorem feedMotion_quiet (s : State) (under : Option ℕ) : Quiet s (s.feedMotion under) := by
  have hset : Quiet s { s with hover := under } := ⟨fun _ _ => rfl, rfl, rfl, rfl, rfl⟩
  have hmoved := hset.trans (hoverHeld_quiet { s with hover := under })
  rw [feedMotion]
  refine Quiet.trans ?_ (callNode_quiet _ under fun _ _ _ => rfl)
  split
  · exact hmoved
  · exact hmoved.trans (callNode_quiet _ s.hover fun _ _ _ => rfl)

theorem clicksOn_call_click (s : State) (m c : ℕ) (pressed : Bool) (state : ClickState) (n b : ℕ) :
    clicksOn (s.call (.click m c pressed state)) n b =
      if m = n ∧ c = b then pressed :: clicksOn s n b else clicksOn s n b := by
  simp only [clicksOn, State.call, List.filterMap_cons, Call.clickOn]
  split <;> simp_all

/-- What a button event does to the clicks: one click on one node, if there is a node. -/
structure Clicks (s s' : State) (target : Option ℕ) (button : ℕ) (pressed : Bool) : Prop where
  clicks : ∀ n b, clicksOn s' n b = if target = some n ∧ button = b then pressed :: clicksOn s n b else clicksOn s n b
  down : s'.down = s.down

/-- Quiet steps around a click change nothing about it. -/
theorem callNode_clicks {s₁ : State} (hbefore : ∀ n b, clicksOn s₁ n b = clicksOn s n b) (hdown : s₁.down = s.down)
    (target : Option ℕ) (button : ℕ) (pressed : Bool) (state : ClickState) :
    Clicks s (s₁.callNode target fun n => .click n button pressed state) target button pressed := by
  cases target with
  | none => exact ⟨fun n b => by simp [callNode, hbefore], hdown⟩
  | some m => exact ⟨fun n b => by simp [callNode, clicksOn_call_click, hbefore], hdown⟩

theorem Clicks.quiet {s'' : State} {target : Option ℕ} (h : Clicks s s' target b pressed) (hquiet : Quiet s' s'') :
    Clicks s s'' target b pressed :=
  ⟨fun n c => (hquiet.clicks n c).trans (h.clicks n c), hquiet.down.trans h.down⟩

/-- The end of a button event clicks the focus node. -/
theorem click_clicks {s₁ : State} {target : Option ℕ} (hbefore : ∀ n b, clicksOn s₁ n b = clicksOn s n b)
    (hdown : s₁.down = s.down) (hfocus : s₁.focus = target) (button : ℕ) (pressed : Bool) (state : ClickState)
    (after : Option ℕ) :
    Clicks s (s₁.click button pressed state after) target button pressed ∧
      (s₁.click button pressed state after).focus = target ∧
      (s₁.click button pressed state after).lastClickButton = s₁.lastClickButton ∧
      (s₁.click button pressed state after).lastClickPressed = s₁.lastClickPressed := by
  have hclicks := callNode_clicks hbefore hdown target button pressed state
  rw [click, hfocus]
  split
  · have hquiet := feedMotion_quiet (s₁.callNode target fun n => .click n button pressed state) after
    exact ⟨hclicks.quiet hquiet, hquiet.focus.trans ((callNode_focus ..).trans hfocus),
      hquiet.lastClickButton.trans (callNode_lastClickButton ..),
      hquiet.lastClickPressed.trans (callNode_lastClickPressed ..)⟩
  · exact ⟨hclicks, (callNode_focus ..).trans hfocus, callNode_lastClickButton .., callNode_lastClickPressed ..⟩

/-- A release goes to the node that had the focus instead of the one below the cursor. -/
def redirects (s : State) (under : Option ℕ) : Bool := s.focus.isSome && under ≠ s.focus && s.lastClickPressed

/-- Entering a node clicks nothing. -/
theorem enter_spec (s : State) (pressed : Bool) (under : Option ℕ) :
    (∀ n b, clicksOn (s.enter pressed under) n b = clicksOn s n b) ∧ (s.enter pressed under).down = s.down ∧
      (s.enter pressed under).focus = under ∧ (s.enter pressed under).lastClickPressed = pressed := by
  have hquiet : Quiet { s with lastClickPressed := pressed, focus := under } (s.enter pressed under) := by
    rw [enter]
    split
    · exact callNode_quiet _ under fun _ _ _ => rfl
    · exact .refl _
  exact ⟨hquiet.clicks, hquiet.down, hquiet.focus, hquiet.lastClickPressed⟩

/-- A press clicks the node below the cursor, which gets the focus. -/
theorem feedButton_press (s : State) (button : ℕ) (time doubleClickTime : UInt32) (under after : Option ℕ) :
    Clicks s (s.feedButton button true time doubleClickTime under after) under button true ∧
      (s.feedButton button true time doubleClickTime under after).focus = under ∧
      (s.feedButton button true time doubleClickTime under after).lastClickButton = button ∧
      (s.feedButton button true time doubleClickTime under after).lastClickPressed = true := by
  obtain ⟨hclicks, hdown, hfocus, hpressed⟩ := enter_spec s true under
  simp only [feedButton, Bool.not_true, Bool.and_false, Bool.false_and, Bool.false_eq_true, if_false, if_true]
  have hnoted (t : UInt32) (state : ClickState) :=
    @click_clicks s { s.enter true under with lastClickTime := t, lastClickButton := button } under
      hclicks hdown hfocus button true state after
  obtain ⟨hclick, hf, hb, hp⟩ := hnoted _ _
  exact ⟨hclick, hf, hb, hp.trans hpressed⟩

/-- A release clicks the node below the cursor, or the node that has lost the focus. -/
theorem feedButton_release (s : State) (button : ℕ) (time doubleClickTime : UInt32) (under after : Option ℕ) :
    Clicks s (s.feedButton button false time doubleClickTime under after)
        (if redirects s under then s.focus else under) (if redirects s under then s.lastClickButton else button) false ∧
      (s.feedButton button false time doubleClickTime under after).lastClickPressed = false := by
  obtain ⟨hclicks, hdown, hfocus, hpressed⟩ := enter_spec s false under
  have hredirects : (s.focus.isSome && decide (under ≠ s.focus) && !false && s.lastClickPressed) = redirects s under := by
    simp [redirects]
  simp only [feedButton, hredirects]
  by_cases hr : redirects s under = true
  · simp only [hr, if_true]
    have hclick := callNode_clicks hclicks hdown s.focus s.lastClickButton false .focusLost
    have hmotion := feedMotion_quiet
      ((s.enter false under).callNode s.focus fun n => .click n s.lastClickButton false .focusLost) after
    refine ⟨hclick.quiet hmotion, hmotion.lastClickPressed.trans ?_⟩
    rw [callNode_lastClickPressed, hpressed]
  · simp only [hr, if_false, Bool.false_eq_true]
    obtain ⟨hclick, _, _, hp⟩ := click_clicks hclicks hdown hfocus button false .none after
    exact ⟨hclick, hp.trans hpressed⟩

/-- A release comes on the node on which the button was pressed; when another node has the focus from the
    press before it, that was the press of the same button. -/
def Routed (s : State) : Event → Bool
  | .button button false _ _ under _ =>
    if redirects s under then button = s.lastClickButton else s.down button = some under
  | _ => true

/-- The clicks of every button on every node alternate, and the last is a press on the node on which the
    button is down. -/
structure Inv (s : State) : Prop where
  alternates : ∀ n b, Alternates (clicksOn s n b)
  last : ∀ n b, (clicksOn s n b).headD false = decide (s.down b = some (some n))
  pressed : s.lastClickPressed = true → s.down s.lastClickButton = some s.focus

/-- A click that presses a button that was up, or releases it where it was pressed. -/
theorem Clicks.inv {target : Option ℕ} {s'' : State} (h : Inv s) (hclicks : Clicks s s' target b pressed)
    (hcalls : s''.calls = s'.calls) {now : Option (Option ℕ)} (hdown : s''.down = Function.update s.down b now)
    (hold : if pressed then s.down b = none else s.down b = some target)
    (hnow : now = if pressed then some target else none)
    (hlast : s''.lastClickPressed = true → s''.down s''.lastClickButton = some s''.focus) : Inv s'' := by
  have hclicks' : ∀ n c, clicksOn s'' n c = if target = some n ∧ b = c then pressed :: clicksOn s n c else clicksOn s n c :=
    fun n c => by rw [← hclicks.clicks n c, clicksOn, hcalls, clicksOn]
  refine ⟨fun n c => ?_, fun n c => ?_, hlast⟩
  · rw [hclicks']
    split
    next hthis =>
      obtain ⟨rfl, rfl⟩ := hthis
      refine ⟨?_, h.alternates n b⟩
      rw [h.last]
      cases pressed <;> simp_all
    · exact h.alternates n c
  · rw [hclicks', hdown]
    by_cases hc : b = c
    · subst hc
      rw [Function.update_self, hnow]
      have hl := h.last n b
      cases pressed with
      | true =>
        simp only [if_true] at hold ⊢
        rw [hold] at hl
        by_cases ht : target = some n <;> simp_all
      | false =>
        simp only [Bool.false_eq_true, if_false] at hold ⊢
        rw [hold] at hl
        by_cases ht : target = some n <;> simp_all
    · rw [Function.update_of_ne (Ne.symm hc), if_neg fun hthis => hc hthis.2]
      exact h.last n c

/-- One step keeps the invariant. -/
theorem step_inv {e : Event} (h : Inv s) (hrouted : Routed s e = true) (hs : step s e = some s') : Inv s' := by
  cases e with
  | motion under =>
    obtain rfl := Option.some.inj hs
    have hquiet := feedMotion_quiet s under
    refine ⟨fun n b => hquiet.clicks n b ▸ h.alternates n b, fun n b => ?_, fun hpressed => ?_⟩
    · rw [hquiet.clicks, hquiet.down, h.last]
    · rw [hquiet.down, hquiet.lastClickButton, hquiet.focus]
      exact h.pressed (hquiet.lastClickPressed ▸ hpressed)
  | button button pressed time doubleClickTime under after =>
    obtain ⟨hguard, heq⟩ := Option.ite_none_right_eq_some.1 hs
    obtain rfl := Option.some.inj heq
    cases pressed with
    | true =>
      obtain ⟨hclicks, hfocus, hbutton, _⟩ := feedButton_press s button time doubleClickTime under after
      refine hclicks.inv h rfl rfl ?_ rfl fun _ => ?_
      · simpa using hguard.symm
      · simp only [hbutton, hfocus, if_true, Function.update_self]
    | false =>
      obtain ⟨hclicks, hlast⟩ := feedButton_release s button time doubleClickTime under after
      simp only [Routed] at hrouted
      by_cases hr : redirects s under = true
      · simp only [hr, if_true, decide_eq_true_eq] at hrouted hclicks
        subst hrouted
        refine hclicks.inv h rfl rfl ?_ rfl fun hpressed => by simp [hlast] at hpressed
        simp only [redirects, Bool.and_eq_true] at hr
        exact h.pressed hr.2
      · simp only [hr, if_false, Bool.false_eq_true, decide_eq_true_eq] at hrouted hclicks
        exact hclicks.inv h rfl rfl hrouted rfl fun hpressed => by simp [hlast] at hpressed

/-- Every node gets presses and releases of a button in turns, and once no button is down every press that a
    node got was followed by its release. -/
structure Balanced (s : State) : Prop where
  alternates : ∀ n b, Alternates (clicksOn s n b)
  released : (∀ b, s.down b = none) → ∀ n b, (clicksOn s n b).head? ≠ some true

/-- No button is left pressed on a node in the runs in which each release is routed to where the button was
    pressed. -/
theorem no_button_left_pressed (h : Reach step (fun s e => Routed s e = true) {} s) : Balanced s := by
  have hstart : Inv {} :=
    { alternates := fun _ _ => trivial
      last := fun _ _ => rfl
      pressed := fun hpressed => absurd hpressed Bool.false_ne_true }
  have hinv : Inv s := h.inv hstart fun _ _ _ => step_inv
  refine ⟨hinv.alternates, fun hup n b hhead => ?_⟩
  have hlast := hinv.last n b
  rw [List.headD_eq_head?_getD, hhead, hup b] at hlast
  simp at hlast

/-- The left button is pressed on node 0 and released over node 1. -/
def dragged : List Event :=
  [.motion (some 0), .button btnLeft true 10 400 (some 0) (some 0), .motion (some 1),
    .button btnLeft false 20 400 (some 1) (some 1)]

/-- The release goes to node 0. -/
theorem dragged_balanced : ∃ s, exec (guarded step Routed) {} dragged = some s ∧
    clicksOn s 0 btnLeft = [false, true] ∧ clicksOn s 1 btnLeft = [] ∧ Balanced s := by
  have hrun : (exec (guarded step Routed) {} dragged).map
      (fun s => (clicksOn s 0 btnLeft, clicksOn s 1 btnLeft)) = some ([false, true], []) := by decide
  obtain ⟨s, hs, hclicks⟩ := Option.map_eq_some_iff.1 hrun
  exact ⟨s, hs, congrArg Prod.fst hclicks, congrArg Prod.snd hclicks, no_button_left_pressed (.of_exec_guarded _ _ hs)⟩

/-- The left button is pressed on node 0, the right one on node 1, and the left one is released there. -/
def chorded : List Event :=
  [.motion (some 0), .button btnLeft true 10 400 (some 0) (some 0), .motion (some 1),
    .button (btnLeft + 1) true 20 400 (some 1) (some 1), .button btnLeft false 30 400 (some 1) (some 1)]

/-- Node 1 gets the release of a button that it never got the press of. -/
theorem chorded_not_balanced : ¬ ∀ s, Reach step Always {} s → Balanced s := by
  intro hall
  have hrun : (exec step {} chorded).map (fun s => clicksOn s 1 btnLeft) = some [false] := by decide
  obtain ⟨s, hs, hclicks⟩ := Option.map_eq_some_iff.1 hrun
  have halternates := (hall s (.of_exec _ _ hs)).alternates 1 btnLeft
  rw [hclicks] at halternates
  exact absurd halternates.1 (by decide)

end FlakeWm.Pointer
