import FlakeWm.Schemes.Run
import Mathlib.Logic.Function.Basic

/-! The buttons of the cursor and the nodes below it (`src/input/cursor.c`).

    Every node has handlers for clicks and for hovering; the latter return `false`, so that there is no hold
    mode, and there are no grabs, no drag and no session lock. The node below the cursor, when it is looked
    for, is part of the events. The handlers that are called are noted down, the last call first. -/

namespace FlakeWm.Pointer

/-- `BTN_LEFT`. -/
def btnLeft : ℕ := 0x110

/-- `enum click_state`. -/
inductive ClickState where | none | double | focusLost
  deriving DecidableEq, Repr

/-- A call of a handler of a node. -/
inductive Call where
  | click (node button : ℕ) (pressed : Bool) (state : ClickState)
  | hover (node : ℕ) (first hold : Bool)
  | leave (node : ℕ)
  deriving DecidableEq, Repr

/-- The part of `struct cursor` that is about nodes and buttons, the calls, and for each button that is down
    the node below the cursor when it was pressed. -/
structure State where
  hover : Option ℕ := none
  focus : Option ℕ := none
  lastClickButton : ℕ := 0
  lastClickPressed : Bool := false
  lastClickTime : UInt32 := 0
  calls : List Call := []
  down : ℕ → Option (Option ℕ) := fun _ => none

namespace State

variable (s : State)

def call (call : Call) : State := { s with calls := call :: s.calls }

/-- A handler of a node is called when there is a node. -/
def callNode (node : Option ℕ) (call : ℕ → Call) : State := node.elim s fun n => s.call (call n)

/-- A left button that is pressed tells the focus node that the cursor is somewhere else. -/
def hoverHeld : State :=
  if s.lastClickButton = btnLeft ∧ s.lastClickPressed = true ∧ s.focus ≠ s.hover then
    s.callNode s.focus fun n => .hover n false true
  else s

/-- `_cursor_feed_motion`, with the node below the cursor. -/
def feedMotion (under : Option ℕ) : State :=
  let moved := { s with hover := under }.hoverHeld
  let left := if under = s.hover then moved else moved.callNode s.hover .leave
  left.callNode under fun n => .hover n (under ≠ s.hover) false

/-- The end of `cursor_feed_button`: the focus node is clicked. -/
def click (button : ℕ) (pressed : Bool) (state : ClickState) (after : Option ℕ) : State :=
  let s := s.callNode s.focus fun n => .click n button pressed state
  if s.hover = s.focus then s.feedMotion after else s

/-- The node below the cursor gets the focus, and is hovered when no node was. -/
def enter (pressed : Bool) (under : Option ℕ) : State :=
  let entered := { s with lastClickPressed := pressed, focus := under }
  if s.hover = none then entered.callNode under fun n => .hover n true false else entered

/-- `cursor_feed_button`, with the node below the cursor, and the one that the motion after a click finds. -/
def feedButton (button : ℕ) (pressed : Bool) (time doubleClickTime : UInt32) (under after : Option ℕ) : State :=
  let oldFocus := s.focus
  let changed : Bool := under ≠ oldFocus
  let entered := s.enter pressed under
  if oldFocus.isSome && changed && !pressed && s.lastClickPressed then
    (entered.callNode oldFocus fun n => .click n s.lastClickButton false .focusLost).feedMotion after
  else if pressed then
    let doubleClick : Bool :=
      !changed && button = s.lastClickButton && time - s.lastClickTime < doubleClickTime
    let noted := { entered with
      lastClickTime := if doubleClick then 0 else time
      lastClickButton := button }
    noted.click button true (if doubleClick then .double else .none) after
  else entered.click button false .none after

end State

/-- A motion, or a button that is pressed or released. -/
inductive Event where
  | motion (under : Option ℕ)
  | button (button : ℕ) (pressed : Bool) (time doubleClickTime : UInt32) (under after : Option ℕ)
  deriving DecidableEq

/-- What an event does; a button is pressed only while it is up and released only while it is down. -/
def step (s : State) : Event → Option State
  | .motion under => some (s.feedMotion under)
  | .button button pressed time doubleClickTime under after =>
    if pressed = (s.down button).isNone then
      some { s.feedButton button pressed time doubleClickTime under after with
        down := Function.update s.down button (if pressed then some under else none) }
    else none

end FlakeWm.Pointer
