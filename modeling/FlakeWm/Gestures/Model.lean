import FlakeWm.Schemes.Run
import Mathlib.Data.Finset.Basic
import Mathlib.Data.Rat.Defs

/-! Bindings for gestures (`src/input/binding.c`).

    A binding is for a type, a stage and a number of fingers, and for sets of devices, directions and
    edges, where no direction or edge stands for any. It is registered at the head of the table unless it
    conflicts with one that is there, and a gesture goes to the first binding that it matches. -/

namespace FlakeWm.Gestures

/-- `enum gesture_type`. -/
inductive GestureType where | none | pinch | swipe | hold
  deriving DecidableEq, Repr

/-- `enum gesture_stage`. -/
inductive GestureStage where | none | before | trigger | after | stop
  deriving DecidableEq, Repr

/-- The bits of `enum gesture_device`. -/
inductive Device where | touchpad | touchscreen
  deriving DecidableEq, Repr

/-- The bits of `enum gesture_direction`. -/
inductive Direction where
  | up | down | left | right | inward | outward | clockwise | counterclockwise
  deriving DecidableEq, Repr

/-- The bits of `enum gesture_edge`. -/
inductive GestureEdge where | top | bottom | left | right
  deriving DecidableEq, Repr

/-- `struct gesture_binding`. -/
structure GestureBinding where
  type : GestureType
  stage : GestureStage
  fingers : ℕ
  devices : Finset Device
  directions : Finset Direction
  followDirection : Finset Direction := ∅
  edges : Finset GestureEdge := ∅
  followThreshold : ℚ := 0
  deriving DecidableEq

/-- What `struct gesture_state` says of a gesture; it comes from one device and begins at one edge, if
    any. -/
structure GestureState where
  type : GestureType
  stage : GestureStage
  device : Option Device
  edge : Option GestureEdge := none
  fingers : ℕ
  directions : Finset Direction
  followDirection : Finset Direction := ∅
  followDx : ℚ := 0
  followDy : ℚ := 0

/-- Two masks have a bit in common. -/
def meet {α : Type} [DecidableEq α] (a b : Finset α) : Bool := decide (a ∩ b ≠ ∅)

/-- An `enum` value that is one bit or none, as a mask. -/
def bit {α : Type} [DecidableEq α] (a : Option α) : Finset α := a.elim ∅ fun a => {a}

/-- The registered binding `bind` is in the way of another one. -/
def conflicts (bind b : GestureBinding) : Bool :=
  decide (bind.type = b.type) && meet bind.devices b.devices && decide (bind.stage = b.stage) &&
    (decide (bind.directions = ∅) || meet bind.directions b.directions) &&
    (decide (bind.edges = ∅) || meet b.edges bind.edges) &&
    decide (bind.fingers = b.fingers) && decide (bind.followDirection = b.followDirection)

variable (binding : ℕ → GestureBinding)

/-- `gesture_binding_is_valid`; the bindings are objects with a number. -/
def gestureBindingIsValid (table : List ℕ) (b : ℕ) : Bool :=
  table.all fun bind => decide (bind = b) || !conflicts (binding bind) (binding b)

/-- `kywc_gesture_binding_register`, with the table after it. -/
def kywcGestureBindingRegister (table : List ℕ) (b : ℕ) : List ℕ × Bool :=
  if b ∈ table then (table, true)
  else if gestureBindingIsValid binding table b then (b :: table, true)
  else (table, false)

/-- The follow of a gesture is below the threshold of the binding. -/
def belowThreshold (state : GestureState) (b : GestureBinding) : Bool :=
  decide (state.followDx > -b.followThreshold) && decide (state.followDx < b.followThreshold) &&
    decide (state.followDy > -b.followThreshold) && decide (state.followDy < b.followThreshold)

/-- The condition in the loop of `bindings_handle_gesture_binding`. -/
def matchesGesture (state : GestureState) (b : GestureBinding) : Bool :=
  decide (state.type = b.type) && decide (state.fingers = b.fingers) && decide (state.stage = b.stage) &&
    !(decide (state.stage = .before ∨ state.stage = .after) &&
      (decide (state.followDirection ≠ b.followDirection) || belowThreshold state b)) &&
    meet (bit state.device) b.devices &&
    (decide (b.directions = ∅) || decide (b.stage = .before) || meet state.directions b.directions) &&
    (decide (b.edges = ∅) || meet (bit state.edge) b.edges)

/-- `bindings_handle_gesture_binding`: the binding that a gesture goes to. -/
def bindingsHandleGestureBinding (table : List ℕ) (state : GestureState) : Option ℕ :=
  table.find? fun b => matchesGesture state (binding b)

end FlakeWm.Gestures
