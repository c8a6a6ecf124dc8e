import FlakeWm.Gestures.Model
import Mathlib.Algebra.Order.Field.Rat

/-! The points of a touch device and its gestures (`src/input/touch.c`).

    Points are never freed while the device is there: one that is released gets the identifier -1 and goes to
    the end of the list, where the next touch finds it. What the bindings answer to a gesture, whether a grab
    takes an event, and whether a timer can be made are part of the events; an action of a binding may reset
    the gestures. The counts by which averages are divided are noted down. Floats are rationals, and the angle
    of a pinch is left out. -/

namespace FlakeWm.TouchPoints

open Gestures (GestureType GestureEdge Direction)

/-- `struct touch_point`. `timer` is whether it has a timer, `armed` whether that runs. -/
structure TouchPoint where
  touchId : ℤ
  timer : Bool := false
  armed : Bool := false
  hold : Bool := false
  moved : Bool := false
  absX : ℚ := 0
  absY : ℚ := 0
  lastX : ℚ := 0
  lastY : ℚ := 0
  dx : ℚ := 0
  dy : ℚ := 0
  directions : Option Direction := none
  deriving DecidableEq

def TouchPoint.used (point : TouchPoint) : Bool := 0 ≤ point.touchId

/-- What the touches read of `struct gesture_state`. -/
structure GestureState where
  type : GestureType := .none
  edge : Option GestureEdge := none
  fingers : ℕ := 0
  handled : Bool := false
  deriving DecidableEq

/-- The identifiers that the device has down, and the counts by which averages were divided, beside the device
    and the session lock. -/
structure Touch where
  points : List TouchPoint := []
  pointsCount : ℕ := 0
  filterEnabled : Bool := false
  gestures : GestureState := {}
  holdPoints : ℕ := 0
  holdCanceled : Bool := false
  locked : Bool := false
  down : ℤ → Bool := fun _ => false
  divisors : List ℕ := []

/-- What a binding says to a gesture, and whether its action resets the gestures. -/
structure Answer where
  handled : Bool := false
  resets : Bool := false
  deriving DecidableEq

/-- The first element that is found is replaced. -/
def updateFirst {α : Type} (p : α → Bool) (f : α → α) : List α → List α
  | [] => []
  | a :: l => if p a then f a :: l else a :: updateFirst p f l

def ofId (touchId : ℤ) (point : TouchPoint) : Bool := point.touchId = touchId

/-- The free points come to the end of the loops: nothing is done to the first free one and those after it. -/
def disarmUsed : List TouchPoint → List TouchPoint
  | [] => []
  | point :: l => if point.used then { point with armed := false } :: disarmUsed l else point :: l

namespace Touch

variable (t : Touch)

/-- The points that a loop comes by which stops at the first free one. -/
def visited : List TouchPoint := t.points.takeWhile TouchPoint.used

/-- `touch_calc_edge`. -/
def calcEdge : Option GestureEdge :=
  let avgX := (t.visited.map TouchPoint.absX).sum / t.pointsCount
  let avgY := (t.visited.map TouchPoint.absY).sum / t.pointsCount
  if avgY ≥ 95 / 100 then some .bottom
  else if avgX ≥ 95 / 100 then some .right
  else if avgX ≤ 5 / 100 then some .left
  else if avgY ≤ 5 / 100 then some .top
  else none

/-- `touch_reset_gesture`, for this device. -/
def resetGesture : Touch :=
  { t with
    filterEnabled := false
    points := disarmUsed t.points
    gestures := { t.gestures with type := .none, edge := none, handled := false } }

/-- `gesture_state_end`, of a gesture of the touch screen. -/
def gestureEnd (type : GestureType) (answer : Answer) : Touch :=
  if t.gestures.type ≠ type then t
  else
    let t := if answer.resets then t.resetGesture else t
    { t with gestures := { t.gestures with type := .none, edge := none, handled := false } }

/-- `touch_gesture_begin`: whether a gesture began. -/
def gestureBegin (gesture : GestureType) (fingers : ℕ) (answer : Answer) : Bool × Touch :=
  if t.gestures.type = gesture ∧ t.gestures.fingers = fingers % 256 then (false, t)
  else
    let t := if t.gestures.type ≠ .none then t.gestureEnd t.gestures.type answer else t
    if gesture = .none then (false, t)
    else (true, { t with
      divisors := t.pointsCount :: t.divisors
      gestures := { t.gestures with type := gesture, edge := t.calcEdge, fingers := fingers % 256 } })

/-- The loop that compares the directions of the points. -/
def oneDirection : Option Direction → List TouchPoint → Bool
  | _, [] => true
  | none, point :: l => oneDirection point.directions l
  | some direction, point :: l =>
      if point.directions = some direction then oneDirection (some direction) l else false

/-- `touch_gesture_detect`. -/
def gestureDetect (answer : Answer) : Touch :=
  if t.pointsCount = 0 then t
  else if !t.visited.all TouchPoint.moved then
    if t.holdPoints ≠ 0 ∧ t.holdCanceled = false then
      let begun := t.gestureBegin .hold t.holdPoints answer
      if begun.1 then begun.2
      else { (if begun.2.holdPoints ≠ 1 then begun.2.gestureEnd .hold answer else begun.2) with holdCanceled := true }
    else t
  else if t.pointsCount = 1 then (t.gestureBegin .swipe 1 answer).2
  else (t.gestureBegin (if oneDirection none t.visited then .swipe else .pinch) t.pointsCount answer).2

/-- The loop of `touch_point_create`: the point of the identifier, the first free one, or a new one at the end. -/
def pointCreate (points : List TouchPoint) (touchId : ℤ) (timer : Bool) : List TouchPoint :=
  if points.any (ofId touchId) then points
  else if points.any (fun point => !point.used) then
    updateFirst (fun point => !point.used) (fun point => { point with touchId := touchId }) points
  else points ++ [{ touchId := touchId, timer := timer }]

/-- `touch_point_reset` after the end of the gesture: the point goes to the end of the list. -/
def release (touchId : ℤ) : Touch :=
  match t.points.find? (ofId touchId) with
  | none => t
  | some point =>
    { t with
      points := t.points.eraseP (ofId touchId) ++ [{ point with touchId := -1, armed := false, hold := false }]
      pointsCount := t.pointsCount - 1
      holdPoints := if point.hold then t.holdPoints - 1 else t.holdPoints
      holdCanceled := if t.pointsCount - 1 = 0 then false else t.holdCanceled }

/-- `touch_point_reset`. -/
def pointReset (touchId : ℤ) (answer : Answer) : Touch :=
  let t := if t.gestures.type = .none then t
    else { t with holdCanceled := t.holdCanceled || decide (t.gestures.type = GestureType.hold) }.gestureEnd t.gestures.type answer
  t.release touchId

/-- A point that is put down; its timer starts. -/
def putPoint (x y : ℚ) (point : TouchPoint) : TouchPoint :=
  { point with
    armed := point.armed || point.timer, absX := x, lastX := x, absY := y, lastY := y, moved := false }

/-- `touch_handle_down`, up to the surface. -/
def handleDown (touchId : ℤ) (x y : ℚ) (grab timer : Bool) : Touch :=
  if !t.locked && grab then t
  else { t with
    points := updateFirst (ofId touchId) (putPoint x y) (pointCreate t.points touchId timer)
    pointsCount := t.pointsCount + 1 }

/-- `touch_point_calc_directions`. -/
def calcDirections (dx dy : ℚ) : Direction :=
  if |dx| > |dy| then if dx > 0 then .right else .left
  else if dy > 0 then .down else .up

/-- `0.01f`. -/
def moveThreshold : ℚ := 10737418 / 1073741824

/-- A point that moves. -/
def movePoint (x y : ℚ) (point : TouchPoint) : TouchPoint :=
  { point with
    dx := x - point.lastX
    dy := y - point.lastY
    lastX := x
    lastY := y
    moved := |x - point.absX| > moveThreshold || |y - point.absY| > moveThreshold
    directions := some (calcDirections (x - point.absX) (y - point.absY)) }

/-- `touch_calc_average_delta`. -/
def averageDelta : ℚ × ℚ :=
  ((t.visited.map TouchPoint.dx).sum / t.pointsCount, (t.visited.map TouchPoint.dy).sum / t.pointsCount)

/-- The averages are computed for a swipe or a pinch; a swipe asks the bindings. -/
def gestureUpdate (answer : Answer) : Touch :=
  if t.gestures.type = .swipe then
    let t := { t with divisors := t.pointsCount :: t.divisors }
    let t := if answer.resets then t.resetGesture else t
    { t with gestures := { t.gestures with handled := answer.handled } }
  else if t.gestures.type = .pinch then { t with divisors := t.pointsCount :: t.divisors }
  else t

/-- `touch_handle_motion`, up to the surfaces. -/
def handleMotion (touchId : ℤ) (x y : ℚ) (grab : Bool) (ended updated : Answer) : Touch :=
  if !t.locked && grab then t
  else if !t.points.any (ofId touchId) then t
  else
    let t := { t with points := updateFirst (ofId touchId) (movePoint x y) t.points }
    if !t.locked && !t.filterEnabled then
      (if t.gestures.handled then t else t.gestureDetect ended).gestureUpdate updated
    else t

/-- `touch_handle_up` and `touch_handle_cancel`, up to the grab and the surfaces. -/
def handleUp (touchId : ℤ) (answer : Answer) : Touch :=
  if t.points.any (ofId touchId) then t.pointReset touchId answer else t

/-- `touch_point_handle_timer`. -/
def holdTimer (i : ℕ) (answer : Answer) : Touch :=
  let t := { t with
    points := t.points.modify i fun point => { point with hold := true, armed := false }
    holdPoints := t.holdPoints + 1 }
  if t.filterEnabled then t
  else if t.gestures.type = .none then { t with filterEnabled := true }
  else if t.gestures.type = .hold then (t.gestureBegin .hold t.holdPoints answer).2
  else t

/-- `touch_handle_timer`. -/
def filterTimer (answer : Answer) : Touch := { t with filterEnabled := false }.gestureDetect answer

end Touch

inductive Event where
  | down (touchId : ℤ) (x y : ℚ) (grab timer : Bool)
  | motion (touchId : ℤ) (x y : ℚ) (grab : Bool) (ended updated : Answer)
  | up (touchId : ℤ) (answer : Answer)
  | cancel (touchId : ℤ) (answer : Answer)
  | holdTimer (i : ℕ) (answer : Answer)
  | filterTimer (answer : Answer)
  | resetGesture
  | lock (locked : Bool)

/-- What an event does. Identifiers are not negative, none is put down while it is down, and a timer fires only
    while it runs. -/
def step (t : Touch) : Event → Option Touch
  | .down touchId x y grab timer =>
    if 0 ≤ touchId ∧ t.down touchId = false then
      some { t.handleDown touchId x y grab timer with down := Function.update t.down touchId true }
    else none
  | .motion touchId x y grab ended updated =>
    if 0 ≤ touchId then some (t.handleMotion touchId x y grab ended updated) else none
  | .up touchId answer | .cancel touchId answer =>
    if 0 ≤ touchId then
      some { t.handleUp touchId answer with down := Function.update t.down touchId false }
    else none
  | .holdTimer i answer => if (t.points[i]?.map TouchPoint.armed) = some true then some (t.holdTimer i answer) else none
  | .filterTimer answer => if t.filterEnabled then some (t.filterTimer answer) else none
  | .resetGesture => some t.resetGesture
  | .lock locked => some { t with locked := locked }

end FlakeWm.TouchPoints
