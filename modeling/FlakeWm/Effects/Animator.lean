import Mathlib.Algebra.Order.Field.Rat
import Mathlib.Logic.Function.Basic
import FlakeWm.Box

/-! The animator (`src/effect/animator.c`).

    Floats are rationals; the integers of the geometry are cut off towards zero. An animation is what its table
    of points gives below 1, and an animator without an animation for a component leaves that component alone.
    The three linear functions of the source and the four of its geometry are one family. -/

namespace FlakeWm.Effects

/-- The conversion to an `int`. -/
def toInt (v : ℤ) : ℤ := v.bmod (2 ^ 32)

/-- The conversion of a float to an `int`. -/
def truncate (q : ℚ) : ℤ := q.num.tdiv q.den

@[simp] theorem truncate_intCast (v : ℤ) : truncate v = v := by
  rw [truncate, Rat.num_intCast, Rat.den_intCast, Nat.cast_one, Int.tdiv_one]

abbrev Animation := ℚ → ℚ

def animationValue (animation : Animation) (x : ℚ) : ℚ := if x ≥ 1 then 1 else animation x

/-- The animations that the manager finds for the types of a group. -/
structure AnimationTypeGroup where
  geometry : Option Animation
  alpha : Option Animation
  angle : Option Animation

structure AnimationData where
  alpha : ℚ
  angle : ℚ
  geometry : Box
  deriving DecidableEq

/-- What is animated, the bits of `enum animator_mask`. -/
inductive Component where | alpha | angle | x | y | width | height
  deriving DecidableEq, Repr

/-- The value of a component. -/
def AnimationData.get (data : AnimationData) : Component → ℚ
  | .alpha => data.alpha
  | .angle => data.angle
  | .x => data.geometry.x
  | .y => data.geometry.y
  | .width => data.geometry.width
  | .height => data.geometry.height

/-- Floats are stored as they are, the integers of the geometry after a conversion. -/
def AnimationData.set (data : AnimationData) (c : Component) (v : ℚ) : AnimationData :=
  match c with
  | .alpha => { data with alpha := v }
  | .angle => { data with angle := v }
  | .x => { data with geometry.x := truncate v }
  | .y => { data with geometry.y := truncate v }
  | .width => { data with geometry.width := truncate v }
  | .height => { data with geometry.height := truncate v }

structure LinearFunction where
  k : ℚ := 0
  b : ℚ := 0
  deriving DecidableEq

def linearFunctionInit (x₁ y₁ x₂ y₂ : ℚ) : LinearFunction :=
  let deltaX := x₂ - x₁
  let k := if deltaX ≠ 0 then (y₂ - y₁) / deltaX else 0
  { k := k, b := y₁ - k * x₁ }

/-- The value of the line. -/
def LinearFunction.eval (func : LinearFunction) (x : ℚ) : ℚ := x * func.k + func.b

structure AnimationEntity where
  animation : Option Animation
  value : ℚ := 0

structure Animator where
  masks : Component → Bool := fun _ => false
  startTime : ℤ
  currentTime : ℤ
  endTime : ℤ
  current : AnimationData
  endData : AnimationData
  geometry : AnimationEntity
  alpha : AnimationEntity
  angle : AnimationEntity
  func : Component → LinearFunction := fun _ => {}

def maxAnimationValue : ℚ := 1

def animatorCreate (start : AnimationData) (type : AnimationTypeGroup) (startTime endTime : ℤ) : Option Animator :=
  if type.geometry.isNone && type.alpha.isNone && type.angle.isNone then none
  else some {
    startTime := startTime
    currentTime := startTime
    endTime := endTime
    current := start
    endData := start
    geometry := { animation := type.geometry }
    alpha := { animation := type.alpha }
    angle := { animation := type.angle } }

def AnimationEntity.update (entity : AnimationEntity) (x : ℚ) : AnimationEntity :=
  { entity with value := entity.animation.elim entity.value fun animation => animationValue animation x }

namespace Animator

variable (a : Animator)

/-- The animation of a component. -/
def entity : Component → AnimationEntity
  | .alpha => a.alpha
  | .angle => a.angle
  | .x | .y | .width | .height => a.geometry

/-- The ratio of the times at a time that was converted to an `int`. -/
def progress (currentTime : ℤ) : ℚ :=
  ((currentTime - a.startTime : ℤ) : ℚ) / ((a.endTime - a.startTime : ℤ) : ℚ)

/-- `animator_update_animation_value`, whose time is an `int`. -/
def updateAnimationValue (currentTime : ℤ) : Animator :=
  let time := toInt currentTime
  let x := a.progress time
  { a with
    currentTime := time
    geometry := a.geometry.update x
    alpha := a.alpha.update x
    angle := a.angle.update x }

/-- `animator_set_time`, with the reading of the clock. -/
def setTime (endTime : ℤ) (clock : UInt32) : Animator :=
  if endTime < clock.toNat then a else { a with endTime := endTime }.updateAnimationValue clock.toNat

/-- A component gets a line from where it is to its new target. -/
def retarget (c : Component) (v : ℚ) : Animator :=
  if v = a.endData.get c then a
  else { a with
    masks := Function.update a.masks c true
    endData := a.endData.set c v
    func := Function.update a.func c
      (linearFunctionInit (a.entity c).value (a.current.get c) maxAnimationValue v) }

def setAngle (endAngle : ℚ) : Animator := if a.angle.animation.isNone then a else a.retarget .angle endAngle

def setAlpha (endAlpha : ℚ) : Animator := if a.alpha.animation.isNone then a else a.retarget .alpha endAlpha

def setPosition (endX endY : ℤ) : Animator :=
  if a.geometry.animation.isNone then a else (a.retarget .x endX).retarget .y endY

def setSize (endWidth endHeight : ℤ) : Animator :=
  if a.geometry.animation.isNone then a else (a.retarget .width endWidth).retarget .height endHeight

/-- A component with a line moves along it. -/
def move (c : Component) : Animator :=
  if a.masks c then { a with current := a.current.set c ((a.func c).eval (a.entity c).value) } else a

/-- `animator_value`. -/
def value (currentTime : ℤ) : Animator :=
  ((((((a.updateAnimationValue currentTime).move .angle).move .alpha).move .x).move .y).move .width).move .height

end Animator

/-! ### Small facts -/

@[simp] theorem AnimationData.get_set_self_int (data : AnimationData) (c : Component) (v : ℤ) :
    (data.set c v).get c = v := by
  cases c <;> simp [AnimationData.set, AnimationData.get]

theorem AnimationData.get_set_of_ne (data : AnimationData) {c c' : Component} (h : c' ≠ c) (v : ℚ) :
    (data.set c v).get c' = data.get c' := by
  cases c <;> cases c' <;> first | rfl | exact absurd rfl h

/-- A value that a component can have is stored as it is. -/
theorem AnimationData.get_set_get (data data' : AnimationData) (c : Component) :
    (data.set c (data'.get c)).get c = data'.get c := by
  cases c <;> simp [AnimationData.set, AnimationData.get]

/-- Two data are the same when all components are. -/
theorem AnimationData.ext_get {data data' : AnimationData} (h : ∀ c, data.get c = data'.get c) : data = data' := by
  obtain ⟨alpha, angle, x, y, width, height⟩ := data
  obtain ⟨alpha', angle', x', y', width', height'⟩ := data'
  have hx : x = x' := Rat.intCast_inj.1 (h .x)
  have hy : y = y' := Rat.intCast_inj.1 (h .y)
  have hwidth : width = width' := Rat.intCast_inj.1 (h .width)
  have hheight : height = height' := Rat.intCast_inj.1 (h .height)
  obtain rfl : alpha = alpha' := h .alpha
  obtain rfl : angle = angle' := h .angle
  rw [hx, hy, hwidth, hheight]

theorem toInt_of_lt {v : ℤ} (h₀ : -2 ^ 31 ≤ v) (h : v < 2 ^ 31) : toInt v = v := by
  rw [toInt, Int.bmod_eq_of_le (by omega) (by omega)]

end FlakeWm.Effects
