import Mathlib.Tactic.FieldSimp
import Mathlib.Tactic.Linarith
import Mathlib.Tactic.Ring
import FlakeWm.Effects.Animator
import FlakeWm.Schemes.Run

/-! An animation that is interrupted.

    Each component moves along a line from the point where it got its target to the target at the value 1. A
    new end time changes the progress but not the lines, so that a component which keeps its target jumps; all
    lines still end at the targets. -/

namespace FlakeWm.Effects

/-! ### Lines -/

theorem linearFunctionInit_first (x₁ y₁ x₂ y₂ : ℚ) : (linearFunctionInit x₁ y₁ x₂ y₂).eval x₁ = y₁ := by
  simp only [linearFunctionInit, LinearFunction.eval]
  ring

theorem linearFunctionInit_last {x₁ x₂ : ℚ} (h : x₁ ≠ x₂) (y₁ y₂ : ℚ) :
    (linearFunctionInit x₁ y₁ x₂ y₂).eval x₂ = y₂ := by
  have hx : x₂ - x₁ ≠ 0 := sub_ne_zero.2 h.symm
  simp only [linearFunctionInit, LinearFunction.eval, if_pos hx]
  field_simp
  ring

/-- A flat line has one value. -/
theorem LinearFunction.eval_flat {func : LinearFunction} (h : func.k = 0) (x y : ℚ) : func.eval x = func.eval y := by
  simp [LinearFunction.eval, h]

/-- What is stored for a component does not depend on what was there. -/
theorem AnimationData.get_set_congr (data data' : AnimationData) (c : Component) (v : ℚ) :
    (data.set c v).get c = (data'.set c v).get c := by
  cases c <;> rfl

/-! ### The animator -/

namespace Animator

variable {a : Animator} {c c' : Component} {v : ℚ} {time : ℤ}

/-- What a component becomes when it moves along its line. -/
def onLine (a : Animator) (c : Component) (v : ℚ) : ℚ := (a.current.set c ((a.func c).eval v)).get c

theorem updateAnimationValue_entity (a : Animator) (time : ℤ) (c : Component) :
    (a.updateAnimationValue time).entity c = (a.entity c).update (a.progress (toInt time)) := by
  cases c <;> rfl

theorem updateAnimationValue_currentTime (a : Animator) (time : ℤ) :
    (a.updateAnimationValue time).currentTime = toInt time := rfl

theorem move_get (a : Animator) (c c' : Component) :
    (a.move c).current.get c' =
      if c' = c ∧ a.masks c = true then a.onLine c (a.entity c).value else a.current.get c' := by
  rw [move]
  by_cases hmask : a.masks c = true
  · rw [if_pos hmask]
    by_cases hc : c' = c
    · rw [if_pos ⟨hc, hmask⟩, hc]
      rfl
    · rw [if_neg fun h => hc h.1]
      exact AnimationData.get_set_of_ne _ hc _
  · rw [if_neg hmask, if_neg fun h => hmask h.2]

theorem move_rest (a : Animator) (c : Component) : (a.move c).masks = a.masks ∧ (a.move c).func = a.func ∧
    (∀ c', (a.move c).entity c' = a.entity c') ∧ (a.move c).endData = a.endData ∧
      (a.move c).startTime = a.startTime ∧ (a.move c).endTime = a.endTime ∧
        (a.move c).currentTime = a.currentTime := by
  rw [move]
  split
  · exact ⟨rfl, rfl, fun c' => by cases c' <;> rfl, rfl, rfl, rfl, rfl⟩
  · exact ⟨rfl, rfl, fun _ => rfl, rfl, rfl, rfl, rfl⟩

/-- Moving several components, each of which is moved along its own line. -/
theorem foldl_move : ∀ (l : List Component) (a : Animator),
    (∀ c, (l.foldl move a).current.get c =
      if c ∈ l ∧ a.masks c = true then a.onLine c (a.entity c).value else a.current.get c) ∧
    (l.foldl move a).masks = a.masks ∧ (l.foldl move a).func = a.func ∧
    (∀ c, (l.foldl move a).entity c = a.entity c) ∧ (l.foldl move a).endData = a.endData ∧
    (l.foldl move a).startTime = a.startTime ∧ (l.foldl move a).endTime = a.endTime ∧
    (l.foldl move a).currentTime = a.currentTime
  | [], a => ⟨fun c => by simp, rfl, rfl, fun _ => rfl, rfl, rfl, rfl, rfl⟩
  | c₀ :: l, a => by
      obtain ⟨hmasks, hfunc, hentity, hend, hstart, hstop, hnow⟩ := move_rest a c₀
      obtain ⟨hget, hmasks', hfunc', hentity', hend', hstart', hstop', hnow'⟩ := foldl_move l (a.move c₀)
      refine ⟨fun c => ?_, hmasks'.trans hmasks, hfunc'.trans hfunc, fun c => (hentity' c).trans (hentity c),
        hend'.trans hend, hstart'.trans hstart, hstop'.trans hstop, hnow'.trans hnow⟩
      rw [List.foldl_cons, hget, hmasks, hentity]
      have honLine : (a.move c₀).onLine c (a.entity c).value = a.onLine c (a.entity c).value := by
        rw [onLine, onLine, hfunc]
        exact AnimationData.get_set_congr _ _ c _
      rw [honLine, move_get]
      by_cases hc : c ∈ l
      · by_cases hmask : a.masks c = true
        · rw [if_pos ⟨hc, hmask⟩, if_pos ⟨List.mem_cons_of_mem _ hc, hmask⟩]
        · rw [if_neg fun h => hmask h.2, if_neg (by rintro ⟨rfl, h⟩; exact hmask h), if_neg fun h => hmask h.2]
      · rw [if_neg fun h => hc h.1]
        by_cases heq : c = c₀
        · subst heq
          by_cases hmask : a.masks c = true
          · rw [if_pos ⟨rfl, hmask⟩, if_pos ⟨List.mem_cons_self, hmask⟩]
          · rw [if_neg fun h => hmask h.2, if_neg fun h => hmask h.2]
        · rw [if_neg fun h => heq h.1, if_neg fun h => (List.mem_cons.1 h.1).elim heq hc]

/-- The order of the components in `animator_value`. -/
def order : List Component := [.angle, .alpha, .x, .y, .width, .height]

theorem mem_order (c : Component) : c ∈ order := by
  cases c <;> decide

/-- A sample moves every component with a line along it, to the value at the time. -/
theorem value_get (a : Animator) (time : ℤ) (c : Component) : (a.value time).current.get c =
    if a.masks c = true then a.onLine c ((a.entity c).update (a.progress (toInt time))).value
    else a.current.get c := by
  have hget := (foldl_move order (a.updateAnimationValue time)).1 c
  rw [updateAnimationValue_entity] at hget
  simp only [mem_order, true_and] at hget
  exact hget

theorem value_rest (a : Animator) (time : ℤ) : (a.value time).masks = a.masks ∧ (a.value time).func = a.func ∧
    (∀ c, (a.value time).entity c = (a.entity c).update (a.progress (toInt time))) ∧
    (a.value time).endData = a.endData ∧ (a.value time).startTime = a.startTime ∧
    (a.value time).endTime = a.endTime ∧ (a.value time).currentTime = toInt time := by
  obtain ⟨-, hmasks, hfunc, hentity, hend, hstart, hstop, hnow⟩ := foldl_move order (a.updateAnimationValue time)
  exact ⟨hmasks, hfunc, fun c => (hentity c).trans (updateAnimationValue_entity a time c), hend, hstart, hstop, hnow⟩

theorem retarget_entity (a : Animator) (c c' : Component) (v : ℚ) : (a.retarget c v).entity c' = a.entity c' := by
  rw [retarget]
  split
  · rfl
  · cases c' <;> rfl

/-- What is animated gets new targets. -/
theorem setAngle_animated (h : (a.entity .angle).animation.isNone = false) : a.setAngle v = a.retarget .angle v :=
  if_neg (ne_true_of_eq_false h)

theorem setAlpha_animated (h : (a.entity .alpha).animation.isNone = false) : a.setAlpha v = a.retarget .alpha v :=
  if_neg (ne_true_of_eq_false h)

theorem setPosition_animated (h : (a.entity .x).animation.isNone = false) (x y : ℤ) :
    a.setPosition x y = (a.retarget .x x).retarget .y y :=
  if_neg (ne_true_of_eq_false h)

theorem setSize_animated (h : (a.entity .width).animation.isNone = false) (width height : ℤ) :
    a.setSize width height = (a.retarget .width width).retarget .height height :=
  if_neg (ne_true_of_eq_false h)

end Animator

/-! ### Samples, end times and targets -/

/-- A call of the animator. -/
inductive Call where
  | value (time : ℤ)
  | setTime (endTime : ℤ) (clock : UInt32)
  | setAngle (v : ℚ)
  | setAlpha (v : ℚ)
  | setPosition (x y : ℤ)
  | setSize (width height : ℤ)

/-- An animator, the last targets that were set, the time and the data of the last sample, whether the clock has
    stood still since then, and the components with a line of which the end time was moved since they got it,
    not counting moves at the start time. -/
structure Session where
  animator : Animator
  targets : AnimationData
  last : Option (ℤ × AnimationData) := none
  still : Bool := false
  stale : Component → Bool := fun _ => false

namespace Session

variable (s : Session)

/-- A target was given for a component. -/
def aim (c : Component) (v : ℚ) : Session :=
  { s with
    targets := s.targets.set c v
    stale := if v = s.targets.get c then s.stale else Function.update s.stale c false }

def call : Call → Option Session
  | .value time =>
    let a := s.animator.value time
    some { s with animator := a, last := some (time, a.current), still := true, stale := fun _ => false }
  | .setTime endTime clock =>
    some (if endTime < clock.toNat then s else { s with
      animator := s.animator.setTime endTime clock
      still := s.still && decide (s.last.map Prod.fst = some (clock.toNat : ℤ))
      stale := if toInt clock.toNat = s.animator.startTime then s.stale else s.animator.masks })
  | .setAngle v => some { s.aim .angle v with animator := s.animator.setAngle v }
  | .setAlpha v => some { s.aim .alpha v with animator := s.animator.setAlpha v }
  | .setPosition x y => some { (s.aim .x x).aim .y y with animator := s.animator.setPosition x y }
  | .setSize width height =>
    some { (s.aim .width width).aim .height height with animator := s.animator.setSize width height }

end Session

/-- The end time is only moved to a later one, and targets are set while the animation is not over. -/
def Interrupts (s : Session) : Call → Prop
  | .value _ => True
  | .setTime endTime _ => s.animator.endTime < endTime
  | _ => s.animator.progress s.animator.currentTime < 1

instance (s : Session) : (call : Call) → Decidable (Interrupts s call)
  | .value _ => .isTrue trivial
  | .setTime endTime _ => inferInstanceAs (Decidable (s.animator.endTime < endTime))
  | .setAngle _ | .setAlpha _ | .setPosition _ _ | .setSize _ _ => inferInstanceAs (Decidable (_ < (1 : ℚ)))

/-- An animation that is over at 1 and not before. -/
def Ends (animation : Animation) : Prop := ∀ x < 1, animation x ≠ 1

/-- What the calls keep of the animator: all components are animated, the animation has not been at its end
    when it is not over, and every line ends at the target of its component. -/
structure Aimed (a : Animator) : Prop where
  animated : ∀ c, ∃ animation, (a.entity c).animation = some animation ∧ Ends animation
  times : a.startTime < a.endTime
  values : a.progress a.currentTime < 1 → ∀ c, (a.entity c).value ≠ 1
  lines : ∀ c, a.masks c = true → (a.func c).eval 1 = a.endData.get c
  others : ∀ c, a.masks c = false → a.current.get c = a.endData.get c

/-- What was sampled is on the lines as long as the clock stands still, apart from the stale ones. -/
structure Steady (s : Session) : Prop where
  data : ∀ time data, s.last = some (time, data) → s.animator.current = data
  value : s.still = true → ∀ time data, s.last = some (time, data) → ∀ c,
    (s.animator.entity c).update (s.animator.progress (toInt time)) = s.animator.entity c
  lines : s.still = true → ∀ c, s.animator.masks c = true → s.stale c = false ∨ (s.animator.func c).k = 0 →
    s.animator.onLine c (s.animator.entity c).value = s.animator.current.get c

/-- What the calls keep. -/
structure Held (s : Session) : Prop where
  aimed : Aimed s.animator
  steady : Steady s
  targets : s.animator.endData = s.targets

theorem AnimationEntity.update_update (entity : AnimationEntity) (x : ℚ) :
    (entity.update x).update x = entity.update x := by
  obtain ⟨_ | animation, value⟩ := entity <;> rfl

/-- An animation that is not over is not at its end. -/
theorem animationValue_ne_one {entity : AnimationEntity} {animation : Animation} {x : ℚ}
    (h : entity.animation = some animation) (hends : Ends animation) (hx : x < 1) : (entity.update x).value ≠ 1 := by
  rw [AnimationEntity.update, h, Option.elim_some, animationValue, if_neg (not_le.2 hx)]
  exact hends x hx

/-- The animator after the values were updated, at the end time that it had or at another one. -/
theorem Aimed.updated {a a' : Animator} (h : Aimed a) {time : ℤ} (hstart : a'.startTime = a.startTime)
    (hstop : a.endTime ≤ a'.endTime) (hnow : a'.currentTime = time) (hmasks : a'.masks = a.masks)
    (hfunc : a'.func = a.func) (hend : a'.endData = a.endData)
    (hentity : ∀ c, a'.entity c = (a.entity c).update (a'.progress time))
    (hcurrent : ∀ c, a.masks c = false → a'.current.get c = a.current.get c) : Aimed a' where
  animated c := by
    obtain ⟨animation, hanimation, hends⟩ := h.animated c
    exact ⟨animation, (congrArg AnimationEntity.animation (hentity c)).trans hanimation, hends⟩
  times := by
    rw [hstart]
    exact lt_of_lt_of_le h.times hstop
  values hprogress c := by
    obtain ⟨animation, hanimation, hends⟩ := h.animated c
    rw [hentity]
    rw [hnow] at hprogress
    exact animationValue_ne_one hanimation hends hprogress
  lines c hmask := by
    rw [hfunc, hend]
    exact h.lines c (by rwa [hmasks] at hmask)
  others c hmask := by
    rw [hmasks] at hmask
    rw [hcurrent c hmask, hend]
    exact h.others c hmask

namespace Held

variable {s s' : Session} {time : ℤ} {c c' : Component} {v : ℚ}

/-- A sample is on all lines. -/
theorem value (h : Held s) (hs : s.call (.value time) = some s') : Held s' := by
  obtain rfl := Option.some.inj hs
  obtain ⟨hmasks, hfunc, hentity, hend, hstart, hstop, hnow⟩ := s.animator.value_rest time
  have hprogress : (s.animator.value time).progress (toInt time) = s.animator.progress (toInt time) := by
    rw [Animator.progress, Animator.progress, hstart, hstop]
  have hget := s.animator.value_get time
  refine ⟨?_, ⟨?_, fun _ time' data hlast c => ?_, fun _ c hmask _ => ?_⟩, hend.trans h.targets⟩
  · refine h.aimed.updated hstart hstop.ge hnow hmasks hfunc hend (fun c => ?_) fun c hmask => ?_
    · rw [hentity, hprogress]
    · rw [hget, hmask, if_neg Bool.false_ne_true]
  · intro time' data hlast
    exact (Prod.mk.inj (Option.some.inj hlast)).2
  · obtain rfl : time = time' := (Prod.mk.inj (Option.some.inj hlast)).1
    rw [hentity, hprogress, AnimationEntity.update_update]
  · have hmask' : s.animator.masks c = true := by rwa [← hmasks]
    rw [hget, if_pos hmask', hentity, Animator.onLine, hfunc]
    exact AnimationData.get_set_congr _ _ c _

/-- A later end time leaves the components where they are, and the lines without a slope, or all lines at the
    start time, where the progress is 0. -/
theorem moveEnd (h : Held s) {endTime : ℤ} (hlater : s.animator.endTime < endTime) (now : ℤ) : Held { s with
    animator := { s.animator with endTime := endTime }.updateAnimationValue now
    still := s.still && decide (s.last.map Prod.fst = some now)
    stale := if toInt now = s.animator.startTime then s.stale else s.animator.masks } := by
  have hentity := Animator.updateAnimationValue_entity { s.animator with endTime := endTime } now
  have haimed := @Aimed.updated s.animator ({ s.animator with endTime := endTime }.updateAnimationValue now)
    h.aimed (toInt now) rfl hlater.le (Animator.updateAnimationValue_currentTime _ _) rfl rfl rfl hentity
    fun _ _ => rfl
  refine ⟨haimed, ⟨?_, ?_, ?_⟩, h.targets⟩
  · exact h.steady.data
  · intro hstill time data hlast c
    obtain ⟨-, hnow⟩ := Bool.and_eq_true_iff.1 hstill
    have hnow : s.last.map Prod.fst = some now := of_decide_eq_true hnow
    rw [show s.last = some (time, data) from hlast] at hnow
    obtain rfl : time = now := Option.some.inj hnow
    exact (congrArg (AnimationEntity.update · _) (hentity c)).trans
      ((AnimationEntity.update_update _ _).trans (hentity c).symm)
  · intro hstill c hmask hflat
    obtain ⟨hstill', hnow⟩ := Bool.and_eq_true_iff.1 hstill
    have hnow : s.last.map Prod.fst = some now := of_decide_eq_true hnow
    obtain ⟨⟨time, data⟩, hlast, rfl⟩ := Option.map_eq_some_iff.1 hnow
    have hmask : s.animator.masks c = true := hmask
    by_cases hstart : toInt time = s.animator.startTime
    · have hold := h.steady.value hstill' _ _ hlast c
      have hzero (stop : ℤ) : ({ s.animator with endTime := stop } : Animator).progress (toInt time) = 0 := by
        rw [Animator.progress, hstart, sub_self, Int.cast_zero, zero_div]
      have heq : (({ s.animator with endTime := endTime } : Animator).updateAnimationValue time).entity c =
          s.animator.entity c := by
        rw [hentity, hzero]
        rwa [show s.animator.progress (toInt time) = 0 from hzero s.animator.endTime] at hold
      rw [if_pos hstart] at hflat
      exact (congrArg (fun entity => s.animator.onLine c entity.value) heq).trans
        (h.steady.lines hstill' c hmask hflat)
    · rw [if_neg hstart] at hflat
      have hk : (s.animator.func c).k = 0 := hflat.resolve_left (by simp [hmask])
      refine Eq.trans ?_ (h.steady.lines hstill' c hmask (.inr hk))
      exact congrArg (fun q => (s.animator.current.set c q).get c) (LinearFunction.eval_flat hk _ _)


theorem setTime (h : Held s) {endTime : ℤ} {clock : UInt32} (hlater : s.animator.endTime < endTime)
    (hs : s.call (.setTime endTime clock) = some s') : Held s' := by
  obtain rfl := Option.some.inj hs
  by_cases hover : endTime < clock.toNat
  · rwa [if_pos hover]
  · rw [if_neg hover, Animator.setTime, if_neg hover]
    exact h.moveEnd hlater clock.toNat

/-- A new target for one component starts a line where the component is. -/
theorem retarget (h : Held s) (hprogress : s.animator.progress s.animator.currentTime < 1)
    (hv : ∀ data : AnimationData, (data.set c v).get c = v) :
    Held { s.aim c v with animator := s.animator.retarget c v } ∧
      (s.animator.retarget c v).progress (s.animator.retarget c v).currentTime < 1 := by
  by_cases hsame : v = s.animator.endData.get c
  · have htargets : s.targets.set c v = s.targets := by
      refine AnimationData.ext_get fun c' => ?_
      by_cases hc : c' = c
      · rw [hc, hv, hsame, h.targets]
      · exact AnimationData.get_set_of_ne _ hc _
    rw [Session.aim, Animator.retarget, if_pos hsame, if_pos (h.targets ▸ hsame), htargets]
    exact ⟨h, hprogress⟩
  have hentity := fun c' => s.animator.retarget_entity c c' v
  rw [Session.aim, Animator.retarget, if_neg hsame, if_neg (h.targets ▸ hsame)]
  simp only [Animator.retarget, if_neg hsame] at hentity
  have hvalue : (s.animator.entity c).value ≠ 1 := h.aimed.values hprogress c
  have hpoint : (linearFunctionInit (s.animator.entity c).value (s.animator.current.get c) maxAnimationValue v).eval
      (s.animator.entity c).value = s.animator.current.get c := linearFunctionInit_first _ _ _ _
  refine ⟨⟨?_, ?_, ?_⟩, hprogress⟩
  · refine ⟨fun c' => ?_, h.aimed.times, fun _ c' => ?_, fun c' hmask => ?_, fun c' hmask => ?_⟩
    · rw [hentity]
      exact h.aimed.animated c'
    · rw [hentity]
      exact h.aimed.values hprogress c'
    · by_cases hc : c' = c
      · subst hc
        show (Function.update s.animator.func c' _ c').eval 1 = (s.animator.endData.set c' v).get c'
        rw [Function.update_self, hv]
        exact linearFunctionInit_last hvalue _ _
      · show (Function.update s.animator.func c _ c').eval 1 = (s.animator.endData.set c v).get c'
        rw [Function.update_of_ne hc, AnimationData.get_set_of_ne _ hc]
        have hmask : Function.update s.animator.masks c true c' = true := hmask
        rw [Function.update_of_ne hc] at hmask
        exact h.aimed.lines c' hmask
    · have hmask : Function.update s.animator.masks c true c' = false := hmask
      by_cases hc : c' = c
      · rw [hc, Function.update_self] at hmask
        cases hmask
      · rw [Function.update_of_ne hc] at hmask
        exact (h.aimed.others c' hmask).trans (AnimationData.get_set_of_ne _ hc _).symm
  · refine ⟨h.steady.data, fun hstill time data hlast c' => ?_, fun hstill c' hmask hfresh => ?_⟩
    · rw [hentity]
      exact h.steady.value hstill time data hlast c'
    · rw [hentity, Animator.onLine]
      show (s.animator.current.set c' ((Function.update s.animator.func c _ c').eval _)).get c' =
        s.animator.current.get c'
      by_cases hc : c' = c
      · subst hc
        rw [Function.update_self, hpoint]
        exact AnimationData.get_set_get _ _ _
      · rw [Function.update_of_ne hc]
        have hmask : Function.update s.animator.masks c true c' = true := hmask
        rw [Function.update_of_ne hc] at hmask
        refine h.steady.lines hstill c' hmask ?_
        have hfresh : Function.update s.stale c false c' = false ∨ (Function.update s.animator.func c _ c').k = 0 :=
          hfresh
        rwa [Function.update_of_ne hc, Function.update_of_ne hc] at hfresh
  · show s.animator.endData.set c v = s.targets.set c v
    rw [h.targets]

theorem animated_isNone (h : Held s) (c : Component) : (s.animator.entity c).animation.isNone = false := by
  obtain ⟨animation, hanimation, -⟩ := h.aimed.animated c
  rw [hanimation]
  rfl

/-- Two components get new targets. -/
theorem retarget_both (h : Held s) (hprogress : s.animator.progress s.animator.currentTime < 1) {x y : ℤ}
    (hs : s' = { (s.aim c x).aim c' y with animator := (s.animator.retarget c x).retarget c' y }) : Held s' := by
  have hint (v : ℤ) (c : Component) (data : AnimationData) : (data.set c v).get c = v := data.get_set_self_int c v
  obtain ⟨h₁, hprogress₁⟩ := h.retarget hprogress (hint x c)
  exact hs ▸ (h₁.retarget hprogress₁ (hint y c')).1

/-- Every call keeps what is held. -/
theorem step {call : Call} (h : Held s) (hok : Interrupts s call) (hs : s.call call = some s') : Held s' := by
  cases call with
  | value time => exact h.value hs
  | setTime endTime clock => exact h.setTime hok hs
  | setAngle v =>
    obtain rfl := Option.some.inj hs
    rw [Animator.setAngle_animated (h.animated_isNone .angle)]
    exact (h.retarget hok fun _ => rfl).1
  | setAlpha v =>
    obtain rfl := Option.some.inj hs
    rw [Animator.setAlpha_animated (h.animated_isNone .alpha)]
    exact (h.retarget hok fun _ => rfl).1
  | setPosition x y =>
    obtain rfl := Option.some.inj hs
    rw [Animator.setPosition_animated (h.animated_isNone .x)]
    exact h.retarget_both hok rfl
  | setSize width height =>
    obtain rfl := Option.some.inj hs
    rw [Animator.setSize_animated (h.animated_isNone .width)]
    exact h.retarget_both hok rfl

end Held

/-- The animations of a group end at 1 and not before. -/
structure EndingGroup (type : AnimationTypeGroup) : Prop where
  geometry : ∃ animation, type.geometry = some animation ∧ Ends animation
  alpha : ∃ animation, type.alpha = some animation ∧ Ends animation
  angle : ∃ animation, type.angle = some animation ∧ Ends animation

/-- A session with a new animator. -/
def newSession (start : AnimationData) (type : AnimationTypeGroup) (startTime endTime : ℤ) : Option Session :=
  (animatorCreate start type startTime endTime).map fun a => { animator := a, targets := start }

theorem newSession_held {start : AnimationData} {type : AnimationTypeGroup} {startTime endTime : ℤ} {s : Session}
    (htype : EndingGroup type) (htimes : startTime < endTime)
    (hs : newSession start type startTime endTime = some s) : Held s := by
  obtain ⟨a, ha, rfl⟩ := Option.map_eq_some_iff.1 hs
  obtain ⟨-, ha⟩ := Option.ite_none_left_eq_some.1 ha
  obtain rfl := Option.some.inj ha
  refine ⟨⟨fun c => ?_, htimes, fun _ c => ?_, fun c hmask => ?_, fun c _ => rfl⟩, ⟨?_, ?_, ?_⟩, rfl⟩
  · cases c with
    | alpha => exact htype.alpha
    | angle => exact htype.angle
    | x | y | width | height => exact htype.geometry
  · cases c <;> exact zero_ne_one
  · cases hmask
  · rintro _ _ ⟨⟩
  · rintro ⟨⟩
  · rintro ⟨⟩

/-- What a session with an animation may be asked for: a sample at the instant of the last sample is that
    sample, unless some component with a slope was left on its line when the end time was moved; and a sample
    at the end, while times fit into an `int`, is the last targets. -/
structure GoesOn (s : Session) : Prop where
  steady : s.still = true → (∀ c, s.stale c = true → (s.animator.func c).k = 0) →
    ∀ time data, s.last = some (time, data) → (s.animator.value time).current = data
  ends : ∀ time, s.animator.endTime ≤ time → -2 ^ 31 ≤ time → time < 2 ^ 31 →
    (s.animator.value time).current = s.targets

theorem Held.goesOn {s : Session} (h : Held s) : GoesOn s := by
  constructor
  · intro hstill hfresh time data hlast
    rw [← h.steady.data time data hlast]
    refine AnimationData.ext_get fun c => ?_
    rw [Animator.value_get]
    split
    next hmask =>
      rw [h.steady.value hstill time data hlast]
      refine h.steady.lines hstill c hmask ?_
      by_cases hstale : s.stale c = true
      · exact .inr (hfresh c hstale)
      · exact .inl (by simpa using hstale)
    next => rfl
  · intro time hend hlow hhigh
    rw [← h.targets]
    refine AnimationData.ext_get fun c => ?_
    rw [Animator.value_get]
    split
    next hmask =>
      obtain ⟨animation, hanimation, -⟩ := h.aimed.animated c
      have hpos : (0 : ℚ) < ((s.animator.endTime - s.animator.startTime : ℤ) : ℚ) := by
        exact_mod_cast sub_pos.2 h.aimed.times
      have hone : 1 ≤ s.animator.progress time := by
        rw [Animator.progress, le_div_iff₀ hpos, one_mul]
        exact_mod_cast sub_le_sub_right hend _
      rw [toInt_of_lt hlow hhigh, AnimationEntity.update, hanimation, Option.elim_some, animationValue, if_pos hone,
        Animator.onLine, h.aimed.lines c hmask]
      exact AnimationData.get_set_get _ _ _
    next hmask => exact h.aimed.others c (by simpa using hmask)

/-- In every run of an animation whose end time is only moved to later ones, and whose targets are set before
    its progress is 1, it goes on from where it is and ends at its last targets. -/
theorem interrupted_goes_on {start : AnimationData} {type : AnimationTypeGroup} {startTime endTime : ℤ}
    {s₀ s : Session} (htype : EndingGroup type) (htimes : startTime < endTime)
    (hs : newSession start type startTime endTime = some s₀)
    (h : Reach Session.call Interrupts s₀ s) : GoesOn s :=
  (h.inv (newSession_held htype htimes hs) fun _ _ _ => Held.step).goesOn

/-- Straight lines for everything. -/
def straight : AnimationTypeGroup := ⟨some id, some id, some id⟩

theorem straight_ending : EndingGroup straight := by
  have hends : Ends id := fun _ hx => ne_of_lt hx
  exact ⟨⟨id, rfl, hends⟩, ⟨id, rfl, hends⟩, ⟨id, rfl, hends⟩⟩

/-- A window that stands still for 300 ms, to begin with. -/
def still300 : Option Session := newSession ⟨1, 0, ⟨0, 0, 100, 100⟩⟩ straight 0 300

/-- The window moves to the right, and back from where it is at a third of the time, until a later end. -/
theorem turned_window_goes_on : ∃ s₀ s, still300 = some s₀ ∧
    exec (guarded Session.call fun s call => decide (Interrupts s call)) s₀
      [.setPosition 300 0, .value 100, .setTime 400 100, .setPosition 20 0] = some s ∧
    (s.animator.value 100).current = ⟨1, 0, ⟨100, 0, 100, 100⟩⟩ ∧
    (s.animator.value 500).current = ⟨1, 0, ⟨20, 0, 100, 100⟩⟩ ∧ GoesOn s := by
  obtain ⟨s₀, hs₀⟩ : ∃ s₀, still300 = some s₀ := ⟨_, rfl⟩
  have hrun : (still300.bind fun s₀ => exec (guarded Session.call fun s call => decide (Interrupts s call)) s₀
      [.setPosition 300 0, .value 100, .setTime 400 100, .setPosition 20 0]).map
        (fun s => ((s.animator.value 100).current, (s.animator.value 500).current)) =
      some (⟨1, 0, ⟨100, 0, 100, 100⟩⟩, ⟨1, 0, ⟨20, 0, 100, 100⟩⟩) := by decide +kernel
  rw [hs₀, Option.bind_some] at hrun
  obtain ⟨s, hs, hdata⟩ := Option.map_eq_some_iff.1 hrun
  obtain ⟨hnow, hend⟩ := Prod.mk.inj hdata
  have hreach : Reach Session.call Interrupts s₀ s :=
    (Reach.of_exec_guarded _ _ hs).mono fun _ _ hok => of_decide_eq_true hok
  exact ⟨s₀, s, hs₀, hs, hnow, hend, interrupted_goes_on straight_ending (by decide) hs₀ hreach⟩

/-- The window moves to the right and gets a later end, but no new target: it jumps back. -/
theorem later_end_jumps : ¬ ∀ s₀ s time data, still300 = some s₀ → Reach Session.call Interrupts s₀ s →
    s.still = true → s.last = some (time, data) → (s.animator.value time).current = data := by
  intro h
  obtain ⟨s₀, hs₀⟩ : ∃ s₀, still300 = some s₀ := ⟨_, rfl⟩
  have hrun : (still300.bind fun s₀ => exec (guarded Session.call fun s call => decide (Interrupts s call)) s₀
      [.setPosition 300 0, .value 100, .setTime 600 100]).map (fun s => (s.still, s.last, (s.animator.value 100).current)) =
      some (true, some (100, ⟨1, 0, ⟨100, 0, 100, 100⟩⟩), ⟨1, 0, ⟨50, 0, 100, 100⟩⟩) := by decide +kernel
  rw [hs₀, Option.bind_some] at hrun
  obtain ⟨s, hs, hdata⟩ := Option.map_eq_some_iff.1 hrun
  obtain ⟨hstill, hdata⟩ := Prod.mk.inj hdata
  obtain ⟨hlast, hvalue⟩ := Prod.mk.inj hdata
  have hreach : Reach Session.call Interrupts s₀ s :=
    (Reach.of_exec_guarded _ _ hs).mono fun _ _ hok => of_decide_eq_true hok
  exact absurd (hvalue.symm.trans (h s₀ s _ _ hs₀ hreach hstill hlast)) (by decide)

end FlakeWm.Effects
