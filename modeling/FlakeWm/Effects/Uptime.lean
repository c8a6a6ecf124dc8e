import Mathlib.Tactic.NormNum
import FlakeWm.Effects.Transform
import FlakeWm.Schemes.Run

/-! An animation and the time since the start of the machine.

    The clock is a `uint32_t`, the animator takes its reading as an `int`, and the end of the effect is compared
    in 64 bits. A run at some start time is compared with the same run at the start time 0: they are the same
    as long as no frame of the animation comes 2^31 ms after the start of the machine, and the frame that ends
    it not 2^32 ms after. -/

namespace FlakeWm.Effects

/-! ### Moving an animator in time -/

namespace Animator

variable {a : Animator} {s : ℤ}

/-- The same animator at another time. -/
def shift (a : Animator) (s : ℤ) : Animator :=
  { a with startTime := a.startTime + s, currentTime := a.currentTime + s, endTime := a.endTime + s }

theorem retarget_shift (c : Component) (v : ℚ) : (a.shift s).retarget c v = (a.retarget c v).shift s := by
  by_cases hv : v = a.endData.get c
  · rw [retarget, retarget, if_pos hv, if_pos (show v = (a.shift s).endData.get c from hv)]
  · rw [retarget, retarget, if_neg hv, if_neg (show ¬ v = (a.shift s).endData.get c from hv)]
    cases c <;> rfl

theorem setAngle_shift (v : ℚ) : (a.shift s).setAngle v = (a.setAngle v).shift s := by
  rw [setAngle, setAngle, show (a.shift s).angle = a.angle from rfl, retarget_shift, ← apply_ite (shift · s)]

theorem setAlpha_shift (v : ℚ) : (a.shift s).setAlpha v = (a.setAlpha v).shift s := by
  rw [setAlpha, setAlpha, show (a.shift s).alpha = a.alpha from rfl, retarget_shift, ← apply_ite (shift · s)]

theorem setPosition_shift (x y : ℤ) : (a.shift s).setPosition x y = (a.setPosition x y).shift s := by
  rw [setPosition, setPosition, show (a.shift s).geometry = a.geometry from rfl, retarget_shift, retarget_shift,
    ← apply_ite (shift · s)]

theorem setSize_shift (width height : ℤ) : (a.shift s).setSize width height = (a.setSize width height).shift s := by
  rw [setSize, setSize, show (a.shift s).geometry = a.geometry from rfl, retarget_shift, retarget_shift,
    ← apply_ite (shift · s)]

theorem move_shift (c : Component) : (a.shift s).move c = (a.move c).shift s := by
  by_cases hc : a.masks c = true
  · rw [move, move, if_pos hc, if_pos (show (a.shift s).masks c = true from hc)]
    cases c <;> rfl
  · rw [move, move, if_neg hc, if_neg (show ¬ (a.shift s).masks c = true from hc)]

theorem progress_shift (a : Animator) (s time : ℤ) : (a.shift s).progress (time + s) = a.progress time := by
  rw [progress, progress, shift, add_sub_add_right_eq_sub, add_sub_add_right_eq_sub]

/-- Where the conversion to an `int` loses nothing, the values only depend on the time that has passed. -/
theorem updateAnimationValue_shift {time : ℤ} (h : toInt (time + s) = toInt time + s) :
    (a.shift s).updateAnimationValue (time + s) = (a.updateAnimationValue time).shift s := by
  rw [updateAnimationValue, updateAnimationValue, h, progress_shift]
  rfl

theorem value_shift {time : ℤ} (h : toInt (time + s) = toInt time + s) :
    (a.shift s).value (time + s) = (a.value time).shift s := by
  simp only [value, updateAnimationValue_shift h, move_shift]

end Animator

def TransformOptions.shift (options : TransformOptions) (s : ℤ) : TransformOptions :=
  { options with startTime := options.startTime + s }

def Transform.shift (t : Transform) (s : ℤ) : Transform :=
  { t with
    animator := t.animator.shift s
    pendingOptions := t.pendingOptions.shift s
    options := t.options.shift s }

theorem animatorOf_shift (options : TransformOptions) (s : ℤ) :
    animatorOf (options.shift s) = (animatorOf options).map fun a => a.shift s := by
  have hcreate : animatorCreate options.start options.type (options.startTime + s)
      (options.startTime + s + options.duration) =
      (animatorCreate options.start options.type options.startTime (options.startTime + options.duration)).map
        fun a => a.shift s := by
    rw [animatorCreate, animatorCreate, add_right_comm options.startTime s]
    split <;> rfl
  rw [animatorOf, animatorOf, TransformOptions.shift, hcreate, Option.map_map, Option.map_map]
  refine congrArg (Option.map · _) (funext fun a => ?_)
  simp only [Function.comp_apply, Animator.setPosition_shift, Animator.setSize_shift, Animator.setAlpha_shift,
    Animator.setAngle_shift]

theorem newTargets_shift (t : Transform) (pending : TransformOptions) (a : Animator) (s : ℤ) :
    (t.shift s).newTargets (pending.shift s) (a.shift s) = (t.newTargets pending a).shift s := by
  simp only [Transform.newTargets, Transform.shift, TransformOptions.shift, Animator.setAlpha_shift,
    Animator.setAngle_shift, Animator.setPosition_shift, Animator.setSize_shift, ← apply_ite (Animator.shift · s)]

/-! ### The frames of an animation -/

/-- A frame some time after the start, or a new target between the frames. The hook of the effect may change
    the start and the target, but not the times; the clock is read once more after a while. -/
inductive Event where
  | frame (elapsed later : ℕ) (update : Option (AnimationData × AnimationData))
  | interrupt (endData : AnimationData)

/-- What the hook does to the options. -/
def hook (update : Option (AnimationData × AnimationData)) (options : TransformOptions) : TransformOptions :=
  update.elim options fun data => { options with start := data.1, endData := data.2 }

/-- The reading of the clock, for the reading at the start. -/
def clock (s : UInt32) (elapsed : ℕ) : UInt32 := s + currentTimeMsec elapsed

def step (s : UInt32) : Option Transform → Event → Option (Option Transform)
  | none, _ => none
  | some t, .frame elapsed later update =>
    some (t.frameRenderPre (hook update) (clock s elapsed) (clock s later))
  | some t, .interrupt endData => some (some (t.interrupt endData))

/-- An effect that is created for `duration` ms from `s` on. -/
def start (options : TransformOptions) (s : UInt32) (duration : ℕ) : Option Transform :=
  transformCreate { options with startTime := s.toNat, duration := duration }

/-- A frame of the animation comes before the clock exceeds an `int`, and a later frame before the clock wraps
    around. -/
def InTime (s : UInt32) (duration elapsed : ℕ) : Prop :=
  if elapsed ≤ duration then s.toNat + elapsed < 2 ^ 31 else s.toNat + elapsed < 2 ^ 32

instance (s : UInt32) (duration elapsed : ℕ) : Decidable (InTime s duration elapsed) :=
  inferInstanceAs (Decidable (ite _ _ _))

/-- The condition on the events, for times below 2^31 ms. -/
def framesInTime (s : UInt32) (duration : ℕ) (_ : Option Transform) : Event → Bool
  | .frame elapsed _ _ => decide (elapsed < 2 ^ 31) && decide (InTime s duration elapsed)
  | .interrupt _ => true

/-- What a frame has to do: end the effect when the animation is over, and else compute the progress. -/
def FrameOk (t : Transform) (s : UInt32) (duration elapsed later : ℕ) (update : Option (AnimationData × AnimationData)) :
    Prop :=
  match t.frameRenderPre (hook update) (clock s elapsed) (clock s later) with
  | none => duration < elapsed
  | some t' => elapsed ≤ duration ∧
      t'.animator.progress (toInt (clock s elapsed).toNat) = (elapsed : ℚ) / (duration : ℚ)

theorem clock_toNat (s : UInt32) (elapsed : ℕ) : (clock s elapsed).toNat = (s.toNat + elapsed) % 2 ^ 32 := by
  rw [clock, currentTimeMsec, UInt32.toNat_add, UInt32.toNat_ofNat', Nat.add_mod_mod]

/-- The times of an effect that runs for `d` ms from `s` on. -/
structure Timed (s d : ℤ) (t : Transform) : Prop where
  start : t.animator.startTime = s
  stop : t.animator.endTime = s + d
  options : t.options.startTime = s
  pending : t.pendingOptions.startTime = s
  duration : t.pendingOptions.duration = d
  animated : (t.pendingOptions.type.geometry.isNone && t.pendingOptions.type.alpha.isNone &&
    t.pendingOptions.type.angle.isNone) = false

/-! ### What a frame leaves of the times -/

/-- The animation has the same start and end. -/
def SameTimes (a a' : Animator) : Prop := a'.startTime = a.startTime ∧ a'.endTime = a.endTime

namespace SameTimes

theorem refl (a : Animator) : SameTimes a a := ⟨rfl, rfl⟩

theorem trans {a a' a'' : Animator} (h : SameTimes a a') (h' : SameTimes a' a'') : SameTimes a a'' :=
  ⟨h'.1.trans h.1, h'.2.trans h.2⟩

theorem retarget (a : Animator) (c : Component) (v : ℚ) : SameTimes a (a.retarget c v) := by
  rw [Animator.retarget]
  split <;> exact ⟨rfl, rfl⟩

theorem setAngle (a : Animator) (v : ℚ) : SameTimes a (a.setAngle v) := by
  rw [Animator.setAngle]
  split
  · exact refl a
  · exact retarget a _ _

theorem setAlpha (a : Animator) (v : ℚ) : SameTimes a (a.setAlpha v) := by
  rw [Animator.setAlpha]
  split
  · exact refl a
  · exact retarget a _ _

theorem setPosition (a : Animator) (x y : ℤ) : SameTimes a (a.setPosition x y) := by
  rw [Animator.setPosition]
  split
  · exact refl a
  · exact (retarget a _ _).trans (retarget _ _ _)

theorem setSize (a : Animator) (width height : ℤ) : SameTimes a (a.setSize width height) := by
  rw [Animator.setSize]
  split
  · exact refl a
  · exact (retarget a _ _).trans (retarget _ _ _)

theorem move (a : Animator) (c : Component) : SameTimes a (a.move c) := by
  rw [Animator.move]
  split <;> exact ⟨rfl, rfl⟩

theorem value (a : Animator) (time : ℤ) : SameTimes a (a.value time) := by
  have hupdate : SameTimes a (a.updateAnimationValue time) := ⟨rfl, rfl⟩
  exact (((((hupdate.trans (move _ .angle)).trans (move _ .alpha)).trans (move _ .x)).trans (move _ .y)).trans
    (move _ .width)).trans (move _ .height)

theorem newTargets (t : Transform) (pending : TransformOptions) (a : Animator) :
    SameTimes a (t.newTargets pending a) := by
  have hpick (p : Prop) [Decidable p] {a a' : Animator} (h : SameTimes a a') : SameTimes a (if p then a' else a) := by
    split
    · exact h
    · exact refl a
  exact ((hpick _ (setAlpha a _)).trans (hpick _ (setAngle _ _))).trans
    (hpick _ ((setPosition _ _ _).trans (setSize _ _ _)))

end SameTimes

section frames

variable {s : UInt32} {d elapsed later : ℕ} {t t₀ : Transform} {options pending : TransformOptions}
  {update : Option (AnimationData × AnimationData)}

/-- There is an animator as soon as there is an animation, and it runs for the given duration. -/
theorem animatorOf_spec (options : TransformOptions) (h : (options.type.geometry.isNone && options.type.alpha.isNone &&
    options.type.angle.isNone) = false) : ∃ a, animatorOf options = some a ∧
      a.startTime = options.startTime ∧ a.endTime = options.startTime + options.duration := by
  refine ⟨_, by rw [animatorOf, animatorCreate, h]; rfl, ?_⟩
  exact (((SameTimes.setPosition _ _ _).trans (SameTimes.setSize _ _ _)).trans (SameTimes.setAlpha _ _)).trans
    (SameTimes.setAngle _ _)

@[simp] theorem hook_startTime : (hook update options).startTime = options.startTime := by
  cases update <;> rfl

@[simp] theorem hook_duration : (hook update options).duration = options.duration := by
  cases update <;> rfl

@[simp] theorem hook_type : (hook update options).type = options.type := by
  cases update <;> rfl

@[simp] theorem hook_shift (s : ℤ) : hook update (options.shift s) = (hook update options).shift s := by
  cases update <;> rfl

/-- The animator of a frame has the times of the effect. -/
theorem compareOptions_times {s d : ℤ} {later : UInt32} (h : Timed s d t) :
    ∃ a, t.compareOptions (hook update t.pendingOptions) later = some a ∧ a.startTime = s ∧ a.endTime = s + d := by
  have hsame : ¬ t.options.startTime ≠ (hook update t.pendingOptions).startTime := by
    rw [hook_startTime, h.options, h.pending]
    exact not_not_intro rfl
  rw [Transform.compareOptions, if_neg hsame]
  split
  · obtain ⟨a, ha, hstart, hstop⟩ := animatorOf_spec (hook update t.pendingOptions)
      (by rw [hook_type]; exact h.animated)
    refine ⟨a, ha, ?_, ?_⟩
    · rw [hstart, hook_startTime, h.pending]
    · rw [hstop, hook_startTime, hook_duration, h.pending, h.duration]
  · have htimes := SameTimes.newTargets t (hook update t.pendingOptions) t.animator
    exact ⟨_, rfl, htimes.1.trans h.start, htimes.2.trans h.stop⟩

/-- The transform after a frame that does not end the effect. -/
def rendered (options : TransformOptions) (a : Animator) : Transform where
  animator := a
  current := a.current
  pendingOptions := options
  options := options
  interrupted := false

theorem frameRenderPre_running {time later : UInt32}
    (h : (time.toNat : ℤ) ≤ t.pendingOptions.startTime + t.pendingOptions.duration) :
    t.frameRenderPre (hook update) time later = (t.compareOptions (hook update t.pendingOptions) later).map
      fun a => rendered (hook update t.pendingOptions) (a.value time.toNat) :=
  if_neg (Int.not_lt.2 h)

/-- A frame ends the effect when the clock is beyond its end, and keeps its times otherwise. -/
theorem frameRenderPre_cases {s d : ℤ} {time later : UInt32} (h : Timed s d t) :
    (s + d < time.toNat ∧ t.frameRenderPre (hook update) time later = none) ∨
      (time.toNat ≤ s + d ∧ ∃ t', t.frameRenderPre (hook update) time later = some t' ∧ Timed s d t') := by
  by_cases hover : s + d < time.toNat
  · refine .inl ⟨hover, if_pos ?_⟩
    rwa [h.pending, h.duration]
  · obtain ⟨a, ha, hstart, hstop⟩ := @compareOptions_times t update s d later h
    refine .inr ⟨by omega, rendered (hook update t.pendingOptions) (a.value time.toNat), ?_, ?_⟩
    · rw [frameRenderPre_running (by rw [h.pending, h.duration]; omega), ha]
      rfl
    · have htimes := SameTimes.value a time.toNat
      exact {
        start := htimes.1.trans hstart
        stop := htimes.2.trans hstop
        options := hook_startTime.trans h.pending
        pending := hook_startTime.trans h.pending
        duration := hook_duration.trans h.duration
        animated := by
          rw [show (rendered (hook update t.pendingOptions) (a.value time.toNat)).pendingOptions.type =
            t.pendingOptions.type from hook_type]
          exact h.animated }

theorem Timed.interrupt {s d : ℤ} (h : Timed s d t) (endData : AnimationData) : Timed s d (t.interrupt endData) :=
  ⟨h.start, h.stop, h.pending, h.pending, h.duration, h.animated⟩

/-- A reading of the clock is converted faithfully exactly below 2^31 ms. -/
theorem toInt_clock :
    toInt (clock s elapsed).toNat = s.toNat + elapsed ↔ s.toNat + elapsed < 2 ^ 31 := by
  rw [clock_toNat]
  constructor
  · intro h
    have hlt : toInt ((s.toNat + elapsed) % 2 ^ 32 : ℕ) < 2 ^ 31 := by
      have := @Int.bmod_lt ((s.toNat + elapsed) % 2 ^ 32 : ℕ) (2 ^ 32) (by decide)
      rw [toInt]
      omega
    omega
  · intro h
    rw [Nat.mod_eq_of_lt (by omega), toInt_of_lt (by omega) (by omega), Nat.cast_add]

/-- A frame does what it has to do exactly when it comes in time. -/
theorem frameOk_iff (hd : 0 < d) (helapsed : elapsed < 2 ^ 31) (h : Timed s.toNat d t) :
    FrameOk t s d elapsed later update ↔ InTime s d elapsed := by
  have hs : s.toNat < 2 ^ 32 := s.toNat_lt
  have hclock := clock_toNat s elapsed
  rw [FrameOk, InTime]
  rcases @frameRenderPre_cases t update s.toNat d (clock s elapsed) (clock s later) h with ⟨hover, hnone⟩ | ⟨hrun, t', ht', htimes⟩
  · simp only [hnone]
    split
    · omega
    · omega
  · simp only [ht']
    split
    next hle =>
      have hprogress : t'.animator.progress (toInt (clock s elapsed).toNat) =
          ((toInt (clock s elapsed).toNat - s.toNat : ℤ) : ℚ) / (d : ℚ) := by
        rw [Animator.progress, htimes.start, htimes.stop, add_sub_cancel_left, Int.cast_natCast]
      have hpos : (d : ℚ) ≠ 0 := Nat.cast_ne_zero.2 (by omega)
      rw [and_iff_right hle, hprogress, div_left_inj' hpos, ← toInt_clock]
      constructor
      · intro heq
        have : toInt (clock s elapsed).toNat - s.toNat = (elapsed : ℤ) := by exact_mod_cast heq
        omega
      · intro heq
        rw [heq, add_sub_cancel_left, Int.cast_natCast]
    next hgt =>
      constructor
      · intro hle
        exact absurd hle.1 hgt
      · intro hlt
        omega

/-! ### The run at the start time 0 -/

theorem Timed.shift (h : Timed 0 d t) (s : ℤ) : Timed s d (t.shift s) where
  start := by
    show t.animator.startTime + s = s
    rw [h.start, zero_add]
  stop := by
    show t.animator.endTime + s = s + d
    rw [h.stop, zero_add, add_comm]
  options := by
    show t.options.startTime + s = s
    rw [h.options, zero_add]
  pending := by
    show t.pendingOptions.startTime + s = s
    rw [h.pending, zero_add]
  duration := h.duration
  animated := h.animated

theorem compareOptions_shift {now now' : UInt32} (h : Timed 0 d t) (s : ℤ) :
    (t.shift s).compareOptions (hook update (t.shift s).pendingOptions) now =
      (t.compareOptions (hook update t.pendingOptions) now').map fun a => a.shift s := by
  have hsame : ¬ t.options.startTime ≠ (hook update t.pendingOptions).startTime := by
    rw [hook_startTime, h.options, h.pending]
    exact not_not_intro rfl
  have hsame' : ¬ (t.shift s).options.startTime ≠ (hook update (t.shift s).pendingOptions).startTime := by
    rw [hook_startTime, (h.shift s).options, (h.shift s).pending]
    exact not_not_intro rfl
  rw [Transform.compareOptions, Transform.compareOptions, if_neg hsame, if_neg hsame']
  have hpending : hook update (t.shift s).pendingOptions = (hook update t.pendingOptions).shift s := hook_shift s
  rw [hpending, animatorOf_shift, show (t.shift s).animator = t.animator.shift s from rfl, newTargets_shift]
  by_cases hstart : t.options.start ≠ (hook update t.pendingOptions).start
  · rw [if_pos hstart]
    exact if_pos hstart
  · rw [if_neg hstart]
    exact if_neg hstart

/-- A frame in time does at any start time what it does at the start time 0. -/
theorem frameRenderPre_shift (h : Timed 0 d t) (helapsed : elapsed < 2 ^ 31) (hin : InTime s d elapsed) :
    (t.shift s.toNat).frameRenderPre (hook update) (clock s elapsed) (clock s later) =
      (t.frameRenderPre (hook update) (clock 0 elapsed) (clock 0 later)).map fun t' => t'.shift s.toNat := by
  have hclock : (clock s elapsed).toNat = s.toNat + elapsed := by
    rw [clock_toNat, Nat.mod_eq_of_lt]
    rw [InTime] at hin
    split at hin <;> omega
  have hclock₀ : (clock 0 elapsed).toNat = elapsed := by
    rw [clock_toNat, UInt32.toNat_zero, zero_add, Nat.mod_eq_of_lt (by omega)]
  have hshift := h.shift s.toNat
  by_cases hover : d < elapsed
  · rw [Transform.frameRenderPre, if_pos, Transform.frameRenderPre, if_pos]
    · rfl
    · rw [h.pending, h.duration, hclock₀]
      omega
    · rw [hshift.pending, hshift.duration, hclock]
      omega
  · have hlt : s.toNat + elapsed < 2 ^ 31 := by rwa [InTime, if_pos (by omega)] at hin
    have hint : toInt ((elapsed : ℤ) + s.toNat) = toInt elapsed + s.toNat := by
      rw [toInt_of_lt (by omega) (by omega), toInt_of_lt (by omega) (by omega)]
    rw [frameRenderPre_running (by rw [hshift.pending, hshift.duration, hclock]; omega),
      frameRenderPre_running (by rw [h.pending, h.duration, hclock₀]; omega),
      @compareOptions_shift d t update (clock s later) (clock 0 later) h, Option.map_map, Option.map_map, hclock, hclock₀,
      Nat.cast_add, add_comm (s.toNat : ℤ)]
    refine congrArg (Option.map · _) (funext fun a => ?_)
    have hvalue : (a.shift s.toNat).value (elapsed + s.toNat) = (a.value elapsed).shift s.toNat :=
      Animator.value_shift hint
    have hpending : hook update (t.shift s.toNat).pendingOptions = (hook update t.pendingOptions).shift s.toNat :=
      hook_shift _
    simp only [Function.comp_apply, hvalue, hpending]
    rfl

/-- A run whose frames are in time is the run at the start time 0, moved in time. -/
theorem run_shift : ∀ (events : List Event) {t₀ t : Transform}, Timed 0 d t₀ →
    exec (guarded (step s) (framesInTime s d)) (some (t₀.shift s.toNat)) events = some (some t) →
    ∃ t₁, exec (step 0) (some t₀) events = some (some t₁) ∧ t = t₁.shift s.toNat ∧ Timed 0 d t₁
  | [], t₀, t, h₀, h => by
      rw [exec_nil] at h
      exact ⟨t₀, rfl, (Option.some.inj (Option.some.inj h)).symm, h₀⟩
  | .interrupt endData :: events, t₀, t, h₀, h =>
      run_shift events (h₀.interrupt endData) h
  | .frame elapsed later update :: events, t₀, t, h₀, h => by
      rw [exec_cons, Option.bind_eq_some_iff] at h
      obtain ⟨r, hr, h⟩ := h
      rw [guarded, Option.ite_none_right_eq_some] at hr
      obtain ⟨hin, hstep⟩ := hr
      simp only [framesInTime, Bool.and_eq_true, decide_eq_true_eq] at hin
      rw [step, frameRenderPre_shift h₀ hin.1 hin.2] at hstep
      obtain rfl := Option.some.inj hstep
      rcases @frameRenderPre_cases t₀ update 0 d (clock 0 elapsed) (clock 0 later) h₀ with ⟨_, hnone⟩ | ⟨_, t', ht', htimes⟩
      · rw [hnone] at h
        cases events with
        | nil => exact absurd h (by simp)
        | cons event events => exact absurd h (by simp [exec_cons, guarded, step])
      · rw [ht'] at h
        obtain ⟨t₁, hrun, heq, htimes₁⟩ := run_shift events htimes h
        refine ⟨t₁, ?_, heq, htimes₁⟩
        rw [exec_cons, step, ht']
        exact hrun

end frames

/-- An effect that is created has the times that it was created with. -/
theorem start_timed {options : TransformOptions} {s : UInt32} {d : ℕ} {t : Transform} (h : start options s d = some t) :
    Timed s.toNat d t := by
  rw [start, transformCreate, Option.map_eq_some_iff] at h
  obtain ⟨a, ha, rfl⟩ := h
  have hanimated : (options.type.geometry.isNone && options.type.alpha.isNone && options.type.angle.isNone) = false := by
    by_contra hnone
    rw [animatorOf, animatorCreate, if_pos (by simpa [and_assoc] using hnone)] at ha
    cases ha
  obtain ⟨a', ha', hstart, hstop⟩ := animatorOf_spec { options with startTime := s.toNat, duration := d } hanimated
  obtain rfl := Option.some.inj (ha'.symm.trans ha)
  exact ⟨hstart, hstop, rfl, rfl, rfl, hanimated⟩

/-- The effect that is created at any time is the one that is created at the start time 0. -/
theorem start_shift (options : TransformOptions) (s : UInt32) (d : ℕ) :
    start options s d = (start options 0 d).map fun t => t.shift s.toNat := by
  have hshift : ({ options with startTime := s.toNat, duration := d } : TransformOptions) =
      TransformOptions.shift { options with startTime := (0 : UInt32).toNat, duration := d } s.toNat := by
    simp [TransformOptions.shift]
  rw [start, start, transformCreate, transformCreate, hshift, animatorOf_shift, Option.map_map, Option.map_map]
  rfl

/-- As long as the frames come in time, an animation that is created at any time for `d` ms is the one created
    at the start time 0; a further frame then ends the effect if the animation is over, and computes the
    progress if it is not, exactly if it comes in time too. -/
theorem animation_without_uptime {options : TransformOptions} {s : UInt32} {d : ℕ} {t₀ t : Transform}
    {events : List Event} (hd : 0 < d) (hstart : start options 0 d = some t₀)
    (hrun : exec (guarded (step s) (framesInTime s d)) (start options s d) events = some (some t)) :
    (∃ t₁, exec (step 0) (some t₀) events = some (some t₁) ∧ t = t₁.shift s.toNat) ∧
      ∀ elapsed later update, elapsed < 2 ^ 31 → (FrameOk t s d elapsed later update ↔ InTime s d elapsed) := by
  rw [start_shift, hstart] at hrun
  obtain ⟨t₁, hrun₁, rfl, htimes⟩ := run_shift events (start_timed hstart) hrun
  refine ⟨⟨t₁, hrun₁, rfl⟩, fun elapsed later update helapsed => ?_⟩
  exact frameOk_iff hd helapsed (htimes.shift s.toNat)

/-- A window slides to the right along straight lines. -/
def slideRight : TransformOptions where
  type := ⟨some id, some id, some id⟩
  start := ⟨0, 0, ⟨0, 0, 100, 100⟩⟩
  endData := ⟨1, 0, ⟨300, 0, 100, 100⟩⟩
  startTime := 0
  duration := 0

/-- After one second the window slides to the right for a third of the time, turns back, and is half way back
    after two thirds; a frame at the end still belongs to the animation. -/
theorem slide_turns_back : ∃ t, exec (guarded (step 1000) (framesInTime 1000 300)) (start slideRight 1000 300)
      [.frame 100 100 none, .interrupt ⟨1, 0, ⟨0, 0, 100, 100⟩⟩, .frame 200 200 none] = some (some t) ∧
    t.current = ⟨2 / 3, 0, ⟨50, 0, 100, 100⟩⟩ ∧ FrameOk t 1000 300 300 300 none := by
  have hrun : (exec (guarded (step 1000) (framesInTime 1000 300)) (start slideRight 1000 300)
      [.frame 100 100 none, .interrupt ⟨1, 0, ⟨0, 0, 100, 100⟩⟩, .frame 200 200 none]).map
        (Option.map Transform.current) = some (some ⟨2 / 3, 0, ⟨50, 0, 100, 100⟩⟩) := by decide +kernel
  obtain ⟨_, hs, hcurrent⟩ := Option.map_eq_some_iff.1 hrun
  obtain ⟨t, rfl, hcurrent⟩ := Option.map_eq_some_iff.1 hcurrent
  obtain ⟨t₀, hstart⟩ : ∃ t₀, start slideRight 0 300 = some t₀ := ⟨_, rfl⟩
  have hframe := (animation_without_uptime (by decide) hstart hs).2 300 300 none (by decide)
  exact ⟨t, hs, Option.some.inj hcurrent, hframe.2 (by decide)⟩

/-- After 2^31 ms the first frames of the animation do not compute the progress, and when the clock wraps around
    during the animation its end is missed. -/
theorem slide_depends_on_uptime :
    (¬ ∀ s t, start slideRight s 300 = some t → FrameOk t s 300 100 100 none) ∧
      ¬ ∀ s t, start slideRight s 300 = some t → FrameOk t s 300 301 301 none := by
  constructor
  · intro h
    obtain ⟨t, ht⟩ : ∃ t, start slideRight (2 ^ 31) 300 = some t := ⟨_, rfl⟩
    exact absurd ((frameOk_iff (by decide) (by decide) (start_timed ht)).1 (h _ t ht)) (by decide)
  · intro h
    obtain ⟨t, ht⟩ : ∃ t, start slideRight (2 ^ 32 - 100) 300 = some t := ⟨_, rfl⟩
    exact absurd ((frameOk_iff (by decide) (by decide) (start_timed ht)).1 (h _ t ht)) (by decide)

end FlakeWm.Effects
