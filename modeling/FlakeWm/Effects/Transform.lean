import FlakeWm.Effects.Animator

/-! The transform effect of a node (`src/effect/transform.c`).

    An interrupted transform gets a new target, which the next frame hands on to the animator. What the hook of
    an effect does to the pending options at a frame is part of the frame; the options that only matter to
    thumbnails are left out. A transform is gone when its entity is destroyed. -/

namespace FlakeWm.Effects

/-- `current_time_msec`, with the milliseconds since the start. -/
def currentTimeMsec (msec : ℕ) : UInt32 := UInt32.ofNat msec

structure TransformOptions where
  type : AnimationTypeGroup
  start : AnimationData
  endData : AnimationData
  startTime : ℤ
  duration : ℤ

structure Transform where
  animator : Animator
  current : AnimationData
  pendingOptions : TransformOptions
  options : TransformOptions
  interrupted : Bool

/-- The animator of `transform_create_animator`. -/
def animatorOf (options : TransformOptions) : Option Animator :=
  (animatorCreate options.start options.type options.startTime (options.startTime + options.duration)).map fun a =>
    (((a.setPosition options.endData.geometry.x options.endData.geometry.y).setSize options.endData.geometry.width
      options.endData.geometry.height).setAlpha options.endData.alpha).setAngle options.endData.angle

/-- `transform_create`. -/
def transformCreate (options : TransformOptions) : Option Transform :=
  (animatorOf options).map fun animator =>
    { animator := animator
      current := ⟨0, 0, ⟨0, 0, 0, 0⟩⟩
      pendingOptions := options
      options := options
      interrupted := false }

namespace Transform

variable (t : Transform)

/-- `transform_effect_get_or_create_transform`, on a node that has the effect. -/
def interrupt (endData : AnimationData) : Transform :=
  { t with
    options := t.pendingOptions
    pendingOptions := { t.pendingOptions with endData := endData }
    interrupted := true }

/-- The targets that changed since the last frame. -/
def newTargets (pending : TransformOptions) (a : Animator) : Animator :=
  let a := if t.options.endData.alpha ≠ pending.endData.alpha then a.setAlpha pending.endData.alpha else a
  let a := if t.options.endData.angle ≠ pending.endData.angle then a.setAngle pending.endData.angle else a
  if t.options.endData.geometry ≠ pending.endData.geometry then
    (a.setPosition pending.endData.geometry.x pending.endData.geometry.y).setSize pending.endData.geometry.width
      pending.endData.geometry.height
  else a

/-- The animator after the comparison of the options: a new one when the start has changed. -/
def compareOptions (pending : TransformOptions) (later : UInt32) : Option Animator :=
  let a := if t.options.startTime ≠ pending.startTime then
      t.animator.setTime (pending.startTime + pending.duration) later
    else t.animator
  if t.options.start ≠ pending.start then animatorOf pending else some (t.newTargets pending a)

/-- `transform_effect_frame_render_pre`, with what the hook does to the pending options and the two readings of
    the clock. -/
def frameRenderPre (update : TransformOptions → TransformOptions) (time later : UInt32) : Option Transform :=
  if (time.toNat : ℤ) > t.pendingOptions.startTime + t.pendingOptions.duration then none
  else
    let pending := update t.pendingOptions
    (t.compareOptions pending later).map fun a =>
      let a := a.value time.toNat
      { animator := a
        current := a.current
        pendingOptions := pending
        options := pending
        interrupted := false }

end Transform

end FlakeWm.Effects
