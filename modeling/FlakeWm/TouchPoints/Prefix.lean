import FlakeWm.Schemes.Run
import FlakeWm.TouchPoints.Model
import Mathlib.Algebra.BigOperators.Group.List.Basic
import Mathlib.Data.List.Nodup

/-! The used points of a touch device are a prefix of its list.

    A touch takes the first free point or a new one at the end, and a point that is released goes to the end;
    so the list is always a block of used points followed by free ones, and every loop that stops at the first
    free point comes by exactly the used ones. The two counters follow the block. -/

namespace FlakeWm.TouchPoints

variable {t t' : Touch} {l U F : List TouchPoint} {touchId : ℤ}

/-! ### Lists of points -/

theorem updateFirst_append {p : TouchPoint → Bool} {f : TouchPoint → TouchPoint} :
    ∀ U : List TouchPoint, U.any p = false → updateFirst p f (U ++ F) = U ++ updateFirst p f F
  | [], _ => rfl
  | point :: U, h => by
      rw [List.any_cons, Bool.or_eq_false_iff] at h
      rw [List.cons_append, updateFirst, if_neg (by simp [h.1]), updateFirst_append U h.2]
      rfl

theorem updateFirst_append_of_any {p : TouchPoint → Bool} {f : TouchPoint → TouchPoint} :
    ∀ U : List TouchPoint, U.any p = true → updateFirst p f (U ++ F) = updateFirst p f U ++ F
  | [], h => by simp at h
  | point :: U, h => by
      rw [List.cons_append, updateFirst, updateFirst]
      by_cases hp : p point = true
      · rw [if_pos hp, if_pos hp]
        rfl
      · rw [if_neg hp, if_neg hp, List.cons_append,
          updateFirst_append_of_any U (by simpa [hp] using h)]

/-- A change that keeps some data of an element keeps those of the list. -/
theorem map_updateFirst {β : Type} {p : TouchPoint → Bool} {f : TouchPoint → TouchPoint} {g : TouchPoint → β}
    (h : ∀ point, g (f point) = g point) : ∀ l : List TouchPoint, (updateFirst p f l).map g = l.map g
  | [] => rfl
  | point :: l => by
      rw [updateFirst]
      split
      · rw [List.map_cons, List.map_cons, h]
      · rw [List.map_cons, List.map_cons, map_updateFirst h l]

/-- The reset disarms the block of used points. -/
theorem disarmUsed_append (hF : ∀ point ∈ F, point.touchId < 0) : ∀ U : List TouchPoint,
    (∀ point ∈ U, 0 ≤ point.touchId) →
    disarmUsed (U ++ F) = U.map (fun point => { point with armed := false }) ++ F
  | [], _ => by
      cases F with
      | nil => rfl
      | cons point F =>
        have hfree : ¬ point.used = true := by
          rw [TouchPoint.used, decide_eq_true_eq]
          exact not_le.2 (hF point List.mem_cons_self)
        rw [List.nil_append, disarmUsed, if_neg hfree]
        rfl
  | point :: U, hU => by
      have hused : point.used = true := decide_eq_true (hU point List.mem_cons_self)
      rw [List.cons_append, disarmUsed, if_pos hused,
        disarmUsed_append hF U fun p hp => hU p (List.mem_cons_of_mem _ hp)]
      rfl

/-! ### The invariant -/

/-- What is kept of a used point: an identifier that is down, and a timer that only runs before the hold. -/
structure UsedOk (down : ℤ → Bool) (point : TouchPoint) : Prop where
  used : 0 ≤ point.touchId
  down : down point.touchId = true
  timer : point.armed = true → point.hold = false

structure FreeOk (point : TouchPoint) : Prop where
  free : point.touchId < 0
  hold : point.hold = false
  armed : point.armed = false

/-- The list is a block of used points and the free ones. -/
structure Laid (t : Touch) (U F : List TouchPoint) : Prop where
  points : t.points = U ++ F
  used : ∀ point ∈ U, UsedOk t.down point
  free : ∀ point ∈ F, FreeOk point
  distinct : (U.map TouchPoint.touchId).Nodup
  count : t.pointsCount = U.length
  holds : t.holdPoints = U.countP TouchPoint.hold

/-- The list is laid out, and nothing was divided by zero. -/
structure Inv (t : Touch) : Prop where
  laid : ∃ U F, Laid t U F
  divisors : 0 ∉ t.divisors

/-- Only the gestures, the filter and the lock may be different. -/
theorem Inv.congr (h : Inv t) (hpoints : t'.points = t.points) (hcount : t'.pointsCount = t.pointsCount)
    (hholds : t'.holdPoints = t.holdPoints) (hdown : t'.down = t.down) (hdivisors : 0 ∉ t'.divisors) : Inv t' := by
  obtain ⟨⟨U, F, hlaid⟩, -⟩ := h
  refine ⟨⟨U, F, hpoints.trans hlaid.points, fun point hmem => ?_, hlaid.free, hlaid.distinct,
    hcount.trans hlaid.count, hholds.trans hlaid.holds⟩, hdivisors⟩
  obtain ⟨hused, hd, htimer⟩ := hlaid.used point hmem
  exact ⟨hused, hdown ▸ hd, htimer⟩

/-! ### Gestures -/

/-- A step of the gestures: the points and the counters are the same, apart from the timers of points, and the
    list stays laid out. -/
structure Gestured (t t' : Touch) : Prop where
  inv : Inv t → Inv t'
  ids : t'.points.map TouchPoint.touchId = t.points.map TouchPoint.touchId
  count : t'.pointsCount = t.pointsCount
  holds : t'.holdPoints = t.holdPoints
  down : t'.down = t.down

theorem Gestured.refl (t : Touch) : Gestured t t := ⟨id, rfl, rfl, rfl, rfl⟩

theorem Gestured.trans {t'' : Touch} (h : Gestured t t') (h' : Gestured t' t'') : Gestured t t'' :=
  ⟨h'.inv ∘ h.inv, h'.ids.trans h.ids, h'.count.trans h.count, h'.holds.trans h.holds, h'.down.trans h.down⟩

/-- Only the state of the gesture, the filter and the lock are set. -/
theorem Gestured.set {t'' : Touch} (h : Gestured t t') (hpoints : t''.points = t'.points)
    (hcount : t''.pointsCount = t'.pointsCount) (hholds : t''.holdPoints = t'.holdPoints) (hdown : t''.down = t'.down)
    (hdivisors : t''.divisors = t'.divisors) : Gestured t t'' :=
  h.trans ⟨fun hinv => hinv.congr hpoints hcount hholds hdown (hdivisors ▸ hinv.divisors),
    congrArg (List.map TouchPoint.touchId) hpoints, hcount, hholds, hdown⟩

/-- One of two states is picked. -/
theorem Gestured.ite {p : Prop} {_ : Decidable p} {t'' : Touch} (h : Gestured t t') (h' : Gestured t t'') :
    Gestured t (if p then t' else t'') := by
  split
  · exact h
  · exact h'

theorem map_disarmUsed : ∀ l : List TouchPoint, (disarmUsed l).map TouchPoint.touchId = l.map TouchPoint.touchId
  | [] => rfl
  | point :: l => by
      rw [disarmUsed]
      split
      · rw [List.map_cons, List.map_cons, map_disarmUsed l]
      · rfl

theorem resetGesture_gestured (t : Touch) : Gestured t t.resetGesture := by
  refine ⟨fun h => ?_, map_disarmUsed t.points, rfl, rfl, rfl⟩
  obtain ⟨⟨U, F, hlaid⟩, hdivisors⟩ := h
  refine ⟨⟨U.map fun point => { point with armed := false }, F, ?_, ?_, hlaid.free, ?_, ?_, ?_⟩, hdivisors⟩
  · show disarmUsed t.points = _
    rw [hlaid.points]
    exact disarmUsed_append (fun point hmem => (hlaid.free point hmem).free) U fun point hmem =>
      (hlaid.used point hmem).used
  · intro point hmem
    obtain ⟨old, hold, rfl⟩ := List.mem_map.1 hmem
    exact ⟨(hlaid.used old hold).used, (hlaid.used old hold).down, fun harmed => absurd harmed Bool.false_ne_true⟩
  · rw [List.map_map]
    exact hlaid.distinct
  · rw [List.length_map]
    exact hlaid.count
  · rw [List.countP_map]
    exact hlaid.holds

theorem gestureEnd_gestured (t : Touch) (type : Gestures.GestureType) (answer : Answer) :
    Gestured t (t.gestureEnd type answer) := by
  have hreset : Gestured t (if answer.resets then t.resetGesture else t) := (resetGesture_gestured t).ite (.refl t)
  refine (Gestured.refl t).ite ?_
  exact hreset.set rfl rfl rfl rfl rfl

/-- With a point on the screen a gesture begins without a division by zero. -/
theorem gestureBegin_gestured (hcount : t.pointsCount ≠ 0) (gesture : Gestures.GestureType) (fingers : ℕ)
    (answer : Answer) : Gestured t (t.gestureBegin gesture fingers answer).2 := by
  have hend : Gestured t (if t.gestures.type ≠ .none then t.gestureEnd t.gestures.type answer else t) :=
    (gestureEnd_gestured t _ answer).ite (.refl t)
  rw [Touch.gestureBegin]
  split
  · exact .refl t
  · dsimp only
    split
    · exact hend
    · refine hend.trans ⟨fun h => h.congr rfl rfl rfl rfl fun hzero => ?_, rfl, rfl, rfl, rfl⟩
      rcases List.mem_cons.1 hzero with hzero | hzero
      · exact hcount (hend.count.symm.trans hzero.symm)
      · exact h.divisors hzero

theorem gestureDetect_gestured (t : Touch) (answer : Answer) : Gestured t (t.gestureDetect answer) := by
  rw [Touch.gestureDetect]
  split
  · exact .refl t
  next hcount =>
    have hhold := gestureBegin_gestured hcount .hold t.holdPoints answer
    have hended : Gestured t (if (t.gestureBegin .hold t.holdPoints answer).2.holdPoints ≠ 1 then
        (t.gestureBegin .hold t.holdPoints answer).2.gestureEnd .hold answer
        else (t.gestureBegin .hold t.holdPoints answer).2) :=
      (hhold.trans (gestureEnd_gestured _ _ answer)).ite hhold
    refine Gestured.ite (Gestured.ite (hhold.ite ?_) (.refl t))
      ((gestureBegin_gestured hcount .swipe 1 answer).ite (gestureBegin_gestured hcount _ _ answer))
    exact hended.set rfl rfl rfl rfl rfl

theorem gestureUpdate_gestured (hcount : t.pointsCount ≠ 0) (answer : Answer) :
    Gestured t (t.gestureUpdate answer) := by
  have hnoted : Gestured t { t with divisors := t.pointsCount :: t.divisors } := by
    refine ⟨fun h => h.congr rfl rfl rfl rfl fun hzero => ?_, rfl, rfl, rfl, rfl⟩
    rcases List.mem_cons.1 hzero with hzero | hzero
    · exact hcount hzero.symm
    · exact h.divisors hzero
  have hreset : Gestured t (if answer.resets then { t with divisors := t.pointsCount :: t.divisors }.resetGesture
      else { t with divisors := t.pointsCount :: t.divisors }) :=
    (hnoted.trans (resetGesture_gestured _)).ite hnoted
  refine Gestured.ite ?_ (hnoted.ite (.refl t))
  exact hreset.set rfl rfl rfl rfl rfl

/-! ### Points that come and go -/

/-- An identifier that is not down is that of no used point. -/
theorem Laid.not_used (h : Laid t U F) (hdown : t.down touchId = false) : U.any (ofId touchId) = false := by
  rw [List.any_eq_false]
  rintro point hmem hid
  have hd := (h.used point hmem).down
  rw [of_decide_eq_true hid, hdown] at hd
  cases hd

theorem Laid.not_free (h : Laid t U F) (hid : 0 ≤ touchId) : F.any (ofId touchId) = false := by
  rw [List.any_eq_false]
  rintro point hmem hpoint
  have hfree := (h.free point hmem).free
  rw [of_decide_eq_true hpoint] at hfree
  omega

/-- A point that is put down at the end of the used ones. -/
theorem Laid.extend (h : Laid t U F) (hid : 0 ≤ touchId) (hdown : t.down touchId = false) {point : TouchPoint}
    {F' : List TouchPoint} (hF' : ∀ point ∈ F', FreeOk point) (hpoint : point.touchId = touchId)
    (hhold : point.hold = false) (hpoints : t'.points = U ++ point :: F') (hcount : t'.pointsCount = t.pointsCount + 1)
    (hholds : t'.holdPoints = t.holdPoints) (hdown' : t'.down = Function.update t.down touchId true) :
    Laid t' (U ++ [point]) F' := by
  have hfresh : touchId ∉ U.map TouchPoint.touchId := by
    intro hmem
    obtain ⟨other, hother, heq⟩ := List.mem_map.1 hmem
    have hany := List.any_eq_false.1 (h.not_used hdown) other hother
    exact hany (decide_eq_true heq)
  refine ⟨by rw [hpoints, List.append_assoc]; rfl, fun other hmem => ?_, hF', ?_, ?_, ?_⟩
  · rcases List.mem_append.1 hmem with hmem | hmem
    · obtain ⟨hused, hd, htimer⟩ := h.used other hmem
      have hne : other.touchId ≠ touchId := fun heq => hfresh (heq ▸ List.mem_map_of_mem hmem)
      exact ⟨hused, by rw [hdown', Function.update_of_ne hne, hd], htimer⟩
    · obtain rfl := List.mem_singleton.1 hmem
      exact ⟨hpoint ▸ hid, by rw [hdown', hpoint, Function.update_self], fun _ => hhold⟩
  · rw [List.map_append, List.map_singleton, hpoint]
    exact List.nodup_append'.2 ⟨h.distinct, List.nodup_singleton _, List.disjoint_singleton.2 hfresh⟩
  · rw [hcount, h.count, List.length_append, List.length_singleton]
  · rw [hholds, h.holds, List.countP_append, List.countP_singleton, hhold]
    rfl

/-- A touch takes a point at the end of the used ones. -/
theorem handleDown_inv (h : Inv t) {x y : ℚ} {grab timer : Bool} (hid : 0 ≤ touchId) (hdown : t.down touchId = false) :
    Inv { t.handleDown touchId x y grab timer with down := Function.update t.down touchId true } := by
  obtain ⟨⟨U, F, hlaid⟩, hdivisors⟩ := h
  by_cases hgrab : (!t.locked && grab) = true
  · rw [Touch.handleDown, if_pos hgrab]
    refine ⟨⟨U, F, hlaid.points, fun point hmem => ?_, hlaid.free, hlaid.distinct, hlaid.count, hlaid.holds⟩, hdivisors⟩
    obtain ⟨hused, hd, htimer⟩ := hlaid.used point hmem
    refine ⟨hused, ?_, htimer⟩
    show Function.update t.down touchId true point.touchId = true
    by_cases heq : point.touchId = touchId
    · rw [heq, Function.update_self]
    · rw [Function.update_of_ne heq, hd]
  rw [Touch.handleDown, if_neg hgrab]
  have hnone : t.points.any (ofId touchId) = false := by
    rw [hlaid.points, List.any_append, hlaid.not_used hdown, hlaid.not_free hid]
    rfl
  have hused : U.any (fun point => !point.used) = false := by
    rw [List.any_eq_false]
    intro point hmem
    simp [TouchPoint.used, (hlaid.used point hmem).used]
  cases F with
  | nil =>
    have hcreate : Touch.pointCreate t.points touchId timer = U ++ [{ touchId := touchId, timer := timer }] := by
      rw [Touch.pointCreate, if_neg (by rw [hnone]; exact Bool.false_ne_true), hlaid.points, List.append_nil,
        if_neg (by rw [hused]; exact Bool.false_ne_true)]
    refine ⟨⟨U ++ [Touch.putPoint x y { touchId := touchId, timer := timer }], [],
      hlaid.extend hid hdown (by simp) rfl rfl ?_ rfl rfl rfl⟩, hdivisors⟩
    show updateFirst _ _ (Touch.pointCreate t.points touchId timer) = _
    rw [hcreate, updateFirst_append U (hlaid.not_used hdown), updateFirst, if_pos (by simp [ofId])]
  | cons free F =>
    have hfree := hlaid.free free List.mem_cons_self
    have hcreate : Touch.pointCreate t.points touchId timer = U ++ { free with touchId := touchId } :: F := by
      have hany : t.points.any (fun point => !point.used) = true := by
        rw [hlaid.points, List.any_append, List.any_cons, TouchPoint.used, decide_eq_false (not_le.2 hfree.free)]
        simp
      rw [Touch.pointCreate, if_neg (by rw [hnone]; exact Bool.false_ne_true), if_pos hany, hlaid.points,
        updateFirst_append U hused, updateFirst, if_pos (by simp [TouchPoint.used, hfree.free])]
    refine ⟨⟨U ++ [Touch.putPoint x y { free with touchId := touchId }], F,
      hlaid.extend hid hdown (fun point hmem => hlaid.free point (List.mem_cons_of_mem _ hmem)) rfl hfree.hold ?_
        rfl rfl rfl⟩, hdivisors⟩
    show updateFirst _ _ (Touch.pointCreate t.points touchId timer) = _
    rw [hcreate, updateFirst_append U (hlaid.not_used hdown), updateFirst, if_pos (by simp [ofId])]

/-- A change of used points that keeps identifiers, holds and timers. -/
theorem Laid.same {U' : List TouchPoint} (h : Laid t U F)
    (hsame : U'.map (fun point => (point.touchId, point.hold, point.armed)) =
      U.map fun point => (point.touchId, point.hold, point.armed))
    (hpoints : t'.points = U' ++ F) (hcount : t'.pointsCount = t.pointsCount) (hholds : t'.holdPoints = t.holdPoints)
    (hdown : t'.down = t.down) : Laid t' U' F := by
  have hids := congrArg (List.map Prod.fst) hsame
  have hheld := congrArg (List.countP fun data : ℤ × Bool × Bool => data.2.1) hsame
  rw [List.map_map, List.map_map] at hids
  rw [List.countP_map, List.countP_map] at hheld
  refine ⟨hpoints, fun point hmem => ?_, h.free, ?_, ?_, ?_⟩
  · have hdata : (point.touchId, point.hold, point.armed) ∈
        U.map fun point => (point.touchId, point.hold, point.armed) :=
      hsame ▸ List.mem_map_of_mem hmem
    obtain ⟨old, hold, heq⟩ := List.mem_map.1 hdata
    obtain ⟨hid, heq⟩ := Prod.mk.inj heq
    obtain ⟨hh, ha⟩ := Prod.mk.inj heq
    obtain ⟨hused, hd, htimer⟩ := h.used old hold
    exact ⟨hid ▸ hused, by rw [hdown, ← hid, hd], fun harmed => hh ▸ htimer (ha.trans harmed)⟩
  · exact hids ▸ h.distinct
  · rw [hcount, h.count, ← List.length_map, ← hsame, List.length_map]
  · rw [hholds, h.holds]
    exact hheld.symm

theorem handleMotion_inv (h : Inv t) {x y : ℚ} {grab : Bool} {ended updated : Answer} (hid : 0 ≤ touchId) :
    Inv (t.handleMotion touchId x y grab ended updated) := by
  obtain ⟨⟨U, F, hlaid⟩, hdivisors⟩ := id h
  rw [Touch.handleMotion]
  split
  · exact h
  split
  · exact h
  next hany =>
    have hused : U.any (ofId touchId) = true := by
      rw [hlaid.points, List.any_append, hlaid.not_free hid, Bool.or_false] at hany
      simpa using hany
    have hmoved : Inv { t with points := updateFirst (ofId touchId) (Touch.movePoint x y) t.points } := by
      refine ⟨⟨updateFirst (ofId touchId) (Touch.movePoint x y) U, F,
        hlaid.same ?_ ?_ rfl rfl rfl⟩, hdivisors⟩
      · exact map_updateFirst (fun point => (rfl : (_, (Touch.movePoint x y point).hold, _) = _)) U
      · show updateFirst _ _ t.points = _
        rw [hlaid.points, updateFirst_append_of_any U hused]
    have hcount : t.pointsCount ≠ 0 := by
      rw [hlaid.count]
      obtain ⟨point, hmem, -⟩ := List.any_eq_true.1 hused
      exact (List.length_pos_of_mem hmem).ne'
    dsimp only
    split
    · have hdetect : Gestured { t with points := updateFirst (ofId touchId) (Touch.movePoint x y) t.points }
          (if t.gestures.handled = true then
            { t with points := updateFirst (ofId touchId) (Touch.movePoint x y) t.points }
          else Touch.gestureDetect
            { t with points := updateFirst (ofId touchId) (Touch.movePoint x y) t.points } ended) :=
        (Gestured.refl _).ite (gestureDetect_gestured _ ended)
      refine (gestureUpdate_gestured ?_ updated).inv (hdetect.inv hmoved)
      rw [hdetect.count]
      exact hcount
    · exact hmoved

/-- A used point splits the block at its place. -/
theorem Laid.split (h : Laid t U F) (hid : 0 ≤ touchId) (hany : t.points.any (ofId touchId) = true) :
    ∃ U₁ point U₂, U = U₁ ++ point :: U₂ ∧ point.touchId = touchId ∧ U₁.any (ofId touchId) = false ∧
      U₂.any (ofId touchId) = false := by
  rw [h.points, List.any_append, h.not_free hid, Bool.or_false] at hany
  obtain ⟨point, hmem, hpoint⟩ := List.any_eq_true.1 hany
  obtain ⟨U₁, U₂, rfl⟩ := List.append_of_mem hmem
  have hpoint : point.touchId = touchId := of_decide_eq_true hpoint
  have hdistinct := h.distinct
  rw [List.map_append, List.map_cons, List.nodup_append, List.nodup_cons] at hdistinct
  obtain ⟨-, ⟨hafter, -⟩, hbefore⟩ := hdistinct
  refine ⟨U₁, point, U₂, rfl, hpoint, ?_, ?_⟩
  · rw [List.any_eq_false]
    intro other hother hsame
    have hsame : other.touchId = touchId := of_decide_eq_true hsame
    exact hbefore _ (List.mem_map_of_mem hother) _ List.mem_cons_self (hsame.trans hpoint.symm)
  · rw [List.any_eq_false]
    intro other hother hsame
    have hsame : other.touchId = touchId := of_decide_eq_true hsame
    exact hafter (by rw [hpoint, ← hsame]; exact List.mem_map_of_mem hother)

/-- A released point goes to the end of the free ones. -/
theorem release_inv (h : Inv t) (hid : 0 ≤ touchId) (hany : t.points.any (ofId touchId) = true) :
    Inv { t.release touchId with down := Function.update t.down touchId false } := by
  obtain ⟨⟨U, F, hlaid⟩, hdivisors⟩ := h
  obtain ⟨U₁, point, U₂, rfl, hpoint, hbefore, hafter⟩ := hlaid.split hid hany
  have hisId : ofId touchId point = true := decide_eq_true hpoint
  have hnone : ∀ other ∈ U₁, ¬ ofId touchId other = true := List.any_eq_false.1 hbefore
  have hfind : t.points.find? (ofId touchId) = some point := by
    rw [hlaid.points, List.append_assoc, List.find?_append, List.find?_eq_none.2 hnone, List.cons_append,
      List.find?_cons_of_pos hisId]
    rfl
  have herase : t.points.eraseP (ofId touchId) = (U₁ ++ U₂) ++ F := by
    rw [hlaid.points, List.append_assoc, List.eraseP_append_right _ hnone, List.cons_append,
      List.eraseP_cons_of_pos hisId, List.append_assoc]
  have hsub : ∀ other ∈ U₁ ++ U₂, other ∈ U₁ ++ point :: U₂ := by
    intro other hother
    rcases List.mem_append.1 hother with hother | hother
    · exact List.mem_append_left _ hother
    · exact List.mem_append_right _ (List.mem_cons_of_mem _ hother)
  have hother : ∀ other ∈ U₁ ++ U₂, other.touchId ≠ touchId := by
    intro other hmem heq
    rcases List.mem_append.1 hmem with hmem | hmem
    · exact hnone other hmem (decide_eq_true heq)
    · exact List.any_eq_false.1 hafter other hmem (decide_eq_true heq)
  rw [Touch.release, hfind]
  refine ⟨⟨U₁ ++ U₂, F ++ [{ point with touchId := -1, armed := false, hold := false }], ?_, ?_, ?_, ?_, ?_, ?_⟩,
    hdivisors⟩
  · show t.points.eraseP (ofId touchId) ++ _ = _
    rw [herase, List.append_assoc]
  · intro other hmem
    obtain ⟨hused, hd, htimer⟩ := hlaid.used other (hsub other hmem)
    refine ⟨hused, ?_, htimer⟩
    show Function.update t.down touchId false other.touchId = true
    rw [Function.update_of_ne (hother other hmem), hd]
  · intro other hmem
    rcases List.mem_append.1 hmem with hmem | hmem
    · exact hlaid.free other hmem
    · obtain rfl := List.mem_singleton.1 hmem
      exact ⟨(by decide : (-1 : ℤ) < 0), rfl, rfl⟩
  · have hdistinct := hlaid.distinct
    rw [List.map_append, List.map_cons] at hdistinct
    rw [List.map_append]
    exact hdistinct.sublist ((List.Sublist.refl _).append (List.sublist_cons_self _ _))
  · show t.pointsCount - 1 = _
    rw [hlaid.count, List.length_append, List.length_append, List.length_cons]
    omega
  · show (if point.hold = true then t.holdPoints - 1 else t.holdPoints) = _
    rw [hlaid.holds, List.countP_append, List.countP_append, List.countP_cons]
    split
    · omega
    · rfl

theorem any_ofId (touchId : ℤ) (l : List TouchPoint) :
    l.any (ofId touchId) = true ↔ touchId ∈ l.map TouchPoint.touchId := by
  simp [List.any_eq_true, ofId]

theorem handleUp_inv (h : Inv t) {answer : Answer} (hid : 0 ≤ touchId) :
    Inv { t.handleUp touchId answer with down := Function.update t.down touchId false } := by
  rw [Touch.handleUp]
  split
  next hany =>
    have hended : Gestured t (if t.gestures.type = .none then t else
        { t with holdCanceled := t.holdCanceled || decide (t.gestures.type = Gestures.GestureType.hold) }.gestureEnd
          t.gestures.type answer) := by
      refine (Gestured.refl t).ite (Gestured.trans ?_ (gestureEnd_gestured _ _ answer))
      exact (Gestured.refl t).set rfl rfl rfl rfl rfl
    have hrelease := release_inv (hended.inv h) hid ((any_ofId _ _).2 (hended.ids ▸ (any_ofId _ _).1 hany))
    rwa [hended.down] at hrelease
  next hany =>
    obtain ⟨⟨U, F, hlaid⟩, hdivisors⟩ := h
    refine ⟨⟨U, F, hlaid.points, fun point hmem => ?_, hlaid.free, hlaid.distinct, hlaid.count, hlaid.holds⟩, hdivisors⟩
    obtain ⟨hused, hd, htimer⟩ := hlaid.used point hmem
    refine ⟨hused, ?_, htimer⟩
    show Function.update t.down touchId false point.touchId = true
    rw [Function.update_of_ne ?_, hd]
    intro heq
    refine hany (List.any_eq_true.2 ⟨point, ?_, decide_eq_true heq⟩)
    rw [hlaid.points]
    exact List.mem_append_left _ hmem

theorem modify_at_length {f : TouchPoint → TouchPoint} {point : TouchPoint} :
    ∀ U : List TouchPoint, (U ++ point :: l).modify U.length f = U ++ f point :: l
  | [] => rfl
  | other :: U => by
      rw [List.cons_append, List.length_cons, List.modify_succ_cons, modify_at_length U]
      rfl

/-- A hold timer runs only for a used point that is not held yet. -/
theorem holdTimer_inv (h : Inv t) {i : ℕ} {answer : Answer} (harmed : t.points[i]?.map TouchPoint.armed = some true) :
    Inv (t.holdTimer i answer) := by
  obtain ⟨⟨U, F, hlaid⟩, hdivisors⟩ := h
  obtain ⟨point, hpoint, hruns⟩ := Option.map_eq_some_iff.1 harmed
  have hi : i < U.length := by
    by_contra hge
    rw [hlaid.points, List.getElem?_append_right (not_lt.1 hge)] at hpoint
    have hfree := (hlaid.free point (List.mem_of_getElem? hpoint)).armed
    rw [hruns] at hfree
    cases hfree
  rw [hlaid.points, List.getElem?_append_left hi] at hpoint
  obtain ⟨U₁, U₂, rfl, rfl⟩ : ∃ U₁ U₂, U = U₁ ++ point :: U₂ ∧ i = U₁.length := by
    obtain ⟨_, heq⟩ := List.getElem?_eq_some_iff.1 hpoint
    refine ⟨U.take i, U.drop (i + 1), ?_, (List.length_take_of_le hi.le).symm⟩
    rw [← heq, ← List.drop_eq_getElem_cons, List.take_append_drop]
  have hmem : point ∈ U₁ ++ point :: U₂ := List.mem_append_right _ List.mem_cons_self
  have hhold := (hlaid.used point hmem).timer hruns
  have hheld : Inv { t with
      points := t.points.modify U₁.length fun point => { point with hold := true, armed := false }
      holdPoints := t.holdPoints + 1 } := by
    refine ⟨⟨U₁ ++ { point with hold := true, armed := false } :: U₂, F, ?_, fun other hother => ?_, hlaid.free, ?_, ?_, ?_⟩,
      hdivisors⟩
    · show t.points.modify _ _ = _
      rw [hlaid.points, List.append_assoc, List.cons_append, modify_at_length, List.append_assoc]
      rfl
    · rcases List.mem_append.1 hother with hother | hother
      · exact hlaid.used other (List.mem_append_left _ hother)
      · rcases List.mem_cons.1 hother with rfl | hother
        · exact ⟨(hlaid.used point hmem).used, (hlaid.used point hmem).down, fun h => absurd h Bool.false_ne_true⟩
        · exact hlaid.used other (List.mem_append_right _ (List.mem_cons_of_mem _ hother))
    · have hdistinct := hlaid.distinct
      rw [List.map_append, List.map_cons] at hdistinct ⊢
      exact hdistinct
    · show t.pointsCount = _
      rw [hlaid.count, List.length_append, List.length_append]
      rfl
    · show t.holdPoints + 1 = _
      rw [hlaid.holds, List.countP_append, List.countP_append, List.countP_cons, List.countP_cons, hhold]
      rfl
  have hcount : t.pointsCount ≠ 0 := by
    rw [hlaid.count]
    exact (List.length_pos_of_mem hmem).ne'
  rw [Touch.holdTimer]
  dsimp only
  split
  · exact hheld
  · split
    · exact hheld.congr rfl rfl rfl rfl hheld.divisors
    · split
      · exact (gestureBegin_gestured (by exact hcount) .hold _ answer).inv hheld
      · exact hheld

/-- Every event keeps the list laid out. -/
theorem step_inv {e : Event} (h : Inv t) (hs : step t e = some t') : Inv t' := by
  cases e with
  | down touchId x y grab timer =>
    obtain ⟨⟨hid, hdown⟩, heq⟩ := Option.ite_none_right_eq_some.1 hs
    obtain rfl := Option.some.inj heq
    exact handleDown_inv h hid hdown
  | motion touchId x y grab ended updated =>
    obtain ⟨hid, heq⟩ := Option.ite_none_right_eq_some.1 hs
    obtain rfl := Option.some.inj heq
    exact handleMotion_inv h hid
  | up touchId answer | cancel touchId answer =>
    obtain ⟨hid, heq⟩ := Option.ite_none_right_eq_some.1 hs
    obtain rfl := Option.some.inj heq
    exact handleUp_inv h hid
  | holdTimer i answer =>
    obtain ⟨harmed, heq⟩ := Option.ite_none_right_eq_some.1 hs
    obtain rfl := Option.some.inj heq
    exact holdTimer_inv h harmed
  | filterTimer answer =>
    obtain ⟨-, heq⟩ := Option.ite_none_right_eq_some.1 hs
    obtain rfl := Option.some.inj heq
    exact (gestureDetect_gestured _ answer).inv (h.congr rfl rfl rfl rfl h.divisors)
  | resetGesture =>
    obtain rfl := Option.some.inj hs
    exact (resetGesture_gestured t).inv h
  | lock locked =>
    obtain rfl := Option.some.inj hs
    exact h.congr rfl rfl rfl rfl h.divisors

/-- What the loops and the counters rely on. -/
structure Kept (t : Touch) : Prop where
  visited : t.visited = t.points.filter TouchPoint.used
  layout : t.points = t.points.filter TouchPoint.used ++ t.points.filter fun point => !point.used
  distinct : ((t.points.filter TouchPoint.used).map TouchPoint.touchId).Nodup
  count : t.pointsCount = (t.points.filter TouchPoint.used).length
  holds : t.holdPoints = (t.points.filter fun point => point.used && point.hold).length
  divisors : 0 ∉ t.divisors

theorem Inv.kept (h : Inv t) : Kept t := by
  obtain ⟨⟨U, F, hlaid⟩, hdivisors⟩ := h
  have hU : ∀ point ∈ U, point.used = true := fun point hmem => decide_eq_true (hlaid.used point hmem).used
  have hF : ∀ point ∈ F, ¬ point.used = true := fun point hmem hused =>
    absurd (of_decide_eq_true hused) (not_le.2 (hlaid.free point hmem).free)
  have hfilter : t.points.filter TouchPoint.used = U := by
    rw [hlaid.points, List.filter_append, List.filter_eq_self.2 hU, List.filter_eq_nil_iff.2 hF, List.append_nil]
  have hfree : t.points.filter (fun point => !point.used) = F := by
    rw [hlaid.points, List.filter_append, List.filter_eq_nil_iff.2 fun point hmem => by simp [hU point hmem],
      List.filter_eq_self.2 fun point hmem => by simp [hF point hmem], List.nil_append]
  have hvisited : t.visited = U := by
    rw [Touch.visited, hlaid.points, List.takeWhile_append_of_pos hU]
    cases F with
    | nil => simp
    | cons point F => rw [List.takeWhile_cons_of_neg (hF point List.mem_cons_self), List.append_nil]
  refine ⟨hvisited.trans hfilter.symm, by rw [hfilter, hfree, hlaid.points], hfilter ▸ hlaid.distinct,
    hfilter ▸ hlaid.count, ?_, hdivisors⟩
  have hheld : (t.points.filter fun point => point.used && point.hold) = U.filter TouchPoint.hold := by
    rw [← hfilter, List.filter_filter]
    exact List.filter_congr fun point _ => Bool.and_comm _ _
  rw [hheld, hlaid.holds, List.countP_eq_length_filter]

/-- In every run of a device the used points are a prefix of the list with distinct identifiers, both counters
    are right, and no average is divided by zero. -/
theorem touch_points_kept (h : Reach step Always {} t) : Kept t := by
  have hstart : Inv {} :=
    ⟨⟨[], [], rfl, by simp, by simp, List.nodup_nil, rfl, rfl⟩, List.not_mem_nil⟩
  exact (h.inv hstart fun _ _ _ hinv _ hs => step_inv hinv hs).kept

/-- Two fingers, of which the first is held and lifted; a third one takes its point, and a touch that a grab
    has taken is lifted. -/
def threeFingers : List Event :=
  [.down 5 (1 / 2) (1 / 2) false true, .down 7 (1 / 4) (1 / 2) false true, .holdTimer 0 {}, .filterTimer {},
    .up 5 {}, .down 8 0 0 true true, .down 3 (3 / 4) (1 / 2) false true, .holdTimer 1 {}, .up 8 {}]

theorem threeFingers_kept : ∃ t, exec step {} threeFingers = some t ∧
    t.points.map TouchPoint.touchId = [7, 3] ∧ (t.pointsCount, t.holdPoints) = (2, 1) ∧ Kept t := by
  have hrun : (exec step {} threeFingers).map
      (fun t => (t.points.map TouchPoint.touchId, t.pointsCount, t.holdPoints)) = some ([7, 3], 2, 1) := by
    decide +kernel
  obtain ⟨t, ht, hpoints⟩ := Option.map_eq_some_iff.1 hrun
  obtain ⟨hids, hcounts⟩ := Prod.mk.inj hpoints
  exact ⟨t, ht, hids, hcounts, touch_points_kept (.of_exec _ _ ht)⟩

end FlakeWm.TouchPoints
