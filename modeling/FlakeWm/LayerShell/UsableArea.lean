import FlakeWm.LayerShell.Model
import Mathlib.Tactic.Linarith

/-! The usable area of an output.

    `reserved` is what the usable area should be: the fold of `layer_surface_exclusive_zone` over the
    mapped surfaces with a positive exclusive zone, starting from the geometry. Every event leaves
    the stored area equal to it, because an event that does not recompute the area does not change
    the list that is folded. The fold stays inside the geometry, so it stays within `int` exactly
    when the right and the bottom edge of the geometry do. -/

namespace FlakeWm.LayerShell

/-- The state of a surface that reserves space. -/
def counted : Option Surface → Option LayerState
  | none => none
  | some surface =>
      if surface.mapped ∧ surface.current.exclusiveZone > 0 then some surface.current else none

namespace State

/-- The mapped surfaces with a positive exclusive zone, layer 0 to 3, in the order of the lists. -/
def placed (s : State) : List LayerState :=
  (List.finRange 4).flatMap fun i => (s.shells i).filterMap fun id => counted (s.surface id)

/-- The fold of the exclusive zones over the geometry. -/
def reserved (s : State) : Option Box :=
  s.placed.foldlM (fun usable state => layerSurfaceExclusiveZone state usable) s.geometry

end State

/-- A box inside the geometry, with sizes that are not negative. -/
structure Inside (g b : Box) : Prop where
  left : g.x ≤ b.x
  top : g.y ≤ b.y
  right : b.x + b.width ≤ g.x + g.width
  bottom : b.y + b.height ≤ g.y + g.height
  width : 0 ≤ b.width
  height : 0 ≤ b.height

/-- A box of C `int`s. -/
def IntBox (g : Box) : Prop :=
  (intMin ≤ g.x ∧ g.x ≤ intMax) ∧ (intMin ≤ g.y ∧ g.y ≤ intMax) ∧
    (intMin ≤ g.width ∧ g.width ≤ intMax) ∧ intMin ≤ g.height ∧ g.height ≤ intMax

/-- The right and the bottom edge of the geometry are `int`s, too. -/
def EdgesFit (g : Box) : Prop := g.x + g.width ≤ intMax ∧ g.y + g.height ≤ intMax

/-! ### The fold -/

theorem toInt_of_mem {z : ℤ} (h : intMin ≤ z ∧ z ≤ intMax) : toInt z = some z := if_pos h

theorem boundedExclusiveZone_bounds (zone margin : Int32) {available : ℤ} (h : 0 ≤ available) :
    0 ≤ boundedExclusiveZone zone margin available ∧
      boundedExclusiveZone zone margin available ≤ available := by
  simp only [boundedExclusiveZone]
  split_ifs <;> omega

/-- One exclusive zone keeps the area inside the geometry and every sum an `int`. -/
theorem layerSurfaceExclusiveZone_ok {g b : Box} (hint : IntBox g) (hfit : EdgesFit g)
    (h : Inside g b) (state : LayerState) :
    ∃ b', layerSurfaceExclusiveZone state b = some b' ∧ Inside g b' := by
  obtain ⟨⟨hx, -⟩, ⟨hy, -⟩, ⟨-, hw⟩, -, hh⟩ := hint
  obtain ⟨hright, hbottom⟩ := hfit
  obtain ⟨h₁, h₂, h₃, h₄, h₅, h₆⟩ := h
  have hmin : intMin ≤ 0 := by decide
  simp only [layerSurfaceExclusiveZone]
  split_ifs
  · obtain ⟨hlow, hhigh⟩ := boundedExclusiveZone_bounds state.exclusiveZone state.marginTop h₆
    generalize boundedExclusiveZone state.exclusiveZone state.marginTop b.height = amount at hlow hhigh
    rw [toInt_of_mem ⟨by omega, by omega⟩, toInt_of_mem ⟨by omega, by omega⟩]
    refine ⟨_, rfl, ?_, ?_, ?_, ?_, ?_, ?_⟩ <;> simp only <;> omega
  · obtain ⟨hlow, hhigh⟩ := boundedExclusiveZone_bounds state.exclusiveZone state.marginBottom h₆
    generalize boundedExclusiveZone state.exclusiveZone state.marginBottom b.height = amount
      at hlow hhigh
    rw [toInt_of_mem ⟨by omega, by omega⟩]
    refine ⟨_, rfl, ?_, ?_, ?_, ?_, ?_, ?_⟩ <;> simp only <;> omega
  · obtain ⟨hlow, hhigh⟩ := boundedExclusiveZone_bounds state.exclusiveZone state.marginLeft h₅
    generalize boundedExclusiveZone state.exclusiveZone state.marginLeft b.width = amount at hlow hhigh
    rw [toInt_of_mem ⟨by omega, by omega⟩, toInt_of_mem ⟨by omega, by omega⟩]
    refine ⟨_, rfl, ?_, ?_, ?_, ?_, ?_, ?_⟩ <;> simp only <;> omega
  · obtain ⟨hlow, hhigh⟩ := boundedExclusiveZone_bounds state.exclusiveZone state.marginRight h₅
    generalize boundedExclusiveZone state.exclusiveZone state.marginRight b.width = amount
      at hlow hhigh
    rw [toInt_of_mem ⟨by omega, by omega⟩]
    refine ⟨_, rfl, ?_, ?_, ?_, ?_, ?_, ?_⟩ <;> simp only <;> omega
  · exact ⟨b, rfl, h₁, h₂, h₃, h₄, h₅, h₆⟩

theorem foldlM_exclusiveZone_ok {g : Box} (hint : IntBox g) (hfit : EdgesFit g) :
    ∀ (l : List LayerState) {b : Box}, Inside g b →
      ∃ b', l.foldlM (fun usable state => layerSurfaceExclusiveZone state usable) b = some b' ∧
        Inside g b'
  | [], b, h => ⟨b, rfl, h⟩
  | state :: l, b, h => by
      obtain ⟨b₁, hb₁, h₁⟩ := layerSurfaceExclusiveZone_ok hint hfit h state
      obtain ⟨b₂, hb₂, h₂⟩ := foldlM_exclusiveZone_ok hint hfit l h₁
      exact ⟨b₂, by rw [List.foldlM_cons, hb₁]; exact hb₂, h₂⟩

/-- A geometry that a usable area can be computed for. -/
structure Sane (g : Box) : Prop where
  int : IntBox g
  fit : EdgesFit g
  width : 0 ≤ g.width
  height : 0 ≤ g.height

theorem reserved_ok {s : State} (h : Sane s.geometry) :
    ∃ b, s.reserved = some b ∧ Inside s.geometry b :=
  foldlM_exclusiveZone_ok h.int h.fit s.placed
    ⟨le_rfl, le_rfl, le_rfl, le_rfl, h.width, h.height⟩

/-! ### The loops over the shells -/

/-- A surface that reserves nothing leaves the area alone. -/
theorem configure_of_not_counted {surface : Surface} (h : counted (some surface) = none)
    (usable : Box) : layerShellConfigureSurface surface usable = some usable := by
  rw [counted, ite_eq_right_iff] at h
  rw [layerShellConfigureSurface, if_neg fun hc => by cases h hc]

theorem configureShell_counted (s : State) (usable : Box) (id : ℕ) :
    s.configureShell (fun zone => 0 < zone) usable id =
      match counted (s.surface id) with
      | none => some usable
      | some state => layerSurfaceExclusiveZone state usable := by
  rw [State.configureShell]
  cases s.surface id with
  | none => rfl
  | some surface =>
    by_cases hcounted : surface.mapped ∧ surface.current.exclusiveZone > 0
    · simp [counted, layerShellConfigureSurface, hcounted.1, hcounted.2]
    · have hnone : counted (some surface) = none := by rw [counted, if_neg hcounted]
      simp only [hnone, configure_of_not_counted hnone, ite_self]

theorem configureShell_zero (s : State) (usable : Box) (id : ℕ) :
    s.configureShell (fun zone => zone = 0) usable id = some usable := by
  rw [State.configureShell]
  split
  · rfl
  next surface _ =>
    split_ifs with hzero
    · refine configure_of_not_counted ?_ usable
      rw [counted, if_neg fun hc => ?_]
      rw [of_decide_eq_true hzero] at hc
      exact absurd hc.2 (by decide)
    · rfl

/-- A loop that skips what is not counted folds what is. -/
theorem foldlM_counted (s : State) : ∀ (l : List ℕ) (b : Box),
    l.foldlM (s.configureShell fun zone => 0 < zone) b =
      (l.filterMap fun id => counted (s.surface id)).foldlM
        (fun usable state => layerSurfaceExclusiveZone state usable) b
  | [], b => rfl
  | id :: l, b => by
      rw [List.foldlM_cons, configureShell_counted]
      cases hid : counted (s.surface id) with
      | none =>
        rw [List.filterMap_cons, hid]
        exact foldlM_counted s l b
      | some state =>
        rw [List.filterMap_cons, hid]
        simp only [List.foldlM_cons]
        refine congrArg _ ?_
        funext b'
        exact foldlM_counted s l b'

theorem foldlM_flatMap_counted (s : State) : ∀ (is : List (Fin 4)) (b : Box),
    is.foldlM (fun usable i =>
        (s.shells i).foldlM (s.configureShell fun zone => 0 < zone) usable) b =
      (is.flatMap fun i => (s.shells i).filterMap fun id => counted (s.surface id)).foldlM
        (fun usable state => layerSurfaceExclusiveZone state usable) b
  | [], b => rfl
  | i :: is, b => by
      rw [List.foldlM_cons, List.flatMap_cons, List.foldlM_append, foldlM_counted]
      refine congrArg _ ?_
      funext b'
      exact foldlM_flatMap_counted s is b'

/-- The signal handler computes the fold. -/
theorem handleOutputUpdateUsableArea_eq (s : State) :
    s.handleOutputUpdateUsableArea s.geometry = s.reserved :=
  foldlM_flatMap_counted s _ _

theorem foldlM_some {α β : Type} {f : β → α → Option β} (h : ∀ b a, f b a = some b) :
    ∀ (l : List α) (b : β), l.foldlM f b = some b
  | [], b => rfl
  | a :: l, b => by
      rw [List.foldlM_cons, h]
      exact foldlM_some h l b

/-- Handing the stored area to the surfaces without a zone does not pollute it. -/
theorem handleOutputUsableArea_eq (s : State) : s.handleOutputUsableArea = some s := by
  have hshells : s.configureShells (fun zone => zone = 0) s.usableArea = some s.usableArea :=
    foldlM_some (fun b i => foldlM_some (configureShell_zero s) (s.shells i) b) _ _
  rw [State.handleOutputUsableArea, hshells]
  rfl

theorem clamp_of_inside {g b : Box} (h : Inside g b) : State.clamp b = b := by
  obtain ⟨-, -, -, -, hw, hh⟩ := h
  have hwidth : (if b.width > 0 then b.width else 0) = b.width := by split_ifs <;> omega
  have hheight : (if b.height > 0 then b.height else 0) = b.height := by split_ifs <;> omega
  rw [State.clamp, hwidth, hheight]

/-- Recomputing the area stores the fold. -/
theorem outputUpdateUsableArea_ok {s : State} (h : Sane s.geometry) :
    ∃ b, s.reserved = some b ∧ Inside s.geometry b ∧
      s.outputUpdateUsableArea = some { s with usableArea := b } := by
  obtain ⟨b, hb, hin⟩ := reserved_ok h
  refine ⟨b, hb, hin, ?_⟩
  have hdo : s.outputDoUpdateUsableArea = some b := by
    rw [State.outputDoUpdateUsableArea, handleOutputUpdateUsableArea_eq, hb]
    simp only [Option.bind_eq_bind, Option.bind_some, clamp_of_inside hin]
  rw [State.outputUpdateUsableArea, hdo]
  simp only [Option.bind_eq_bind, Option.bind_some, kywcBoxEqual_iff, handleOutputUsableArea_eq]
  split_ifs with heq
  · rw [← heq]
  · rfl

end FlakeWm.LayerShell
