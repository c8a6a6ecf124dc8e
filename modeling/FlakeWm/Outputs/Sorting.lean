import FlakeWm.Schemes.Insertion
import Mathlib.Algebra.Group.Int.Defs
import Mathlib.Data.List.Chain
import Mathlib.Data.Prod.Lex
import Mathlib.Order.RelClasses

/-! Sorting the outputs by their position (`output_manager_sort_outputs`).

    The outputs are a circular list with a head. Each output walks backwards and is put after the first
    output it is right of or below. The distances are of type `int`: where they do not fit they wrap, and the
    comparison is the wrong way round. -/

namespace FlakeWm.Outputs

open Insertion

/-- An output and the position of its geometry. -/
structure Output where
  id : ℕ
  x : Int32
  y : Int32
  deriving DecidableEq

/-- `distance_x < 0 || (distance_x == 0 && distance_y < 0)`. -/
def distanceNegative (x y prevX prevY : Int32) : Bool := x - prevX < 0 || (x - prevX == 0 && y - prevY < 0)

/-- `distance_x > 0 || (distance_x == 0 && distance_y > 0)`. -/
def distancePositive (x y prevX prevY : Int32) : Bool := x - prevX > 0 || (x - prevX == 0 && y - prevY > 0)

def Output.before (output prev : Output) : Bool := distanceNegative output.x output.y prev.x prev.y

def Output.after (output prev : Output) : Bool := distancePositive output.x output.y prev.x prev.y

/-- The loop in `output_manager_is_sorted`. -/
def sortedFrom (prevX prevY : Int32) : List Output → Bool
  | [] => true
  | output :: outputs =>
    if distanceNegative output.x output.y prevX prevY then false else sortedFrom output.x output.y outputs

/-- `output_manager_is_sorted`. -/
def outputManagerIsSorted (outputs : List Output) : Bool := sortedFrom 0 0 outputs

/-- A link of the circular list: its head, or that of an output. -/
inductive Link where
  | head
  | output (output : Output)
  deriving DecidableEq

/-- The links that are met on the way back from an output, with those before it and those after it. -/
def backwards (before after : List Output) : List Link :=
  before.reverse.map .output ++ .head :: after.reverse.map .output

/-- The inner loop: the links that were passed and those from where it ends, or `none` when it is back at
    the output it has started from. -/
def walkBack (output : Output) : List Link → Option (List Output × List Link)
  | [] => none
  | .head :: links => some ([], .head :: links)
  | .output prev :: links =>
    if output.before prev then (walkBack output links).map fun found => (prev :: found.1, found.2)
    else if output.after prev then some ([], .output prev :: links)
    else (walkBack output links).map fun found => (prev :: found.1, found.2)

/-- The outputs up to the head of the list. -/
def upToHead : List Link → List Output
  | .output output :: links => output :: upToHead links
  | _ => []

/-- One output is taken out and put after the link at which the inner loop ends. -/
def place (output : Output) (before after : List Output) : List Output :=
  match walkBack output (backwards before after) with
  | none => before ++ [output]
  | some (passed, links) => (upToHead links).reverse ++ output :: passed.reverse

/-- The outer loop, with the outputs before the current one. -/
def sortFrom (before : List Output) : List Output → List Output
  | [] => before
  | output :: after => sortFrom (place output before after) after

/-- `output_manager_sort_outputs`. -/
def outputManagerSortOutputs (outputs : List Output) : List Output :=
  if outputManagerIsSorted outputs then outputs else sortFrom [] outputs

/-- The position by which outputs are ordered: first `x`, then `y`. -/
def Output.position (output : Output) : ℤ ×ₗ ℤ := toLex (output.x.toInt, output.y.toInt)

/-- The outputs are in the order of their positions. -/
def InOrder (outputs : List Output) : Prop := outputs.Pairwise fun a b => a.position ≤ b.position

variable {output prev : Output} {outputs : List Output}

/-- The inner loop ends at an output or at the head of the list, never where it has started. -/
theorem walkBack_stops (output : Output) (tail : List Link) : ∀ before : List Output,
    ∃ passed rest, walkBack output (before.map .output ++ .head :: tail) =
      some (passed, rest.map .output ++ .head :: tail) ∧ before = passed ++ rest ∧
      insertBack Output.before Output.after output before = passed ++ output :: rest
  | [] => ⟨[], [], rfl, rfl, rfl⟩
  | prev :: before => by
      obtain ⟨passed, rest, hwalk, heq, hinsert⟩ := walkBack_stops output tail before
      simp only [List.map_cons, List.cons_append, walkBack, insertBack]
      split
      · exact ⟨prev :: passed, rest, by rw [hwalk, Option.map_some], by rw [heq, List.cons_append],
          by rw [hinsert, List.cons_append]⟩
      · split
        · exact ⟨[], prev :: before, rfl, rfl, rfl⟩
        · exact ⟨prev :: passed, rest, by rw [hwalk, Option.map_some], by rw [heq, List.cons_append],
            by rw [hinsert, List.cons_append]⟩

@[simp] theorem upToHead_outputs (tail : List Link) : ∀ outputs : List Output,
    upToHead (outputs.map .output ++ .head :: tail) = outputs
  | [] => rfl
  | output :: outputs => congrArg (output :: ·) (upToHead_outputs tail outputs)

/-- Relinking an output inserts it from the back. -/
theorem place_eq (output : Output) (before after : List Output) :
    place output before after = (insertBack Output.before Output.after output before.reverse).reverse := by
  obtain ⟨passed, rest, hwalk, _, hinsert⟩ := walkBack_stops output (after.reverse.map .output) before.reverse
  simp only [place, backwards, hwalk, upToHead_outputs, hinsert, List.reverse_append, List.reverse_cons]
  rw [List.append_assoc, List.singleton_append]

theorem sortFrom_eq : ∀ (after before : List Output),
    sortFrom before after = insertAll Output.before Output.after before after
  | [], _ => rfl
  | output :: after, before => by rw [sortFrom, insertAll, place_eq, sortFrom_eq after]

/-- A distance between two coordinates fits into an `int`. -/
def Fits (a b : Int32) : Prop := -2 ^ 31 ≤ a.toInt - b.toInt ∧ a.toInt - b.toInt < 2 ^ 31

/-- The distances between two outputs that are looked at fit into an `int`. -/
def Near (output prev : Output) : Prop :=
  Fits output.x prev.x ∧ (output.x = prev.x → Fits output.y prev.y)

theorem distance_fits {a b : Int32} (h : Fits a b) : (a - b).toInt = a.toInt - b.toInt := by
  obtain ⟨hlow, hhigh⟩ := h
  rw [Int32.toInt_sub, Int.bmod_eq_of_le hlow hhigh]

/-- A distance that does not fit wraps, and has the opposite sign. -/
theorem distance_wraps {a b : Int32} (h : ¬ Fits a b) :
    (b.toInt < a.toInt ∧ (a - b).toInt < 0) ∨ (a.toInt < b.toInt ∧ 0 < (a - b).toInt) := by
  have ha := Int32.le_toInt a
  have ha' := Int32.toInt_lt a
  have hb := Int32.le_toInt b
  have hb' := Int32.toInt_lt b
  rw [Int32.toInt_sub, Int.bmod]
  simp only [Fits, not_and_or, not_le, not_lt] at h
  omega

theorem distance_zero {a b : Int32} : a - b = 0 ↔ a = b := by
  constructor
  · intro h
    have hfits : Fits a b := by
      by_contra hnot
      rcases distance_wraps hnot with ⟨_, hlt⟩ | ⟨_, hlt⟩
      · simp [h] at hlt
      · simp [h] at hlt
    have heq := distance_fits hfits
    rw [h, Int32.toInt_zero] at heq
    exact Int32.toInt.inj (by omega)
  · rintro rfl
    exact Int32.toInt.inj (by rw [distance_fits (by simp [Fits]), Int32.toInt_zero, Int.sub_self])

theorem distance_negative (a b : Int32) : a - b < 0 ↔ (a - b).toInt < 0 := by
  rw [Int32.lt_iff_toInt_lt, Int32.toInt_zero]

theorem distance_positive (a b : Int32) : a - b > 0 ↔ 0 < (a - b).toInt := by
  rw [gt_iff_lt, Int32.lt_iff_toInt_lt, Int32.toInt_zero]

theorem before_iff : output.before prev = true ↔
    (output.x - prev.x).toInt < 0 ∨ output.x.toInt = prev.x.toInt ∧ (output.y - prev.y).toInt < 0 := by
  simp [Output.before, distanceNegative, distance_negative, distance_zero, Int32.toInt_inj]

theorem after_iff : output.after prev = true ↔
    0 < (output.x - prev.x).toInt ∨ output.x.toInt = prev.x.toInt ∧ 0 < (output.y - prev.y).toInt := by
  simp [Output.after, distancePositive, distance_positive, distance_zero, Int32.toInt_inj]

theorem position_lt_iff : output.position < prev.position ↔
    output.x.toInt < prev.x.toInt ∨ output.x.toInt = prev.x.toInt ∧ output.y.toInt < prev.y.toInt := by
  simp [Output.position, Prod.Lex.toLex_lt_toLex]

theorem position_inj : output.position = prev.position ↔ output.x = prev.x ∧ output.y = prev.y := by
  simp [Output.position, Int32.toInt_inj]

/-- Where the distances fit, outputs are rightly compared. -/
theorem right_of_near (h : Near output prev) : Right Output.before Output.after Output.position output prev := by
  have hx := distance_fits h.1
  have hy : output.x.toInt = prev.x.toInt → (output.y - prev.y).toInt = output.y.toInt - prev.y.toInt := fun heq =>
    distance_fits (h.2 (Int32.toInt.inj heq))
  rw [Right, before_iff, after_iff, position_lt_iff, position_lt_iff]
  by_cases heq : output.x.toInt = prev.x.toInt
  · have hy' := hy heq
    omega
  · omega

/-- Where they do not fit, the comparison is the wrong way round. -/
theorem opposed_of_far (h : ¬ Near output prev) : Opposed Output.before Output.after Output.position output prev := by
  rw [Opposed, ← Bool.not_eq_true, before_iff, after_iff, position_lt_iff, position_lt_iff]
  by_cases hx : Fits output.x prev.x
  · have hy : output.x = prev.x ∧ ¬ Fits output.y prev.y := by simpa [Near, hx] using h
    have hx' := distance_fits hx
    have heq := Int32.toInt_inj.2 hy.1
    have hwrap := distance_wraps hy.2
    omega
  · have hwrap := distance_wraps hx
    omega

/-- Two outputs are rightly compared exactly when their distances fit. -/
theorem right_iff_near : Right Output.before Output.after Output.position output prev ↔ Near output prev := by
  refine ⟨fun hright => by_contra fun hfar => ?_, right_of_near⟩
  rcases opposed_of_far hfar with ⟨hlt, hnot, _⟩ | ⟨hlt, hbefore⟩
  · rw [hright.1.2 hlt] at hnot
    cases hnot
  · exact lt_asymm hlt (hright.1.1 hbefore)

theorem near_congr {other : Output} (h : prev.position = other.position) (hnear : Near output prev) :
    Near output other := by
  obtain ⟨hx, hy⟩ := position_inj.1 h
  rw [Near, ← hx, ← hy]
  exact hnear

/-- The list looks sorted: no output is before the one that precedes it. -/
def LooksSorted (outputs : List Output) : Prop := outputs.IsChain fun prev output => output.before prev = false

theorem looksSorted_of_sortedFrom : ∀ {outputs : List Output} {output : Output},
    sortedFrom output.x output.y outputs = true → LooksSorted (output :: outputs)
  | [], _, _ => .singleton _
  | next :: outputs, output, h => by
      rw [sortedFrom] at h
      split at h
      · cases h
      next hnot => exact .cons_cons (by simpa [Output.before] using hnot) (looksSorted_of_sortedFrom h)

theorem looksSorted_of_isSorted : ∀ {outputs : List Output}, outputManagerIsSorted outputs = true → LooksSorted outputs
  | [], _ => .nil
  | output :: outputs, h => by
      rw [outputManagerIsSorted, sortedFrom] at h
      split at h
      · cases h
      · exact looksSorted_of_sortedFrom h

/-- What the comparisons look at. -/
def Output.coordinates (output : Output) : Int32 × Int32 := (output.x, output.y)

theorem looksSorted_congr {outputs' : List Output}
    (h : outputs.map Output.coordinates = outputs'.map Output.coordinates) : LooksSorted outputs ↔ LooksSorted outputs' := by
  have hmap : ∀ l : List Output, LooksSorted l ↔
      (l.map Output.coordinates).IsChain fun prev output => distanceNegative output.1 output.2 prev.1 prev.2 = false :=
    fun l => by
      rw [List.isChain_map]
      rfl
  rw [hmap, hmap, h]

/-- An output that is not before the last one passes only outputs at its own position. -/
theorem insertBack_coordinates : ∀ {before : List Output}, (output :: before).IsChain (fun output prev => output.before prev = false) →
    (insertBack Output.before Output.after output before).map Output.coordinates =
      (output :: before).map Output.coordinates
  | [], _ => rfl
  | prev :: before, h => by
      obtain ⟨hnot, htail⟩ := List.isChain_cons_cons.1 h
      rw [insertBack, hnot]
      simp only [Bool.false_eq_true, if_false]
      split
      · rfl
      next hafter =>
        have hsame : output.coordinates = prev.coordinates := by
          have hbefore : ¬ output.before prev = true := by simp [hnot]
          rw [before_iff] at hbefore
          rw [after_iff] at hafter
          have hx : output.x = prev.x := distance_zero.1 (Int32.toInt.inj (by rw [Int32.toInt_zero]; omega))
          have hx' := Int32.toInt_inj.2 hx
          have hy : output.y = prev.y := distance_zero.1 (Int32.toInt.inj (by rw [Int32.toInt_zero]; omega))
          exact Prod.ext hx hy
        have hchain : (output :: before).IsChain fun output prev => output.before prev = false := by
          cases before with
          | nil => exact .singleton _
          | cons other before =>
            obtain ⟨hother, htail⟩ := List.isChain_cons_cons.1 htail
            refine .cons_cons ?_ htail
            obtain ⟨hx, hy⟩ := Prod.mk.inj hsame
            rwa [Output.before, hx, hy]
        rw [List.map_cons, insertBack_coordinates hchain, List.map_cons, List.map_cons, List.map_cons, hsame]

/-- Sorting a list that looks sorted changes no position. -/
theorem insertAll_coordinates : ∀ {after before : List Output}, LooksSorted (before ++ after) →
    (insertAll Output.before Output.after before after).map Output.coordinates = (before ++ after).map Output.coordinates
  | [], before, _ => by rw [insertAll, List.append_nil]
  | output :: after, before, h => by
      have hback : (output :: before.reverse).IsChain fun output prev => output.before prev = false := by
        have hfront : LooksSorted (before ++ [output]) := by
          have happend : before ++ output :: after = (before ++ [output]) ++ after := by simp
          rw [happend] at h
          exact h.left_of_append
        have hrev : (before ++ [output]).reverse.IsChain fun output prev => output.before prev = false :=
          List.isChain_reverse.2 hfront
        rwa [List.reverse_append, List.reverse_singleton, List.singleton_append] at hrev
      have hcoordinates := insertBack_coordinates hback
      have hdone : ((insertBack Output.before Output.after output before.reverse).reverse ++ after).map Output.coordinates =
          (before ++ output :: after).map Output.coordinates := by
        rw [List.map_append, List.map_reverse, hcoordinates]
        simp
      rw [insertAll, insertAll_coordinates ((looksSorted_congr hdone).2 h), hdone]

theorem inOrder_congr {outputs' : List Output}
    (h : outputs.map Output.coordinates = outputs'.map Output.coordinates) : InOrder outputs ↔ InOrder outputs' := by
  have hmap : ∀ l : List Output, InOrder l ↔ (l.map Output.coordinates).Pairwise fun a b =>
      toLex (a.1.toInt, a.2.toInt) ≤ toLex (b.1.toInt, b.2.toInt) := fun l => by
    rw [List.pairwise_map]
    rfl
  rw [hmap, hmap, h]

/-- An output is compared with an earlier one when no earlier output lies between the two; all distances of
    compared outputs fit. -/
def Comparable (outputs : List Output) : Prop :=
  ∀ before output after, outputs = before ++ output :: after → ∀ prev ∈ before,
    (∀ other ∈ before, ¬ (prev.position < other.position ∧ other.position < output.position)) → Near output prev

theorem insertAll_inOrder_iff : InOrder (insertAll Output.before Output.after [] outputs) ↔ Comparable outputs := by
  have hordered : (insertAll Output.before Output.after [] outputs).Pairwise (fun a b => a.position ≤ b.position) ↔
      RightFrom Output.before Output.after Output.position [] outputs :=
    insertAll_ordered_iff (fun _ _ hwrong => opposed_of_far fun hnear => hwrong (right_iff_near.2 hnear))
      (fun _ _ _ heq hright => right_iff_near.2 (near_congr heq (right_iff_near.1 hright))) outputs .nil
  rw [InOrder, hordered, rightFrom_iff]
  constructor
  · intro h before output after heq prev hprev hnone
    exact right_iff_near.1 (h before output after heq prev ⟨hprev, hnone⟩)
  · intro h before output after heq prev hprev
    exact right_iff_near.2 (h before output after heq prev hprev.1 hprev.2)

/-- The outputs are sorted: they are the same outputs in the order of their positions, the test for a sorted
    list is right, and every walk back ends at an earlier output or at the head of the list. -/
structure Sorts (outputs : List Output) : Prop where
  perm : (outputManagerSortOutputs outputs).Perm outputs
  ordered : InOrder (outputManagerSortOutputs outputs)
  test : outputManagerIsSorted outputs = true → InOrder outputs
  stops : ∀ before output after, ∃ passed rest, walkBack output (backwards before after) =
    some (passed, rest.map .output ++ .head :: after.reverse.map .output) ∧ before.reverse = passed ++ rest

theorem sort_perm (outputs : List Output) : (outputManagerSortOutputs outputs).Perm outputs := by
  rw [outputManagerSortOutputs]
  split
  · exact .refl _
  · rw [sortFrom_eq]
    exact insertAll_perm outputs

/-- Sorting gives what the loop gives, up to outputs at one position. -/
theorem sort_inOrder_iff (outputs : List Output) : InOrder (outputManagerSortOutputs outputs) ↔ Comparable outputs := by
  rw [outputManagerSortOutputs, ← insertAll_inOrder_iff]
  split
  next hsorted =>
    have hlooks : LooksSorted ([] ++ outputs) := looksSorted_of_isSorted hsorted
    exact inOrder_congr (insertAll_coordinates hlooks).symm
  · rw [sortFrom_eq]

/-- The outputs are sorted exactly when the distances between compared outputs fit into an `int`. -/
theorem sorts_iff (outputs : List Output) : Sorts outputs ↔ Comparable outputs := by
  refine ⟨fun h => (sort_inOrder_iff outputs).1 h.ordered, fun h => ⟨sort_perm outputs, (sort_inOrder_iff outputs).2 h,
    fun hsorted => ?_, fun before output after => ?_⟩⟩
  · have hordered := (sort_inOrder_iff outputs).2 h
    rwa [outputManagerSortOutputs, if_pos hsorted] at hordered
  · obtain ⟨passed, rest, hwalk, hsplit, _⟩ := walkBack_stops output (after.reverse.map .output) before.reverse
    exact ⟨passed, rest, hwalk, hsplit⟩

/-- Two outputs so far apart that their distance does not fit pass for sorted. -/
theorem far_outputs_not_sorted : ¬ ∀ outputs, Sorts outputs := by
  intro h
  have hordered := (h [⟨0, 2147483647, 0⟩, ⟨1, -2, 0⟩]).test (by decide)
  revert hordered
  simp only [InOrder, List.pairwise_cons, List.mem_singleton, forall_eq, ← not_lt, position_lt_iff]
  decide

end FlakeWm.Outputs
