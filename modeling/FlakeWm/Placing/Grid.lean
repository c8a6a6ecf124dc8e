import FlakeWm.Placing.Model
import Mathlib.Algebra.Ring.Int.Parity
import Mathlib.Data.Int.Interval
import Mathlib.Data.Finset.Prod
import Mathlib.Tactic.Linarith
import Mathlib.Tactic.Ring

/-! Slots and cells of the grid of a positioner (`view/positioner.c`).

    The slots count the cells of the grid that are on or above its diagonal, one diagonal after the
    other. Up to `key_slot` all diagonals have `num_step` cells; after it each has one less than the one
    before, since the right side of the grid cuts it off. -/

namespace FlakeWm.Placing

/-- The top-left corner of a cell. -/
def corner (pos : Positioner) (cell : ℤ × ℤ) : ℤ × ℤ :=
  (cell.1 * GRID_GAP_COLUMN + pos.gridArea.x, cell.2 * GRID_GAP_ROW + pos.gridArea.y)

/-- All cells of the grid. -/
def cells (pos : Positioner) : Finset (ℤ × ℤ) :=
  ((Finset.range pos.numColumn.toNat ×ˢ Finset.range pos.numStep.toNat).image fun cell =>
    ((cell.1 : ℤ), (cell.2 : ℤ))).filter fun cell => cell.2 ≤ cell.1

variable {pos : Positioner} {slot : ℤ} {cell : ℤ × ℤ}

/-! ### Diagonals -/

end FlakeWm.Placing
