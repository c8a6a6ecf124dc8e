import FlakeWm.Views.Model
import Mathlib.Data.Int.DivMod
import Mathlib.Tactic.Common

/-! Where a tiled view is (`view_get_tiled_geometry`).

    A tile takes, on each axis, the whole usable area, its first or its second half, or the half in the
    middle. A half is as wide as the minimum size if that is more than half of the area; the margins are
    left out of that comparison. -/

namespace FlakeWm.Views

/-- The part of the usable area that a tile takes on an axis. -/
inductive Part where | full | near | far | center
  deriving DecidableEq, Repr

namespace Tile

def horizontal : Tile → Part
  | .left | .topLeft | .bottomLeft => .near
  | .right | .topRight | .bottomRight => .far
  | .center => .center
  | _ => .full

def vertical : Tile → Part
  | .top | .topLeft | .topRight => .near
  | .bottom | .bottomLeft | .bottomRight => .far
  | .center => .center
  | _ => .full

end Tile

/-- The start and the length of a part of an axis from `start` on, for a view with that minimum and the
    margin `off` of which `offStart` is at the start. -/
def Part.place (part : Part) (start size minimum offStart off : ℤ) : ℤ × ℤ :=
  let half := size.tdiv 2
  let useMin := half < minimum
  let length := if useMin then minimum else half - off
  match part with
  | .full => (start + offStart, size - off)
  | .near => (start + offStart, length)
  | .far => (if useMin then start + size - minimum - (off - offStart) else start + half + offStart, length)
  | .center => (if useMin then start + half - minimum.tdiv 2 - (off - offStart)
      else start + size.tdiv 4 + offStart, length)

/-- When a part is big enough: half of the area holds the minimum with the margin, or is less than the
    minimum without it; then half of the minimum with the margin has to fit before the middle. -/
def Part.fits (part : Part) (size minimum off : ℤ) : Bool :=
  match part with
  | .full => true
  | .center =>
    if size.tdiv 2 < minimum then decide (minimum.tdiv 2 + off ≤ size.tdiv 2)
    else decide (minimum + off ≤ size.tdiv 2) && decide (0 ≤ size)
  | _ => decide (size.tdiv 2 < minimum) || decide (minimum + off ≤ size.tdiv 2) && decide (0 ≤ size)

end FlakeWm.Views
