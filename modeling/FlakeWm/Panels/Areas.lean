import FlakeWm.Box
import Mathlib.Data.List.Perm.Basic
import Mathlib.Tactic.Linarith

/-! The areas that plasma panels and X11 struts leave free
    (`surface_handle_output_update_usable_area` of `src/view/kde_plasma_shell.c`,
    `xwayland_view_handle_output_update_usable_area` of `src/xwayland/view.c`, and
    `output_do_update_usable_area` of `src/output/output.c`).

    Each provider computes the box it leaves free of the output and intersects the usable area with
    it by hand: the larger of both positions and the smaller of both sizes. This is the intersection
    only when one of the boxes lies inside all others on each axis. The sums stay within the output
    and so within `int`; the scale of XWayland is 1. -/

namespace FlakeWm.Panels

/-- `xcb_ewmh_wm_strut_partial_t`. -/
structure Strut where
  left : ℕ
  right : ℕ
  top : ℕ
  bottom : ℕ
  leftStartY : ℕ
  leftEndY : ℕ
  rightStartY : ℕ
  rightEndY : ℕ
  topStartX : ℕ
  topEndX : ℕ
  bottomStartX : ℕ
  bottomEndX : ℕ
  deriving DecidableEq

/-- What a plasma panel with the geometry `view` leaves of the output. -/
def panelArea (geo view : Box) : Box :=
  let midX := view.x + view.width.tdiv 2
  let midY := view.y + view.height.tdiv 2
  if view.width > view.height then
    if midY - geo.y < geo.y + geo.height - midY then
      -- position is top
      let y := view.y + view.height
      { geo with y := y, height := geo.height - (y - geo.y) }
    else { geo with height := view.y - geo.y }
  else
    if midX - geo.x < geo.x + geo.width - midX then
      -- position is left
      let x := view.width + view.x
      { geo with x := x, width := geo.width - (x - geo.x) }
    else { geo with width := view.x - geo.x }

/-- What the strut of an X11 window leaves of the output. -/
def strutArea (geo : Box) (strut : Strut) : Box :=
  let geo := if strut.leftStartY ≠ strut.leftEndY then
    { geo with x := geo.x + strut.left, width := geo.width - strut.left } else geo
  let geo := if strut.rightStartY ≠ strut.rightEndY then
    { geo with width := geo.width - strut.right } else geo
  let geo := if strut.topStartX ≠ strut.topEndX then
    { geo with y := geo.y + strut.top, height := geo.height - strut.top } else geo
  if strut.bottomStartX ≠ strut.bottomEndX then
    { geo with height := geo.height - strut.bottom } else geo

/-- The end of both handlers. -/
def intersect (usable geo : Box) : Box where
  x := if geo.x > usable.x then geo.x else usable.x
  y := if geo.y > usable.y then geo.y else usable.y
  width := if geo.width < usable.width then geo.width else usable.width
  height := if geo.height < usable.height then geo.height else usable.height

/-- The clamp of both sizes after each signal. -/
def clamp (usable : Box) : Box :=
  { usable with
    width := if usable.width > 0 then usable.width else 0
    height := if usable.height > 0 then usable.height else 0 }

/-- `output_do_update_usable_area`, given the boxes that the listeners leave free, in their order;
    nothing listens to the late signal. -/
def outputDoUpdateUsableArea (geo : Box) (areas : List Box) : Box :=
  clamp (clamp (areas.foldl intersect geo))

inductive Provider where
  | panel (view : Box)
  | strut (s : Strut)

def Provider.area (geo : Box) : Provider → Box
  | .panel view => panelArea geo view
  | .strut s => strutArea geo s

/-- One of the intervals lies inside all of them. -/
def Innermost (as : List (ℤ × ℤ)) : Prop :=
  ∃ a ∈ as, ∀ b ∈ as, b.1 ≤ a.1 ∧ a.1 + a.2 ≤ b.1 + b.2

def horizontal (b : Box) : ℤ × ℤ := (b.x, b.width)
def vertical (b : Box) : ℤ × ℤ := (b.y, b.height)

/-- One of the boxes is empty, or on each axis one of them lies inside all others. -/
def Nested (areas : List Box) : Prop :=
  (∃ b ∈ areas, b.width ≤ 0 ∨ b.height ≤ 0) ∨
    Innermost (areas.map horizontal) ∧ Innermost (areas.map vertical)

/-- The box that `output_do_update_usable_area` computes for the providers of an output. -/
def usableArea (geo : Box) (ps : List Provider) : Box :=
  outputDoUpdateUsableArea geo (ps.map (·.area geo))

end FlakeWm.Panels
