import FlakeWm.Views.Model
import Mathlib.Data.Rat.Floor

/-! Interactive moving and resizing of a window (`src/view/interactive.c`).

    The frame of a window is its geometry with the margins. While it is moved or resized it snaps to the
    frames of the other windows of the workspace and to the usable area of the output, and then it is
    kept within reach at the edges of the output layout. Both axes are snapped alike, so the functions
    for them are one function of a span. -/

namespace FlakeWm.Interactive

open FlakeWm.Views (Margin Edge Output)

def EDGE_OFFSET : ℤ := 10

/-- What is read of a `struct kywc_view`, with a number that says which view it is. -/
structure View where
  id : ℕ := 0
  mapped : Bool := true
  minimized : Bool := false
  maximized : Bool := false
  fullscreen : Bool := false
  unconstrained : Bool := false
  geometry : Box
  margin : Margin := {}
  minWidth : ℤ := 0
  minHeight : ℤ := 0
  maxWidth : ℤ := 0
  maxHeight : ℤ := 0

/-- The views of the current workspace, the bits of the adsorption setting, the boxes of the output
    layout and the size of that. -/
structure Screen where
  views : List View := []
  windowEdges : Bool := false
  screenEdges : Bool := false
  layout : List Box := []
  layoutSize : ℤ × ℤ := (0, 0)

/-- The actual window box of a geometry. -/
def frame (margin : Margin) (geometry : Box) : Box where
  x := geometry.x - margin.offX
  y := geometry.y - margin.offY
  width := geometry.width + margin.offWidth
  height := geometry.height + margin.offHeight

/-! ### The output layout -/

/-- A box on one axis. -/
structure Span where
  start : ℤ
  length : ℤ
  deriving DecidableEq

def Span.stop (s : Span) : ℤ := s.start + s.length

def horizontal (box : Box) : Span := ⟨box.x, box.width⟩

def vertical (box : Box) : Span := ⟨box.y, box.height⟩

/-- The spans are apart from each other. -/
def apart (s l : Span) : Bool := decide (s.start > l.stop) || decide (s.stop < l.start)

/-- The frames that a view snaps to. -/
def neighbours (screen : Screen) (view : View) : List Box :=
  (screen.views.filter fun v => v.mapped && decide (v.id ≠ view.id) && !v.minimized && !v.maximized &&
    !v.fullscreen).map fun v => frame v.margin v.geometry

/-- The conversion of a `double` to `int`. -/
def toInt (q : ℚ) : ℤ := if 0 ≤ q then ⌊q⌋ else ⌈q⌉

/-- `CLAMP`. -/
def clamp (value min max : ℤ) : ℤ := if value < min then min else if value > max then max else value

end FlakeWm.Interactive
