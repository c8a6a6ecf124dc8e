import FlakeWm.Interactive.Model
import Mathlib.Tactic.Common

/-! When a resize moves the dragged edges only, and onto the edges that they snap to. -/

namespace FlakeWm.Interactive

open FlakeWm.Views (Margin Edge Output)

/-! ### Snapping -/

/-- An edge that was moved is now on the edge of the other span that it was close to. -/
structure Onto (s s' l : Span) : Prop where
  start : s'.start ≠ s.start → s'.start = l.stop ∧ |l.stop - s.start| < EDGE_OFFSET
  stop : s'.stop ≠ s.stop → s'.stop = l.start ∧ |l.start - s.stop| < EDGE_OFFSET

theorem Onto.refl (s l : Span) : Onto s s l := ⟨fun h => absurd rfl h, fun h => absurd rfl h⟩

end FlakeWm.Interactive
