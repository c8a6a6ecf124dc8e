import FlakeWm.Captures.Balance
import FlakeWm.Captures.Moves

/-! No update of a capture is stale in a run whose events keep the pictures, and a pause makes one stale. -/

namespace FlakeWm.Captures

variable {Pixel : Type} {ρ : Renderer Pixel} {s s' : State Pixel} {b o : ℕ}

/-- The colors of both outputs in each update. -/
def colors (s : State ℕ) : List (ℕ × ℕ × ℕ) :=
  s.updates.map fun u => (u.capture, u.buffer.pixels (0, 0), u.buffer.pixels (1, 0))

/-- Blits and allocations succeed. -/
def succeeds (s : State Pixel) : Event Pixel → Bool
  | .newEnabledOutput _ _ ok => s.buffers.all ok
  | .disable _ ok => s.buffers.all ok
  | .geometry _ _ ok => s.buffers.all ok
  | .commit _ _ blit acts => s.buffers.all blit && acts.all fun p => p.2.all fun
    | .create _ _ ok => ok
    | _ => true
  | .create _ _ ok => ok
  | _ => true

end FlakeWm.Captures
