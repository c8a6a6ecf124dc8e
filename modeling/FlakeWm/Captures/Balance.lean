import FlakeWm.Captures.Handlers

/-! Buffers, requests, captures and locks stay balanced in every run. -/

namespace FlakeWm.Captures

variable {Pixel : Type} {ρ : Renderer Pixel} {s s' : State Pixel} {b o : ℕ}

/-! ### Runs -/

theorem Sound.markWantsUpdate (hs : Sound none s) (c : ℕ) (wants force : Bool) :
    Sound none (s.captureMarkWantsUpdate c wants force) ∧
      SameLinks s (s.captureMarkWantsUpdate c wants force) := by
  rw [State.captureMarkWantsUpdate]
  split_ifs
  · exact ⟨hs, .refl s⟩
  · have hsame := s.setCapture_same (c := c) (x := { s.capture c with
      wantsUpdate := wants
      forceUpdate := (s.capture c).forceUpdate || wants && force }) rfl
    exact ⟨hs.of_same hsame fun _ => ⟨rfl, rfl⟩, hsame⟩
  · exact ⟨hs, .refl s⟩

theorem Created.completeOn (h : Created ρ s s') (hs : CompleteOn ρ (fun _ => True) s) :
    CompleteOn ρ (fun _ => True) s' := by
  intro b hb o ho _
  rcases h.new_buffer b hb with hmem | ⟨-, hnew⟩
  · rw [(h.buffers b hmem).2, shows_congr h.outputs h.shape, ← hs b hmem o (h.outputs ▸ ho) trivial]
    constructor
    · rintro ⟨r, hr, hrb, hro⟩
      rcases h.new_request r hr with hr | hnot
      · rw [(h.requests r hr).2] at hrb hro
        exact ⟨r, hr, hrb, hro⟩
      · exact absurd (hrb ▸ hmem) hnot
    · rintro ⟨r, hr, hrb, hro⟩
      obtain ⟨hr', heq⟩ := h.requests r hr
      exact ⟨r, hr', by rwa [heq], by rwa [heq]⟩
  · exact hnew.complete o ho

/-- The boxes of a buffer of the area with these options and of the output meet. -/
def areaMeets (s : State Pixel) (area : Box) (options : Options) (o : ℕ) : Bool :=
  (wlrBoxIntersection (scaled (if options.unscaled then s.outputManagerGetScale else 1)
    (s.shape o).geometry) area).isSome

/-- Requests, buffers and locks are balanced: every buffer has requests, one for an output, an area
    buffer on the outputs that its area meets and a fullscreen buffer on all; an output is locked by its
    requests; no request is of a buffer or on an output that is gone; and captures were ended by their
    owners, for a failed blit or with the last request. -/
structure Balanced (s : State Pixel) : Prop where
  has_request : ∀ b ∈ s.buffers, s.requestsOf b ≠ []
  no_fault : s.fault = false
  unique : ∀ r ∈ s.requests, ∀ r' ∈ s.requests, (s.request r).buffer = (s.request r').buffer →
    (s.request r).output = (s.request r').output → r = r'
  area : ∀ b ∈ s.buffers, ∀ area, (s.buffer b).type = .area area → ∀ o ∈ s.outputs,
    (HasRequest s b o ↔ areaMeets s area (s.buffer b).options o = true)
  fullscreen : ∀ b ∈ s.buffers, (s.buffer b).type = .fullscreen → ∀ o ∈ s.outputs, HasRequest s b o
  render : ∀ o, s.renderLocks o = (s.requestsOn o).length
  cursor : ∀ o, s.cursorLocks o = ((s.requestsOn o).filter fun r => (s.request r).cursorLocked).length
  buffer_mem : ∀ r ∈ s.requests, (s.request r).buffer ∈ s.buffers
  output_mem : ∀ r ∈ s.requests, (s.request r).output ∈ s.outputs
  ended : ∀ e ∈ s.ended, e.2 = .owner ∨ e.2 = .blitFailed ∨ e.2 = .noRequests

/-- A frame of one pixel. -/
def solid (color : ℕ) (damage : List Box) : Commit ℕ where
  damage := damage
  picture := fun _ => color

end FlakeWm.Captures
