import FlakeWm.Captures.Removal

/-! Creating requests, buffers and captures. -/

namespace FlakeWm.Captures

variable {Pixel : Type} {ρ : Renderer Pixel} {outs bufs : List ℕ} {busy : Option ℕ} {s s' s'' : State Pixel}
  {b o : ℕ}

/-- A buffer of that type and options shows a part of the output. -/
def shows (ρ : Renderer Pixel) (s : State Pixel) (type : CaptureType) (options : Options) (o : ℕ) : Bool :=
  match type with
  | .output target => decide (o = target)
  | _ => (s.calcBox ρ type options o).isSome

theorem shows_area (s : State Pixel) (area : Box) (options : Options) (o : ℕ) :
    shows ρ s (.area area) options o = (s.calcBox ρ (.area area) options o).isSome := rfl

theorem calcBox_congr (ho : s'.outputs = s.outputs) (hs : s'.shape = s.shape) (type : CaptureType)
    (options : Options) (o : ℕ) : s'.calcBox ρ type options o = s.calcBox ρ type options o := by
  simp only [State.calcBox, State.outputManagerGetScale, ho, hs]

theorem shows_congr (ho : s'.outputs = s.outputs) (hs : s'.shape = s.shape) (type : CaptureType)
    (options : Options) (o : ℕ) : shows ρ s' type options o = shows ρ s type options o := by
  simp only [shows, calcBox_congr ho hs]

/-! ### Requests -/

/-- Requests of the buffer `b` were made, and nothing else changed. -/
structure Grown (b : ℕ) (s s' : State Pixel) : Prop where
  outputs : s'.outputs = s.outputs
  shape : s'.shape = s.shape
  frame : s'.frame = s.frame
  buffers : s'.buffers = s.buffers
  buffer : s'.buffer = s.buffer
  captures : s'.captures = s.captures
  capture : s'.capture = s.capture
  updates : s'.updates = s.updates
  ended : s'.ended = s.ended
  fault : s'.fault = s.fault
  next_le : s.next ≤ s'.next
  old : ∀ r < s.next, s'.request r = s.request r
  kept : ∀ r ∈ s.requests, r ∈ s'.requests
  new : ∀ r ∈ s'.requests, r ∈ s.requests ∨
    s.next ≤ r ∧ (s'.request r).buffer = b ∧ (s'.request r).blitDone = false

theorem Grown.refl (b : ℕ) (s : State Pixel) : Grown b s s :=
  ⟨rfl, rfl, rfl, rfl, rfl, rfl, rfl, rfl, rfl, rfl, le_rfl, fun _ _ => rfl, fun _ h => h,
    fun _ h => .inl h⟩

theorem Grown.trans (h : Grown b s s') (h' : Grown b s' s'') (hlt : ∀ r ∈ s'.requests, r < s'.next) :
    Grown b s s'' where
  outputs := h'.outputs.trans h.outputs
  shape := h'.shape.trans h.shape
  frame := h'.frame.trans h.frame
  buffers := h'.buffers.trans h.buffers
  buffer := h'.buffer.trans h.buffer
  captures := h'.captures.trans h.captures
  capture := h'.capture.trans h.capture
  updates := h'.updates.trans h.updates
  ended := h'.ended.trans h.ended
  fault := h'.fault.trans h.fault
  next_le := h.next_le.trans h'.next_le
  old r hr := (h'.old r (hr.trans_le h.next_le)).trans (h.old r hr)
  kept r hr := h'.kept r (h.kept r hr)
  new r hr := by
    rcases h'.new r hr with hr' | ⟨hle, hnew⟩
    · rcases h.new r hr' with hr | hnew
      · exact .inl hr
      · rw [h'.old r (hlt r hr')]
        exact .inr hnew
    · exact .inr ⟨h.next_le.trans hle, hnew⟩

/-- A request that is created is on an output that the buffer has a box on. -/
theorem State.captureRequestCreate_eq (h : s.captureRequestCreate ρ o b = some s') : o ∈ s.outputs ∧
    ∃ dst src, s.calcBox ρ (s.buffer b).type (s.buffer b).options o = some (dst, src) ∧
      s' = { s.setRequest s.next ⟨b, o, src, dst, false, (s.buffer b).options.cursor⟩ with
        requests := s.next :: s.requests
        next := s.next + 1
        renderLocks := Function.update s.renderLocks o (s.renderLocks o + 1)
        cursorLocks := if (s.buffer b).options.cursor then
          Function.update s.cursorLocks o (s.cursorLocks o + 1) else s.cursorLocks } := by
  rw [captureRequestCreate] at h
  cases hbox : s.calcBox ρ (s.buffer b).type (s.buffer b).options o with
  | none =>
    rw [hbox] at h
    cases h
  | some box =>
    rw [hbox] at h
    dsimp only at h
    rw [Option.ite_none_right_eq_some] at h
    exact ⟨h.1, box.1, box.2, rfl, (Option.some.inj h.2).symm⟩

/-- A request that is created is new, and takes its locks. -/
theorem captureRequestCreate_grown (hlt : ∀ r ∈ s.requests, r < s.next)
    (h : s.captureRequestCreate ρ o b = some s') : Grown b s s' ∧
      s'.requests = s.next :: s.requests ∧ s'.next = s.next + 1 ∧ (s'.request s.next).buffer = b ∧
      (s'.request s.next).output = o := by
  obtain ⟨-, dst, src, -, h⟩ := s.captureRequestCreate_eq h
  have hold : ∀ r < s.next, s'.request r = s.request r := fun r hr => by
    rw [h]
    exact s.setRequest_of_ne (Nat.ne_of_lt hr) _
  have hself : s'.request s.next = ⟨b, o, src, dst, false, (s.buffer b).options.cursor⟩ := by
    rw [h]
    exact s.setRequest_self _ _
  refine ⟨⟨?_, ?_, ?_, ?_, ?_, ?_, ?_, ?_, ?_, ?_, ?_, hold, ?_, ?_⟩, ?_, ?_, ?_, ?_⟩
  case refine_12 =>
    intro r hr
    rw [h]
    exact List.mem_cons_of_mem _ hr
  case refine_13 =>
    intro r hr
    have hr' : r ∈ s.next :: s.requests := by simpa [h] using hr
    rcases List.mem_cons.1 hr' with rfl | hr'
    · rw [hself]
      exact .inr ⟨le_rfl, rfl, rfl⟩
    · exact .inl hr'
  case refine_16 => rw [hself]
  case refine_17 => rw [hself]
  case refine_11 => simp [h]
  all_goals
    subst h
    rfl

/-- Locks are counted: one more request on an output is one more lock. -/
theorem Linked.captureRequestCreate (hs : Linked outs bufs s) (hb : b ∈ bufs) (ho : o ∈ outs)
    (hnew : ∀ r ∈ s.requests, (s.request r).buffer = b → (s.request r).output ≠ o)
    (h : s.captureRequestCreate ρ o b = some s') : Linked outs bufs s' := by
  obtain ⟨hgrown, hreqs, hnext, hrb, hro⟩ := captureRequestCreate_grown hs.lt_next h
  have hold : ∀ r ∈ s.requests, s'.request r = s.request r := fun r hr => hgrown.old r (hs.lt_next r hr)
  have hcases : ∀ r ∈ s'.requests, r = s.next ∨ r ∈ s.requests := fun r hr => by
    rw [hreqs] at hr
    exact List.mem_cons.1 hr
  refine ⟨?_, fun r hr => ?_, fun r hr => ?_, fun r hr => ?_, fun r hr r' hr' heb heo => ?_, fun o' => ?_,
    fun o' => ?_⟩
  · rw [hreqs, List.nodup_cons]
    exact ⟨fun hmem => (hs.lt_next _ hmem).false, hs.nodup⟩
  · rw [hnext]
    rcases hcases r hr with rfl | hr
    · exact Nat.lt_succ_self _
    · exact (hs.lt_next r hr).trans (Nat.lt_succ_self _)
  · rcases hcases r hr with rfl | hr
    · rwa [hrb]
    · rw [hold r hr]
      exact hs.buffer_mem r hr
  · rcases hcases r hr with rfl | hr
    · rwa [hro]
    · rw [hold r hr]
      exact hs.output_mem r hr
  · rcases hcases r hr with rfl | hr <;> rcases hcases r' hr' with rfl | hr'
    · rfl
    · rw [hold r' hr'] at heb heo
      exact absurd (heo.symm.trans hro) (hnew r' hr' (heb.symm.trans hrb))
    · rw [hold r hr] at heb heo
      exact absurd (heo.trans hro) (hnew r hr (heb.trans hrb))
    · rw [hold r hr, hold r' hr'] at heb heo
      exact hs.unique r hr r' hr' heb heo
  · have hcount : s.requests.countP (fun r => decide ((s'.request r).output = o')) =
        s.requests.countP fun r => decide ((s.request r).output = o') :=
      List.countP_congr fun r hr => by rw [hold r hr]
    have hlocks := hs.render o'
    obtain ⟨-, dst, src, -, heq⟩ := s.captureRequestCreate_eq h
    rw [hreqs, List.countP_cons, hcount, hro]
    have hrender : s'.renderLocks = Function.update s.renderLocks o (s.renderLocks o + 1) := by rw [heq]
    rw [hrender]
    rcases eq_or_ne o' o with rfl | hne
    · rw [Function.update_self, hlocks]
      simp
    · rw [Function.update_of_ne hne, hlocks]
      simp [hne.symm]
  · have hcount : s.requests.countP (fun r => decide ((s'.request r).output = o') &&
          (s'.request r).cursorLocked) =
        s.requests.countP fun r => decide ((s.request r).output = o') && (s.request r).cursorLocked :=
      List.countP_congr fun r hr => by rw [hold r hr]
    have hlocks := hs.cursor o'
    obtain ⟨-, dst, src, -, heq⟩ := s.captureRequestCreate_eq h
    rw [hreqs, List.countP_cons, hcount, hro]
    have hcursor : s'.cursorLocks = if (s.buffer b).options.cursor then
        Function.update s.cursorLocks o (s.cursorLocks o + 1) else s.cursorLocks := by rw [heq]
    have hlocked : (s'.request s.next).cursorLocked = (s.buffer b).options.cursor := by
      rw [heq]
      exact congrArg CaptureRequest.cursorLocked (s.setRequest_self _ _)
    rw [hcursor, hlocked]
    cases (s.buffer b).options.cursor with
    | false => simpa using hlocks
    | true =>
      rw [if_pos rfl]
      rcases eq_or_ne o' o with rfl | hne
      · rw [Function.update_self, hlocks]
        simp
      · rw [Function.update_of_ne hne, hlocks]
        simp [hne.symm]

/-- New requests change nothing for the buffers and captures that are there. -/
theorem Grown.kept_sound (h : Grown b s s') (hlt : ∀ r ∈ s.requests, r < s.next) (hs : Kept busy s) :
    Kept busy s' where
  outputs_nodup := h.outputs ▸ hs.outputs_nodup
  nodup := h.buffers ▸ hs.nodup
  captures_nodup := h.captures ▸ hs.captures_nodup
  buffer_lt b' hb' := (hs.buffer_lt b' (h.buffers ▸ hb')).trans_le h.next_le
  capture_lt c hc := (hs.capture_lt c (h.captures ▸ hc)).trans_le h.next_le
  capture_mem c hc := by
    rw [h.capture, h.buffers]
    exact hs.capture_mem c (h.captures ▸ hc)
  has_request b' hb' := by
    obtain ⟨r, hr, hrb⟩ := hs.has_request b' (h.buffers ▸ hb')
    exact ⟨r, h.kept r hr, by rwa [h.old r (hlt r hr)]⟩
  idle b' hb' := by
    rw [h.buffer]
    exact hs.idle b' (h.buffers ▸ hb')
  no_fault := h.fault.trans hs.no_fault

/-! ### Buffers -/

/-- The buffer has a request on the output. -/
def HasRequest (s : State Pixel) (b o : ℕ) : Prop :=
  ∃ r ∈ s.requests, (s.request r).buffer = b ∧ (s.request r).output = o

theorem Grown.hasRequest (h : Grown b s s') (hlt : ∀ r ∈ s.requests, r < s.next) {b' : ℕ}
    (hr : HasRequest s b' o) : HasRequest s' b' o := by
  obtain ⟨r, hr, hrb, hro⟩ := hr
  refine ⟨r, h.kept r hr, ?_⟩
  rw [h.old r (hlt r hr)]
  exact ⟨hrb, hro⟩

theorem SameLinks.hasRequest_iff (h : SameLinks s s') (b o : ℕ) : HasRequest s' b o ↔ HasRequest s b o := by
  simp only [HasRequest, h.requests, h.request_buffer, h.request_output]

/-- One request is made. -/
theorem captureRequestCreate_hasRequest (hlt : ∀ r ∈ s.requests, r < s.next)
    (h : s.captureRequestCreate ρ o b = some s') (b' o' : ℕ) :
    HasRequest s' b' o' ↔ HasRequest s b' o' ∨ b' = b ∧ o' = o := by
  obtain ⟨hgrown, hreqs, -, hrb, hro⟩ := captureRequestCreate_grown hlt h
  constructor
  · rintro ⟨r, hr, rfl, rfl⟩
    rw [hreqs] at hr
    rcases List.mem_cons.1 hr with rfl | hr
    · exact .inr ⟨hrb, hro⟩
    · rw [hgrown.old r (hlt r hr)]
      exact .inl ⟨r, hr, rfl, rfl⟩
  · rintro (hr | ⟨rfl, rfl⟩)
    · exact hgrown.hasRequest hlt hr
    · exact ⟨s.next, hreqs ▸ List.mem_cons_self, hrb, hro⟩

/-- A new buffer: it is clear, all of it is to be blitted, and it has a request on each enabled output
    that it shows a part of. -/
structure NewBuffer (ρ : Renderer Pixel) (s : State Pixel) (b : ℕ) : Prop where
  pixels : (s.buffer b).pixels = fun _ => ρ.clear
  damaged : (s.buffer b).wasDamaged = true
  allocated : (s.buffer b).size.isSome = true
  idle : (s.buffer b).canDestroy = true ∧ (s.buffer b).needDestroy = false
  not_done : ∀ r ∈ s.requests, (s.request r).buffer = b → (s.request r).blitDone = false
  complete : ∀ o ∈ s.outputs,
    HasRequest s b o ↔ shows ρ s (s.buffer b).type (s.buffer b).options o = true

/-- What creating a capture does: what was there stays as it is, and a new buffer has the new
    requests. -/
structure Created (ρ : Renderer Pixel) (s s' : State Pixel) : Prop where
  outputs : s'.outputs = s.outputs
  shape : s'.shape = s.shape
  frame : s'.frame = s.frame
  updates : s'.updates = s.updates
  ended : s'.ended = s.ended
  next_le : s.next ≤ s'.next
  buffers : ∀ b ∈ s.buffers, b ∈ s'.buffers ∧ s'.buffer b = s.buffer b
  requests : ∀ r ∈ s.requests, r ∈ s'.requests ∧ s'.request r = s.request r
  captures : ∀ c ∈ s.captures, c ∈ s'.captures ∧ s'.capture c = s.capture c
  new_buffer : ∀ b ∈ s'.buffers, b ∈ s.buffers ∨ b ∉ s.buffers ∧ NewBuffer ρ s' b
  new_request : ∀ r ∈ s'.requests, r ∈ s.requests ∨ (s'.request r).buffer ∉ s.buffers
  new_capture : ∀ c ∈ s'.captures, c ∈ s.captures ∨ s.next ≤ c

theorem Created.refl (ρ : Renderer Pixel) (s : State Pixel) : Created ρ s s :=
  ⟨rfl, rfl, rfl, rfl, rfl, le_rfl, fun _ h => ⟨h, rfl⟩, fun _ h => ⟨h, rfl⟩, fun _ h => ⟨h, rfl⟩,
    fun _ => .inl, fun _ => .inl, fun _ => .inl⟩

/-- The outputs that a buffer of that type asks for requests on. -/
def targets (s : State Pixel) : CaptureType → List ℕ
  | .output o => [o]
  | _ => s.outputs

/-- The state in which a new buffer asks for its requests. -/
def withBuffer (ρ : Renderer Pixel) (s : State Pixel) (type : CaptureType) (options : Options) :
    State Pixel :=
  { s.setBuffer s.next { type := type, options := options, pixels := fun _ => ρ.clear } with
    next := s.next + 1 }

theorem withBuffer_of_ne {type : CaptureType} {options : Options} (h : b ≠ s.next) :
    (withBuffer ρ s type options).buffer b = s.buffer b :=
  s.setBuffer_of_ne h _

theorem Sound.withBuffer (hs : Sound busy s) (type : CaptureType) (options : Options) :
    Linked s.outputs (s.next :: s.buffers) (withBuffer ρ s type options) ∧
      Kept busy (withBuffer ρ s type options) := by
  have hne : ∀ b ∈ s.buffers, b ≠ s.next := fun b hb => Nat.ne_of_lt (hs.2.buffer_lt b hb)
  refine ⟨⟨hs.1.nodup, fun r hr => (hs.1.lt_next r hr).trans (Nat.lt_succ_self _), fun r hr =>
    List.mem_cons_of_mem _ (hs.1.buffer_mem r hr), hs.1.output_mem, hs.1.unique, hs.1.render, hs.1.cursor⟩,
    ⟨hs.2.outputs_nodup, hs.2.nodup, hs.2.captures_nodup, fun b hb => (hs.2.buffer_lt b hb).trans (Nat.lt_succ_self _),
    fun c hc => (hs.2.capture_lt c hc).trans (Nat.lt_succ_self _), hs.2.capture_mem, hs.2.has_request,
    fun b hb => ?_, hs.2.no_fault⟩⟩
  rw [withBuffer_of_ne (hne b hb)]
  exact hs.2.idle b hb

end FlakeWm.Captures
