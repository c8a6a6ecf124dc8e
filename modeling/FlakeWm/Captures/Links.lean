import FlakeWm.Captures.Model
import Mathlib.Data.List.Count

/-! How buffers, requests, captures and the locks of the outputs hang together, and what each of the
    operations of a capture buffer does to them. -/

namespace FlakeWm.Captures

variable {Pixel : Type}

/-- The requests: each is one of the buffers `bufs` on one of the outputs `outs`, a buffer has at
    most one on an output, and each holds its locks. -/
structure Linked (outs bufs : List ℕ) (s : State Pixel) : Prop where
  nodup : s.requests.Nodup
  lt_next : ∀ r ∈ s.requests, r < s.next
  buffer_mem : ∀ r ∈ s.requests, (s.request r).buffer ∈ bufs
  output_mem : ∀ r ∈ s.requests, (s.request r).output ∈ outs
  unique : ∀ r ∈ s.requests, ∀ r' ∈ s.requests, (s.request r).buffer = (s.request r').buffer →
    (s.request r).output = (s.request r').output → r = r'
  render : ∀ o, s.renderLocks o = s.requests.countP fun r => (s.request r).output = o
  cursor : ∀ o, s.cursorLocks o =
    s.requests.countP fun r => decide ((s.request r).output = o) && (s.request r).cursorLocked

/-- The buffers and captures: a buffer has a request, a capture has a buffer, and no buffer waits to
    be destroyed but the one that is telling its captures of an update. -/
structure Kept (busy : Option ℕ) (s : State Pixel) : Prop where
  outputs_nodup : s.outputs.Nodup
  nodup : s.buffers.Nodup
  captures_nodup : s.captures.Nodup
  buffer_lt : ∀ b ∈ s.buffers, b < s.next
  capture_lt : ∀ c ∈ s.captures, c < s.next
  capture_mem : ∀ c ∈ s.captures, (s.capture c).buffer ∈ s.buffers
  has_request : ∀ b ∈ s.buffers, ∃ r ∈ s.requests, (s.request r).buffer = b
  idle : ∀ b ∈ s.buffers, busy ≠ some b →
    (s.buffer b).canDestroy = true ∧ (s.buffer b).needDestroy = false
  no_fault : s.fault = false

/-- What is there in a state between two events, or within the update of the buffer `busy`. -/
def Sound (busy : Option ℕ) (s : State Pixel) : Prop := Linked s.outputs s.buffers s ∧ Kept busy s

/-! ### Operations that keep all links -/

/-- Both states have the same objects with the same links. -/
structure SameLinks (s s' : State Pixel) : Prop where
  outputs : s'.outputs = s.outputs
  shape : s'.shape = s.shape
  buffers : s'.buffers = s.buffers
  requests : s'.requests = s.requests
  captures : s'.captures = s.captures
  next : s'.next = s.next
  request_buffer : ∀ r, (s'.request r).buffer = (s.request r).buffer
  request_output : ∀ r, (s'.request r).output = (s.request r).output
  request_cursor : ∀ r, (s'.request r).cursorLocked = (s.request r).cursorLocked
  capture_buffer : ∀ c, (s'.capture c).buffer = (s.capture c).buffer
  type : ∀ b, (s'.buffer b).type = (s.buffer b).type
  options : ∀ b, (s'.buffer b).options = (s.buffer b).options
  render : s'.renderLocks = s.renderLocks
  cursor : s'.cursorLocks = s.cursorLocks
  ended : s'.ended = s.ended
  fault : s'.fault = s.fault

namespace SameLinks

variable {s s' s'' : State Pixel}

theorem refl (s : State Pixel) : SameLinks s s :=
  ⟨rfl, rfl, rfl, rfl, rfl, rfl, fun _ => rfl, fun _ => rfl, fun _ => rfl, fun _ => rfl, fun _ => rfl,
    fun _ => rfl, rfl, rfl, rfl, rfl⟩

theorem trans (h : SameLinks s s') (h' : SameLinks s' s'') : SameLinks s s'' where
  outputs := h'.outputs.trans h.outputs
  shape := h'.shape.trans h.shape
  buffers := h'.buffers.trans h.buffers
  requests := h'.requests.trans h.requests
  captures := h'.captures.trans h.captures
  next := h'.next.trans h.next
  request_buffer r := (h'.request_buffer r).trans (h.request_buffer r)
  request_output r := (h'.request_output r).trans (h.request_output r)
  request_cursor r := (h'.request_cursor r).trans (h.request_cursor r)
  capture_buffer c := (h'.capture_buffer c).trans (h.capture_buffer c)
  type b := (h'.type b).trans (h.type b)
  options b := (h'.options b).trans (h.options b)
  render := h'.render.trans h.render
  cursor := h'.cursor.trans h.cursor
  ended := h'.ended.trans h.ended
  fault := h'.fault.trans h.fault

theorem requestsOf (h : SameLinks s s') (b : ℕ) : s'.requestsOf b = s.requestsOf b := by
  rw [State.requestsOf, State.requestsOf, h.requests]
  simp only [h.request_buffer]

theorem capturesOf (h : SameLinks s s') (b : ℕ) : s'.capturesOf b = s.capturesOf b := by
  rw [State.capturesOf, State.capturesOf, h.captures]
  simp only [h.capture_buffer]

theorem linked (h : SameLinks s s') {outs bufs : List ℕ} (hs : Linked outs bufs s) :
    Linked outs bufs s' where
  nodup := h.requests ▸ hs.nodup
  lt_next r hr := by
    rw [h.next]
    exact hs.lt_next r (h.requests ▸ hr)
  buffer_mem r hr := by
    rw [h.request_buffer]
    exact hs.buffer_mem r (h.requests ▸ hr)
  output_mem r hr := by
    rw [h.request_output]
    exact hs.output_mem r (h.requests ▸ hr)
  unique r hr r' hr' hb ho := by
    rw [h.request_buffer, h.request_buffer] at hb
    rw [h.request_output, h.request_output] at ho
    exact hs.unique r (h.requests ▸ hr) r' (h.requests ▸ hr') hb ho
  render o := by
    rw [h.render, h.requests, hs.render o]
    simp only [h.request_output]
  cursor o := by
    rw [h.cursor, h.requests, hs.cursor o]
    simp only [h.request_output, h.request_cursor]

/-- The flags of the buffers may change, but for those that the invariant is about. -/
theorem kept (h : SameLinks s s') {busy busy' : Option ℕ} (hs : Kept busy s)
    (hidle : ∀ b ∈ s.buffers, busy' ≠ some b →
      (s'.buffer b).canDestroy = true ∧ (s'.buffer b).needDestroy = false) : Kept busy' s' where
  outputs_nodup := h.outputs ▸ hs.outputs_nodup
  nodup := h.buffers ▸ hs.nodup
  captures_nodup := h.captures ▸ hs.captures_nodup
  buffer_lt b hb := by
    rw [h.next]
    exact hs.buffer_lt b (h.buffers ▸ hb)
  capture_lt c hc := by
    rw [h.next]
    exact hs.capture_lt c (h.captures ▸ hc)
  capture_mem c hc := by
    rw [h.capture_buffer, h.buffers]
    exact hs.capture_mem c (h.captures ▸ hc)
  has_request b hb := by
    obtain ⟨r, hr, hrb⟩ := hs.has_request b (h.buffers ▸ hb)
    exact ⟨r, h.requests ▸ hr, (h.request_buffer r).trans hrb⟩
  idle b hb := hidle b (h.buffers ▸ hb)
  no_fault := h.fault.trans hs.no_fault

end SameLinks

/-- The operation changes no flag that says whether a buffer is destroyed. -/
def SameFlags (s s' : State Pixel) : Prop :=
  ∀ b, (s'.buffer b).canDestroy = (s.buffer b).canDestroy ∧
    (s'.buffer b).needDestroy = (s.buffer b).needDestroy

theorem Sound.of_same {busy : Option ℕ} {s s' : State Pixel} (hs : Sound busy s)
    (h : SameLinks s s') (hf : SameFlags s s') : Sound busy s' := by
  refine ⟨?_, h.kept hs.2 fun b hb hne => ?_⟩
  · rw [h.outputs, h.buffers]
    exact h.linked hs.1
  · rw [(hf b).1, (hf b).2]
    exact hs.2.idle b hb hne

namespace State

variable (s : State Pixel)

theorem mem_requestsOf {b r : ℕ} : r ∈ s.requestsOf b ↔ r ∈ s.requests ∧ (s.request r).buffer = b := by
  simp [requestsOf]

theorem mem_requestsOn {o r : ℕ} : r ∈ s.requestsOn o ↔ r ∈ s.requests ∧ (s.request r).output = o := by
  simp [requestsOn]

@[simp] theorem setBuffer_self (b : ℕ) (x : CaptureBuffer Pixel) : (s.setBuffer b x).buffer b = x :=
  Function.update_self ..

theorem setBuffer_of_ne {b b' : ℕ} (h : b' ≠ b) (x : CaptureBuffer Pixel) :
    (s.setBuffer b x).buffer b' = s.buffer b' :=
  Function.update_of_ne h ..

@[simp] theorem setRequest_self (r : ℕ) (x : CaptureRequest) : (s.setRequest r x).request r = x :=
  Function.update_self ..

theorem setRequest_of_ne {r r' : ℕ} (h : r' ≠ r) (x : CaptureRequest) :
    (s.setRequest r x).request r' = s.request r' :=
  Function.update_of_ne h ..

@[simp] theorem setCapture_self (c : ℕ) (x : Capture) : (s.setCapture c x).capture c = x :=
  Function.update_self ..

theorem setCapture_of_ne {c c' : ℕ} (h : c' ≠ c) (x : Capture) :
    (s.setCapture c x).capture c' = s.capture c' :=
  Function.update_of_ne h ..

/-- A buffer of the same type and options is put in the place of a buffer. -/
theorem setBuffer_same {b : ℕ} {x : CaptureBuffer Pixel} (ht : x.type = (s.buffer b).type)
    (ho : x.options = (s.buffer b).options) : SameLinks s (s.setBuffer b x) := by
  refine ⟨rfl, rfl, rfl, rfl, rfl, rfl, fun _ => rfl, fun _ => rfl, fun _ => rfl, fun _ => rfl,
    fun b' => ?_, fun b' => ?_, rfl, rfl, rfl, rfl⟩
  all_goals
    rcases eq_or_ne b' b with rfl | hne
    · rwa [setBuffer_self]
    · rw [s.setBuffer_of_ne hne]

theorem setBuffer_flags {b : ℕ} {x : CaptureBuffer Pixel}
    (hc : x.canDestroy = (s.buffer b).canDestroy) (hn : x.needDestroy = (s.buffer b).needDestroy) :
    SameFlags s (s.setBuffer b x) := by
  intro b'
  rcases eq_or_ne b' b with rfl | hne
  · rw [setBuffer_self]
    exact ⟨hc, hn⟩
  · rw [s.setBuffer_of_ne hne]
    exact ⟨rfl, rfl⟩

theorem setRequest_same {r : ℕ} {x : CaptureRequest} (hb : x.buffer = (s.request r).buffer)
    (ho : x.output = (s.request r).output) (hc : x.cursorLocked = (s.request r).cursorLocked) :
    SameLinks s (s.setRequest r x) := by
  refine ⟨rfl, rfl, rfl, rfl, rfl, rfl, fun r' => ?_, fun r' => ?_, fun r' => ?_, fun _ => rfl,
    fun _ => rfl, fun _ => rfl, rfl, rfl, rfl, rfl⟩
  all_goals
    rcases eq_or_ne r' r with rfl | hne
    · rwa [setRequest_self]
    · rw [s.setRequest_of_ne hne]

theorem setCapture_same {c : ℕ} {x : Capture} (hb : x.buffer = (s.capture c).buffer) :
    SameLinks s (s.setCapture c x) := by
  refine ⟨rfl, rfl, rfl, rfl, rfl, rfl, fun _ => rfl, fun _ => rfl, fun _ => rfl, fun c' => ?_,
    fun _ => rfl, fun _ => rfl, rfl, rfl, rfl, rfl⟩
  rcases eq_or_ne c' c with rfl | hne
  · rwa [setCapture_self]
  · rw [s.setCapture_of_ne hne]

theorem captureBufferClear_same (ρ : Renderer Pixel) (b : ℕ) :
    SameLinks s (s.captureBufferClear ρ b) :=
  s.setBuffer_same rfl rfl

theorem captureBufferClear_flags (ρ : Renderer Pixel) (b : ℕ) :
    SameFlags s (s.captureBufferClear ρ b) :=
  s.setBuffer_flags rfl rfl

/-- All requests of the buffer have to be blitted again. -/
theorem resetBlits_eq (b : ℕ) : s.resetBlits b = { s with
    request := fun r => if r ∈ s.requestsOf b then { s.request r with blitDone := false }
      else s.request r } := by
  have h : ∀ (l : List ℕ) (s : State Pixel),
      l.foldl (fun s r => s.setRequest r { s.request r with blitDone := false }) s = { s with
        request := fun r => if r ∈ l then { s.request r with blitDone := false } else s.request r } := by
    intro l
    induction l with
    | nil =>
      intro s
      simp
    | cons i l ih =>
      intro s
      rw [List.foldl_cons, ih]
      simp only [setRequest, State.mk.injEq, true_and, and_true]
      funext r
      rcases eq_or_ne r i with rfl | hne
      · simp
      · simp [Function.update_of_ne hne, hne]
  exact h _ s

theorem resetBlits_same (b : ℕ) : SameLinks s (s.resetBlits b) := by
  rw [resetBlits_eq]
  refine ⟨rfl, rfl, rfl, rfl, rfl, rfl, fun r' => ?_, fun r' => ?_, fun r' => ?_, fun _ => rfl,
    fun _ => rfl, fun _ => rfl, rfl, rfl, rfl, rfl⟩
  all_goals
    dsimp only
    split_ifs <;> rfl

theorem resetBlits_buffer (b : ℕ) : (s.resetBlits b).buffer = s.buffer := by
  rw [resetBlits_eq]

end State

/-- The buffer was allocated anew: it is clear, and its requests have to be blitted again. -/
structure Recreated (ρ : Renderer Pixel) (b : ℕ) (s s' : State Pixel) : Prop where
  same : SameLinks s s'
  flags : SameFlags s s'
  frame : s'.frame = s.frame
  updates : s'.updates = s.updates
  capture : s'.capture = s.capture
  others : ∀ b', b' ≠ b → s'.buffer b' = s.buffer b'
  allocated : (s'.buffer b).size.isSome = true
  pixels : (s'.buffer b).pixels = fun _ => ρ.clear
  damaged : (s'.buffer b).wasDamaged = true
  not_done : ∀ r ∈ s.requests, (s.request r).buffer = b → (s'.request r).blitDone = false
  others_requests : ∀ r ∈ s.requests, (s.request r).buffer ≠ b → s'.request r = s.request r

theorem recreated_of (ρ : Renderer Pixel) (s : State Pixel) (b : ℕ) (size : ℤ × ℤ) :
    Recreated ρ b s (((s.setBuffer b { s.buffer b with size := some size, bufferChanged := true }).resetBlits
      b).captureBufferClear ρ b) := by
  generalize hs₁ : s.setBuffer b _ = s₁
  have h₁ : SameLinks s s₁ := hs₁ ▸ s.setBuffer_same rfl rfl
  have hf₁ : SameFlags s s₁ := hs₁ ▸ s.setBuffer_flags rfl rfl
  have hbuffer := s₁.resetBlits_buffer b
  have hrequest : ∀ r, ((s₁.resetBlits b).captureBufferClear ρ b).request r =
      if r ∈ s.requestsOf b then { s.request r with blitDone := false } else s.request r := by
    intro r
    rw [State.resetBlits_eq, ← hs₁]
    rfl
  refine ⟨(h₁.trans (s₁.resetBlits_same b)).trans (State.captureBufferClear_same _ ρ b), fun b' => ?_, ?_,
    ?_, ?_, fun b' hne => ?_, ?_, ?_, ?_, fun r hr hrb => ?_, fun r hr hrb => ?_⟩
  · obtain ⟨hc, hn⟩ := State.captureBufferClear_flags (s₁.resetBlits b) ρ b b'
    rw [hc, hn, hbuffer]
    exact hf₁ b'
  · rw [State.resetBlits_eq, ← hs₁]
    rfl
  · rw [State.resetBlits_eq, ← hs₁]
    rfl
  · rw [State.resetBlits_eq, ← hs₁]
    rfl
  · rw [State.captureBufferClear, State.setBuffer_of_ne _ hne, hbuffer, ← hs₁, s.setBuffer_of_ne hne]
  · rw [State.captureBufferClear, State.setBuffer_self, hbuffer, ← hs₁, State.setBuffer_self]
    rfl
  · rw [State.captureBufferClear, State.setBuffer_self]
  · rw [State.captureBufferClear, State.setBuffer_self]
  · rw [hrequest, if_pos (s.mem_requestsOf.2 ⟨hr, hrb⟩)]
  · rw [hrequest, if_neg fun h => hrb (s.mem_requestsOf.1 h).2]

/-- `capture_buffer_allocate` keeps a buffer of the right size, or fails, or makes a new one. -/
theorem State.captureBufferAllocate_cases (ρ : Renderer Pixel) (s : State Pixel) {b : ℕ} (ok : Bool)
    (hb : ∃ r ∈ s.requests, (s.request r).buffer = b) :
    ((s.buffer b).size = some (s.neededSize b) ∧ s.captureBufferAllocate ρ b ok = (s, true)) ∨
    ((s.buffer b).size ≠ some (s.neededSize b) ∧ ok = false ∧
      s.captureBufferAllocate ρ b ok = (s, false)) ∨
    ((s.buffer b).size ≠ some (s.neededSize b) ∧ ok = true ∧
      ∃ s', s.captureBufferAllocate ρ b ok = (s', true) ∧ Recreated ρ b s s') := by
  have hne : (s.requestsOf b).isEmpty = false := by
    obtain ⟨r, hr, hrb⟩ := hb
    exact List.isEmpty_eq_false_iff_exists_mem.2 ⟨r, s.mem_requestsOf.2 ⟨hr, hrb⟩⟩
  have hs : { s with fault := s.fault || (s.requestsOf b).isEmpty } = s := by
    rw [hne, Bool.or_false]
  rw [captureBufferAllocate, hs]
  dsimp only
  split_ifs with hsize hok
  · exact .inl ⟨hsize, rfl⟩
  · exact .inr (.inl ⟨hsize, by simpa using hok, rfl⟩)
  · exact .inr (.inr ⟨hsize, by simpa using hok, _, rfl, recreated_of ρ s b _⟩)

end FlakeWm.Captures
