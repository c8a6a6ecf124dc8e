import FlakeWm.Captures.Creation

/-! Telling the captures of a buffer of an update. -/

namespace FlakeWm.Captures

variable {Pixel : Type} {ρ : Renderer Pixel} {s s' s'' : State Pixel} {b c : ℕ}

/-- The update shows the buffer `b` as it is in the state. -/
structure Update.Of (u : Update Pixel) (s : State Pixel) (b : ℕ) : Prop where
  type : u.buffer.type = (s.buffer b).type
  pixels : u.buffer.pixels = (s.buffer b).pixels
  requests : ∀ req, req ∈ u.requests ↔ ∃ r ∈ s.requests, (s.request r).buffer = b ∧ s.request r = req
  frame : u.frame = s.frame
  transform : u.transform = fun o => (s.shape o).transform

/-- What the owners of the captures of a buffer may do while they are told of an update: the buffer
    is only marked, and all other buffers, their requests and their captures stay as they are. -/
structure Told (ρ : Renderer Pixel) (b : ℕ) (s s' : State Pixel) : Prop where
  outputs : s'.outputs = s.outputs
  shape : s'.shape = s.shape
  frame : s'.frame = s.frame
  next_le : s.next ≤ s'.next
  buffers : ∀ b' ∈ s.buffers, b' ∈ s'.buffers
  self : ∃ need, s'.buffer b = { s.buffer b with needDestroy := need }
  others : ∀ b' ∈ s.buffers, b' ≠ b → s'.buffer b' = s.buffer b'
  requests : ∀ r ∈ s.requests, r ∈ s'.requests ∧ s'.request r = s.request r
  captures : ∀ c ∈ s.captures, (s.capture c).buffer ≠ b → c ∈ s'.captures ∧ s'.capture c = s.capture c
  old_capture : ∀ c ∈ s'.captures,
    c ∈ s.captures ∧ (s'.capture c).buffer = (s.capture c).buffer ∨ s.next ≤ c
  new_buffer : ∀ b' ∈ s'.buffers, b' ∈ s.buffers ∨ b' ∉ s.buffers ∧ NewBuffer ρ s' b'
  new_request : ∀ r ∈ s'.requests, r ∈ s.requests ∨ (s'.request r).buffer ∉ s.buffers
  updates : ∃ l, s'.updates = s.updates ++ l ∧ ∀ u ∈ l, u.Of s b
  ended : ∃ l, s'.ended = s.ended ++ l ∧ ∀ e ∈ l, e.2 = Cause.owner

/-- A state in which the captures of `b` are told of an update. -/
structure Telling (b : ℕ) (s : State Pixel) : Prop where
  sound : Sound (some b) s
  mem : b ∈ s.buffers
  busy : (s.buffer b).canDestroy = false

/-- All that is told of is the same before and after. -/
theorem Update.Of.congr {u : Update Pixel} (h : u.Of s' b) (ht : Told ρ b s s') (hb : b ∈ s.buffers) :
    u.Of s b := by
  obtain ⟨need, hself⟩ := ht.self
  refine ⟨?_, ?_, fun req => (h.requests req).trans ⟨?_, ?_⟩, h.frame.trans ht.frame, ?_⟩
  · rw [h.type, hself]
  · rw [h.pixels, hself]
  · rintro ⟨r, hr, hrb, rfl⟩
    rcases ht.new_request r hr with hr | hnew
    · rw [(ht.requests r hr).2] at hrb ⊢
      exact ⟨r, hr, hrb, rfl⟩
    · exact absurd (hrb ▸ hb) hnew
  · rintro ⟨r, hr, hrb, rfl⟩
    obtain ⟨hr', heq⟩ := ht.requests r hr
    exact ⟨r, hr', by rwa [heq], heq⟩
  · rw [h.transform, ht.shape]

/-- A new buffer stays one while its record and its requests stay as they are. -/
theorem NewBuffer.congr {b' : ℕ} (h : NewBuffer ρ s b') (houtputs : s'.outputs = s.outputs)
    (hshape : s'.shape = s.shape) (hbuffer : s'.buffer b' = s.buffer b')
    (hkept : ∀ r ∈ s.requests, (s.request r).buffer = b' → r ∈ s'.requests ∧ s'.request r = s.request r)
    (hold : ∀ r ∈ s'.requests, (s'.request r).buffer = b' → r ∈ s.requests ∧ s'.request r = s.request r) :
    NewBuffer ρ s' b' := by
  have hhas : ∀ o, HasRequest s' b' o ↔ HasRequest s b' o := by
    refine fun o => ⟨fun ⟨r, hr, hrb, hro⟩ => ?_, fun ⟨r, hr, hrb, hro⟩ => ?_⟩
    · obtain ⟨hr, heq⟩ := hold r hr hrb
      exact ⟨r, hr, heq ▸ hrb, heq ▸ hro⟩
    · obtain ⟨hr, heq⟩ := hkept r hr hrb
      exact ⟨r, hr, heq ▸ hrb, heq ▸ hro⟩
  refine ⟨?_, ?_, ?_, ?_, fun r hr hrb => ?_, fun o ho => ?_⟩
  · rw [hbuffer, h.pixels]
  · rw [hbuffer, h.damaged]
  · rw [hbuffer, h.allocated]
  · rw [hbuffer]
    exact h.idle
  · obtain ⟨hr, heq⟩ := hold r hr hrb
    rw [heq] at hrb ⊢
    exact h.not_done r hr hrb
  · rw [hhas, hbuffer, shows_congr houtputs hshape]
    exact h.complete o (houtputs ▸ ho)

theorem Told.trans (h : Told ρ b s s') (h' : Told ρ b s' s'') (hb : b ∈ s.buffers) : Told ρ b s s'' where
  outputs := h'.outputs.trans h.outputs
  shape := h'.shape.trans h.shape
  frame := h'.frame.trans h.frame
  next_le := h.next_le.trans h'.next_le
  buffers b' hb' := h'.buffers b' (h.buffers b' hb')
  self := by
    obtain ⟨need, hself⟩ := h.self
    obtain ⟨need', hself'⟩ := h'.self
    exact ⟨need', by rw [hself', hself]⟩
  others b' hb' hne := (h'.others b' (h.buffers b' hb') hne).trans (h.others b' hb' hne)
  requests r hr := by
    obtain ⟨hr', heq⟩ := h.requests r hr
    obtain ⟨hr'', heq'⟩ := h'.requests r hr'
    exact ⟨hr'', heq'.trans heq⟩
  captures c hc hcb := by
    obtain ⟨hc', heq⟩ := h.captures c hc hcb
    obtain ⟨hc'', heq'⟩ := h'.captures c hc' (heq ▸ hcb)
    exact ⟨hc'', heq'.trans heq⟩
  old_capture c hc := by
    rcases h'.old_capture c hc with ⟨hc, heq⟩ | hle
    · rw [heq]
      exact h.old_capture c hc
    · exact .inr (h.next_le.trans hle)
  new_buffer b' hb' := by
    rcases h'.new_buffer b' hb' with hb' | ⟨hnot, hnew⟩
    · rcases h.new_buffer b' hb' with hb' | ⟨hnot, hnew⟩
      · exact .inl hb'
      · refine .inr ⟨hnot, hnew.congr h'.outputs h'.shape (h'.others b' hb' fun heq => hnot (heq ▸ hb))
          (fun r hr _ => h'.requests r hr) fun r hr hrb => ?_⟩
        rcases h'.new_request r hr with hr | hnew
        · exact ⟨hr, (h'.requests r hr).2⟩
        · exact absurd (hrb ▸ hb') hnew
    · exact .inr ⟨fun hmem => hnot (h.buffers b' hmem), hnew⟩
  new_request r hr := by
    rcases h'.new_request r hr with hr | hnew
    · rw [(h'.requests r hr).2]
      exact h.new_request r hr
    · exact .inr fun hmem => hnew (h.buffers _ hmem)
  updates := by
    obtain ⟨l, hl, hof⟩ := h.updates
    obtain ⟨l', hl', hof'⟩ := h'.updates
    refine ⟨l ++ l', by rw [hl', hl, List.append_assoc], fun u hu => ?_⟩
    rcases List.mem_append.1 hu with hu | hu
    · exact hof u hu
    · exact (hof' u hu).congr h hb
  ended := by
    obtain ⟨l, hl, hof⟩ := h.ended
    obtain ⟨l', hl', hof'⟩ := h'.ended
    refine ⟨l ++ l', by rw [hl', hl, List.append_assoc], fun u hu => ?_⟩
    rcases List.mem_append.1 hu with hu | hu
    · exact hof u hu
    · exact hof' u hu

theorem Told.refl (ρ : Renderer Pixel) (b : ℕ) (s : State Pixel) : Told ρ b s s :=
  ⟨rfl, rfl, rfl, le_rfl, fun _ h => h, ⟨_, rfl⟩, fun _ _ _ => rfl, fun _ h => ⟨h, rfl⟩, fun _ h _ => ⟨h, rfl⟩,
    fun _ h => .inl ⟨h, rfl⟩, fun _ => .inl, fun _ => .inl, ⟨[], by simp⟩, ⟨[], by simp⟩⟩

/-- A step of the owner of the capture `c` of `b`: no other capture is ended. -/
structure Acted (ρ : Renderer Pixel) (b c : ℕ) (s s' : State Pixel) : Prop where
  told : Told ρ b s s'
  telling : Telling b s'
  spared : ∀ c' ∈ s.captures, c' ≠ c → c' ∈ s'.captures

theorem Acted.trans (h : Acted ρ b c s s') (h' : Acted ρ b c s' s'') (hb : b ∈ s.buffers) :
    Acted ρ b c s s'' where
  told := h.told.trans h'.told hb
  telling := h'.telling
  spared c' hc' hne := h'.spared c' (h.spared c' hc' hne) hne

theorem Telling.of_same (hs : Telling b s) (h : SameLinks s s') (hf : SameFlags s s') : Telling b s' where
  sound := hs.sound.of_same h hf
  mem := h.buffers ▸ hs.mem
  busy := (hf b).1.trans hs.busy

/-- What a commit does for a request of the buffer `b`: it touches no other buffer, nor its requests
    and captures, and `b` keeps its requests or goes with them. -/
structure Settled (ρ : Renderer Pixel) (b : ℕ) (s s' : State Pixel) : Prop where
  outputs : s'.outputs = s.outputs
  shape : s'.shape = s.shape
  frame : s'.frame = s.frame
  others : ∀ b' ∈ s.buffers, b' ≠ b → b' ∈ s'.buffers ∧ s'.buffer b' = s.buffer b'
  requests : ∀ r ∈ s.requests, (s.request r).buffer ≠ b → r ∈ s'.requests ∧ s'.request r = s.request r
  captures : ∀ c ∈ s.captures, (s.capture c).buffer ≠ b → c ∈ s'.captures ∧ s'.capture c = s.capture c
  stays : b ∈ s'.buffers → (s'.buffer b).type = (s.buffer b).type ∧
    (s'.buffer b).options = (s.buffer b).options ∧ ∀ r ∈ s.requests, (s.request r).buffer = b →
      r ∈ s'.requests ∧ ∃ done, s'.request r = { s.request r with blitDone := done }
  old_request : ∀ r ∈ s'.requests,
    r ∈ s.requests ∧ (s'.request r).buffer = (s.request r).buffer ∨ (s'.request r).buffer ∉ s.buffers
  new_buffer : ∀ b' ∈ s'.buffers, b' ∈ s.buffers ∨ b' ∉ s.buffers ∧ NewBuffer ρ s' b'

theorem Settled.trans (h : Settled ρ b s s') (h' : Settled ρ b s' s'') (hb : b ∈ s.buffers)
    (hb' : b ∈ s'.buffers) : Settled ρ b s s'' where
  outputs := h'.outputs.trans h.outputs
  shape := h'.shape.trans h.shape
  frame := h'.frame.trans h.frame
  others b' hmem hne := by
    obtain ⟨hmem, heq⟩ := h.others b' hmem hne
    obtain ⟨hmem, heq'⟩ := h'.others b' hmem hne
    exact ⟨hmem, heq'.trans heq⟩
  requests r hr hrb := by
    obtain ⟨hr, heq⟩ := h.requests r hr hrb
    obtain ⟨hr, heq'⟩ := h'.requests r hr (heq ▸ hrb)
    exact ⟨hr, heq'.trans heq⟩
  captures c hc hcb := by
    obtain ⟨hc, heq⟩ := h.captures c hc hcb
    obtain ⟨hc, heq'⟩ := h'.captures c hc (heq ▸ hcb)
    exact ⟨hc, heq'.trans heq⟩
  stays hmem := by
    obtain ⟨ht, ho, hreq⟩ := h.stays hb'
    obtain ⟨ht', ho', hreq'⟩ := h'.stays hmem
    refine ⟨ht'.trans ht, ho'.trans ho, fun r hr hrb => ?_⟩
    obtain ⟨hr, done, heq⟩ := hreq r hr hrb
    obtain ⟨hr, done', heq'⟩ := hreq' r hr (by rw [heq]; exact hrb)
    exact ⟨hr, done', by rw [heq', heq]⟩
  old_request r hr := by
    rcases h'.old_request r hr with ⟨hr, heq⟩ | hnot
    · rw [heq]
      exact h.old_request r hr
    · rcases eq_or_ne (s''.request r).buffer b with heq | hne
      · exact absurd (heq ▸ hb') hnot
      · exact .inr fun hmem => hnot (h.others _ hmem hne).1
  new_buffer b' hmem := by
    rcases h'.new_buffer b' hmem with hmem' | ⟨hnot, hnew⟩
    · rcases h.new_buffer b' hmem' with hmem' | ⟨hnot, hnew⟩
      · exact .inl hmem'
      · have hne : b' ≠ b := fun heq => hnot (heq ▸ hb)
        refine .inr ⟨hnot, hnew.congr h'.outputs h'.shape (h'.others b' hmem' hne).2
          (fun r hr hrb => h'.requests r hr (hrb ▸ hne)) fun r hr hrb => ?_⟩
        rcases h'.old_request r hr with ⟨hr', heq⟩ | hnew
        · exact ⟨hr', (h'.requests r hr' (heq ▸ hrb ▸ hne)).2⟩
        · exact absurd (hrb ▸ hmem') hnew
    · refine .inr ⟨fun hmem' => hnot ?_, hnew⟩
      rcases eq_or_ne b' b with rfl | hne
      · exact hb'
      · exact (h.others b' hmem' hne).1

end FlakeWm.Captures
