import FlakeWm.Captures.Links

/-! Destroying requests, captures and buffers. -/

namespace FlakeWm.Captures

variable {Pixel : Type} {outs bufs : List ℕ} {busy : Option ℕ} {s : State Pixel}

/-! ### Requests -/

theorem countP_filter_ne {l : List ℕ} (hl : l.Nodup) {r : ℕ} (hr : r ∈ l) (p : ℕ → Bool) :
    (l.countP p : ℤ) = (l.filter (· ≠ r)).countP p + if p r then 1 else 0 := by
  have hfilter : l.filter (· ≠ r) = l.erase r := by
    rw [hl.erase_eq_filter]
    exact List.filter_congr fun x _ => by rw [bne, Bool.beq_eq_decide_eq]; simp
  rw [hfilter, (List.perm_cons_erase hr).countP_eq p, List.countP_cons]
  split_ifs <;> simp

/-- A request that is destroyed gives back the locks that it holds. -/
theorem Linked.requestFree (hs : Linked outs bufs s) {r : ℕ} (hr : r ∈ s.requests) :
    Linked outs bufs (s.requestFree r) := by
  have hmem : ∀ {r'}, r' ∈ (s.requestFree r).requests → r' ∈ s.requests :=
    fun h => (List.mem_filter.1 h).1
  refine ⟨hs.nodup.filter _, fun r' h => hs.lt_next r' (hmem h), fun r' h => hs.buffer_mem r' (hmem h),
    fun r' h => hs.output_mem r' (hmem h), fun r' h r'' h' => hs.unique r' (hmem h) r'' (hmem h'),
    fun o => ?_, fun o => ?_⟩
  · have hcount := countP_filter_ne hs.nodup hr fun r' => decide ((s.request r').output = o)
    have hlocks := hs.render o
    change Function.update s.renderLocks (s.request r).output _ o =
      ((s.requests.filter (· ≠ r)).countP fun r' => decide ((s.request r').output = o) : ℕ)
    rcases eq_or_ne o (s.request r).output with rfl | hne
    · rw [Function.update_self]
      simp only [decide_true, if_true] at hcount
      change s.renderLocks (s.request r).output - 1 = _
      omega
    · rw [Function.update_of_ne hne]
      rw [if_neg (by simpa using hne.symm)] at hcount
      omega
  · have hcount := countP_filter_ne hs.nodup hr fun r' =>
      decide ((s.request r').output = o) && (s.request r').cursorLocked
    have hlocks := hs.cursor o
    change (if (s.request r).cursorLocked then
        Function.update s.cursorLocks (s.request r).output _ else s.cursorLocks) o =
      ((s.requests.filter (· ≠ r)).countP fun r' =>
        decide ((s.request r').output = o) && (s.request r').cursorLocked : ℕ)
    cases hc : (s.request r).cursorLocked with
    | false =>
      rw [hc, Bool.and_false, if_neg Bool.false_ne_true] at hcount
      rw [if_neg Bool.false_ne_true]
      omega
    | true =>
      rw [hc, Bool.and_true] at hcount
      rw [if_pos rfl]
      rcases eq_or_ne o (s.request r).output with rfl | hne
      · rw [Function.update_self]
        simp only [decide_true, if_true] at hcount
        change s.cursorLocks (s.request r).output - 1 = _
        omega
      · rw [Function.update_of_ne hne]
        rw [if_neg (by simpa using hne.symm)] at hcount
        omega

theorem Linked.foldl_requestFree : ∀ (l : List ℕ) {s : State Pixel}, Linked outs bufs s → l.Nodup →
    (∀ r ∈ l, r ∈ s.requests) → Linked outs bufs (l.foldl State.requestFree s)
  | [], _, hs, _, _ => hs
  | i :: l, s, hs, hnodup, hmem => by
      rw [List.nodup_cons] at hnodup
      refine foldl_requestFree l (hs.requestFree (hmem i List.mem_cons_self)) hnodup.2 fun r hr => ?_
      refine List.mem_filter.2 ⟨hmem r (List.mem_cons_of_mem _ hr), ?_⟩
      simpa using fun h : r = i => hnodup.1 (h ▸ hr)

/-- A buffer without requests need not be one of those that requests may have. -/
theorem Linked.drop_buffer (hs : Linked outs bufs s) {bufs' : List ℕ}
    (h : ∀ r ∈ s.requests, (s.request r).buffer ∈ bufs → (s.request r).buffer ∈ bufs') :
    Linked outs bufs' s :=
  { hs with buffer_mem := fun r hr => h r hr (hs.buffer_mem r hr) }

namespace State

theorem foldl_requestFree_eq : ∀ (l : List ℕ) (s : State Pixel), ∃ render cursor,
    l.foldl requestFree s = { s with
      requests := s.requests.filter (· ∉ l)
      renderLocks := render
      cursorLocks := cursor }
  | [], s => ⟨s.renderLocks, s.cursorLocks, by simp⟩
  | i :: l, s => by
      obtain ⟨render, cursor, h⟩ := foldl_requestFree_eq l (s.requestFree i)
      refine ⟨render, cursor, ?_⟩
      rw [List.foldl_cons, h]
      simp only [requestFree, unlinkRequest, unlockOutput, List.filter_filter, State.mk.injEq, true_and,
        and_true]
      exact List.filter_congr fun r _ => by simp [Bool.and_comm]

theorem foldl_captureFree_eq (cause : Cause) : ∀ (l : List ℕ) (s : State Pixel),
    l.foldl (fun s c => s.captureFree c cause) s = { s with
      captures := s.captures.filter (· ∉ l)
      ended := s.ended ++ l.map fun c => (c, cause) }
  | [], s => by simp
  | i :: l, s => by
      rw [List.foldl_cons, foldl_captureFree_eq cause l]
      simp only [captureFree, List.filter_filter, List.map_cons, List.append_assoc, List.cons_append,
        List.nil_append, State.mk.injEq, true_and, and_true]
      exact List.filter_congr fun r _ => by simp [Bool.and_comm]

/-- All requests and captures of a buffer go with it. -/
theorem captureBufferFree_eq (s : State Pixel) (b : ℕ) (cause : Cause) : ∃ render cursor,
    s.captureBufferFree b cause = { s with
      requests := s.requests.filter fun r => (s.request r).buffer ≠ b
      captures := s.captures.filter fun c => (s.capture c).buffer ≠ b
      buffers := s.buffers.filter (· ≠ b)
      ended := s.ended ++ (s.capturesOf b).map fun c => (c, cause)
      renderLocks := render
      cursorLocks := cursor } := by
  obtain ⟨render, cursor, h⟩ := foldl_requestFree_eq (s.requestsOf b) s
  refine ⟨render, cursor, ?_⟩
  rw [captureBufferFree, h, foldl_captureFree_eq]
  simp only [capturesOf, State.mk.injEq, true_and, and_true]
  constructor
  · refine List.filter_congr fun r hr => ?_
    simp [mem_requestsOf, hr]
  · refine List.filter_congr fun c hc => ?_
    simp [hc]

end State

/-! ### Buffers -/

theorem Linked.captureBufferFree (hs : Linked outs bufs s) (b : ℕ) (cause : Cause) :
    Linked outs (bufs.filter (· ≠ b)) (s.captureBufferFree b cause) := by
  have hfree : Linked outs bufs ((s.requestsOf b).foldl State.requestFree s) :=
    hs.foldl_requestFree _ (hs.nodup.filter _) fun r hr => (s.mem_requestsOf.1 hr).1
  have hdrop : Linked outs (bufs.filter (· ≠ b)) ((s.requestsOf b).foldl State.requestFree s) := by
    refine hfree.drop_buffer fun r hr hmem => List.mem_filter.2 ⟨hmem, ?_⟩
    obtain ⟨render, cursor, h⟩ := State.foldl_requestFree_eq (s.requestsOf b) s
    rw [h] at hr ⊢
    have hr' := List.mem_filter.1 hr
    simpa [State.mem_requestsOf, hr'.1] using hr'.2
  rw [State.captureBufferFree, State.foldl_captureFree_eq]
  exact ⟨hdrop.nodup, hdrop.lt_next, hdrop.buffer_mem, hdrop.output_mem, hdrop.unique, hdrop.render,
    hdrop.cursor⟩

/-- The buffer may have lost requests before it is freed, and its flags do not matter. -/
theorem Kept.free_of (hs : Kept busy s) {b : ℕ} (cause : Cause) {requests : List ℕ}
    {buffer : ℕ → CaptureBuffer Pixel} (render cursor : ℕ → ℤ)
    (hreq : ∀ r ∈ s.requests, (s.request r).buffer ≠ b → r ∈ requests)
    (hbuf : ∀ b', b' ≠ b → buffer b' = s.buffer b') :
    Kept busy (State.captureBufferFree { s with
      requests := requests
      buffer := buffer
      renderLocks := render
      cursorLocks := cursor } b cause) := by
  obtain ⟨render, cursor, heq⟩ := State.captureBufferFree_eq { s with
      requests := requests
      buffer := buffer
      renderLocks := render
      cursorLocks := cursor } b cause
  rw [heq]
  refine ⟨hs.outputs_nodup, hs.nodup.filter _, hs.captures_nodup.filter _, fun b' hb' => hs.buffer_lt b' (List.mem_filter.1 hb').1,
    fun c hc => hs.capture_lt c (List.mem_filter.1 hc).1, fun c hc => ?_, fun b' hb' => ?_,
    fun b' hb' hne => ?_, hs.no_fault⟩
  · obtain ⟨hc, hne⟩ := List.mem_filter.1 hc
    exact List.mem_filter.2 ⟨hs.capture_mem c hc, hne⟩
  · obtain ⟨hb', hne⟩ := List.mem_filter.1 hb'
    obtain ⟨r, hr, hrb⟩ := hs.has_request b' hb'
    have hne' : (s.request r).buffer ≠ b := by simpa [hrb] using hne
    exact ⟨r, List.mem_filter.2 ⟨hreq r hr hne', by simpa using hne'⟩, hrb⟩
  · obtain ⟨hb', hneb⟩ := List.mem_filter.1 hb'
    change (buffer b').canDestroy = true ∧ (buffer b').needDestroy = false
    rw [hbuf b' (by simpa using hneb)]
    exact hs.idle b' hb' hne

@[simp] theorem State.captureBufferFree_buffers (s : State Pixel) (b : ℕ) (cause : Cause) :
    (s.captureBufferFree b cause).buffers = s.buffers.filter (· ≠ b) := by
  obtain ⟨render, cursor, h⟩ := s.captureBufferFree_eq b cause
  rw [h]

@[simp] theorem State.captureBufferFree_outputs (s : State Pixel) (b : ℕ) (cause : Cause) :
    (s.captureBufferFree b cause).outputs = s.outputs := by
  obtain ⟨render, cursor, h⟩ := s.captureBufferFree_eq b cause
  rw [h]

theorem Sound.captureBufferFree (hs : Sound busy s) (b : ℕ) (cause : Cause) :
    Sound busy (s.captureBufferFree b cause) := by
  refine ⟨?_, hs.2.free_of cause s.renderLocks s.cursorLocks (fun _ hr _ => hr) fun _ _ => rfl⟩
  rw [State.captureBufferFree_buffers, State.captureBufferFree_outputs]
  exact hs.1.captureBufferFree b cause

/-- `capture_buffer_destroy` either leaves the buffer, or marks it if it cannot go now, or frees it. -/
theorem State.captureBufferDestroy_cases (s : State Pixel) (b : ℕ) (cause : Cause) :
    (s.captureBufferDestroy b cause = s ∧ (s.buffer b).needDestroy = false ∧ s.capturesOf b ≠ []) ∨
    (((s.buffer b).needDestroy = true ∨ s.capturesOf b = []) ∧ (s.buffer b).canDestroy = false ∧
      s.captureBufferDestroy b cause = s.setBuffer b { s.buffer b with needDestroy := true }) ∨
    (((s.buffer b).needDestroy = true ∨ s.capturesOf b = []) ∧ (s.buffer b).canDestroy = true ∧
      s.captureBufferDestroy b cause = s.captureBufferFree b cause) := by
  rw [captureBufferDestroy]
  cases hneed : (s.buffer b).needDestroy <;> cases hcan : (s.buffer b).canDestroy <;>
    cases hempty : s.capturesOf b <;> simp

/-- Within an update of `busy` its buffer is only marked. -/
theorem Sound.captureBufferDestroy (hs : Sound busy s) {b : ℕ} (cause : Cause)
    (hbusy : (s.buffer b).canDestroy = false → busy = some b) :
    Sound busy (s.captureBufferDestroy b cause) := by
  rcases s.captureBufferDestroy_cases b cause with ⟨h, -, -⟩ | ⟨-, hcan, h⟩ | ⟨-, -, h⟩
  · rwa [h]
  · rw [h]
    have hsame := s.setBuffer_same (b := b) (x := { s.buffer b with needDestroy := true }) rfl rfl
    refine ⟨hsame.linked hs.1, hsame.kept hs.2 fun b' hb' hne => ?_⟩
    have hne' : b' ≠ b := fun heq => hne (heq ▸ hbusy hcan)
    rw [s.setBuffer_of_ne hne']
    exact hs.2.idle b' hb' hne
  · rw [h]
    exact hs.captureBufferFree b cause

theorem Sound.captureDestroy (hs : Sound busy s)
    (hbusy : ∀ b ∈ s.buffers, (s.buffer b).canDestroy = false → busy = some b) (c : ℕ) :
    Sound busy (s.captureDestroy c) := by
  rw [State.captureDestroy]
  split_ifs with hc
  · refine Sound.captureBufferDestroy ?_ _ (hbusy _ (hs.2.capture_mem c hc))
    have hmem : ∀ {c'}, c' ∈ (s.captureFree c .owner).captures → c' ∈ s.captures :=
      fun h => (List.mem_filter.1 h).1
    exact ⟨⟨hs.1.nodup, hs.1.lt_next, hs.1.buffer_mem, hs.1.output_mem, hs.1.unique, hs.1.render,
      hs.1.cursor⟩, ⟨hs.2.outputs_nodup, hs.2.nodup, hs.2.captures_nodup.filter _, hs.2.buffer_lt, fun c' h => hs.2.capture_lt c' (hmem h),
      fun c' h => hs.2.capture_mem c' (hmem h), hs.2.has_request, hs.2.idle, hs.2.no_fault⟩⟩
  · exact hs

/-! ### `capture_request_destroy` -/

namespace State

/-- The last request of a buffer takes the buffer with it; the others leave it, and an area buffer is
    cleared. -/
theorem captureRequestDestroy_eq (ρ : Renderer Pixel) (s : State Pixel) {r b : ℕ}
    (hb : (s.request r).buffer = b) (hcan : (s.buffer b).canDestroy = true) :
    s.captureRequestDestroy ρ r =
      if ((s.requestFree r).requestsOf b).isEmpty then
        ((s.requestFree r).setBuffer b { s.buffer b with needDestroy := true }).captureBufferFree b
          .noRequests
      else
        match (s.buffer b).type with
        | .area _ => (s.requestFree r).captureBufferClear ρ b
        | _ => s.requestFree r := by
  have hreq : (s.requestFree r).requestsOf b = (s.unlinkRequest r).requestsOf b := rfl
  rw [captureRequestDestroy, hb, hreq]
  dsimp only
  split_ifs with hempty
  · rw [List.isEmpty_iff] at hempty
    generalize hs₁ : (s.unlinkRequest r).setBuffer b _ = s₁
    have hdestroy : s₁.captureBufferDestroy b .noRequests = s₁.captureBufferFree b .noRequests := by
      rw [captureBufferDestroy, ← hs₁, setBuffer_self]
      simp [unlinkRequest, hcan]
    have h₁ : s₁.requestsOf b = [] := by
      rw [← hs₁]
      exact hempty
    have h₂ : ((s.requestFree r).setBuffer b { s.buffer b with needDestroy := true }).requestsOf b = [] :=
      hempty
    rw [hdestroy, captureBufferFree, captureBufferFree, h₁, h₂, List.foldl_nil, List.foldl_nil,
      foldl_captureFree_eq, foldl_captureFree_eq, ← hs₁]
    rfl
  · cases htype : (s.buffer b).type <;> simp only [unlinkRequest, htype] <;> rfl

end State

theorem Kept.requestFree (hs : Kept busy s) {r : ℕ}
    (hmore : ∃ r' ∈ s.requests, r' ≠ r ∧ (s.request r').buffer = (s.request r).buffer) :
    Kept busy (s.requestFree r) := by
  refine ⟨hs.outputs_nodup, hs.nodup, hs.captures_nodup, hs.buffer_lt, hs.capture_lt, hs.capture_mem, fun b hb => ?_, hs.idle,
    hs.no_fault⟩
  have hmem : ∀ r' ∈ s.requests, r' ≠ r → r' ∈ (s.requestFree r).requests := fun r' hr' hne =>
    List.mem_filter.2 ⟨hr', by simpa using hne⟩
  obtain ⟨r₁, hr₁, hrb₁⟩ := hs.has_request b hb
  rcases eq_or_ne r₁ r with rfl | hne
  · obtain ⟨r₂, hr₂, hne₂, hrb₂⟩ := hmore
    exact ⟨r₂, hmem r₂ hr₂ hne₂, hrb₂.trans hrb₁⟩
  · exact ⟨r₁, hmem r₁ hr₁ hne, hrb₁⟩

/-- What `capture_request_destroy` keeps while no buffer is being updated. -/
theorem captureRequestDestroy_keeps {ρ : Renderer Pixel} (hs : Linked outs s.buffers s)
    (hk : Kept none s) {r : ℕ} (hr : r ∈ s.requests) :
    Linked outs (s.captureRequestDestroy ρ r).buffers (s.captureRequestDestroy ρ r) ∧
      Kept none (s.captureRequestDestroy ρ r) := by
  have hidle := hk.idle _ (hs.buffer_mem r hr) (by simp)
  rw [s.captureRequestDestroy_eq ρ rfl hidle.1]
  generalize hb : (s.request r).buffer = b
  have hfree : Linked outs s.buffers (s.requestFree r) := hs.requestFree hr
  split_ifs with hempty
  · constructor
    · rw [State.captureBufferFree_buffers]
      refine Linked.captureBufferFree (SameLinks.linked ?_ hfree) b _
      exact (s.requestFree r).setBuffer_same rfl rfl
    · refine hk.free_of _ _ _ (fun r' hr' hne => ?_) fun b' hne => (s.requestFree r).setBuffer_of_ne hne _
      exact List.mem_filter.2 ⟨hr', by simpa using fun heq : r' = r => hne (heq ▸ hb)⟩
  · have hk' : Kept none (s.requestFree r) := by
      rw [Bool.not_eq_true, List.isEmpty_eq_false_iff_exists_mem] at hempty
      obtain ⟨r', hr'⟩ := hempty
      obtain ⟨hr', hrb'⟩ := (s.requestFree r).mem_requestsOf.1 hr'
      obtain ⟨hr', hne⟩ := List.mem_filter.1 hr'
      exact hk.requestFree ⟨r', hr', by simpa using hne, hrb'.trans hb.symm⟩
    split
    · have hsame := (s.requestFree r).captureBufferClear_same ρ b
      refine ⟨?_, hsame.kept hk' fun b' hb' hne => ?_⟩
      · exact hsame.linked hfree
      · obtain ⟨hc, hn⟩ := (s.requestFree r).captureBufferClear_flags ρ b b'
        rw [hc, hn]
        exact hk'.idle b' hb' hne
    · exact ⟨hfree, hk'⟩

/-- What `capture_request_destroy` does to the rest: the request is gone, and its buffer too or
    cleared. -/
structure Dropped (ρ : Renderer Pixel) (r : ℕ) (s s' : State Pixel) : Prop where
  outputs : s'.outputs = s.outputs
  shape : s'.shape = s.shape
  frame : s'.frame = s.frame
  updates : s'.updates = s.updates
  requests : s'.requests = s.requests.filter (· ≠ r)
  request : s'.request = s.request
  buffers : ∀ b ∈ s'.buffers, b ∈ s.buffers
  others : ∀ b, b ≠ (s.request r).buffer → s'.buffer b = s.buffer b
  stays : (s.request r).buffer ∈ s'.buffers →
    s'.buffer (s.request r).buffer = s.buffer (s.request r).buffer ∧
      (∀ area, (s.buffer (s.request r).buffer).type ≠ .area area) ∨
    (∃ area, (s.buffer (s.request r).buffer).type = .area area) ∧ s'.buffer (s.request r).buffer =
      { s.buffer (s.request r).buffer with pixels := fun _ => ρ.clear, wasDamaged := true }
  captures : ∀ c ∈ s.captures, (s.capture c).buffer ≠ (s.request r).buffer →
    c ∈ s'.captures ∧ s'.capture c = s.capture c
  ended : ∃ l, s'.ended = s.ended ++ l ∧ ∀ e ∈ l, e.2 = Cause.noRequests

theorem captureRequestDestroy_dropped (ρ : Renderer Pixel) {r : ℕ}
    (hcan : (s.buffer (s.request r).buffer).canDestroy = true) :
    Dropped ρ r s (s.captureRequestDestroy ρ r) := by
  rw [s.captureRequestDestroy_eq ρ rfl hcan]
  generalize hb : (s.request r).buffer = b
  split_ifs with hempty
  · obtain ⟨render, cursor, h⟩ := ((s.requestFree r).setBuffer b
      { s.buffer b with needDestroy := true }).captureBufferFree_eq b .noRequests
    rw [h]
    refine ⟨rfl, rfl, rfl, rfl, ?_, rfl, fun b' hb' => (List.mem_filter.1 hb').1, fun b' hne =>
      (s.requestFree r).setBuffer_of_ne (hb ▸ hne) _, fun hmem => ?_, fun c hc hcb => ⟨List.mem_filter.2
      ⟨hc, decide_eq_true (hb ▸ hcb)⟩, rfl⟩, ⟨_, rfl, fun e he => ?_⟩⟩
    · -- the buffer had no other request
      refine List.filter_eq_self.2 fun r' hr' => decide_eq_true fun heq => ?_
      have hmem : r' ∈ (s.requestFree r).requestsOf b := (s.requestFree r).mem_requestsOf.2 ⟨hr', heq⟩
      rw [List.isEmpty_iff.1 hempty] at hmem
      cases hmem
    · rw [hb] at hmem
      simp at hmem
    · obtain ⟨c, -, rfl⟩ := List.mem_map.1 he
      rfl
  · cases htype : (s.buffer b).type with
    | area area =>
      refine ⟨rfl, rfl, rfl, rfl, rfl, rfl, fun _ h => h, fun b' hne =>
        (s.requestFree r).setBuffer_of_ne (hb ▸ hne) _, fun _ => .inr ?_, fun _ hc _ => ⟨hc, rfl⟩,
        ⟨[], by simp; rfl, by simp⟩⟩
      rw [hb]
      exact ⟨⟨area, htype⟩, (s.requestFree r).setBuffer_self b _⟩
    | output o =>
      refine ⟨rfl, rfl, rfl, rfl, rfl, rfl, fun _ h => h, fun _ _ => rfl, fun _ => .inl ⟨rfl, ?_⟩,
        fun _ hc _ => ⟨hc, rfl⟩, ⟨[], by simp; rfl, by simp⟩⟩
      rw [hb, htype]
      simp
    | fullscreen =>
      refine ⟨rfl, rfl, rfl, rfl, rfl, rfl, fun _ h => h, fun _ _ => rfl, fun _ => .inl ⟨rfl, ?_⟩,
        fun _ hc _ => ⟨hc, rfl⟩, ⟨[], by simp; rfl, by simp⟩⟩
      rw [hb, htype]
      simp

end FlakeWm.Captures
