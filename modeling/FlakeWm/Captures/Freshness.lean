import FlakeWm.Captures.Pictures

/-! When the updates of a capture are never stale. -/

namespace FlakeWm.Captures

variable {Pixel : Type} {ρ : Renderer Pixel} {s t t' : State Pixel} {b o : ℕ}

/-- Every buffer shows its requests rightly, and every update was current. -/
def AllShown (ρ : Renderer Pixel) (s : State Pixel) : Prop :=
  (∀ b ∈ s.buffers, Shown ρ s b) ∧ Current ρ s

/-- The requests that a loop still comes to, as they were in `s`. -/
theorem Pending.rest {outs outs' bufs : List ℕ} {r : ℕ} {rest : List ℕ} (hpend : Pending o (r :: rest) t)
    (hs : Linked outs bufs s) (ht : Linked outs' t.buffers t) (hp : Progress ρ s (r :: rest) t)
    (hmem : ∀ r' ∈ r :: rest, r' ∈ s.requestsOn o) : ∀ r' ∈ rest, (s.request r').buffer ∈ t.buffers ∧
      (s.request r').buffer ≠ (s.request r).buffer := by
  intro r' hr'
  have hrs := s.mem_requestsOn.1 (hmem r List.mem_cons_self)
  have hrs' := s.mem_requestsOn.1 (hmem r' (List.mem_cons_of_mem _ hr'))
  have hun' := hp.pending r' (List.mem_cons_of_mem _ hr')
  refine ⟨?_, fun heq => (List.nodup_cons.1 hpend.nodup).1 ?_⟩
  · have hmem' := ht.buffer_mem r' (hpend.live r' (List.mem_cons_of_mem _ hr')).1
    rwa [(hun'.requests r' hrs'.1 rfl).2] at hmem'
  · rwa [hs.unique r hrs.1 r' hrs'.1 heq.symm (hrs.2.trans hrs'.2.symm)]

/-! ### Commits -/

theorem Dropped.apart {r : ℕ} (h : Dropped ρ r t t') : Apart ρ (t.request r).buffer t t' where
  frame := h.frame
  shape := h.shape
  others b' _ hne := by
    refine ⟨h.others b' hne, fun r' hr' hrb => ?_, fun r' hr' hrb => ?_, fun c hc hcb => ?_⟩
    · rw [h.requests, h.request]
      refine ⟨List.mem_filter.2 ⟨hr', ?_⟩, rfl⟩
      simpa using fun heq : r' = r => hne (heq ▸ hrb).symm
    · rw [h.requests] at hr'
      exact ⟨(List.mem_filter.1 hr').1, by rw [h.request]⟩
    · exact h.captures c hc (hcb ▸ hne)
  new_buffer b' hb' := .inl (h.buffers b' hb')

/-- An area is cleared when it loses a request: then no other request may be marked as done. -/
theorem Dropped.shown {r : ℕ} (h : Dropped ρ r t t') (hs : ∀ r' ∈ t.requests,
      (t.request r').buffer = (t.request r).buffer → r' ≠ r → (t.request r').blitDone = true ∨
        (t.buffer (t.request r).buffer).wasDamaged = false → FreshIn ρ t (t.request r).buffer r')
    (hr : ∀ area, (t.buffer (t.request r).buffer).type = .area area → ∀ r' ∈ t.requests,
      (t.request r').buffer = (t.request r).buffer → r' ≠ r → (t.request r').blitDone = false)
    (hb : (t.request r).buffer ∈ t'.buffers) : Shown ρ t' (t.request r).buffer := by
  have hmem : ∀ r' ∈ t'.requests, r' ∈ t.requests ∧ r' ≠ r := fun r' hr' => by
    rw [h.requests] at hr'
    exact ⟨(List.mem_filter.1 hr').1, by simpa using (List.mem_filter.1 hr').2⟩
  rcases h.stays hb with ⟨hbuf, harea⟩ | ⟨⟨area, harea⟩, hbuf⟩
  · refine ⟨fun r' hr' hrb hdone => ?_, fun area htype => ?_⟩
    · rw [h.request] at hrb hdone
      rw [hbuf] at hdone
      rw [FreshIn, h.frame, h.shape, hbuf, h.request]
      exact hs r' (hmem r' hr').1 hrb (hmem r' hr').2 hdone
    · rw [hbuf] at htype
      exact absurd htype (harea area)
  · refine ⟨fun r' hr' hrb hdone => ?_, fun _ _ p _ => by rw [hbuf]⟩
    rw [h.request] at hrb hdone
    rw [hbuf, hr area harea r' (hmem r' hr').1 hrb (hmem r' hr').2] at hdone
    simp at hdone

theorem Recreated.shown (h : Recreated ρ b s t) : Shown ρ t b := by
  refine ⟨fun r hr hrb hdone => ?_, fun _ _ p _ => by rw [h.pixels]⟩
  rw [h.same.requests] at hr
  rw [h.same.request_buffer] at hrb
  rw [h.not_done r hr hrb, h.damaged] at hdone
  simp at hdone

theorem Recreated.apart (h : Recreated ρ b s t) : Apart ρ b s t where
  frame := h.frame
  shape := h.same.shape
  others b' _ hne := by
    refine ⟨h.others b' hne, fun r hr hrb => ⟨h.same.requests ▸ hr, h.others_requests r hr (hrb ▸ hne)⟩,
      fun r hr hrb => ?_, fun c hc _ => ⟨h.same.captures ▸ hc, by rw [h.capture]⟩⟩
    rw [h.same.requests] at hr
    rw [h.same.request_buffer] at hrb
    exact ⟨hr, h.others_requests r hr (hrb ▸ hne)⟩
  new_buffer b' hb' := .inl (h.same.buffers ▸ hb')

/-- What is asked when an output is disabled: the other requests of an area that it shows are not
    marked as done. -/
def disableOk (s : State Pixel) (r : ℕ) : Bool :=
  match (s.buffer (s.request r).buffer).type with
  | .area _ => (s.requestsOf (s.request r).buffer).all fun r' =>
    decide (r' = r) || !(s.request r').blitDone
  | _ => true

theorem disableOk_spec {r : ℕ} (h : disableOk s r = true) (area : Box)
    (harea : (s.buffer (s.request r).buffer).type = .area area) : ∀ r' ∈ s.requests,
    (s.request r').buffer = (s.request r).buffer → r' ≠ r → (s.request r').blitDone = false := by
  intro r' hr' hrb hne
  rw [disableOk, harea] at h
  have hor := List.all_eq_true.1 h r' (s.mem_requestsOf.2 ⟨hr', hrb⟩)
  simpa [hne] using hor

/-- What a loop over the requests of the output `o`, which may be leaving, keeps. -/
structure Losing (ρ : Renderer Pixel) (o : ℕ) (outs rest : List ℕ) (s t : State Pixel) : Prop where
  linked : Linked outs t.buffers t
  kept : Kept none t
  pending : Pending o rest t
  progress : Progress ρ s rest t
  frame : t.frame = s.frame
  current : Current ρ t
  mem : ∀ r ∈ rest, r ∈ s.requestsOn o

/-- One of the requests is destroyed. -/
theorem Losing.destroy {outs : List ℕ} {r : ℕ} {rest : List ℕ} (h : Losing ρ o outs (r :: rest) s t)
    (hs : Linked outs s.buffers s) (hshown : AllShown ρ s) (hok : disableOk s r = true)
    (hshape : ∀ o' ≠ o, t.shape o' = s.shape o') : Losing ρ o outs rest s (t.captureRequestDestroy ρ r) ∧
      (t.captureRequestDestroy ρ r).shape = t.shape := by
  have hrs := s.mem_requestsOn.1 (h.mem r List.mem_cons_self)
  have hr := (h.pending.live r List.mem_cons_self).1
  have hun := h.progress.pending r List.mem_cons_self
  have hreq := (hun.requests r hrs.1 rfl).2
  have hmem := h.linked.buffer_mem r hr
  obtain ⟨hl, hk⟩ := captureRequestDestroy_keeps (ρ := ρ) h.linked h.kept hr
  have hd := captureRequestDestroy_dropped (s := t) ρ (r := r) (h.kept.idle _ hmem (by simp)).1
  have hapart := hd.apart
  rw [hreq] at hapart hmem
  refine ⟨⟨hl, hk, hd.pending h.pending, h.progress.step hapart (fun hb => ?_)
    (h.pending.rest hs h.linked h.progress h.mem), hd.frame.trans h.frame,
    by rw [Current, hd.updates]; exact h.current, fun r' hr' => h.mem r' (List.mem_cons_of_mem _ hr')⟩, hd.shape⟩
  rw [← hreq] at hb ⊢
  have hb' : (t.request r).buffer = (s.request r).buffer := by rw [hreq]
  refine hd.shown (fun r' hr' hrb hne hdone => ?_) (fun area harea r' hr' hrb hne => ?_) hb
  · rw [hb'] at hrb hdone ⊢
    exact hun.others_fresh hs (hshown.1 _ (hs.buffer_mem r hrs.1)) hrs.1 rfl hrs.2
      (fun _ _ => by rw [h.frame]) hshape r' hr' hrb hne hdone
  · rw [hb'] at harea hrb
    rw [hun.buffer] at harea
    obtain ⟨hrs', heq⟩ := hun.old r' hr' hrb
    rw [heq] at hrb ⊢
    exact disableOk_spec hok area harea r' hrs' hrb hne

end FlakeWm.Captures
