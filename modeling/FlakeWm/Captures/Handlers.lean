import FlakeWm.Captures.Updates

/-! What each event does to the requests of the buffers.

    All handlers keep what hangs together (`Sound`); they keep the requests complete if the other
    outputs are shown by the same buffers as before, and end no capture only because its buffer was
    marked if no owner creates a capture after it has ended its own. -/

namespace FlakeWm.Captures

variable {Pixel : Type} {ρ : Renderer Pixel} {outs bufs : List ℕ} {s s' : State Pixel} {b o : ℕ}

/-- Every buffer has a request exactly on those of the enabled outputs in `P` that it shows a part of. -/
def CompleteOn (ρ : Renderer Pixel) (P : ℕ → Prop) (s : State Pixel) : Prop :=
  ∀ b ∈ s.buffers, ∀ o ∈ s.outputs, P o →
    (HasRequest s b o ↔ shows ρ s (s.buffer b).type (s.buffer b).options o = true)

theorem SameLinks.completeOn (h : SameLinks s s') {P : ℕ → Prop} (hs : CompleteOn ρ P s) :
    CompleteOn ρ P s' := by
  intro b hb o ho hP
  rw [h.hasRequest_iff, h.type, h.options, shows_congr h.outputs h.shape]
  exact hs b (h.buffers ▸ hb) o (h.outputs ▸ ho) hP

/-- No capture was ended just because its buffer was marked. -/
def Clean (s : State Pixel) : Prop := ∀ e ∈ s.ended, e.2 ≠ Cause.needDestroy

theorem Clean.append {l : List (ℕ × Cause)} {cause : Cause} (hs : Clean s) (h : s'.ended = s.ended ++ l)
    (hl : ∀ e ∈ l, e.2 = cause) (hcause : cause ≠ .needDestroy) : Clean s' := by
  intro e he
  rw [h] at he
  rcases List.mem_append.1 he with he | he
  · exact hs e he
  · rw [hl e he]
    exact hcause

theorem Clean.congr (hs : Clean s) (h : s'.ended = s.ended) : Clean s' := by
  rw [Clean, h]
  exact hs

/-- The requests that a loop over the requests of an output still comes to. -/
structure Pending (o : ℕ) (rest : List ℕ) (s : State Pixel) : Prop where
  nodup : rest.Nodup
  live : ∀ r ∈ rest, r ∈ s.requests ∧ (s.request r).output = o

theorem Linked.pending (hs : Linked outs bufs s) (o : ℕ) : Pending o (s.requestsOn o) s :=
  ⟨hs.nodup.filter _, fun _ hr => s.mem_requestsOn.1 hr⟩

/-! ### Updates -/

/-- The buffer is only marked once it has no captures. -/
def Tidy (b : ℕ) (s : State Pixel) : Prop := (s.buffer b).needDestroy = true → s.capturesOf b = []

/-- A buffer without captures that goes ends none. -/
theorem Clean.destroy (hs : Clean s) (htidy : Tidy b s) : Clean (s.captureBufferDestroy b .needDestroy) := by
  rcases s.captureBufferDestroy_cases b .needDestroy with ⟨h, -, -⟩ | ⟨-, -, h⟩ | ⟨hor, -, h⟩
  · rwa [h]
  · rw [h]
    exact hs
  · have hnone : s.capturesOf b = [] := hor.elim htidy id
    obtain ⟨render, cursor, heq⟩ := s.captureBufferFree_eq b .needDestroy
    rw [h]
    refine hs.congr ?_
    rw [heq, hnone]
    exact List.append_nil _

theorem Settled.completeOn (h : Settled ρ b s s') {P : ℕ → Prop} (hs : CompleteOn ρ P s) :
    CompleteOn ρ P s' := by
  intro b' hb' o ho hP
  rcases h.new_buffer b' hb' with hmem | ⟨-, hnew⟩
  · have hrec : (s'.buffer b').type = (s.buffer b').type ∧ (s'.buffer b').options = (s.buffer b').options := by
      rcases eq_or_ne b' b with rfl | hne
      · exact ⟨(h.stays hb').1, (h.stays hb').2.1⟩
      · rw [(h.others b' hmem hne).2]
        exact ⟨rfl, rfl⟩
    rw [hrec.1, hrec.2, shows_congr h.outputs h.shape, ← hs b' hmem o (h.outputs ▸ ho) hP]
    constructor
    · rintro ⟨r, hr, hrb, hro⟩
      rcases h.old_request r hr with ⟨hr', heq⟩ | hnot
      · rcases eq_or_ne b' b with rfl | hne
        · obtain ⟨-, done, hreq⟩ := (h.stays hb').2.2 r hr' (heq ▸ hrb)
          rw [hreq] at hro
          exact ⟨r, hr', heq ▸ hrb, hro⟩
        · have hreq := (h.requests r hr' (heq ▸ hrb ▸ hne)).2
          rw [hreq] at hrb hro
          exact ⟨r, hr', hrb, hro⟩
      · exact absurd (hrb ▸ hmem) hnot
    · rintro ⟨r, hr, hrb, hro⟩
      rcases eq_or_ne b' b with rfl | hne
      · obtain ⟨hr', done, hreq⟩ := (h.stays hb').2.2 r hr hrb
        exact ⟨r, hr', by rw [hreq]; exact hrb, by rw [hreq]; exact hro⟩
      · obtain ⟨hr', hreq⟩ := h.requests r hr (hrb ▸ hne)
        exact ⟨r, hr', by rw [hreq]; exact hrb, by rw [hreq]; exact hro⟩
  · exact hnew.complete o ho

/-- The other requests of the output are of other buffers. -/
theorem Settled.pending (h : Settled ρ b s s') (hs : Linked outs bufs s) {r : ℕ} {rest : List ℕ}
    (hb : (s.request r).buffer = b) (hp : Pending o (r :: rest) s) : Pending o rest s' := by
  obtain ⟨hnot, hnodup⟩ := List.nodup_cons.1 hp.nodup
  obtain ⟨hr, hro⟩ := hp.live r List.mem_cons_self
  refine ⟨hnodup, fun r' hr' => ?_⟩
  obtain ⟨hmem, hro'⟩ := hp.live r' (List.mem_cons_of_mem _ hr')
  obtain ⟨hmem', heq⟩ := h.requests r' hmem fun hb' =>
    hnot (hs.unique r hr r' hmem (hb.trans hb'.symm) (hro.trans hro'.symm) ▸ hr')
  exact ⟨hmem', by rw [heq]; exact hro'⟩

theorem Dropped.shows_iff {r : ℕ} (h : Dropped ρ r s s') (hb : b ∈ s'.buffers) (o : ℕ) :
    shows ρ s' (s'.buffer b).type (s'.buffer b).options o =
      shows ρ s (s.buffer b).type (s.buffer b).options o := by
  have hrec : (s'.buffer b).type = (s.buffer b).type ∧ (s'.buffer b).options = (s.buffer b).options := by
    rcases eq_or_ne b (s.request r).buffer with rfl | hneb
    · rcases h.stays hb with ⟨heq, -⟩ | ⟨-, heq⟩ <;> rw [heq] <;> exact ⟨rfl, rfl⟩
    · rw [h.others b hneb]
      exact ⟨rfl, rfl⟩
  rw [hrec.1, hrec.2, shows_congr h.outputs h.shape]

theorem Dropped.hasRequest_iff {r : ℕ} (h : Dropped ρ r s s') (b o : ℕ) : HasRequest s' b o ↔
    ∃ r' ∈ s.requests, r' ≠ r ∧ (s.request r').buffer = b ∧ (s.request r').output = o := by
  simp only [HasRequest, h.requests, h.request, List.mem_filter, decide_eq_true_eq, and_assoc]

/-- A request on the output is destroyed: nothing changes for the other outputs. -/
theorem Dropped.completeOn {r : ℕ} (h : Dropped ρ r s s') (ho : (s.request r).output = o)
    (hs : CompleteOn ρ (· ≠ o) s) : CompleteOn ρ (· ≠ o) s' := by
  intro b hb o' ho' hne
  rw [h.shows_iff hb, ← hs b (h.buffers b hb) o' (h.outputs ▸ ho') hne, h.hasRequest_iff]
  refine exists_congr fun r' => and_congr_right fun _ => ⟨fun h' => h'.2, fun h' => ⟨?_, h'⟩⟩
  rintro rfl
  exact hne (h'.2.symm.trans ho)

theorem Dropped.clean {r : ℕ} (h : Dropped ρ r s s') (hs : Clean s) : Clean s' := by
  obtain ⟨l, hl, hcause⟩ := h.ended
  exact hs.append hl hcause (by simp)

theorem Dropped.pending {r : ℕ} {rest : List ℕ} (h : Dropped ρ r s s') (hp : Pending o (r :: rest) s) :
    Pending o rest s' := by
  obtain ⟨hnot, hnodup⟩ := List.nodup_cons.1 hp.nodup
  refine ⟨hnodup, fun r' hr' => ?_⟩
  obtain ⟨hmem, hro⟩ := hp.live r' (List.mem_cons_of_mem _ hr')
  rw [h.requests, h.request]
  exact ⟨List.mem_filter.2 ⟨hmem, by simpa using fun heq : r' = r => hnot (heq ▸ hr')⟩, hro⟩

/-- What a loop over the requests of an output keeps; `outs` are the outputs that requests may be on. -/
structure Moving (ρ : Renderer Pixel) (o : ℕ) (outs : List ℕ) (s t : State Pixel) : Prop where
  linked : Linked outs t.buffers t
  kept : Kept none t
  outputs : t.outputs = s.outputs
  shape : t.shape = s.shape
  complete : CompleteOn ρ (· ≠ o) s → CompleteOn ρ (· ≠ o) t
  clean : Clean s → Clean t

/-- At the output `o`: a request is only where the buffer shows a part of it, and the buffers that are
    not in `rest` have one there. -/
def CompleteAt (ρ : Renderer Pixel) (o : ℕ) (rest : List ℕ) (s : State Pixel) : Prop :=
  ∀ b ∈ s.buffers, (HasRequest s b o → shows ρ s (s.buffer b).type (s.buffer b).options o = true) ∧
    (b ∉ rest → shows ρ s (s.buffer b).type (s.buffer b).options o = true → HasRequest s b o)

theorem CompleteAt.completeOn (h : CompleteAt ρ o [] s) (h' : CompleteOn ρ (· ≠ o) s) :
    CompleteOn ρ (fun _ => True) s := by
  intro b hb o' ho' _
  rcases eq_or_ne o' o with rfl | hne
  · exact ⟨(h b hb).1, (h b hb).2 List.not_mem_nil⟩
  · exact h' b hb o' ho' hne

theorem Moving.of_same {t t' : State Pixel} (h : Moving ρ o outs s t) (hsame : SameLinks t t')
    (hflags : SameFlags t t') : Moving ρ o outs s t' where
  linked := by
    rw [hsame.buffers]
    exact hsame.linked h.linked
  kept := hsame.kept h.kept fun b hb hne => by
    rw [(hflags b).1, (hflags b).2]
    exact h.kept.idle b hb hne
  outputs := hsame.outputs.trans h.outputs
  shape := hsame.shape.trans h.shape
  complete hs := hsame.completeOn (h.complete hs)
  clean hs := (h.clean hs).congr hsame.ended

/-- A buffer gets a request on the output if it shows a part of it. -/
theorem Moving.createRequest {t t' : State Pixel} (h : Moving ρ o outs s t) (hb : b ∈ t.buffers)
    (ho : o ∈ outs) (hnone : ¬ HasRequest t b o) (hc : t.captureRequestCreate ρ o b = some t') :
    Moving ρ o outs s t' ∧ Grown b t t' ∧ (∀ rest, CompleteAt ρ o (b :: rest) t →
      (∀ target, (t.buffer b).type ≠ .output target) → CompleteAt ρ o rest t') := by
  have hgrown := (captureRequestCreate_grown h.linked.lt_next hc).1
  have hhas := captureRequestCreate_hasRequest h.linked.lt_next hc
  obtain ⟨-, dst, src, hbox, -⟩ := t.captureRequestCreate_eq hc
  refine ⟨⟨?_, hgrown.kept_sound h.linked.lt_next h.kept, hgrown.outputs.trans h.outputs,
    hgrown.shape.trans h.shape, fun hs b' hb' o' ho' hne => ?_, fun hs => (h.clean hs).congr hgrown.ended⟩,
    hgrown, fun rest hat htype b' hb' => ?_⟩
  · rw [hgrown.buffers]
    exact h.linked.captureRequestCreate hb ho (fun r hr hrb hro => hnone ⟨r, hr, hrb, hro⟩) hc
  · rw [hhas, hgrown.buffer, shows_congr hgrown.outputs hgrown.shape,
      ← h.complete hs b' (hgrown.buffers ▸ hb') o' (hgrown.outputs ▸ ho') hne]
    simp [show ¬o' = o from hne]
  · rw [hhas, hgrown.buffer, shows_congr hgrown.outputs hgrown.shape]
    obtain ⟨h₁, h₂⟩ := hat b' (hgrown.buffers ▸ hb')
    refine ⟨?_, fun hnot hshows => ?_⟩
    · rintro (hr | ⟨rfl, -⟩)
      · exact h₁ hr
      · cases htype' : (t.buffer b').type with
        | output target => exact absurd htype' (htype target)
        | area area =>
          rw [htype'] at hbox
          rw [shows_area, hbox]
          rfl
        | fullscreen => rfl
    · rcases eq_or_ne b' b with rfl | hne
      · exact .inr ⟨rfl, rfl⟩
      · exact .inl (h₂ (by simp [hne, hnot]) hshows)

theorem CompleteAt.skip {t : State Pixel} {rest : List ℕ} (hat : CompleteAt ρ o (b :: rest) t)
    (hb : shows ρ t (t.buffer b).type (t.buffer b).options o = true → HasRequest t b o) :
    CompleteAt ρ o rest t := by
  refine fun b' hb' => ⟨(hat b' hb').1, fun hnot hshows => ?_⟩
  rcases eq_or_ne b' b with rfl | hne
  · exact hb hshows
  · exact (hat b' hb').2 (by simp [hne, hnot]) hshows

end FlakeWm.Captures
