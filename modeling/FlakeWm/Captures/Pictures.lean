import FlakeWm.Captures.Handlers

/-! What a capture buffer shows while its requests are blitted one by one. -/

namespace FlakeWm.Captures

variable {Pixel : Type} {ρ : Renderer Pixel} {s t t' : State Pixel} {b o : ℕ}

/-- The part of the pixels that a request fills shows the frame of its output. -/
def Fresh (ρ : Renderer Pixel) (frame : ℕ → Option (Picture Pixel)) (transform : ℕ → Fin 8)
    (pixels : Picture Pixel) (req : CaptureRequest) : Prop :=
  ∃ picture, frame req.output = some picture ∧ ∀ p, inBox req.dst p = true →
    pixels p = ρ.sample picture req.src req.dst (transform req.output) p

/-- An update is not stale: every request shows the last frame of its output, and an area is clear where
    there is no request. -/
structure Update.Current (ρ : Renderer Pixel) (u : Update Pixel) : Prop where
  fresh : ∀ req ∈ u.requests, Fresh ρ u.frame u.transform u.buffer.pixels req
  clear : ∀ area, u.buffer.type = .area area → ∀ p,
    (∀ req ∈ u.requests, inBox req.dst p = false) → u.buffer.pixels p = ρ.clear

/-- The request shows the last frame of its output in the buffer. -/
def FreshIn (ρ : Renderer Pixel) (s : State Pixel) (b r : ℕ) : Prop :=
  Fresh ρ s.frame (fun o => (s.shape o).transform) (s.buffer b).pixels (s.request r)

/-- A request that needs no blit, since it is done or nothing was damaged, shows the last frame; and an
    area is clear elsewhere. -/
structure Shown (ρ : Renderer Pixel) (s : State Pixel) (b : ℕ) : Prop where
  fresh : ∀ r ∈ s.requests, (s.request r).buffer = b →
    (s.request r).blitDone = true ∨ (s.buffer b).wasDamaged = false → FreshIn ρ s b r
  clear : ∀ area, (s.buffer b).type = .area area → ∀ p,
    (∀ r ∈ s.requests, (s.request r).buffer = b → inBox (s.request r).dst p = false) →
      (s.buffer b).pixels p = ρ.clear

theorem Update.Of.current {u : Update Pixel} (h : u.Of s b) (hs : Shown ρ s b)
    (hall : ∀ r ∈ s.requests, (s.request r).buffer = b → (s.request r).blitDone = true) : u.Current ρ := by
  constructor
  · intro req hreq
    obtain ⟨r, hr, hrb, rfl⟩ := (h.requests req).1 hreq
    rw [h.frame, h.transform, h.pixels]
    exact hs.fresh r hr hrb (.inl (hall r hr hrb))
  · intro area harea p hp
    rw [h.pixels]
    refine hs.clear area (h.type ▸ harea) p fun r hr hrb => hp _ ((h.requests _).2 ⟨r, hr, hrb, rfl⟩)

/-! ### Buffers that nothing happens to -/

/-- The buffer, its requests and its captures are as before. -/
structure Untouched (b : ℕ) (s t : State Pixel) : Prop where
  buffer : t.buffer b = s.buffer b
  requests : ∀ r ∈ s.requests, (s.request r).buffer = b → r ∈ t.requests ∧ t.request r = s.request r
  old : ∀ r ∈ t.requests, (t.request r).buffer = b → r ∈ s.requests ∧ t.request r = s.request r
  captures : ∀ c ∈ s.captures, (s.capture c).buffer = b → c ∈ t.captures ∧ t.capture c = s.capture c

theorem Untouched.trans (h : Untouched b s t) (h' : Untouched b t t') : Untouched b s t' where
  buffer := h'.buffer.trans h.buffer
  requests r hr hrb := by
    obtain ⟨hr, heq⟩ := h.requests r hr hrb
    obtain ⟨hr, heq'⟩ := h'.requests r hr (heq ▸ hrb)
    exact ⟨hr, heq'.trans heq⟩
  old r hr hrb := by
    obtain ⟨hr, heq⟩ := h'.old r hr hrb
    obtain ⟨hr, heq'⟩ := h.old r hr (heq ▸ hrb)
    exact ⟨hr, heq.trans heq'⟩
  captures c hc hcb := by
    obtain ⟨hc, heq⟩ := h.captures c hc hcb
    obtain ⟨hc, heq'⟩ := h'.captures c hc (heq ▸ hcb)
    exact ⟨hc, heq'.trans heq⟩

/-- What a buffer shows stays if the frames and transforms of its outputs do. -/
theorem Shown.of_untouched (hs : Shown ρ s b) (h : Untouched b s t)
    (hout : ∀ r ∈ s.requests, (s.request r).buffer = b → t.frame (s.request r).output =
      s.frame (s.request r).output ∧ t.shape (s.request r).output = s.shape (s.request r).output) :
    Shown ρ t b := by
  constructor
  · intro r hr hrb hdone
    obtain ⟨hr', heq⟩ := h.old r hr hrb
    rw [heq] at hrb hdone
    rw [h.buffer] at hdone
    obtain ⟨picture, hframe, hpixels⟩ := hs.fresh r hr' hrb hdone
    obtain ⟨hf, hsh⟩ := hout r hr' hrb
    refine ⟨picture, ?_, fun p hp => ?_⟩
    · rw [heq, hf, hframe]
    · rw [heq] at hp
      rw [heq, h.buffer, hpixels p hp]
      dsimp only
      rw [hsh]
  · intro area harea p hp
    rw [h.buffer] at harea ⊢
    refine hs.clear area harea p fun r hr hrb => ?_
    obtain ⟨hr', heq⟩ := h.requests r hr hrb
    rw [← heq]
    exact hp r hr' (heq ▸ hrb)

/-- While only the output `o` changes, all requests but the one on `o` stay fresh. -/
theorem Untouched.others_fresh (hun : Untouched b s t) {outs bufs : List ℕ} (hlinked : Linked outs bufs s)
    (hshown : Shown ρ s b) {r : ℕ} (hrs : r ∈ s.requests) (hb : (s.request r).buffer = b)
    (hro : (s.request r).output = o) (hframe : ∀ o' ≠ o, t.frame o' = s.frame o')
    (hshape : ∀ o' ≠ o, t.shape o' = s.shape o') : ∀ r' ∈ t.requests, (t.request r').buffer = b → r' ≠ r →
      (t.request r').blitDone = true ∨ (t.buffer b).wasDamaged = false → FreshIn ρ t b r' := by
  intro r' hr' hrb' hne hdone
  obtain ⟨hrs', heq⟩ := hun.old r' hr' hrb'
  rw [heq] at hrb' hdone
  rw [hun.buffer] at hdone
  have hne' : (s.request r').output ≠ o := fun hro' =>
    hne (hlinked.unique r' hrs' r hrs (hrb'.trans hb.symm) (hro'.trans hro.symm))
  obtain ⟨picture, hf, hpixels⟩ := hshown.fresh r' hrs' hrb' hdone
  refine ⟨picture, by rw [heq, hframe _ hne', hf], fun p hp => ?_⟩
  rw [heq] at hp
  rw [hun.buffer, heq]
  dsimp only
  rw [hshape _ hne']
  exact hpixels p hp

/-- What happens to the buffer `b` leaves all others alone, and what is new is shown rightly. -/
structure Apart (ρ : Renderer Pixel) (b : ℕ) (t t' : State Pixel) : Prop where
  frame : t'.frame = t.frame
  shape : t'.shape = t.shape
  others : ∀ b' ∈ t.buffers, b' ≠ b → Untouched b' t t'
  new_buffer : ∀ b' ∈ t'.buffers, b' ∈ t.buffers ∨ Shown ρ t' b'

/-- A loop over the requests of an output: the buffers of the requests to come are as they were in `s`,
    and the others are shown rightly. -/
structure Progress (ρ : Renderer Pixel) (s : State Pixel) (rest : List ℕ) (t : State Pixel) : Prop where
  pending : ∀ r ∈ rest, Untouched (s.request r).buffer s t
  done : ∀ b ∈ t.buffers, (∀ r ∈ rest, (s.request r).buffer ≠ b) → Shown ρ t b

theorem Progress.step {r : ℕ} {rest : List ℕ} (hp : Progress ρ s (r :: rest) t)
    (h : Apart ρ (s.request r).buffer t t')
    (hb : (s.request r).buffer ∈ t'.buffers → Shown ρ t' (s.request r).buffer)
    (hrest : ∀ r' ∈ rest, (s.request r').buffer ∈ t.buffers ∧
      (s.request r').buffer ≠ (s.request r).buffer) : Progress ρ s rest t' := by
  constructor
  · intro r' hr'
    obtain ⟨hmem, hne⟩ := hrest r' hr'
    exact (hp.pending r' (List.mem_cons_of_mem _ hr')).trans (h.others _ hmem hne)
  · intro b' hb' hnot
    rcases eq_or_ne b' (s.request r).buffer with rfl | hne
    · exact hb hb'
    · rcases h.new_buffer b' hb' with hmem | hshown
      · have hshown := hp.done b' hmem fun r' hr' => by
          rcases List.mem_cons.1 hr' with rfl | hr'
          · exact hne.symm
          · exact hnot r' hr'
        exact hshown.of_untouched (h.others b' hmem hne) fun _ _ _ => ⟨by rw [h.frame], by rw [h.shape]⟩
      · exact hshown

theorem NewBuffer.shown (h : NewBuffer ρ s b) : Shown ρ s b := by
  constructor
  · rintro r hr hrb (hdone | hdamaged)
    · rw [h.not_done r hr hrb] at hdone
      cases hdone
    · rw [h.damaged] at hdamaged
      cases hdamaged
  · intro _ _ p _
    rw [h.pixels]

theorem Settled.apart (h : Settled ρ b t t') : Apart ρ b t t' where
  frame := h.frame
  shape := h.shape
  others b' hb' hne := by
    refine ⟨(h.others b' hb' hne).2, fun r hr hrb => h.requests r hr (hrb ▸ hne), fun r hr hrb => ?_,
      fun c hc hcb => h.captures c hc (hcb ▸ hne)⟩
    rcases h.old_request r hr with ⟨hr', heq⟩ | hnot
    · exact ⟨hr', (h.requests r hr' (heq ▸ hrb ▸ hne)).2⟩
    · exact absurd (hrb ▸ hb') hnot
  new_buffer b' hb' := by
    rcases h.new_buffer b' hb' with hmem | ⟨-, hnew⟩
    · exact .inl hmem
    · exact .inr hnew.shown

/-! ### Commits -/

/-- A buffer whose requests are all done is right, whatever its flags are. -/
theorem Shown.of_fresh (hfresh : ∀ r ∈ s.requests, (s.request r).buffer = b → FreshIn ρ s b r)
    (hclear : ∀ area, (s.buffer b).type = .area area → ∀ p,
      (∀ r ∈ s.requests, (s.request r).buffer = b → inBox (s.request r).dst p = false) →
        (s.buffer b).pixels p = ρ.clear) : Shown ρ s b :=
  ⟨fun r hr hrb _ => hfresh r hr hrb, hclear⟩

/-- Two states show the same in the buffer, up to the flags. -/
structure SamePicture (b : ℕ) (s t : State Pixel) : Prop where
  frame : t.frame = s.frame
  shape : t.shape = s.shape
  type : (t.buffer b).type = (s.buffer b).type
  pixels : (t.buffer b).pixels = (s.buffer b).pixels
  requests : ∀ r ∈ s.requests, (s.request r).buffer = b →
    r ∈ t.requests ∧ ∃ done, t.request r = { s.request r with blitDone := done }
  old : ∀ r ∈ t.requests, (t.request r).buffer = b → r ∈ s.requests ∧ (s.request r).buffer = b

theorem SamePicture.trans {u : State Pixel} (h : SamePicture b s t) (h' : SamePicture b t u) :
    SamePicture b s u where
  frame := h'.frame.trans h.frame
  shape := h'.shape.trans h.shape
  type := h'.type.trans h.type
  pixels := h'.pixels.trans h.pixels
  requests r hr hrb := by
    obtain ⟨hr, done, heq⟩ := h.requests r hr hrb
    obtain ⟨hr, done', heq'⟩ := h'.requests r hr (by rw [heq]; exact hrb)
    exact ⟨hr, done', by rw [heq', heq]⟩
  old r hr hrb := by
    obtain ⟨hr, hrb⟩ := h'.old r hr hrb
    exact h.old r hr hrb

theorem SamePicture.freshIn (h : SamePicture b s t) {r : ℕ} (hr : r ∈ s.requests)
    (hrb : (s.request r).buffer = b) (hfresh : FreshIn ρ s b r) : FreshIn ρ t b r := by
  obtain ⟨-, done, heq⟩ := h.requests r hr hrb
  obtain ⟨picture, hframe, hpixels⟩ := hfresh
  refine ⟨picture, ?_, fun p hp => ?_⟩
  · rw [h.frame, heq]
    exact hframe
  · rw [heq] at hp
    rw [h.pixels, heq, h.shape]
    exact hpixels p hp

theorem SamePicture.clear (h : SamePicture b s t) (hs : Shown ρ s b) : ∀ area,
    (t.buffer b).type = .area area → ∀ p,
      (∀ r ∈ t.requests, (t.request r).buffer = b → inBox (t.request r).dst p = false) →
        (t.buffer b).pixels p = ρ.clear := by
  intro area harea p hp
  rw [h.pixels]
  refine hs.clear area (h.type ▸ harea) p fun r hr hrb => ?_
  obtain ⟨hr', done, heq⟩ := h.requests r hr hrb
  have hout := hp r hr' (by rw [heq]; exact hrb)
  rwa [heq] at hout

/-- If all requests are done, all the flags may change. -/
theorem SamePicture.shown (h : SamePicture b s t) (hs : Shown ρ s b)
    (hall : ∀ r ∈ s.requests, (s.request r).buffer = b → FreshIn ρ s b r) : Shown ρ t b := by
  refine .of_fresh (fun r hr hrb => ?_) (h.clear hs)
  obtain ⟨hr', hrb'⟩ := h.old r hr hrb
  exact h.freshIn hr' hrb' (hall r hr' hrb')

theorem samePicture_setBuffer (s : State Pixel) {b : ℕ} {x : CaptureBuffer Pixel}
    (ht : x.type = (s.buffer b).type) (hp : x.pixels = (s.buffer b).pixels) :
    SamePicture b s (s.setBuffer b x) := by
  refine ⟨rfl, rfl, ?_, ?_, fun r hr _ => ⟨hr, (s.request r).blitDone, rfl⟩, fun r hr hrb => ⟨hr, hrb⟩⟩
  · rw [State.setBuffer_self, ht]
  · rw [State.setBuffer_self, hp]

theorem Shown.destroy (hs : Shown ρ s b) (cause : Cause) (hb : b ∈ (s.captureBufferDestroy b cause).buffers) :
    Shown ρ (s.captureBufferDestroy b cause) b := by
  rcases s.captureBufferDestroy_cases b cause with ⟨h, -, -⟩ | ⟨-, -, h⟩ | ⟨-, -, h⟩
  · rwa [h]
  · rw [h]
    have hpic : SamePicture b s (s.setBuffer b { s.buffer b with needDestroy := true }) :=
      samePicture_setBuffer s rfl rfl
    refine ⟨fun r hr hrb hdone => ?_, hpic.clear hs⟩
    rw [State.setBuffer_self] at hdone
    exact hpic.freshIn hr hrb (hs.fresh r hr hrb hdone)
  · rw [h] at hb
    simp at hb

/-- All updates are current. -/
def Current (ρ : Renderer Pixel) (s : State Pixel) : Prop := ∀ u ∈ s.updates, u.Current ρ

/-- The pixels of a frame that a source box has a part of. -/
def coverRect (src : FBox) : Box :=
  ⟨⌊src.x⌋, ⌊src.y⌋, ⌈src.x + src.width⌉ - ⌊src.x⌋, ⌈src.y + src.height⌉ - ⌊src.y⌋⟩

/-- The source box is not the whole picture. -/
def isPart (src : FBox) : Bool := decide (0 < src.width) && decide (0 < src.height)

/-- The renderer takes the pixels of a source box from there only. -/
def Renderer.Local (ρ : Renderer Pixel) : Prop :=
  ∀ (f g : Picture Pixel) (src : FBox) (dst : Box) (transform : Fin 8) (p : ℤ × ℤ), isPart src = true →
    (∀ q, inBox (coverRect src) q = true → f q = g q) → inBox dst p = true →
      ρ.sample f src dst transform p = ρ.sample g src dst transform p

/-- The commit may change what a request with that buffer type and source box shows. -/
def touches (commit : Commit Pixel) (type : CaptureType) (src : FBox) : Bool :=
  commit.hasDamage &&
    match type with
    | .area _ => !isPart src || commit.damage.any fun box => (wlrBoxIntersection (coverRect src) box).isSome
    | _ => true

theorem touches_area (commit : Commit Pixel) (area : Box) (src : FBox) : touches commit (.area area) src =
    (commit.hasDamage && (!isPart src ||
      commit.damage.any fun box => (wlrBoxIntersection (coverRect src) box).isSome)) := rfl

theorem touches_of_not_area {commit : Commit Pixel} {type : CaptureType} {src : FBox}
    (h : ∀ area, type ≠ .area area) : touches commit type src = commit.hasDamage := by
  cases type with
  | area area => exact absurd rfl (h area)
  | output target => exact Bool.and_true _
  | fullscreen => exact Bool.and_true _

theorem inBox_iff {box : Box} {p : ℤ × ℤ} : inBox box p = true ↔
    box.x ≤ p.1 ∧ p.1 < box.x + box.width ∧ box.y ≤ p.2 ∧ p.2 < box.y + box.height := by
  simp [inBox, kywcBoxContainsPoint, and_assoc]

theorem not_empty_of_inBox {box : Box} {p : ℤ × ℤ} (h : inBox box p = true) : wlrBoxEmpty box = false := by
  rw [inBox_iff] at h
  simp only [wlrBoxEmpty, Bool.or_eq_false_iff, decide_eq_false_iff_not]
  omega

/-- Boxes with a common pixel meet. -/
theorem intersection_isSome {a b : Box} {p : ℤ × ℤ} (ha : inBox a p = true) (hb : inBox b p = true) :
    (wlrBoxIntersection a b).isSome = true := by
  rw [wlrBoxIntersection, not_empty_of_inBox ha, not_empty_of_inBox hb, Bool.or_self,
    if_neg Bool.false_ne_true]
  have hmeet : wlrBoxEmpty ⟨max a.x b.x, max a.y b.y, min (a.x + a.width) (b.x + b.width) - max a.x b.x,
      min (a.y + a.height) (b.y + b.height) - max a.y b.y⟩ = false := by
    refine not_empty_of_inBox (p := p) (inBox_iff.2 ?_)
    rw [inBox_iff] at ha hb
    simp only [max_le_iff]
    omega
  dsimp only
  rw [hmeet, if_neg Bool.false_ne_true]
  rfl

theorem hasDamage_of_damages {commit : Commit Pixel} {p : ℤ × ℤ} (h : commit.damages p = true) :
    commit.hasDamage = true := by
  rw [Commit.damages, Bool.and_eq_true, List.any_eq_true] at h
  obtain ⟨hc, box, hbox, hp⟩ := h
  rw [Commit.hasDamage, Bool.and_eq_true, List.any_eq_true]
  exact ⟨hc, box, hbox, by rw [not_empty_of_inBox hp]; rfl⟩

/-- A commit that does not touch what a request shows leaves it fresh. -/
theorem Fresh.onto (hlocal : ρ.Local) (commit : Commit Pixel) {type : CaptureType} {req : CaptureRequest}
    {frame frame' : ℕ → Option (Picture Pixel)} {transform : ℕ → Fin 8} {pixels : Picture Pixel}
    (hframe : frame' req.output = some (commit.onto (frame req.output)).picture)
    (hnot : touches commit type req.src = false) (h : Fresh ρ frame transform pixels req) :
    Fresh ρ frame' transform pixels req := by
  obtain ⟨old, hold, hpixels⟩ := h
  refine ⟨_, hframe, fun p hp => (hpixels p hp).trans ?_⟩
  rw [hold]
  change ρ.sample old req.src req.dst _ p = ρ.sample (fun q => if commit.damages q then _ else old q) _ _ _ p
  have hkeep : ∀ q, commit.damages q = false →
      old q = if commit.damages q then commit.picture q else old q := fun q hq => by
    rw [hq, if_neg Bool.false_ne_true]
  cases hdamage : commit.hasDamage with
  | false =>
    have hnone : ∀ q, commit.damages q = false := fun q => by
      by_contra hq
      rw [hasDamage_of_damages (by simpa using hq)] at hdamage
      cases hdamage
    exact congrArg (fun f => ρ.sample f _ _ _ p) (funext fun q => hkeep q (hnone q))
  | true =>
    cases type with
    | output target =>
      rw [touches_of_not_area (by simp), hdamage] at hnot
      cases hnot
    | fullscreen =>
      rw [touches_of_not_area (by simp), hdamage] at hnot
      cases hnot
    | area area =>
      rw [touches_area, hdamage, Bool.true_and, Bool.or_eq_false_iff] at hnot
      obtain ⟨hpart, hmiss⟩ := hnot
      refine hlocal _ _ _ _ _ _ (by simpa using hpart) (fun q hq => hkeep q ?_) hp
      by_contra hdam
      rw [Bool.not_eq_false, Commit.damages, Bool.and_eq_true, List.any_eq_true] at hdam
      obtain ⟨-, box, hbox, hin⟩ := hdam
      have hany : (commit.damage.any fun box => (wlrBoxIntersection (coverRect req.src) box).isSome) = true :=
        List.any_eq_true.2 ⟨box, hbox, intersection_isSome hq hin⟩
      rw [hany] at hmiss
      cases hmiss

/-- The box is inside of a buffer of that size. -/
def fits (size : Option (ℤ × ℤ)) (box : Box) : Bool :=
  match size with
  | none => false
  | some (width, height) => decide (0 ≤ box.x) && decide (0 ≤ box.y) &&
    decide (box.x + box.width ≤ width) && decide (box.y + box.height ≤ height)

end FlakeWm.Captures
