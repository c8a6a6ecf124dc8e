import FlakeWm.Captures.Freshness

/-! What capture buffers show when outputs move or come. -/

namespace FlakeWm.Captures

variable {Pixel : Type} {ρ : Renderer Pixel} {s t t' : State Pixel} {b o : ℕ}

/-! ### Sizes -/

theorem unionRect_comm (region : Option (ℤ × ℤ × ℤ × ℤ)) (a b : Box) :
    unionRect (unionRect region a) b = unionRect (unionRect region b) a := by
  obtain rfl | ⟨x1, y1, x2, y2, rfl⟩ : region = none ∨ ∃ x1 y1 x2 y2, region = some (x1, y1, x2, y2) := by
    cases region with
    | none => exact .inl rfl
    | some e => exact .inr ⟨e.1, e.2.1, e.2.2.1, e.2.2.2, rfl⟩
  all_goals
    simp only [unionRect]
    cases wlrBoxEmpty a <;> cases wlrBoxEmpty b <;>
      simp [min_comm, max_comm, min_left_comm, max_left_comm]

/-- The extents of boxes do not depend on their order. -/
theorem extentsSize_perm {l l' : List Box} (h : l.Perm l') : extentsSize l = extentsSize l' := by
  have hcomm : RightCommutative unionRect := ⟨unionRect_comm⟩
  rw [extentsSize, extentsSize, h.foldl_eq]

/-- The size depends on the destination boxes of the requests. -/
theorem neededSize_eq (htype : (t.buffer b).type = (s.buffer b).type)
    (hperm : ((t.requestsOf b).map fun r => (t.request r).dst).Perm
      ((s.requestsOf b).map fun r => (s.request r).dst)) : t.neededSize b = s.neededSize b := by
  rw [State.neededSize, State.neededSize, htype, extentsSize_perm hperm]

theorem Untouched.requestsOf_perm (h : Untouched b s t) (hs : s.requests.Nodup) (ht : t.requests.Nodup) :
    (t.requestsOf b).Perm (s.requestsOf b) := by
  refine (List.perm_ext_iff_of_nodup (ht.filter _) (hs.filter _)).2 fun r => ?_
  change r ∈ t.requestsOf b ↔ r ∈ s.requestsOf b
  rw [State.mem_requestsOf, State.mem_requestsOf]
  constructor
  · rintro ⟨hr, hrb⟩
    obtain ⟨hr', heq⟩ := h.old r hr hrb
    exact ⟨hr', heq ▸ hrb⟩
  · rintro ⟨hr, hrb⟩
    obtain ⟨hr', heq⟩ := h.requests r hr hrb
    exact ⟨hr', heq ▸ hrb⟩

/-! ### Outputs that move -/

/-- The box is inside of the other. -/
def boxInside (a b : Box) : Bool :=
  decide (b.x ≤ a.x) && decide (b.y ≤ a.y) && decide (a.x + a.width ≤ b.x + b.width) &&
    decide (a.y + a.height ≤ b.y + b.height)

theorem inBox_of_inside {a b : Box} {p : ℤ × ℤ} (h : boxInside a b = true) (hp : inBox a p = true) :
    inBox b p = true := by
  simp only [boxInside, Bool.and_eq_true, decide_eq_true_eq] at h
  rw [inBox_iff] at hp ⊢
  omega

/-- A request gets its new boxes on the moved output. -/
def withBoxes (s : State Pixel) (o : ℕ) (shape : Shape) (r : ℕ) (dst : Box) (src : FBox) : State Pixel :=
  (s.setShape o shape).setRequest r { s.request r with dst := dst, src := src }

/-- What is asked when an output moves, for one of the requests on it: its boxes stay as they are, or
    the buffer gets another size, or the request is to be blitted anyway and leaves no part of an area. If
    it goes, the other requests of the area are not marked as done. -/
def moveOk (ρ : Renderer Pixel) (s : State Pixel) (o : ℕ) (shape : Shape) (ok : ℕ → Bool) (r : ℕ) : Bool :=
  let req := s.request r
  let buffer := s.buffer req.buffer
  match (s.setShape o shape).calcBox ρ buffer.type buffer.options o with
  | none => disableOk s r
  | some (dst, src) =>
    decide (dst = req.dst) && decide (src = req.src) && decide (shape.transform = (s.shape o).transform) ||
    ok req.buffer && decide (buffer.size ≠ some ((withBoxes s o shape r dst src).neededSize req.buffer)) ||
    !req.blitDone && buffer.wasDamaged &&
      match buffer.type with
      | .area _ => boxInside req.dst dst
      | _ => true

/-- The buffer after a request got its new boxes and the buffer was not allocated anew. -/
theorem withBoxes_shown {outs bufs : List ℕ} {shape : Shape} (ok : ℕ → Bool) {r : ℕ} {dst : Box} {src : FBox}
    (hlinked : Linked outs bufs s) (hshown : Shown ρ s b) (hrs : r ∈ s.requests) (hb : (s.request r).buffer = b)
    (hro : (s.request r).output = o) (hun : Untouched b s t) (hframe : t.frame = s.frame)
    (hshape : t.shape = (s.setShape o shape).shape)
    (hbox : (s.setShape o shape).calcBox ρ (s.buffer b).type (s.buffer b).options o = some (dst, src))
    (hok : moveOk ρ s o shape ok r = true) (hsame : ok b = true →
      (s.buffer b).size = some ((withBoxes s o shape r dst src).neededSize b)) :
    Shown ρ (t.setRequest r { s.request r with dst := dst, src := src }) b := by
  obtain ⟨hr, hreq⟩ := hun.requests r hrs hb
  have hothers := hun.others_fresh hlinked hshown hrs hb hro (fun _ _ => by rw [hframe])
    fun o' hne => by rw [hshape]; exact Function.update_of_ne hne _ _
  have hother : ∀ r' ≠ r, (t.setRequest r { s.request r with dst := dst, src := src }).request r' = t.request r' :=
    fun r' hne => t.setRequest_of_ne hne _
  rw [moveOk, hb] at hok
  rw [hbox] at hok
  simp only [Bool.or_eq_true, Bool.and_eq_true, decide_eq_true_eq] at hok
  rcases hok with (⟨⟨rfl, rfl⟩, htransform⟩ | ⟨hok, hne⟩) | ⟨⟨hnot, hdamaged⟩, hinside⟩
  · -- the boxes and the transform stay
    have heq : t.setRequest r { s.request r with dst := (s.request r).dst, src := (s.request r).src } = t := by
      rw [State.setRequest, ← hreq, Function.update_eq_self]
    rw [heq]
    refine ⟨fun r' hr' hrb hdone => ?_, fun area harea p hp => ?_⟩
    · rcases eq_or_ne r' r with rfl | hne
      · rw [hreq, hun.buffer] at hdone
        obtain ⟨picture, hf, hpixels⟩ := hshown.fresh r' hrs hb hdone
        refine ⟨picture, by rw [hreq, hframe, hf], fun p hp => ?_⟩
        rw [hreq] at hp
        rw [hun.buffer, hreq, hpixels p hp, hshape, hro]
        dsimp only
        rw [← htransform]
        simp [State.setShape]
      · exact hothers r' hr' hrb hne hdone
    · rw [hun.buffer] at harea ⊢
      refine hshown.clear area harea p fun r' hr' hrb => ?_
      obtain ⟨hr'', heq⟩ := hun.requests r' hr' hrb
      rw [← heq]
      exact hp r' hr'' (heq ▸ hrb)
  · exact absurd (hsame hok) hne
  · -- the request is to be blitted and leaves no part
    refine ⟨fun r' hr' hrb hdone => ?_, fun area harea p hp => ?_⟩
    · rcases eq_or_ne r' r with rfl | hne
      · rw [State.setRequest_self] at hdone
        change (s.request r').blitDone = true ∨ (t.buffer b).wasDamaged = false at hdone
        rw [hun.buffer, hdamaged] at hdone
        simp only [Bool.true_eq_false, or_false] at hdone
        rw [hdone] at hnot
        cases hnot
      · rw [hother r' hne] at hrb hdone
        rw [FreshIn, hother r' hne]
        exact hothers r' hr' hrb hne hdone
    · change (t.buffer b).type = .area area at harea
      change (t.buffer b).pixels p = ρ.clear
      rw [hun.buffer] at harea ⊢
      rw [harea] at hinside
      refine hshown.clear area harea p fun r' hr' hrb => ?_
      obtain ⟨hr'', heq⟩ := hun.requests r' hr' hrb
      rcases eq_or_ne r' r with rfl | hne
      · have hout := hp r' hr'' (by rw [State.setRequest_self]; exact hb)
        rw [State.setRequest_self] at hout
        by_contra hin
        rw [inBox_of_inside hinside (by simpa using hin)] at hout
        cases hout
      · have hout := hp r' hr'' (by rw [hother r' hne, heq]; exact hrb)
        rwa [hother r' hne, heq] at hout

theorem withBoxes_neededSize {outs bufs bufs' : List ℕ} (shape : Shape) {r : ℕ} (dst : Box) (src : FBox)
    (hs : Linked outs bufs s) (ht : Linked outs bufs' t) (hrs : r ∈ s.requests) (hb : (s.request r).buffer = b)
    (hun : Untouched b s t) :
    (t.setRequest r { s.request r with dst := dst, src := src }).neededSize b =
      (withBoxes s o shape r dst src).neededSize b := by
  have hreq := (hun.requests r hrs hb).2
  have htype : (t.buffer b).type = (s.buffer b).type := by rw [hun.buffer]
  refine neededSize_eq htype ?_
  have hof_t := (t.setRequest_same (r := r) (x := { s.request r with dst := dst, src := src })
    (by rw [hreq]) (by rw [hreq]) (by rw [hreq])).requestsOf b
  have hof_s : (withBoxes s o shape r dst src).requestsOf b = s.requestsOf b :=
    ((s.setShape o shape).setRequest_same (r := r) (x := { s.request r with dst := dst, src := src })
      rfl rfl rfl).requestsOf b
  rw [hof_t, hof_s]
  refine ((hun.requestsOf_perm hs.nodup ht.nodup).map _).trans (List.Perm.of_eq ?_)
  refine List.map_congr_left fun r' hr' => ?_
  obtain ⟨hr', hrb⟩ := s.mem_requestsOf.1 hr'
  rcases eq_or_ne r' r with rfl | hne
  · rw [withBoxes, State.setRequest_self, State.setRequest_self]
  · rw [withBoxes, t.setRequest_of_ne hne, (s.setShape o shape).setRequest_of_ne hne,
      (hun.requests r' hr' hrb).2]
    rfl

/-- A request gets its new boxes on the moved output, or goes. -/
theorem Losing.move {shape : Shape} {ok : ℕ → Bool} {r : ℕ} {rest : List ℕ}
    (h : Losing ρ o s.outputs (r :: rest) s t) (hs : Sound none s) (hshown : AllShown ρ s)
    (hok : moveOk ρ s o shape ok r = true) (hshape : t.shape = (s.setShape o shape).shape)
    (houtputs : t.outputs = s.outputs) :
    Losing ρ o s.outputs rest s (t.moveRequest ρ ok r) ∧
      (t.moveRequest ρ ok r).shape = t.shape ∧ (t.moveRequest ρ ok r).outputs = t.outputs := by
  have hrs := s.mem_requestsOn.1 (h.mem r List.mem_cons_self)
  obtain ⟨hr, hro⟩ := h.pending.live r List.mem_cons_self
  have hun := h.progress.pending r List.mem_cons_self
  have hreq := (hun.requests r hrs.1 rfl).2
  have hmem := h.linked.buffer_mem r hr
  have hbox_eq : t.calcBox ρ (t.buffer (t.request r).buffer).type (t.buffer (t.request r).buffer).options
      (t.request r).output = (s.setShape o shape).calcBox ρ (s.buffer (s.request r).buffer).type
        (s.buffer (s.request r).buffer).options o := by
    rw [hreq, hun.buffer, hrs.2]
    exact calcBox_congr (s := s.setShape o shape) houtputs hshape _ _ _
  rw [State.moveRequest, hbox_eq]
  cases hbox : (s.setShape o shape).calcBox ρ (s.buffer (s.request r).buffer).type
      (s.buffer (s.request r).buffer).options o with
  | none =>
    rw [moveOk] at hok
    rw [hbox] at hok
    obtain ⟨h', hshape'⟩ := h.destroy hs.1 hshown hok fun o' hne => by
      rw [hshape]
      exact Function.update_of_ne hne _ _
    exact ⟨h', hshape', (captureRequestDestroy_dropped (s := t) ρ (h.kept.idle _ hmem (by simp)).1).outputs⟩
  | some box =>
    obtain ⟨dst, src⟩ := box
    dsimp only
    rw [hreq]
    rw [hreq] at hmem
    have hshown₁ := withBoxes_shown (ρ := ρ) ok hs.1 (hshown.1 _ (hs.1.buffer_mem r hrs.1)) hrs.1 rfl
      hrs.2 hun h.frame hshape hbox hok
    have hsize := withBoxes_neededSize (o := o) shape dst src hs.1 h.linked
      hrs.1 rfl hun
    generalize hs₁ : t.setRequest r { s.request r with dst := dst, src := src } = t₁ at hshown₁ hsize ⊢
    generalize hb : (s.request r).buffer = b at *
    have hsame₁ : SameLinks t t₁ := by
      rw [← hs₁]
      exact t.setRequest_same (by rw [hreq]) (by rw [hreq]) (by rw [hreq])
    have hfields : t₁.frame = t.frame ∧ t₁.updates = t.updates ∧ t₁.buffer = t.buffer ∧
        t₁.capture = t.capture := by
      rw [← hs₁]
      exact ⟨rfl, rfl, rfl, rfl⟩
    have hlinked₁ : Linked s.outputs t₁.buffers t₁ := by
      rw [hsame₁.buffers]
      exact hsame₁.linked h.linked
    have hkept₁ : Kept none t₁ := hsame₁.kept h.kept fun b' hb' hne => by
      rw [hfields.2.2.1]
      exact h.kept.idle b' hb' hne
    have hrequest₁ : ∀ r' ≠ r, t₁.request r' = t.request r' := fun r' hne => by
      rw [← hs₁]
      exact t.setRequest_of_ne hne _
    have hapart₁ : Apart ρ b t t₁ := by
      refine ⟨hfields.1, hsame₁.shape, fun b' _ hne => ⟨by rw [hfields.2.2.1], fun r' hr' hrb => ?_,
        fun r' hr' hrb => ?_, fun c hc _ => ⟨hsame₁.captures ▸ hc, by rw [hfields.2.2.2]⟩⟩,
        fun b' hb' => .inl (hsame₁.buffers ▸ hb')⟩
      · exact ⟨hsame₁.requests ▸ hr', hrequest₁ r' fun heq => hne (by rw [← hrb, heq, hreq, hb])⟩
      · rw [hsame₁.request_buffer] at hrb
        rw [hsame₁.requests] at hr'
        exact ⟨hr', hrequest₁ r' fun heq => hne (by rw [← hrb, heq, hreq, hb])⟩
    have hcurrent₁ : Current ρ t₁ := by
      rw [Current, hfields.2.1]
      exact h.current
    have hrest := h.pending.rest hs.1 h.linked h.progress h.mem
    have hpending : ∀ t₂ : State Pixel, SameLinks t t₂ → Pending o rest t₂ := fun t₂ hsame =>
      ⟨(List.nodup_cons.1 h.pending.nodup).2, fun r' hr' => by
        rw [hsame.requests, hsame.request_output]
        exact h.pending.live r' (List.mem_cons_of_mem _ hr')⟩
    have hmem' : ∀ r' ∈ rest, r' ∈ s.requestsOn o := fun r' hr' => h.mem r' (List.mem_cons_of_mem _ hr')
    have hsize₁ : (t₁.buffer b).size = (s.buffer b).size := by rw [hfields.2.2.1, hun.buffer]
    rw [State.reallocate]
    have hstay : (ok b = true → (s.buffer b).size = some ((withBoxes s o shape r dst src).neededSize b)) →
        Losing ρ o s.outputs rest s t₁ ∧ t₁.shape = t.shape ∧ t₁.outputs = t.outputs := by
      refine fun hstays => ⟨⟨hlinked₁, hkept₁, hpending t₁ hsame₁, h.progress.step ?_ ?_ hrest,
        hfields.1.trans h.frame, hcurrent₁, hmem'⟩, hsame₁.shape, hsame₁.outputs⟩
      · rw [hb]
        exact hapart₁
      · rw [hb]
        exact fun _ => hshown₁ hstays
    rcases t₁.captureBufferAllocate_cases ρ (ok b) (hkept₁.has_request b (hsame₁.buffers ▸ hmem)) with
      ⟨heq, h₂⟩ | ⟨-, hnot, h₂⟩ | ⟨-, -, t₂, h₂, hre⟩
    · rw [h₂]
      exact hstay fun _ => by rw [← hsize₁, heq, hsize]
    · rw [h₂]
      exact hstay fun hyes => absurd (hyes.symm.trans hnot) (by simp)
    · rw [h₂]
      dsimp only
      have hsame := hsame₁.trans hre.same
      refine ⟨⟨?_, hre.same.kept hkept₁ fun b' hb' hne => ?_, hpending t₂ hsame, h.progress.step ?_ ?_ hrest,
        hre.frame.trans (hfields.1.trans h.frame), by rw [Current, hre.updates]; exact hcurrent₁, hmem'⟩,
        hsame.shape, hsame.outputs⟩
      · rw [hre.same.buffers]
        exact hre.same.linked hlinked₁
      · rw [(hre.flags b').1, (hre.flags b').2]
        exact hkept₁.idle b' hb' hne
      · rw [hb]
        refine ⟨hre.frame.trans hfields.1, hsame.shape, fun b' hb' hne => ?_, fun b' hb' =>
          .inl (hsame.buffers ▸ hb')⟩
        exact (hapart₁.others b' hb' hne).trans (hre.apart.others b' (hsame₁.buffers ▸ hb') hne)
      · rw [hb]
        exact fun _ => hre.shown

/-! ### Requests on an output that moved or came -/

/-- A new request is right if the buffer is to be blitted anyway. -/
theorem Grown.shown (h : Grown b t t') (hlt : ∀ r ∈ t.requests, r < t.next) (hs : Shown ρ t b)
    (hdamaged : (t.buffer b).wasDamaged = true) : Shown ρ t' b := by
  refine ⟨fun r hr hrb hdone => ?_, fun area harea p hp => ?_⟩
  · rw [h.buffer] at hdone
    rcases h.new r hr with hr | ⟨-, -, hnot⟩
    · rw [h.old r (hlt r hr)] at hrb hdone
      rw [FreshIn, h.frame, h.shape, h.buffer, h.old r (hlt r hr)]
      exact hs.fresh r hr hrb hdone
    · rw [hnot, hdamaged] at hdone
      simp at hdone
  · rw [h.buffer] at harea ⊢
    refine hs.clear area harea p fun r hr hrb => ?_
    have hout := hp r (h.kept r hr) (by rw [h.old r (hlt r hr)]; exact hrb)
    rwa [h.old r (hlt r hr)] at hout

/-- An area that has no request on the output gets none there or is to be blitted anyway. -/
def Enters (ρ : Renderer Pixel) (o : ℕ) (t : State Pixel) (b : ℕ) : Prop :=
  ∀ area, (t.buffer b).type = .area area → HasRequest t b o ∨
    t.calcBox ρ (t.buffer b).type (t.buffer b).options o = none ∨ (t.buffer b).wasDamaged = true

theorem Enters.congr (h : Enters ρ o t b) (hbuffer : t'.buffer b = t.buffer b) (hout : t'.outputs = t.outputs)
    (hshape : t'.shape = t.shape) (hreq : HasRequest t b o → HasRequest t' b o) : Enters ρ o t' b := by
  intro area harea
  rw [hbuffer] at harea ⊢
  rw [calcBox_congr hout hshape]
  exact (h area harea).imp_left hreq

theorem Untouched.hasRequest (h : Untouched b t t') (hr : HasRequest t b o) : HasRequest t' b o := by
  obtain ⟨r, hr, hrb, hro⟩ := hr
  obtain ⟨hr', heq⟩ := h.requests r hr hrb
  exact ⟨r, hr', by rw [heq, hrb], by rw [heq, hro]⟩

end FlakeWm.Captures
