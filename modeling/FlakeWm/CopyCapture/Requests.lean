import FlakeWm.CopyCapture.Loops

/-! What the requests of the clients and the updates of the backends keep. -/

namespace FlakeWm.CopyCapture

open State

variable {s t : State} {f k i : ℕ} {frame : Frame} {session : Session} {source source' : Source}

/-- An update copies to a frame that waits in a running session of the source, when the attached buffer has
    the size of the new image. -/
def updateCopies (s : State) (i : ℕ) (buffer : Buffer) (f : ℕ) : Bool :=
  (s.frames f).any fun frame => frame.capturing && fits frame buffer.width buffer.height &&
    (s.sessions frame.session).any fun session => session.source == i && !session.stopped

/-- A request to capture copies when the session runs and has damage, and the source has an image of the
    size of the attached buffer. -/
def captureCopies (s : State) (f : ℕ) : Bool :=
  (s.frames f).any fun frame => !frame.capturing &&
    (s.sessions frame.session).any fun session => !session.stopped && !regionEmpty session.damage &&
      (s.sources session.source).any fun source => source.buffer.isSome && fits frame source.width source.height

/-- The pixels can be read for every frame to which an event copies. -/
def readable (s : State) : Event → Bool
  | .capture f access read => read || !access || !captureCopies s f
  | .backendUpdate i buffer refused unread => unread.all fun f => refused.contains f || !updateCopies s i buffer f
  | _ => true

/-- An update with another size finds the resources of all running sessions of the source. -/
def announceable (s : State) : Event → Bool
  | .backendUpdate i buffer _ _ => (s.sources i).all fun source => !resizes source buffer ||
      source.sessions.all fun k => (s.sessions k).all fun session => session.stopped || session.resource
  | _ => true

/-- A new image of a source is announced and copied. -/
theorem backendUpdate_spec (h : Sound s) (hreleased : Released s) (hlistening : s.backendListening i = true)
    {buffer : Buffer} {refused unread : List ℕ} (hread : readable s (.backendUpdate i buffer refused unread) = true)
    (hannounce : announceable s (.backendUpdate i buffer refused unread) = true) :
    Sound (s.sourceHandleBackendUpdate i buffer refused unread) ∧
      Released (s.sourceHandleBackendUpdate i buffer refused unread) ∧
      Nested s (s.sourceHandleBackendUpdate i buffer refused unread) := by
  cases hi : s.sources i with
  | none => simp [(h.sane.listening i).backend, hi] at hlistening
  | some source =>
    simp only [sourceHandleBackendUpdate, hi]
    simp only [announceable, hi, Option.all_some, Bool.or_eq_true, Bool.not_eq_true', List.all_eq_true] at hannounce
    simp only [readable, List.all_eq_true, Bool.or_eq_true, List.contains_iff_mem, Bool.not_eq_true'] at hread
    refine held_loop h hreleased hi rfl (fun buffer' hb => ?_) rfl rfl
      fun k session hmem hs hsession t ht hk hframes hsource => ?_
    · rw [← Option.some.inj hb]
      exact ⟨rfl, rfl⟩
    · obtain ⟨l, hti⟩ := hsource
      refine updateSession_spec ht hk (hsession.symm ▸ hti) (fun hresized hrun => ?_)
        fun hrun f frame hf hframe hcapturing hfits hrefused hunread => ?_
      · rcases hannounce with hsame | hall
        · rw [hsame] at hresized
          cases hresized
        · have hkept := hall k hmem
          rw [hs, Option.all_some, Bool.or_eq_true, hrun] at hkept
          exact hkept.resolve_left Bool.false_ne_true
      · have hlive : s.frames f = some frame := (hframes f hf) ▸ hframe
        obtain ⟨frame', hframe', hin⟩ := h.alive.linked.frame_of_session hs hf
        obtain rfl : frame = frame' := Option.some.inj (hlive.symm.trans hframe')
        rcases hread f hunread with hmem' | hnot
        · exact hrefused hmem'
        · simp [updateCopies, hlive, hcapturing, hfits, hin, hs, hsession, hrun] at hnot

/-- A request to capture is taken down before it is handled. -/
theorem capture_spec (h : Sound s) (hf : s.frames f = some frame) {access read : Bool}
    (hread : readable s (.capture f access read) = true) :
    Sound ((s.send (.captureRequested f)).frameHandleCapture f access read) ∧
      Outer s ((s.send (.captureRequested f)).frameHandleCapture f access read) := by
  have hasked := h.send_quiet (e := .captureRequested f) rfl (by simp)
  have hf' : (s.send (.captureRequested f)).frames f = some frame := hf
  have houter := (send_within s (.captureRequested f) 0).toOuter
  simp only [frameHandleCapture, hf']
  split
  · exact ⟨hasked.send_quiet rfl (by simp), houter.trans (send_within _ _ 0).toOuter⟩
  next hfirst =>
    split
    · exact ⟨hasked.send_quiet rfl (by simp), houter.trans (send_within _ _ 0).toOuter⟩
    next hbuffer =>
      have hset := hasked.setFrame hf' { frame with capturing := true } rfl
        fun _ => ⟨List.mem_cons_self, by simpa [Option.isNone_iff_eq_none, Option.isSome_iff_ne_none] using hbuffer⟩
      have houter' : Outer s ((s.send (.captureRequested f)).setFrame f { frame with capturing := true }) :=
        houter.trans (.of_same rfl rfl rfl rfl rfl rfl)
      have hself := setFrame_self (s.send (.captureRequested f)) f { frame with capturing := true }
      obtain ⟨session, source, hk, _, hi, _⟩ := h.alive.linked.of_frame hf
      have hk' : ((s.send (.captureRequested f)).setFrame f { frame with capturing := true }).sessions frame.session =
          some session := hk
      have hi' : ((s.send (.captureRequested f)).setFrame f { frame with capturing := true }).sources session.source =
          some source := hi
      simp only [startCapture, hk', hi']
      split
      · obtain ⟨hsound, hwithin⟩ := frameFail_spec hset hself .stopped
        exact ⟨hsound, houter'.trans hwithin.toOuter⟩
      next hrun =>
        split
        next himage =>
          rw [Bool.and_eq_true, Bool.not_eq_true'] at himage
          obtain ⟨hsound, hwithin⟩ := frameCopy_spec hset hself hk' hi' rfl
            (by simpa using hrun) (fun _ _ => himage.2) access read fun hfits haccess => by
              have hfits' : fits frame source.width source.height = true := hfits
              simpa [readable, captureCopies, hf, hk, hi, haccess, hfirst, hrun, himage, hfits'] using hread
          exact ⟨hsound, houter'.trans hwithin.toOuter⟩
        · exact ⟨hset, houter'⟩

theorem attachBuffer_spec (h : Sound s) (hf : s.frames f = some frame) (buffer : Option Buffer) :
    Sound (s.frameHandleAttachBuffer f buffer) ∧ Outer s (s.frameHandleAttachBuffer f buffer) := by
  simp only [frameHandleAttachBuffer, hf]
  split
  · exact ⟨h.send_quiet rfl (by simp), (send_within _ _ 0).toOuter⟩
  next hnot =>
    cases buffer with
    | none => exact ⟨h.send_quiet rfl (by simp), (send_within _ _ 0).toOuter⟩
    | some buffer =>
      exact ⟨h.setFrame hf _ rfl fun hcapturing => absurd hcapturing hnot, .of_same rfl rfl rfl rfl rfl rfl⟩

theorem damageBuffer_spec (h : Sound s) (hf : s.frames f = some frame) (x y width height : ℤ) :
    Sound (s.frameHandleDamageBuffer f x y width height) ∧ Outer s (s.frameHandleDamageBuffer f x y width height) := by
  simp only [frameHandleDamageBuffer, hf]
  split
  · exact ⟨h.send_quiet rfl (by simp), (send_within _ _ 0).toOuter⟩
  next hnot =>
    split
    · exact ⟨h.send_quiet rfl (by simp), (send_within _ _ 0).toOuter⟩
    · exact ⟨h.setFrame hf _ rfl fun hcapturing => absurd hcapturing hnot, .of_same rfl rfl rfl rfl rfl rfl⟩

/-- The resource of a frame is destroyed, which ends the frame without a word. -/
theorem destroyFrame_spec (h : Sound s) (hf : s.frames f = some frame) :
    Sound (s.frameFinish f) ∧ Outer s (s.frameFinish f) := by
  have hshrinks := frameFinish_shrinks hf
  refine ⟨⟨hshrinks.sane h.sane, ?_, (frameFinish_fault h.alive.linked hf).trans h.fine⟩, hshrinks.toOuter⟩
  rw [frameFinish_links h.alive.linked]
  exact finishFrame_alive h.alive f

theorem Sane.clearSessionData (h : Sane s) (k : ℕ) : Sane (s.clearSessionData k) :=
  ⟨{ h.numbered with }, { h.logged with }, h.sized, fun i => ⟨(h.listening i).backend, (h.listening i).target⟩⟩

theorem Sane.clearSourceData (h : Sane s) (i : ℕ) : Sane (s.clearSourceData i) :=
  ⟨{ h.numbered with }, { h.logged with }, h.sized, fun i => ⟨(h.listening i).backend, (h.listening i).target⟩⟩

/-- The resource of a session is destroyed. -/
theorem destroySession_spec (h : Sound s) (hk : s.sessions k = some session) :
    Sound (s.sessionHandleResourceDestroy k) ∧ Outer s (s.sessionHandleResourceDestroy k) := by
  simp only [sessionHandleResourceDestroy, hk]
  obtain ⟨source, hi, _⟩ := h.alive.linked.of_session hk
  have hlinks : ((s.setSession k { session with resource := false }).clearSessionData k).links =
      s.links.loseSession k session.link := by
    simp only [State.links, State.setSession, State.clearSessionData, Links.loseSession, map_update, Option.map_some]
    rfl
  have hlinked := h.alive.linked.loseSession (links_session hk)
  rw [← hlinks] at hlinked
  have hself : ((s.setSession k { session with resource := false }).clearSessionData k).sessions k =
      some { session with resource := false } := Function.update_self ..
  have hset := h.sane.setSession hk { session with resource := false } id
  have houter : Outer s ((s.setSession k { session with resource := false }).clearSessionData k) :=
    .of_same rfl rfl rfl rfl rfl rfl
  have hshrinks := sessionMaybeDestroy_shrinks ((s.setSession k { session with resource := false }).clearSessionData k) k
  refine ⟨⟨hshrinks.sane (hset.clearSessionData k), ?_, ?_⟩, houter.trans hshrinks.toOuter⟩
  · rw [sessionMaybeDestroy_links _ _ hlinked, hlinks]
    exact loseSession_alive h.alive (links_session hk)
  · exact (sessionMaybeDestroy_fault hself hi).trans h.fine

/-- The resource of a source is destroyed. -/
theorem destroySource_spec (h : Sound s) (hreleased : Released s) (hi : s.sources i = some source) :
    Sound (s.sourceHandleResourceDestroy i) ∧ Released (s.sourceHandleResourceDestroy i) ∧
      (s.sourceHandleResourceDestroy i).creating = s.creating := by
  simp only [sourceHandleResourceDestroy, hi]
  have hset := h.sane.setSource_same hi { source with resource := false } (h.sane.sized i source hi) rfl rfl
  have hlinks : ((s.setSource i { source with resource := false }).clearSourceData i).links =
      s.links.loseSource i source.link := by
    simp only [State.links, State.setSource, State.clearSourceData, Links.loseSource, map_update, Option.map_some]
    rfl
  have hself : ((s.setSource i { source with resource := false }).clearSourceData i).sources i =
      some { source with resource := false } := Function.update_self ..
  have hshrinks := sourceMaybeDestroy_shrinks ((s.setSource i { source with resource := false }).clearSourceData i) i 0
  refine ⟨⟨hshrinks.sane (hset.clearSourceData i), ?_, ?_⟩, fun i' source' hs => ?_, hshrinks.creating⟩
  · rw [sourceMaybeDestroy_links, hlinks]
    exact loseSource_alive h.alive (links_source hi)
  · exact (sourceMaybeDestroy_fault hself).trans h.fine
  · obtain ⟨source'', l, hs', rfl⟩ := hshrinks.sources i' source' hs
    by_cases hi' : i' = i
    · subst hi'
      rw [← Option.some.inj (hself.symm.trans hs')]
      exact hreleased i' source hi
    · exact hreleased i' source'' ((Function.update_of_ne hi' _ _).symm.trans hs')

end FlakeWm.CopyCapture
