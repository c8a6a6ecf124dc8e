import FlakeWm.CopyCapture.Log

/-! What the functions that end frames and stop sessions keep, and the two loops over the sessions of a
    source. -/

namespace FlakeWm.CopyCapture

open State

variable {s t : State} {f k i : ℕ} {frame : Frame} {session : Session} {source : Source} {e : Entry}

/-- The objects and what was sent agree, only what is needed lives, and nothing freed was used. -/
structure Sound (s : State) : Prop where
  sane : Sane s
  alive : Alive s.links
  fine : s.fault = false

theorem Sound.send_quiet (h : Sound s) (hto : e.sentTo = none) (hstopped : ∀ k, e ≠ .stopped k) : Sound (s.send e) :=
  ⟨h.sane.send_quiet hto hstopped, h.alive, h.fine⟩

/-- Sending to a frame that lives what does not end it. -/
theorem Sound.send_to (h : Sound s) (hf : s.frames f = some frame) (hends : e.ends = none) (hto : e.sentTo = some f) :
    Sound (s.send e) := by
  refine ⟨h.sane.send hends (fun f' hf' => ⟨frame, ?_⟩) fun k heq => ?_, h.alive, h.fine⟩
  · rw [← Option.some.inj (hto.symm.trans hf'), hf]
  · simp [heq, Entry.sentTo] at hto

theorem Sound.setSession (h : Sound s) (hk : s.sessions k = some session) (session' : Session)
    (hlink : session'.link = session.link) (hstopped : session.stopped = true → session'.stopped = true) :
    Sound (s.setSession k session') :=
  ⟨h.sane.setSession hk session' hstopped, by rw [setSession_links hk hlink]; exact h.alive, h.fine⟩

theorem Sound.setFrame (h : Sound s) (hf : s.frames f = some frame) (frame' : Frame)
    (hsession : frame'.session = frame.session)
    (hwaiting : frame'.capturing = true → .captureRequested f ∈ s.trace ∧ frame'.buffer.isSome = true) :
    Sound (s.setFrame f frame') :=
  ⟨h.sane.setFrame hf frame' hwaiting, by rw [setFrame_links hf hsession]; exact h.alive, h.fine⟩

theorem Sound.paint (h : Sound s) (pixels : ℕ → ℕ) : Sound { s with pixels := pixels } where
  sane := ⟨{ h.sane.numbered with }, { h.sane.logged with }, h.sane.sized,
    fun i => ⟨(h.sane.listening i).backend, (h.sane.listening i).target⟩⟩
  alive := h.alive
  fine := h.fine

/-- A frame that lives is told that it has ended, and freed. -/
theorem Sound.ended (h : Sound s) (hf : s.frames f = some frame) (hends : e.ends = some f)
    (hrunning : ∀ k, e.readySession = some k → .stopped k ∉ s.trace)
    (hready : ∀ f' shot, e = .ready f' shot → shot.Good ∧ .captureRequested f' ∈ s.trace) :
    Sound ((s.send e).frameFinish f) where
  sane := h.sane.ended hf hends hrunning hready
  alive := by
    rw [frameFinish_links (s := s.send e) h.alive.linked]
    exact finishFrame_alive h.alive f
  fine := (frameFinish_fault (s := s.send e) h.alive.linked hf).trans h.fine

theorem frameFail_spec (h : Sound s) (hf : s.frames f = some frame) (reason : FailureReason) :
    Sound (s.frameFail f reason) ∧ Within s (s.frameFail f reason) frame.session := by
  simp only [frameFail, hf]
  refine ⟨h.ended hf rfl (fun k hk => nomatch hk) (fun _ _ heq => nomatch heq), ?_⟩
  exact (send_within s _ _).trans (frameFinish_shrinks (s := s.send _) hf).toWithin

/-- The buffer that is attached to a frame has the given size. -/
def fits (frame : Frame) (width height : ℕ) : Bool :=
  match frame.buffer with
  | none => false
  | some attached => attached.width == width && attached.height == height

/-- The pixels of the source are in the attached buffer when they could be read. -/
theorem captureReadBuffer_pixels (s : State) (current attached : Buffer) :
    (s.captureReadBuffer current attached true).pixels attached.id =
      (s.captureReadBuffer current attached true).pixels current.id := by
  by_cases hid : current.id = attached.id
  · rw [hid]
  · simp [captureReadBuffer, Function.update_of_ne hid]

theorem captureReadBuffer_spec (h : Sound s) (current attached : Buffer) (read : Bool) (k : ℕ) :
    Sound (s.captureReadBuffer current attached read) ∧ Within s (s.captureReadBuffer current attached read) k := by
  cases read with
  | false => exact ⟨h, .refl s k⟩
  | true => exact ⟨h.paint _, .of_same rfl rfl rfl rfl rfl rfl, fun _ _ => rfl, fun _ _ => rfl⟩

/-- A frame for which everything is there is told so and freed. -/
theorem sendReady_spec (h : Sound s) (hf : s.frames f = some frame) (hk : s.sessions frame.session = some session)
    (hrun : session.stopped = false) (hrequested : .captureRequested f ∈ s.trace) {current attached : Buffer}
    (hwidth : attached.width = current.width) (hheight : attached.height = current.height)
    (hpixels : s.pixels attached.id = s.pixels current.id) (hdamage : regionEmpty session.damage = false) :
    Sound ((s.sendReady f frame.session session current attached).frameFinish f) ∧
      Within s ((s.sendReady f frame.session session current attached).frameFinish f) frame.session := by
  have hdamaged := h.send_to (e := .damage f session.damage) hf rfl rfl
  have hcleared := hdamaged.setSession (k := frame.session) hk { session with damage := [] } rfl id
  have htransformed := hcleared.send_to (e := .transform f) hf rfl rfl
  have htimed := htransformed.send_to (e := .presentationTime f) hf rfl rfl
  constructor
  · refine htimed.ended hf rfl (fun k hk' hmem => ?_) fun f' shot heq => ?_
    · obtain rfl := Option.some.inj hk'
      have hstopped : .stopped frame.session ∈ s.trace := by simpa [State.send, State.setSession] using hmem
      rw [h.sane.logged.running _ session hk hstopped] at hrun
      cases hrun
    · obtain ⟨rfl, rfl⟩ := Entry.ready.inj heq
      refine ⟨⟨hwidth, hheight, hpixels, hdamage⟩, ?_⟩
      simpa [State.send, State.setSession] using hrequested
  · have hsent : Within s (s.sendReady f frame.session session current attached) frame.session :=
      ((((send_within s _ _).trans (setSession_within _ _ _)).trans (send_within _ _ _)).trans (send_within _ _ _)).trans
        (send_within _ _ _)
    exact hsent.trans (frameFinish_shrinks (s := s.sendReady f frame.session session current attached) hf).toWithin

/-- `frame_copy` is right for a frame that waits, in a session that has damage when its source has a size. -/
theorem frameCopy_spec (h : Sound s) (hf : s.frames f = some frame) (hk : s.sessions frame.session = some session)
    (hi : s.sources session.source = some source) (hcapturing : frame.capturing = true)
    (hrun : session.stopped = false)
    (hdamage : 0 < source.width → 0 < source.height → regionEmpty session.damage = false) (access read : Bool)
    (hread : fits frame source.width source.height = true → access = true → read = true) :
    Sound (s.frameCopy f access read) ∧ Within s (s.frameCopy f access read) frame.session := by
  obtain ⟨hrequested, hattached⟩ := h.sane.logged.waiting f frame hf hcapturing
  obtain ⟨attached, hattached⟩ := Option.isSome_iff_exists.1 hattached
  simp only [frameCopy, hf, hk, hi, hattached]
  cases hcurrent : source.buffer with
  | none => exact frameFail_spec h hf _
  | some current =>
    obtain ⟨hwidth, hheight⟩ := h.sane.sized _ source hi current hcurrent
    simp only
    split
    · exact frameFail_spec h hf _
    next hsize =>
      simp only [ne_eq, not_or, not_not] at hsize
      split
      next haccess =>
        obtain rfl := hread (by simp [fits, hattached, hsize]) haccess
        have hdamaged := hdamage (hsize.1 ▸ attached.width_pos) (hsize.2 ▸ attached.height_pos)
        obtain ⟨hsound, hwithin⟩ := captureReadBuffer_spec h current attached true frame.session
        obtain ⟨hsound', hwithin'⟩ := @sendReady_spec _ f frame session hsound hf hk hrun hrequested
          current attached (hsize.1.trans hwidth) (hsize.2.trans hheight) (captureReadBuffer_pixels s current attached) hdamaged
        exact ⟨hsound', hwithin.trans hwithin'⟩
      · exact frameFail_spec h hf _

/-- The frame of a session fails: the session is told nothing, and does not start again. -/
theorem failStopped_spec (h : Sound s) (hk : s.sessions k = some session) (hstopped : session.stopped = true) :
    Sound (s.failStopped session.frame) ∧ Within s (s.failStopped session.frame) k ∧
      (.stopped k ∈ (s.failStopped session.frame).trace → .stopped k ∈ s.trace) ∧
      ∀ session', (s.failStopped session.frame).sessions k = some session' → session'.stopped = true := by
  cases hframe : session.frame with
  | none =>
    refine ⟨h, .refl s k, id, fun session' hs => ?_⟩
    rw [← Option.some.inj (hk.symm.trans hs), hstopped]
  | some f =>
    obtain ⟨frame, hf, rfl⟩ := h.alive.linked.frame_of_session hk hframe
    obtain ⟨hsound, hwithin⟩ := frameFail_spec h hf .stopped
    have hshrinks := frameFinish_shrinks (s := s.send (.failed f .stopped)) hf
    simp only [failStopped]
    refine ⟨hsound, hwithin, fun hmem => ?_, fun session' hs => ?_⟩
    · simp only [frameFail, hf, hshrinks.trace] at hmem
      rcases List.mem_cons.1 hmem with heq | hmem
      · cases heq
      · exact hmem
    · simp only [frameFail, hf] at hs
      obtain ⟨session'', hs', heq⟩ := hshrinks.stopped hs
      rw [heq, ← Option.some.inj (hk.symm.trans hs'), hstopped]

/-- `session_stop` tells the frame and the client once. -/
theorem sessionStop_spec (h : Sound s) (hk : s.sessions k = some session) :
    Sound (s.sessionStop k) ∧ Within s (s.sessionStop k) k := by
  simp only [sessionStop, hk]
  split
  · exact ⟨h, .refl s k⟩
  next hnot =>
    have hset := h.setSession hk { session with stopped := true } rfl fun _ => rfl
    have hwithin := setSession_within s k { session with stopped := true }
    obtain ⟨hsound, hwithin', htrace, hstopped⟩ := failStopped_spec hset (Function.update_self ..) rfl
    split
    · refine ⟨⟨hsound.sane.send rfl (fun f hf => by cases hf) fun k' hk' => ?_, hsound.alive, hsound.fine⟩,
        (hwithin.trans hwithin').trans (send_within _ _ _)⟩
      obtain rfl := Entry.stopped.inj hk'
      refine ⟨fun hmem => hnot (h.sane.logged.running k session hk (htrace hmem)), ?_, hstopped⟩
      rw [hwithin'.next]
      exact h.sane.numbered.sessions k session hk
    · exact ⟨hsound, hwithin.trans hwithin'⟩

theorem sessionSendConstraints_spec (h : Sound s) (hk : s.sessions k = some session)
    (hi : s.sources session.source = some source) (hresource : session.resource = true) :
    Sound (s.sessionSendConstraints k) ∧ Within s (s.sessionSendConstraints k) k := by
  simp only [sessionSendConstraints, hk, hi, hresource, if_true]
  refine ⟨?_, ((send_within _ _ k).trans (send_within _ _ k)).trans (send_within _ _ k)⟩
  exact ((h.send_quiet rfl (by simp)).send_quiet rfl (by simp)).send_quiet rfl (by simp)

theorem sessionSendConstraints_same (hk : s.sessions k = some session) (hi : s.sources session.source = some source)
    (hresource : session.resource = true) : (s.sessionSendConstraints k).frames = s.frames ∧
      (s.sessionSendConstraints k).sessions = s.sessions ∧ (s.sessionSendConstraints k).sources = s.sources := by
  simp only [sessionSendConstraints, hk, hi, hresource, if_true]
  exact ⟨rfl, rfl, rfl⟩

/-- The frame of a running session that has damage is copied when it waits. -/
theorem copyWaiting_spec (h : Sound s) (hk : s.sessions k = some session)
    (hi : s.sources session.source = some source) (hrun : session.stopped = false)
    (hdamage : 0 < source.width → 0 < source.height → regionEmpty session.damage = false) {refused unread : List ℕ}
    (hread : ∀ f frame, session.frame = some f → s.frames f = some frame → frame.capturing = true →
      fits frame source.width source.height = true → f ∉ refused → f ∉ unread) :
    Sound (s.copyWaiting refused unread session.frame) ∧ Within s (s.copyWaiting refused unread session.frame) k := by
  cases hframe : session.frame with
  | none => exact ⟨h, .refl s k⟩
  | some f =>
    obtain ⟨frame, hf, rfl⟩ := h.alive.linked.frame_of_session hk hframe
    simp only [copyWaiting, hf]
    split
    next hcapturing =>
      exact frameCopy_spec h hf hk hi hcapturing hrun hdamage _ _ fun hfits haccess =>
        decide_eq_true (hread f frame hframe hf hcapturing hfits (of_decide_eq_true haccess))
    · exact ⟨h, .refl s _⟩

/-- A session gets the whole of its source as damage, and its frame is copied when it waits. -/
theorem damageAndCopy_spec (h : Sound s) (hk : s.sessions k = some session)
    (hi : s.sources session.source = some source) (hrun : session.stopped = false) (refused unread : List ℕ)
    (hread : ∀ f frame, session.frame = some f → s.frames f = some frame → frame.capturing = true →
      fits frame source.width source.height = true → f ∉ refused → f ∉ unread) :
    Sound ((s.addDamage k).copyWaiting refused unread session.frame) ∧
      Within s ((s.addDamage k).copyWaiting refused unread session.frame) k := by
  have hdamaged := h.setSession hk { session with damage := (source.width, source.height) :: session.damage } rfl id
  simp only [addDamage, hk, hi]
  obtain ⟨hsound, hwithin⟩ := copyWaiting_spec hdamaged (Function.update_self ..) hi hrun
    (fun hwidth hheight => by simp [regionEmpty, Nat.ne_of_gt hwidth, Nat.ne_of_gt hheight]) hread
  exact ⟨hsound, (setSession_within s k _).trans hwithin⟩

/-- One round of the loop in `source_handle_backend_update`, for a session that has its resource when the
    size changes and a frame that can be read when it is copied. -/
theorem updateSession_spec (h : Sound s) (hk : s.sessions k = some session)
    (hi : s.sources session.source = some source) {resized : Bool} {refused unread : List ℕ}
    (hresource : resized = true → session.stopped = false → session.resource = true)
    (hread : session.stopped = false → ∀ f frame, session.frame = some f → s.frames f = some frame →
      frame.capturing = true → fits frame source.width source.height = true → f ∉ refused → f ∉ unread) :
    Sound (s.updateSession resized refused unread k) ∧ Within s (s.updateSession resized refused unread k) k := by
  simp only [updateSession, hk]
  split
  · exact ⟨h, .refl s k⟩
  next hnot =>
    have hrun : session.stopped = false := by simpa using hnot
    cases resized with
    | false => exact damageAndCopy_spec h hk hi hrun _ _ (hread hrun)
    | true =>
      obtain ⟨hsound, hwithin⟩ := sessionSendConstraints_spec h hk hi (hresource rfl hrun)
      obtain ⟨hframes, hsessions, hsources⟩ := sessionSendConstraints_same hk hi (hresource rfl hrun)
      obtain ⟨hsound', hwithin'⟩ := damageAndCopy_spec hsound (hsessions ▸ hk) (hsources ▸ hi) hrun
        refused unread (hframes ▸ hread hrun)
      exact ⟨hsound', hwithin.trans hwithin'⟩

end FlakeWm.CopyCapture
