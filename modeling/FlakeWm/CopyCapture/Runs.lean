import FlakeWm.CopyCapture.Requests

/-! Runs of the capture protocol: what holds in every state between two events. -/

namespace FlakeWm.CopyCapture

open State

variable {s s' : State} {f k i : ℕ} {frame : Frame} {session : Session} {source : Source}

/-- What holds between two events. The source of a session that is being created has its resource. -/
structure Inv (s : State) : Prop where
  sound : Sound s
  released : Released s
  creating : ∀ creation, s.creating = some creation → s.sourceData creation.source = true

theorem Outer.released (h : Outer s s') (hreleased : Released s) : Released s' := by
  intro i source' hs
  obtain ⟨source, _, hi, rfl⟩ := h.sources i source' hs
  exact hreleased i source hi

theorem Inv.of_outer (h : Inv s) (hsound : Sound s') (houter : Outer s s') : Inv s' where
  sound := hsound
  released := houter.released h.released
  creating creation hc := by
    rw [houter.data]
    exact h.creating creation (houter.creating ▸ hc)

/-- A number that was not given out belongs to nothing. -/
theorem Numbered.new (h : Numbered s) : s.frames s.next = none ∧ s.sessions s.next = none ∧ s.sources s.next = none := by
  refine ⟨?_, ?_, ?_⟩
  · cases hf : s.frames s.next with
    | none => rfl
    | some frame => exact absurd (h.frames _ frame hf) (Nat.lt_irrefl _)
  · cases hk : s.sessions s.next with
    | none => rfl
    | some session => exact absurd (h.sessions _ session hk) (Nat.lt_irrefl _)
  · cases hi : s.sources s.next with
    | none => rfl
    | some source => exact absurd (h.sources _ source hi) (Nat.lt_irrefl _)

theorem Numbered.never_stopped (h : Numbered s) : .stopped s.next ∉ s.trace := fun hmem =>
  absurd (h.stopped _ hmem) (Nat.lt_irrefl _)

/-- Giving out a number changes nothing else. -/
theorem Sane.give (h : Sane s) : Sane { s with next := s.next + 1 } where
  numbered :=
    { frames := fun f frame hf => Nat.lt_succ_of_lt (h.numbered.frames f frame hf)
      sessions := fun k session hk => Nat.lt_succ_of_lt (h.numbered.sessions k session hk)
      sources := fun i source hi => Nat.lt_succ_of_lt (h.numbered.sources i source hi)
      ends := fun e he f hf => Nat.lt_succ_of_lt (h.numbered.ends e he f hf)
      stopped := fun k hk => Nat.lt_succ_of_lt (h.numbered.stopped k hk) }
  logged := { h.logged with }
  sized := h.sized
  listening i := ⟨(h.listening i).backend, (h.listening i).target⟩

theorem Sound.give (h : Sound s) : Sound { s with next := s.next + 1 } := ⟨h.sane.give, h.alive, h.fine⟩

/-- A resource of a session that has just been created is told that the session has stopped. -/
theorem Sound.send_stopped_new (h : Sound s) : Sound ({ s with next := s.next + 1 }.send (.stopped s.next)) := by
  refine ⟨h.sane.give.send rfl (fun f hf => by cases hf) fun k heq => ?_, h.alive, h.fine⟩
  obtain rfl := Entry.stopped.inj heq
  exact ⟨h.sane.numbered.never_stopped, Nat.lt_succ_self _, fun session hs => by
    simp [h.sane.numbered.new.2.1] at hs⟩

theorem inertSession_spec (h : Inv s) : Inv s.inertSession where
  sound := h.sound.send_stopped_new
  released := h.released
  creating := h.creating

/-- A new session of a source, before it is told about the size of the buffers. -/
def newSession (s : State) (i : ℕ) (source : Source) : State :=
  { ({ s with next := s.next + 1 }.setSession s.next
      { source := i, damage := [(source.width, source.height)] }).setSource i
      { source with sessions := s.next :: source.sessions } with
    sessionData := Function.update s.sessionData s.next true }

theorem newSession_sound (h : Sound s) (hi : s.sources i = some source) : Sound (newSession s i source) := by
  obtain ⟨_, hnone, _⟩ := h.sane.numbered.new
  have hset := h.sane.give.setSource_same hi { source with sessions := s.next :: source.sessions }
    (h.sane.sized i source hi) rfl rfl
  refine ⟨⟨{ hset.numbered with sessions := fun k session hs => ?_ },
    { hset.logged with running := fun k session hs hmem => ?_ }, hset.sized,
    fun i => ⟨(hset.listening i).backend, (hset.listening i).target⟩⟩, ?_, h.fine⟩
  · by_cases hk : k = s.next
    · exact hk ▸ Nat.lt_succ_self _
    · exact hset.numbered.sessions k session ((Function.update_of_ne hk _ _).symm.trans hs)
  · by_cases hk : k = s.next
    · exact absurd (hk ▸ hmem) h.sane.numbered.never_stopped
    · exact hset.logged.running k session ((Function.update_of_ne hk _ _).symm.trans hs) hmem
  · have hlinks : (newSession s i source).links = s.links.addSession s.next i source.link := by
      simp only [newSession, State.links, State.setSession, State.setSource, Links.addSession, map_update, Option.map_some]
      rfl
    rw [hlinks]
    exact addSession_alive h.alive (by simp [State.links, hnone]) (links_source hi)

theorem newSession_released (hreleased : Released s) (hi : s.sources i = some source) :
    Released (newSession s i source) := by
  intro i' source' hs
  by_cases hi' : i' = i
  · subst hi'
    have hself : (newSession s i' source).sources i' = some { source with sessions := s.next :: source.sessions } :=
      Function.update_self ..
    rw [← Option.some.inj (hself.symm.trans hs)]
    exact hreleased i' source hi
  · exact hreleased i' source' ((Function.update_of_ne hi' _ _).symm.trans hs)

/-- The end of the creation of a session, whose source is there. -/
theorem finishSession_spec (h : Sound s) (hreleased : Released s) (hi : s.sources i = some source) (alloc : Bool) :
    Sound (s.finishSession i alloc) ∧ Released (s.finishSession i alloc) ∧
      (s.finishSession i alloc).creating = s.creating ∧ (s.finishSession i alloc).sourceData = s.sourceData := by
  simp only [finishSession, hi]
  split
  · exact ⟨h.send_stopped_new, hreleased, rfl, rfl⟩
  · cases alloc with
    | false => exact ⟨h.give.send_quiet rfl (by simp), hreleased, rfl, rfl⟩
    | true =>
      obtain ⟨hsound, hwithin⟩ := sessionSendConstraints_spec (newSession_sound h hi) (k := s.next)
        (Function.update_self ..)
        (Function.update_self ..) rfl
      exact ⟨hsound, hwithin.toOuter.released (newSession_released hreleased hi), hwithin.creating, hwithin.data⟩

theorem startBackend_spec (h : Sound s) (hreleased : Released s) (hi : s.sources i = some source) :
    Sound (s.startBackend i source) ∧ Released (s.startBackend i source) := by
  have hl := h.sane.listening i
  exact changeSource_spec h hreleased hi { source with backend := true } _ s.targetListening rfl
    ⟨rfl, rfl, rfl⟩ rfl (Function.update_eq_self_iff.2 (by rw [hl.target, hi]; rfl)).symm

/-- A session is created at once, waits for the first image of its source, or its resource leads nowhere. -/
theorem createSession_spec (h : Inv s) (hnone : s.creating = none) (resource : Option ℕ) (options : ℕ)
    (backendOk alloc : Bool) : Inv (s.createSession resource options backendOk alloc) := by
  have hquiet : ∀ t : State, Sound t → Released t → t.creating = none → Inv t := fun t ht hr hc =>
    ⟨ht, hr, fun creation hs => by simp [hc] at hs⟩
  unfold createSession
  split
  · exact hquiet _ (h.sound.send_quiet rfl (by simp)) h.released hnone
  · cases hfilter : resource.filter s.sourceData with
    | none => exact inertSession_spec h
    | some i =>
      have hdata : s.sourceData i = true := (Option.filter_eq_some_iff.1 hfilter).2
      cases hi : s.sources i with
      | none =>
        have hsome := h.sound.alive.linked.sourceData i
        simp [State.links, hi, hdata] at hsome
      | some source =>
        obtain ⟨hsound, hreleased⟩ := startBackend_spec h.sound h.released hi
        have hself : (s.startBackend i source).sources i = some { source with backend := true } :=
          Function.update_self ..
        simp only [hi]
        split
        · exact inertSession_spec h
        · split
          · obtain ⟨hs, hr, hc, _⟩ := finishSession_spec h.sound h.released hi alloc
            exact hquiet _ hs hr (hc.trans hnone)
          · cases backendOk with
            | false => exact inertSession_spec h
            | true =>
              cases source.kind with
              | output =>
                obtain ⟨hs, hr, hc, _⟩ := finishSession_spec hsound hreleased hself alloc
                exact hquiet _ hs hr (hc.trans hnone)
              | toplevel =>
                refine ⟨⟨⟨{ hsound.sane.numbered with }, { hsound.sane.logged with }, hsound.sane.sized,
                  fun i => ⟨(hsound.sane.listening i).backend, (hsound.sane.listening i).target⟩⟩, hsound.alive,
                  hsound.fine⟩, hreleased, fun creation hc => ?_⟩
                obtain rfl := Option.some.inj hc
                exact hdata

theorem sourceCreate_spec (h : Inv s) (hnone : s.creating = none) (kind : Kind) (target : Option (ℕ × ℕ)) :
    Inv (s.sourceCreate kind target) := by
  obtain ⟨_, _, hnew⟩ := h.sound.sane.numbered.new
  have hgive := h.sound.sane.give
  have hother : ∀ i source, i ≠ s.next → (s.sourceCreate kind target).sources i = some source →
      s.sources i = some source := fun i source hi hs => (Function.update_of_ne hi _ _).symm.trans hs
  have hself : ∃ source, (s.sourceCreate kind target).sources s.next = some source ∧ source.buffer = none ∧
      source.stopping = false := ⟨_, Function.update_self .., rfl, rfl⟩
  obtain ⟨new, hself, hbuffer, hstopping⟩ := hself
  refine ⟨⟨⟨{ hgive.numbered with sources := fun i source hs => ?_ }, { hgive.logged with }, fun i source hs buffer hb => ?_,
    fun i => ?_⟩, ?_, h.sound.fine⟩, fun i source hs => ?_, fun creation hc => by simp [sourceCreate, State.setSource, hnone] at hc⟩
  · by_cases hi : i = s.next
    · exact hi ▸ Nat.lt_succ_self _
    · exact hgive.numbered.sources i source (hother i source hi hs)
  · by_cases hi : i = s.next
    · subst hi
      rw [← Option.some.inj (hself.symm.trans hs), hbuffer] at hb
      cases hb
    · exact h.sound.sane.sized i source (hother i source hi hs) buffer hb
  · have hl := h.sound.sane.listening i
    by_cases hi : i = s.next
    · subst hi
      constructor
      · simpa [sourceCreate, State.setSource, hnew] using hl.backend
      · simp [sourceCreate, State.setSource]
    · constructor
      · simpa [sourceCreate, State.setSource, hi] using hl.backend
      · simpa [sourceCreate, State.setSource, hi] using hl.target
  · have hlinks : (s.sourceCreate kind target).links = s.links.addSource s.next := by
      simp only [sourceCreate, State.links, State.setSource, Links.addSource, map_update, Option.map_some]
      rfl
    rw [hlinks]
    exact addSource_alive h.sound.alive (by simp [State.links, hnew])
  · by_cases hi : i = s.next
    · subst hi
      rw [← Option.some.inj (hself.symm.trans hs), hstopping]
    · exact h.released i source (hother i source hi hs)

/-- A frame is created for a session that has none. -/
theorem createFrame_spec (h : Sound s) (hk : s.sessions k = some session) (alloc : Bool) :
    Sound (s.sessionHandleCreateFrame k alloc) ∧ (s.sessionHandleCreateFrame k alloc).sources = s.sources ∧
      (s.sessionHandleCreateFrame k alloc).creating = s.creating ∧
      (s.sessionHandleCreateFrame k alloc).sourceData = s.sourceData := by
  simp only [sessionHandleCreateFrame, hk]
  split
  · exact ⟨h.send_quiet rfl (by simp), rfl, rfl, rfl⟩
  next hframe =>
    split
    · obtain ⟨hnew, _, _⟩ := h.sane.numbered.new
      have hset := h.sane.give.setSession (k := k) hk { session with frame := some s.next } id
      refine ⟨⟨⟨{ hset.numbered with frames := fun f frame hs => ?_ },
        { hset.logged with
          unended := fun f frame hs e he => ?_
          waiting := fun f frame hs hcapturing => ?_ }, hset.sized,
        fun i => ⟨(hset.listening i).backend, (hset.listening i).target⟩⟩, ?_, h.fine⟩, rfl, rfl, rfl⟩
      · by_cases hf : f = s.next
        · exact hf ▸ Nat.lt_succ_self _
        · exact hset.numbered.frames f frame ((Function.update_of_ne hf _ _).symm.trans hs)
      · by_cases hf : f = s.next
        · intro hends
          exact absurd (hf ▸ h.sane.numbered.ends e he f hends) (Nat.lt_irrefl _)
        · exact hset.logged.unended f frame ((Function.update_of_ne hf _ _).symm.trans hs) e he
      · by_cases hf : f = s.next
        · subst hf
          simp only [State.setSession, State.setFrame, Function.update_self, Option.some.injEq] at hs
          rw [← hs] at hcapturing
          cases hcapturing
        · exact hset.logged.waiting f frame ((Function.update_of_ne hf _ _).symm.trans hs) hcapturing
      · have halive := addFrame_alive (f := s.next) h.alive (by simp [State.links, hnew]) (links_session hk)
          (by simpa [Session.link] using hframe)
        rw [Links.addFrame] at halive
        simp only [State.links, State.setSession, State.setFrame, map_update, Option.map_some]
        exact halive
    · exact ⟨h.send_quiet rfl (by simp), rfl, rfl, rfl⟩

theorem Inv.of_sources (h : Inv s) (hsound : Sound s') (hsources : s'.sources = s.sources)
    (hcreating : s'.creating = s.creating) (hdata : s'.sourceData = s.sourceData) : Inv s' where
  sound := hsound
  released i source hs := h.released i source (hsources ▸ hs)
  creating creation hc := by
    rw [hdata]
    exact h.creating creation (hcreating ▸ hc)

theorem Inv.of_nested (h : Inv s) (hspec : Sound s' ∧ Released s' ∧ Nested s s') : Inv s' where
  sound := hspec.1
  released := hspec.2.1
  creating creation hc := by
    rw [hspec.2.2.data]
    exact h.creating creation (hspec.2.2.creating ▸ hc)

/-- The pixels of every frame that is copied can be read, and a new size is announced only where a resource
    can hear it. -/
def Clean (s : State) (e : Event) : Bool := readable s e && announceable s e

theorem frame_of_data (h : Sound s) (hdata : s.frameData f = true) : ∃ frame, s.frames f = some frame := by
  have hsome := h.alive.linked.frameData f
  change s.frameData f = _ at hsome
  rw [hdata] at hsome
  simpa [State.links, Option.isSome_iff_exists] using hsome.symm

theorem session_of_data (h : Sound s) (hdata : s.sessionData k = true) : ∃ session, s.sessions k = some session := by
  have hsome := h.alive.linked.sessionData k
  change s.sessionData k = _ at hsome
  rw [hdata] at hsome
  cases hk : s.sessions k with
  | none => simp [State.links, hk] at hsome
  | some session => exact ⟨session, rfl⟩

theorem source_of_data (h : Sound s) (hdata : s.sourceData i = true) : ∃ source, s.sources i = some source := by
  have hsome := h.alive.linked.sourceData i
  change s.sourceData i = _ at hsome
  rw [hdata] at hsome
  cases hi : s.sources i with
  | none => simp [State.links, hi] at hsome
  | some source => exact ⟨source, rfl⟩

theorem finishCreation_inv (h : Inv s) {creation : Creation} (hc : s.creating = some creation) :
    Inv ({ s with creating := none }.finishSession creation.source creation.alloc) := by
  obtain ⟨source, hi⟩ := source_of_data h.sound (h.creating creation hc)
  have hsound : Sound { s with creating := none } :=
    ⟨⟨{ h.sound.sane.numbered with }, { h.sound.sane.logged with }, h.sound.sane.sized,
      fun i => ⟨(h.sound.sane.listening i).backend, (h.sound.sane.listening i).target⟩⟩, h.sound.alive, h.sound.fine⟩
  obtain ⟨hs, hr, hnone, _⟩ := finishSession_spec (i := creation.source) hsound h.released hi creation.alloc
  exact ⟨hs, hr, fun creation' hc' => by simp [hnone] at hc'⟩

/-- One step keeps the invariant. -/
theorem step_inv {e : Event} (h : Inv s) (hclean : Clean s e = true) (hs : step s e = some s') : Inv s' := by
  rw [Clean, Bool.and_eq_true] at hclean
  rw [step] at hs
  split at hs
  · cases hs
  next hnested =>
    have hidle : e.nested = false → s.creating = none := fun hn => by simpa [hn] using hnested
    cases e with
    | createSource kind target =>
      obtain rfl := Option.some.inj hs
      exact sourceCreate_spec h (hidle rfl) kind target
    | createSession resource options backendOk alloc =>
      obtain rfl := Option.some.inj hs
      exact createSession_spec h (hidle rfl) resource options backendOk alloc
    | finishSession =>
      obtain ⟨creation, hc, rfl⟩ := Option.map_eq_some_iff.1 hs
      exact finishCreation_inv h hc
    | createFrame k alloc =>
      obtain rfl := Option.some.inj hs
      split
      next hdata =>
        obtain ⟨session, hk⟩ := session_of_data h.sound hdata
        obtain ⟨hsound, hsources, hcreating, hd⟩ := createFrame_spec h.sound hk alloc
        exact h.of_sources hsound hsources hcreating hd
      · exact h
    | attachBuffer f buffer =>
      obtain rfl := Option.some.inj hs
      split
      next hdata =>
        obtain ⟨frame, hf⟩ := frame_of_data h.sound hdata
        obtain ⟨hsound, houter⟩ := attachBuffer_spec h.sound hf buffer
        exact h.of_outer hsound houter
      · exact h
    | damageBuffer f x y width height =>
      obtain rfl := Option.some.inj hs
      split
      next hdata =>
        obtain ⟨frame, hf⟩ := frame_of_data h.sound hdata
        obtain ⟨hsound, houter⟩ := damageBuffer_spec h.sound hf x y width height
        exact h.of_outer hsound houter
      · exact h
    | capture f access read =>
      obtain rfl := Option.some.inj hs
      split
      next hdata =>
        obtain ⟨frame, hf⟩ := frame_of_data h.sound hdata
        obtain ⟨hsound, houter⟩ := capture_spec h.sound hf hclean.1
        exact h.of_outer hsound houter
      · exact h
    | destroyFrame f =>
      obtain rfl := Option.some.inj hs
      split
      next hdata =>
        obtain ⟨frame, hf⟩ := frame_of_data h.sound hdata
        obtain ⟨hsound, houter⟩ := destroyFrame_spec h.sound hf
        exact h.of_outer hsound houter
      · exact h
    | destroySession k =>
      obtain rfl := Option.some.inj hs
      split
      next hdata =>
        obtain ⟨session, hk⟩ := session_of_data h.sound hdata
        obtain ⟨hsound, houter⟩ := destroySession_spec h.sound hk
        exact h.of_outer hsound houter
      · exact h
    | destroySource i =>
      obtain rfl := Option.some.inj hs
      split
      next hdata =>
        obtain ⟨source, hi⟩ := source_of_data h.sound hdata
        obtain ⟨hsound, hreleased, hcreating⟩ := destroySource_spec h.sound h.released hi
        exact ⟨hsound, hreleased, fun creation hc => by simp [hcreating, hidle rfl] at hc⟩
      · exact h
    | createCursor =>
      obtain rfl := Option.some.inj hs
      have hgive := h.sound.give
      exact ⟨⟨⟨{ hgive.sane.numbered with }, { hgive.sane.logged with }, hgive.sane.sized,
        fun i => ⟨(hgive.sane.listening i).backend, (hgive.sane.listening i).target⟩⟩, hgive.alive, hgive.fine⟩,
        h.released, h.creating⟩
    | cursorCapture c =>
      obtain ⟨created, _, rfl⟩ := Option.map_eq_some_iff.1 hs
      cases created with
      | true => exact ⟨h.sound.send_quiet rfl (by simp), h.released, h.creating⟩
      | false =>
        refine inertSession_spec (s := { s with cursors := Function.update s.cursors c (some true) }) ⟨⟨⟨?_, ?_, ?_, ?_⟩, ?_, ?_⟩, ?_, ?_⟩
        · exact { h.sound.sane.numbered with }
        · exact { h.sound.sane.logged with }
        · exact h.sound.sane.sized
        · exact fun i => ⟨(h.sound.sane.listening i).backend, (h.sound.sane.listening i).target⟩
        · exact h.sound.alive
        · exact h.sound.fine
        · exact h.released
        · exact h.creating
    | backendUpdate i buffer refused unread =>
      obtain ⟨hlistening, heq⟩ := Option.ite_none_right_eq_some.1 hs
      obtain rfl := Option.some.inj heq
      exact h.of_nested (backendUpdate_spec h.sound h.released hlistening hclean.1 hclean.2)
    | backendDestroy i =>
      obtain ⟨hlistening, heq⟩ := Option.ite_none_right_eq_some.1 hs
      obtain rfl := Option.some.inj heq
      exact h.of_nested (backendDestroy_spec h.sound h.released hlistening)
    | targetDestroy i =>
      obtain ⟨hlistening, heq⟩ := Option.ite_none_right_eq_some.1 hs
      obtain rfl := Option.some.inj heq
      exact h.of_nested (targetDestroy_spec h.sound h.released hlistening)
    | paint buffer pixels =>
      obtain rfl := Option.some.inj hs
      exact ⟨h.sound.paint _, h.released, h.creating⟩

theorem start_inv : Inv {} where
  sound :=
    { sane :=
        { numbered := ⟨nofun, nofun, nofun, nofun, nofun⟩
          logged := ⟨.nil, nofun, fun _ _ _ hl => by simp at hl, nofun, nofun, nofun⟩
          sized := nofun
          listening := fun _ => ⟨rfl, rfl⟩ }
      alive := ⟨⟨fun _ => rfl, fun _ => rfl, fun _ => rfl, nofun, nofun, nofun, nofun, nofun⟩, nofun, nofun⟩
      fine := rfl }
  released := nofun
  creating := nofun

/-- The protocol is kept: what was sent is in order, a frame is ready only after it was asked for, with the
    pixels of the source in a buffer of its size and with damage, sessions and sources live exactly as long
    as they are needed, and nothing that is gone was used. -/
structure Protocol (s : State) : Prop where
  order : s.trace.Pairwise Follows
  requested : ∀ f shot l, .ready f shot :: l <:+ s.trace → .captureRequested f ∈ l
  shots : ∀ f shot, .ready f shot ∈ s.trace → shot.Good
  sessions : ∀ k, (s.sessions k).isSome ↔
    s.sessionData k = true ∨ ∃ f frame, s.frames f = some frame ∧ frame.session = k
  sources : ∀ i, (s.sources i).isSome ↔
    s.sourceData i = true ∨ ∃ k session, s.sessions k = some session ∧ session.source = i
  fine : s.fault = false

theorem Inv.protocol (h : Inv s) : Protocol s where
  order := h.sound.sane.logged.order
  requested := h.sound.sane.logged.requested
  shots := h.sound.sane.logged.shots
  sessions k := by
    have hiff := h.sound.alive.session_iff k
    simpa [State.links, Option.map_eq_some_iff] using hiff
  sources i := by
    have hiff := h.sound.alive.source_iff i fun link hs => by
      obtain ⟨source, hi, rfl⟩ := Option.map_eq_some_iff.1 hs
      exact h.released i source hi
    simpa [State.links, Option.map_eq_some_iff, Session.link] using hiff
  fine := h.sound.fine

/-- The sessions keep their protocol in every run in which frames are copied only when the pixels can be
    read, and sizes are announced only to sessions that have their resource. -/
theorem sessions_keep_protocol (h : Reach step (fun s e => Clean s e = true) {} s) : Protocol s :=
  (h.inv start_inv fun _ _ _ => step_inv).protocol

/-- A buffer of four pixels. -/
def smallBuffer (id : ℕ) : Buffer := ⟨id, 2, 2, by decide, by decide⟩

/-- A client captures an output of the size of its buffer, which has the pixels `7`. -/
def captureRun (unread : List ℕ) : List Event :=
  [.createSource .output (some (2, 2)), .createSession (some 0) 0 true true, .createFrame 1 true,
    .attachBuffer 2 (some (smallBuffer 5)), .capture 2 true true, .paint 4 7, .backendUpdate 0 (smallBuffer 4) [] unread]

theorem copied_frame_ready : ∃ s, exec (guarded step Clean) {} (captureRun []) = some s ∧
    s.trace.head? = some (.ready 2 ⟨1, smallBuffer 5, smallBuffer 4, 7, 7, [(2, 2), (2, 2)]⟩) ∧ Protocol s := by
  have hrun : (exec (guarded step Clean) {} (captureRun [])).map (fun s => s.trace.head?) =
      some (some (.ready 2 ⟨1, smallBuffer 5, smallBuffer 4, 7, 7, [(2, 2), (2, 2)]⟩)) := by decide +kernel
  obtain ⟨s, hs, hready⟩ := Option.map_eq_some_iff.1 hrun
  exact ⟨s, hs, hready, sessions_keep_protocol (.of_exec_guarded _ _ hs)⟩

/-- When the pixels cannot be read, the frame is ready all the same. -/
theorem unread_frame_ready : ¬ ∀ s, Reach step Always {} s → Protocol s := by
  intro h
  have hrun : (exec step {} (captureRun [2])).map (fun s => s.trace.head?) =
      some (some (.ready 2 ⟨1, smallBuffer 5, smallBuffer 4, 0, 7, [(2, 2), (2, 2)]⟩)) := by decide +kernel
  obtain ⟨s, hs, hready⟩ := Option.map_eq_some_iff.1 hrun
  have hpixels := ((h s (.of_exec _ _ hs)).shots 2 _ (List.mem_of_mem_head? hready)).pixels
  revert hpixels
  decide

/-- A session whose resource is gone, but not its frame, is told about a new size. -/
example : (exec step {} [.createSource .output (some (3, 3)), .createSession (some 0) 0 true true, .createFrame 1 true,
    .destroySession 1, .backendUpdate 0 (smallBuffer 4) [] []]).map (·.fault) = some true := by decide +kernel

end FlakeWm.CopyCapture
