import FlakeWm.CopyCapture.Finishing
import Mathlib.Data.List.Basic

/-! What was sent: the order of the events of a frame and of a session, and what holds when a frame is
    ready. The invariant ties what was sent to the objects that live. -/

namespace FlakeWm.CopyCapture

open State

variable {s s' : State} {f k i : ℕ} {frame : Frame} {session : Session} {source : Source} {e : Entry}

namespace Entry

/-- The frame to which an event is sent. -/
def sentTo : Entry → Option ℕ
  | damage f _ => some f
  | transform f => some f
  | presentationTime f => some f
  | ready f _ => some f
  | failed f _ => some f
  | _ => none

/-- The frame that an event ends. -/
def ends : Entry → Option ℕ
  | ready f _ => some f
  | failed f _ => some f
  | _ => none

/-- The session for which a frame is ready. -/
def readySession : Entry → Option ℕ
  | ready _ shot => some shot.session
  | _ => none

theorem sentTo_of_ends : ∀ {e : Entry}, e.ends = some f → e.sentTo = some f
  | ready _ _, h => h
  | failed _ _, h => h

theorem ends_of_readySession : ∀ {e : Entry}, e.readySession = some k → e.ends ≠ none
  | ready _ _, _ => Option.some_ne_none _

end Entry

/-- An event may be sent after another: not to a frame that has ended, and neither a second `stopped` nor
    `ready` for a session that has stopped. -/
structure Follows (newer older : Entry) : Prop where
  frame : ∀ f, older.ends = some f → newer.sentTo ≠ some f
  session : ∀ k, older = .stopped k → newer ≠ .stopped k ∧ newer.readySession ≠ some k

/-- The attached buffer has the size and the pixels of the buffer of the source, and there is damage. -/
structure Shot.Good (shot : Shot) : Prop where
  width : shot.attached.width = shot.current.width
  height : shot.attached.height = shot.current.height
  pixels : shot.attachedPixels = shot.currentPixels
  damage : regionEmpty shot.damage = false

/-- All objects and all that was sent have numbers that were given out. -/
structure Numbered (s : State) : Prop where
  frames : ∀ f frame, s.frames f = some frame → f < s.next
  sessions : ∀ k session, s.sessions k = some session → k < s.next
  sources : ∀ i source, s.sources i = some source → i < s.next
  ends : ∀ e ∈ s.trace, ∀ f, e.ends = some f → f < s.next
  stopped : ∀ k, .stopped k ∈ s.trace → k < s.next

/-- What was sent is in order, and agrees with the frames and sessions that live. -/
structure Logged (s : State) : Prop where
  order : s.trace.Pairwise Follows
  shots : ∀ f shot, .ready f shot ∈ s.trace → shot.Good
  requested : ∀ f shot l, .ready f shot :: l <:+ s.trace → .captureRequested f ∈ l
  unended : ∀ f frame, s.frames f = some frame → ∀ e ∈ s.trace, e.ends ≠ some f
  waiting : ∀ f frame, s.frames f = some frame → frame.capturing = true →
    .captureRequested f ∈ s.trace ∧ frame.buffer.isSome = true
  running : ∀ k session, s.sessions k = some session → .stopped k ∈ s.trace → session.stopped = true

/-- A source that has a buffer has its size. -/
def Sized (s : State) : Prop := ∀ i source, s.sources i = some source → ∀ buffer, source.buffer = some buffer →
  source.width = buffer.width ∧ source.height = buffer.height

/-- What holds of the objects one by one and of what was sent. -/
structure Sane (s : State) : Prop where
  numbered : Numbered s
  logged : Logged s
  sized : Sized s
  listening : ∀ i, Listening s i

theorem suffix_cons_iff {α : Type*} {a b : α} {l l' : List α} : a :: l <:+ b :: l' ↔ a = b ∧ l = l' ∨ a :: l <:+ l' := by
  rw [List.suffix_cons_iff, List.cons.injEq]

/-- Frames that are new to nothing and sessions that keep running stay as the log has them. -/
theorem Logged.of_fewer (h : Logged s) (htrace : s'.trace = s.trace)
    (hframes : ∀ f frame, s'.frames f = some frame → s.frames f = some frame)
    (hsessions : ∀ k session', s'.sessions k = some session' →
      ∃ session, s.sessions k = some session ∧ session'.stopped = session.stopped) : Logged s' where
  order := htrace ▸ h.order
  shots := htrace ▸ h.shots
  requested := htrace ▸ h.requested
  unended f frame hf := htrace ▸ h.unended f frame (hframes f frame hf)
  waiting f frame hf := htrace ▸ h.waiting f frame (hframes f frame hf)
  running k session' hk hstopped := by
    obtain ⟨session, hs, heq⟩ := hsessions k session' hk
    exact heq ▸ h.running k session hs (htrace ▸ hstopped)

theorem Outer.sized (h : Outer s s') (hsized : Sized s) : Sized s' := by
  intro i source' hs buffer hb
  obtain ⟨source, _, hi, rfl⟩ := h.sources i source' hs
  exact hsized i source hi buffer hb

/-- The sessions of a state that shrinks, seen from the state before. -/
theorem Shrinks.stopped (h : Shrinks s s' k) {k' : ℕ} {session' : Session} (hk : s'.sessions k' = some session') :
    ∃ session, s.sessions k' = some session ∧ session'.stopped = session.stopped := by
  by_cases hk' : k' = k
  · subst hk'
    obtain ⟨session, _, hs, rfl⟩ := h.session session' hk
    exact ⟨session, hs, rfl⟩
  · exact ⟨session', (h.sessions k' hk').symm.trans hk, rfl⟩

theorem Shrinks.numbered (h : Shrinks s s' k) (hnumbered : Numbered s) : Numbered s' where
  frames f frame hf := h.next ▸ hnumbered.frames f frame (h.fewer f frame hf)
  sessions k' session' hk := by
    obtain ⟨session, hs, _⟩ := h.stopped hk
    exact h.next ▸ hnumbered.sessions k' session hs
  sources i source' hi := by
    obtain ⟨source, _, hs, _⟩ := h.sources i source' hi
    exact h.next ▸ hnumbered.sources i source hs
  ends e he f hf := h.next ▸ hnumbered.ends e (h.trace ▸ he) f hf
  stopped k' hk := h.next ▸ hnumbered.stopped k' (h.trace ▸ hk)

theorem Shrinks.sane (h : Shrinks s s' k) (hsane : Sane s) : Sane s' where
  numbered := h.numbered hsane.numbered
  logged := hsane.logged.of_fewer h.trace h.fewer fun _ _ => h.stopped
  sized := h.toOuter.sized hsane.sized
  listening i := h.listening i (hsane.listening i)

/-- Sending what neither ends a frame nor goes to one that has ended. -/
theorem Sane.send (h : Sane s) (hends : e.ends = none) (hto : ∀ f, e.sentTo = some f → ∃ frame, s.frames f = some frame)
    (hstopped : ∀ k, e = .stopped k → .stopped k ∉ s.trace ∧ k < s.next ∧
      ∀ session, s.sessions k = some session → session.stopped = true) : Sane (s.send e) where
  numbered :=
    { h.numbered with
      ends := fun e' he' f hf => by
        rcases List.mem_cons.1 he' with rfl | he'
        · simp [hends] at hf
        · exact h.numbered.ends e' he' f hf
      stopped := fun k hk => by
        rcases List.mem_cons.1 hk with heq | hk
        · exact (hstopped k heq.symm).2.1
        · exact h.numbered.stopped k hk }
  logged :=
    { order := List.pairwise_cons.2 ⟨fun older hmem => ⟨fun f hf hsent => by
          obtain ⟨frame, hlive⟩ := hto f hsent
          exact h.logged.unended f frame hlive older hmem hf,
        fun k hk => ⟨fun heq => (hstopped k heq).1 (hk ▸ hmem), fun hready => Entry.ends_of_readySession hready hends⟩⟩,
        h.logged.order⟩
      shots := fun f shot hmem => by
        rcases List.mem_cons.1 hmem with rfl | hmem
        · cases hends
        · exact h.logged.shots f shot hmem
      requested := fun f shot l hl => by
        rcases suffix_cons_iff.1 hl with ⟨rfl, _⟩ | hl
        · cases hends
        · exact h.logged.requested f shot l hl
      unended := fun f frame hf e' he' => by
        rcases List.mem_cons.1 he' with rfl | he'
        · rw [hends]
          exact (Option.some_ne_none f).symm
        · exact h.logged.unended f frame hf e' he'
      waiting := fun f frame hf hcapturing =>
        (h.logged.waiting f frame hf hcapturing).imp_left (List.mem_cons_of_mem _)
      running := fun k session hk hmem => by
        rcases List.mem_cons.1 hmem with heq | hmem
        · exact (hstopped k heq.symm).2.2 session hk
        · exact h.logged.running k session hk hmem }
  sized := h.sized
  listening i := ⟨(h.listening i).backend, (h.listening i).target⟩

/-- Sending what concerns no frame and stops no session. -/
theorem Sane.send_quiet (h : Sane s) (hto : e.sentTo = none) (hstopped : ∀ k, e ≠ .stopped k) : Sane (s.send e) := by
  refine h.send ?_ (fun f hf => by simp [hto] at hf) fun k heq => absurd heq (hstopped k)
  cases hends : e.ends with
  | none => rfl
  | some f => simp [Entry.sentTo_of_ends hends] at hto

/-- A frame ends: it is told so and freed. -/
theorem Sane.ended (h : Sane s) (hf : s.frames f = some frame) (hends : e.ends = some f)
    (hrunning : ∀ k, e.readySession = some k → .stopped k ∉ s.trace)
    (hready : ∀ f' shot, e = .ready f' shot → shot.Good ∧ .captureRequested f' ∈ s.trace) :
    Sane ((s.send e).frameFinish f) := by
  have hshrinks := frameFinish_shrinks (s := s.send e) (f := f) hf
  have hgone := frameFinish_gone (s := s.send e) (f := f) hf
  have hnot : ∀ k, e ≠ .stopped k := fun k heq => by simp [heq, Entry.ends] at hends
  have htrace : ((s.send e).frameFinish f).trace = e :: s.trace := hshrinks.trace
  have hne : ∀ f' frame', ((s.send e).frameFinish f).frames f' = some frame' → f' ≠ f := by
    rintro f' frame' hs rfl
    simp [hgone] at hs
  refine ⟨hshrinks.numbered ?_, ⟨?_, ?_, ?_, ?_, ?_, ?_⟩, hshrinks.toOuter.sized h.sized,
    fun i => hshrinks.listening i ⟨(h.listening i).backend, (h.listening i).target⟩⟩
  · refine ⟨h.numbered.frames, h.numbered.sessions, h.numbered.sources, fun e' he' f' hf' => ?_, fun k hk => ?_⟩
    · rcases List.mem_cons.1 he' with rfl | he'
      · rw [hends, Option.some.injEq] at hf'
        exact hf' ▸ h.numbered.frames f frame hf
      · exact h.numbered.ends e' he' f' hf'
    · exact h.numbered.stopped k (List.mem_of_ne_of_mem (hnot k).symm hk)
  · rw [htrace]
    refine List.pairwise_cons.2 ⟨fun older hmem => ⟨fun f' hf' hsent => ?_, fun k hk => ⟨hnot k, fun hs => ?_⟩⟩, h.logged.order⟩
    · rw [Entry.sentTo_of_ends hends, Option.some.injEq] at hsent
      exact h.logged.unended f frame hf older hmem (hsent ▸ hf')
    · exact hrunning k hs (hk ▸ hmem)
  · rw [htrace]
    intro f' shot hmem
    rcases List.mem_cons.1 hmem with heq | hmem
    · exact (hready f' shot heq.symm).1
    · exact h.logged.shots f' shot hmem
  · rw [htrace]
    intro f' shot l hl
    rcases suffix_cons_iff.1 hl with ⟨heq, rfl⟩ | hl
    · exact (hready f' shot heq.symm).2
    · exact h.logged.requested f' shot l hl
  · rw [htrace]
    intro f' frame' hs e' he'
    rcases List.mem_cons.1 he' with rfl | he'
    · rw [hends]
      exact fun heq => hne f' frame' hs (Option.some.inj heq).symm
    · exact h.logged.unended f' frame' (hshrinks.fewer f' frame' hs) e' he'
  · rw [htrace]
    intro f' frame' hs hcapturing
    exact (h.logged.waiting f' frame' (hshrinks.fewer f' frame' hs) hcapturing).imp_left (List.mem_cons_of_mem _)
  · rw [htrace]
    intro k session' hk hmem
    obtain ⟨session, hs, heq⟩ := hshrinks.stopped hk
    rw [heq]
    exact h.logged.running k session hs (List.mem_of_ne_of_mem (hnot k).symm hmem)

/-- A session that lives changes without starting again. -/
theorem Sane.setSession (h : Sane s) (hk : s.sessions k = some session) (session' : Session)
    (hstopped : session.stopped = true → session'.stopped = true) : Sane (s.setSession k session') where
  numbered :=
    { h.numbered with
      sessions := fun k' session'' hs => by
        by_cases hk' : k' = k
        · exact hk' ▸ h.numbered.sessions k session hk
        · exact h.numbered.sessions k' session'' ((Function.update_of_ne hk' _ _).symm.trans hs) }
  logged :=
    { h.logged with
      running := fun k' session'' hs hmem => by
        by_cases hk' : k' = k
        · subst hk'
          obtain rfl : session' = session'' := by simpa [State.setSession] using hs
          exact hstopped (h.logged.running k' session hk hmem)
        · exact h.logged.running k' session'' ((Function.update_of_ne hk' _ _).symm.trans hs) hmem }
  sized := h.sized
  listening i := ⟨(h.listening i).backend, (h.listening i).target⟩

/-- A frame that lives changes; when it waits for an image, that was requested. -/
theorem Sane.setFrame (h : Sane s) (hf : s.frames f = some frame) (frame' : Frame)
    (hwaiting : frame'.capturing = true → .captureRequested f ∈ s.trace ∧ frame'.buffer.isSome = true) :
    Sane (s.setFrame f frame') where
  numbered :=
    { h.numbered with
      frames := fun f' frame'' hs => by
        by_cases hf' : f' = f
        · exact hf' ▸ h.numbered.frames f frame hf
        · exact h.numbered.frames f' frame'' ((Function.update_of_ne hf' _ _).symm.trans hs) }
  logged :=
    { h.logged with
      unended := fun f' frame'' hs => by
        by_cases hf' : f' = f
        · exact hf' ▸ h.logged.unended f frame hf
        · exact h.logged.unended f' frame'' ((Function.update_of_ne hf' _ _).symm.trans hs)
      waiting := fun f' frame'' hs hcapturing => by
        by_cases hf' : f' = f
        · subst hf'
          obtain rfl : frame' = frame'' := by simpa [State.setFrame] using hs
          exact hwaiting hcapturing
        · exact h.logged.waiting f' frame'' ((Function.update_of_ne hf' _ _).symm.trans hs) hcapturing }
  sized := h.sized
  listening i := ⟨(h.listening i).backend, (h.listening i).target⟩

/-- A source that lives changes; it listens to what it has. -/
theorem Sane.setSource (h : Sane s) (hi : s.sources i = some source) {source' : Source}
    (hsized : ∀ buffer, source'.buffer = some buffer → source'.width = buffer.width ∧ source'.height = buffer.height)
    {backend target : ℕ → Bool} (hbackend : backend = Function.update s.backendListening i source'.backend)
    (htarget : target = Function.update s.targetListening i source'.target) :
    Sane { s.setSource i source' with backendListening := backend, targetListening := target } where
  numbered :=
    { h.numbered with
      sources := fun i' source'' hs => by
        by_cases hi' : i' = i
        · exact hi' ▸ h.numbered.sources i source hi
        · exact h.numbered.sources i' source'' ((Function.update_of_ne hi' _ _).symm.trans hs) }
  logged := { h.logged with }
  sized i' source'' hs buffer hb := by
    by_cases hi' : i' = i
    · subst hi'
      obtain rfl : source' = source'' := by simpa [State.setSource] using hs
      exact hsized buffer hb
    · exact h.sized i' source'' ((Function.update_of_ne hi' _ _).symm.trans hs) buffer hb
  listening i' := by
    subst hbackend htarget
    by_cases hi' : i' = i
    · subst hi'
      constructor <;> simp [State.setSource]
    · constructor
      · simp [State.setSource, hi', (h.listening i').backend]
      · simp [State.setSource, hi', (h.listening i').target]

end FlakeWm.CopyCapture
