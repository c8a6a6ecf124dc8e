import FlakeWm.CopyCapture.Links
import FlakeWm.CopyCapture.Model

/-! The objects of a state as three levels that keep each other alive, and what the end of a frame does. -/

namespace FlakeWm.CopyCapture

def Session.link (session : Session) : SessionLink := ⟨session.resource, session.source, session.frame⟩

def Source.link (source : Source) : SourceLink := ⟨source.stopping, source.resource, source.sessions⟩

/-- What the objects of a state refer to. -/
def State.links (s : State) : Links :=
  { frame := fun f => (s.frames f).map Frame.session
    session := fun k => (s.sessions k).map Session.link
    source := fun i => (s.sources i).map Source.link
    frameData := s.frameData
    sessionData := s.sessionData
    sourceData := s.sourceData }

open State

variable {s s' t : State} {f k i : ℕ} {frame : Frame} {session : Session} {source : Source}

theorem links_frame (hf : s.frames f = some frame) : s.links.frame f = some frame.session := by
  simp [State.links, hf]

theorem links_session (hk : s.sessions k = some session) : s.links.session k = some session.link := by
  simp [State.links, hk]

theorem links_source (hi : s.sources i = some source) : s.links.source i = some source.link := by
  simp [State.links, hi]

/-- Mapping an updated table updates the mapped table. -/
theorem map_update {α β : Type*} (g : α → β) (table : ℕ → Option α) (n : ℕ) (value : Option α) :
    (fun m => (Function.update table n value m).map g) = Function.update (fun m => (table m).map g) n (value.map g) := by
  funext m
  by_cases hm : m = n
  · subst hm
    simp
  · simp [Function.update_of_ne hm]

/-- An update that the map does not see leaves the mapped table alone. -/
theorem map_update_same {α β : Type*} {g : α → β} {table : ℕ → Option α} {n : ℕ} {old new : α}
    (hold : table n = some old) (hsame : g new = g old) :
    (fun m => (Function.update table n (some new) m).map g) = fun m => (table m).map g := by
  have hself : (some (g new) : Option β) = (table n).map g := by rw [hold, Option.map_some, hsame]
  rw [map_update, Option.map_some, hself, Function.update_eq_self_iff.2 rfl]

@[simp] theorem setFrame_self (s : State) (f : ℕ) (frame : Frame) : (s.setFrame f frame).frames f = some frame :=
  Function.update_self ..

@[simp] theorem setSession_self (s : State) (k : ℕ) (session : Session) :
    (s.setSession k session).sessions k = some session :=
  Function.update_self ..

@[simp] theorem setSource_self (s : State) (i : ℕ) (source : Source) : (s.setSource i source).sources i = some source :=
  Function.update_self ..

theorem setFrame_links (hf : s.frames f = some frame) {frame' : Frame} (hsame : frame'.session = frame.session) :
    (s.setFrame f frame').links = s.links := by
  simp only [State.links, setFrame, map_update_same hf hsame]

theorem setSession_links (hk : s.sessions k = some session) {session' : Session} (hsame : session'.link = session.link) :
    (s.setSession k session').links = s.links := by
  simp only [State.links, setSession, map_update_same hk hsame]

theorem setSource_links (hi : s.sources i = some source) {source' : Source} (hsame : source'.link = source.link) :
    (s.setSource i source').links = s.links := by
  simp only [State.links, setSource, map_update_same hi hsame]

@[simp] theorem send_links (s : State) (e : Entry) : (s.send e).links = s.links := rfl

@[simp] theorem faulted_links (s : State) : s.faulted.links = s.links := rfl

theorem sourceMaybeDestroy_links (s : State) (i : ℕ) : (s.sourceMaybeDestroy i).links = s.links.settleSource i := by
  cases hi : s.sources i with
  | none => simp [sourceMaybeDestroy, Links.settleSource, hi, State.links, faulted]
  | some source =>
    simp only [sourceMaybeDestroy, Links.settleSource, hi, links_source hi, Source.link]
    split
    · rfl
    · simp only [State.links, freeSource, Links.freeSource, map_update, Option.map_none]

theorem unlinkSession_links (hi : s.sources i = some source) :
    (s.unlinkSession k i).links = s.links.unlink k i source.link := by
  simp only [unlinkSession, hi, State.links, freeSession, setSource, Links.unlink, map_update, Option.map_none,
    Option.map_some]
  rfl

theorem sessionMaybeDestroy_links (s : State) (k : ℕ) (hlinked : Linked s.links) :
    (s.sessionMaybeDestroy k).links = s.links.settleSession k := by
  cases hk : s.sessions k with
  | none => simp [sessionMaybeDestroy, Links.settleSession, hk, State.links, faulted]
  | some session =>
    simp only [sessionMaybeDestroy, Links.settleSession, hk, links_session hk, Session.link]
    split
    · rfl
    · obtain ⟨link, hi, _⟩ := hlinked.listed k _ (links_session hk)
      cases hi' : s.sources session.source with
      | none => simp [State.links, Session.link, hi'] at hi
      | some source => simp only [sourceMaybeDestroy_links, unlinkSession_links hi', links_source hi']

/-- The session of a frame that lives, and the source of that session. -/
theorem Linked.of_frame (h : Linked s.links) (hf : s.frames f = some frame) :
    ∃ session source, s.sessions frame.session = some session ∧ session.frame = some f ∧
      s.sources session.source = some source ∧ frame.session ∈ source.sessions := by
  obtain ⟨link, hk, hframe⟩ := h.frame f _ (links_frame hf)
  obtain ⟨session, hs, rfl⟩ := Option.map_eq_some_iff.1 hk
  obtain ⟨link, hi, hmem⟩ := h.listed _ _ hk
  obtain ⟨source, hsource, rfl⟩ := Option.map_eq_some_iff.1 hi
  exact ⟨session, source, hs, hframe, hsource, hmem⟩

theorem Linked.of_session (h : Linked s.links) (hk : s.sessions k = some session) :
    ∃ source, s.sources session.source = some source ∧ k ∈ source.sessions := by
  obtain ⟨link, hi, hmem⟩ := h.listed _ _ (links_session hk)
  obtain ⟨source, hsource, rfl⟩ := Option.map_eq_some_iff.1 hi
  exact ⟨source, hsource, hmem⟩

theorem Linked.frame_of_session (h : Linked s.links) (hk : s.sessions k = some session) (hf : session.frame = some f) :
    ∃ frame, s.frames f = some frame ∧ frame.session = k :=
  Option.map_eq_some_iff.1 (h.session k _ (links_session hk) f hf)

theorem Linked.of_member (h : Linked s.links) (hi : s.sources i = some source) (hmem : k ∈ source.sessions) :
    ∃ session, s.sessions k = some session ∧ session.source = i := by
  obtain ⟨link, hk, hsource⟩ := h.member i _ (links_source hi) k hmem
  obtain ⟨session, hs, rfl⟩ := Option.map_eq_some_iff.1 hk
  exact ⟨session, hs, hsource⟩

theorem frameFinish_links (h : Linked s.links) (f : ℕ) : (s.frameFinish f).links = s.links.finishFrame f := by
  cases hf : s.frames f with
  | none => simp [frameFinish, Links.finishFrame, hf, State.links, faulted]
  | some frame =>
    obtain ⟨session, _, hk, hheld, _⟩ := h.of_frame hf
    have hdrop : ((s.setSession frame.session { session with frame := none }).freeFrame f).links =
        s.links.dropFrame f frame.session session.link := by
      simp only [State.links, freeFrame, setSession, Links.dropFrame, map_update, Option.map_none, Option.map_some]
      rfl
    have hlinked := h.dropFrame (links_frame hf) (links_session hk)
    rw [← hdrop] at hlinked
    simp only [frameFinish, hf, detachFrame, hk, hheld, if_true, sessionMaybeDestroy_links _ _ hlinked, hdrop,
      Links.finishFrame, links_frame hf, links_session hk]

/-- The sources listen to what they have. -/
structure Listening (s : State) (i : ℕ) : Prop where
  backend : s.backendListening i = (s.sources i).any (·.backend)
  target : s.targetListening i = (s.sources i).any (·.target)

/-- What the work on sessions leaves alone: of the sources all but their list of sessions. A source that is
    held stays. -/
structure Outer (s s' : State) : Prop where
  next : s'.next = s.next
  creating : s'.creating = s.creating
  data : s'.sourceData = s.sourceData
  sources : ∀ i source', s'.sources i = some source' →
    ∃ source l, s.sources i = some source ∧ source' = { source with sessions := l }
  held : ∀ i source, s.sources i = some source → source.stopping = true →
    ∃ l, s'.sources i = some { source with sessions := l }
  listening : ∀ i, Listening s i → Listening s' i

theorem Outer.trans (h : Outer s s') (h' : Outer s' t) : Outer s t where
  next := h'.next.trans h.next
  creating := h'.creating.trans h.creating
  data := h'.data.trans h.data
  sources i source'' hs'' := by
    obtain ⟨source', l', hs', rfl⟩ := h'.sources i source'' hs''
    obtain ⟨source, l, hs, rfl⟩ := h.sources i source' hs'
    exact ⟨source, l', hs, rfl⟩
  held i source hs hheld := by
    obtain ⟨l, hs'⟩ := h.held i source hs hheld
    obtain ⟨l', hs''⟩ := h'.held i _ hs' hheld
    exact ⟨l', hs''⟩
  listening i hl := h'.listening i (h.listening i hl)

/-- What changes no source. -/
theorem Outer.of_same (hnext : s'.next = s.next) (hcreating : s'.creating = s.creating)
    (hdata : s'.sourceData = s.sourceData) (hsources : s'.sources = s.sources)
    (hbackend : s'.backendListening = s.backendListening) (htarget : s'.targetListening = s.targetListening) :
    Outer s s' where
  next := hnext
  creating := hcreating
  data := hdata
  sources i source' hs := ⟨source', source'.sessions, by rwa [← hsources], rfl⟩
  held i source hs _ := ⟨source.sessions, by rw [hsources, hs]⟩
  listening i hl := ⟨by rw [hbackend, hsources, hl.backend], by rw [htarget, hsources, hl.target]⟩

theorem Outer.refl (s : State) : Outer s s := .of_same rfl rfl rfl rfl rfl rfl

/-- The work on one session leaves the other sessions and their frames alone. -/
structure Within (s s' : State) (k : ℕ) : Prop extends Outer s s' where
  frames : ∀ f, (∀ frame, s.frames f = some frame → frame.session ≠ k) → s'.frames f = s.frames f
  sessions : ∀ k' ≠ k, s'.sessions k' = s.sessions k'

theorem Within.trans (h : Within s s' k) (h' : Within s' t k) : Within s t k where
  toOuter := h.toOuter.trans h'.toOuter
  frames f hf := by
    have heq := h.frames f hf
    exact (h'.frames f fun frame hs => hf frame (heq ▸ hs)).trans heq
  sessions k' hk' := (h'.sessions k' hk').trans (h.sessions k' hk')

theorem Within.refl (s : State) (k : ℕ) : Within s s k :=
  ⟨.of_same rfl rfl rfl rfl rfl rfl, fun _ _ => rfl, fun _ _ => rfl⟩

theorem faulted_within (s : State) (k : ℕ) : Within s s.faulted k :=
  ⟨.of_same rfl rfl rfl rfl rfl rfl, fun _ _ => rfl, fun _ _ => rfl⟩

theorem send_within (s : State) (e : Entry) (k : ℕ) : Within s (s.send e) k :=
  ⟨.of_same rfl rfl rfl rfl rfl rfl, fun _ _ => rfl, fun _ _ => rfl⟩

theorem setSession_within (s : State) (k : ℕ) (session : Session) : Within s (s.setSession k session) k :=
  ⟨.of_same rfl rfl rfl rfl rfl rfl, fun _ _ => rfl, fun _ hk' => Function.update_of_ne hk' _ _⟩

/-- Nothing is sent, and objects may be gone; a session may have lost its frame. -/
structure Shrinks (s s' : State) (k : ℕ) : Prop extends Within s s' k where
  trace : s'.trace = s.trace
  fewer : ∀ f frame, s'.frames f = some frame → s.frames f = some frame
  session : ∀ session', s'.sessions k = some session' →
    ∃ session frame, s.sessions k = some session ∧ session' = { session with frame := frame }

theorem Shrinks.trans (h : Shrinks s s' k) (h' : Shrinks s' t k) : Shrinks s t k where
  toWithin := h.toWithin.trans h'.toWithin
  trace := h'.trace.trans h.trace
  fewer f frame hf := h.fewer f frame (h'.fewer f frame hf)
  session session'' hs'' := by
    obtain ⟨session', frame', hs', rfl⟩ := h'.session session'' hs''
    obtain ⟨session, frame, hs, rfl⟩ := h.session session' hs'
    exact ⟨session, frame', hs, rfl⟩

theorem Shrinks.refl (s : State) (k : ℕ) : Shrinks s s k :=
  ⟨.refl s k, rfl, fun _ _ hf => hf, fun session hs => ⟨session, session.frame, hs, rfl⟩⟩

theorem faulted_shrinks (s : State) (k : ℕ) : Shrinks s s.faulted k :=
  ⟨faulted_within s k, rfl, fun _ _ hf => hf, fun session hs => ⟨session, session.frame, hs, rfl⟩⟩

theorem detachFrame_shrinks (s : State) (f k : ℕ) : Shrinks s (s.detachFrame f k) k := by
  unfold detachFrame
  split
  · exact faulted_shrinks s k
  next session hk =>
    split
    · exact ⟨setSession_within s k _, rfl, fun _ _ hf => hf, fun session' hs =>
        ⟨session, none, hk, by simpa [setSession, eq_comm] using hs⟩⟩
    · exact .refl s k

theorem freeFrame_shrinks (hf : ∀ frame, s.frames f = some frame → frame.session = k) : Shrinks s (s.freeFrame f) k where
  toOuter := .of_same rfl rfl rfl rfl rfl rfl
  frames f' hf' := by
    by_cases heq : f' = f
    · subst heq
      cases hs : s.frames f' with
      | none => simp [freeFrame]
      | some frame => exact absurd (hf frame hs) (hf' frame hs)
    · exact Function.update_of_ne heq _ _
  sessions _ _ := rfl
  trace := rfl
  fewer f' frame hs := by
    simp only [freeFrame, Function.update_apply] at hs
    split at hs
    · cases hs
    · exact hs
  session session hs := ⟨session, session.frame, hs, rfl⟩

theorem sourceMaybeDestroy_shrinks (s : State) (i k : ℕ) : Shrinks s (s.sourceMaybeDestroy i) k := by
  unfold sourceMaybeDestroy
  split
  · exact faulted_shrinks s k
  next source hi =>
    split
    · exact .refl s k
    next hneeded =>
      simp only [Bool.or_eq_true, not_or, Bool.not_eq_true] at hneeded
      refine ⟨⟨⟨rfl, rfl, rfl, fun i' source' hs => ?_, fun i' source' hs hheld => ?_, fun i' hl => ?_⟩,
        fun _ _ => rfl, fun _ _ => rfl⟩, rfl, fun _ _ hf => hf, fun session hs => ⟨session, session.frame, hs, rfl⟩⟩
      · simp only [freeSource, Function.update_apply] at hs
        split at hs
        · cases hs
        · exact ⟨source', source'.sessions, hs, rfl⟩
      · have hne : i' ≠ i := by
          rintro rfl
          rw [hi, Option.some.injEq] at hs
          rw [← hs, hneeded.1.1] at hheld
          cases hheld
        exact ⟨source'.sessions, by simp only [freeSource, Function.update_of_ne hne, hs]⟩
      · by_cases hi' : i' = i
        · subst hi'
          have hbackend := hl.backend
          rw [hi, Option.any_some] at hbackend
          constructor
          · simp only [freeSource, Function.update_self, Option.any_none]
            split
            · exact Function.update_self i' _ _
            next hnot => rw [hbackend, Bool.not_eq_true _ |>.mp hnot]
          · simp only [freeSource, Function.update_self, Option.any_none]
        · constructor
          · simp only [freeSource, Function.update_of_ne hi']
            split
            · rw [Function.update_of_ne hi', hl.backend]
            · exact hl.backend
          · simp only [freeSource, Function.update_of_ne hi', hl.target]

theorem unlinkSession_shrinks (s : State) (k i : ℕ) : Shrinks s (s.unlinkSession k i) k := by
  unfold unlinkSession
  split
  · exact faulted_shrinks s k
  next source hi =>
    refine ⟨⟨⟨rfl, rfl, rfl, fun i' source' hs => ?_, fun i' source' hs _ => ?_, fun i' hl => ?_⟩,
      fun _ _ => rfl, fun k' hk' => Function.update_of_ne hk' _ _⟩, rfl, fun _ _ hf => hf, fun session hs => ?_⟩
    · simp only [freeSession, setSource, Function.update_apply] at hs
      split at hs
      next hi' => exact ⟨source, _, hi' ▸ hi, (Option.some.inj hs).symm⟩
      · exact ⟨source', source'.sessions, hs, rfl⟩
    · by_cases hi' : i' = i
      · subst hi'
        obtain rfl := Option.some.inj (hi.symm.trans hs)
        exact ⟨_, Function.update_self ..⟩
      · exact ⟨source'.sessions, by simp only [freeSession, setSource, Function.update_of_ne hi', hs]⟩
    · by_cases hi' : i' = i
      · subst hi'
        have hbackend := hl.backend
        have htarget := hl.target
        rw [hi] at hbackend htarget
        exact ⟨by simpa [freeSession, setSource] using hbackend, by simpa [freeSession, setSource] using htarget⟩
      · constructor
        · simp only [freeSession, setSource, Function.update_of_ne hi', hl.backend]
        · simp only [freeSession, setSource, Function.update_of_ne hi', hl.target]
    · simp [freeSession] at hs

theorem sessionMaybeDestroy_shrinks (s : State) (k : ℕ) : Shrinks s (s.sessionMaybeDestroy k) k := by
  unfold sessionMaybeDestroy
  split
  · exact faulted_shrinks s k
  · split
    · exact .refl s k
    · exact (unlinkSession_shrinks s k _).trans (sourceMaybeDestroy_shrinks _ _ k)

/-- The end of a frame only takes objects away, and works on one session. -/
theorem frameFinish_shrinks (hf : s.frames f = some frame) : Shrinks s (s.frameFinish f) frame.session := by
  unfold frameFinish
  simp only [hf]
  have hdetach := detachFrame_shrinks s f frame.session
  refine (hdetach.trans (freeFrame_shrinks fun frame' hs => ?_)).trans (sessionMaybeDestroy_shrinks _ _)
  exact congrArg Frame.session (Option.some.inj ((hdetach.fewer f frame' hs).symm.trans hf))

theorem frameFinish_gone (hf : s.frames f = some frame) : (s.frameFinish f).frames f = none := by
  simp only [frameFinish, hf]
  cases hs : (State.sessionMaybeDestroy ((s.detachFrame f frame.session).freeFrame f) frame.session).frames f with
  | none => rfl
  | some frame' =>
    have hs' := (sessionMaybeDestroy_shrinks _ _).fewer f frame' hs
    simp [freeFrame] at hs'

theorem sourceMaybeDestroy_fault (hi : s.sources i = some source) : (s.sourceMaybeDestroy i).fault = s.fault := by
  simp only [sourceMaybeDestroy, hi]
  split <;> rfl

theorem sessionMaybeDestroy_fault (hk : s.sessions k = some session) (hi : s.sources session.source = some source) :
    (s.sessionMaybeDestroy k).fault = s.fault := by
  simp only [sessionMaybeDestroy, hk]
  split
  · rfl
  · rw [@sourceMaybeDestroy_fault _ _ { source with sessions := source.sessions.erase k }]
    · simp only [unlinkSession, hi]
      rfl
    · simp only [unlinkSession, hi, freeSession, setSource, Function.update_self]

/-- The end of a frame that lives uses nothing that is freed. -/
theorem frameFinish_fault (h : Linked s.links) (hf : s.frames f = some frame) :
    (s.frameFinish f).fault = s.fault := by
  obtain ⟨session, source, hk, hheld, hi, _⟩ := h.of_frame hf
  simp only [frameFinish, hf, detachFrame, hk, hheld, if_true]
  exact @sessionMaybeDestroy_fault _ _ { session with frame := none } _ (by simp [freeFrame, setSession])
    (by simpa [freeFrame, setSession] using hi)

end FlakeWm.CopyCapture
