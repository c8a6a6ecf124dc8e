import Mathlib.Logic.Function.Basic
import Mathlib.Data.List.Nodup

/-! Objects in three levels that keep each other alive.

    A source has any number of sessions and a session at most one frame. Each has a resource, by which a
    client can reach it. A session lives as long as it has its resource or a frame, a source as long as it
    has its resource or a session, or is held by a loop over its sessions. -/

namespace FlakeWm.CopyCapture

structure SessionLink where
  resource : Bool
  source : ℕ
  frame : Option ℕ

structure SourceLink where
  held : Bool
  resource : Bool
  sessions : List ℕ

/-- The session of each frame, what sessions and sources refer to, and which resources lead to them. -/
structure Links where
  frame : ℕ → Option ℕ
  session : ℕ → Option SessionLink
  source : ℕ → Option SourceLink
  frameData : ℕ → Bool
  sessionData : ℕ → Bool
  sourceData : ℕ → Bool

variable {L : Links} {f k i : ℕ} {session : SessionLink} {source : SourceLink}

/-- All references lead to what refers back, and the resources to what knows its resource. -/
structure Linked (L : Links) : Prop where
  frameData : ∀ f, L.frameData f = (L.frame f).isSome
  sessionData : ∀ k, L.sessionData k = (L.session k).any (·.resource)
  sourceData : ∀ i, L.sourceData i = (L.source i).any (·.resource)
  frame : ∀ f k, L.frame f = some k → ∃ session, L.session k = some session ∧ session.frame = some f
  session : ∀ k session, L.session k = some session → ∀ f, session.frame = some f → L.frame f = some k
  listed : ∀ k session, L.session k = some session →
    ∃ source, L.source session.source = some source ∧ k ∈ source.sessions
  nodup : ∀ i source, L.source i = some source → source.sessions.Nodup
  member : ∀ i source, L.source i = some source → ∀ k ∈ source.sessions,
    ∃ session, L.session k = some session ∧ session.source = i

/-- A session that lives has its resource or a frame. -/
def SessionKept (L : Links) (k : ℕ) : Prop :=
  ∀ session, L.session k = some session → session.resource = true ∨ session.frame.isSome

/-- A source that lives is held, or has its resource or a session. -/
def SourceKept (L : Links) (i : ℕ) : Prop :=
  ∀ source, L.source i = some source → source.held = true ∨ source.resource = true ∨ source.sessions ≠ []

/-- Only what is needed lives. -/
structure Alive (L : Links) : Prop where
  linked : Linked L
  session : ∀ k, SessionKept L k
  source : ∀ i, SourceKept L i

namespace Links

def dropFrame (L : Links) (f k : ℕ) (session : SessionLink) : Links :=
  { L with
    frame := Function.update L.frame f none
    frameData := Function.update L.frameData f false
    session := Function.update L.session k (some { session with frame := none }) }

def unlink (L : Links) (k i : ℕ) (source : SourceLink) : Links :=
  { L with
    session := Function.update L.session k none
    source := Function.update L.source i (some { source with sessions := source.sessions.erase k }) }

def freeSource (L : Links) (i : ℕ) : Links := { L with source := Function.update L.source i none }

/-- A source that nothing needs is freed. -/
def settleSource (L : Links) (i : ℕ) : Links :=
  match L.source i with
  | none => L
  | some source => if source.held || source.resource || !source.sessions.isEmpty then L else L.freeSource i

/-- A session that nothing needs is freed, and its source with it when that was the last need. -/
def settleSession (L : Links) (k : ℕ) : Links :=
  match L.session k with
  | none => L
  | some session =>
    if session.resource || session.frame.isSome then L
    else
      match L.source session.source with
      | none => L
      | some source => (L.unlink k session.source source).settleSource session.source

/-- The end of a frame. -/
def finishFrame (L : Links) (f : ℕ) : Links :=
  match L.frame f with
  | none => L
  | some k =>
    match L.session k with
    | none => L
    | some session => (L.dropFrame f k session).settleSession k

def loseSession (L : Links) (k : ℕ) (session : SessionLink) : Links :=
  { L with
    session := Function.update L.session k (some { session with resource := false })
    sessionData := Function.update L.sessionData k false }

def loseSource (L : Links) (i : ℕ) (source : SourceLink) : Links :=
  { L with
    source := Function.update L.source i (some { source with resource := false })
    sourceData := Function.update L.sourceData i false }

def hold (L : Links) (i : ℕ) (source : SourceLink) (held : Bool) : Links :=
  { L with source := Function.update L.source i (some { source with held := held }) }

def addFrame (L : Links) (f k : ℕ) (session : SessionLink) : Links :=
  { L with
    frame := Function.update L.frame f (some k)
    frameData := Function.update L.frameData f true
    session := Function.update L.session k (some { session with frame := some f }) }

def addSession (L : Links) (k i : ℕ) (source : SourceLink) : Links :=
  { L with
    session := Function.update L.session k (some ⟨true, i, none⟩)
    sessionData := Function.update L.sessionData k true
    source := Function.update L.source i (some { source with sessions := k :: source.sessions }) }

def addSource (L : Links) (i : ℕ) : Links :=
  { L with
    source := Function.update L.source i (some ⟨false, true, []⟩)
    sourceData := Function.update L.sourceData i true }

end Links

theorem Linked.dropFrame (h : Linked L) (hf : L.frame f = some k) (hk : L.session k = some session) :
    Linked (L.dropFrame f k session) := by
  have hheld : session.frame = some f := by
    obtain ⟨_, hk', hheld⟩ := h.frame f k hf
    rwa [Option.some.inj (hk.symm.trans hk')]
  obtain ⟨h1, h2, h3, h4, h5, h6, h7, h8⟩ := h
  constructor <;> simp only [Links.dropFrame, Function.update_apply] <;> grind

theorem Linked.unlink (h : Linked L) (hk : L.session k = some session) (hi : L.source session.source = some source)
    (hresource : session.resource = false) (hframe : session.frame = none) :
    Linked (L.unlink k session.source source) := by
  have hnodup := h.nodup _ _ hi
  have hmem : ∀ k', k' ∈ source.sessions.erase k ↔ k' ≠ k ∧ k' ∈ source.sessions := fun k' => hnodup.mem_erase_iff
  have herase := hnodup.erase k
  obtain ⟨h1, h2, h3, h4, h5, h6, h7, h8⟩ := h
  constructor <;> simp only [Links.unlink, Function.update_apply] <;> grind

theorem Linked.freeSource (h : Linked L) (hi : L.source i = some source) (hresource : source.resource = false)
    (hnil : source.sessions = []) : Linked (L.freeSource i) := by
  obtain ⟨h1, h2, h3, h4, h5, h6, h7, h8⟩ := h
  constructor <;> simp only [Links.freeSource, Function.update_apply] <;> grind

theorem Linked.loseSession (h : Linked L) (hk : L.session k = some session) : Linked (L.loseSession k session) := by
  obtain ⟨h1, h2, h3, h4, h5, h6, h7, h8⟩ := h
  constructor <;> simp only [Links.loseSession, Function.update_apply] <;> grind

theorem Linked.loseSource (h : Linked L) (hi : L.source i = some source) : Linked (L.loseSource i source) := by
  obtain ⟨h1, h2, h3, h4, h5, h6, h7, h8⟩ := h
  constructor <;> simp only [Links.loseSource, Function.update_apply] <;> grind

theorem Linked.hold (h : Linked L) (hi : L.source i = some source) (held : Bool) : Linked (L.hold i source held) := by
  obtain ⟨h1, h2, h3, h4, h5, h6, h7, h8⟩ := h
  constructor <;> simp only [Links.hold, Function.update_apply] <;> grind

theorem Linked.addFrame (h : Linked L) (hf : L.frame f = none) (hk : L.session k = some session)
    (hframe : session.frame = none) : Linked (L.addFrame f k session) := by
  obtain ⟨h1, h2, h3, h4, h5, h6, h7, h8⟩ := h
  constructor <;> simp only [Links.addFrame, Function.update_apply] <;> grind

theorem Linked.addSession (h : Linked L) (hk : L.session k = none) (hi : L.source i = some source) :
    Linked (L.addSession k i source) := by
  have hnew : k ∉ source.sessions := fun hmem => by
    obtain ⟨_, hk', _⟩ := h.member i source hi k hmem
    simp [hk] at hk'
  have hnodup : (k :: source.sessions).Nodup := List.nodup_cons.2 ⟨hnew, h.nodup i source hi⟩
  have hmember : ∀ k' ∈ k :: source.sessions,
      ∃ session, Function.update L.session k (some ⟨true, i, none⟩) k' = some session ∧ session.source = i := by
    intro k' hmem
    by_cases hk' : k' = k
    · exact ⟨_, by rw [hk', Function.update_self], rfl⟩
    · rw [Function.update_of_ne hk']
      exact h.member i source hi k' (List.mem_of_ne_of_mem hk' hmem)
  obtain ⟨h1, h2, h3, h4, h5, h6, h7, h8⟩ := h
  constructor <;> simp only [Links.addSession, Function.update_apply] at hmember ⊢ <;> grind

theorem Linked.addSource (h : Linked L) (hi : L.source i = none) : Linked (L.addSource i) := by
  obtain ⟨h1, h2, h3, h4, h5, h6, h7, h8⟩ := h
  constructor <;> simp only [Links.addSource, Function.update_apply] <;> grind

/-- Settling the one source that may be unneeded leaves only what is needed. -/
theorem settleSource_alive (h : Linked L) (hsession : ∀ k, SessionKept L k) (hsource : ∀ i' ≠ i, SourceKept L i') :
    Alive (L.settleSource i) := by
  unfold Links.settleSource
  split
  next hi => exact ⟨h, hsession, fun i' => by
    by_cases hi' : i' = i
    · intro source hs
      simp [hi', hi] at hs
    · exact hsource i' hi'⟩
  next source hi =>
    split
    next hneeded =>
      refine ⟨h, hsession, fun i' => ?_⟩
      by_cases hi' : i' = i
      · intro source' hs
        obtain rfl : source = source' := by simpa [hi', hi] using hs
        simpa [or_assoc] using hneeded
      · exact hsource i' hi'
    next hneeded =>
      simp only [Bool.or_eq_true, not_or, Bool.not_eq_true, Bool.not_eq_false', List.isEmpty_iff] at hneeded
      refine ⟨h.freeSource hi hneeded.1.2 hneeded.2, hsession, fun i' source' hs => ?_⟩
      simp only [Links.freeSource, Function.update_apply] at hs
      split at hs
      · cases hs
      next hi' => exact hsource i' hi' source' hs

/-- Settling the one session that may be unneeded leaves only what is needed. -/
theorem settleSession_alive (h : Linked L) (hsession : ∀ k' ≠ k, SessionKept L k') (hsource : ∀ i, SourceKept L i) :
    Alive (L.settleSession k) := by
  have hall : (∀ session, L.session k = some session → session.resource = true ∨ session.frame.isSome) → Alive L :=
    fun hk => ⟨h, fun k' => if hk' : k' = k then hk' ▸ hk else hsession k' hk', hsource⟩
  unfold Links.settleSession
  split
  next hk => exact hall fun session hs => by simp [hk] at hs
  next session hk =>
    split
    next hneeded =>
      refine hall fun session' hs => ?_
      obtain rfl : session = session' := by simpa [hk] using hs
      simpa using hneeded
    next hneeded =>
      simp only [Bool.or_eq_true, not_or, Bool.not_eq_true, Option.isSome_eq_false_iff, Option.isNone_iff_eq_none] at hneeded
      obtain ⟨source, hi, _⟩ := h.listed k session hk
      simp only [hi]
      refine settleSource_alive (h.unlink hk hi hneeded.1 hneeded.2) (fun k' session' hs => ?_) fun i' hi' source' hs => ?_
      · simp only [Links.unlink, Function.update_apply] at hs
        split at hs
        · cases hs
        next hk' => exact hsession k' hk' session' hs
      · simp only [Links.unlink, Function.update_of_ne hi'] at hs
        exact hsource i' source' hs

/-- The end of a frame frees what only the frame kept alive. -/
theorem finishFrame_alive (h : Alive L) (f : ℕ) : Alive (L.finishFrame f) := by
  unfold Links.finishFrame
  split
  · exact h
  next k hf =>
    obtain ⟨session, hk, hheld⟩ := h.linked.frame f k hf
    simp only [hk]
    refine settleSession_alive (h.linked.dropFrame hf hk) (fun k' hk' session' hs => ?_) h.source
    simp only [Links.dropFrame, Function.update_of_ne hk'] at hs
    exact h.session k' session' hs

theorem loseSession_alive (h : Alive L) (hk : L.session k = some session) :
    Alive ((L.loseSession k session).settleSession k) := by
  refine settleSession_alive (h.linked.loseSession hk) (fun k' hk' session' hs => ?_) h.source
  simp only [Links.loseSession, Function.update_of_ne hk'] at hs
  exact h.session k' session' hs

theorem loseSource_alive (h : Alive L) (hi : L.source i = some source) :
    Alive ((L.loseSource i source).settleSource i) := by
  refine settleSource_alive (h.linked.loseSource hi) h.session fun i' hi' source' hs => ?_
  simp only [Links.loseSource, Function.update_of_ne hi'] at hs
  exact h.source i' source' hs

theorem hold_alive (h : Alive L) (hi : L.source i = some source) : Alive (L.hold i source true) := by
  refine ⟨h.linked.hold hi true, h.session, fun i' source' hs => ?_⟩
  simp only [Links.hold, Function.update_apply] at hs
  split at hs
  · exact .inl (by rw [← Option.some.inj hs])
  · exact h.source i' source' hs

theorem release_alive (h : Alive L) (hi : L.source i = some source) :
    Alive ((L.hold i source false).settleSource i) := by
  refine settleSource_alive (h.linked.hold hi false) h.session fun i' hi' source' hs => ?_
  simp only [Links.hold, Function.update_of_ne hi'] at hs
  exact h.source i' source' hs

theorem addFrame_alive (h : Alive L) (hf : L.frame f = none) (hk : L.session k = some session)
    (hframe : session.frame = none) : Alive (L.addFrame f k session) := by
  refine ⟨h.linked.addFrame hf hk hframe, fun k' session' hs => ?_, h.source⟩
  simp only [Links.addFrame, Function.update_apply] at hs
  split at hs
  · exact .inr (by simp [← Option.some.inj hs])
  · exact h.session k' session' hs

theorem addSession_alive (h : Alive L) (hk : L.session k = none) (hi : L.source i = some source) :
    Alive (L.addSession k i source) := by
  refine ⟨h.linked.addSession hk hi, fun k' session' hs => ?_, fun i' source' hs => ?_⟩
  · simp only [Links.addSession, Function.update_apply] at hs
    split at hs
    · exact .inl (by rw [← Option.some.inj hs])
    · exact h.session k' session' hs
  · simp only [Links.addSession, Function.update_apply] at hs
    split at hs
    · exact .inr (.inr (by simp [← Option.some.inj hs]))
    · exact h.source i' source' hs

theorem addSource_alive (h : Alive L) (hi : L.source i = none) : Alive (L.addSource i) := by
  refine ⟨h.linked.addSource hi, h.session, fun i' source' hs => ?_⟩
  simp only [Links.addSource, Function.update_apply] at hs
  split at hs
  · exact .inr (.inl (by rw [← Option.some.inj hs]))
  · exact h.source i' source' hs

/-- Sessions live exactly as long as their resource or their frame. -/
theorem Alive.session_iff (h : Alive L) (k : ℕ) :
    (L.session k).isSome ↔ L.sessionData k = true ∨ ∃ f, L.frame f = some k := by
  rw [h.linked.sessionData k]
  constructor
  · intro hsome
    obtain ⟨session, hk⟩ := Option.isSome_iff_exists.1 hsome
    rcases h.session k session hk with hresource | hframe
    · exact .inl (by simp [hk, hresource])
    · obtain ⟨f, hf⟩ := Option.isSome_iff_exists.1 hframe
      exact .inr ⟨f, h.linked.session k session hk f hf⟩
  · rintro (hresource | ⟨f, hf⟩)
    · cases hk : L.session k with
      | none => simp [hk] at hresource
      | some session => rfl
    · obtain ⟨session, hk, _⟩ := h.linked.frame f k hf
      simp [hk]

/-- Sources that no loop holds live exactly as long as their resource or a session. -/
theorem Alive.source_iff (h : Alive L) (i : ℕ) (hheld : ∀ source, L.source i = some source → source.held = false) :
    (L.source i).isSome ↔ L.sourceData i = true ∨ ∃ k session, L.session k = some session ∧ session.source = i := by
  rw [h.linked.sourceData i]
  constructor
  · intro hsome
    obtain ⟨source, hi⟩ := Option.isSome_iff_exists.1 hsome
    rcases h.source i source hi with hh | hresource | hsessions
    · simp [hheld source hi] at hh
    · exact .inl (by simp [hi, hresource])
    · obtain ⟨k, hk⟩ := List.exists_mem_of_ne_nil _ hsessions
      obtain ⟨session, hs, hsource⟩ := h.linked.member i source hi k hk
      exact .inr ⟨k, session, hs, hsource⟩
  · rintro (hresource | ⟨k, session, hk, rfl⟩)
    · cases hi : L.source i with
      | none => simp [hi] at hresource
      | some source => rfl
    · obtain ⟨source, hi, _⟩ := h.linked.listed k session hk
      simp [hi]

end FlakeWm.CopyCapture
