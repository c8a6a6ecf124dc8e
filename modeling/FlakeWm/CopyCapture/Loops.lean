import FlakeWm.CopyCapture.Handlers

/-! The loops over the sessions of a source. A round works on one session; the source is held, so that it
    is still there when the loop has ended, whatever the rounds have freed. -/

namespace FlakeWm.CopyCapture

open State

variable {s t t' : State} {f k k' i : ℕ} {frame : Frame} {session : Session} {source source' : Source}

/-- A session and its frame are as they were. -/
structure Untouched (s t : State) (k : ℕ) : Prop where
  session : t.sessions k = s.sessions k
  frame : ∀ session f, s.sessions k = some session → session.frame = some f → t.frames f = s.frames f

theorem Untouched.within (h : Untouched s t k') (hlinked : Linked t.links) (hwithin : Within t t' k) (hne : k' ≠ k) :
    Untouched s t' k' where
  session := (hwithin.sessions k' hne).trans h.session
  frame session f hs hf := by
    refine (hwithin.frames f fun frame hframe heq => hne ?_).trans (h.frame session f hs hf)
    obtain ⟨frame', hframe', hsession⟩ := hlinked.frame_of_session (h.session.trans hs) hf
    rw [← hsession, ← heq, Option.some.inj (hframe'.symm.trans hframe)]

/-- A loop whose rounds are sound is sound when each round finds its session untouched and the source
    held. -/
theorem loop_sound (round : State → ℕ → State) (hi : s.sources i = some source) (hheld : source.stopping = true) :
    ∀ (l : List ℕ) {t : State}, Sound t → Outer s t → l.Nodup → (∀ k ∈ l, Untouched s t k) →
    (∀ k ∈ l, ∀ t, Sound t → Untouched s t k → (∃ l', t.sources i = some { source with sessions := l' }) →
      Sound (round t k) ∧ Within t (round t k) k) →
    Sound (l.foldl round t) ∧ Outer s (l.foldl round t)
  | [], _, h, houter, _, _, _ => ⟨h, houter⟩
  | k :: l, t, h, houter, hnodup, huntouched, hround => by
      obtain ⟨hnew, hnodup⟩ := List.nodup_cons.1 hnodup
      obtain ⟨hsound, hwithin⟩ := hround k List.mem_cons_self t h (huntouched k List.mem_cons_self)
        (houter.held i source hi hheld)
      refine loop_sound round hi hheld l hsound (houter.trans hwithin.toOuter) hnodup (fun k' hk' => ?_)
        fun k' hk' => hround k' (List.mem_cons_of_mem k hk')
      exact (huntouched k' (List.mem_cons_of_mem k hk')).within h.alive.linked hwithin fun heq => hnew (heq ▸ hk')

/-- No source is held, as it is between two events. -/
def Released (s : State) : Prop := ∀ i source, s.sources i = some source → source.stopping = false

/-- What an event of a backend or a target leaves: the client's resources, and a session being created. -/
structure Nested (s s' : State) : Prop where
  creating : s'.creating = s.creating
  data : s'.sourceData = s.sourceData

theorem hold_links (s : State) (i : ℕ) (source : Source) {held : Bool} (hlink : source'.link = { source.link with held := held }) :
    (s.setSource i source').links = s.links.hold i source.link held := by
  simp only [State.links, setSource, Links.hold, map_update, Option.map_some, hlink]

theorem Sane.setSource_same (h : Sane s) (hi : s.sources i = some source) (source' : Source)
    (hsized : ∀ buffer, source'.buffer = some buffer → source'.width = buffer.width ∧ source'.height = buffer.height)
    (hbackend : source'.backend = source.backend) (htarget : source'.target = source.target) :
    Sane (s.setSource i source') := by
  have hl := h.listening i
  refine h.setSource hi hsized ?_ ?_
  · rw [Function.update_eq_self_iff.2 (by rw [hl.backend, hi, hbackend]; rfl)]
  · rw [Function.update_eq_self_iff.2 (by rw [hl.target, hi, htarget]; rfl)]

/-- The end of a loop gives the source up, and frees it when the rounds have left nothing that needs it. -/
theorem endLoop_spec (h : Sound s) (hi : s.sources i = some source)
    (hothers : ∀ i' ≠ i, ∀ source', s.sources i' = some source' → source'.stopping = false) :
    Sound (s.endLoop i) ∧ Released (s.endLoop i) ∧ Nested s (s.endLoop i) := by
  simp only [endLoop, hi]
  have hshrinks := sourceMaybeDestroy_shrinks (s.setSource i { source with stopping := false }) i 0
  refine ⟨⟨?_, ?_, ?_⟩, fun i' source' hs => ?_, hshrinks.creating, hshrinks.data⟩
  · exact hshrinks.sane (h.sane.setSource_same hi _ (h.sane.sized i source hi) rfl rfl)
  · have hlinks : (s.setSource i { source with stopping := false }).links = s.links.hold i source.link false :=
      hold_links s i source rfl
    rw [sourceMaybeDestroy_links, hlinks]
    exact release_alive h.alive (links_source hi)
  · exact (sourceMaybeDestroy_fault (Function.update_self ..)).trans h.fine
  · obtain ⟨source'', _, hs', rfl⟩ := hshrinks.sources i' source' hs
    by_cases hi' : i' = i
    · subst hi'
      rw [setSource_self] at hs'
      rw [← Option.some.inj hs']
    · exact hothers i' hi' source'' ((Function.update_of_ne hi' _ _).symm.trans hs')

/-- A loop over the sessions of a source: the source is changed and held, the rounds follow and the source is
    given up. -/
theorem held_loop {round : State → ℕ → State} (h : Sound s) (hreleased : Released s) (hi : s.sources i = some source)
    (hlink : source'.link = { source.link with held := true })
    (hsized : ∀ buffer, source'.buffer = some buffer → source'.width = buffer.width ∧ source'.height = buffer.height)
    (hbackend : source'.backend = source.backend) (htarget : source'.target = source.target)
    (hround : ∀ k session, k ∈ source.sessions → s.sessions k = some session → session.source = i → ∀ t, Sound t →
      t.sessions k = some session → (∀ f, session.frame = some f → t.frames f = s.frames f) →
      (∃ l, t.sources i = some { source' with sessions := l }) → Sound (round t k) ∧ Within t (round t k) k) :
    Sound ((source.sessions.foldl round (s.setSource i source')).endLoop i) ∧
      Released ((source.sessions.foldl round (s.setSource i source')).endLoop i) ∧
      Nested s ((source.sessions.foldl round (s.setSource i source')).endLoop i) := by
  have hheld : source'.stopping = true := congrArg SourceLink.held hlink
  have hself : (s.setSource i source').sources i = some source' := Function.update_self ..
  have hstart : Sound (s.setSource i source') := ⟨h.sane.setSource_same hi source' hsized hbackend htarget, by
    rw [hold_links s i source hlink]
    exact hold_alive h.alive (links_source hi), h.fine⟩
  obtain ⟨hsound, houter⟩ := loop_sound round hself hheld source.sessions hstart (.refl _)
    (h.alive.linked.nodup i _ (links_source hi)) (fun k _ => ⟨rfl, fun _ _ _ _ => rfl⟩) fun k hk t ht huntouched hsource => by
      obtain ⟨session, hs, hsession⟩ := h.alive.linked.of_member hi hk
      exact hround k session hk hs hsession t ht (huntouched.session.trans hs)
        (fun f hf => huntouched.frame session f hs hf) hsource
  obtain ⟨l, hend⟩ := houter.held i source' hself hheld
  obtain ⟨hsound', hreleased', hnested⟩ := endLoop_spec hsound hend fun i' hi' source'' hs => by
    obtain ⟨source₀, _, hs', rfl⟩ := houter.sources i' source'' hs
    exact hreleased i' source₀ ((Function.update_of_ne hi' _ _).symm.trans hs')
  exact ⟨hsound', hreleased', hnested.creating.trans houter.creating, hnested.data.trans houter.data⟩

/-- `source_stop` stops every session of the source. -/
theorem sourceStop_spec (h : Sound s) (hreleased : Released s) (hi : s.sources i = some source) :
    Sound (s.sourceStop i) ∧ Released (s.sourceStop i) ∧ Nested s (s.sourceStop i) := by
  simp only [sourceStop, hi]
  split
  · exact ⟨h, hreleased, rfl, rfl⟩
  · exact held_loop h hreleased hi rfl (h.sane.sized i source hi) rfl rfl
      fun k session _ _ _ t ht hk _ _ => sessionStop_spec ht hk

/-- A source changes what it has and listens to. -/
theorem changeSource_spec (h : Sound s) (hreleased : Released s) (hi : s.sources i = some source) (source' : Source)
    (backend target : ℕ → Bool) (hlink : source'.link = source.link)
    (hbuffer : source'.buffer = source.buffer ∧ source'.width = source.width ∧ source'.height = source.height)
    (hbackend : backend = Function.update s.backendListening i source'.backend)
    (htarget : target = Function.update s.targetListening i source'.target) :
    Sound { s.setSource i source' with backendListening := backend, targetListening := target } ∧
      Released { s.setSource i source' with backendListening := backend, targetListening := target } := by
  refine ⟨⟨h.sane.setSource hi ?_ hbackend htarget, ?_, h.fine⟩, fun i' source'' hs => ?_⟩
  · rw [hbuffer.1, hbuffer.2.1, hbuffer.2.2]
    exact h.sane.sized i source hi
  · exact (setSource_links hi hlink).symm ▸ h.alive
  · by_cases hi' : i' = i
    · subst hi'
      rw [← Option.some.inj ((setSource_self s i' source').symm.trans hs)]
      exact (congrArg SourceLink.held hlink).trans (hreleased i' source hi)
    · exact hreleased i' source'' ((Function.update_of_ne hi' _ _).symm.trans hs)

/-- The backend of a source is gone. -/
theorem backendDestroy_spec (h : Sound s) (hreleased : Released s) (hlistening : s.backendListening i = true) :
    Sound (s.sourceHandleBackendDestroy i) ∧ Released (s.sourceHandleBackendDestroy i) ∧
      Nested s (s.sourceHandleBackendDestroy i) := by
  have hl := h.sane.listening i
  cases hi : s.sources i with
  | none => simp [hl.backend, hi] at hlistening
  | some source =>
    simp only [sourceHandleBackendDestroy, hi]
    obtain ⟨hsound, hreleased'⟩ := changeSource_spec h hreleased hi { source with backend := false } _
      s.targetListening rfl ⟨rfl, rfl, rfl⟩ rfl
      (Function.update_eq_self_iff.2 (by rw [hl.target, hi]; rfl)).symm
    obtain ⟨hsound', hreleased'', hnested⟩ := @sourceStop_spec _ i { source with backend := false }
      hsound hreleased' (Function.update_self ..)
    exact ⟨hsound', hreleased'', hnested.creating, hnested.data⟩

/-- The output or the view of a source is gone. -/
theorem targetDestroy_spec (h : Sound s) (hreleased : Released s) (hlistening : s.targetListening i = true) :
    Sound (s.sourceHandleTargetDestroy i) ∧ Released (s.sourceHandleTargetDestroy i) ∧
      Nested s (s.sourceHandleTargetDestroy i) := by
  have hl := h.sane.listening i
  cases hi : s.sources i with
  | none => simp [hl.target, hi] at hlistening
  | some source =>
    simp only [sourceHandleTargetDestroy, hi]
    obtain ⟨hsound, hreleased'⟩ := changeSource_spec h hreleased hi { source with target := false }
      s.backendListening _ rfl ⟨rfl, rfl, rfl⟩
      (Function.update_eq_self_iff.2 (by rw [hl.backend, hi]; rfl)).symm rfl
    obtain ⟨hsound', hreleased'', hnested⟩ := @sourceStop_spec _ i { source with target := false }
      hsound hreleased' (Function.update_self ..)
    exact ⟨hsound', hreleased'', hnested.creating, hnested.data⟩

end FlakeWm.CopyCapture
