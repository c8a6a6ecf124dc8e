import FlakeWm.Clipboard.Model

/-! What an event can do to the cache.

    The events on pipes and readers change one entry (`Acts`), the others replace the cache as a
    whole. `step_cases` says this once; the invariants of the takeover are derived from it. -/

namespace FlakeWm.Clipboard

variable {s s' : Seat}

/-- What happens to one entry of a cache with this `total`; readers come only when it is installed. -/
inductive Acts (installed : Prop) (total : ℕ) (e : Entry) : ℕ → Entry → List Delivery → Prop
  | written {bytes : List UInt8} {pipe : Pipe} (h : e.pipe.write bytes = some pipe) :
      Acts installed total e total { e with pipe := pipe } []
  | closed : Acts installed total e total { e with pipe := e.pipe.close } []
  | read {script : List Drain} {total' : ℕ} {e' : Entry} (h : e.drain total script = some (total', e')) :
      Acts installed total e total' e' []
  | joined {reader : ℕ} {script : List WriteResult} {w : Writer} (hi : installed)
      (h : Writer.flush e.data ⟨reader, 0, []⟩ script = some (w, .again)) :
      Acts installed total e total { e with writers := w :: e.writers } []
  | served {reader : ℕ} {script : List WriteResult} {w : Writer} {result : FlushEnd}
      {finished : Bool} (hi : installed)
      (h : Writer.flush e.data ⟨reader, 0, []⟩ script = some (w, result))
      (hfinished : finished = true → result = .finished) :
      Acts installed total e total { e with writers := e.writers }
        [⟨w.reader, e.mimeType, e.pipe.written, w.sent, finished⟩]
  | flushed {j : ℕ} {w w' : Writer} {script : List WriteResult} (hw : e.writers[j]? = some w)
      (h : w.flush e.data script = some (w', .again)) :
      Acts installed total e total { e with writers := e.writers.set j w' } []
  | left {j : ℕ} {w w' : Writer} {script : List WriteResult} {result : FlushEnd} {finished : Bool}
      (hw : e.writers[j]? = some w) (h : w.flush e.data script = some (w', result))
      (hfinished : finished = true → result = .finished) :
      Acts installed total e total { e with writers := e.writers.eraseIdx j }
        [⟨w'.reader, e.mimeType, e.pipe.written, w'.sent, finished⟩]

/-- An event on the pipe or the readers of one entry. -/
def OnEntry (s s' : Seat) : Prop :=
  ∃ p i e total e' ds, s.cache = some p ∧ p.entries[i]? = some e ∧
    Acts (s.current = some .persist) p.total e total e' ds ∧
    s' = { s with
      cache := some { p with total := total, entries := p.entries.set i e' }
      deliveries := s.deliveries ++ ds }

/-- A reader that finds no entry, or no manager. -/
def TurnedAway (s s' : Seat) : Prop :=
  ∃ reader mimeType, s' = s.deliver ⟨reader, mimeType, [], [], false⟩

namespace Seat

theorem onEntry_set {p : Persist} {i : ℕ} {e e' : Entry} (hp : s.cache = some p)
    (he : p.entries[i]? = some e)
    (h : Acts (s.current = some .persist) p.total e p.total e' []) :
    OnEntry s (s.setEntry p i e') :=
  ⟨p, i, e, p.total, e', [], hp, he, h, by simp [setEntry]⟩

theorem onEntry_destroy {p : Persist} {i : ℕ} {e : Entry} {rest : List Writer} {w : Writer}
    {finished : Bool} (hp : s.cache = some p) (he : p.entries[i]? = some e)
    (h : Acts (s.current = some .persist) p.total e p.total { e with writers := rest }
      [⟨w.reader, e.mimeType, e.pipe.written, w.sent, finished⟩]) :
    OnEntry s (s.selectionWriterDestroy p i e rest w finished) :=
  ⟨p, i, e, p.total, _, _, hp, he, h, rfl⟩

theorem clientWrites_cases {i : ℕ} {bytes : List UInt8} (h : s.clientWrites i bytes = some s') :
    OnEntry s s' := by
  simp only [clientWrites, Option.bind_eq_bind, Option.bind_eq_some_iff] at h
  obtain ⟨p, hp, e, he, pipe, hpipe, h⟩ := h
  cases h
  exact onEntry_set hp he (.written hpipe)

theorem clientCloses_cases {i : ℕ} (h : s.clientCloses i = some s') : OnEntry s s' := by
  simp only [clientCloses, Option.bind_eq_bind, Option.bind_eq_some_iff] at h
  obtain ⟨p, hp, e, he, h⟩ := h
  cases h
  exact onEntry_set hp he .closed

theorem handleReadable_cases {i : ℕ} {script : List Drain}
    (h : s.handleReadable i script = some s') : OnEntry s s' := by
  simp only [handleReadable, Option.bind_eq_bind, Option.bind_eq_some_iff] at h
  obtain ⟨p, hp, e, he, h⟩ := h
  split_ifs at h
  obtain ⟨⟨total, e'⟩, hdrain, h⟩ := Option.bind_eq_some_iff.mp h
  cases h
  exact ⟨p, i, e, total, e', [], hp, he, .read hdrain, by simp [setEntry]⟩

theorem handleWritable_cases {i j : ℕ} {script : List WriteResult} {hangup : Bool}
    (h : s.handleWritable i j script hangup = some s') : OnEntry s s' := by
  simp only [handleWritable, Option.bind_eq_bind, Option.bind_eq_some_iff] at h
  obtain ⟨p, hp, e, he, w, hw, ⟨w', result⟩, hflush, h⟩ := h
  cases result with
  | finished =>
    cases h
    exact onEntry_destroy hp he (.left hw hflush fun _ => rfl)
  | broken =>
    cases h
    exact onEntry_destroy hp he (.left hw hflush fun hf => by cases hf)
  | again =>
    cases hangup with
    | true =>
      cases h
      exact onEntry_destroy hp he (.left hw hflush fun hf => by cases hf)
    | false =>
      cases h
      exact onEntry_set hp he (.flushed hw hflush)

theorem persistSourceSend_cases {reader : ℕ} {mimeType : String} {script : List WriteResult}
    {watched : Bool} (h : s.persistSourceSend reader mimeType script watched = some s') :
    OnEntry s s' ∨ TurnedAway s s' := by
  by_cases hcurrent : s.current = some .persist
  swap
  · rw [persistSourceSend, if_pos hcurrent] at h
    cases h
  rw [persistSourceSend, if_neg (not_not.mpr hcurrent)] at h
  obtain ⟨p, hp, h⟩ := Option.bind_eq_some_iff.mp h
  dsimp only at h
  cases he : p.entries[p.persistFindEntry mimeType]? with
  | none =>
    rw [he] at h
    cases h
    exact .inr ⟨_, _, rfl⟩
  | some e =>
    rw [he] at h
    dsimp only at h
    cases hmanager : s.manager with
    | false =>
      rw [hmanager] at h
      cases h
      exact .inr ⟨_, _, rfl⟩
    | true =>
      rw [hmanager] at h
      obtain ⟨⟨w, result⟩, hflush, h⟩ := Option.bind_eq_some_iff.mp h
      refine .inl ?_
      cases result with
      | finished =>
        cases h
        exact onEntry_destroy hp he (.served hcurrent hflush fun _ => rfl)
      | broken =>
        cases h
        exact onEntry_destroy hp he (.served hcurrent hflush fun hf => by cases hf)
      | again =>
        cases watched with
        | true =>
          cases h
          exact onEntry_set hp he (.joined hcurrent hflush)
        | false =>
          cases h
          exact onEntry_destroy hp he (.served hcurrent hflush fun hf => by cases hf)

end Seat

/-- `handle_install` puts the idle callback away, or gives the cache up, or makes it the selection. -/
theorem handleInstall_cases {scripts : List (List Drain)} {count : ℕ}
    (h : s.handleInstall scripts count = some s') :
    ∃ p, s.cache = some p ∧ p.install = true ∧
      ((s.current.isSome = true ∧ s' = { s with cache := some { p with install := false } }) ∨
      (s.current = none ∧ ∃ total entries,
        Seat.drainEntries p.total p.entries scripts = some (total, entries) ∧
        (s' = { s with cache := some { p with
            install := false, total := total, entries := entries } }.persistSourceDestroy ∨
        (0 < count ∧ s' = { s with
          current := some .persist
          last := some .persist
          cache := some { p with
            install := false
            total := total
            entries := entries
            owned := true
            mimeTypes := (entries.map Entry.mimeType).take count } })))) := by
  rw [Seat.handleInstall] at h
  cases hp : s.cache with
  | none =>
    rw [hp] at h
    cases h
  | some p =>
    rw [hp] at h
    dsimp only at h
    by_cases hinstall : p.install = true
    swap
    · rw [if_pos (by simpa using hinstall)] at h
      cases h
    rw [if_neg (by simpa using hinstall)] at h
    refine ⟨p, rfl, hinstall, ?_⟩
    by_cases hcurrent : s.current.isSome = true
    · rw [if_pos hcurrent] at h
      cases h
      exact .inl ⟨hcurrent, rfl⟩
    · rw [if_neg hcurrent] at h
      have hnone : s.current = none := by simpa using hcurrent
      obtain ⟨⟨total, entries⟩, hdrain, h⟩ := Option.bind_eq_some_iff.mp h
      refine .inr ⟨hnone, total, entries, hdrain, ?_⟩
      split_ifs at h with hcount
      · cases h
        exact .inl rfl
      · cases h
        refine .inr ⟨by omega, ?_⟩
        simp [Seat.wlrSeatSetSelection, Seat.replace, Seat.handleSetSelection, hnone]

/-- What a step can do. -/
theorem step_cases {ev : Event} (h : step s ev = some s') :
    (∃ source mimeTypes made, ev = .setSelection source mimeTypes made ∧
      source ≠ some .persist ∧ s' = s.wlrSeatSetSelection source mimeTypes made) ∨
    (∃ scripts count, ev = .install scripts count ∧ s.handleInstall scripts count = some s') ∨
    (ev = .seatDestroy ∧ s' = s.handleSeatDestroy) ∨ OnEntry s s' ∨ TurnedAway s s' := by
  cases ev with
  | setSelection source mimeTypes made =>
    rw [step] at h
    split_ifs at h with hsource
    cases h
    exact .inl ⟨source, mimeTypes, made, rfl, hsource, rfl⟩
  | clientWrites i bytes => exact .inr (.inr (.inr (.inl (Seat.clientWrites_cases h))))
  | clientCloses i => exact .inr (.inr (.inr (.inl (Seat.clientCloses_cases h))))
  | readable i script => exact .inr (.inr (.inr (.inl (Seat.handleReadable_cases h))))
  | install scripts count => exact .inr (.inl ⟨scripts, count, rfl, h⟩)
  | send reader mimeType script watched =>
    exact .inr (.inr (.inr (Seat.persistSourceSend_cases h)))
  | writable i j script hangup => exact .inr (.inr (.inr (.inl (Seat.handleWritable_cases h))))
  | seatDestroy =>
    rw [step] at h
    split_ifs at h
    cases h
    exact .inr (.inr (.inl ⟨rfl, rfl⟩))

end FlakeWm.Clipboard
