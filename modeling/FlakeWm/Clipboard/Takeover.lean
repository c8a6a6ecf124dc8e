import FlakeWm.Clipboard.Events

/-! Which selection the cache stands for.

    A client selection replaces the cache, a compositor-owned one leaves it alone. So the cache is
    that of the last selection unless a compositor-owned selection came after it; when that one
    becomes empty, `handle_set_selection` takes the old cache. -/

namespace FlakeWm.Clipboard

variable {s s' : Seat}

/-- The cache is that of the last selection, unless a compositor-owned one is in place; it is
    installed exactly while it is the selection. -/
structure Fresh (s : Seat) : Prop where
  unowned : ∀ p, s.cache = some p → p.owned = false → s.manager = true ∧
    ((s.last = some (.client p.origin) ∧
      (s.current = none ∨ s.current = some (.client p.origin))) ∨
    ∃ id, s.current = some (.compositor id))
  owned : ∀ p, s.cache = some p → p.owned = true → s.current = some .persist
  persist : s.current = some .persist → ∃ p, s.cache = some p ∧ p.owned = true

theorem fresh_of_no_cache (hcache : s.cache = none) (hcurrent : s.current ≠ some .persist) :
    Fresh s := by
  refine ⟨fun p hp => ?_, fun p hp => ?_, fun h => absurd h hcurrent⟩
  all_goals
    rw [hcache] at hp
    cases hp

/-- A change of the cache that leaves alone what it was made from. -/
theorem Fresh.cache_same {p p' : Persist} {ds : List Delivery} (hs : Fresh s)
    (hp : s.cache = some p) (horigin : p'.origin = p.origin) (howned : p'.owned = p.owned) :
    Fresh { s with cache := some p', deliveries := ds } := by
  refine ⟨fun q hq ho => ?_, fun q hq ho => ?_, fun hcurrent => ⟨p', rfl, ?_⟩⟩
  · cases hq
    rw [horigin]
    exact hs.unowned p hp (howned ▸ ho)
  · cases hq
    exact hs.owned p hp (howned ▸ ho)
  · obtain ⟨q, hq, ho⟩ := hs.persist hcurrent
    cases hp.symm.trans hq
    rw [howned, ho]

theorem persistSelectionCreate_origin {origin : ℕ} {mimeTypes : List String} {made : List Bool}
    {p : Persist} (h : persistSelectionCreate origin mimeTypes made = some p) :
    p.origin = origin ∧ p.owned = false := by
  simp only [persistSelectionCreate] at h
  split_ifs at h
  cases h
  exact ⟨rfl, rfl⟩

@[simp] theorem persistSourceDestroy_cache : s.persistSourceDestroy.cache = none := by
  rw [Seat.persistSourceDestroy]
  split
  · assumption
  · rfl

@[simp] theorem persistSourceDestroy_current : s.persistSourceDestroy.current = s.current := by
  rw [Seat.persistSourceDestroy]
  split <;> rfl

@[simp] theorem persistSourceDestroy_last : s.persistSourceDestroy.last = s.last := by
  rw [Seat.persistSourceDestroy]
  split <;> rfl

@[simp] theorem persistSourceDestroy_manager : s.persistSourceDestroy.manager = s.manager := by
  rw [Seat.persistSourceDestroy]
  split <;> rfl

/-! ### Steps -/

/-- The selection is not emptied while it is compositor-owned and an older cache is kept. -/
def clearsOnlyItsOwn (s : Seat) : Event → Bool
  | .setSelection none _ _ =>
    match s.current with
    | some (.compositor _) => s.cache.isNone
    | _ => true
  | _ => true

/-- Before a new selection is announced, an installed cache is gone with its selection. -/
theorem replace_unowned {source : Option Source} {p : Persist} (hs : Fresh s)
    (hp : (s.replace source).cache = some p) :
    s.cache = some p ∧ p.owned = false ∧ s.current ≠ some .persist := by
  simp only [Seat.replace] at hp
  split_ifs at hp with hcurrent
  · rw [persistSourceDestroy_cache] at hp
    cases hp
  · refine ⟨hp, ?_, hcurrent⟩
    rw [← Bool.not_eq_true]
    exact fun ho => hcurrent (hs.owned p hp ho)

@[simp] theorem replace_current {source : Option Source} : (s.replace source).current = source := rfl

@[simp] theorem replace_manager {source : Option Source} :
    (s.replace source).manager = s.manager := by
  simp only [Seat.replace]
  split_ifs <;> simp

theorem replace_last {source : Option Source} : (s.replace source).last = source.or s.last := by
  simp only [Seat.replace]
  split_ifs <;> simp

/-- An emptied selection was the one that the cache was made from, if it was not the cache. -/
theorem replace_none_fresh {mimeTypes : List String} {made : List Bool} (hs : Fresh s)
    (hok : clearsOnlyItsOwn s (.setSelection none mimeTypes made) = true) :
    Fresh (s.replace none) := by
  refine ⟨fun p hp ho => ?_, fun p hp ho => ?_, fun h => by cases h⟩
  · obtain ⟨hcache, -, hcurrent⟩ := replace_unowned hs hp
    obtain ⟨hm, ⟨hlast, -⟩ | ⟨id, hid⟩⟩ := hs.unowned p hcache ho
    · exact ⟨by rw [replace_manager, hm], .inl ⟨by rw [replace_last, hlast]; rfl, .inl rfl⟩⟩
    · simp [clearsOnlyItsOwn, hid, hcache] at hok
  · rw [(replace_unowned hs hp).2.1] at ho
    cases ho

theorem handleSetSelection_fresh {source : Option Source} {mimeTypes : List String}
    {made : List Bool} (hs : Fresh s) (hsource : source ≠ some .persist)
    (hok : clearsOnlyItsOwn s (.setSelection source mimeTypes made) = true) :
    Fresh ((s.replace source).handleSetSelection mimeTypes made) := by
  cases hm : s.manager with
  | false =>
    -- without the manager there is no cache that is not installed
    rw [Seat.handleSetSelection, replace_manager, hm]
    refine fresh_of_no_cache ?_ hsource
    rw [Option.eq_none_iff_forall_ne_some]
    intro p hp
    obtain ⟨hcache, ho, -⟩ := replace_unowned hs hp
    have htrue := (hs.unowned p hcache ho).1
    rw [hm] at htrue
    cases htrue
  | true =>
    rw [Seat.handleSetSelection, if_neg (by simp [hm]), replace_current]
    cases source with
    | some source =>
      cases source with
      | persist => exact absurd rfl hsource
      | compositor id =>
        refine ⟨fun p hp _ => ⟨by simp [hm], .inr ⟨id, rfl⟩⟩, fun p hp ho => ?_, fun h => by cases h⟩
        rw [(replace_unowned hs hp).2.1] at ho
        cases ho
      | client id =>
        refine ⟨fun p hp _ => ?_, fun p hp ho => ?_, fun h => by simp at h⟩
        · obtain ⟨rfl, -⟩ := persistSelectionCreate_origin hp
          exact ⟨by simp [hm], .inl ⟨by simp [replace_last], .inr (by simp)⟩⟩
        · rw [(persistSelectionCreate_origin hp).2] at ho
          cases ho
    | none =>
      have hnone := replace_none_fresh hs hok
      dsimp only
      split
      · exact hnone
      · next p hp =>
        split_ifs
        · exact hnone.cache_same hp rfl rfl
        · exact hnone

theorem setSelection_fresh {source : Option Source} {mimeTypes : List String} {made : List Bool}
    (hs : Fresh s) (hsource : source ≠ some .persist)
    (hok : clearsOnlyItsOwn s (.setSelection source mimeTypes made) = true) :
    Fresh (s.wlrSeatSetSelection source mimeTypes made) := by
  rw [Seat.wlrSeatSetSelection]
  split_ifs
  · exact hs
  · exact handleSetSelection_fresh hs hsource hok

/-- What `handle_install` makes the selection is what was cached of the last one. -/
theorem handleInstall_fresh {scripts : List (List Drain)} {count : ℕ} (hs : Fresh s)
    (h : s.handleInstall scripts count = some s') :
    Fresh s' ∧ (s.current ≠ some .persist → s'.current = some .persist →
      ∃ p, s'.cache = some p ∧ s.last = some (.client p.origin)) := by
  obtain ⟨p, hp, -, hcases⟩ := handleInstall_cases h
  obtain ⟨hsome, rfl⟩ | ⟨hnone, total, entries, -, rfl | ⟨-, rfl⟩⟩ := hcases
  · exact ⟨hs.cache_same hp rfl rfl, fun hne heq => absurd heq hne⟩
  · refine ⟨fresh_of_no_cache (by simp) (by simp [hnone]), fun hne heq => ?_⟩
    exact absurd (by simpa using heq) hne
  · have howned : p.owned = false := by
      rw [← Bool.not_eq_true]
      intro ho
      have hper := hs.owned p hp ho
      rw [hnone] at hper
      cases hper
    refine ⟨⟨fun q hq ho => ?_, fun q _ _ => rfl, fun _ => ⟨_, rfl, rfl⟩⟩, fun _ _ => ⟨_, rfl, ?_⟩⟩
    · cases hq
      cases ho
    · obtain ⟨-, ⟨hlast, -⟩ | ⟨id, hid⟩⟩ := hs.unowned p hp howned
      · exact hlast
      · rw [hnone] at hid
        cases hid

theorem seatDestroy_fresh (hs : Fresh s) : Fresh s.handleSeatDestroy := by
  rw [Seat.handleSeatDestroy]
  split
  · next hcache =>
    refine fresh_of_no_cache hcache fun hcurrent => ?_
    obtain ⟨p, hp, -⟩ := hs.persist hcurrent
    rw [hcache] at hp
    cases hp
  · next p hp =>
    split_ifs with ho
    · refine ⟨fun q hq hq' => ?_, hs.owned, hs.persist⟩
      cases hp.symm.trans hq
      rw [ho] at hq'
      cases hq'
    · refine fresh_of_no_cache (by simp) fun hcurrent => ?_
      obtain ⟨q, hq, hq'⟩ := hs.persist (by simpa using hcurrent)
      cases hp.symm.trans hq
      exact ho hq'

theorem step_fresh {ev : Event} (hs : Fresh s) (hok : clearsOnlyItsOwn s ev = true)
    (h : step s ev = some s') : Fresh s' := by
  obtain ⟨source, mimeTypes, made, rfl, hsource, rfl⟩ | ⟨scripts, count, rfl, hinstall⟩ |
    ⟨rfl, rfl⟩ | hentry | ⟨reader, mimeType, rfl⟩ := step_cases h
  · exact setSelection_fresh hs hsource hok
  · exact (handleInstall_fresh hs hinstall).1
  · exact seatDestroy_fresh hs
  · obtain ⟨p, i, e, total, e', ds, hp, -, -, rfl⟩ := hentry
    exact hs.cache_same hp rfl rfl
  · exact ⟨hs.unowned, hs.owned, hs.persist⟩

theorem reach_fresh (h : Reach step (fun s ev => clearsOnlyItsOwn s ev = true) {} s) : Fresh s := by
  refine h.inv (fresh_of_no_cache rfl (by simp)) fun s ev s' hs hok hstep => ?_
  exact step_fresh hs hok hstep

/-! ### Takeover -/

/-- Whenever `handle_install` makes the cache the selection, it is that of the selection which became
    empty. -/
def TakesOverTheLast (s : Seat) : Prop :=
  ∀ scripts count s', s.handleInstall scripts count = some s' → s.current ≠ some .persist →
    s'.current = some .persist → ∃ p, s'.cache = some p ∧ s.last = some (.client p.origin)

/-- In every run that never empties a compositor-owned selection while the cache of an older one is
    kept, the takeover is of the selection that became empty. -/
theorem takeover_is_of_the_last
    (h : Reach step (fun s ev => clearsOnlyItsOwn s ev = true) {} s) : TakesOverTheLast s :=
  fun _ _ _ hinstall hne heq => (handleInstall_fresh (reach_fresh h) hinstall).2 hne heq

/-- A client selection of one byte, whose owner goes away. -/
def copyAndExit : List Event :=
  [.setSelection (some (.client 0)) ["text/plain"] [true], .clientWrites 0 [7], .clientCloses 0]

theorem takeover_after_exit :
    ∃ s s', exec (guarded step clearsOnlyItsOwn) {} (copyAndExit ++ [.setSelection none [] []]) =
        some s ∧ TakesOverTheLast s ∧
      s.handleInstall [[.realloc true, .read (.chunk 1), .read .eof]] 1 = some s' ∧
      s'.current = some .persist ∧ s.last = some (.client 0) := by
  refine ⟨_, _, rfl, ?_, rfl, rfl, rfl⟩
  exact takeover_is_of_the_last (.of_exec_guarded (copyAndExit ++ [.setSelection none [] []]) _ rfl)

/-- The client selection is replaced by one of the compositor, which is then cleared: the old client
    selection is back. -/
theorem replaced_selection_comes_back :
    ¬ ∀ s, Reach step Always {} s → TakesOverTheLast s := by
  intro h
  obtain ⟨s, hs, s', hs', hcurrent, hcache, hlast⟩ :
      ∃ s, exec step {} (copyAndExit ++ [.setSelection (some (.compositor 1)) [] [],
        .setSelection none [] []]) = some s ∧
      ∃ s', s.handleInstall [[.realloc true, .read (.chunk 1), .read .eof]] 1 = some s' ∧
        s'.current = some .persist ∧ s.current = none ∧ s.last = some (.compositor 1) :=
    ⟨_, rfl, _, rfl, rfl, rfl, rfl⟩
  obtain ⟨p, -, hp⟩ := h s (.of_exec _ _ hs) _ _ s' hs' (by simp [hcache]) hcurrent
  rw [hlast] at hp
  cases hp

end FlakeWm.Clipboard
