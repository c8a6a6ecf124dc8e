import FlakeWm.TextRelay.Safety

/-! Runs of the relay (`src/input/text_input.c`, `text_input_v1.c`, `text_input_v2.c`).

    What the input method, the focus and the end of surfaces and seats do, and from all events what a whole run does:
    it goes well to its end exactly when each of its events is safe where it is handled. -/

namespace FlakeWm.TextRelay

variable {s s' : State} {t : TextInput} {i seat surface : ℕ}

/-! ### The other requests -/

theorem createTextInput_goes (h : s.Fine) (client : ℕ) :
    Goes (s.createTextInput client) ↔ Safe s (.createTextInput client) := by
  rw [State.createTextInput, safe_createTextInput, State.RelayLives]
  cases s.relays 0 with
  | none => simp
  | some relay =>
    rw [Option.map_some, goes_some]
    refine iff_of_true (fun t ht => ?_) rfl
    rcases List.mem_cons.1 ht with rfl | ht
    · exact ⟨rfl, rfl, fun f hf => by cases hf⟩
    · exact h t ht

theorem getTextInput_fine (h : s.Fine) (client seat : ℕ) : (s.getTextInput client seat).Fine := by
  rw [State.getTextInput]
  split
  · exact h
  · intro t ht
    rcases List.mem_cons.1 ht with rfl | ht
    · exact ⟨rfl, rfl, fun f hf => by cases hf⟩
    · exact h t ht

theorem setSurroundingText_fine (h : s.Fine) (i : ℕ) : (s.setSurroundingText i).Fine := by
  rw [State.setSurroundingText]
  split
  · exact h
  next t hfind =>
    have hfine := h t (State.mem_of_find hfind).1
    exact h.put ⟨hfine.surface_links, hfine.seat_links, hfine.live⟩

theorem reset_fine (h : s.Fine) (i : ℕ) : (s.reset i).Fine := by
  rw [State.reset]
  split
  · exact h
  next t hfind =>
    have hfine := h t (State.mem_of_find hfind).1
    split
    · exact h.put ⟨hfine.surface_links, hfine.seat_links, hfine.live⟩
    · exact h

theorem commit_goes (h : s.Fine) (i : ℕ) : Goes (s.commit i) ↔ Safe s (.commit i) := by
  rw [State.commit, safe_commit]
  cases hfind : s.find i with
  | none => simpa using h
  | some t =>
    have hfine := h t (State.mem_of_find hfind).1
    have hdone : (if t.version = .v2 then s.put { t with surroundingPending := false } else s).Fine := by
      split
      · exact h.put ⟨hfine.surface_links, hfine.seat_links, hfine.live⟩
      · exact h
    simp only [Option.some.injEq, forall_eq', State.handleTextInputCommit, State.RelayLives]
    by_cases henabled : t.enabled = true
    · cases s.relays t.relay with
      | none => simp [henabled]
      | some relay => simpa [henabled] using hdone
    · simpa [henabled] using hdone

theorem resourceDestroy_goes (h : s.Fine) (i : ℕ) : Goes (s.resourceDestroy i) ↔ Safe s (.resourceDestroy i) := by
  rw [State.resourceDestroy, safe_resourceDestroy]
  cases hfind : s.find i with
  | none => simpa using h
  | some t =>
    simp only [Option.some.injEq, forall_eq']
    exact goes_forget h fun s' _ hs' a ha => hs' a (List.mem_filter.1 ha).1

theorem popupUpdate_goes (h : s.Fine) (i : ℕ) : Goes (s.popupUpdate i) ↔ Safe s (.popupUpdate i) := by
  rw [State.popupUpdate, safe_popupUpdate]
  cases s.popups.find? fun p => decide (p.id = i) with
  | none => simpa using h
  | some p =>
    simp only [Option.some.injEq, forall_eq', State.RelayLives]
    cases s.relays p.relay with
    | none => simp
    | some relay => simpa using h

/-! ### The input method -/

/-- Entering the pending surface needs that a text input of version 1 still has it. -/
theorem newInputMethod_goes (h : s.Fine) (seat : ℕ) : Goes (s.newInputMethod seat) ↔ Safe s (.newInputMethod seat) := by
  rw [State.newInputMethod, safe_newInputMethod]
  cases hrelay : s.relays seat with
  | none => simpa using h
  | some relay =>
    simp only [Option.some.injEq, forall_eq']
    by_cases hmethod : relay.inputMethod = true
    · simpa [hmethod] using h
    · rw [if_neg hmethod]
      have hquiet : Quiet s (s.setRelay seat (some ⟨true, none⟩)) := .setRelay hrelay
      have hset := hquiet.fine.2 h
      have hpending : (s.setRelay seat (some ⟨true, none⟩)).pendingTextInput seat = s.pendingTextInput seat := rfl
      rw [hpending, Bool.not_eq_true] at *
      cases hfind : s.pendingTextInput seat with
      | none => simpa using hset
      | some t =>
        have hfine := h t (List.mem_of_find?_eq_some hfind)
        have hput : (s.setRelay seat (some ⟨true, none⟩)).Fine ∧ { t with pendingFocusedSurface := none }.Fine s.surfaces :=
          ⟨hset, hfine.surface_links, hfine.seat_links, hfine.live⟩
        have hsome : t.pendingFocusedSurface.isSome = true := by
          have := List.find?_some hfind
          simpa using (Bool.and_eq_true _ _ ▸ this : _ ∧ _).2
        obtain ⟨f, hf⟩ := Option.isSome_iff_exists.1 hsome
        simp only [hf, Option.some.injEq, forall_eq', hmethod, forall_const, TextInput.sendEnter]
        cases t.version with
        | v1 =>
          by_cases hsurface : t.surface = some f
          · simpa [hsurface] using hput.1.put hput.2
          · simp [hsurface]
        | v2 => simpa using hput.1.put hput.2

theorem inputMethodCommit_goes (h : s.Fine) (seat : ℕ) (preedit commitText delete : Bool) :
    Goes (s.inputMethodCommit seat preedit delete) ↔ Safe s (.inputMethodCommit seat preedit commitText delete) := by
  rw [State.inputMethodCommit, safe_inputMethodCommit]
  cases s.relays seat with
  | none => simpa using h
  | some relay =>
    simp only [Option.some.injEq, forall_eq']
    split
    next hbad =>
      refine iff_of_false goes_none fun hsafe => ?_
      have := hsafe hbad.1 hbad.2.1 hbad.2.2.1
      simp [this] at hbad
    next hgood =>
      refine iff_of_true (goes_some.2 h) fun hmethod hfocused hdelete => ?_
      by_contra hpreedit
      exact hgood ⟨hmethod, hfocused, hdelete, by simpa using hpreedit⟩

/-- What the end of an input method leaves as it was. -/
structure Left (s s' : State) : Prop where
  fine : s'.Fine
  surfaces : s'.surfaces = s.surfaces
  relays : ∀ r, (s'.relays r).isSome = (s.relays r).isSome
  seats : ∀ seat relay, (∃ t ∈ s'.inputs, t.seat = some seat ∧ t.relay = relay) ↔
    ∃ t ∈ s.inputs, t.seat = some seat ∧ t.relay = relay

/-- A focused text input can leave its surface, of whatever version it is. -/
theorem sendLeave_eq (h : t.surface.isSome = true) : t.sendLeave = some t.clearSurface := by
  rw [TextInput.sendLeave]
  cases t.version with
  | v1 => rfl
  | v2 => exact if_pos h

theorem handleInputMethodDestroy_spec (h : s.Fine) {relay : Relay} (hrelay : s.relays seat = some relay) :
    ∃ s', s.handleInputMethodDestroy seat relay = some s' ∧ Left s s' := by
  have hquiet : Quiet s (s.setRelay seat (some { relay with inputMethod := false })) := .setRelay hrelay
  rw [State.handleInputMethodDestroy]
  have hfocused : (s.setRelay seat (some { relay with inputMethod := false })).focusedTextInput seat =
      s.focusedTextInput seat := rfl
  rw [hfocused]
  cases hfind : s.focusedTextInput seat with
  | none => exact ⟨_, rfl, hquiet.fine.2 h, rfl, hquiet.relays, fun _ _ => Iff.rfl⟩
  | some t =>
    have hsome : t.surface.isSome = true := by
      have := List.find?_some hfind
      simpa using (Bool.and_eq_true _ _ ▸ this : _ ∧ _).2
    have hfine := h t (List.mem_of_find?_eq_some hfind)
    have hleft : { t with pendingFocusedSurface := t.surface }.clearSurface.Fine s.surfaces :=
      TextInput.Fine.clearSurface ⟨hfine.surface_links, hfine.seat_links, hfine.live⟩
    have hsend : { t with pendingFocusedSurface := t.surface }.sendLeave = _ := sendLeave_eq hsome
    dsimp only
    rw [hsend]
    refine ⟨_, rfl, fun a ha => ?_, rfl, hquiet.relays, fun seat' relay' => ?_⟩
    · obtain ⟨b, hb, rfl⟩ := List.mem_map.1 ha
      split
      · exact hleft
      · exact h b hb
    · constructor
      · rintro ⟨a, ha, hseat, hr⟩
        obtain ⟨b, hb, rfl⟩ := List.mem_map.1 ha
        refine ⟨b, hb, ?_⟩
        split at hseat
        next heq =>
          rw [if_pos heq] at hr
          exact heq ▸ ⟨hseat, hr⟩
        next hne =>
          rw [if_neg hne] at hr
          exact ⟨hseat, hr⟩
      · rintro ⟨b, hb, hseat, hr⟩
        refine ⟨_, List.mem_map_of_mem hb, ?_⟩
        split
        next heq => exact heq ▸ ⟨hseat, hr⟩
        next => exact ⟨hseat, hr⟩

theorem inputMethodDestroy_goes (h : s.Fine) (seat : ℕ) : Goes (s.inputMethodDestroy seat) := by
  rw [State.inputMethodDestroy]
  cases hrelay : s.relays seat with
  | none => exact goes_some.2 h
  | some relay =>
    dsimp only
    split
    · obtain ⟨s', hs', hleft⟩ := handleInputMethodDestroy_spec h hrelay
      exact ⟨s', hs', hleft.fine⟩
    · exact goes_some.2 h

/-! ### Focus -/

/-- A text input that matches a surface can enter it. -/
theorem enterOrPend_spec {surfaces : ℕ → Option ℕ} (h : t.Fine surfaces) (inputMethod : Bool) (target : Option (ℕ × ℕ)) :
    ∃ t', t.enterOrPend inputMethod target = some t' ∧ t'.Fine surfaces := by
  rcases target with - | ⟨surface, client⟩
  · exact ⟨t, rfl, h⟩
  · rw [TextInput.enterOrPend]
    split
    next hmatch =>
      split
      · refine ⟨t, ?_, h⟩
        rw [TextInput.matchSurface] at hmatch
        rw [TextInput.sendEnter]
        cases hversion : t.version with
        | v1 =>
          rw [hversion] at hmatch
          simp only [Bool.and_eq_true, decide_eq_true_eq] at hmatch
          exact if_pos hmatch.2
        | v2 => rfl
      · exact ⟨_, rfl, h.surface_links, h.seat_links, h.live⟩
    · exact ⟨t, rfl, h⟩

theorem setFocus_spec {surfaces : ℕ → Option ℕ} (h : t.Fine surfaces) (inputMethod : Bool) (target : Option (ℕ × ℕ)) :
    ∃ t', t.setFocus inputMethod target = some t' ∧ t'.Fine surfaces := by
  rw [TextInput.setFocus]
  split
  · split
    · have hfine : { t with pendingFocusedSurface := none }.Fine surfaces :=
        ⟨h.surface_links, h.seat_links, h.live⟩
      exact enterOrPend_spec hfine inputMethod target
    · exact enterOrPend_spec h inputMethod target
  · split
    next hsome =>
      split
      · rw [sendLeave_eq hsome]
        exact enterOrPend_spec h.clearSurface inputMethod target
      · exact ⟨t, rfl, h⟩
    · exact enterOrPend_spec h inputMethod target

/-- A loop whose rounds go well goes well. -/
theorem mapM_spec {P : TextInput → Prop} {f : TextInput → Option TextInput} : ∀ l : List TextInput,
    (∀ t ∈ l, ∃ t', f t = some t' ∧ P t') → ∃ l', l.mapM f = some l' ∧ ∀ t ∈ l', P t
  | [], _ => ⟨[], rfl, by simp⟩
  | t :: l, h => by
      obtain ⟨t', ht', hp⟩ := h t List.mem_cons_self
      obtain ⟨l', hl', hall⟩ := mapM_spec l fun a ha => h a (List.mem_cons_of_mem _ ha)
      refine ⟨t' :: l', ?_, fun a ha => ?_⟩
      · rw [List.mapM_cons, ht', hl']
        rfl
      · rcases List.mem_cons.1 ha with rfl | ha
        · exact hp
        · exact hall a ha

theorem setFocus_goes (h : s.Fine) (seat : ℕ) (target : Option ℕ) : Goes (s.setFocus seat target) := by
  rw [State.setFocus]
  cases s.relays seat with
  | none => exact goes_some.2 h
  | some relay =>
    dsimp only
    generalize (target.bind fun f => (s.surfaces f).map fun client => (f, client)) = target
    obtain ⟨l, hl, hfine⟩ := mapM_spec (P := TextInput.Fine s.surfaces)
      (f := fun t => if t.relay = seat then t.setFocus relay.inputMethod target else some t) s.inputs fun t ht => by
        split
        · exact setFocus_spec (h t ht) _ _
        · exact ⟨t, rfl, h t ht⟩
    rw [hl]
    exact goes_some.2 hfine

/-! ### The end of surfaces and seats -/

theorem TextInput.Fine.mem_surfaceDestroy {surfaces : ℕ → Option ℕ} (h : t.Fine surfaces) :
    surface ∈ t.surfaceDestroy ↔ t.surface = some surface := by
  rw [h.surface_links, Option.mem_toList]

theorem TextInput.Fine.mem_seatDestroy {surfaces : ℕ → Option ℕ} (h : t.Fine surfaces) :
    seat ∈ t.seatDestroy ↔ t.seat = some seat := by
  rw [h.seat_links, Option.mem_toList]

/-- A text input that stays does not have the surface afterwards. -/
theorem loseSurface_fine {surfaces : ℕ → Option ℕ} (h : t.Fine surfaces)
    (hstays : t.version = .v2 ∨ t.surface ≠ some surface) :
    (State.loseSurface surface t).Fine (Function.update surfaces surface none) := by
  have hother {t' : TextInput} (hfine : t'.Fine surfaces) (hne : t'.surface ≠ some surface) :
      t'.Fine (Function.update surfaces surface none) := by
    refine ⟨hfine.surface_links, hfine.seat_links, fun f hf => ?_⟩
    have hf' : f ≠ surface := fun heq => hne (heq ▸ hf)
    rw [Function.update_of_ne hf']
    exact hfine.live f hf
  have hpending : (if t.pendingFocusedSurface = some surface then { t with pendingFocusedSurface := none } else t).Fine
      surfaces ∧ (if t.pendingFocusedSurface = some surface then { t with pendingFocusedSurface := none } else t).surface =
        t.surface ∧ (if t.pendingFocusedSurface = some surface then { t with pendingFocusedSurface := none } else t).version =
          t.version := by
    split
    · exact ⟨⟨h.surface_links, h.seat_links, h.live⟩, rfl, rfl⟩
    · exact ⟨h, rfl, rfl⟩
  rw [State.loseSurface]
  generalize (if t.pendingFocusedSurface = some surface then { t with pendingFocusedSurface := none } else t) = t' at *
  obtain ⟨hfine, hsurface, hversion⟩ := hpending
  split
  · exact hother hfine.clearSurface nofun
  next hnot =>
    refine hother hfine fun heq => ?_
    rcases hstays with hv2 | hne
    · exact hnot ⟨hversion.trans hv2, hfine.mem_surfaceDestroy.2 heq⟩
    · exact hne (hsurface.symm.trans heq)

theorem surfaceDestroy_goes (h : s.Fine) (surface : ℕ) :
    Goes (s.surfaceDestroy surface) ↔ Safe s (.surfaceDestroy surface) := by
  rw [State.surfaceDestroy, safe_surfaceDestroy]
  have hgone {t : TextInput} (ht : t ∈ s.inputs) :
      t ∈ (s.inputs.filter fun t => decide (t.version = .v1) && decide (surface ∈ t.surfaceDestroy)) ↔
        t.version = .v1 ∧ t.surface = some surface := by
    rw [List.mem_filter, and_iff_right ht, Bool.and_eq_true, decide_eq_true_eq, decide_eq_true_eq,
      (h t ht).mem_surfaceDestroy]
  constructor
  · rintro ⟨s', hs', -⟩ t ht hversion hsurface
    by_contra hdead
    rw [destroyAll_none _ ((hgone ht).2 ⟨hversion, hsurface⟩) hdead] at hs'
    cases hs'
  · intro hsafe
    obtain ⟨s₁, hs₁, hsurfaces, hinputs⟩ := destroyAll_spec
      (s.inputs.filter fun t => decide (t.version = .v1) && decide (surface ∈ t.surfaceDestroy)) fun t ht =>
        have hmem := (List.mem_filter.1 ht).1
        hsafe t hmem ((hgone hmem).1 ht).1 ((hgone hmem).1 ht).2
    rw [hs₁, Option.map_some, goes_some]
    intro a ha
    obtain ⟨b, hb, rfl⟩ := List.mem_map.1 ha
    obtain ⟨hmem, hstays⟩ := (hinputs b).1 hb
    rw [hsurfaces]
    refine loseSurface_fine (h b hmem) ?_
    by_contra hnot
    rw [not_or, not_not] at hnot
    refine hstays b ((hgone hmem).2 ⟨?_, hnot.2⟩) rfl
    cases hversion : b.version with
    | v1 => rfl
    | v2 => exact absurd hversion hnot.1

/-- The relay is freed before the text inputs of the seat are told, and these read theirs. -/
theorem seatDestroy_goes (h : s.Fine) (seat : ℕ) : Goes (s.seatDestroy seat) ↔ Safe s (.seatDestroy seat) := by
  rw [State.seatDestroy, safe_seatDestroy]
  cases hrelay : s.relays seat with
  | none =>
    refine iff_of_true (goes_some.2 h) fun hlives => ?_
    rw [State.RelayLives, hrelay] at hlives
    cases hlives
  | some relay =>
    have hfirst : ∃ s₁, (if relay.inputMethod = true then s.handleInputMethodDestroy seat relay else some s) = some s₁ ∧
        Left s s₁ := by
      split
      · exact handleInputMethodDestroy_spec h hrelay
      · exact ⟨s, rfl, h, rfl, fun _ => rfl, fun _ _ => Iff.rfl⟩
    obtain ⟨s₁, hs₁, hleft⟩ := hfirst
    dsimp only
    rw [hs₁, Option.bind_some]
    have hlives (r : ℕ) : (s₁.setRelay seat none).RelayLives r ↔ r ≠ seat ∧ s.RelayLives r := by
      rw [State.RelayLives, State.RelayLives, ← hleft.relays r]
      by_cases hr : r = seat
      · subst hr
        simp [State.setRelay]
      · simp [State.setRelay, hr]
    have hgone {t : TextInput} (ht : t ∈ s₁.inputs) :
        t ∈ (s₁.inputs.filter fun t => decide (seat ∈ t.seatDestroy)) ↔ t.seat = some seat := by
      rw [List.mem_filter, and_iff_right ht, decide_eq_true_eq, (hleft.fine t ht).mem_seatDestroy]
    constructor
    · rintro ⟨s', hs', -⟩ - t ht hseat
      obtain ⟨t₁, ht₁, hseat₁, hr₁⟩ := (hleft.seats seat t.relay).2 ⟨t, ht, hseat, rfl⟩
      rw [← hr₁]
      refine (hlives t₁.relay).1 ?_
      by_contra hdead
      have hmem : t₁ ∈ ((s₁.setRelay seat none).inputs.filter fun t => decide (seat ∈ t.seatDestroy)) :=
        (hgone ht₁).2 hseat₁
      rw [destroyAll_none _ hmem hdead] at hs'
      cases hs'
    · intro hsafe
      have hlive : s.RelayLives seat := by
        rw [State.RelayLives, hrelay]
        rfl
      obtain ⟨s', hs', hsurfaces, hinputs⟩ := destroyAll_spec (s := s₁.setRelay seat none)
        ((s₁.setRelay seat none).inputs.filter fun t => decide (seat ∈ t.seatDestroy)) fun t ht => by
          have ht₁ := (List.mem_filter.1 ht).1
          obtain ⟨t₀, ht₀, hseat₀, hr₀⟩ := (hleft.seats seat t.relay).1 ⟨t, ht₁, (hgone ht₁).1 ht, rfl⟩
          rw [hlives, ← hr₀]
          exact hsafe hlive t₀ ht₀ hseat₀
      refine ⟨s', hs', fun a ha => ?_⟩
      rw [hsurfaces]
      exact hleft.fine a ((hinputs a).1 ha).1

/-! ### Runs -/

/-- An event goes well exactly when it is safe. -/
theorem step_goes (h : s.Fine) (e : Event) : Goes (step s e) ↔ Safe s e := by
  cases e with
  | newSeat => exact iff_of_true (goes_some.2 h) trivial
  | newSurface f client =>
    refine iff_of_true ?_ trivial
    rw [step]
    split
    · exact goes_some.2 h
    · refine goes_some.2 fun t ht => ⟨(h t ht).surface_links, (h t ht).seat_links, fun g hg => ?_⟩
      by_cases hne : g = f
      · simp [hne]
      · exact (congrArg Option.isSome (Function.update_of_ne hne _ _)).trans ((h t ht).live g hg)
  | createTextInput client => exact createTextInput_goes h client
  | getTextInput client seat => exact iff_of_true (goes_some.2 (getTextInput_fine h client seat)) trivial
  | activate i seat f => exact activate_goes h
  | deactivate i seat => exact deactivate_goes h
  | enable i f => exact enable_goes h
  | disable i f => exact disable_goes h
  | setSurroundingText i => exact iff_of_true (goes_some.2 (setSurroundingText_fine h i)) trivial
  | reset i => exact iff_of_true (goes_some.2 (reset_fine h i)) trivial
  | commit i => exact commit_goes h i
  | resourceDestroy i => exact resourceDestroy_goes h i
  | newInputMethod seat => exact newInputMethod_goes h seat
  | inputMethodCommit seat preedit commitText delete => exact inputMethodCommit_goes h seat preedit commitText delete
  | inputMethodDestroy seat => exact iff_of_true (inputMethodDestroy_goes h seat) trivial
  | setFocus seat target => exact iff_of_true (setFocus_goes h seat target) trivial
  | surfaceDestroy f => exact surfaceDestroy_goes h f
  | seatDestroy seat => exact seatDestroy_goes h seat
  | newPopup seat =>
    refine iff_of_true ?_ trivial
    rw [step, goes_some, State.newPopup]
    split
    · exact h
    · split <;> exact h
  | popupUpdate i => exact popupUpdate_goes h i
  | popupDestroy i => exact iff_of_true (goes_some.2 h) trivial

/-- Each event of a run is safe where it is handled. -/
def AllSafe (s : State) : List Event → Prop
  | [] => True
  | e :: es => Safe s e ∧ ∀ s', step s e = some s' → AllSafe s' es

/-- After every event of a run there is a next state, and it is fine. -/
def AllGo (s : State) (es : List Event) : Prop := ∀ before, before <+: es → Goes (exec step s before)

theorem allGo_cons {e : Event} {es : List Event} (h : s.Fine) :
    AllGo s (e :: es) ↔ Goes (step s e) ∧ ∀ s', step s e = some s' → AllGo s' es := by
  constructor
  · intro hgo
    refine ⟨?_, fun s' hs' before hbefore => ?_⟩
    · have hone := hgo [e] (by simp)
      rw [exec_cons] at hone
      simpa using hone
    · have hmore := hgo (e :: before) ((List.prefix_cons_inj e).2 hbefore)
      rwa [exec_cons, hs', Option.bind_some] at hmore
  · rintro ⟨⟨s', hs', -⟩, hrest⟩ before hbefore
    rcases List.prefix_cons_iff.1 hbefore with rfl | ⟨rest, rfl, hprefix⟩
    · exact goes_some.2 h
    · rw [exec_cons, hs', Option.bind_some]
      exact hrest s' hs' rest hprefix

theorem allGo_iff_allSafe : ∀ (es : List Event) {s : State}, s.Fine → (AllGo s es ↔ AllSafe s es)
  | [], s, h => by
      refine iff_of_true (fun before hbefore => ?_) trivial
      rw [List.prefix_nil.1 hbefore]
      exact goes_some.2 h
  | e :: es, s, h => by
      rw [allGo_cons h, AllSafe, step_goes h]
      refine and_congr_right fun hsafe => forall₂_congr fun s' hs' => ?_
      obtain ⟨s'', hs'', hfine⟩ := (step_goes h e).2 hsafe
      obtain rfl := Option.some.inj (hs'.symm.trans hs'')
      exact allGo_iff_allSafe es hfine

/-- What is deleted without a preedit text is measured all the same. -/
def deleteWithoutPreedit : List Event :=
  [.newSurface 0 0, .createTextInput 0, .newInputMethod 0, .activate 0 0 0, .inputMethodCommit 0 false false true]

theorem not_every_run_goes : ¬ ∀ es : List Event, AllGo {} es := by
  intro h
  have hcrash : (exec step {} deleteWithoutPreedit).isNone = true := rfl
  obtain ⟨s, hs, -⟩ := h deleteWithoutPreedit deleteWithoutPreedit (List.prefix_refl _)
  rw [hs] at hcrash
  cases hcrash

/-- In a run no assertion of the two versions fails, no missing text is measured, no relay is read after it was freed,
and each listener stays linked in the signal of the current surface or seat alone, with the surface alive, exactly
when every event of the run is safe where it is handled. -/
theorem run_goes_iff_safe (es : List Event) : AllGo {} es ↔ AllSafe {} es :=
  allGo_iff_allSafe es fun t ht => by cases ht

end FlakeWm.TextRelay
