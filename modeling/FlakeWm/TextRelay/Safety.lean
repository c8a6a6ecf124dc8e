import FlakeWm.TextRelay.Model

/-! What keeps the relay of text inputs safe (`src/input/text_input.c`, `text_input_v1.c`, `text_input_v2.c`).

    Between events a listener is linked in the signal of the surface or the seat that its text input has, and in no
    other, and the surface lives. `Safe` says when an event keeps this and no handler crashes; an event that is not
    safe crashes at once or leaves a listener in two signals. -/

namespace FlakeWm.TextRelay

/-! ### What holds between events -/

/-- The listeners of a text input are linked once, where they should be, and its surface lives. -/
structure TextInput.Fine (surfaces : ℕ → Option ℕ) (t : TextInput) : Prop where
  surface_links : t.surfaceDestroy = t.surface.toList
  seat_links : t.seatDestroy = t.seat.toList
  live : ∀ f, t.surface = some f → (surfaces f).isSome = true

def State.Fine (s : State) : Prop := ∀ t ∈ s.inputs, t.Fine s.surfaces

/-- The relay that a text input was given is not freed. -/
def State.RelayLives (s : State) (relay : ℕ) : Prop := (s.relays relay).isSome = true

/-- When an event goes well. -/
def Safe (s : State) : Event → Prop
  | .createTextInput _ => s.RelayLives 0
  | .activate i seat surface => ∀ t, s.find i = some t → t.version = .v1 → (s.relays seat).isSome = true →
      s.ownSurface t surface = true → t.surface = none ∧ t.seat = none ∧ s.RelayLives t.relay
  | .deactivate i seat => ∀ t, s.find i = some t → t.version = .v1 → (s.relays seat).isSome = true →
      t.seat = some seat → s.RelayLives t.relay
  | .enable i surface => ∀ t, s.find i = some t → t.version = .v2 → s.ownSurface t surface = true →
      s.RelayLives t.relay
  | .disable i surface => ∀ t, s.find i = some t → t.version = .v2 → s.ownSurface t surface = true →
      t.surface = none ∨ t.surface = some surface → s.RelayLives t.relay
  | .commit i => ∀ t, s.find i = some t → t.enabled = true → s.RelayLives t.relay
  | .resourceDestroy i => ∀ t, s.find i = some t → s.RelayLives t.relay
  | .newInputMethod seat => ∀ relay, s.relays seat = some relay → relay.inputMethod = false →
      ∀ t, s.pendingTextInput seat = some t → t.version = .v1 → t.surface = t.pendingFocusedSurface
  | .inputMethodCommit seat preedit _ delete => ∀ relay, s.relays seat = some relay → relay.inputMethod = true →
      (s.focusedTextInput seat).isSome = true → delete = true → preedit = true
  | .surfaceDestroy surface => ∀ t ∈ s.inputs, t.version = .v1 → t.surface = some surface → s.RelayLives t.relay
  | .seatDestroy seat => s.RelayLives seat → ∀ t ∈ s.inputs, t.seat = some seat →
      t.relay ≠ seat ∧ s.RelayLives t.relay
  | .popupUpdate i => ∀ p, (s.popups.find? fun p => decide (p.id = i)) = some p → s.RelayLives p.relay
  | _ => True

variable {s s' : State} {t : TextInput} {i seat surface : ℕ}

theorem safe_createTextInput (client : ℕ) : Safe s (.createTextInput client) ↔ s.RelayLives 0 := Iff.rfl

theorem safe_activate : Safe s (.activate i seat surface) ↔ ∀ t, s.find i = some t → t.version = .v1 →
    (s.relays seat).isSome = true → s.ownSurface t surface = true → t.surface = none ∧ t.seat = none ∧
      s.RelayLives t.relay := Iff.rfl

theorem safe_deactivate : Safe s (.deactivate i seat) ↔ ∀ t, s.find i = some t → t.version = .v1 →
    (s.relays seat).isSome = true → t.seat = some seat → s.RelayLives t.relay := Iff.rfl

theorem safe_enable : Safe s (.enable i surface) ↔ ∀ t, s.find i = some t → t.version = .v2 →
    s.ownSurface t surface = true → s.RelayLives t.relay := Iff.rfl

theorem safe_disable : Safe s (.disable i surface) ↔ ∀ t, s.find i = some t → t.version = .v2 →
    s.ownSurface t surface = true → t.surface = none ∨ t.surface = some surface → s.RelayLives t.relay := Iff.rfl

theorem safe_commit : Safe s (.commit i) ↔ ∀ t, s.find i = some t → t.enabled = true → s.RelayLives t.relay := Iff.rfl

theorem safe_resourceDestroy : Safe s (.resourceDestroy i) ↔ ∀ t, s.find i = some t → s.RelayLives t.relay := Iff.rfl

theorem safe_newInputMethod : Safe s (.newInputMethod seat) ↔ ∀ relay, s.relays seat = some relay →
    relay.inputMethod = false → ∀ t, s.pendingTextInput seat = some t → t.version = .v1 →
      t.surface = t.pendingFocusedSurface := Iff.rfl

theorem safe_inputMethodCommit (preedit commitText delete : Bool) :
    Safe s (.inputMethodCommit seat preedit commitText delete) ↔ ∀ relay, s.relays seat = some relay →
      relay.inputMethod = true → (s.focusedTextInput seat).isSome = true → delete = true → preedit = true := Iff.rfl

theorem safe_surfaceDestroy : Safe s (.surfaceDestroy surface) ↔ ∀ t ∈ s.inputs, t.version = .v1 →
    t.surface = some surface → s.RelayLives t.relay := Iff.rfl

theorem safe_seatDestroy : Safe s (.seatDestroy seat) ↔ (s.RelayLives seat → ∀ t ∈ s.inputs, t.seat = some seat →
    t.relay ≠ seat ∧ s.RelayLives t.relay) := Iff.rfl

theorem safe_popupUpdate : Safe s (.popupUpdate i) ↔ ∀ p,
    (s.popups.find? fun p => decide (p.id = i)) = some p → s.RelayLives p.relay := Iff.rfl

/-! ### States with the same text inputs -/

/-- Only what the relays remember is different. -/
structure Quiet (s s' : State) : Prop where
  inputs : s'.inputs = s.inputs
  surfaces : s'.surfaces = s.surfaces
  relays : ∀ r, (s'.relays r).isSome = (s.relays r).isSome

theorem Quiet.refl (s : State) : Quiet s s := ⟨rfl, rfl, fun _ => rfl⟩

theorem Quiet.setRelay {relay relay' : Relay} (h : s.relays seat = some relay) :
    Quiet s (s.setRelay seat (some relay')) where
  inputs := rfl
  surfaces := rfl
  relays r := by
    by_cases hr : r = seat
    · subst hr
      simp [State.setRelay, h]
    · simp [State.setRelay, hr]

theorem Quiet.fine (h : Quiet s s') : s'.Fine ↔ s.Fine := by
  rw [State.Fine, State.Fine, h.inputs, h.surfaces]

theorem State.mem_of_find (h : s.find i = some t) : t ∈ s.inputs ∧ t.id = i :=
  ⟨List.mem_of_find?_eq_some h, by simpa using List.find?_some h⟩

theorem State.Fine.put (h : s.Fine) (ht : t.Fine s.surfaces) : (s.put t).Fine := by
  intro a ha
  obtain ⟨b, hb, rfl⟩ := List.mem_map.1 ha
  split
  · exact ht
  · exact h b hb

/-- What is written back is in the list. -/
theorem State.mem_put {t' : TextInput} (h : t ∈ s.inputs) (hid : t.id = t'.id) : t' ∈ (s.put t').inputs :=
  List.mem_map.2 ⟨t, h, if_pos hid⟩

/-! ### Handlers that read the relay -/

theorem handleTextInputEnable_spec (h : s.RelayLives t.relay) :
    ∃ s', s.handleTextInputEnable t = some s' ∧ Quiet s s' := by
  obtain ⟨relay, hrelay⟩ := Option.isSome_iff_exists.1 h
  simp only [State.handleTextInputEnable, hrelay]
  split
  · exact ⟨s, rfl, .refl s⟩
  · exact ⟨_, rfl, .setRelay hrelay⟩

theorem handleTextInputEnable_none (h : ¬ s.RelayLives t.relay) : s.handleTextInputEnable t = none := by
  rw [State.RelayLives, Bool.not_eq_true, Option.isSome_eq_false_iff, Option.isNone_iff_eq_none] at h
  simp only [State.handleTextInputEnable, h]

theorem forgetEnabled_spec (h : s.RelayLives t.relay) : ∃ s', s.forgetEnabled t = some s' ∧ Quiet s s' := by
  obtain ⟨relay, hrelay⟩ := Option.isSome_iff_exists.1 h
  simp only [State.forgetEnabled, hrelay]
  split
  · exact ⟨_, rfl, .setRelay hrelay⟩
  · exact ⟨s, rfl, .refl s⟩

theorem forgetEnabled_none (h : ¬ s.RelayLives t.relay) : s.forgetEnabled t = none := by
  rw [State.RelayLives, Bool.not_eq_true, Option.isSome_eq_false_iff, Option.isNone_iff_eq_none] at h
  simp only [State.forgetEnabled, h]

/-- Text inputs are destroyed while their relays live, and the others stay. -/
theorem destroyAll_spec : ∀ (l : List TextInput) {s : State}, (∀ t ∈ l, s.RelayLives t.relay) →
    ∃ s', l.foldlM State.textInputDestroy s = some s' ∧ s'.surfaces = s.surfaces ∧
      ∀ a, a ∈ s'.inputs ↔ a ∈ s.inputs ∧ ∀ t ∈ l, a.id ≠ t.id
  | [], s, _ => ⟨s, rfl, rfl, by simp⟩
  | t :: l, s, h => by
      obtain ⟨s₁, hs₁, hquiet⟩ := forgetEnabled_spec (h t List.mem_cons_self)
      have hdestroy : s.textInputDestroy t =
          some { s₁ with inputs := s₁.inputs.filter fun a => decide (a.id ≠ t.id) } := by
        rw [State.textInputDestroy, hs₁]
        rfl
      obtain ⟨s', hs', hsurfaces, hinputs⟩ := destroyAll_spec l
        (s := { s₁ with inputs := s₁.inputs.filter fun a => decide (a.id ≠ t.id) }) fun t' ht' => by
          rw [State.RelayLives]
          exact (hquiet.relays t'.relay).trans (h t' (List.mem_cons_of_mem _ ht'))
      refine ⟨s', ?_, hsurfaces.trans hquiet.surfaces, fun a => ?_⟩
      · rw [List.foldlM_cons, hdestroy]
        exact hs'
      · rw [hinputs, List.mem_filter, hquiet.inputs]
        simp [and_assoc]

/-- One whose relay is freed cannot be destroyed. -/
theorem destroyAll_none : ∀ (l : List TextInput) {s : State} {t : TextInput}, t ∈ l → ¬ s.RelayLives t.relay →
    l.foldlM State.textInputDestroy s = none
  | [], _, _, h, _ => by cases h
  | a :: l, s, t, h, hdead => by
      rw [List.foldlM_cons]
      by_cases ha : s.RelayLives a.relay
      · obtain ⟨s₁, hs₁, hquiet⟩ := forgetEnabled_spec ha
        have ht : t ∈ l := by
          rcases List.mem_cons.1 h with rfl | ht
          · exact absurd ha hdead
          · exact ht
        rw [State.textInputDestroy, hs₁]
        refine destroyAll_none l ht fun hlives => hdead ?_
        exact (hquiet.relays t.relay).symm.trans hlives
      · rw [State.textInputDestroy, forgetEnabled_none ha]
        rfl

/-! ### Each event -/

/-- A handler goes through and leaves a fine state. -/
def Goes (o : Option State) : Prop := ∃ s', o = some s' ∧ s'.Fine

@[simp] theorem goes_some : Goes (some s) ↔ s.Fine :=
  ⟨fun ⟨_, hs, hfine⟩ => Option.some.inj hs ▸ hfine, fun h => ⟨s, rfl, h⟩⟩

@[simp] theorem goes_none : ¬ Goes none := fun ⟨_, hs, _⟩ => nomatch hs

/-- Writing a text input back is fine when the text input is. -/
theorem fine_put_iff {t' : TextInput} (h : s.Fine) (ht : t ∈ s.inputs) (hid : t.id = t'.id) :
    (s.put t').Fine ↔ t'.Fine s.surfaces :=
  ⟨fun hput => hput t' (State.mem_put ht hid), h.put⟩

theorem goes_enable : Goes (s.handleTextInputEnable t) ↔ s.RelayLives t.relay ∧ s.Fine := by
  by_cases h : s.RelayLives t.relay
  · obtain ⟨s', hs', hquiet⟩ := handleTextInputEnable_spec h
    rw [hs', goes_some, hquiet.fine]
    exact (and_iff_right h).symm
  · rw [handleTextInputEnable_none h]
    exact iff_of_false goes_none fun hlives => h hlives.1

theorem goes_forget {f : State → State} (h : s.Fine) (hf : ∀ s', Quiet s s' → s'.Fine → (f s').Fine) :
    Goes ((s.forgetEnabled t).map f) ↔ s.RelayLives t.relay := by
  by_cases hlives : s.RelayLives t.relay
  · obtain ⟨s', hs', hquiet⟩ := forgetEnabled_spec hlives
    rw [hs', Option.map_some, goes_some]
    exact iff_of_true (hf s' hquiet (hquiet.fine.2 h)) hlives
  · rw [forgetEnabled_none hlives]
    exact iff_of_false goes_none hlives

theorem TextInput.Fine.clearSurface {surfaces : ℕ → Option ℕ} (h : t.Fine surfaces) : t.clearSurface.Fine surfaces where
  surface_links := by
    show t.surfaceDestroy.tail = []
    rw [h.surface_links]
    cases t.surface <;> rfl
  seat_links := h.seat_links
  live _ hf := by cases hf

theorem State.surface_live (h : s.ownSurface t surface = true) : (s.surfaces surface).isSome = true := by
  rw [of_decide_eq_true h]
  rfl

theorem activate_goes (h : s.Fine) : Goes (s.activate i seat surface) ↔ Safe s (.activate i seat surface) := by
  rw [State.activate, safe_activate]
  cases hfind : s.find i with
  | none => simpa using h
  | some t =>
    obtain ⟨ht, -⟩ := State.mem_of_find hfind
    have hfine := h t ht
    dsimp only
    split
    next happlies =>
      obtain ⟨hversion, hseat, hown⟩ := happlies
      rw [goes_enable, fine_put_iff h ht (by rfl)]
      constructor
      · rintro ⟨hlives, hput⟩ a ha - - -
        obtain rfl := Option.some.inj ha
        have hsurface := hput.surface_links
        have hlinks := hput.seat_links
        simp only [TextInput.listenSurface, hfine.surface_links, hfine.seat_links, Option.toList_some, List.cons.injEq,
          true_and, Option.toList_eq_nil_iff] at hsurface hlinks
        exact ⟨hsurface, hlinks, hlives⟩
      · intro hsafe
        obtain ⟨hsurface, hnone, hlives⟩ := hsafe t rfl hversion hseat hown
        refine ⟨hlives, ?_, ?_, fun f hf => ?_⟩
        · simp [TextInput.listenSurface, hfine.surface_links, hsurface]
        · simp [hfine.seat_links, hnone]
        · obtain rfl := Option.some.inj hf
          exact State.surface_live hown
    next hnot =>
      refine iff_of_true (goes_some.2 h) fun a ha hversion hseat hown => ?_
      obtain rfl := Option.some.inj ha
      exact absurd ⟨hversion, hseat, hown⟩ hnot

theorem deactivate_goes (h : s.Fine) : Goes (s.deactivate i seat) ↔ Safe s (.deactivate i seat) := by
  rw [State.deactivate, safe_deactivate]
  cases hfind : s.find i with
  | none => simpa using h
  | some t =>
    obtain ⟨ht, -⟩ := State.mem_of_find hfind
    have hfine := h t ht
    dsimp only
    split
    next happlies =>
      have hdisabled : { t with enabled := false }.Fine s.surfaces := ⟨hfine.surface_links, hfine.seat_links, hfine.live⟩
      have hcleared := hfine.clearSurface
      have hleft : { t.clearSurface with enabled := false, seat := none, seatDestroy := t.seatDestroy.tail }.Fine
          s.surfaces := by
        refine ⟨hcleared.surface_links, ?_, hcleared.live⟩
        rw [hfine.seat_links]
        cases t.seat <;> rfl
      rw [goes_forget (h.put hdisabled) fun s' hquiet hs' => hs'.put (hquiet.surfaces ▸ hleft)]
      constructor
      · intro hlives a ha _ _ _
        obtain rfl := Option.some.inj ha
        exact hlives
      · exact fun hsafe => hsafe t rfl happlies.1 happlies.2.1 happlies.2.2
    next hnot =>
      refine iff_of_true (goes_some.2 h) fun a ha hversion hseat heq => ?_
      obtain rfl := Option.some.inj ha
      exact absurd ⟨hversion, hseat, heq⟩ hnot

theorem enable_goes (h : s.Fine) : Goes (s.enable i surface) ↔ Safe s (.enable i surface) := by
  rw [State.enable, safe_enable]
  cases hfind : s.find i with
  | none => simpa using h
  | some t =>
    obtain ⟨ht, -⟩ := State.mem_of_find hfind
    have hfine := h t ht
    dsimp only
    split
    next happlies =>
      have hset : (if t.surface ≠ some surface then t.clearSurface.listenSurface surface else t).Fine s.surfaces ∧
          (if t.surface ≠ some surface then t.clearSurface.listenSurface surface else t).relay = t.relay := by
        split
        · refine ⟨⟨?_, hfine.seat_links, fun f hf => ?_⟩, rfl⟩
          · have hcleared : t.surfaceDestroy.tail = [] := hfine.clearSurface.surface_links
            simp [TextInput.listenSurface, TextInput.clearSurface, hcleared]
          · obtain rfl := Option.some.inj hf
            exact State.surface_live happlies.2
        · exact ⟨hfine, rfl⟩
      generalize (if t.surface ≠ some surface then t.clearSurface.listenSurface surface else t) = t' at hset
      have hput := h.put (t := { t' with enabled := true }) ⟨hset.1.surface_links, hset.1.seat_links, hset.1.live⟩
      rw [goes_enable, and_iff_left hput]
      constructor
      · intro hlives a ha _ _
        obtain rfl := Option.some.inj ha
        exact hset.2 ▸ hlives
      · intro hsafe
        have hlives := hsafe t rfl happlies.1 happlies.2
        rw [← hset.2] at hlives
        exact hlives
    next hnot =>
      refine iff_of_true (goes_some.2 h) fun a ha hversion hown => ?_
      obtain rfl := Option.some.inj ha
      exact absurd ⟨hversion, hown⟩ hnot

theorem disable_goes (h : s.Fine) : Goes (s.disable i surface) ↔ Safe s (.disable i surface) := by
  rw [State.disable, safe_disable]
  cases hfind : s.find i with
  | none => simpa using h
  | some t =>
    obtain ⟨ht, -⟩ := State.mem_of_find hfind
    have hfine := h t ht
    dsimp only
    split
    next happlies =>
      split
      next hstale =>
        refine iff_of_true (goes_some.2 h) fun a ha _ _ hcurrent => ?_
        obtain rfl := Option.some.inj ha
        rcases hcurrent with hnone | hsame
        · rw [hnone] at hstale
          exact absurd hstale.1 Bool.false_ne_true
        · exact absurd hsame hstale.2
      next hcurrent =>
        have hdisabled : { t with enabled := false }.Fine s.surfaces :=
          ⟨hfine.surface_links, hfine.seat_links, hfine.live⟩
        rw [goes_forget (h.put hdisabled) fun s' hquiet hs' => hs'.put (hquiet.surfaces ▸ hdisabled.clearSurface)]
        constructor
        · intro hlives a ha _ _ _
          obtain rfl := Option.some.inj ha
          exact hlives
        · intro hsafe
          refine hsafe t rfl happlies.1 happlies.2 ?_
          cases hsurface : t.surface with
          | none => exact Or.inl rfl
          | some f =>
            rw [hsurface] at hcurrent
            exact Or.inr (not_not.1 fun hne => hcurrent ⟨rfl, hne⟩)
    next hnot =>
      refine iff_of_true (goes_some.2 h) fun a ha hversion hown _ => ?_
      obtain rfl := Option.some.inj ha
      exact absurd ⟨hversion, hown⟩ hnot

end FlakeWm.TextRelay
