import FlakeWm.Keysyms.Model

/-! The keysyms that are down are those of keys that are held. -/

namespace FlakeWm.Keysyms

variable {keymap : Keymap} {upper lower : ℕ → ℕ} {st : KeyboardState} {s s' : Keys} {e : KeyEvent}

/-! ### What an event does to the keysyms -/

namespace KeyboardState

variable {modifiers keysym k : ℕ}

@[simp] theorem mem_eraseKey : k ∈ (st.eraseKey keysym).pressedKeysyms ↔ k ∈ st.pressedKeysyms ∧ k ≠ keysym := by
  simp [eraseKey]

theorem mem_withModifiers {pressed : Bool} : k ∈ (st.withModifiers modifiers pressed).pressedKeysyms ↔
    k ∈ st.pressedKeysyms ∧ ¬(st.forgetsLast modifiers = true ∧ k = st.lastKeysym) := by
  rw [withModifiers]
  split_ifs with h
  · simp [eraseKey, h]
  · simp [h]

theorem mem_addKey (h : k ∈ (st.addKey keysym).pressedKeysyms) : k ∈ st.pressedKeysyms ∨ k = keysym := by
  rw [addKey] at h
  split_ifs at h
  · exact .inl h
  · exact .inl h
  · simpa using h

theorem mem_handle_press (upper lower : ℕ → ℕ)
    (h : k ∈ (st.handle upper lower modifiers keysym true).pressedKeysyms) :
    k ∈ st.pressedKeysyms ∨ k = keysym := by
  rcases mem_addKey h with h | h
  · exact .inl (mem_withModifiers.1 h).1
  · exact .inr h

theorem mem_handle_release : k ∈ (st.handle upper lower modifiers keysym false).pressedKeysyms ↔
    k ∈ st.pressedKeysyms ∧ ¬(st.forgetsLast modifiers = true ∧ k = st.lastKeysym) ∧
      k ≠ upper keysym ∧ k ≠ lower keysym := by
  rw [handle]
  simp only [Bool.false_eq_true, if_false, mem_eraseKey, mem_withModifiers, and_assoc]

/-- A binding with a keysym runs only if it has the keysym of one that is down, in lower case. -/
theorem matchKeyBinding_iff : st.matchKeyBinding lower keysym = true ↔
    ∃ k ∈ st.pressedKeysyms, lower k = keysym := by
  rw [matchKeyBinding, List.any_eq_true]
  simp only [decide_eq_true_eq, eq_comm (a := keysym)]

end KeyboardState

/-- What runs is a binding of a single modifier, or one that matches. -/
theorem bindingsHandleKeyBinding_matches {blocked : Bool}
    {tables : List (Bool × List KeyBinding)} {binding : KeyBinding}
    (h : bindingsHandleKeyBinding lower st blocked tables = some binding) :
    binding.keysym = 0 ∨ st.matchKeyBinding lower binding.keysym = true := by
  rw [bindingsHandleKeyBinding] at h
  split_ifs at h
  obtain ⟨table, -, h⟩ := List.exists_of_findSome?_eq_some h
  split_ifs at h
  have hruns := List.find?_some h
  simp only [KeyBinding.runs, Bool.and_eq_true, Bool.or_eq_true, decide_eq_true_eq] at hruns
  exact hruns.2

theorem KeyboardState.clear_pressedKeysyms (st : KeyboardState) : st.clear.pressedKeysyms = [] := by
  rw [KeyboardState.clear]
  split_ifs with h
  · rfl
  · exact List.length_eq_zero_iff.1 (Nat.eq_zero_of_not_pos h)

/-! ### Keysyms of held keys -/

/-- Every keysym that is down is one under which a held key was pressed. -/
def Covered (s : Keys) : Prop := ∀ k ∈ s.state.pressedKeysyms, ∃ key, (key, k) ∈ s.held

/-- A release of `key` under `modifiers` erases the keysym `k` under which the key was pressed, or need
    not: it is the upper or the lower case of the keysym that the key has now, it was entered last and
    the modifiers have changed, it is not down, or another held key was pressed under it. -/
def letsGo (keymap : Keymap) (upper lower : ℕ → ℕ) (s : Keys) (e : KeyEvent) (k : ℕ) : Bool :=
  decide (k = upper (keymap.keysym e.key e.modifiers)) || decide (k = lower (keymap.keysym e.key e.modifiers)) ||
    (s.state.forgetsLast e.modifiers && decide (k = s.state.lastKeysym)) ||
    decide (k ∉ s.state.pressedKeysyms) || s.held.any fun h => decide (h.1 ≠ e.key) && decide (h.2 = k)

/-- An event that is a release lets go of the keysyms under which the key was pressed. -/
def releases (keymap : Keymap) (upper lower : ℕ → ℕ) (s : Keys) (e : KeyEvent) : Bool :=
  e.pressed || s.held.all fun h => decide (h.1 ≠ e.key) || letsGo keymap upper lower s e h.2

/-- One event keeps the keysyms covered if and only if a released key lets go of its keysym. -/
theorem step_covered_iff (h : Covered s) (hs : step keymap upper lower s e = some s') :
    Covered s' ↔ releases keymap upper lower s e = true := by
  obtain ⟨key, modifiers, pressed⟩ := e
  rw [step] at hs
  cases pressed with
  | true =>
    dsimp only at hs
    rw [if_pos rfl, Option.ite_none_right_eq_some] at hs
    obtain ⟨-, hs⟩ := hs
    cases hs
    refine iff_of_true (fun k hk => ?_) rfl
    rcases KeyboardState.mem_handle_press upper lower hk with hk | rfl
    · obtain ⟨key', hheld⟩ := h k hk
      exact ⟨key', List.mem_cons_of_mem _ hheld⟩
    · exact ⟨key, List.mem_cons_self⟩
  | false =>
    dsimp only at hs
    rw [if_neg Bool.false_ne_true, Option.ite_none_right_eq_some] at hs
    obtain ⟨-, hs⟩ := hs
    cases hs
    simp only [Covered, releases, letsGo, KeyboardState.mem_handle_release, List.all_eq_true, Bool.false_or,
      Bool.or_eq_true, Bool.and_eq_true, decide_eq_true_eq, List.any_eq_true, List.mem_filter, Prod.exists,
      Prod.forall]
    constructor
    · intro hcov key' k hheld
      by_contra hlets
      push Not at hlets
      obtain ⟨rfl, ⟨⟨⟨hupper, hlower⟩, hlast⟩, hdown⟩, hother⟩ := hlets
      obtain ⟨key₂, hheld₂, hne⟩ := hcov k ⟨hdown, fun hk => hlast hk.1 hk.2, hupper, hlower⟩
      exact hother key₂ k hheld₂ hne rfl
    · rintro hrel k ⟨hdown, hlast, hupper, hlower⟩
      obtain ⟨key', hheld⟩ := h k hdown
      rcases hrel key' k hheld with hne | ((((hk | hk) | hk) | hk) | ⟨key₂, k₂, hheld₂, hne, rfl⟩)
      · exact ⟨key', hheld, hne⟩
      · exact absurd hk hupper
      · exact absurd hk hlower
      · exact absurd hk hlast
      · exact absurd hdown hk
      · exact ⟨key₂, hheld₂, hne⟩

theorem covered_of_reach
    (h : Reach (step keymap upper lower) (fun s e => releases keymap upper lower s e = true) (cleared st) s) :
    Covered s :=
  h.inv (fun k hk => by rw [cleared, KeyboardState.clear_pressedKeysyms] at hk; cases hk) fun _ _ _ hcov hok hs => (step_covered_iff hcov hs).2 hok

theorem Covered.held_of_match (h : Covered s) {keysym : ℕ} (hmatch : s.state.matchKeyBinding lower keysym = true) :
    ∃ held ∈ s.held, lower held.2 = keysym := by
  obtain ⟨k, hk, hlower⟩ := KeyboardState.matchKeyBinding_iff.1 hmatch
  obtain ⟨key, hmem⟩ := h k hk
  exact ⟨(key, k), hmem, hlower⟩

/-- In such a run a key binding that runs is one of a single modifier, or it has the keysym of a held key. -/
theorem bindings_run_held {blocked : Bool} {tables : List (Bool × List KeyBinding)} {binding : KeyBinding}
    (h : Reach (step keymap upper lower) (fun s e => releases keymap upper lower s e = true) (cleared st) s)
    (hruns : bindingsHandleKeyBinding lower s.state blocked tables = some binding) :
    binding.keysym = 0 ∨ ∃ held ∈ s.held, lower held.2 = binding.keysym :=
  (bindingsHandleKeyBinding_matches hruns).imp_right (covered_of_reach h).held_of_match

/-- In a run in which every released key lets go of its keysym, no keysym is down when no key is held, and
    what matches has the keysym of a held key. -/
theorem released_keys_forgotten (keymap : Keymap) (upper lower : ℕ → ℕ) (st : KeyboardState) {s : Keys}
    (h : Reach (step keymap upper lower) (fun s e => releases keymap upper lower s e = true) (cleared st) s) :
    (s.held = [] → s.state.pressedKeysyms.length = 0) ∧
      ∀ keysym, s.state.matchKeyBinding lower keysym = true → ∃ held ∈ s.held, lower held.2 = keysym := by
  have hcov : Covered s := covered_of_reach h
  refine ⟨fun hheld => ?_, fun keysym hmatch => hcov.held_of_match hmatch⟩
  rw [List.length_eq_zero_iff, List.eq_nil_iff_forall_not_mem]
  intro k hk
  obtain ⟨key, hmem⟩ := hcov k hk
  rw [hheld] at hmem
  cases hmem

/-- The case of Latin letters. -/
def latinUpper (keysym : ℕ) : ℕ := if 0x61 ≤ keysym ∧ keysym ≤ 0x7a then keysym - 0x20 else keysym
def latinLower (keysym : ℕ) : ℕ := if 0x41 ≤ keysym ∧ keysym ≤ 0x5a then keysym + 0x20 else keysym

/-- Shift (key 42), the key 2 with `1` and `!`, and letters on the other keys. -/
def latin : Keymap where
  keysym key modifiers :=
    if key = 42 then 0xffe1
    else if key = 2 then if modifiers = 0 then 0x31 else 0x21
    else if modifiers = 0 then 0x61 + key % 26 else 0x41 + key % 26
  isModifier key := decide (key = 42)
  independent key h m m' := by rw [of_decide_eq_true h, if_pos rfl, if_pos rfl]

/-- A letter, then shift, and both up in this order. -/
theorem shifted_letter_forgotten : ∃ s,
    exec (guarded (step latin latinUpper latinLower) (releases latin latinUpper latinLower)) (cleared {})
      [⟨30, 0, true⟩, ⟨42, 0, true⟩, ⟨30, 1, false⟩, ⟨42, 1, false⟩] = some s ∧
    (s.held = [] → s.state.pressedKeysyms.length = 0) ∧
      ∀ keysym, s.state.matchKeyBinding latinLower keysym = true →
        ∃ held ∈ s.held, latinLower held.2 = keysym := by
  have hrun : ((exec (guarded (step latin latinUpper latinLower) (releases latin latinUpper latinLower)) (cleared {})
      [⟨30, 0, true⟩, ⟨42, 0, true⟩, ⟨30, 1, false⟩, ⟨42, 1, false⟩]).map fun s => s.held) = some [] := by
    decide +kernel
  obtain ⟨s, hs, -⟩ := Option.map_eq_some_iff.1 hrun
  exact ⟨s, hs, released_keys_forgotten latin latinUpper latinLower {} (Reach.of_exec_guarded _ _ hs)⟩

/-- The same with the key of `1`: its release under shift is one of `!`, and `1` stays. -/
theorem shifted_digit_stays : ¬ ∀ (keymap : Keymap) (upper lower : ℕ → ℕ) (st : KeyboardState) (s : Keys),
    Reach (step keymap upper lower) Always (cleared st) s → s.held = [] → s.state.pressedKeysyms.length = 0 := by
  intro h
  have hrun : ((exec (step latin latinUpper latinLower) (cleared {})
      [⟨2, 0, true⟩, ⟨42, 0, true⟩, ⟨2, 1, false⟩, ⟨42, 1, false⟩]).map
        fun s => (s.held, s.state.pressedKeysyms)) = some ([], [0x31]) := by
    decide +kernel
  obtain ⟨s, hs, heq⟩ := Option.map_eq_some_iff.1 hrun
  obtain ⟨hheld, hpressed⟩ := Prod.mk.inj heq
  have hlen := h latin latinUpper latinLower {} s (Reach.of_exec _ _ hs) hheld
  rw [hpressed] at hlen
  cases hlen

end FlakeWm.Keysyms
