import FlakeWm.Schemes.Run
import Mathlib.Data.List.Dedup

/-! The keysyms that a keyboard holds down (`src/input/keyboard.c`, `src/include/input/keyboard.h`, the
    key bindings of `src/input/binding.c`).

    A key event brings the keysym of the key under the modifiers that are in effect. A press enters it,
    a release erases the keysym that the key has by then, in upper and in lower case; what was entered
    last is erased as well when the modifiers are not those of the event before. The layout and the
    cases of a keysym are those of xkbcommon and are parameters. -/

namespace FlakeWm.Keysyms

/-- `MAX_PRESSED_KEY`. -/
def maxPressedKey : ℕ := 10

/-- `struct keyboard_state`; `npressed` is the length of the list. -/
structure KeyboardState where
  pressedKeysyms : List ℕ := []
  lastKeysym : ℕ := 0
  lastModifiers : ℕ := 0
  onlyOneModifier : Bool := false
  deriving DecidableEq

namespace KeyboardState

/-- `keyboard_state_erase_key`. -/
def eraseKey (st : KeyboardState) (keysym : ℕ) : KeyboardState :=
  { st with pressedKeysyms := st.pressedKeysyms.filter fun k => decide (k ≠ keysym) }

/-- `keyboard_state_add_key`. -/
def addKey (st : KeyboardState) (keysym : ℕ) : KeyboardState :=
  if st.pressedKeysyms.length ≥ maxPressedKey then st
  else if st.pressedKeysyms.getLast? = some keysym then st
  else { st with pressedKeysyms := st.pressedKeysyms ++ [keysym] }

/-- `keyboard_state_clear`. -/
def clear (st : KeyboardState) : KeyboardState :=
  if st.pressedKeysyms.length > 0 then {} else st

/-- The modifiers are not those of the event before, and a press came after it was last looked at. -/
def forgetsLast (st : KeyboardState) (modifiers : ℕ) : Bool :=
  decide (modifiers ≠ st.lastModifiers) && decide (st.lastKeysym ≠ 0)

/-- The first half of `handle_keyboard_state`: the modifiers. -/
def withModifiers (st : KeyboardState) (modifiers : ℕ) (pressed : Bool) : KeyboardState :=
  let st' : KeyboardState :=
    { st with
      onlyOneModifier := decide (modifiers ≠ 0) && decide (st.lastModifiers = 0) && !pressed &&
        decide (st.pressedKeysyms.length = 1)
      lastModifiers := modifiers }
  if st.forgetsLast modifiers then { st'.eraseKey st.lastKeysym with lastKeysym := 0 } else st'

variable (upper lower : ℕ → ℕ)

/-- `handle_keyboard_state`; `upper` and `lower` are `xkb_keysym_to_upper` and `xkb_keysym_to_lower`. -/
def handle (st : KeyboardState) (modifiers keysym : ℕ) (pressed : Bool) : KeyboardState :=
  let st := st.withModifiers modifiers pressed
  if pressed then { st.addKey keysym with lastKeysym := keysym }
  else (st.eraseKey (upper keysym)).eraseKey (lower keysym)

/-- `match_key_binding`. -/
def matchKeyBinding (st : KeyboardState) (keysym : ℕ) : Bool :=
  st.pressedKeysyms.any fun k => decide (keysym = lower k)

end KeyboardState

/-- `struct key_binding`. -/
structure KeyBinding where
  keysym : ℕ
  modifiers : ℕ

/-- The loop body of `bindings_handle_key_binding` runs the action of the binding. -/
def KeyBinding.runs (lower : ℕ → ℕ) (st : KeyboardState) (binding : KeyBinding) : Bool :=
  !((st.onlyOneModifier && decide (binding.keysym ≠ 0)) ||
      (!st.onlyOneModifier && decide (binding.keysym = 0))) &&
    decide (st.lastModifiers = binding.modifiers) &&
    !(decide (st.pressedKeysyms.length < 1) && decide (binding.keysym ≠ 0)) &&
    (decide (binding.keysym = 0) || st.matchKeyBinding lower binding.keysym)

/-- `bindings_handle_key_binding`, over the tables of the types, each with its bit of the mask; `blocked`
    is the session lock or `keysym_bindings_block`. -/
def bindingsHandleKeyBinding (lower : ℕ → ℕ) (st : KeyboardState) (blocked : Bool)
    (tables : List (Bool × List KeyBinding)) : Option KeyBinding :=
  if blocked then none
  else tables.findSome? fun table => if table.1 then table.2.find? (KeyBinding.runs lower st) else none

/-! ### Keys going down and up -/

/-- The keysym of a key under modifiers; that of a modifier key is the same under all. -/
structure Keymap where
  keysym : ℕ → ℕ → ℕ
  isModifier : ℕ → Bool
  independent : ∀ key, isModifier key = true → ∀ m m', keysym key m = keysym key m'

/-- An event of a keyboard: a key goes down or up while some modifiers are in effect. -/
structure KeyEvent where
  key : ℕ
  modifiers : ℕ
  pressed : Bool

/-- A keyboard, and the keys that are held, each with the keysym under which it was pressed. -/
structure Keys where
  state : KeyboardState := {}
  held : List (ℕ × ℕ) := []

/-- A keyboard whose state was cleared, with no key held. -/
def cleared (st : KeyboardState) : Keys := { state := st.clear }

/-- The number of keys that are held. -/
def Keys.count (s : Keys) : ℕ := (s.held.map Prod.fst).dedup.length

/-- A key event: no more than `MAX_PRESSED_KEY` keys are held, and a key is released while held. -/
def step (keymap : Keymap) (upper lower : ℕ → ℕ) (s : Keys) (e : KeyEvent) : Option Keys :=
  let keysym := keymap.keysym e.key e.modifiers
  let state := s.state.handle upper lower e.modifiers keysym e.pressed
  if e.pressed then
    let s' : Keys := ⟨state, (e.key, keysym) :: s.held⟩
    if s'.count ≤ maxPressedKey then some s' else none
  else if e.key ∈ s.held.map Prod.fst then
    some ⟨state, s.held.filter fun h => decide (h.1 ≠ e.key)⟩
  else none

end FlakeWm.Keysyms
