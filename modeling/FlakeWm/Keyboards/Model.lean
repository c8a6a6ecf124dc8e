import FlakeWm.Schemes.Run
import Mathlib.Logic.Function.Basic

/-! Keyboard groups (`src/input/keyboard_group.c`, with `set_add`/`set_remove` and
    `keyboard_key_update` of the vendored wlroots).

    A group merges the keys of its member keyboards into one keyboard of its own: `keys` counts, for
    each keycode, the members that hold it, and the group keyboard is told of the first press and of
    the last release only. Keyboards and groups are addressed by number; what happens to keymaps,
    modifiers, repeat rates and LEDs never reaches `keys` and is left out, except that the keymap
    strings, which `keyboard_group_add_keyboard` compares, may change at any time. -/

namespace FlakeWm.Keyboards

abbrev Keycode := UInt32

/-- `enum wl_keyboard_key_state`. -/
inductive KeyState where | pressed | released
  deriving DecidableEq, Repr

/-- `struct wlr_keyboard_key_event`. -/
structure KeyEvent where
  keycode : Keycode
  state : KeyState
  deriving DecidableEq, Repr

/-- `struct keyboard_group_key`. -/
structure GroupKey where
  keycode : Keycode
  count : ℕ
  deriving DecidableEq, Repr

/-- A device keyboard: the keys that are down on it, `keyboard->group` and `keymap_string`. -/
structure Keyboard where
  held : List Keycode := []
  group : Option ℕ := none
  keymapString : Option String := none

/-- `struct keyboard_group`: `keyboard.keycodes` and `keyboard.keymap_string` of its own keyboard,
    `devices` (each stands for the keyboard it listens to) and `keys`. `received` is a history
    variable: the events its keyboard was notified of. -/
structure Group where
  keycodes : List Keycode := []
  keymapString : Option String := none
  devices : List ℕ := []
  keys : List GroupKey := []
  received : List KeyEvent := []

structure State where
  keyboards : ℕ → Keyboard
  groups : ℕ → Group

/-- A `struct wlr_keyboard *`: that of a device, or the one inside a group. -/
inductive KeyboardRef where
  | device (kb : ℕ)
  | group (g : ℕ)

/-! ### wlroots -/

/-- `WLR_KEYBOARD_KEYS_CAP`. -/
def keysCap : ℕ := 32

/-- `set_add`. -/
def setAdd (values : List Keycode) (cap : ℕ) (target : Keycode) : List Keycode :=
  if target ∈ values then values
  else if values.length = cap then values
  else values ++ [target]

/-- `set_remove`: the last value takes the place of the first one that matches. -/
def setRemove : List Keycode → Keycode → List Keycode
  | [], _ => []
  | v :: values, target =>
      if v = target then
        match values.getLast? with
        | none => []
        | some last => last :: values.dropLast
      else v :: setRemove values target

/-- `keyboard_key_update`. -/
def keyboardKeyUpdate (keycodes : List Keycode) (event : KeyEvent) : List Keycode :=
  match event.state with
  | .pressed => setAdd keycodes keysCap event.keycode
  | .released => setRemove keycodes event.keycode

/-- `wlr_keyboard_notify_key` on the group's keyboard. -/
def Group.notifyKey (group : Group) (event : KeyEvent) : Group :=
  { group with
    keycodes := keyboardKeyUpdate group.keycodes event
    received := group.received ++ [event] }

/-! ### Keys -/

/-- The loop of `process_key` over `group->keys`: the new list, and whether the code after the loop
    is reached. -/
def scanKeys (event : KeyEvent) : List GroupKey → List GroupKey × Bool
  | [] => ([], true)
  | key :: keys =>
      if key.keycode ≠ event.keycode then
        (key :: (scanKeys event keys).1, (scanKeys event keys).2)
      else
        match event.state with
        | .pressed => (⟨key.keycode, key.count + 1⟩ :: keys, false)
        | .released =>
            if key.count - 1 > 0 then (⟨key.keycode, key.count - 1⟩ :: keys, false)
            else (keys, true)

/-- `process_key`; `alloc` is whether its `calloc` succeeds. -/
def processKey (keys : List GroupKey) (event : KeyEvent) (alloc : Bool) : List GroupKey × Bool :=
  match scanKeys event keys with
  | (keys, false) => (keys, false)
  | (keys, true) =>
      match event.state with
      | .pressed => if alloc then (⟨event.keycode, 1⟩ :: keys, true) else (keys, false)
      | .released => (keys, true)

/-- `handle_keyboard_key`. -/
def handleKeyboardKey (group : Group) (event : KeyEvent) (alloc : Bool) : Group :=
  let group' := { group with keys := (processKey group.keys event alloc).1 }
  if (processKey group.keys event alloc).2 then group'.notifyKey event else group'

/-- The keys that are down on a keyboard after an event. -/
def heldAfter (held : List Keycode) (event : KeyEvent) : List Keycode :=
  match event.state with
  | .pressed => event.keycode :: held
  | .released => held.filter (· ≠ event.keycode)

/-- A keyboard presses only keys it does not hold and releases only keys it holds. -/
def fits (held : List Keycode) (event : KeyEvent) : Bool :=
  match event.state with
  | .pressed => event.keycode ∉ held
  | .released => event.keycode ∈ held

def State.setKeyboard (s : State) (kb : ℕ) (keyboard : Keyboard) : State :=
  { s with keyboards := Function.update s.keyboards kb keyboard }

def State.setGroup (s : State) (g : ℕ) (group : Group) : State :=
  { s with groups := Function.update s.groups g group }

/-- A key event of a device: `wlr_keyboard_notify_key`, whose `key` signal the group listens to. -/
def notifyKey (s : State) (kb : ℕ) (event : KeyEvent) (alloc : Bool) : State :=
  let keyboard := s.keyboards kb
  let s' := s.setKeyboard kb { keyboard with held := heldAfter keyboard.held event }
  match keyboard.group with
  | none => s'
  | some g => s'.setGroup g (handleKeyboardKey (s.groups g) event alloc)

/-! ### Members -/

/-- `remove_keyboard_group_device`. -/
def removeKeyboardGroupDevice (s : State) (g kb : ℕ) : State :=
  (s.setKeyboard kb { s.keyboards kb with group := none }).setGroup g
    { s.groups g with devices := (s.groups g).devices.erase kb }

/-- `keyboard_keymaps_match`. -/
def keyboardKeymapsMatch (km1 km2 : Option String) : Bool :=
  match km1, km2 with
  | none, none => true
  | some km1, some km2 => km1 == km2
  | _, _ => false

/-- `keyboard_group_add_keyboard`, with its result; `alloc` is whether its `calloc` succeeds. -/
def keyboardGroupAddKeyboard (s : State) (g : ℕ) (keyboard : KeyboardRef) (alloc : Bool) :
    State × Bool :=
  match keyboard with
  | .group _ => (s, false)
  | .device kb =>
      if (s.keyboards kb).group.isSome then (s, false)
      else if !keyboardKeymapsMatch (s.groups g).keymapString (s.keyboards kb).keymapString then
        (s, false)
      else if !alloc then (s, false)
      else ((s.setKeyboard kb { s.keyboards kb with group := some g }).setGroup g
        { s.groups g with devices := kb :: (s.groups g).devices }, true)

/-- `keyboard_group_remove_keyboard`; it only logs a keyboard that is not in the group. -/
def keyboardGroupRemoveKeyboard (s : State) (g : ℕ) (keyboard : KeyboardRef) : State :=
  match keyboard with
  | .group _ => s
  | .device kb =>
      if kb ∈ (s.groups g).devices then removeKeyboardGroupDevice s g kb else s

/-- The `destroy` signal of a device (`handle_keyboard_destroy`), after which its address may be
    used by a new keyboard. -/
def keyboardDestroy (s : State) (kb : ℕ) : State :=
  match (s.keyboards kb).group with
  | none => s.setKeyboard kb {}
  | some g => (removeKeyboardGroupDevice s g kb).setKeyboard kb {}

/-! ### Runs -/

inductive Event where
  | key (kb : ℕ) (event : KeyEvent) (alloc : Bool)
  | addKeyboard (g : ℕ) (keyboard : KeyboardRef) (alloc : Bool)
  | removeKeyboard (g : ℕ) (keyboard : KeyboardRef)
  | destroy (kb : ℕ)
  | keymaps (ofKeyboard ofGroup : ℕ → Option String)

/-- Whether a keyboard that is added holds no keys. -/
def holdsNothing (s : State) : KeyboardRef → Bool
  | .group _ => true
  | .device kb => (s.keyboards kb).held.isEmpty

/-- One event. A key event that does not fit the keyboard, and adding a keyboard that holds keys,
    are not offered. -/
def step (s : State) : Event → Option State
  | .key kb event alloc =>
      if fits (s.keyboards kb).held event then some (notifyKey s kb event alloc) else none
  | .addKeyboard g keyboard alloc =>
      if holdsNothing s keyboard then some (keyboardGroupAddKeyboard s g keyboard alloc).1 else none
  | .removeKeyboard g keyboard => some (keyboardGroupRemoveKeyboard s g keyboard)
  | .destroy kb => some (keyboardDestroy s kb)
  | .keymaps ofKeyboard ofGroup => some
      { keyboards := fun kb => { s.keyboards kb with keymapString := ofKeyboard kb }
        groups := fun g => { s.groups g with keymapString := ofGroup g } }

/-- Before any keyboard is added: every group is as `keyboard_group_create` makes it. -/
def start (held : ℕ → List Keycode) : State :=
  { keyboards := fun kb => { held := held kb }
    groups := fun _ => {} }

end FlakeWm.Keyboards
