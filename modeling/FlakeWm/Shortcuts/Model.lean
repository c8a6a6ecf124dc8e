import FlakeWm.Schemes.Run

/-! Global shortcuts (`src/config/kde_global_accel.c`, the key bindings of `src/input/binding.c`).

    An application registers an action of a component and sets its key; the compositor keeps a key
    binding for it, which is in the table of bindings while the shortcut is active. The key is a Qt
    key, the binding has an xkb keysym and modifiers. A component has one context, `default`. The
    tables between Qt keys and keysyms are generated at build time and are a parameter, as is the
    reading of a binding's name by xkbcommon. Friendly names, signals and replies are left out, but
    for the key that is reported. -/

namespace FlakeWm.Shortcuts

abbrev Word := BitVec 32

/-! ### Qt keys -/

def shiftModifier : Word := 0x02000000
def controlModifier : Word := 0x04000000
def altModifier : Word := 0x08000000
def metaModifier : Word := 0x10000000
def keypadModifier : Word := 0x20000000
def groupSwitchModifier : Word := 0x40000000
def keyboardModifierMask : Word := 0xfe000000
def keyMask : Word := ~~~keyboardModifierMask

/-- The bits of the wlroots modifiers with the Qt ones, in the order of the checks. -/
def modifierTable : List (Word × Word) :=
  [(1, shiftModifier), (4, controlModifier), (8, altModifier), (64, metaModifier),
    (16, keypadModifier), (128, groupSwitchModifier)]

/-- `qtkey_to_modifiers`. -/
def qtkeyToModifiers (key : Word) : Word :=
  modifierTable.foldl (fun m b => if key &&& b.2 ≠ 0 then m ||| b.1 else m) 0

/-- `modifiers_to_qtkey`. -/
def modifiersToQtkey (modifiers : Word) : Word :=
  modifierTable.foldl (fun k b => if modifiers &&& b.1 ≠ 0 then k ||| b.2 else k) 0

def tolower (c : Word) : Word := if 0x41 ≤ c ∧ c ≤ 0x5a then c + 0x20 else c
def toupper (c : Word) : Word := if 0x61 ≤ c ∧ c ≤ 0x7a then c - 0x20 else c

/-- The generated tables: what `bsearch` finds in them. -/
structure KeyTables where
  keysym : Word → Option Word
  qtkey : Word → Option Word

section Keys

variable (t : KeyTables)

/-- `qtkey_to_keysym`; keysym 0 is `XKB_KEY_NoSymbol`. -/
def qtkeyToKeysym (key : Word) : Word :=
  let qtKey := key &&& ~~~keyboardModifierMask
  let sym : Word :=
    if key &&& keypadModifier ≠ 0 ∧ 0x30 ≤ qtKey ∧ qtKey ≤ 0x39 then 0xffb0 + qtKey - 0x30
    else if qtKey < 0x1000 ∧ key &&& keypadModifier = 0 then tolower qtKey
    else 0
  if sym = 0 then (t.keysym qtKey).getD 0 else sym

/-- `keysym_to_qtkey`; the comparisons are signed. -/
def keysymToQtkey (keysym : Word) : Word :=
  let qtKey : Word :=
    if BitVec.sle 0xffb0 keysym ∧ BitVec.sle keysym 0xffb9 then keysym + 0x30 - 0xffb0
    else if BitVec.slt keysym 0xff then toupper keysym
    else if BitVec.sle 0xffbe keysym ∧ BitVec.sle keysym 0xffe0 then keysym - 0xffbe + 0x01000030
    else keyMask
  if qtKey = keyMask then (t.qtkey keysym).getD keyMask else qtKey

end Keys

/-! ### Key bindings -/

/-- `struct key_binding`. -/
structure KeyBinding where
  keysym : Word
  modifiers : Word
  keybind : String

/-- `struct global_shortcut`, with the name of its component. -/
structure Shortcut where
  component : String
  uniqueName : String
  binding : Option ℕ := none
  key : Word := 0
  defaultKey : Word := 0
  isPresent : Bool := false
  isRegistered : Bool := false
  isFresh : Bool := true

/-- The shortcuts, the key bindings that were made, and which of them are in the table. -/
structure Registry where
  shortcuts : List Shortcut := []
  bindings : ℕ → KeyBinding := fun _ => ⟨0, 0, ""⟩
  made : ℕ := 0
  table : List ℕ := []

namespace Registry

/-- `key_binding_is_valid`. -/
def keyBindingIsValid (r : Registry) (b : ℕ) (keysym modifiers : Word) : Bool :=
  r.table.all fun a => decide (a = b) ||
    !(decide (modifiers = (r.bindings a).modifiers) && decide (keysym = (r.bindings a).keysym))

/-- `kywc_key_binding_register`. -/
def keyBindingRegister (r : Registry) (b : ℕ) : Registry × Bool :=
  if b ∈ r.table then (r, true)
  else if !r.keyBindingIsValid b (r.bindings b).keysym (r.bindings b).modifiers then (r, false)
  else ({ r with table := b :: r.table }, true)

def setBinding (r : Registry) (b : ℕ) (keysym modifiers : Word) : Registry :=
  { r with bindings := fun a =>
      if a = b then { r.bindings b with keysym := keysym, modifiers := modifiers }
      else r.bindings a }

/-- `kywc_key_binding_update`. -/
def keyBindingUpdate (r : Registry) (b : ℕ) (keysym modifiers : Word) : Registry :=
  if b ∈ r.table ∧ !r.keyBindingIsValid b keysym modifiers then r
  else r.setBinding b keysym modifiers

/-- `kywc_key_binding_unregister`, and the part of `kywc_key_binding_destroy` that can be seen. -/
def keyBindingUnregister (r : Registry) (b : ℕ) : Registry :=
  { r with table := r.table.filter fun a => a ≠ b }

/-- `kywc_key_binding_create` and `kywc_key_binding_create_by_symbol`. -/
def keyBindingCreate (r : Registry) (binding : KeyBinding) : Registry × ℕ :=
  ({ r with
    bindings := fun a => if a = r.made then binding else r.bindings a
    made := r.made + 1 }, r.made)

/-! ### Shortcuts -/

/-- `global_shortcut_registry_get_shortcut_by_name`. -/
def getShortcutByName (r : Registry) (component uniqueName : String) : Option Shortcut :=
  r.shortcuts.find? fun s => s.component = component ∧ s.uniqueName = uniqueName

/-- The shortcut of this name is written back. -/
def put (r : Registry) (s : Shortcut) : Registry :=
  { r with shortcuts := r.shortcuts.map fun a =>
      if a.component = s.component ∧ a.uniqueName = s.uniqueName then s else a }

section Requests

variable (t : KeyTables)

/-- `global_shortcut_create_binding`. -/
def globalShortcutCreateBinding (r : Registry) (s : Shortcut) : Registry × Shortcut :=
  let keysym := qtkeyToKeysym t s.key
  let modifiers := qtkeyToModifiers s.key
  match s.binding with
  | some b => (r.keyBindingUpdate b keysym modifiers, s)
  | none =>
    let (r, b) := r.keyBindingCreate ⟨keysym, modifiers, ""⟩
    (r, { s with binding := some b })

/-- `global_shortcut_set_active`. -/
def globalShortcutSetActive (r : Registry) (s : Shortcut) : Registry × Shortcut :=
  if !s.isPresent || s.isRegistered then (r, s)
  else
    match s.binding with
    | none => (r, s)
    | some b =>
      match r.keyBindingRegister b with
      | (r, true) => (r, { s with isRegistered := true })
      | (r, false) => (r.keyBindingUnregister b, { s with isRegistered := false, binding := none })

/-- `global_shortcut_set_inactive`. -/
def globalShortcutSetInactive (r : Registry) (s : Shortcut) : Registry × Shortcut :=
  if !s.isRegistered then (r, s)
  else
    match s.binding with
    | none => (r, s)
    | some b => (r.keyBindingUnregister b, { s with isRegistered := false })

/-- `do_register`. -/
def doRegister (r : Registry) (component uniqueName : String) : Registry :=
  match r.getShortcutByName component uniqueName with
  | some _ => r
  | none =>
    { r with shortcuts :=
        { component := component, uniqueName := uniqueName } :: r.shortcuts }

/-- `set_foreign_shortcut_keys`. -/
def setForeignShortcutKeys (r : Registry) (component uniqueName : String) (key : Word) : Registry :=
  match r.getShortcutByName component uniqueName with
  | none => r
  | some s => r.put { s with key := key }

/-- `set_inactive`. -/
def setInactive (r : Registry) (component uniqueName : String) : Registry :=
  match r.getShortcutByName component uniqueName with
  | none => r
  | some s =>
    let (r, s) := r.globalShortcutSetInactive { s with isPresent := false }
    r.put s

/-- The flags of `set_shortcut_keys`. -/
structure Flags where
  setPresent : Bool
  noAutoloading : Bool
  isDefault : Bool

/-- `enum SetShortcutFlag`. -/
def Flags.ofWord (flags : Word) : Flags :=
  ⟨flags &&& 2 ≠ 0, flags &&& 4 ≠ 0, flags &&& 8 ≠ 0⟩

/-- What `set_shortcut_keys` does to the shortcut. -/
def changeKeys (r : Registry) (s : Shortcut) (key : Word) (f : Flags) : Registry × Shortcut :=
  if f.isDefault then (r, { s with defaultKey := key })
  else if !f.noAutoloading && !s.isFresh then
    if !s.isPresent && f.setPresent then r.globalShortcutSetActive { s with isPresent := true }
    else (r, s)
  else
    let (r, s) := r.globalShortcutCreateBinding t { s with key := key }
    let (r, s) :=
      if f.setPresent then r.globalShortcutSetActive { s with isPresent := true } else (r, s)
    (r, { s with isFresh := false })

/-- `set_shortcut_keys`. -/
def setShortcutKeys (r : Registry) (component uniqueName : String) (key flags : Word) : Registry :=
  match r.getShortcutByName component uniqueName with
  | none => r
  | some s =>
    let (r, s) := r.changeKeys t s key (.ofWord flags)
    r.put s

/-- What `shortcut_keys` reports. -/
def shortcutKeys (r : Registry) (component uniqueName : String) : Option Word :=
  (r.getShortcutByName component uniqueName).map Shortcut.key

/-- One step of the loop of `activate_global_shortcut_context`. -/
def deactivate (r : Registry) (s : Shortcut) : Registry :=
  let (r, s) := r.globalShortcutSetInactive s
  r.put s

/-- `activate_global_shortcut_context`. -/
def activateGlobalShortcutContext (r : Registry) (component context : String) : Registry :=
  if context = "default" then
    (r.shortcuts.filter fun s => s.component = component).foldl deactivate r
  else r

/-- `un_register`, with `global_shortcut_destroy`. -/
def unRegister (r : Registry) (component uniqueName : String) : Registry :=
  match r.getShortcutByName component uniqueName with
  | none => r
  | some s =>
    let r := match s.binding with
      | some b => r.keyBindingUnregister b
      | none => r
    { r with shortcuts := r.shortcuts.filter fun a =>
        ¬ (a.component = component ∧ a.uniqueName = uniqueName) }

/-! ### The built-in bindings -/

/-- A built-in binding is created from its name and registered, or given up. -/
def addBuiltin (parse : String → Word × Word) (r : Registry) (keybind : String) : Registry :=
  let (r, b) := r.keyBindingCreate ⟨(parse keybind).1, (parse keybind).2, keybind⟩
  (r.keyBindingRegister b).1

def componentBuiltin : String := "flakewm"

/-- `kglobalaccel_builtin_shortcuts`. -/
def builtinShortcut (r : Registry) (b : ℕ) : Registry :=
  let name := (r.bindings b).keybind
  let r := r.doRegister componentBuiltin name
  match r.getShortcutByName componentBuiltin name with
  | none => r
  | some s =>
    r.put { s with
      binding := some b
      key := modifiersToQtkey (r.bindings b).modifiers ||| keysymToQtkey t (r.bindings b).keysym
      isPresent := true
      isRegistered := true }

/-- The registry after `kde_global_accel_manager_create`. -/
def start (parse : String → Word × Word) (keybinds : List String) : Registry :=
  let r := keybinds.foldl (addBuiltin parse) {}
  r.table.foldl (builtinShortcut t) r

end Requests

end Registry

/-! ### Requests -/

inductive Request where
  | doRegister (component uniqueName : String)
  | setShortcutKeys (component uniqueName : String) (key flags : Word)
  | setForeignShortcutKeys (component uniqueName : String) (key : Word)
  | setInactive (component uniqueName : String)
  | activateGlobalShortcutContext (component context : String)
  | unregister (component uniqueName : String)

def step (t : KeyTables) (r : Registry) : Request → Option Registry
  | .doRegister c n => some (r.doRegister c n)
  | .setShortcutKeys c n key flags => some (r.setShortcutKeys t c n key flags)
  | .setForeignShortcutKeys c n key => some (r.setForeignShortcutKeys c n key)
  | .setInactive c n => some (r.setInactive c n)
  | .activateGlobalShortcutContext c context => some (r.activateGlobalShortcutContext c context)
  | .unregister c n => some (r.unRegister c n)

end FlakeWm.Shortcuts
