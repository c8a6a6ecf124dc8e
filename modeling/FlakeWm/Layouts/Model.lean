import Mathlib.Data.Char
import Mathlib.Data.List.Lex
import Mathlib.Data.List.Sort
import Mathlib.Data.Rat.Defs
import Mathlib.Data.Set.Function
import Mathlib.Order.Lex

/-! The layouts file of the output manager (output/layout.c).

    The file is one JSON object. Under the key of a set of connected outputs it keeps the key of the
    set of outputs that were enabled when that set was last configured, the active layout; under the
    active layout and the UUID of an output together it keeps the configuration of that output. Both
    set keys come from `output_manager_generate_layout`: the UUID of the only output, or the hash of
    the UUIDs in the order of the output names. When no output is enabled, nothing is generated, and
    the active layout is whatever the buffer on the stack held before. -/

namespace FlakeWm.Layouts

/-- A C string: the characters before the terminator. -/
abbrev Str := List Char

/-- The length of a UUID, one less than `UUID_SIZE`. -/
def uuidLength : ℕ := 36

/-- A connected output. `description` is what `output_uuid_generate` hashes, printed with the format
    `"%s %s%s%s (%s)"` from the make on: it has a blank. -/
structure Output where
  name : Str
  description : Str
  blank : ' ' ∈ description
  deriving DecidableEq

/-- The fields of `kywc_output_state` that a layout is about. -/
structure State where
  enabled : Bool
  power : Bool
  width : ℤ
  height : ℤ
  refresh : ℤ
  transform : ℤ
  scale : ℚ
  lx : ℤ
  ly : ℤ
  deriving DecidableEq

/-- `{ 0 }`. -/
def State.zero : State := ⟨false, false, 0, 0, 0, 0, 0, 0, 0⟩

/-- An object of the layouts file: a finite map with these fields. -/
structure Entry where
  activeLayout : Option Str
  enabled : Option Bool
  primary : Option Bool
  width : Option ℤ
  height : Option ℤ
  refresh : Option ℤ
  scale : Option ℚ
  transform : Option ℤ
  lx : Option ℤ
  ly : Option ℤ
  deriving DecidableEq

/-- `json_object_new_object`. -/
def Entry.empty : Entry := ⟨none, none, none, none, none, none, none, none, none, none⟩

/-- The top-level object of the layouts file. -/
abbrev File := Str → Option Entry

/-- Looks the object up, creates it if there is none, and changes its fields. -/
def File.edit (file : File) (key : Str) (f : Entry → Entry) : File :=
  fun k => if k = key then some (f ((file key).getD .empty)) else file k

/-- The output manager: the outputs in the order of its list, the fallback output (which may be one
    of them), the state of each output, the primary output and the key of the connected outputs.
    `preferredMode` (width, height, refresh) and `preferredScale` are properties of the output. -/
structure Manager where
  outputs : List Output
  fallback : Option Output
  state : Output → State
  primary : Option Output
  outputsLayout : Str
  preferredMode : Output → ℤ × ℤ × ℤ
  preferredScale : Output → ℤ → ℤ → ℚ

/-- The outputs other than the fallback. -/
def Manager.actual (m : Manager) : List Output := m.outputs.filter fun o => m.fallback ≠ some o

/-- The outputs that take part in the active layout. -/
def Manager.enabled (m : Manager) : List Output := m.actual.filter fun o => (m.state o).enabled

/-- What `output_manager_get_layout_configs` leaves for `output_manager_configure_outputs`. -/
structure Pending where
  outputsLayout : Str
  configs : List (Output × State)
  primary : Option Output

section

variable (hash : Str → Str)

/-- The UUID of an output, `output_uuid_generate`. -/
def Output.uuid (o : Output) : Str := hash o.description

/-- `output_get_layout`. The active layout is copied to the front of the buffer and a colon is
    written behind the place of a UUID, so a shorter active layout ends the key, and a longer one is
    cut; `none` says that it does not fit into the buffer. -/
def outputGetLayout (o : Output) (activeLayout : Str) : Option Str :=
  if activeLayout.length < uuidLength then some activeLayout
  else if activeLayout.length < 2 * (uuidLength + 1) then
    some (activeLayout.take uuidLength ++ ':' :: o.uuid hash)
  else none

/-- `output_manager_get_active_layout`. -/
def getActiveLayout (file : File) (outputsLayout : Str) : Option Str :=
  (file outputsLayout).bind (·.activeLayout)

/-- `output_manager_set_active_layout`. -/
def setActiveLayout (file : File) (outputsLayout activeLayout : Str) : File :=
  file.edit outputsLayout fun e => { e with activeLayout := some activeLayout }

/-- The fields that `output_read_layout_config` takes over for an output that is enabled. -/
def readFields (e : Entry) (s : State) : State :=
  { s with
    width := e.width.getD s.width
    height := e.height.getD s.height
    refresh := e.refresh.getD s.refresh
    transform := e.transform.getD s.transform
    scale := e.scale.getD s.scale
    lx := e.lx.getD s.lx
    ly := e.ly.getD s.ly }

/-- The state that `output_read_layout_config` reads off the object of an output. -/
def readEntry (e : Entry) : State :=
  let s := { State.zero with
    enabled := e.enabled.getD false
    power := e.enabled.getD false }
  if s.enabled then readFields e s else s

/-- Whether `output_read_layout_config` makes the output the pending primary one. -/
def readPrimary (e : Entry) : Bool := e.enabled.getD false && e.primary.getD false

/-- The fields that `output_write_layout_config` adds; of a disabled output only the flag. -/
def writeEntry (s : State) (primary : Bool) (e : Entry) : Entry :=
  if s.enabled then
    { e with
      enabled := some true
      primary := some primary
      width := some s.width
      height := some s.height
      refresh := some s.refresh
      scale := some s.scale
      transform := some s.transform
      lx := some s.lx
      ly := some s.ly }
  else { e with enabled := some false }

/-- `output_write_layout_config`. -/
def writeLayoutConfig (m : Manager) (activeLayout : Str) (file : File) (o : Output) : Option File :=
  (outputGetLayout hash o activeLayout).map fun key =>
    file.edit key (writeEntry (m.state o) (decide (m.primary = some o)))

/-- The UUIDs in the order of the names, one behind the other. -/
def uuids (os : List Output) : Str :=
  ((os.insertionSort fun a b => a.name ≤ b.name).map fun o => o.uuid hash).flatten

/-- `output_manager_generate_layout` for the outputs it does not skip; with none of them the buffer
    stays as it was. -/
def generateLayout (os : List Output) (buffer : Str) : Str :=
  match os with
  | [] => buffer
  | [o] => o.uuid hash
  | os => hash (uuids hash os)

/-- The state of an output without a saved configuration. -/
def preferred (m : Manager) (o : Output) : State :=
  let (width, height, refresh) := m.preferredMode o
  { State.zero with
    enabled := true
    power := true
    lx := -1
    ly := -1
    width := width
    height := height
    refresh := refresh
    scale := m.preferredScale o width height }

/-- `output_manager_add_output_pending_state`. -/
def addPendingState (o : Output) (s : State) (configs : List (Output × State)) :
    List (Output × State) :=
  if configs.any (·.1 = o) then configs.map fun c => if c.1 = o then (o, s) else c
  else (o, s) :: configs

/-- One turn of the loop in `output_manager_get_layout_configs`. -/
def getLayoutConfig (m : Manager) (file : File) (activeLayout : Option Str) (p : Pending)
    (o : Output) : Option Pending :=
  match activeLayout with
  | none => some { p with configs := addPendingState o (preferred m o) p.configs }
  | some active =>
    (outputGetLayout hash o active).map fun key =>
      match file key with
      | none => { p with configs := addPendingState o (preferred m o) p.configs }
      | some e =>
        { p with
          configs := addPendingState o (readEntry e) p.configs
          primary := if readPrimary e then some o else p.primary }

/-- `output_manager_get_layout_configs`, with the layout manager on and actual outputs connected; no
    configuration is pending before. -/
def getLayoutConfigs (m : Manager) (file : File) : Option Pending :=
  let outputsLayout := generateLayout hash m.actual m.outputsLayout
  m.actual.foldlM (getLayoutConfig hash m file (getActiveLayout file outputsLayout))
    ⟨outputsLayout, [], none⟩

/-- `output_manager_save_layouts`, where `buffer` is what the stack holds in the place of
    `active_layout`. -/
def saveLayouts (file : File) (save : Manager × Str) : Option File :=
  let active := generateLayout hash save.1.enabled save.2
  save.1.actual.foldlM (writeLayoutConfig hash save.1 active)
    (setActiveLayout file save.1.outputsLayout active)

end

end FlakeWm.Layouts
