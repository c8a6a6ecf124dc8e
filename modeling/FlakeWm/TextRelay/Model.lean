import FlakeWm.Schemes.Run

/-! The relay between the text inputs of versions 1 and 2 and the input method of a seat (`src/input/text_input.c`,
    `text_input_v1.c`, `text_input_v2.c`).

    A text input keeps the surface it is used on, its seat, and a listener on the destroy signal of each; the relay of
    its seat tells it when the surface gets and loses the focus while an input method is connected. A handler that
    fails an assertion, measures a text that is missing or reads a relay that was freed has no next state. What a
    listener is linked in is a list: adding it to a signal without removing it first leaves it in two. Seats are
    numbered and a number is not used again; seat 0 is the default seat. Version 3, content types, cursor rectangles,
    the messages to the input method, keyboard grabs, the places of popups and a failing `calloc` are left out. -/

namespace FlakeWm.TextRelay

inductive Version where
  | v1
  | v2
  deriving DecidableEq

/-- `struct text_input` with its `text_input_v1` or `text_input_v2`. -/
structure TextInput where
  id : ℕ
  client : ℕ
  version : Version
  /-- the seat whose relay it was given -/
  relay : ℕ
  seat : Option ℕ := none
  seatDestroy : List ℕ := []
  surface : Option ℕ := none
  surfaceDestroy : List ℕ := []
  enabled : Bool := false
  surroundingPending : Bool := false
  pendingFocusedSurface : Option ℕ := none
  deriving DecidableEq

/-- `struct input_method_relay`. -/
structure Relay where
  inputMethod : Bool := false
  pendingEnabledTextInput : Option ℕ := none

/-- `struct input_popup`. -/
structure Popup where
  id : ℕ
  relay : ℕ

/-- The relays that are not freed, by their seats, and the live surfaces with their clients; the text inputs from the
newest to the oldest. -/
structure State where
  relays : ℕ → Option Relay := fun seat => if seat = 0 then some {} else none
  nextSeat : ℕ := 1
  surfaces : ℕ → Option ℕ := fun _ => none
  inputs : List TextInput := []
  popups : List Popup := []
  nextId : ℕ := 0

inductive Event where
  | newSeat
  | newSurface (surface client : ℕ)
  /-- `create_text_input` of version 1, which names no seat -/
  | createTextInput (client : ℕ)
  /-- `get_text_input` of version 2 -/
  | getTextInput (client seat : ℕ)
  | activate (i seat surface : ℕ)
  | deactivate (i seat : ℕ)
  | enable (i surface : ℕ)
  | disable (i surface : ℕ)
  | setSurroundingText (i : ℕ)
  | reset (i : ℕ)
  /-- `commit_state` of version 1 and `update_state` of version 2 -/
  | commit (i : ℕ)
  | resourceDestroy (i : ℕ)
  | newInputMethod (seat : ℕ)
  /-- what the input method commits: a preedit text, a commit text, a part to delete -/
  | inputMethodCommit (seat : ℕ) (preedit commitText delete : Bool)
  | inputMethodDestroy (seat : ℕ)
  /-- `input_method_set_focus` -/
  | setFocus (seat : ℕ) (surface : Option ℕ)
  | surfaceDestroy (surface : ℕ)
  /-- `seat_destroy` -/
  | seatDestroy (seat : ℕ)
  | newPopup (seat : ℕ)
  /-- the surface of a popup is mapped, or commits -/
  | popupUpdate (i : ℕ)
  | popupDestroy (i : ℕ)
  deriving DecidableEq

/-! ### One text input -/

namespace TextInput

variable (t : TextInput)

/-- `wl_signal_add` of the surface's listener; it does not look whether the listener is linked. -/
def listenSurface (surface : ℕ) : TextInput :=
  { t with surface := some surface, surfaceDestroy := surface :: t.surfaceDestroy }

/-- The surface is set to `NULL` and the listener removed from the signal it was added to last. -/
def clearSurface : TextInput := { t with surface := none, surfaceDestroy := t.surfaceDestroy.tail }

/-- `text_input_v1_send_enter` and `text_input_v2_send_enter`. -/
def sendEnter (surface : ℕ) : Option TextInput :=
  match t.version with
  | .v1 => if t.surface = some surface then some t else none
  | .v2 => some t

/-- `text_input_v1_send_leave` and `text_input_v2_send_leave`. -/
def sendLeave : Option TextInput :=
  match t.version with
  | .v1 => some t.clearSurface
  | .v2 => if t.surface.isSome then some t.clearSurface else none

/-- `text_input_match_surface`, for a surface of this client. -/
def matchSurface (surface client : ℕ) : Bool :=
  match t.version with
  | .v1 => decide (client = t.client) && decide (t.surface = some surface)
  | .v2 => decide (client = t.client)

/-- The end of a round of the loop in `input_method_set_focus`; `surface` is given with its client. -/
def enterOrPend (inputMethod : Bool) (surface : Option (ℕ × ℕ)) : Option TextInput :=
  match surface with
  | none => some t
  | some (surface, client) =>
    if t.matchSurface surface client then
      if inputMethod then t.sendEnter surface else some { t with pendingFocusedSurface := some surface }
    else some t

/-- A round of the loop in `input_method_set_focus`. -/
def setFocus (inputMethod : Bool) (surface : Option (ℕ × ℕ)) : Option TextInput :=
  if t.pendingFocusedSurface.isSome then
    if surface.map Prod.fst ≠ t.pendingFocusedSurface then
      { t with pendingFocusedSurface := none }.enterOrPend inputMethod surface
    else t.enterOrPend inputMethod surface
  else if t.surface.isSome then
    if surface.map Prod.fst ≠ t.surface then t.sendLeave.bind fun t => t.enterOrPend inputMethod surface
    else some t
  else t.enterOrPend inputMethod surface

end TextInput

/-! ### The relay -/

namespace State

variable (s : State)

def find (i : ℕ) : Option TextInput := s.inputs.find? fun t => decide (t.id = i)

/-- A text input is written back. -/
def put (t : TextInput) : State := { s with inputs := s.inputs.map fun a => if a.id = t.id then t else a }

/-- A text input that is at hand changes. -/
def replace (t t' : TextInput) : State := { s with inputs := s.inputs.map fun a => if a = t then t' else a }

def setRelay (seat : ℕ) (relay : Option Relay) : State :=
  { s with relays := Function.update s.relays seat relay }

/-- `relay_get_focused_text_input`. -/
def focusedTextInput (seat : ℕ) : Option TextInput :=
  s.inputs.find? fun t => decide (t.relay = seat) && t.surface.isSome

/-- The text input that the loop of `handle_new_input_method` stops at. -/
def pendingTextInput (seat : ℕ) : Option TextInput :=
  s.inputs.find? fun t => decide (t.relay = seat) && t.pendingFocusedSurface.isSome

/-- `handle_text_input_enable`. -/
def handleTextInputEnable (t : TextInput) : Option State :=
  match s.relays t.relay with
  | none => none
  | some relay =>
    if relay.inputMethod then some s
    else some (s.setRelay t.relay (some { relay with pendingEnabledTextInput := some t.id }))

/-- `handle_text_input_disable`, and the part of `handle_text_input_destroy` that it has in common. -/
def forgetEnabled (t : TextInput) : Option State :=
  match s.relays t.relay with
  | none => none
  | some relay =>
    if relay.pendingEnabledTextInput = some t.id then
      some (s.setRelay t.relay (some { relay with pendingEnabledTextInput := none }))
    else some s

/-- `handle_text_input_commit`. -/
def handleTextInputCommit (t : TextInput) : Option State :=
  if t.enabled then (s.relays t.relay).map fun _ => s else some s

/-- `text_input_destroy` with `handle_text_input_destroy`. -/
def textInputDestroy (t : TextInput) : Option State :=
  (s.forgetEnabled t).map fun s => { s with inputs := s.inputs.filter fun a => decide (a.id ≠ t.id) }

/-! ### Requests -/

/-- `create_text_input`: the relay is that of the default seat. -/
def createTextInput (client : ℕ) : Option State :=
  (s.relays 0).map fun _ =>
    { s with
      inputs := { id := s.nextId, client := client, version := .v1, relay := 0 } :: s.inputs
      nextId := s.nextId + 1 }

/-- `get_text_input`; the resource of a seat that is gone gives no text input. -/
def getTextInput (client seat : ℕ) : State :=
  match s.relays seat with
  | none => s
  | some _ =>
    { s with
      inputs := { id := s.nextId, client := client, version := .v2, relay := seat, seat := some seat, seatDestroy := [seat] } ::
        s.inputs
      nextId := s.nextId + 1 }

/-- The request names a live surface of the client that makes it. -/
def ownSurface (t : TextInput) (surface : ℕ) : Bool := decide (s.surfaces surface = some t.client)

/-- `text_input_activate`. -/
def activate (i seat surface : ℕ) : Option State :=
  match s.find i with
  | none => some s
  | some t =>
    if t.version = .v1 ∧ (s.relays seat).isSome ∧ s.ownSurface t surface then
      let t := { t.listenSurface surface with seat := some seat, seatDestroy := seat :: t.seatDestroy, enabled := true }
      (s.put t).handleTextInputEnable t
    else some s

/-- `text_input_deactivate`. -/
def deactivate (i seat : ℕ) : Option State :=
  match s.find i with
  | none => some s
  | some t =>
    if t.version = .v1 ∧ (s.relays seat).isSome ∧ t.seat = some seat then
      let t := { t with enabled := false }
      ((s.put t).forgetEnabled t).map fun s =>
        s.put { t.clearSurface with seat := none, seatDestroy := t.seatDestroy.tail }
    else some s

/-- `text_input_enable`. -/
def enable (i surface : ℕ) : Option State :=
  match s.find i with
  | none => some s
  | some t =>
    if t.version = .v2 ∧ s.ownSurface t surface then
      let t := if t.surface ≠ some surface then t.clearSurface.listenSurface surface else t
      let t := { t with enabled := true }
      (s.put t).handleTextInputEnable t
    else some s

/-- `text_input_disable`; one for a surface that was replaced is stale. -/
def disable (i surface : ℕ) : Option State :=
  match s.find i with
  | none => some s
  | some t =>
    if t.version = .v2 ∧ s.ownSurface t surface then
      if t.surface.isSome ∧ t.surface ≠ some surface then some s
      else
        let t := { t with enabled := false }
        ((s.put t).forgetEnabled t).map fun s => s.put t.clearSurface
    else some s

/-- `text_input_set_surrounding_text`. -/
def setSurroundingText (i : ℕ) : State :=
  match s.find i with
  | none => s
  | some t => s.put { t with surroundingPending := true }

/-- `text_input_reset`, which version 1 has. -/
def reset (i : ℕ) : State :=
  match s.find i with
  | none => s
  | some t => if t.version = .v1 then s.put { t with surroundingPending := false } else s

/-- `text_input_commit_state`, and `text_input_update_state`, after which nothing is pending. -/
def commit (i : ℕ) : Option State :=
  match s.find i with
  | none => some s
  | some t =>
    (s.handleTextInputCommit t).map fun s =>
      if t.version = .v2 then s.put { t with surroundingPending := false } else s

/-- `text_input_resource_destroy`. -/
def resourceDestroy (i : ℕ) : Option State :=
  match s.find i with
  | none => some s
  | some t => s.textInputDestroy t

/-! ### The input method -/

/-- `handle_new_input_method`: the first text input with a pending surface enters it. -/
def newInputMethod (seat : ℕ) : Option State :=
  match s.relays seat with
  | none => some s
  | some relay =>
    if relay.inputMethod then some s
    else
      let s := s.setRelay seat (some ⟨true, none⟩)
      match s.pendingTextInput seat with
      | none => some s
      | some t =>
        match t.pendingFocusedSurface with
        | none => some s
        | some surface => (t.sendEnter surface).map fun t => s.put { t with pendingFocusedSurface := none }

/-- `handle_input_method_commit`: what is deleted is counted from the end of the preedit text. -/
def inputMethodCommit (seat : ℕ) (preedit delete : Bool) : Option State :=
  match s.relays seat with
  | none => some s
  | some relay =>
    if relay.inputMethod ∧ (s.focusedTextInput seat).isSome ∧ delete ∧ !preedit then none else some s

/-- `handle_input_method_destroy`, for a relay that has an input method. -/
def handleInputMethodDestroy (seat : ℕ) (relay : Relay) : Option State :=
  let s := s.setRelay seat (some { relay with inputMethod := false })
  match s.focusedTextInput seat with
  | none => some s
  | some t => { t with pendingFocusedSurface := t.surface }.sendLeave.map fun t' => s.replace t t'

/-- The input method of a seat goes away. -/
def inputMethodDestroy (seat : ℕ) : Option State :=
  match s.relays seat with
  | none => some s
  | some relay => if relay.inputMethod then s.handleInputMethodDestroy seat relay else some s

/-! ### Focus, surfaces, seats and popups -/

/-- `input_method_set_focus`. -/
def setFocus (seat : ℕ) (surface : Option ℕ) : Option State :=
  match s.relays seat with
  | none => some s
  | some relay =>
    let surface := surface.bind fun f => (s.surfaces f).map fun client => (f, client)
    (s.inputs.mapM fun t => if t.relay = seat then t.setFocus relay.inputMethod surface else some t).map fun inputs =>
      { s with inputs := inputs }

/-- What the listeners of a surface do to a text input that stays. -/
def loseSurface (surface : ℕ) (t : TextInput) : TextInput :=
  let t := if t.pendingFocusedSurface = some surface then { t with pendingFocusedSurface := none } else t
  if t.version = .v2 ∧ surface ∈ t.surfaceDestroy then t.clearSurface else t

/-- A surface is destroyed, and with it the text inputs of version 1 that listen to it. -/
def surfaceDestroy (surface : ℕ) : Option State :=
  let gone := s.inputs.filter fun t => decide (t.version = .v1) && decide (surface ∈ t.surfaceDestroy)
  (gone.foldlM textInputDestroy s).map fun s =>
    { s with
      surfaces := Function.update s.surfaces surface none
      inputs := s.inputs.map (loseSurface surface) }

/-- `handle_seat_destroy` of the relay, then the seat with the text inputs that listen to it. -/
def seatDestroy (seat : ℕ) : Option State :=
  match s.relays seat with
  | none => some s
  | some relay =>
    (if relay.inputMethod then s.handleInputMethodDestroy seat relay else some s).bind fun s =>
      let s := s.setRelay seat none
      (s.inputs.filter fun t => decide (seat ∈ t.seatDestroy)).foldlM textInputDestroy s

/-- `handle_new_popup_surface`, of a connected input method. -/
def newPopup (seat : ℕ) : State :=
  match s.relays seat with
  | none => s
  | some relay =>
    if relay.inputMethod then { s with popups := ⟨s.nextId, seat⟩ :: s.popups, nextId := s.nextId + 1 } else s

/-- `handle_input_surface_map` and `handle_input_surface_commit`, which read the seat of the relay. -/
def popupUpdate (i : ℕ) : Option State :=
  match s.popups.find? fun p => decide (p.id = i) with
  | none => some s
  | some p => (s.relays p.relay).map fun _ => s

end State

def step (s : State) : Event → Option State
  | .newSeat => some { s.setRelay s.nextSeat (some {}) with nextSeat := s.nextSeat + 1 }
  | .newSurface surface client =>
      if (s.surfaces surface).isSome then some s
      else some { s with surfaces := Function.update s.surfaces surface (some client) }
  | .createTextInput client => s.createTextInput client
  | .getTextInput client seat => some (s.getTextInput client seat)
  | .activate i seat surface => s.activate i seat surface
  | .deactivate i seat => s.deactivate i seat
  | .enable i surface => s.enable i surface
  | .disable i surface => s.disable i surface
  | .setSurroundingText i => some (s.setSurroundingText i)
  | .reset i => some (s.reset i)
  | .commit i => s.commit i
  | .resourceDestroy i => s.resourceDestroy i
  | .newInputMethod seat => s.newInputMethod seat
  | .inputMethodCommit seat preedit _ delete => s.inputMethodCommit seat preedit delete
  | .inputMethodDestroy seat => s.inputMethodDestroy seat
  | .setFocus seat surface => s.setFocus seat surface
  | .surfaceDestroy surface => s.surfaceDestroy surface
  | .seatDestroy seat => s.seatDestroy seat
  | .newPopup seat => some (s.newPopup seat)
  | .popupUpdate i => s.popupUpdate i
  | .popupDestroy i => some { s with popups := s.popups.filter fun p => decide (p.id ≠ i) }

end FlakeWm.TextRelay
