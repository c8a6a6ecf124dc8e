import FlakeWm.Schemes.Run

/-! Which surface each text input is focused on.

    The relay of a seat (input/text_input.c) tells every text-input-v3 object which surface of its
    client has the keyboard focus. While an input method is connected the surface is the protocol's
    own focused surface; without one it is kept aside as the pending focused surface. A change of
    keyboard focus visits every text input, the input method's coming and going only the first one
    that has something to move, so a client with two text inputs is left with one of them behind. -/

namespace FlakeWm.TextInputs

/-- A text-input-v3 object: its client, the surface it was last sent `enter` for, and the surface
    that waits for an input method. -/
structure TextInput where
  client : ℕ
  focused : Option ℕ
  pending : Option ℕ
  deriving DecidableEq

/-- The relay of one seat. `clientOf` is the client a surface belongs to, `destroyed` the surfaces
    that are gone; `keyboard` remembers the argument of the last `input_method_set_focus`. -/
structure Relay where
  clientOf : ℕ → ℕ
  inputs : List TextInput
  inputMethod : Bool
  destroyed : List ℕ
  keyboard : Option ℕ

inductive Event
  /-- `input_method_set_focus`, on a surface or on none -/
  | setFocus (surface : Option ℕ)
  /-- a client asks to be the seat's input method -/
  | newInputMethod
  /-- the input method goes away -/
  | inputMethodDestroy
  | surfaceDestroy (surface : ℕ)

namespace TextInput

def sendEnter (t : TextInput) (surface : ℕ) : TextInput := { t with focused := some surface }

def sendLeave (t : TextInput) : TextInput := { t with focused := none }

def setPendingFocusedSurface (t : TextInput) (surface : Option ℕ) : TextInput :=
  { t with pending := surface }

/-- The destroy listeners of the two surfaces a text input holds. -/
def surfaceDestroy (surface : ℕ) (t : TextInput) : TextInput :=
  { t with
    focused := if t.focused = some surface then none else t.focused
    pending := if t.pending = some surface then none else t.pending }

end TextInput

/-- Applies `f` to the first element with `p` and stops there. -/
def onFirst {α : Type*} (p : α → Bool) (f : α → α) : List α → List α
  | [] => []
  | a :: l => if p a then f a :: l else a :: onFirst p f l

/-- With at most one element to find, the first one is all of them. -/
theorem onFirst_eq_map {α : Type*} {p : α → Bool} {f : α → α} : ∀ l : List α,
    (l.filter p).length ≤ 1 → onFirst p f l = l.map fun a => if p a then f a else a
  | [], _ => rfl
  | a :: l, h => by
      by_cases ha : p a
      · have hnone : ∀ b ∈ l, ¬ p b := by
          rw [List.filter_cons_of_pos ha, List.length_cons] at h
          have hl : l.filter p = [] := List.eq_nil_of_length_eq_zero (by omega)
          exact List.filter_eq_nil_iff.1 hl
        have hmap : l.map (fun b => if p b then f b else b) = l := by
          refine (List.map_congr_left fun b hb => ?_).trans (List.map_id l)
          exact if_neg (hnone b hb)
        rw [onFirst, if_pos ha, List.map_cons, if_pos ha, hmap]
      · rw [List.filter_cons_of_neg ha] at h
        rw [onFirst, if_neg ha, List.map_cons, if_neg ha, onFirst_eq_map l h]

namespace Relay

/-- `text_input_match_surface` for a text-input-v3 object. -/
def matchSurface (r : Relay) (t : TextInput) (surface : ℕ) : Bool :=
  t.client == r.clientOf surface

/-- The end of one turn of the loop in `input_method_set_focus`. -/
def enterOrPend (r : Relay) (surface : Option ℕ) (t : TextInput) : TextInput :=
  match surface with
  | none => t
  | some s =>
    if r.matchSurface t s then
      if r.inputMethod then t.sendEnter s else t.setPendingFocusedSurface (some s)
    else t

/-- One turn of the loop in `input_method_set_focus`. -/
def setFocusOne (r : Relay) (surface : Option ℕ) (t : TextInput) : TextInput :=
  match t.pending, t.focused with
  | some p, _ =>
    r.enterOrPend surface (if surface ≠ some p then t.setPendingFocusedSurface none else t)
  | none, some f => if surface ≠ some f then r.enterOrPend surface t.sendLeave else t
  | none, none => r.enterOrPend surface t

/-- `input_method_set_focus`. -/
def setFocus (r : Relay) (surface : Option ℕ) : Relay :=
  { r with inputs := r.inputs.map (r.setFocusOne surface), keyboard := surface }

/-- What `handle_new_input_method` does to the first text input with a pending surface. -/
def enterPending (t : TextInput) : TextInput :=
  match t.pending with
  | none => t
  | some s => (t.sendEnter s).setPendingFocusedSurface none

/-- `handle_new_input_method`: a second input method is told that it is unavailable. -/
def newInputMethod (r : Relay) : Relay :=
  if r.inputMethod then r
  else { r with
    inputMethod := true
    inputs := onFirst (fun t => t.pending.isSome) enterPending r.inputs }

/-- What `handle_input_method_destroy` does to the first focused text input. -/
def leaveFocused (t : TextInput) : TextInput :=
  (t.setPendingFocusedSurface t.focused).sendLeave

/-- `handle_input_method_destroy`. -/
def inputMethodDestroy (r : Relay) : Relay :=
  { r with
    inputMethod := false
    inputs := onFirst (fun t => t.focused.isSome) leaveFocused r.inputs }

def surfaceDestroy (r : Relay) (surface : ℕ) : Relay :=
  { r with
    inputs := r.inputs.map (TextInput.surfaceDestroy surface)
    destroyed := surface :: r.destroyed }

end Relay

/-- One event; focus is only ever put on a surface that exists. -/
def step (r : Relay) : Event → Option Relay
  | .setFocus none => some (r.setFocus none)
  | .setFocus (some s) => if s ∈ r.destroyed then none else some (r.setFocus (some s))
  | .newInputMethod => some r.newInputMethod
  | .inputMethodDestroy => if r.inputMethod then some r.inputMethodDestroy else none
  | .surfaceDestroy s => if s ∈ r.destroyed then none else some (r.surfaceDestroy s)

/-- A seat with one text input for each entry of `clients`, before any event. -/
def start (clientOf : ℕ → ℕ) (clients : List ℕ) : Relay where
  clientOf := clientOf
  inputs := clients.map fun c => ⟨c, none, none⟩
  inputMethod := false
  destroyed := []
  keyboard := none

/-- The surface of the last `input_method_set_focus`, if it is one of the text input's client and
    still exists. -/
def Relay.expected (r : Relay) (t : TextInput) : Option ℕ :=
  r.keyboard.filter fun s => t.client == r.clientOf s && !r.destroyed.contains s

/-- The focus of the text inputs follows the keyboard focus. -/
def Relay.FocusFollows (r : Relay) : Prop :=
  if r.inputMethod then ∀ t ∈ r.inputs, t.focused = r.expected t
  else ∀ t ∈ r.inputs, t.focused = none

/-- The invariant: the pending surface is to a seat without input method what the focused surface
    is to one with. -/
def Relay.Tracks (r : Relay) : Prop :=
  ∀ t ∈ r.inputs, t.focused = (if r.inputMethod then r.expected t else none) ∧
    t.pending = (if r.inputMethod then none else r.expected t)

theorem Relay.Tracks.focusFollows {r : Relay} (h : r.Tracks) : r.FocusFollows := by
  unfold Relay.FocusFollows
  split
  · rename_i him
    exact fun t ht => (h t ht).1.trans (if_pos him)
  · rename_i him
    exact fun t ht => (h t ht).1.trans (if_neg him)

/-- An input method leaves at most one focused text input, and one that comes finds at most one that
    waits. -/
def lone (r : Relay) : Event → Bool
  | .newInputMethod =>
    r.inputMethod || decide ((r.inputs.filter fun t => t.pending.isSome).length ≤ 1)
  | .inputMethodDestroy => decide ((r.inputs.filter fun t => t.focused.isSome).length ≤ 1)
  | _ => true

theorem enterOrPend_spec (r : Relay) (surface : Option ℕ) {t : TextInput} (hf : t.focused = none)
    (hp : t.pending = none) :
    (r.enterOrPend surface t).client = t.client ∧
      (r.enterOrPend surface t).focused =
        (if r.inputMethod then surface.filter (r.matchSurface t) else none) ∧
      (r.enterOrPend surface t).pending =
        (if r.inputMethod then none else surface.filter (r.matchSurface t)) := by
  cases surface with
  | none => simp [Relay.enterOrPend, hf, hp]
  | some s =>
    unfold Relay.enterOrPend
    by_cases hm : r.matchSurface t s <;> by_cases him : r.inputMethod <;>
      simp [hm, him, hf, hp, TextInput.sendEnter, TextInput.setPendingFocusedSurface, Option.filter]

/-- A text input that holds at most one surface, and one of its client, takes over the new one. -/
theorem setFocusOne_spec (r : Relay) (surface : Option ℕ) {t : TextInput}
    (hf : t.focused = if r.inputMethod then t.focused.filter (r.matchSurface t) else none)
    (hp : t.pending = if r.inputMethod then none else t.pending.filter (r.matchSurface t)) :
    (r.setFocusOne surface t).client = t.client ∧
      (r.setFocusOne surface t).focused =
        (if r.inputMethod then surface.filter (r.matchSurface t) else none) ∧
      (r.setFocusOne surface t).pending =
        (if r.inputMethod then none else surface.filter (r.matchSurface t)) := by
  unfold Relay.setFocusOne
  split
  · rename_i p hpend
    have him : r.inputMethod = false := by
      by_contra him
      rw [hpend, if_pos (by simpa using him)] at hp
      cases hp
    rw [him] at hf
    by_cases hs : surface = some p
    · subst hs
      have hm : r.matchSurface t p = true := by
        rw [hpend, him, if_neg Bool.false_ne_true, eq_comm, Option.filter_eq_some_iff] at hp
        exact hp.2
      simp_all [Relay.enterOrPend, TextInput.setPendingFocusedSurface, Option.filter]
    · rw [if_pos hs]
      exact enterOrPend_spec r surface (t := t.setPendingFocusedSurface none) hf rfl
  · rename_i f hpend hfoc
    have him : r.inputMethod = true := by
      by_contra him
      rw [hfoc, if_neg him] at hf
      cases hf
    by_cases hs : surface = some f
    · subst hs
      rw [if_neg (by simp)]
      refine ⟨rfl, ?_, ?_⟩
      · rw [if_pos him] at hf ⊢
        rw [← hfoc]
        exact hf
      · rw [if_pos him]
        exact hpend
    · rw [if_pos hs]
      exact enterOrPend_spec r surface (t := t.sendLeave) rfl hpend
  · rename_i hpend hfoc
    exact enterOrPend_spec r surface hfoc hpend

theorem expected_filter (r : Relay) (t : TextInput) :
    (r.expected t).filter (r.matchSurface t) = r.expected t := by
  unfold Relay.expected
  rw [Option.filter_filter]
  congr 1
  funext s
  unfold Relay.matchSurface
  cases t.client == r.clientOf s <;> simp

theorem expected_congr {r r' : Relay} {t t' : TextInput} (hc : r'.clientOf = r.clientOf)
    (hd : r'.destroyed = r.destroyed) (hk : r'.keyboard = r.keyboard) (ht : t'.client = t.client) :
    r'.expected t' = r.expected t := by
  simp only [Relay.expected, hc, hd, hk, ht]

theorem setFocus_tracks {r : Relay} (h : r.Tracks) {surface : Option ℕ}
    (hlive : ∀ s ∈ surface, s ∉ r.destroyed) : (r.setFocus surface).Tracks := by
  intro t' ht'
  obtain ⟨t, ht, rfl⟩ := List.mem_map.1 ht'
  obtain ⟨hfoc, hpend⟩ := h t ht
  have hf : t.focused = if r.inputMethod then t.focused.filter (r.matchSurface t) else none := by
    rw [hfoc]
    split
    · rw [expected_filter]
    · rfl
  have hp : t.pending = if r.inputMethod then none else t.pending.filter (r.matchSurface t) := by
    rw [hpend]
    split
    · rfl
    · rw [expected_filter]
  obtain ⟨hc, hf', hp'⟩ := setFocusOne_spec r surface hf hp
  have hexp : (r.setFocus surface).expected (r.setFocusOne surface t) =
      surface.filter (r.matchSurface t) := by
    cases surface with
    | none => rfl
    | some s =>
      have hs : r.destroyed.contains s = false := by simpa using hlive s rfl
      simp only [Relay.expected, Relay.setFocus, hc, Option.filter, hs, Relay.matchSurface,
        Bool.not_false, Bool.and_true]
      rfl
  rw [hexp]
  exact ⟨hf', hp'⟩

theorem newInputMethod_tracks {r : Relay} (h : r.Tracks) (hl : lone r .newInputMethod = true) :
    r.newInputMethod.Tracks := by
  unfold Relay.newInputMethod
  by_cases him : r.inputMethod = true
  · rwa [if_pos him]
  · rw [if_neg him, onFirst_eq_map _ (by simpa [lone, him] using hl)]
    intro t' ht'
    obtain ⟨t, ht, rfl⟩ := List.mem_map.1 ht'
    obtain ⟨hfoc, hpend⟩ := h t ht
    rw [if_neg him] at hfoc hpend
    cases hp : t.pending with
    | none =>
      rw [hp] at hpend
      refine ⟨?_, ?_⟩
      · rw [if_neg (by simp), if_pos rfl, hfoc, hpend]
        exact expected_congr rfl rfl rfl rfl
      · rw [if_neg (by simp), if_pos rfl, hp]
    | some s =>
      have hent : Relay.enterPending t = { t with focused := some s, pending := none } := by
        simp only [Relay.enterPending, hp, TextInput.sendEnter,
          TextInput.setPendingFocusedSurface]
      rw [hp] at hpend
      rw [Option.isSome_some, if_pos rfl, if_pos rfl, if_pos rfl, hent]
      exact ⟨hpend.trans (expected_congr rfl rfl rfl rfl), rfl⟩

theorem inputMethodDestroy_tracks {r : Relay} (h : r.Tracks) (him : r.inputMethod = true)
    (hl : lone r .inputMethodDestroy = true) : r.inputMethodDestroy.Tracks := by
  unfold Relay.inputMethodDestroy
  rw [onFirst_eq_map _ (by simpa [lone] using hl)]
  intro t' ht'
  obtain ⟨t, ht, rfl⟩ := List.mem_map.1 ht'
  obtain ⟨hfoc, hpend⟩ := h t ht
  rw [if_pos him] at hfoc hpend
  cases hf : t.focused with
  | none =>
    rw [hf] at hfoc
    rw [Option.isSome_none, if_neg Bool.false_ne_true, if_neg Bool.false_ne_true,
      if_neg Bool.false_ne_true]
    exact ⟨hf, (hpend.trans hfoc).trans (expected_congr rfl rfl rfl rfl)⟩
  | some s =>
    rw [Option.isSome_some, if_pos rfl, if_neg Bool.false_ne_true, if_neg Bool.false_ne_true]
    exact ⟨rfl, hfoc.trans (expected_congr rfl rfl rfl rfl)⟩

theorem surfaceDestroy_expected (r : Relay) (s : ℕ) (t : TextInput) :
    (r.surfaceDestroy s).expected (t.surfaceDestroy s) =
      if r.expected t = some s then none else r.expected t := by
  unfold Relay.expected Relay.surfaceDestroy TextInput.surfaceDestroy
  cases hk : r.keyboard with
  | none => simp
  | some k =>
    by_cases hks : k = s
    · subst hks
      simp [Option.filter]
    · simp [Option.filter, hks]

theorem surfaceDestroy_tracks {r : Relay} (h : r.Tracks) (s : ℕ) : (r.surfaceDestroy s).Tracks := by
  intro t' ht'
  obtain ⟨t, ht, rfl⟩ := List.mem_map.1 ht'
  obtain ⟨hfoc, hpend⟩ := h t ht
  rw [surfaceDestroy_expected]
  simp only [TextInput.surfaceDestroy, Relay.surfaceDestroy, hfoc, hpend]
  by_cases him : r.inputMethod = true <;> simp [him]

theorem start_tracks (clientOf : ℕ → ℕ) (clients : List ℕ) : (start clientOf clients).Tracks := by
  intro t ht
  obtain ⟨c, -, rfl⟩ := List.mem_map.1 ht
  exact ⟨rfl, rfl⟩

theorem step_tracks {r r' : Relay} (e : Event) (h : r.Tracks) (hl : lone r e = true)
    (hs : step r e = some r') : r'.Tracks := by
  cases e with
  | setFocus surface =>
    cases surface with
    | none =>
      cases hs
      exact setFocus_tracks h (fun s hs => by cases hs)
    | some s =>
      rw [step, Option.ite_none_left_eq_some, Option.some.injEq] at hs
      obtain ⟨hs, rfl⟩ := hs
      refine setFocus_tracks h fun s' hs' => ?_
      cases hs'
      exact hs
  | newInputMethod =>
    cases hs
    exact newInputMethod_tracks h hl
  | inputMethodDestroy =>
    rw [step, Option.ite_none_right_eq_some, Option.some.injEq] at hs
    obtain ⟨him, rfl⟩ := hs
    exact inputMethodDestroy_tracks h him hl
  | surfaceDestroy s =>
    rw [step, Option.ite_none_left_eq_some, Option.some.injEq] at hs
    obtain ⟨-, rfl⟩ := hs
    exact surfaceDestroy_tracks h s

/-- Whatever clients have how many text inputs: as long as no more than one of them is focused when
    the input method leaves, and no more than one waits when it comes, the focus of every text input
    follows the keyboard focus. -/
theorem text_input_focus_follows (clientOf : ℕ → ℕ) (clients : List ℕ) {r : Relay}
    (h : Reach step (fun r e => lone r e = true) (start clientOf clients) r) : r.FocusFollows :=
  (h.inv (start_tracks clientOf clients) fun _ e _ hr hl hs => step_tracks e hr hl hs).focusFollows

/-- The input method restarts while the first of two clients has the keyboard focus, then the focus
    moves to the second. -/
def restart : List Event :=
  [.newInputMethod, .setFocus (some 1), .inputMethodDestroy, .newInputMethod, .setFocus (some 2)]

/-- Two clients with a text input each come through it. -/
theorem restart_between_two_clients :
    ∃ r, exec (guarded step lone) (start id [1, 2]) restart = some r ∧
      r.inputs.map (·.focused) = [none, some 2] ∧ r.FocusFollows :=
  ⟨_, rfl, rfl, text_input_focus_follows id [1, 2] (.of_exec_guarded restart _ rfl)⟩

/-- A client with two text inputs loses its input method: the second one stays focused. -/
theorem second_text_input_stays_focused :
    ¬ ∀ r, Reach step Always (start id [1, 1]) r → r.FocusFollows := by
  intro h
  have hr := h _ (.of_exec [.newInputMethod, .setFocus (some 1), .inputMethodDestroy] _ rfl)
  have hsecond := hr ⟨1, some 1, none⟩ (by decide)
  cases hsecond

end FlakeWm.TextInputs
