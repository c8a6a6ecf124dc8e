import FlakeWm.Idle.Model
import Mathlib.Data.List.Basic

/-! What every client sees of idleness: `idle` and `resumed` in turns, and nothing while it is inhibited. -/

namespace FlakeWm.Idle

variable {idle : Idle} {s s' : State} {inhibited : Bool}

/-- What can be sent after what was sent, the last first. -/
def next : List Notification → Notification
  | .idle :: _ => .resumed
  | _ => .idle

/-- The notifications alternate, and the first is `idle`. -/
def Alternates : List Notification → Prop
  | [] => True
  | notification :: sent => notification = next sent ∧ Alternates sent

/-- What was sent alternates, and the flag of a record tells what was sent last. -/
structure Told (idle : Idle) : Prop where
  alternates : Alternates idle.sent
  last : next idle.sent = if idle.idleState then .resumed else .idle

/-- An object that is inhibited is awake and will stay so. -/
def Awake (inhibited : Bool) (idle : Idle) : Prop :=
  inhibited = true → idle.supportInhibit = true → idle.idleState = false ∧ idle.timer ≠ some true

theorem setIdle_told (h : Told idle) (idleState : Bool) : Told (idle.setIdle idleState) := by
  rw [Idle.setIdle]
  split
  · exact h
  next hne =>
    have hlast := h.last
    cases idleState with
    | true => exact ⟨⟨by simpa [hne] using hlast.symm, h.alternates⟩, rfl⟩
    | false => exact ⟨⟨by simpa [hne] using hlast.symm, h.alternates⟩, rfl⟩

theorem timerUpdate_told (h : Told idle) (delay : ℕ) : Told (idle.timerUpdate delay) := ⟨h.alternates, h.last⟩

theorem restart_told (h : Told idle) : Told idle.restart := by
  rw [Idle.restart]
  split
  · exact timerUpdate_told h _
  · exact setIdle_told h true

theorem resetTimer_told (h : Told idle) (inhibited : Bool) : Told (idle.resetTimer inhibited) := by
  rw [Idle.resetTimer]
  split
  · exact timerUpdate_told (setIdle_told h false) 0
  · exact restart_told h

theorem simulateActivity_told (h : Told idle) : Told idle.simulateActivity := by
  have heq : (if idle.idleState then { idle with idleState := false, sent := .resumed :: idle.sent } else idle) =
      idle.setIdle false := by
    cases hidle : idle.idleState <;> simp [Idle.setIdle, hidle]
  rw [Idle.simulateActivity, heq]
  exact restart_told (setIdle_told h false)

@[simp] theorem setIdle_supportInhibit (idle : Idle) (b : Bool) : (idle.setIdle b).supportInhibit = idle.supportInhibit := by
  rw [Idle.setIdle]
  split <;> rfl

@[simp] theorem setIdle_idleState (idle : Idle) (b : Bool) : (idle.setIdle b).idleState = b := by
  rw [Idle.setIdle]
  split
  next heq => exact heq
  · rfl

@[simp] theorem restart_supportInhibit (idle : Idle) : idle.restart.supportInhibit = idle.supportInhibit := by
  rw [Idle.restart]
  split
  · rfl
  · exact setIdle_supportInhibit idle true

/-- Resetting the timer keeps an inhibited object awake. -/
theorem resetTimer_awake (idle : Idle) (inhibited : Bool) : Awake inhibited (idle.resetTimer inhibited) := by
  rintro rfl hsupport
  rw [Idle.resetTimer] at hsupport ⊢
  split
  · refine ⟨setIdle_idleState idle false, fun htimer => ?_⟩
    simp only [Idle.timerUpdate, Option.map_eq_some_iff] at htimer
    obtain ⟨_, _, hfalse⟩ := htimer
    simp at hfalse
  next hnot =>
    rw [if_neg hnot, restart_supportInhibit] at hsupport
    exact absurd (by simpa using hsupport) hnot

/-- What holds of every object: what was sent alternates, a record that is there tells the truth and is kept
    awake, and a record that is gone has no timer. -/
structure At (inhibited : Bool) (idle : Idle) : Prop where
  alternates : Alternates idle.sent
  live : idle.freed = false → Told idle ∧ Awake inhibited idle
  gone : idle.freed = true → idle.timer = none

theorem At.of_live (hlive : idle.freed = false) (htold : Told idle) (hawake : Awake inhibited idle) : At inhibited idle :=
  ⟨htold.alternates, fun _ => ⟨htold, hawake⟩, fun hgone => by simp [hlive] at hgone⟩

/-- The record of an object goes away. -/
theorem At.destroy (h : At inhibited idle) (resource : Bool) : At inhibited { idle.destroy with resource := resource } :=
  ⟨h.alternates, fun hlive => absurd hlive (by simp [Idle.destroy]), fun _ => rfl⟩

@[simp] theorem setIdle_freed (idle : Idle) (b : Bool) : (idle.setIdle b).freed = idle.freed := by
  rw [Idle.setIdle]
  split <;> rfl

@[simp] theorem restart_freed (idle : Idle) : idle.restart.freed = idle.freed := by
  rw [Idle.restart]
  split
  · rfl
  · exact setIdle_freed idle true

@[simp] theorem resetTimer_freed (idle : Idle) (inhibited : Bool) : (idle.resetTimer inhibited).freed = idle.freed := by
  rw [Idle.resetTimer]
  split
  · exact setIdle_freed idle false
  · exact restart_freed idle

/-- Every object is as it should be, and no missing record was used. -/
structure Inv (s : State) : Prop where
  idles : ∀ idle ∈ s.idles, At s.inhibited idle
  fine : s.fault = false

/-- What is done with all objects that have their record. -/
theorem each_inv {f : Idle → Idle} (h : Inv s) (inhibited : Bool)
    (hf : ∀ idle, At s.inhibited idle → idle.freed = false → At inhibited (f idle)) :
    Inv ({ s with inhibited := inhibited }.each f) where
  idles idle hidle := by
    obtain ⟨idle, hmem, rfl⟩ := List.mem_map.1 hidle
    have hat := h.idles idle hmem
    split
    next hfreed => exact ⟨hat.alternates, fun hlive => by simp [hfreed] at hlive, hat.gone⟩
    next hlive => exact hf idle hat (by simpa using hlive)
  fine := h.fine

/-- What is done with one object. -/
theorem modify_inv (h : Inv s) {i : ℕ} {f : Idle → Idle}
    (hf : ∀ idle, s.idles[i]? = some idle → At s.inhibited idle → At s.inhibited (f idle)) : Inv (s.modify i f) where
  idles idle hidle := by
    obtain ⟨j, hj⟩ := List.mem_iff_getElem?.1 hidle
    simp only [State.modify, List.getElem?_modify, Option.map_eq_map, Option.map_eq_some_iff] at hj
    obtain ⟨old, hold, rfl⟩ := hj
    have hat := h.idles old (List.mem_of_getElem? hold)
    split
    next hij => exact hf old (hij ▸ hold) hat
    · exact hat
  fine := h.fine

theorem create_inv (h : Inv s) (type : IdleType) (seat : Option ℕ) (support : Bool) (timeout : ℕ) (alloc : Bool) :
    Inv (s.create type seat support timeout alloc) where
  idles idle hidle := by
    rcases List.mem_append.1 hidle with hold | hidle
    · exact h.idles idle hold
    · obtain rfl := List.mem_singleton.1 hidle
      have htold : Told
          { type := type
            timeoutMs := timeout
            timer := if 0 < timeout then some false else none
            supportInhibit := support
            seat := seat.getD 0 } := ⟨trivial, rfl⟩
      split
      · exact .of_live (resetTimer_freed _ _) (resetTimer_told htold _) (resetTimer_awake _ _)
      · exact ⟨trivial, fun hlive => absurd hlive (by simp [Idle.destroy]), fun _ => rfl⟩
  fine := h.fine

theorem notifyActivity_spec (h : Told idle) (hawake : Awake inhibited idle) (seat : ℕ) :
    Told (idle.notifyActivity inhibited seat) ∧ Awake inhibited (idle.notifyActivity inhibited seat) := by
  rw [Idle.notifyActivity]
  split
  · exact ⟨h, hawake⟩
  · split
    · exact ⟨resetTimer_told (setIdle_told h false) _, resetTimer_awake _ _⟩
    · exact ⟨h, hawake⟩

/-- A timer that is armed belongs to an object that is not inhibited. -/
theorem handleTimer_spec (h : Told idle) (hawake : Awake inhibited idle) (harmed : idle.timer = some true) :
    Told idle.handleTimer ∧ Awake inhibited idle.handleTimer := by
  have hstopped : Told { idle with timer := some false } := ⟨h.alternates, h.last⟩
  refine ⟨setIdle_told hstopped true, fun hinhibited hsupport => absurd harmed (hawake hinhibited ?_).2⟩
  rwa [Idle.handleTimer, setIdle_supportInhibit] at hsupport

/-- A request to simulate activity finds the record of its object, which is not inhibited. -/
def Simulates (s : State) : Event → Bool
  | .simulate i => s.idles[i]?.all fun idle => !idle.freed && !(s.inhibited && idle.supportInhibit)
  | _ => true

/-- One step keeps the invariant. -/
theorem step_inv {e : Event} (h : Inv s) (hsimulates : Simulates s e = true) (hs : step s e = some s') : Inv s' := by
  cases e with
  | getIdleNotification seat timeout alloc => exact Option.some.inj hs ▸ create_inv h _ _ _ _ _
  | getInputIdleNotification seat timeout alloc => exact Option.some.inj hs ▸ create_inv h _ _ _ _ _
  | getIdleTimeout seat timeout alloc => exact Option.some.inj hs ▸ create_inv h _ _ _ _ _
  | addIdle seat support timeout alloc => exact Option.some.inj hs ▸ create_inv h _ _ _ _ _
  | timer i =>
    obtain ⟨idle, hfilter, rfl⟩ := Option.map_eq_some_iff.1 hs
    obtain ⟨hi, harmed⟩ := Option.filter_eq_some_iff.1 hfilter
    have harmed : idle.timer = some true := by simpa using harmed
    refine modify_inv h fun idle' hi' hat => ?_
    obtain rfl := Option.some.inj (hi.symm.trans hi')
    have hlive : idle.freed = false := by
      cases hfreed : idle.freed with
      | false => rfl
      | true => simp [hat.gone hfreed] at harmed
    obtain ⟨htold, hawake⟩ := hat.live hlive
    obtain ⟨htold', hawake'⟩ := handleTimer_spec htold hawake harmed
    exact .of_live (by rw [Idle.handleTimer, setIdle_freed]; exact hlive) htold' hawake'
  | activity seat =>
    obtain rfl := Option.some.inj hs
    refine each_inv h s.inhibited fun idle hat hlive => ?_
    obtain ⟨htold, hawake⟩ := hat.live hlive
    obtain ⟨htold', hawake'⟩ := notifyActivity_spec htold hawake seat
    refine .of_live ?_ htold' hawake'
    rw [Idle.notifyActivity]
    split
    · exact hlive
    · split
      · rw [resetTimer_freed, setIdle_freed, hlive]
      · exact hlive
  | simulate i =>
    obtain ⟨idle, hfilter, rfl⟩ := Option.map_eq_some_iff.1 hs
    obtain ⟨hi, _⟩ := Option.filter_eq_some_iff.1 hfilter
    simp only [Simulates, hi, Option.all_some, Bool.and_eq_true, Bool.not_eq_true'] at hsimulates
    obtain ⟨hlive, hfree⟩ := hsimulates
    rw [State.simulateActivity, if_neg (by simp [hlive])]
    refine modify_inv h fun idle' hi' hat => ?_
    obtain rfl := Option.some.inj (hi.symm.trans hi')
    have hsame : idle.simulateActivity.supportInhibit = idle.supportInhibit ∧ idle.simulateActivity.freed = idle.freed := by
      rw [Idle.simulateActivity, restart_supportInhibit, restart_freed]
      split <;> exact ⟨rfl, rfl⟩
    refine .of_live (hsame.2.trans hlive) (simulateActivity_told (hat.live hlive).1) fun hinhibited hsupport => ?_
    simp [hinhibited, ← hsame.1, hsupport] at hfree
  | release i =>
    obtain ⟨idle, _, rfl⟩ := Option.map_eq_some_iff.1 hs
    exact modify_inv h fun idle' _ hat => hat.destroy idle'.resource
  | destroyResource i =>
    obtain ⟨idle, _, rfl⟩ := Option.map_eq_some_iff.1 hs
    exact modify_inv h fun _ _ hat => hat.destroy false
  | seatDestroy seat =>
    obtain rfl := Option.some.inj hs
    refine each_inv h s.inhibited fun idle hat hlive => ?_
    split
    · exact hat.destroy idle.resource
    · exact hat
  | setInhibited inhibited =>
    obtain rfl := Option.some.inj hs
    rw [State.setInhibited]
    split
    · exact h
    · refine each_inv h inhibited fun idle hat hlive => ?_
      obtain ⟨htold, _⟩ := hat.live hlive
      split
      · exact .of_live (by rw [resetTimer_freed, hlive]) (resetTimer_told htold _) (resetTimer_awake _ _)
      next hnot => exact .of_live hlive htold fun _ hsupport => absurd hsupport hnot

/-- Clients are told that they are idle and resumed in turns, inhibited objects are not idle and have no
    timer that runs, and no missing record was used. -/
structure Kept (s : State) : Prop where
  alternates : ∀ idle ∈ s.idles, Alternates idle.sent
  inhibited : s.inhibited = true → ∀ idle ∈ s.idles, idle.freed = false → idle.supportInhibit = true →
    idle.idleState = false ∧ idle.timer ≠ some true
  fine : s.fault = false

/-- Idle notifications are right in every run in which activity is simulated only for objects that have
    their record and are not inhibited. -/
theorem idle_notifications_kept (h : Reach step (fun s e => Simulates s e = true) {} s) : Kept s := by
  have hinv : Inv s := h.inv ⟨fun _ hmem => absurd hmem List.not_mem_nil, rfl⟩ fun _ _ _ => step_inv
  exact ⟨fun idle hmem => (hinv.idles idle hmem).alternates,
    fun hinhibited idle hmem hlive => ((hinv.idles idle hmem).live hlive).2 hinhibited, hinv.fine⟩

/-- Two objects become idle, one is resumed and inhibited, and another is released. -/
theorem inhibited_object_awake : ∃ s, exec (guarded step Simulates) {}
    [.getIdleTimeout (some 0) 100 true, .getInputIdleNotification (some 0) 0 true, .timer 0, .simulate 0, .timer 0,
      .setInhibited true, .activity 0, .release 0] = some s ∧
    s.idles.map Idle.sent = [[.resumed, .idle, .resumed, .idle], [.idle, .resumed, .idle]] ∧ Kept s := by
  have hrun : (exec (guarded step Simulates) {}
      [.getIdleTimeout (some 0) 100 true, .getInputIdleNotification (some 0) 0 true, .timer 0, .simulate 0, .timer 0,
        .setInhibited true, .activity 0, .release 0]).map (fun s => s.idles.map Idle.sent) =
      some [[.resumed, .idle, .resumed, .idle], [.idle, .resumed, .idle]] := by decide
  obtain ⟨s, hs, hsent⟩ := Option.map_eq_some_iff.1 hrun
  exact ⟨s, hs, hsent, idle_notifications_kept (.of_exec_guarded _ _ hs)⟩

/-- Simulated activity starts the timer of an object that is inhibited, which becomes idle; after the seat is
    gone it uses the missing record. -/
theorem simulated_activity_not_inhibited :
    (¬ ∀ s, Reach step Always {} s → s.inhibited = true → ∀ idle ∈ s.idles, idle.freed = false →
      idle.supportInhibit = true → idle.idleState = false) ∧ ¬ ∀ s, Reach step Always {} s → s.fault = false := by
  constructor
  · intro h
    have hrun : (exec step {} [.getIdleTimeout (some 0) 100 true, .setInhibited true, .simulate 0, .timer 0]).map
        (fun s => (s.inhibited, s.idles.any fun idle => !idle.freed && idle.supportInhibit && idle.idleState)) =
        some (true, true) := by decide
    obtain ⟨s, hs, hidle⟩ := Option.map_eq_some_iff.1 hrun
    obtain ⟨hinhibited, hany⟩ := Prod.mk.inj hidle
    obtain ⟨idle, hmem, hstate⟩ := List.any_eq_true.1 hany
    simp only [Bool.and_eq_true, Bool.not_eq_true'] at hstate
    have hawake := h s (.of_exec _ _ hs) hinhibited idle hmem hstate.1.1 hstate.1.2
    simp [hawake] at hstate
  · intro h
    have hrun : (exec step {} [.getIdleTimeout (some 0) 100 true, .seatDestroy 0, .simulate 0]).map (·.fault) = some true := by
      decide
    obtain ⟨s, hs, hfault⟩ := Option.map_eq_some_iff.1 hrun
    simp [h s (.of_exec _ _ hs)] at hfault

end FlakeWm.Idle
