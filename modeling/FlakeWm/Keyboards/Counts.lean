import FlakeWm.Keyboards.Model
import Mathlib.Data.List.Nodup

/-! The key counts of a keyboard group.

    `holders s g k` is the number of members of `g` that hold `k`. The counts are exact when `keys`
    has for each keycode one entry with that number, or none when it is zero. A member that leaves
    the group while it holds keys is the one thing that breaks this: nothing releases its keys, so
    the count stays one too high and the key stays down on the group's keyboard. -/

namespace FlakeWm.Keyboards

/-- The counts that the list has for a keycode. -/
def counts (keys : List GroupKey) (k : Keycode) : List ℕ :=
  (keys.filter (·.keycode = k)).map (·.count)

/-- The entry for a key that `n` members hold. -/
def entries (n : ℕ) : List ℕ := if n = 0 then [] else [n]

/-- The number of members of a group that hold a key. -/
def holders (s : State) (g : ℕ) (k : Keycode) : ℕ :=
  (s.groups g).devices.countP fun kb => k ∈ (s.keyboards kb).held

/-- A group is exact for the numbers `n` of members that hold each key. -/
structure Group.Exact (group : Group) (n : Keycode → ℕ) : Prop where
  counted : ∀ k, counts group.keys k = entries (n k)
  not_stuck : ∀ k ∈ group.keycodes, n k ≠ 0

/-- Between `group` and `group'` the numbers went from `n` to `n'`, and the group's keyboard received
    one press for each key that went from 0 to 1, one release for each that went from 1 to 0, and
    nothing else. -/
def Group.Told (group group' : Group) (n n' : Keycode → ℕ) : Prop :=
  ∃ notes, group'.received = group.received ++ notes ∧ ∀ k,
    notes.count ⟨k, .pressed⟩ = (if n k = 0 ∧ n' k = 1 then 1 else 0) ∧
    notes.count ⟨k, .released⟩ = (if n k = 1 ∧ n' k = 0 then 1 else 0)

def Exact (s : State) : Prop := ∀ g, (s.groups g).Exact (holders s g)

def Told (s s' : State) : Prop :=
  ∀ g, (s.groups g).Told (s'.groups g) (holders s g) (holders s' g)

/-! ### The list of keys -/

@[simp] theorem counts_nil (k : Keycode) : counts [] k = [] := rfl

theorem counts_cons (key : GroupKey) (keys : List GroupKey) (k : Keycode) :
    counts (key :: keys) k =
      if key.keycode = k then key.count :: counts keys k else counts keys k := by
  simp only [counts, List.filter_cons, decide_eq_true_eq]
  split_ifs <;> rfl

@[simp] theorem entries_zero : entries 0 = [] := rfl

@[simp] theorem entries_succ (n : ℕ) : entries (n + 1) = [n + 1] := rfl

theorem entries_inj {m n : ℕ} (h : entries m = entries n) : m = n := by
  cases m <;> cases n <;> simp_all

theorem scanKeys_other (event : KeyEvent) {k : Keycode} (hk : k ≠ event.keycode) :
    ∀ keys, counts (scanKeys event keys).1 k = counts keys k
  | [] => rfl
  | key :: keys => by
      have ih := scanKeys_other event hk keys
      rw [scanKeys, counts_cons]
      by_cases hkey : key.keycode = event.keycode
      · have hne : key.keycode ≠ k := fun h => hk (h ▸ hkey)
        rw [if_neg (not_not.mpr hkey), if_neg hne]
        split
        · rw [counts_cons, if_neg hne]
        · split_ifs
          · rw [counts_cons, if_neg hne]
          · rfl
      · rw [if_pos hkey, counts_cons, ih]

/-- A key without an entry is not found. -/
theorem scanKeys_absent (event : KeyEvent) :
    ∀ keys, counts keys event.keycode = [] → scanKeys event keys = (keys, true)
  | [], _ => rfl
  | key :: keys, h => by
      rw [counts_cons] at h
      split_ifs at h with hkey
      rw [scanKeys, if_pos hkey, scanKeys_absent event keys h]

/-- The only entry of a key is counted up by a press, and counted down or removed by a release. -/
theorem scanKeys_present (event : KeyEvent) (n : ℕ) :
    ∀ keys, counts keys event.keycode = [n + 1] →
      match event.state with
      | .pressed => counts (scanKeys event keys).1 event.keycode = [n + 2] ∧
          (scanKeys event keys).2 = false
      | .released => counts (scanKeys event keys).1 event.keycode = entries n ∧
          (scanKeys event keys).2 = decide (n = 0)
  | [], h => by cases h
  | key :: keys, h => by
      rw [counts_cons] at h
      rw [scanKeys]
      split_ifs at h with hkey
      · obtain ⟨hcount, hrest⟩ := List.cons.inj h
        rw [if_neg (not_not.mpr hkey)]
        cases event.state with
        | pressed => simp [counts_cons, hkey, hrest, hcount]
        | released =>
          rcases n with - | n
          · simp [hcount, hrest]
          · simp [counts_cons, hkey, hrest, hcount]
      · have ih := scanKeys_present event n keys h
        rw [if_pos hkey]
        cases hstate : event.state <;> simp only [hstate] at ih <;>
          simpa [counts_cons, hkey] using ih

theorem processKey_other (keys : List GroupKey) (event : KeyEvent) (alloc : Bool) {k : Keycode}
    (hk : k ≠ event.keycode) : counts (processKey keys event alloc).1 k = counts keys k := by
  have hscan := scanKeys_other event hk keys
  rw [processKey]
  split
  next heq => simpa [heq] using hscan
  next heq =>
    rw [heq] at hscan
    split
    · split_ifs
      · rw [counts_cons, if_neg (Ne.symm hk)]
        exact hscan
      · exact hscan
    · exact hscan

/-- What a press does to the entry of its key: the first one needs a new entry. -/
theorem processKey_press (keys : List GroupKey) (k : Keycode) (alloc : Bool) {n : ℕ}
    (h : counts keys k = entries n) (hroom : alloc = true ∨ n ≠ 0) :
    counts (processKey keys ⟨k, .pressed⟩ alloc).1 k = entries (n + 1) ∧
      (processKey keys ⟨k, .pressed⟩ alloc).2 = decide (n = 0) := by
  rw [processKey]
  rcases n with - | n
  · rw [scanKeys_absent ⟨k, .pressed⟩ keys h]
    rcases hroom with rfl | hroom
    · simp only [if_true, counts_cons, h]
      exact ⟨rfl, rfl⟩
    · exact absurd rfl hroom
  · obtain ⟨hcounts, hmore⟩ := scanKeys_present ⟨k, .pressed⟩ n keys h
    split
    next heq =>
      rw [heq] at hcounts
      exact ⟨hcounts, by simp⟩
    next heq => simp [heq] at hmore

/-- A press that needs a new entry and does not get one changes nothing. -/
theorem processKey_press_full (keys : List GroupKey) (k : Keycode) (h : counts keys k = []) :
    processKey keys ⟨k, .pressed⟩ false = (keys, false) := by
  rw [processKey, scanKeys_absent ⟨k, .pressed⟩ keys h]
  rfl

theorem processKey_release (keys : List GroupKey) (k : Keycode) (alloc : Bool) {n : ℕ}
    (h : counts keys k = entries (n + 1)) :
    counts (processKey keys ⟨k, .released⟩ alloc).1 k = entries n ∧
      (processKey keys ⟨k, .released⟩ alloc).2 = decide (n = 0) := by
  obtain ⟨hcounts, hmore⟩ := scanKeys_present ⟨k, .released⟩ n keys h
  rw [processKey]
  split
  next heq =>
    rw [heq] at hcounts hmore
    exact ⟨hcounts, hmore⟩
  next heq =>
    rw [heq] at hcounts hmore
    exact ⟨hcounts, hmore⟩

/-! ### The keycodes of the group's keyboard -/

theorem mem_setAdd {values : List Keycode} {cap : ℕ} {target k : Keycode}
    (h : k ∈ setAdd values cap target) : k ∈ values ∨ k = target := by
  rw [setAdd] at h
  split_ifs at h
  · exact .inl h
  · exact .inl h
  · simpa using h

theorem setAdd_nodup {values : List Keycode} (h : values.Nodup) (cap : ℕ) (target : Keycode) :
    (setAdd values cap target).Nodup := by
  rw [setAdd]
  split_ifs with hmem
  · exact h
  · exact h
  · exact List.nodup_append.mpr ⟨h, by simp, by
      rintro a ha b hb rfl
      exact hmem (List.mem_singleton.mp hb ▸ ha)⟩

theorem setRemove_perm : ∀ (values : List Keycode) (target : Keycode),
    (setRemove values target).Perm (values.erase target)
  | [], _ => .refl _
  | v :: values, target => by
      rw [setRemove]
      by_cases hv : v = target
      · rw [if_pos hv, hv, List.erase_cons_head]
        rcases List.eq_nil_or_concat values with rfl | ⟨init, last, rfl⟩
        · exact .refl _
        · simp only [List.concat_eq_append, List.getLast?_append, List.getLast?_singleton,
            Option.some_or, List.dropLast_concat]
          exact (List.perm_append_singleton last init).symm
      · rw [if_neg hv, List.erase_cons_tail (by simpa using hv)]
        exact (setRemove_perm values target).cons v

theorem keyboardKeyUpdate_nodup {keycodes : List Keycode} (h : keycodes.Nodup) (event : KeyEvent) :
    (keyboardKeyUpdate keycodes event).Nodup := by
  rw [keyboardKeyUpdate]
  split
  · exact setAdd_nodup h _ _
  · exact (setRemove_perm keycodes event.keycode).nodup_iff.mpr (h.erase _)

/-! ### One key event at its group -/

theorem Group.Told.refl (group : Group) (n : Keycode → ℕ) : group.Told group n n := by
  refine ⟨[], by simp, fun k => ?_⟩
  constructor
  · rw [if_neg (by omega)]
    rfl
  · rw [if_neg (by omega)]
    rfl

@[simp] theorem handleKeyboardKey_keys (group : Group) (event : KeyEvent) (alloc : Bool) :
    (handleKeyboardKey group event alloc).keys = (processKey group.keys event alloc).1 := by
  rw [handleKeyboardKey]
  split_ifs <;> rfl

@[simp] theorem handleKeyboardKey_devices (group : Group) (event : KeyEvent) (alloc : Bool) :
    (handleKeyboardKey group event alloc).devices = group.devices := by
  rw [handleKeyboardKey]
  split_ifs <;> rfl

theorem handleKeyboardKey_keycodes (group : Group) (event : KeyEvent) (alloc : Bool) :
    (handleKeyboardKey group event alloc).keycodes =
      if (processKey group.keys event alloc).2 then keyboardKeyUpdate group.keycodes event
      else group.keycodes := by
  rw [handleKeyboardKey]
  split_ifs <;> rfl

theorem handleKeyboardKey_received (group : Group) (event : KeyEvent) (alloc : Bool) :
    (handleKeyboardKey group event alloc).received =
      group.received ++ if (processKey group.keys event alloc).2 then [event] else [] := by
  rw [handleKeyboardKey]
  split_ifs <;> simp [Group.notifyKey]

/-- A press by one more member. -/
theorem handleKeyboardKey_press {group : Group} {n n' : Keycode → ℕ} (h : group.Exact n)
    {k : Keycode} (hk : n' k = n k + 1) (hother : ∀ j, j ≠ k → n' j = n j) {alloc : Bool}
    (hroom : alloc = true ∨ n k ≠ 0) :
    (handleKeyboardKey group ⟨k, .pressed⟩ alloc).Exact n' ∧
      group.Told (handleKeyboardKey group ⟨k, .pressed⟩ alloc) n n' := by
  obtain ⟨hcounts, hfirst⟩ := processKey_press group.keys k alloc (h.counted k) hroom
  refine ⟨⟨fun j => ?_, fun j hj => ?_⟩, _, handleKeyboardKey_received _ _ _, fun j => ?_⟩
  · rw [handleKeyboardKey_keys]
    rcases eq_or_ne j k with rfl | hne
    · rw [hcounts, hk]
    · rw [processKey_other _ _ _ hne, hother j hne, h.counted j]
  · rcases eq_or_ne j k with rfl | hne
    · omega
    · rw [handleKeyboardKey_keycodes] at hj
      rw [hother j hne]
      split_ifs at hj
      · rcases mem_setAdd hj with hj | hj
        · exact h.not_stuck j hj
        · exact absurd hj hne
      · exact h.not_stuck j hj
  · rw [hfirst]
    rcases eq_or_ne j k with rfl | hne
    · rw [hk]
      by_cases hn : n j = 0 <;> simp [hn]
    · rw [hother j hne]
      have hnone : ¬ (n j = 0 ∧ n j = 1) ∧ ¬ (n j = 1 ∧ n j = 0) := by omega
      rw [if_neg hnone.1, if_neg hnone.2]
      split_ifs <;> simp [Ne.symm hne]

/-- A release by one of the members that hold the key. -/
theorem handleKeyboardKey_release {group : Group} {n n' : Keycode → ℕ} (h : group.Exact n)
    (hnodup : group.keycodes.Nodup) {k : Keycode} (hk : n k = n' k + 1)
    (hother : ∀ j, j ≠ k → n' j = n j) (alloc : Bool) :
    (handleKeyboardKey group ⟨k, .released⟩ alloc).Exact n' ∧
      group.Told (handleKeyboardKey group ⟨k, .released⟩ alloc) n n' := by
  obtain ⟨hcounts, hlast⟩ := processKey_release group.keys k alloc (hk ▸ h.counted k)
  refine ⟨⟨fun j => ?_, fun j hj => ?_⟩, _, handleKeyboardKey_received _ _ _, fun j => ?_⟩
  · rw [handleKeyboardKey_keys]
    rcases eq_or_ne j k with rfl | hne
    · exact hcounts
    · rw [processKey_other _ _ _ hne, hother j hne, h.counted j]
  · rw [handleKeyboardKey_keycodes, hlast] at hj
    -- the last release takes the key out of `keycodes`, an earlier one leaves a holder
    split_ifs at hj with hzero
    · have hmem := (setRemove_perm group.keycodes k).mem_iff.mp hj
      rw [hnodup.mem_erase_iff] at hmem
      rw [hother j hmem.1]
      exact h.not_stuck j hmem.2
    · rcases eq_or_ne j k with rfl | hne
      · simpa using hzero
      · rw [hother j hne]
        exact h.not_stuck j hj
  · rw [hlast]
    rcases eq_or_ne j k with rfl | hne
    · rw [hk]
      by_cases hn : n' j = 0 <;> simp [hn]
    · rw [hother j hne]
      have hnone : ¬ (n j = 0 ∧ n j = 1) ∧ ¬ (n j = 1 ∧ n j = 0) := by omega
      rw [if_neg hnone.1, if_neg hnone.2]
      split_ifs <;> simp [Ne.symm hne]

/-! ### Who is a member -/

/-- A group lists each member once, and a keyboard points to the group that lists it. -/
structure Linked (s : State) : Prop where
  nodup : ∀ g, (s.groups g).devices.Nodup
  member : ∀ g kb, kb ∈ (s.groups g).devices ↔ (s.keyboards kb).group = some g
  keycodes : ∀ g, (s.groups g).keycodes.Nodup

theorem start_linked (held : ℕ → List Keycode) : Linked (start held) :=
  ⟨fun _ => List.nodup_nil, fun _ _ => by simp [start], fun _ => List.nodup_nil⟩

/-- The groups a keyboard is not a member of do not see what it holds. -/
theorem holders_congr {s s' : State} {g : ℕ} (hdevices : (s'.groups g).devices = (s.groups g).devices)
    (hheld : ∀ kb ∈ (s.groups g).devices, (s'.keyboards kb).held = (s.keyboards kb).held) :
    holders s' g = holders s g := by
  funext k
  rw [holders, holders, hdevices]
  refine List.countP_congr fun kb hkb => ?_
  rw [hheld kb hkb]

/-- Counting with one member's answer left out. -/
theorem countP_erase_add {l : List ℕ} {a : ℕ} (ha : a ∈ l) (p : ℕ → Bool) :
    l.countP p = (l.erase a).countP p + if p a then 1 else 0 := by
  rw [(List.perm_cons_erase ha).countP_eq p, List.countP_cons]

/-- A member takes part in the count with its own answer. -/
theorem holders_split {s : State} {g kb : ℕ} (hmem : kb ∈ (s.groups g).devices)
    (k : Keycode) :
    holders s g k = ((s.groups g).devices.erase kb).countP (fun b => k ∈ (s.keyboards b).held) +
      if k ∈ (s.keyboards kb).held then 1 else 0 := by
  rw [holders, countP_erase_add hmem]
  simp

theorem mem_heldAfter {held : List Keycode} {event : KeyEvent} {j : Keycode}
    (hj : j ≠ event.keycode) : j ∈ heldAfter held event ↔ j ∈ held := by
  rw [heldAfter]
  split <;> simp [hj]

section KeyEvent

variable {s : State} (h : Linked s) (kb : ℕ) (event : KeyEvent) (alloc : Bool)

theorem notifyKey_held (b : ℕ) : ((notifyKey s kb event alloc).keyboards b).held =
    if b = kb then heldAfter (s.keyboards kb).held event else (s.keyboards b).held := by
  simp only [notifyKey, State.setKeyboard, State.setGroup]
  split <;> by_cases hb : b = kb <;> simp [hb]

theorem notifyKey_group (b : ℕ) :
    ((notifyKey s kb event alloc).keyboards b).group = (s.keyboards b).group := by
  simp only [notifyKey, State.setKeyboard, State.setGroup]
  split <;> by_cases hb : b = kb <;> simp [hb]

theorem notifyKey_groups (g : ℕ) : (notifyKey s kb event alloc).groups g =
    if (s.keyboards kb).group = some g then handleKeyboardKey (s.groups g) event alloc
    else s.groups g := by
  simp only [notifyKey, State.setKeyboard, State.setGroup]
  split
  next hnone => simp [hnone]
  next g' hsome =>
    by_cases hg : g = g'
    · subst hg
      simp [hsome]
    · simp [hsome, hg, Ne.symm hg]

theorem notifyKey_devices (g : ℕ) :
    ((notifyKey s kb event alloc).groups g).devices = (s.groups g).devices := by
  rw [notifyKey_groups]
  split_ifs
  · exact handleKeyboardKey_devices _ _ _
  · rfl

/-- The keys that the event is not about keep their number. -/
theorem notifyKey_holders_other (g : ℕ) {j : Keycode} (hj : j ≠ event.keycode) :
    holders (notifyKey s kb event alloc) g j = holders s g j := by
  rw [holders, holders, notifyKey_devices]
  refine List.countP_congr fun b _ => ?_
  rw [notifyKey_held]
  split_ifs with hb
  · rw [hb, decide_eq_true_iff, decide_eq_true_iff, mem_heldAfter hj]
  · rfl

include h

theorem notifyKey_linked : Linked (notifyKey s kb event alloc) := by
  refine ⟨fun g => ?_, fun g b => ?_, fun g => ?_⟩
  · rw [notifyKey_devices]
    exact h.nodup g
  · rw [notifyKey_devices, notifyKey_group]
    exact h.member g b
  · rw [notifyKey_groups]
    split_ifs
    · rw [handleKeyboardKey_keycodes]
      split_ifs
      · exact keyboardKeyUpdate_nodup (h.keycodes g) event
      · exact h.keycodes g
    · exact h.keycodes g

/-- Groups that the keyboard is not in see nothing of its keys. -/
theorem notifyKey_elsewhere {g : ℕ} (hg : (s.keyboards kb).group ≠ some g) :
    (notifyKey s kb event alloc).groups g = s.groups g ∧
      holders (notifyKey s kb event alloc) g = holders s g := by
  refine ⟨by rw [notifyKey_groups, if_neg hg], holders_congr (notifyKey_devices _ _ _ _) ?_⟩
  intro b hb
  have hne : b ≠ kb := by
    rintro rfl
    exact hg ((h.member g b).mp hb)
  rw [notifyKey_held, if_neg hne]

theorem notifyKey_holders_others {g : ℕ} (k : Keycode) :
    ((s.groups g).devices.erase kb).countP
        (fun b => k ∈ ((notifyKey s kb event alloc).keyboards b).held) =
      ((s.groups g).devices.erase kb).countP (fun b => k ∈ (s.keyboards b).held) := by
  refine List.countP_congr fun b hb => ?_
  rw [notifyKey_held, if_neg (((h.nodup g).mem_erase_iff).mp hb).1]

end KeyEvent

/-- A press raises the number of holders in the keyboard's group by one. -/
theorem notifyKey_holders_press {s : State} (h : Linked s) {kb g : ℕ}
    (hg : (s.keyboards kb).group = some g) {k : Keycode} (hk : k ∉ (s.keyboards kb).held)
    (alloc : Bool) :
    holders (notifyKey s kb ⟨k, .pressed⟩ alloc) g k = holders s g k + 1 := by
  have hmem := (h.member g kb).mpr hg
  have hmem' : kb ∈ ((notifyKey s kb ⟨k, .pressed⟩ alloc).groups g).devices := by
    rwa [notifyKey_devices]
  rw [holders_split hmem, holders_split hmem', notifyKey_devices, notifyKey_holders_others h,
    notifyKey_held, if_pos rfl, if_neg hk, if_pos (by simp [heldAfter])]

/-- A release lowers it by one. -/
theorem notifyKey_holders_release {s : State} (h : Linked s) {kb g : ℕ}
    (hg : (s.keyboards kb).group = some g) {k : Keycode} (hk : k ∈ (s.keyboards kb).held)
    (alloc : Bool) :
    holders s g k = holders (notifyKey s kb ⟨k, .released⟩ alloc) g k + 1 := by
  have hmem := (h.member g kb).mpr hg
  have hmem' : kb ∈ ((notifyKey s kb ⟨k, .released⟩ alloc).groups g).devices := by
    rwa [notifyKey_devices]
  rw [holders_split hmem, holders_split hmem', notifyKey_devices, notifyKey_holders_others h,
    notifyKey_held, if_pos rfl, if_pos hk, if_neg (by simp [heldAfter])]

/-! ### Members that come and go -/

/-- Nothing that the counts depend on has changed. -/
theorem exact_of_same {s s' : State} (hexact : Exact s)
    (hgroups : ∀ g, (s'.groups g).keys = (s.groups g).keys ∧
      (s'.groups g).keycodes = (s.groups g).keycodes ∧
      (s'.groups g).received = (s.groups g).received)
    (hholders : ∀ g, holders s' g = holders s g) : Exact s' ∧ Told s s' := by
  refine ⟨fun g => ?_, fun g => ?_⟩
  · obtain ⟨hkeys, hcodes, -⟩ := hgroups g
    obtain ⟨hcounted, hstuck⟩ := hexact g
    refine ⟨?_, ?_⟩
    · rwa [hkeys, hholders]
    · rwa [hcodes, hholders]
  · obtain ⟨notes, hnotes, htold⟩ := Group.Told.refl (s.groups g) (holders s g)
    refine ⟨notes, ?_, ?_⟩
    · rw [(hgroups g).2.2]
      exact hnotes
    · rwa [hholders]

/-- `s'` is `s` after the keyboard has left the group. -/
structure Leaves (s : State) (g kb : ℕ) (s' : State) : Prop where
  group : s'.groups g = { s.groups g with devices := (s.groups g).devices.erase kb }
  groups : ∀ g', g' ≠ g → s'.groups g' = s.groups g'
  keyboard : (s'.keyboards kb).group = none
  keyboards : ∀ b, b ≠ kb → s'.keyboards b = s.keyboards b

theorem removeKeyboardGroupDevice_leaves (s : State) (g kb : ℕ) :
    Leaves s g kb (removeKeyboardGroupDevice s g kb) := by
  refine ⟨?_, fun g' hg' => ?_, ?_, fun b hb => ?_⟩
  · simp [removeKeyboardGroupDevice, State.setGroup]
  · simp [removeKeyboardGroupDevice, State.setGroup, State.setKeyboard, hg']
  · simp [removeKeyboardGroupDevice, State.setGroup, State.setKeyboard]
  · simp [removeKeyboardGroupDevice, State.setGroup, State.setKeyboard, hb]

theorem keyboardDestroy_leaves {s : State} {g kb : ℕ} (hg : (s.keyboards kb).group = some g) :
    Leaves s g kb (keyboardDestroy s kb) := by
  obtain ⟨hgroup, hgroups, -, hkeyboards⟩ := removeKeyboardGroupDevice_leaves s g kb
  simp only [keyboardDestroy, hg]
  refine ⟨hgroup, hgroups, ?_, fun b hb => ?_⟩
  · simp [State.setKeyboard]
  · rw [← hkeyboards b hb]
    simp [State.setKeyboard, hb]

namespace Leaves

variable {s s' : State} {g kb : ℕ} (hleave : Leaves s g kb s') (h : Linked s)
  (hg : (s.keyboards kb).group = some g)

include hleave h

theorem linked (hg : (s.keyboards kb).group = some g) : Linked s' := by
  refine ⟨fun g' => ?_, fun g' b => ?_, fun g' => ?_⟩
  · rcases eq_or_ne g' g with rfl | hg'
    · rw [hleave.group]
      exact (h.nodup g').erase kb
    · rw [hleave.groups g' hg']
      exact h.nodup g'
  · have hmem := h.member g' b
    rcases eq_or_ne b kb with rfl | hb
    · rw [hleave.keyboard]
      rcases eq_or_ne g' g with rfl | hg'
      · simp [hleave.group, (h.nodup g').mem_erase_iff]
      · rw [hleave.groups g' hg', hmem, hg]
        simp [Ne.symm hg']
    · rw [hleave.keyboards b hb, ← hmem]
      rcases eq_or_ne g' g with rfl | hg'
      · simp [hleave.group, (h.nodup g').mem_erase_iff, hb]
      · rw [hleave.groups g' hg']
  · rcases eq_or_ne g' g with rfl | hg'
    · rw [hleave.group]
      exact h.keycodes g'
    · rw [hleave.groups g' hg']
      exact h.keycodes g'

include hg

/-- The keys that the keyboard holds lose a holder. -/
theorem holders_eq (k : Keycode) :
    holders s g k = holders s' g k + if k ∈ (s.keyboards kb).held then 1 else 0 := by
  rw [holders_split ((h.member g kb).mpr hg), Nat.add_right_cancel_iff, holders, hleave.group]
  refine List.countP_congr fun b hb => ?_
  rw [hleave.keyboards b ((h.nodup g).mem_erase_iff.mp hb).1]

theorem holders_elsewhere {g' : ℕ} (hg' : g' ≠ g) : holders s' g' = holders s g' := by
  refine holders_congr (by rw [hleave.groups g' hg']) fun b hb => ?_
  have hne : b ≠ kb := by
    rintro rfl
    exact hg' (Option.some.inj (((h.member g' b).mp hb).symm.trans hg))
  rw [hleave.keyboards b hne]

/-- Leaving keeps the counts exact if and only if the keyboard holds nothing. -/
theorem exact_iff (hexact : Exact s) : (Exact s' ∧ Told s s') ↔ (s.keyboards kb).held = [] := by
  constructor
  · rintro ⟨hexact', -⟩
    refine List.eq_nil_iff_forall_not_mem.mpr fun k hk => ?_
    have hcounted := (hexact' g).counted k
    rw [hleave.group, (hexact g).counted k] at hcounted
    have heq := hleave.holders_eq h hg k
    rw [if_pos hk, entries_inj hcounted] at heq
    omega
  · intro hnone
    refine exact_of_same hexact (fun g' => ?_) fun g' => ?_
    · rcases eq_or_ne g' g with rfl | hg'
      · simp [hleave.group]
      · simp [hleave.groups g' hg']
    · rcases eq_or_ne g' g with rfl | hg'
      · funext k
        have heq := hleave.holders_eq h hg k
        rw [hnone, if_neg (by simp)] at heq
        exact heq.symm
      · exact hleave.holders_elsewhere h hg hg'

end Leaves

/-- The state after a keyboard has joined a group. -/
def joins (s : State) (g kb : ℕ) : State :=
  (s.setKeyboard kb { s.keyboards kb with group := some g }).setGroup g
    { s.groups g with devices := kb :: (s.groups g).devices }

theorem keyboardGroupAddKeyboard_cases (s : State) (g : ℕ) (keyboard : KeyboardRef) (alloc : Bool) :
    (keyboardGroupAddKeyboard s g keyboard alloc).1 = s ∨
    ∃ kb, keyboard = .device kb ∧ (s.keyboards kb).group = none ∧
      (keyboardGroupAddKeyboard s g keyboard alloc).1 = joins s g kb := by
  cases keyboard with
  | group g' => exact .inl rfl
  | device kb =>
    simp only [keyboardGroupAddKeyboard]
    split_ifs with hgroup hmatch halloc
    · exact .inl rfl
    · exact .inl rfl
    · exact .inl rfl
    · exact .inr ⟨kb, rfl, by simpa using hgroup, rfl⟩

theorem joins_groups (s : State) (g kb g' : ℕ) : (joins s g kb).groups g' =
    if g' = g then { s.groups g with devices := kb :: (s.groups g).devices } else s.groups g' := by
  simp [joins, State.setGroup, State.setKeyboard, Function.update_apply]

theorem joins_held (s : State) (g kb b : ℕ) :
    ((joins s g kb).keyboards b).held = (s.keyboards b).held := by
  by_cases hb : b = kb <;> simp [joins, State.setGroup, State.setKeyboard, hb]

theorem joins_group (s : State) (g kb b : ℕ) : ((joins s g kb).keyboards b).group =
    if b = kb then some g else (s.keyboards b).group := by
  by_cases hb : b = kb <;> simp [joins, State.setGroup, State.setKeyboard, hb]

theorem joins_linked {s : State} (h : Linked s) (g : ℕ) {kb : ℕ}
    (hfree : (s.keyboards kb).group = none) : Linked (joins s g kb) := by
  have hnew : ∀ g', kb ∉ (s.groups g').devices := by
    intro g' hin
    rw [(h.member g' kb).mp hin] at hfree
    cases hfree
  refine ⟨fun g' => ?_, fun g' b => ?_, fun g' => ?_⟩
  · rw [joins_groups]
    split_ifs
    · exact List.nodup_cons.mpr ⟨hnew g, h.nodup g⟩
    · exact h.nodup g'
  · have hmem := h.member g' b
    rw [joins_groups, joins_group]
    by_cases hg : g' = g <;> by_cases hb : b = kb
    · simp [hg, hb]
    · subst hg
      simpa [hb] using hmem
    · subst hb
      simp [hg, hnew g', Ne.symm hg]
    · simpa [hg, hb] using hmem
  · rw [joins_groups]
    split_ifs
    · exact h.keycodes g
    · exact h.keycodes g'

theorem joins_holders {s : State} (g : ℕ) {kb : ℕ} (hnone : (s.keyboards kb).held = []) (g' : ℕ) :
    holders (joins s g kb) g' = holders s g' := by
  funext k
  simp only [holders, joins_groups, joins_held]
  split_ifs with hg
  · rw [List.countP_cons, hnone, hg]
    simp
  · rfl

/-! ### Steps and runs -/

/-- What keeps the counts exact, for an event in the state that handles it: a keyboard that leaves
    its group holds no keys, and the first press of a key gets its entry. -/
def sound (s : State) : Event → Bool
  | .key kb event alloc =>
      alloc || event.state == .released ||
        match (s.keyboards kb).group with
        | none => true
        | some g => (s.groups g).keys.any (·.keycode = event.keycode)
  | .removeKeyboard g (.device kb) => kb ∉ (s.groups g).devices || (s.keyboards kb).held.isEmpty
  | .destroy kb => (s.keyboards kb).group.isNone || (s.keyboards kb).held.isEmpty
  | _ => true

theorem counts_ne_nil {keys : List GroupKey} {k : Keycode} :
    counts keys k ≠ [] ↔ keys.any (·.keycode = k) = true := by
  simp [counts, List.filter_eq_nil_iff]

theorem linked_step {s s' : State} (h : Linked s) (e : Event) (hs : step s e = some s') :
    Linked s' := by
  cases e with
  | key kb event alloc =>
    rw [step, Option.ite_none_right_eq_some] at hs
    obtain ⟨-, hs⟩ := hs
    cases hs
    exact notifyKey_linked h kb event alloc
  | addKeyboard g keyboard alloc =>
    rw [step, Option.ite_none_right_eq_some] at hs
    obtain ⟨-, hs⟩ := hs
    cases hs
    rcases keyboardGroupAddKeyboard_cases s g keyboard alloc with heq | ⟨kb, -, hfree, heq⟩
    · rwa [heq]
    · rw [heq]
      exact joins_linked h g hfree
  | removeKeyboard g keyboard =>
    cases hs
    cases keyboard with
    | group g' => exact h
    | device kb =>
      rw [keyboardGroupRemoveKeyboard]
      split_ifs with hmem
      · exact (removeKeyboardGroupDevice_leaves s g kb).linked h ((h.member g kb).mp hmem)
      · exact h
  | destroy kb =>
    cases hs
    cases hg : (s.keyboards kb).group with
    | some g => exact (keyboardDestroy_leaves hg).linked h hg
    | none =>
      simp only [keyboardDestroy, hg]
      refine ⟨h.nodup, fun g b => ?_, h.keycodes⟩
      have hmem := h.member g b
      by_cases hb : b = kb
      · subst hb
        rw [hg] at hmem
        simpa [State.setKeyboard] using hmem
      · simpa [State.setKeyboard, hb] using hmem
  | keymaps ofKeyboard ofGroup =>
    cases hs
    exact ⟨h.nodup, h.member, h.keycodes⟩

/-- A key event keeps the counts exact if and only if it gets the entry it may need. -/
theorem notifyKey_exact_iff {s : State} (h : Linked s) (hexact : Exact s) {kb : ℕ} {event : KeyEvent}
    {alloc : Bool} (hfits : fits (s.keyboards kb).held event = true) :
    (Exact (notifyKey s kb event alloc) ∧ Told s (notifyKey s kb event alloc)) ↔
      sound s (.key kb event alloc) = true := by
  -- only the group of the keyboard is touched, so the claim is about that group
  have hlocal : ∀ g, (s.keyboards kb).group = some g →
      (handleKeyboardKey (s.groups g) event alloc).Exact (holders (notifyKey s kb event alloc) g) ∧
        (s.groups g).Told (handleKeyboardKey (s.groups g) event alloc) (holders s g)
          (holders (notifyKey s kb event alloc) g) →
      Exact (notifyKey s kb event alloc) ∧ Told s (notifyKey s kb event alloc) := by
    rintro g hg ⟨hgexact, hgtold⟩
    refine ⟨fun g' => ?_, fun g' => ?_⟩
    · by_cases hg' : (s.keyboards kb).group = some g'
      · obtain rfl := Option.some.inj (hg.symm.trans hg')
        rwa [notifyKey_groups, if_pos hg]
      · obtain ⟨hgroup, hholders⟩ := notifyKey_elsewhere h kb event alloc hg'
        rw [hgroup, hholders]
        exact hexact g'
    · by_cases hg' : (s.keyboards kb).group = some g'
      · obtain rfl := Option.some.inj (hg.symm.trans hg')
        rwa [notifyKey_groups, if_pos hg]
      · obtain ⟨hgroup, hholders⟩ := notifyKey_elsewhere h kb event alloc hg'
        rw [hgroup, hholders]
        exact .refl _ _
  obtain ⟨k, state⟩ := event
  cases hg : (s.keyboards kb).group with
  | none =>
    refine ⟨fun _ => by simp [sound, hg], fun _ => ?_⟩
    refine exact_of_same hexact (fun g => ?_) fun g => ?_
    · rw [(notifyKey_elsewhere h kb ⟨k, state⟩ alloc (g := g) (by simp [hg])).1]
      exact ⟨rfl, rfl, rfl⟩
    · exact (notifyKey_elsewhere h kb ⟨k, state⟩ alloc (by simp [hg])).2
  | some g =>
    cases state with
    | released =>
      refine ⟨fun _ => by simp [sound], fun _ => hlocal g hg ?_⟩
      refine handleKeyboardKey_release (hexact g) (h.keycodes g) ?_ ?_ alloc
      · exact notifyKey_holders_release h hg (by simpa [fits] using hfits) alloc
      · exact fun j hj => notifyKey_holders_other kb ⟨k, .released⟩ alloc g hj
    | pressed =>
      have hpress := notifyKey_holders_press h hg (k := k) (by simpa [fits] using hfits) alloc
      have hcounted := (hexact g).counted k
      constructor
      · rintro ⟨hexact', -⟩
        by_contra hunsound
        simp only [sound, hg, Bool.or_eq_true, not_or, Bool.not_eq_true] at hunsound
        obtain ⟨⟨halloc, -⟩, hnone⟩ := hunsound
        have hnil : counts (s.groups g).keys k = [] := by
          by_contra hne
          rw [counts_ne_nil.mp hne] at hnone
          cases hnone
        have hcounted' := (hexact' g).counted k
        rw [notifyKey_groups, if_pos hg, handleKeyboardKey_keys, halloc,
          processKey_press_full _ _ hnil, hnil, ← halloc, hpress, entries_succ] at hcounted'
        cases hcounted'
      · intro hsound
        refine hlocal g hg (handleKeyboardKey_press (hexact g) hpress ?_ ?_)
        · exact fun j hj => notifyKey_holders_other kb ⟨k, .pressed⟩ alloc g hj
        · simp only [sound, hg, Bool.or_eq_true, ← counts_ne_nil, hcounted] at hsound
          rcases hsound with (halloc | hstate) | hsome
          · exact .inl halloc
          · cases hstate
          · refine .inr fun hzero => hsome ?_
            rw [hzero, entries_zero]

/-- Every event of a run keeps the counts exact if and only if it is sound. -/
theorem exact_step {s s' : State} (h : Linked s) (hexact : Exact s) (e : Event)
    (hs : step s e = some s') : (Exact s' ∧ Told s s') ↔ sound s e = true := by
  cases e with
  | key kb event alloc =>
    rw [step, Option.ite_none_right_eq_some] at hs
    obtain ⟨hfits, hs⟩ := hs
    cases hs
    exact notifyKey_exact_iff h hexact hfits
  | addKeyboard g keyboard alloc =>
    rw [step, Option.ite_none_right_eq_some] at hs
    obtain ⟨hnone, hs⟩ := hs
    cases hs
    refine iff_of_true ?_ rfl
    rcases keyboardGroupAddKeyboard_cases s g keyboard alloc with heq | ⟨kb, rfl, -, heq⟩
    · rw [heq]
      exact exact_of_same hexact (fun _ => ⟨rfl, rfl, rfl⟩) fun _ => rfl
    · rw [heq]
      refine exact_of_same hexact (fun g' => ?_) fun g' => ?_
      · rw [joins_groups]
        split_ifs with hg
        · rw [hg]
          exact ⟨rfl, rfl, rfl⟩
        · exact ⟨rfl, rfl, rfl⟩
      · exact joins_holders g (by simpa [holdsNothing] using hnone) g'
  | removeKeyboard g keyboard =>
    cases hs
    cases keyboard with
    | group g' => exact iff_of_true (exact_of_same hexact (fun _ => ⟨rfl, rfl, rfl⟩) fun _ => rfl) rfl
    | device kb =>
      rw [keyboardGroupRemoveKeyboard]
      split_ifs with hmem
      · rw [(removeKeyboardGroupDevice_leaves s g kb).exact_iff h ((h.member g kb).mp hmem) hexact]
        simp [sound, hmem]
      · refine iff_of_true (exact_of_same hexact (fun _ => ⟨rfl, rfl, rfl⟩) fun _ => rfl) ?_
        simp [sound, hmem]
  | destroy kb =>
    cases hs
    cases hg : (s.keyboards kb).group with
    | some g =>
      rw [(keyboardDestroy_leaves hg).exact_iff h hg hexact]
      simp [sound, hg]
    | none =>
      refine iff_of_true ?_ (by simp [sound, hg])
      simp only [keyboardDestroy, hg]
      refine exact_of_same hexact (fun _ => ⟨rfl, rfl, rfl⟩) fun g => holders_congr rfl fun b hb => ?_
      have hne : b ≠ kb := by
        rintro rfl
        rw [(h.member g b).mp hb] at hg
        cases hg
      simp [State.setKeyboard, hne]
  | keymaps ofKeyboard ofGroup =>
    cases hs
    exact iff_of_true (exact_of_same hexact (fun _ => ⟨rfl, rfl, rfl⟩) fun _ => rfl) rfl

theorem start_exact (held : ℕ → List Keycode) : Exact (start held) :=
  fun _ => ⟨fun _ => rfl, fun k hk => by simp [start] at hk⟩

/-- In every run in which no keyboard leaves its group with keys down and no entry fails to be
    allocated, the counts are exact in every state and every step tells the group's keyboard the
    first presses and the last releases; and in such a run these are the only events that do so. -/
theorem key_counts_exact (held : ℕ → List Keycode) {s : State}
    (h : Reach step (fun s e => sound s e = true) (start held) s) :
    Exact s ∧ ∀ e s', step s e = some s' → ((Exact s' ∧ Told s s') ↔ sound s e = true) := by
  obtain ⟨hlinked, hexact⟩ : Linked s ∧ Exact s := by
    refine h.inv (I := fun s => Linked s ∧ Exact s) ⟨start_linked held, start_exact held⟩ ?_
    rintro s e s' ⟨hl, hx⟩ hok hs
    exact ⟨linked_step hl e hs, ((exact_step hl hx e hs).mpr hok).1⟩
  exact ⟨hexact, fun e s' hs => exact_step hlinked hexact e hs⟩

/-- A keyboard is removed from its group while it holds a key: no member holds the key any more, but
    it is still counted and still down on the group's keyboard. -/
theorem removal_leaves_key_down :
    ¬ ∀ held s, Reach step Always (start held) s → Exact s := by
  intro h
  obtain ⟨s, hs, hcodes, hdevices⟩ : ∃ s, exec step (start fun _ => [])
      [.addKeyboard 0 (.device 0) true, .key 0 ⟨30, .pressed⟩ true,
        .removeKeyboard 0 (.device 0)] = some s ∧
      (s.groups 0).keycodes = [30] ∧ (s.groups 0).devices = [] := ⟨_, rfl, rfl, rfl⟩
  have hstuck := (h _ s (.of_exec _ _ hs) 0).not_stuck 30 (by simp [hcodes])
  exact hstuck (by rw [holders, hdevices]; rfl)

/-- Two keyboards press the same key; one of them releases it and leaves, the other still holds it. -/
theorem released_keyboard_leaves :
    ∃ s, exec step (start fun _ => [])
        [.addKeyboard 0 (.device 0) true, .addKeyboard 0 (.device 1) true,
          .key 0 ⟨30, .pressed⟩ true, .key 1 ⟨30, .pressed⟩ true, .key 0 ⟨30, .released⟩ true,
          .removeKeyboard 0 (.device 0)] = some s ∧
      (s.groups 0).keys = [⟨30, 1⟩] ∧ (s.groups 0).received = [⟨30, .pressed⟩] ∧ Exact s := by
  obtain ⟨s, hs, hrun, hkeys, hreceived⟩ : ∃ s, exec step (start fun _ => [])
      [.addKeyboard 0 (.device 0) true, .addKeyboard 0 (.device 1) true,
        .key 0 ⟨30, .pressed⟩ true, .key 1 ⟨30, .pressed⟩ true, .key 0 ⟨30, .released⟩ true,
        .removeKeyboard 0 (.device 0)] = some s ∧
      exec (guarded step sound) (start fun _ => [])
        [.addKeyboard 0 (.device 0) true, .addKeyboard 0 (.device 1) true,
          .key 0 ⟨30, .pressed⟩ true, .key 1 ⟨30, .pressed⟩ true, .key 0 ⟨30, .released⟩ true,
          .removeKeyboard 0 (.device 0)] = some s ∧
      (s.groups 0).keys = [⟨30, 1⟩] ∧ (s.groups 0).received = [⟨30, .pressed⟩] :=
    ⟨_, rfl, rfl, rfl, rfl⟩
  exact ⟨s, hs, hkeys, hreceived, (key_counts_exact _ (.of_exec_guarded _ _ hrun)).1⟩

end FlakeWm.Keyboards
