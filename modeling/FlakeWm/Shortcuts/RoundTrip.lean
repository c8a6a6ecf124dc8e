import FlakeWm.Shortcuts.KeyTable

/-! A built-in binding's key, to a Qt key and back (`src/config/kde_global_accel.c`).

    The modifiers and the Qt key have no bit in common, so each comes back from its own bits. The keysym comes back
    from the table; the Latin and keypad keys go by ranges, and these depend on the keypad modifier. -/

namespace FlakeWm.Shortcuts

/-! ### Bits -/

/-- The modifiers as places of bits: of wlroots, and of Qt. -/
def modifierBits : List (ℕ × ℕ) := [(0, 25), (2, 26), (3, 27), (6, 28), (4, 29), (7, 30)]

theorem modifierTable_eq :
    modifierTable = modifierBits.map fun b => (BitVec.twoPow 32 b.1, BitVec.twoPow 32 b.2) := by decide

/-- The six modifiers that have a Qt modifier. -/
def supportedModifiers : Word := modifierTable.foldl (fun m b => m ||| b.1) 0

theorem and_twoPow_ne_zero (x : Word) {i : ℕ} (hi : i < 32) : x &&& BitVec.twoPow 32 i ≠ 0 ↔ x.getLsbD i = true := by
  have hne : BitVec.twoPow 32 i ≠ 0 := by
    intro h
    have hbit := congrArg (fun y => y.getLsbD i) h
    simp [hi] at hbit
  rw [BitVec.and_twoPow]
  cases x.getLsbD i
  · simp
  · simpa using hne

/-- What a fold of conditional bits has at a place. -/
theorem getLsbD_foldl_or {α : Type*} (c : α → Prop) [DecidablePred c] (v : α → Word) (n : ℕ) :
    ∀ (l : List α) (z : Word), (l.foldl (fun acc a => if c a then acc ||| v a else acc) z).getLsbD n = true ↔
      z.getLsbD n = true ∨ ∃ a ∈ l, c a ∧ (v a).getLsbD n = true
  | [], z => by simp
  | a :: l, z => by
      rw [List.foldl_cons, getLsbD_foldl_or c v n l]
      by_cases h : c a
      · simp [h, or_assoc]
      · simp [h]

/-- A fold that begins with no bit. -/
theorem getLsbD_foldl_or_zero {α : Type*} (c : α → Prop) [DecidablePred c] (v : α → Word) (n : ℕ) (l : List α) :
    (l.foldl (fun acc a => if c a then acc ||| v a else acc) 0).getLsbD n = true ↔
      ∃ a ∈ l, c a ∧ (v a).getLsbD n = true := by
  have hzero : (0 : Word).getLsbD n = false := BitVec.getLsbD_zero
  rw [getLsbD_foldl_or, hzero]
  simp

theorem modifierBits_lt : ∀ b ∈ modifierBits, b.1 < 25 ∧ 25 ≤ b.2 ∧ b.2 < 32 := by decide

theorem getLsbD_modifiersToQtkey (m : Word) (n : ℕ) :
    (modifiersToQtkey m).getLsbD n = true ↔ ∃ b ∈ modifierBits, m.getLsbD b.1 = true ∧ n = b.2 := by
  rw [modifiersToQtkey, getLsbD_foldl_or_zero (fun b : Word × Word => m &&& b.1 ≠ 0) (fun b => b.2), modifierTable_eq]
  simp only [List.mem_map, exists_exists_and_eq_and]
  refine exists_congr fun b => and_congr_right fun hb => ?_
  have := modifierBits_lt b hb
  rw [and_twoPow_ne_zero m (by omega), BitVec.getLsbD_twoPow]
  simp [show b.2 < 32 by omega, eq_comm (a := n)]

theorem getLsbD_qtkeyToModifiers (key : Word) (n : ℕ) :
    (qtkeyToModifiers key).getLsbD n = true ↔ ∃ b ∈ modifierBits, key.getLsbD b.2 = true ∧ n = b.1 := by
  rw [qtkeyToModifiers, getLsbD_foldl_or_zero (fun b : Word × Word => key &&& b.2 ≠ 0) (fun b => b.1), modifierTable_eq]
  simp only [List.mem_map, exists_exists_and_eq_and]
  refine exists_congr fun b => and_congr_right fun hb => ?_
  have := modifierBits_lt b hb
  rw [and_twoPow_ne_zero key (by omega), BitVec.getLsbD_twoPow]
  simp [show b.1 < 32 by omega, eq_comm (a := n)]

theorem getLsbD_supportedModifiers (n : ℕ) :
    supportedModifiers.getLsbD n = true ↔ ∃ b ∈ modifierBits, n = b.1 := by
  have hbits : ∀ n < 32, supportedModifiers.getLsbD n = true ↔ ∃ b ∈ modifierBits, n = b.1 := by decide
  by_cases hn : n < 32
  · exact hbits n hn
  · refine ⟨fun h => absurd (BitVec.lt_of_getLsbD h) hn, ?_⟩
    rintro ⟨b, hb, rfl⟩
    have := modifierBits_lt b hb
    omega

/-! ### The key with its modifiers -/

section Packed

variable {m q : Word} (hq : q.toNat < 0x02000000)
include hq

theorem getLsbD_key {i : ℕ} (hi : 25 ≤ i) : q.getLsbD i = false :=
  Nat.testBit_lt_two_pow (Nat.lt_of_lt_of_le hq (Nat.pow_le_pow_right (Nat.succ_pos 1) hi))

/-- A bit of a packed key is one of the modifiers', or one of the key's. -/
theorem getLsbD_pack {b : ℕ × ℕ} (hb : b ∈ modifierBits) :
    (modifiersToQtkey m ||| q).getLsbD b.2 = m.getLsbD b.1 := by
  have hinj : ∀ b ∈ modifierBits, ∀ b' ∈ modifierBits, b.2 = b'.2 → b = b' := by decide
  rw [BitVec.getLsbD_or, getLsbD_key hq (modifierBits_lt b hb).2.1, Bool.or_false, Bool.eq_iff_iff,
    getLsbD_modifiersToQtkey]
  constructor
  · rintro ⟨b', hb', hbit, heq⟩
    rwa [hinj b hb b' hb' heq]
  · exact fun hbit => ⟨b, hb, hbit, rfl⟩

/-- The modifiers come back from a packed key. -/
theorem qtkeyToModifiers_pack : qtkeyToModifiers (modifiersToQtkey m ||| q) = m &&& supportedModifiers := by
  refine BitVec.eq_of_getLsbD_eq fun n _ => Bool.eq_iff_iff.2 ?_
  rw [getLsbD_qtkeyToModifiers, BitVec.getLsbD_and, Bool.and_eq_true, getLsbD_supportedModifiers]
  constructor
  · rintro ⟨b, hb, hbit, rfl⟩
    exact ⟨(getLsbD_pack hq hb).symm.trans hbit, b, hb, rfl⟩
  · rintro ⟨hbit, b, hb, rfl⟩
    exact ⟨b, hb, (getLsbD_pack hq hb).trans hbit, rfl⟩

/-- The Qt key comes back from a packed key. -/
theorem pack_and_keyMask : (modifiersToQtkey m ||| q) &&& ~~~keyboardModifierMask = q := by
  have hmask : ∀ n < 32, (~~~keyboardModifierMask).getLsbD n = decide (n < 25) := by decide
  refine BitVec.eq_of_getLsbD_eq fun n hn => ?_
  rw [BitVec.getLsbD_and, BitVec.getLsbD_or, hmask n hn]
  by_cases hlow : n < 25
  · have hpack : (modifiersToQtkey m).getLsbD n = false := by
      rw [Bool.eq_false_iff, ne_eq, getLsbD_modifiersToQtkey]
      rintro ⟨b, hb, -, rfl⟩
      have := modifierBits_lt b hb
      omega
    simp [hlow, hpack]
  · simp [hlow, getLsbD_key hq (Nat.le_of_not_lt hlow)]

/-- The keypad bit of a packed key is `WLR_MODIFIER_MOD2`. -/
theorem pack_and_keypadModifier :
    (modifiersToQtkey m ||| q) &&& keypadModifier ≠ 0 ↔ m &&& 16 ≠ 0 := by
  have hkeypad : keypadModifier = BitVec.twoPow 32 29 := by decide
  have hmod2 : (16 : Word) = BitVec.twoPow 32 4 := by decide
  rw [hkeypad, hmod2, and_twoPow_ne_zero _ (by decide), and_twoPow_ne_zero _ (by decide),
    getLsbD_pack hq (b := (4, 29)) (by decide)]

/-- The keysym of a packed key: the keypad digits, the Latin characters, and the table for the rest. -/
theorem qtkeyToKeysym_pack (t : KeyTables) :
    qtkeyToKeysym t (modifiersToQtkey m ||| q) =
      if m &&& 16 ≠ 0 ∧ 0x30 ≤ q ∧ q ≤ 0x39 then 0xffb0 + q - 0x30
      else if q < 0x1000 ∧ m &&& 16 = 0 ∧ tolower q ≠ 0 then tolower q
      else (t.keysym q).getD 0 := by
  have hset := pack_and_keypadModifier (m := m) hq
  have hclear := not_iff_not.1 hset
  rw [qtkeyToKeysym, pack_and_keyMask hq]
  simp only [hset, hclear]
  by_cases hdigit : m &&& 16 ≠ 0 ∧ 0x30 ≤ q ∧ q ≤ 0x39
  · have hne : 0xffb0 + q - 0x30 ≠ (0 : Word) := by
      obtain ⟨-, hlo, hhi⟩ := hdigit
      bv_omega
    rw [if_pos hdigit, if_neg hne, if_pos hdigit]
  · simp only [if_neg hdigit]
    by_cases hlatin : q < 0x1000 ∧ m &&& 16 = 0
    · by_cases hlow : tolower q = 0
      · rw [if_pos hlatin, if_pos hlow, if_neg fun h => h.2.2 hlow]
      · rw [if_pos hlatin, if_neg hlow, if_pos ⟨hlatin.1, hlatin.2, hlow⟩]
    · rw [if_neg hlatin, if_pos rfl, if_neg fun h => hlatin ⟨h.1, h.2.1⟩]

end Packed

/-! ### There and back -/

/-- The keysyms of xkbcommon are below its largest. -/
def keysymMax : Word := 0x1fffffff

section Keysym

variable {k m : Word} (hk : k ≤ keysymMax)
include hk

/-- A keysym's comparisons are those of unsigned numbers, as no keysym is negative. -/
theorem keysymToQtkey_eq (t : KeyTables) :
    keysymToQtkey t k =
      if 0xffb0 ≤ k ∧ k ≤ 0xffb9 then k + 0x30 - 0xffb0
      else if k < 0xff then toupper k
      else if 0xffbe ≤ k ∧ k ≤ 0xffe0 then k - 0xffbe + 0x01000030
      else (t.qtkey k).getD keyMask := by
  have hint : k.toInt = k.toNat := BitVec.toInt_eq_toNat_of_lt (by
    have : k.toNat ≤ 0x1fffffff := hk
    omega)
  have hle {a : Word} (ha : a.toInt = a.toNat) : BitVec.sle a k = true ↔ a ≤ k := by
    rw [BitVec.sle_iff_toInt_le, hint, ha, BitVec.le_def, Int.ofNat_le]
  have hge {a : Word} (ha : a.toInt = a.toNat) : BitVec.sle k a = true ↔ k ≤ a := by
    rw [BitVec.sle_iff_toInt_le, hint, ha, BitVec.le_def, Int.ofNat_le]
  have hlt {a : Word} (ha : a.toInt = a.toNat) : BitVec.slt k a = true ↔ k < a := by
    rw [BitVec.slt_iff_toInt_lt, hint, ha, BitVec.lt_def, Int.ofNat_lt]
  have hmask : keyMask = 0x01ffffff := by decide
  simp only [keysymToQtkey, hle (a := 0xffb0) rfl, hge (a := 0xffb9) rfl, hlt (a := 0xff) rfl, hle (a := 0xffbe) rfl,
    hge (a := 0xffe0) rfl]
  by_cases hdigit : 0xffb0 ≤ k ∧ k ≤ 0xffb9
  · have hne : k + 0x30 - 0xffb0 ≠ keyMask := by
      rw [hmask]
      bv_omega
    rw [if_pos hdigit, if_neg hne, if_pos hdigit]
  · simp only [if_neg hdigit]
    by_cases hlatin : k < 0xff
    · have hne : toupper k ≠ keyMask := by
        rw [hmask, toupper]
        split <;> bv_omega
      rw [if_pos hlatin, if_neg hne, if_pos hlatin]
    · simp only [if_neg hlatin]
      by_cases hfunction : 0xffbe ≤ k ∧ k ≤ 0xffe0
      · have hne : k - 0xffbe + 0x01000030 ≠ keyMask := by
          rw [hmask]
          bv_omega
        rw [if_pos hfunction, if_neg hne, if_pos hfunction]
      · simp only [if_neg hfunction, if_true]

end Keysym

/-- When a key comes back: a keypad digit with `WLR_MODIFIER_MOD2`, a Latin character without it, and every other
key but the function keys, which only one of the two directions knows. -/
def RoundTrips (k m : Word) : Prop :=
  if 0xffb0 ≤ k ∧ k ≤ 0xffb9 then m &&& 16 ≠ 0
  else if k < 0xff then k = 0 ∨ m &&& 16 = 0
  else ¬ (0xffbe ≤ k ∧ k ≤ 0xffe0)

section Back

variable (p : Printed) {k : Word} (m : Word)

theorem back_digit (h : 0xffb0 ≤ k ∧ k ≤ 0xffb9) :
    qtkeyToKeysym p.tables (modifiersToQtkey m ||| (k + 0x30 - 0xffb0)) = k ↔ m &&& 16 ≠ 0 := by
  have hq : (k + 0x30 - 0xffb0).toNat < 0x02000000 := by bv_omega
  rw [qtkeyToKeysym_pack hq]
  by_cases hm : m &&& 16 = 0
  · have hlow : tolower (k + 0x30 - 0xffb0) = k + 0x30 - 0xffb0 := by
      rw [tolower, if_neg (by bv_omega)]
    rw [if_neg fun h => h.1 hm, if_pos ⟨by bv_omega, hm, by rw [hlow]; bv_omega⟩, hlow]
    refine iff_of_false ?_ fun h => h hm
    bv_omega
  · rw [if_pos ⟨hm, by bv_omega, by bv_omega⟩]
    refine iff_of_true ?_ hm
    bv_omega

theorem back_latin (h : k < 0xff) (hlower : tolower k = k) :
    qtkeyToKeysym p.tables (modifiersToQtkey m ||| toupper k) = k ↔ k = 0 ∨ m &&& 16 = 0 := by
  have hupper : (toupper k).toNat < 0x1000 := by
    rw [toupper]
    split <;> bv_omega
  have hback : tolower (toupper k) = k := by
    rw [toupper]
    split
    · rw [tolower, if_pos (by bv_omega)]
      bv_omega
    · exact hlower
  rw [qtkeyToKeysym_pack (by omega), hback, p.keysym_latin (by omega)]
  by_cases hm : m &&& 16 = 0
  · refine iff_of_true ?_ (Or.inr hm)
    rw [if_neg fun h => h.1 hm]
    split
    · rfl
    next hzero =>
      by_contra hne
      exact hzero ⟨by bv_omega, hm, Ne.symm hne⟩
  · simp only [hm, or_false]
    split
    next hdigit =>
      obtain ⟨-, hlo, hhi⟩ := hdigit
      refine iff_of_false ?_ ?_
      · bv_omega
      · rintro rfl
        exact absurd hlo (by decide)
    · rw [if_neg fun h => h.2.1]
      exact eq_comm

theorem back_function (h : 0xffbe ≤ k ∧ k ≤ 0xffe0) :
    qtkeyToKeysym p.tables (modifiersToQtkey m ||| (k - 0xffbe + 0x01000030)) ≠ k := by
  rw [qtkeyToKeysym_pack (by bv_omega), if_neg fun h => ?_, if_neg fun h => ?_]
  · exact p.keysym_not_function ⟨by bv_omega, by bv_omega⟩
  · bv_omega
  · bv_omega

/-- A row of the table comes back with whatever modifiers. -/
theorem back_table {a : Xkb2Qt} (ha : a ∈ keyTbl) :
    qtkeyToKeysym p.tables (modifiersToQtkey m ||| a.qtkey) = a.keysym := by
  obtain ⟨hlo, hhi⟩ := keyTbl_qtkey_range a ha
  rw [qtkeyToKeysym_pack hhi, if_neg fun h => ?_, if_neg fun h => ?_, p.keysym_of_mem ha, Option.getD_some]
  · bv_omega
  · bv_omega

end Back

/-- The function keys are lost: a Qt key is found for `XKB_KEY_F1`, and no keysym for that Qt key. -/
theorem not_every_key_round_trips :
    ¬ ∀ (p : Printed) (k m : Word), k ≤ keysymMax → tolower k = k → keysymToQtkey p.tables k ≠ keyMask →
      qtkeyToKeysym p.tables (modifiersToQtkey m ||| keysymToQtkey p.tables k) = k ∧
        qtkeyToModifiers (modifiersToQtkey m ||| keysymToQtkey p.tables k) = m &&& supportedModifiers := by
  intro h
  have hF1 : keysymToQtkey printed.tables 0xffbe = 0x01000030 := by
    rw [keysymToQtkey_eq (by decide), if_neg (by decide), if_neg (by decide), if_pos (by decide)]
    decide
  obtain ⟨hkeysym, -⟩ := h printed 0xffbe 0 (by decide) (by decide) (by rw [hF1]; decide)
  rw [hF1] at hkeysym
  exact back_function printed 0 (k := 0xffbe) (by decide) hkeysym

/-- A built-in binding's Qt key converts back to its keysym and its modifiers in exactly these cases. -/
theorem builtin_key_round_trips (p : Printed) (k m : Word) (hk : k ≤ keysymMax) (hlower : tolower k = k)
    (hfound : keysymToQtkey p.tables k ≠ keyMask) :
    (qtkeyToKeysym p.tables (modifiersToQtkey m ||| keysymToQtkey p.tables k) = k ∧
      qtkeyToModifiers (modifiersToQtkey m ||| keysymToQtkey p.tables k) = m &&& supportedModifiers) ↔
    RoundTrips k m := by
  rw [keysymToQtkey_eq hk] at hfound ⊢
  by_cases hdigit : 0xffb0 ≤ k ∧ k ≤ 0xffb9
  · rw [if_pos hdigit, RoundTrips, if_pos hdigit, back_digit p m hdigit]
    exact and_iff_left (qtkeyToModifiers_pack (by bv_omega))
  · simp only [if_neg hdigit] at hfound ⊢
    by_cases hlatin : k < 0xff
    · have hupper : (toupper k).toNat < 0x02000000 := by
        rw [toupper]
        split <;> bv_omega
      rw [if_pos hlatin, RoundTrips, if_neg hdigit, if_pos hlatin, back_latin p m hlatin hlower]
      exact and_iff_left (qtkeyToModifiers_pack hupper)
    · simp only [if_neg hlatin] at hfound ⊢
      by_cases hfunction : 0xffbe ≤ k ∧ k ≤ 0xffe0
      · rw [if_pos hfunction, RoundTrips, if_neg hdigit, if_neg hlatin]
        exact iff_of_false (fun h => back_function p m hfunction h.1) fun h => h hfunction
      · rw [if_neg hfunction] at hfound ⊢
        rw [RoundTrips, if_neg hdigit, if_neg hlatin]
        cases hq : p.tables.qtkey k with
        | none => exact absurd (by rw [hq]; rfl) hfound
        | some q =>
            obtain ⟨a, ha, rfl, rfl⟩ := p.qtkey_some hq
            rw [Option.getD_some]
            exact iff_of_true ⟨back_table p m ha, qtkeyToModifiers_pack (keyTbl_qtkey_range a ha).2⟩ hfunction

/-- `a` with `WLR_MODIFIER_CTRL`. -/
theorem builtin_key_round_trips_ctrl_a :
    (qtkeyToKeysym printed.tables (modifiersToQtkey 4 ||| keysymToQtkey printed.tables 0x61) = 0x61 ∧
      qtkeyToModifiers (modifiersToQtkey 4 ||| keysymToQtkey printed.tables 0x61) = 4 &&& supportedModifiers) ↔
    RoundTrips 0x61 4 := by
  refine builtin_key_round_trips printed 0x61 4 (by decide) (by decide) ?_
  rw [keysymToQtkey_eq (by decide), if_neg (by decide), if_pos (by decide)]
  decide

end FlakeWm.Shortcuts
