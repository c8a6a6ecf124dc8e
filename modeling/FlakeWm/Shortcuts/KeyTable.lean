import FlakeWm.Shortcuts.Model
import FlakeWm.Schemes.BinarySearch
import Mathlib.Data.List.Sort

/-! The tables between Qt keys and keysyms (`src/config/qtkey_mapper.c`, the searches of `src/config/kde_global_accel.c`).

    The mapper is run at build time: it sorts its table by the Qt keys and prints it, sorts it by the keysyms and
    prints it again. `qsort` may leave rows with one key in any order, so a print is any sorted arrangement. -/

namespace FlakeWm.Shortcuts

/-- `struct Xkb2Qt`. -/
structure Xkb2Qt where
  keysym : Word
  qtkey : Word
  deriving DecidableEq

/-- `KeyTbl`. -/
def keyTbl : List Xkb2Qt :=
  [
    -- misc keys
    ⟨0xff1b, 0x01000000⟩, ⟨0xff09, 0x01000001⟩, ⟨0xfe20, 0x01000002⟩,
    ⟨0xff08, 0x01000003⟩, ⟨0xff0d, 0x01000004⟩, ⟨0xff63, 0x01000006⟩,
    ⟨0xffff, 0x01000007⟩, ⟨0xff13, 0x01000008⟩, ⟨0xff61, 0x01000009⟩,
    ⟨0x1005ff60, 0x0100000a⟩,
    -- cursor movement
    ⟨0xff50, 0x01000010⟩, ⟨0xff57, 0x01000011⟩, ⟨0xff51, 0x01000012⟩,
    ⟨0xff52, 0x01000013⟩, ⟨0xff53, 0x01000014⟩, ⟨0xff54, 0x01000015⟩,
    ⟨0xff55, 0x01000016⟩, ⟨0xff56, 0x01000017⟩,
    -- modifiers
    ⟨0xffe5, 0x01000024⟩, ⟨0xff7f, 0x01000025⟩, ⟨0xff14, 0x01000026⟩,
    ⟨0xffeb, 0x01000053⟩, ⟨0xffec, 0x01000054⟩, ⟨0xff67, 0x01000055⟩,
    ⟨0xffed, 0x01000056⟩, ⟨0xffee, 0x01000057⟩, ⟨0xff6a, 0x01000058⟩,
    ⟨0x1005ff10, 0x0100003a⟩, ⟨0x1005ff11, 0x0100003b⟩,
    -- special non-XF86 function keys
    ⟨0xff65, 0x01000123⟩, ⟨0xff66, 0x01000124⟩, ⟨0xff68, 0x01000122⟩,
    ⟨0xff69, 0x01020001⟩,
    -- international & multi-key character composition
    ⟨0xfe03, 0x01001103⟩, ⟨0xff20, 0x01001120⟩, ⟨0xff37, 0x01001137⟩,
    ⟨0xff3c, 0x0100113c⟩, ⟨0xff3d, 0x0100113d⟩, ⟨0xff3e, 0x0100113e⟩,
    -- misc Functions
    ⟨0xff7e, 0x0100117e⟩,
    -- japanese keyboard support
    ⟨0xff21, 0x01001121⟩, ⟨0xff22, 0x01001122⟩, ⟨0xff23, 0x01001123⟩,
    ⟨0xff24, 0x01001124⟩, ⟨0xff25, 0x01001125⟩, ⟨0xff26, 0x01001126⟩,
    ⟨0xff27, 0x01001127⟩, ⟨0xff28, 0x01001128⟩, ⟨0xff29, 0x01001129⟩,
    ⟨0xff2a, 0x0100112a⟩, ⟨0xff2b, 0x0100112b⟩, ⟨0xff2c, 0x0100112c⟩,
    ⟨0xff2d, 0x0100112d⟩, ⟨0xff2e, 0x0100112e⟩, ⟨0xff2f, 0x0100112f⟩,
    ⟨0xff30, 0x01001130⟩,
    -- korean keyboard support
    ⟨0xff31, 0x01001131⟩, ⟨0xff32, 0x01001132⟩, ⟨0xff33, 0x01001133⟩,
    ⟨0xff34, 0x01001134⟩, ⟨0xff35, 0x01001135⟩, ⟨0xff36, 0x01001136⟩,
    ⟨0xff38, 0x01001138⟩, ⟨0xff39, 0x01001139⟩, ⟨0xff3a, 0x0100113a⟩,
    ⟨0xff3b, 0x0100113b⟩, ⟨0xff3f, 0x0100113f⟩,
    -- dead keys
    ⟨0xfe50, 0x01001250⟩, ⟨0xfe51, 0x01001251⟩, ⟨0xfe52, 0x01001252⟩,
    ⟨0xfe53, 0x01001253⟩, ⟨0xfe54, 0x01001254⟩, ⟨0xfe55, 0x01001255⟩,
    ⟨0xfe56, 0x01001256⟩, ⟨0xfe57, 0x01001257⟩, ⟨0xfe58, 0x01001258⟩,
    ⟨0xfe59, 0x01001259⟩, ⟨0xfe5a, 0x0100125a⟩, ⟨0xfe5b, 0x0100125b⟩,
    ⟨0xfe5c, 0x0100125c⟩, ⟨0xfe5d, 0x0100125d⟩, ⟨0xfe5e, 0x0100125e⟩,
    ⟨0xfe5f, 0x0100125f⟩, ⟨0xfe60, 0x01001260⟩, ⟨0xfe61, 0x01001261⟩,
    ⟨0xfe62, 0x01001262⟩, ⟨0xfe63, 0x01001263⟩, ⟨0xfe64, 0x01001264⟩,
    ⟨0xfe65, 0x01001265⟩, ⟨0xfe66, 0x01001266⟩, ⟨0xfe67, 0x01001267⟩,
    ⟨0xfe68, 0x01001268⟩, ⟨0xfe69, 0x01001269⟩, ⟨0xfe6a, 0x0100126a⟩,
    ⟨0xfe6b, 0x0100126b⟩, ⟨0xfe6c, 0x0100126c⟩, ⟨0xfe6d, 0x0100126d⟩,
    ⟨0xfe6e, 0x0100126e⟩, ⟨0xfe6f, 0x0100126f⟩, ⟨0xfe80, 0x01001280⟩,
    ⟨0xfe81, 0x01001281⟩, ⟨0xfe82, 0x01001282⟩, ⟨0xfe83, 0x01001283⟩,
    ⟨0xfe84, 0x01001284⟩, ⟨0xfe85, 0x01001285⟩, ⟨0xfe86, 0x01001286⟩,
    ⟨0xfe87, 0x01001287⟩, ⟨0xfe88, 0x01001288⟩, ⟨0xfe89, 0x01001289⟩,
    ⟨0xfe8a, 0x0100128a⟩, ⟨0xfe8b, 0x0100128b⟩, ⟨0xfe8c, 0x0100128c⟩,
    ⟨0xfe90, 0x01001290⟩, ⟨0xfe91, 0x01001291⟩, ⟨0xfe92, 0x01001292⟩,
    ⟨0xfe93, 0x01001293⟩,
    -- special keys from X.org: multimedia, wireless and launcher keys
    ⟨0x1008ff26, 0x01000061⟩, ⟨0x1008ff27, 0x01000062⟩, ⟨0x1008ff28, 0x01000063⟩,
    ⟨0x1008ff29, 0x01000064⟩, ⟨0x1008ff30, 0x01000091⟩, ⟨0x1008ff32, 0x010000a1⟩,
    ⟨0x1008ff38, 0x01000094⟩, ⟨0x1008ff18, 0x01000090⟩, ⟨0x1008ff1b, 0x01000092⟩,
    ⟨0x1008ff11, 0x01000070⟩, ⟨0x1008ff12, 0x01000071⟩, ⟨0x1008ff13, 0x01000072⟩,
    ⟨0x1008ff14, 0x01000080⟩, ⟨0x1008ff15, 0x01000081⟩, ⟨0x1008ff16, 0x01000082⟩,
    ⟨0x1008ff17, 0x01000083⟩, ⟨0x1008ff1c, 0x01000084⟩, ⟨0x1008ff31, 0x01000085⟩,
    ⟨0x1008ff19, 0x010000a0⟩, ⟨0x1008ff33, 0x010000a2⟩, ⟨0x1008ff1d, 0x010000a3⟩,
    ⟨0x1008ff1e, 0x010000bc⟩, ⟨0x1008ff1f, 0x010000cc⟩, ⟨0x1008ff20, 0x010000e4⟩,
    ⟨0x1008ff21, 0x0100010b⟩, ⟨0x1008ff22, 0x0100010d⟩, ⟨0x1008ff10, 0x01000093⟩,
    ⟨0x1008ff02, 0x010000b2⟩, ⟨0x1008ff03, 0x010000b3⟩, ⟨0x1008ff04, 0x010000b4⟩,
    ⟨0x1008ff05, 0x010000b5⟩, ⟨0x1008ff06, 0x010000b6⟩, ⟨0x1008ff2a, 0x010000b7⟩,
    ⟨0x1008ff2b, 0x010000b8⟩, ⟨0x1008ff2c, 0x010000b9⟩, ⟨0x1008ff2d, 0x010000ba⟩,
    ⟨0x1008ff2e, 0x010000bb⟩, ⟨0x1008ff2f, 0x01020004⟩, ⟨0x1008ff35, 0x010000bd⟩,
    ⟨0x1008ff36, 0x010000be⟩, ⟨0x1008ff37, 0x010000bf⟩, ⟨0x1008ff39, 0x010000c0⟩,
    ⟨0x1008ff3a, 0x010000c1⟩, ⟨0x1008ff3b, 0x010000c2⟩, ⟨0x1008ff3c, 0x010000c3⟩,
    ⟨0x1008ff3d, 0x010000c4⟩, ⟨0x1008ff3e, 0x010000c5⟩, ⟨0x1008ff3f, 0x010000c6⟩,
    ⟨0x1008ff50, 0x010000c7⟩, ⟨0x1008ff51, 0x010000c8⟩, ⟨0x1008ff52, 0x010000c9⟩,
    ⟨0x1008ff53, 0x010000ca⟩, ⟨0x1008ff1d, 0x010000cb⟩, ⟨0x1008ff55, 0x0100000b⟩,
    ⟨0x1008fe21, 0x010000cd⟩, ⟨0x1008ff56, 0x010000ce⟩, ⟨0x1008ff57, 0x010000cf⟩,
    ⟨0x1008ff58, 0x010000d0⟩, ⟨0x1008ff59, 0x010000d1⟩, ⟨0x1008ff5a, 0x010000d2⟩,
    ⟨0x1008ff5b, 0x010000d3⟩, ⟨0x1008ff5c, 0x010000d4⟩, ⟨0x1008ff5d, 0x010000d5⟩,
    ⟨0x1008ff5e, 0x010000d6⟩, ⟨0x1008ff5f, 0x010000d7⟩, ⟨0x1008ff60, 0x010000d8⟩,
    ⟨0x1008ff61, 0x010000d9⟩, ⟨0x1008ff62, 0x010000da⟩, ⟨0x1008ff63, 0x010000db⟩,
    ⟨0x1008ff65, 0x010000dc⟩, ⟨0x1008ff66, 0x010000dd⟩, ⟨0x1008ff67, 0x010000de⟩,
    ⟨0x1008ff68, 0x01000120⟩, ⟨0x1008ff69, 0x010000df⟩, ⟨0x1008ff6a, 0x010000e0⟩,
    ⟨0x1008ff6b, 0x01000121⟩, ⟨0x1008ff6c, 0x010000e1⟩, ⟨0x1008ff6d, 0x010000e2⟩,
    ⟨0x1008ff6e, 0x010000e3⟩, ⟨0x1008ff72, 0x010000e5⟩, ⟨0x1008ff73, 0x010000e6⟩,
    ⟨0x1008ff74, 0x010000e7⟩, ⟨0x1008ff75, 0x010000e8⟩, ⟨0x1008ff76, 0x010000e9⟩,
    ⟨0x1008ff77, 0x010000ea⟩, ⟨0x1008ff7b, 0x010000eb⟩, ⟨0x1008ff7c, 0x010000ec⟩,
    ⟨0x1008ff7d, 0x010000ed⟩, ⟨0x1008ff7e, 0x010000ee⟩, ⟨0x1008ff7f, 0x010000ef⟩,
    ⟨0x1008ff80, 0x010000f0⟩, ⟨0x1008ff81, 0x010000f1⟩, ⟨0x1008ff82, 0x010000f2⟩,
    ⟨0x1008ff87, 0x010000f3⟩, ⟨0x1008ff89, 0x010000f4⟩, ⟨0x1008ff8a, 0x010000f5⟩,
    ⟨0x1008ff8b, 0x010000f6⟩, ⟨0x1008ff8c, 0x010000f7⟩, ⟨0x1008ff8d, 0x010000f8⟩,
    ⟨0x1008ff8e, 0x010000f9⟩, ⟨0x1008ff8f, 0x010000fa⟩, ⟨0x1008ff90, 0x010000fb⟩,
    ⟨0x1008ff91, 0x010000fc⟩, ⟨0x1008ff92, 0x010000fd⟩, ⟨0x1008ff93, 0x010000fe⟩,
    ⟨0x1008ff95, 0x01000100⟩, ⟨0x1008ff96, 0x01000101⟩, ⟨0x1008ff97, 0x01000102⟩,
    ⟨0x1008ff98, 0x01000103⟩, ⟨0x1008ff99, 0x01000104⟩, ⟨0x1008ff9a, 0x01000105⟩,
    ⟨0x1008ff9b, 0x01000106⟩, ⟨0x1008ff9f, 0x01000107⟩, ⟨0x1008ffa0, 0x01010000⟩,
    ⟨0x1008ffa1, 0x01000109⟩, ⟨0x1008ffa2, 0x0100010a⟩, ⟨0x1008ffa3, 0x01000114⟩,
    ⟨0x1008ffa4, 0x01000115⟩, ⟨0x1008ffa5, 0x01000116⟩, ⟨0x1008ffa6, 0x01000117⟩,
    ⟨0x1008ff94, 0x010000ff⟩, ⟨0x1008ffa7, 0x0100010c⟩, ⟨0x1008ffa8, 0x01000108⟩,
    ⟨0x1008ffa9, 0x01000110⟩, ⟨0x1008ffb0, 0x01000111⟩, ⟨0x1008ffb1, 0x01000112⟩,
    ⟨0x1008ffb2, 0x01000113⟩, ⟨0x1008ffb5, 0x01000125⟩, ⟨0x1008ff40, 0x010000a4⟩,
    ⟨0x1008ff41, 0x010000a5⟩, ⟨0x1008ff42, 0x010000a6⟩, ⟨0x1008ff43, 0x010000a7⟩,
    ⟨0x1008ff44, 0x010000a8⟩, ⟨0x1008ff45, 0x010000a9⟩, ⟨0x1008ff46, 0x010000aa⟩,
    ⟨0x1008ff47, 0x010000ab⟩, ⟨0x1008ff48, 0x010000ac⟩, ⟨0x1008ff49, 0x010000ad⟩,
    ⟨0x1008ff4a, 0x010000ae⟩, ⟨0x1008ff4b, 0x010000af⟩, ⟨0x1008ff4c, 0x010000b0⟩,
    ⟨0x1008ff4d, 0x010000b1⟩, ⟨0x1008ff4e, 0x0100010e⟩, ⟨0x1008ff4f, 0x0100010f⟩]

/-- What `main` of the mapper prints. -/
structure Printed where
  qtkeyMapTable : List Xkb2Qt
  keysymMapTable : List Xkb2Qt
  qtkey_perm : qtkeyMapTable.Perm keyTbl
  keysym_perm : keysymMapTable.Perm keyTbl
  qtkey_sorted : qtkeyMapTable.Pairwise fun a b => a.qtkey.toNat ≤ b.qtkey.toNat
  keysym_sorted : keysymMapTable.Pairwise fun a b => a.keysym.toInt ≤ b.keysym.toInt

/-- The searches compare the keys as `int32_t`. -/
def Printed.tables (p : Printed) : KeyTables where
  keysym qtKey := (bsearch (fun a => a.qtkey.toInt) qtKey.toInt p.qtkeyMapTable).map (·.keysym)
  qtkey keysym := (bsearch (fun a => a.keysym.toInt) keysym.toInt p.keysymMapTable).map (·.qtkey)

/-- The print of a stable sort. -/
def printed : Printed where
  qtkeyMapTable := keyTbl.mergeSort fun a b => a.qtkey.toNat ≤ b.qtkey.toNat
  keysymMapTable := keyTbl.mergeSort fun a b => a.keysym.toInt ≤ b.keysym.toInt
  qtkey_perm := List.mergeSort_perm _ _
  keysym_perm := List.mergeSort_perm _ _
  qtkey_sorted := by
    have h := @List.pairwise_mergeSort _ (fun a b : Xkb2Qt => a.qtkey.toNat ≤ b.qtkey.toNat)
      (by simp; omega) (by simp; omega) keyTbl
    simpa using h
  keysym_sorted := by
    have h := @List.pairwise_mergeSort _ (fun a b : Xkb2Qt => a.keysym.toInt ≤ b.keysym.toInt)
      (by simp; omega) (by simp; omega) keyTbl
    simpa using h

/-! ### Facts of the table -/

/-- The Qt keys of the table are all above the Latin ones, and below the modifiers. -/
theorem keyTbl_qtkey_range : ∀ a ∈ keyTbl, 0x01000000 ≤ a.qtkey.toNat ∧ a.qtkey.toNat < 0x02000000 := by
  have h : (keyTbl.all fun a => decide (0x01000000 ≤ a.qtkey.toNat ∧ a.qtkey.toNat < 0x02000000)) = true := by
    decide +kernel
  simpa using h

/-- The mapper complains when a Qt key has several keysyms, and none has. -/
theorem keyTbl_qtkey_nodup : (keyTbl.map (·.qtkey.toNat)).Nodup := by
  -- sorted first: two neighbours are compared, not every two rows
  have h : ((keyTbl.map (·.qtkey.toNat)).insertionSort (· ≤ ·)).IsChain (· < ·) := by decide +kernel
  have hlt : ((keyTbl.map (·.qtkey.toNat)).insertionSort (· ≤ ·)).Pairwise (· < ·) := List.isChain_iff_pairwise.1 h
  exact (List.perm_insertionSort _ _).nodup_iff.1 (hlt.imp fun h => Nat.ne_of_lt h)

/-- No row has a keysym of the function keys, or keysym 0. -/
theorem keyTbl_keysym_range : ∀ a ∈ keyTbl, a.keysym ≠ 0 ∧ (a.keysym.toNat < 0xffbe ∨ 0xffe0 < a.keysym.toNat) := by
  have h : (keyTbl.all fun a => decide (a.keysym ≠ 0 ∧ (a.keysym.toNat < 0xffbe ∨ 0xffe0 < a.keysym.toNat))) = true := by
    decide +kernel
  simpa using h

/-- A Qt key is in one row only. -/
theorem keyTbl_qtkey_inj {a b : Xkb2Qt} (ha : a ∈ keyTbl) (hb : b ∈ keyTbl) (h : a.qtkey = b.qtkey) : a = b :=
  List.inj_on_of_nodup_map keyTbl_qtkey_nodup ha hb (congrArg BitVec.toNat h)

/-! ### What the searches find -/

namespace Printed

variable (p : Printed)

/-- The mapper sorts the Qt keys as unsigned numbers, the search compares them as signed ones. -/
theorem qtkey_sorted_signed : p.qtkeyMapTable.Pairwise fun a b => a.qtkey.toInt ≤ b.qtkey.toInt := by
  refine p.qtkey_sorted.imp_of_mem fun {a b} ha hb hle => ?_
  have hrange := keyTbl_qtkey_range a (p.qtkey_perm.mem_iff.1 ha)
  have hrange' := keyTbl_qtkey_range b (p.qtkey_perm.mem_iff.1 hb)
  rw [BitVec.toInt_eq_toNat_of_lt (by omega), BitVec.toInt_eq_toNat_of_lt (by omega)]
  exact_mod_cast hle

theorem keysym_some {qtKey keysym : Word} (h : p.tables.keysym qtKey = some keysym) :
    ∃ a ∈ keyTbl, a.qtkey = qtKey ∧ a.keysym = keysym := by
  obtain ⟨a, ha, rfl⟩ := Option.map_eq_some_iff.1 h
  obtain ⟨hmem, hkey⟩ := bsearch_some ha
  exact ⟨a, p.qtkey_perm.mem_iff.1 hmem, BitVec.eq_of_toInt_eq hkey, rfl⟩

theorem qtkey_some {qtKey keysym : Word} (h : p.tables.qtkey keysym = some qtKey) :
    ∃ a ∈ keyTbl, a.keysym = keysym ∧ a.qtkey = qtKey := by
  obtain ⟨a, ha, rfl⟩ := Option.map_eq_some_iff.1 h
  obtain ⟨hmem, hkey⟩ := bsearch_some ha
  exact ⟨a, p.keysym_perm.mem_iff.1 hmem, BitVec.eq_of_toInt_eq hkey, rfl⟩

/-- Every row is found by its Qt key. -/
theorem keysym_of_mem {a : Xkb2Qt} (ha : a ∈ keyTbl) : p.tables.keysym a.qtkey = some a.keysym := by
  obtain ⟨b, hb, -, hkey⟩ := bsearch_isSome p.qtkey_sorted_signed (p.qtkey_perm.mem_iff.2 ha)
    (Eq.refl a.qtkey.toInt)
  obtain ⟨hmem, -⟩ := bsearch_some hb
  have hab : b = a := keyTbl_qtkey_inj (p.qtkey_perm.mem_iff.1 hmem) ha (BitVec.eq_of_toInt_eq hkey)
  exact Option.map_eq_some_iff.2 ⟨b, hb, by rw [hab]⟩

/-- No Latin character is found. -/
theorem keysym_latin {qtKey : Word} (h : qtKey.toNat < 0x01000000) : p.tables.keysym qtKey = none := by
  cases hs : p.tables.keysym qtKey with
  | none => rfl
  | some keysym =>
      obtain ⟨a, ha, rfl, -⟩ := p.keysym_some hs
      have := keyTbl_qtkey_range a ha
      omega

/-- Whatever is found is not a function key. -/
theorem keysym_not_function {qtKey k : Word} (hk : 0xffbe ≤ k.toNat ∧ k.toNat ≤ 0xffe0) :
    (p.tables.keysym qtKey).getD 0 ≠ k := by
  cases hs : p.tables.keysym qtKey with
  | none =>
      rintro rfl
      simp at hk
  | some keysym =>
      obtain ⟨a, ha, -, rfl⟩ := p.keysym_some hs
      have hrange := (keyTbl_keysym_range a ha).2
      rintro rfl
      simp only [Option.getD_some] at hk
      omega

end Printed

end FlakeWm.Shortcuts
