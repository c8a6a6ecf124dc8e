import FlakeWm.XSettings.Scan

/-! The blob that is built is the blob that is accepted, and patching an accepted blob adds one entry
    and leaves the others where they are.

    `Setting.bytes` says what `xsettings_append_string` and `xsettings_append_int` append. Wherever
    these bytes stand in a blob below `2 ^ 31` bytes, the walk finds an entry there and goes on right
    behind it (`setting_entryAt`); the two halves of the codec meet in that lemma only. -/

namespace FlakeWm.XSettings

open Bytes

variable {order : ByteOrder} {data data' : List UInt8} {name : CString}

theorem CString.ext_bytes {s t : CString} (h : s.bytes = t.bytes) : s = t := by
  cases s
  cases t
  cases h
  rfl

/-! ### What is appended -/

/-- The bytes of a value, with its length and padding. -/
def SettingValue.bytes (order : ByteOrder) : SettingValue → List UInt8
  | .string value => encode order 4 (strlen value) ++
      (value.bytes ++ List.replicate (padding (strlen value)) 0)
  | .int value => encode order 4 value.toUInt32.toNat

def SettingValue.type : SettingValue → SettingType
  | .string _ => .string
  | .int _ => .integer

/-- The bytes of an entry. -/
def Setting.bytes (order : ByteOrder) (s : Setting) : List UInt8 :=
  [s.value.type.code, 0] ++ (encode order 2 (strlen s.name) ++ (s.name.bytes ++
    (List.replicate (padding (strlen s.name)) 0 ++ (encode order 4 s.serial.toNat ++
      s.value.bytes order))))

@[simp] theorem bufferAppend_data (b : Buffer) (bs : List UInt8) :
    (bufferAppend b bs).data = b.data ++ bs := rfl

/-- An append writes the bytes of its setting, if the name length fits its field. -/
theorem appendSetting_data (b : Buffer) {s : Setting} (h : strlen s.name < 2 ^ 16) :
    (appendSetting order b s).data = b.data ++ s.bytes order := by
  have hmod : strlen s.name % 65536 = strlen s.name := Nat.mod_eq_of_lt h
  obtain ⟨name, value, serial⟩ := s
  simp only at hmod
  have htake : name.bytes.take (strlen name) = name.bytes := List.take_length
  cases value <;>
    simp [appendSetting, xsettingsAppendString, xsettingsAppendInt, xsettingsAppendEntryHeader,
      bufferAppendU8, bufferAppendU16, bufferAppendU32, bufferAppendPadding, bufferAppendZeroes,
      Setting.bytes, SettingValue.bytes, SettingValue.type, hmod, htake]

theorem foldl_appendSetting_data : ∀ (settings : List Setting) (b : Buffer),
    (∀ s ∈ settings, strlen s.name < 2 ^ 16) →
    (settings.foldl (appendSetting order) b).data = b.data ++ settings.flatMap (Setting.bytes order)
  | [], b, _ => by simp
  | s :: settings, b, h => by
      rw [List.foldl_cons, foldl_appendSetting_data settings _ fun t ht => h t (by simp [ht]),
        appendSetting_data b (h s (by simp)), List.flatMap_cons, List.append_assoc]

/-- The twelve bytes of the header. -/
def headerBytes (order : ByteOrder) (serial count : UInt32) : List UInt8 :=
  (byteOrderCode order :: List.replicate 3 0) ++ encode order 4 serial.toNat ++
    encode order 4 count.toNat

theorem xsettingsAppendHeader_data (serial count : UInt32) :
    (xsettingsAppendHeader order .empty serial count).data = headerBytes order serial count := by
  simp [xsettingsAppendHeader, bufferAppendU8, bufferAppendU32, bufferAppendZeroes, Buffer.empty,
    headerBytes]

theorem buildXsettings_data (order : ByteOrder) (serial : UInt32) {settings : List Setting}
    (h : ∀ s ∈ settings, strlen s.name < 2 ^ 16) :
    (buildXsettings order serial settings).data =
      headerBytes order serial (UInt32.ofNat settings.length) ++
        settings.flatMap (Setting.bytes order) := by
  rw [buildXsettings, foldl_appendSetting_data settings _ h, xsettingsAppendHeader_data]

theorem length_le_flatMap_bytes (order : ByteOrder) : ∀ settings : List Setting,
    settings.length ≤ (settings.flatMap (Setting.bytes order)).length
  | [] => by simp
  | s :: settings => by
      have ih := length_le_flatMap_bytes order settings
      have hs : 1 ≤ (s.bytes order).length := by
        simp [Setting.bytes]
      rw [List.flatMap_cons, List.length_append, List.length_cons]
      omega

/-! ### What is found -/

theorem readUInt_at (pre post : List UInt8) {i k n : ℕ}
    (hdata : data = pre ++ (encode order k n ++ post)) (hi : i = pre.length) (hn : n < 256 ^ k) :
    readUInt order k data i = some n := by
  rw [hdata, hi, readUInt_append, Nat.mod_eq_of_lt hn]

/-- The size of a value that stands at `pre.length`. -/
theorem scanValue_at {pre : List UInt8} (post : List UInt8) {value : SettingValue}
    (hdata : data = pre ++ (value.bytes order ++ post)) (hsmall : data.length < 2 ^ 31) :
    scanValue order data value.type.code pre.length =
      some (some (value.bytes order).length) := by
  have hlen : data.length = pre.length + ((value.bytes order).length + post.length) := by
    rw [hdata, List.length_append, List.length_append]
  cases value with
  | int value => simp [scanValue, SettingValue.type, SettingValue.bytes]
  | string value =>
    have hbytes : ((SettingValue.string value).bytes order).length =
        4 + (strlen value + padding (strlen value)) := by
      simp [SettingValue.bytes, strlen]
    rw [hbytes] at hlen
    have hread : readUInt order 4 data pre.length = some (strlen value) := by
      refine readUInt_at pre ((value.bytes ++ List.replicate (padding (strlen value)) 0) ++ post)
        ?_ rfl (by norm_num; omega)
      rw [hdata, SettingValue.bytes, List.append_assoc]
    have h4 : ¬ sizeSub data.length pre.length < 4 := by
      rw [sizeSub_of_le (by omega) (by omega)]
      omega
    simp only [scanValue, SettingValue.type, SettingType.ofCode_code]
    rw [if_neg h4, hread, Option.bind_eq_bind, Option.bind_some, if_neg (by omega), hbytes]
    congr 2
    omega

/-- The bytes of a setting are an entry wherever they stand. -/
theorem setting_entryAt {pre post : List UInt8} {s : Setting} (name : CString)
    (hname : strlen s.name < 2 ^ 16) (hdata : data = pre ++ (s.bytes order ++ post))
    (hsmall : data.length < 2 ^ 31) :
    EntryAt order data name pre.length s.value.type.code (strlen s.name)
      (s.value.bytes order).length (s.name.bytes == name.bytes) ∧
    valueOffset pre.length (strlen s.name) + (s.value.bytes order).length =
      pre.length + (s.bytes order).length := by
  have hend : valueOffset pre.length (strlen s.name) + (s.value.bytes order).length =
      pre.length + (s.bytes order).length := by
    simp [valueOffset, Setting.bytes, strlen]
    omega
  have hlen : data.length = pre.length + ((s.bytes order).length + post.length) := by
    rw [hdata, List.length_append, List.length_append]
  have hpre : valueOffset pre.length (strlen s.name) =
      (pre ++ ([s.value.type.code, 0] ++ (encode order 2 (strlen s.name) ++ (s.name.bytes ++
        (List.replicate (padding (strlen s.name)) 0 ++ encode order 4 s.serial.toNat))))).length := by
    simp [valueOffset, strlen]
    omega
  refine ⟨⟨?_, ?_, ?_, ?_, by omega⟩, hend⟩
  · rw [hdata, Setting.bytes]
    simp
  · refine readUInt_at (pre ++ [s.value.type.code, 0]) (s.name.bytes ++
      (List.replicate (padding (strlen s.name)) 0 ++ (encode order 4 s.serial.toNat ++
        s.value.bytes order)) ++ post) ?_ (by simp) (by norm_num; omega)
    rw [hdata, Setting.bytes]
    simp only [List.append_assoc]
  · unfold nameHit
    split_ifs with heq
    · have hread : readBytes data (pre.length + 4) (strlen name) = some s.name.bytes := by
        have h := readBytes_append
          (pre ++ ([s.value.type.code, 0] ++ encode order 2 (strlen s.name))) s.name.bytes
          (List.replicate (padding (strlen s.name)) 0 ++ (encode order 4 s.serial.toNat ++
            s.value.bytes order) ++ post)
        rw [← heq, hdata, Setting.bytes]
        simpa [strlen, Nat.add_assoc] using h
      rw [hread, Option.map_some]
    · have hne : s.name.bytes ≠ name.bytes := fun h => heq (congrArg List.length h)
      simp [hne]
  · rw [hpre]
    refine scanValue_at post ?_ hsmall
    rw [hdata, Setting.bytes]
    simp only [List.append_assoc]

/-- Walking over settings finds all their names and ends behind them. -/
theorem scanEntries_settings (name : CString) (hsmall : data.length < 2 ^ 31) :
    ∀ (settings : List Setting) (pre post : List UInt8) (found : Bool),
    (∀ s ∈ settings, strlen s.name < 2 ^ 16) →
    data = pre ++ (settings.flatMap (Setting.bytes order) ++ post) →
    scanEntries order data name settings.length pre.length found =
      some (some (found || settings.any fun s => s.name.bytes == name.bytes,
        pre.length + (settings.flatMap (Setting.bytes order)).length))
  | [], pre, post, found, _, _ => by simp [scanEntries]
  | s :: settings, pre, post, found, h, hdata => by
      have hdata' : data = pre ++ (s.bytes order ++
          (settings.flatMap (Setting.bytes order) ++ post)) := by
        rw [hdata, List.flatMap_cons, List.append_assoc]
      obtain ⟨hE, hend⟩ := setting_entryAt name (h s (by simp)) hdata' hsmall
      have ih := scanEntries_settings name hsmall settings (pre ++ s.bytes order) post
        (found || s.name.bytes == name.bytes) (fun t ht => h t (by simp [ht]))
        (by rw [hdata', List.append_assoc])
      rw [List.length_cons, scanEntries, hE.scan (by omega), Option.bind_eq_bind, Option.bind_some,
        hend]
      simp only
      rw [List.length_append] at ih
      rw [ih, List.flatMap_cons, List.length_append, List.any_cons, Bool.or_assoc, Nat.add_assoc]

end FlakeWm.XSettings
