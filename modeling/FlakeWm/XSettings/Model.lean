import FlakeWm.Schemes.Bytes

/-! The XSETTINGS blob (`xwayland/xsettings.c`): building it, walking it, and patching the blob of
    another settings manager.

        header   byte order, 3 zeroes, serial (4), count (4)
        entry    type (1), 0, name length (2), name, padding, serial (4), value
        value    integer: 4 bytes    string: length (4), bytes, padding    color: 8 bytes

    Integers are written in host byte order, which is the parameter `order`. Lengths and offsets are
    natural numbers: `len - offset` wraps like `size_t`, the size of a string value wraps like
    `uint32_t`, and every sum of offsets is bounded by a check before it. Reads are checked, so that
    a walk that leaves the blob is `none`. Allocation is taken to succeed. -/

namespace FlakeWm.XSettings

open Bytes

/-- A C string: bytes without the terminator. -/
structure CString where
  bytes : List UInt8
  noNul : (0 : UInt8) ∉ bytes

def strlen (s : CString) : ℕ := s.bytes.length

inductive SettingType where
  | integer
  | string
  | color
  deriving DecidableEq, Repr

def SettingType.code : SettingType → UInt8
  | .integer => 0
  | .string => 1
  | .color => 2

/-- The cases of the `switch` on the type byte; `none` is its `default`. -/
def SettingType.ofCode (b : UInt8) : Option SettingType :=
  if b = 0 then some .integer
  else if b = 1 then some .string
  else if b = 2 then some .color
  else none

@[simp] theorem SettingType.ofCode_code (t : SettingType) : ofCode t.code = some t := by
  cases t <;> rfl

/-! ### The buffer -/

/-- The loop of `buffer_reserve`. -/
def growCap (cap need : ℕ) : ℕ :=
  if 0 < cap ∧ cap < need then growCap (cap * 2) need else cap
termination_by need - cap
decreasing_by omega

/-- The capacity after `buffer_reserve(buffer, add)`. -/
def reserveCap (cap len add : ℕ) : ℕ :=
  if len + add ≤ cap then cap else growCap (if cap = 0 then 256 else cap * 2) (len + add)

theorem le_growCap {cap need : ℕ} (h : 0 < cap) : need ≤ growCap cap need := by
  fun_induction growCap cap need with
  | case1 cap hc ih => exact ih (by omega)
  | case2 cap hc => omega

theorem growCap_le {cap need bound : ℕ} (h : cap ≤ bound) (hb : 2 * need ≤ bound) :
    growCap cap need ≤ bound := by
  fun_induction growCap cap need with
  | case1 cap hc ih => exact ih (by omega)
  | case2 cap hc => exact h

theorem le_reserveCap (cap len add : ℕ) : len + add ≤ reserveCap cap len add := by
  unfold reserveCap
  split_ifs with h h0
  · exact h
  · exact le_growCap (by omega)
  · exact le_growCap (by omega)

/-- `struct xsettings_buffer`: the bytes written so far fit the allocation, which is at most twice as
    large, so the capacity does not wrap while the blob stays below `2 ^ 62` bytes. -/
structure Buffer where
  data : List UInt8
  cap : ℕ
  fits : data.length ≤ cap
  bounded : cap ≤ max 256 (2 * data.length)

def Buffer.empty : Buffer := ⟨[], 0, by simp, by simp⟩

def bufferAppend (b : Buffer) (bs : List UInt8) : Buffer where
  data := b.data ++ bs
  cap := reserveCap b.cap b.data.length bs.length
  fits := by
    rw [List.length_append]
    exact le_reserveCap _ _ _
  bounded := by
    have hb := b.bounded
    rw [List.length_append]
    unfold reserveCap
    split_ifs with h h0
    · omega
    · exact growCap_le (by omega) (by omega)
    · exact growCap_le (by omega) (by omega)

def bufferAppendZeroes (b : Buffer) (n : ℕ) : Buffer := bufferAppend b (List.replicate n 0)

def bufferAppendU8 (b : Buffer) (v : UInt8) : Buffer := bufferAppend b [v]

def bufferAppendU16 (order : ByteOrder) (b : Buffer) (v : ℕ) : Buffer :=
  bufferAppend b (encode order 2 v)

def bufferAppendU32 (order : ByteOrder) (b : Buffer) (v : ℕ) : Buffer :=
  bufferAppend b (encode order 4 v)

/-- The zeroes that bring `size` to a multiple of four. -/
def padding (size : ℕ) : ℕ := (4 - size % 4) % 4

def bufferAppendPadding (b : Buffer) (size : ℕ) : Buffer := bufferAppendZeroes b (padding size)

/-! ### Building a blob -/

/-- `XCB_IMAGE_ORDER_LSB_FIRST` or `XCB_IMAGE_ORDER_MSB_FIRST`. -/
def byteOrderCode : ByteOrder → UInt8
  | .little => 0
  | .big => 1

def xsettingsAppendHeader (order : ByteOrder) (b : Buffer) (serial count : UInt32) : Buffer :=
  let b := bufferAppendU8 b (byteOrderCode order)
  let b := bufferAppendZeroes b 3
  let b := bufferAppendU32 order b serial.toNat
  bufferAppendU32 order b count.toNat

def xsettingsAppendEntryHeader (order : ByteOrder) (b : Buffer) (type : SettingType)
    (name : CString) (serial : UInt32) : Buffer :=
  let nameLen := strlen name % 2 ^ 16
  let b := bufferAppendU8 b type.code
  let b := bufferAppendU8 b 0
  let b := bufferAppendU16 order b nameLen
  let b := bufferAppend b (name.bytes.take nameLen)
  let b := bufferAppendPadding b nameLen
  bufferAppendU32 order b serial.toNat

def xsettingsAppendString (order : ByteOrder) (b : Buffer) (name value : CString)
    (serial : UInt32) : Buffer :=
  let valueLen := strlen value
  let b := xsettingsAppendEntryHeader order b .string name serial
  let b := bufferAppendU32 order b valueLen
  let b := bufferAppend b value.bytes
  bufferAppendPadding b valueLen

def xsettingsAppendInt (order : ByteOrder) (b : Buffer) (name : CString) (value : Int32)
    (serial : UInt32) : Buffer :=
  let b := xsettingsAppendEntryHeader order b .integer name serial
  bufferAppendU32 order b value.toUInt32.toNat

/-- The values that flake-wm publishes. -/
inductive SettingValue where
  | string (value : CString)
  | int (value : Int32)

structure Setting where
  name : CString
  value : SettingValue
  serial : UInt32

def appendSetting (order : ByteOrder) (b : Buffer) (s : Setting) : Buffer :=
  match s.value with
  | .string value => xsettingsAppendString order b s.name value s.serial
  | .int value => xsettingsAppendInt order b s.name value s.serial

/-- A header with the number of settings, then every setting. -/
def buildXsettings (order : ByteOrder) (serial : UInt32) (settings : List Setting) : Buffer :=
  settings.foldl (appendSetting order)
    (xsettingsAppendHeader order .empty serial (UInt32.ofNat settings.length))

/-! ### Walking a blob -/

/-- Subtraction of `size_t` values. -/
def sizeSub (a b : ℕ) : ℕ := (a + 2 ^ 64 - b) % 2 ^ 64

/-- The size of the value at `offset`; the inner `none` is a malformed value. -/
def scanValue (order : ByteOrder) (data : List UInt8) (type : UInt8) (offset : ℕ) :
    Option (Option ℕ) :=
  match SettingType.ofCode type with
  | some .integer => some (some 4)
  | some .string =>
    if sizeSub data.length offset < 4 then some none
    else do
      let stringLen ← readUInt order 4 data offset
      if stringLen > data.length then some none
      else some (some ((4 + stringLen + padding stringLen) % 2 ^ 32))
  | some .color => some (some 8)
  | none => some none

/-- The `memcmp` of the entry name at `offset`, made when the lengths agree. -/
def nameHit (data : List UInt8) (name : CString) (offset n : ℕ) : Option Bool :=
  if n = strlen name then (readBytes data offset (strlen name)).map (· == name.bytes)
  else some false

/-- The last check of a round: the value, of the given size, lies in the blob. -/
def scanEnd (len offset : ℕ) (hit : Bool) : Option ℕ → Option (Option (Bool × ℕ))
  | none => some none
  | some valueLen =>
    if sizeSub len offset < valueLen then some none else some (some (hit, offset + valueLen))

/-- One round of the loop of `xsettings_scan`: whether the entry at `offset` has the name, and where
    it ends. The inner `none` is a malformed entry. -/
def scanEntry (order : ByteOrder) (data : List UInt8) (name : CString) (offset : ℕ) :
    Option (Option (Bool × ℕ)) :=
  let len := data.length
  if sizeSub len offset < 4 then some none
  else do
    let type ← data[offset]?
    let entryNameLen ← readUInt order 2 data (offset + 2)
    let offset := offset + 4
    let paddedNameLen := entryNameLen + padding entryNameLen
    if sizeSub len offset < paddedNameLen + 4 then some none
    else
      let hit ← nameHit data name offset entryNameLen
      let offset := offset + (paddedNameLen + 4)
      let value ← scanValue order data type offset
      scanEnd len offset hit value

def scanEntries (order : ByteOrder) (data : List UInt8) (name : CString) :
    ℕ → ℕ → Bool → Option (Option (Bool × ℕ))
  | 0, offset, found => some (some (found, offset))
  | n + 1, offset, found => do
    match ← scanEntry order data name offset with
    | none => some none
    | some (hit, offset) => scanEntries order data name n offset (found || hit)

/-- `none` is a read at or past the end of `data`, `some none` a blob that is rejected, and
    `some (some (found, end))` an accepted one with its two out parameters. -/
def xsettingsScan (order : ByteOrder) (data : List UInt8) (name : CString) :
    Option (Option (Bool × ℕ)) :=
  if data.length < 12 then some none
  else do
    let count ← readUInt order 4 data 8
    scanEntries order data name count 12 false

/-! ### Patching the blob of another manager -/

abbrev Atom := ℕ
abbrev Window := ℕ

/-- A reply of `xcb_get_property`, whose value length is an `int`. -/
structure PropertyReply where
  type : Atom
  format : ℕ
  value : List UInt8
  value_length : value.length < 2 ^ 31

/-- `memcpy(data + at, bs, ..)` into a byte string that is long enough. -/
def overwrite (data : List UInt8) (i : ℕ) (bs : List UInt8) : List UInt8 :=
  data.take i ++ bs ++ data.drop (i + bs.length)

def bytesOf (cs : List Char) : List UInt8 := cs.map fun c => UInt8.ofNat c.toNat

def gtkIMModule : CString :=
  ⟨bytesOf ['G', 't', 'k', '/', 'I', 'M', 'M', 'o', 'd', 'u', 'l', 'e'], by decide⟩

/-- What `patch_foreign_settings` writes to the settings property of the window of the other manager,
    if anything. `none` is a read out of the bounds of the reply. -/
def patchForeignSettings (order : ByteOrder) (settingsAtom : Atom) (module : Option CString)
    (foreignOwner : Option Window) (reply : Option PropertyReply) :
    Option (Option (List UInt8)) :=
  match module, foreignOwner, reply with
  | some module, some _, some reply =>
    let data := reply.value
    if reply.type ≠ settingsAtom ∨ reply.format ≠ 8 ∨ data.length < 12 then some none
    else do
      let order₀ ← data[0]?
      if order₀ ≠ byteOrderCode order then some none
      else
        match ← xsettingsScan order data gtkIMModule with
        | none => some none
        | some (true, _) => some none
        | some (false, endOffset) =>
          let serial ← readUInt order 4 data 4
          let count ← readUInt order 4 data 8
          let count := (count + 1) % 2 ^ 32
          let head ← readBytes data 0 endOffset
          let b := bufferAppend .empty head
          let b := xsettingsAppendString order b gtkIMModule module (UInt32.ofNat serial)
          some (some (overwrite b.data 8 (encode order 4 count)))
  | _, _, _ => some none

end FlakeWm.XSettings
