import Mathlib.Data.List.Basic
import Mathlib.Tactic.Ring

/-! Byte strings: fixed-width integers in host byte order, and reads with a bounds check.

    `encode order k n` are the `k` bytes that `memcpy` of an unsigned integer writes, and `decode`
    reads them back. `readBytes` is the memory access of a parser: it is `none` exactly when the
    access leaves the byte string. Two byte strings that `Agree` on a range give the same reads
    inside it. -/

namespace FlakeWm

/-- The byte order of the host. -/
inductive ByteOrder where
  | little
  | big
  deriving DecidableEq, Repr

namespace Bytes

/-- The `k` low bytes of `n`, least significant first. -/
def lowBytes : ℕ → ℕ → List UInt8
  | 0, _ => []
  | k + 1, n => UInt8.ofNat n :: lowBytes k (n / 256)

/-- The number whose bytes are given, least significant first. -/
def value : List UInt8 → ℕ
  | [] => 0
  | b :: bs => b.toNat + 256 * value bs

/-- The `k` bytes of `n` in memory. -/
def encode (order : ByteOrder) (k n : ℕ) : List UInt8 :=
  match order with
  | .little => lowBytes k n
  | .big => (lowBytes k n).reverse

/-- The number that bytes in memory stand for. -/
def decode (order : ByteOrder) (bs : List UInt8) : ℕ :=
  match order with
  | .little => value bs
  | .big => value bs.reverse

theorem length_lowBytes : ∀ k n, (lowBytes k n).length = k
  | 0, _ => rfl
  | k + 1, n => by rw [lowBytes, List.length_cons, length_lowBytes k]

@[simp] theorem length_encode (order : ByteOrder) (k n : ℕ) : (encode order k n).length = k := by
  cases order <;> simp [encode, length_lowBytes]

theorem value_lowBytes : ∀ k n, value (lowBytes k n) = n % 256 ^ k
  | 0, n => by simp [lowBytes, value, Nat.mod_one]
  | k + 1, n => by
      have hb : (UInt8.ofNat n).toNat = n % 256 := UInt8.toNat_ofNat'
      rw [lowBytes, value, value_lowBytes k, hb, pow_succ', Nat.mod_mul]

/-- What is written is read back, up to the width. -/
theorem decode_encode (order : ByteOrder) (k n : ℕ) :
    decode order (encode order k n) = n % 256 ^ k := by
  cases order <;> simp [encode, decode, value_lowBytes]

theorem value_lt : ∀ bs : List UInt8, value bs < 256 ^ bs.length
  | [] => by simp [value]
  | b :: bs => by
      have hb : b.toNat < 256 := b.toNat_lt
      have hbs := value_lt bs
      rw [value, List.length_cons, pow_succ]
      omega

theorem decode_lt (order : ByteOrder) (bs : List UInt8) : decode order bs < 256 ^ bs.length := by
  cases order
  · exact value_lt bs
  · simpa [decode] using value_lt bs.reverse

/-! ### Reads -/

/-- A read of `k` bytes at `i`; `none` when it leaves the byte string. -/
def readBytes (data : List UInt8) (i k : ℕ) : Option (List UInt8) :=
  if i + k ≤ data.length then some ((data.drop i).take k) else none

/-- A read of a `k`-byte unsigned integer at `i`. -/
def readUInt (order : ByteOrder) (k : ℕ) (data : List UInt8) (i : ℕ) : Option ℕ :=
  (readBytes data i k).map (decode order)

theorem readBytes_of_le {data : List UInt8} {i k : ℕ} (h : i + k ≤ data.length) :
    readBytes data i k = some ((data.drop i).take k) := by
  rw [readBytes, if_pos h]

theorem length_of_readBytes {data bs : List UInt8} {i k : ℕ} (h : readBytes data i k = some bs) :
    bs.length = k ∧ i + k ≤ data.length := by
  rw [readBytes, Option.ite_none_right_eq_some, Option.some.injEq] at h
  obtain ⟨hle, rfl⟩ := h
  refine ⟨?_, hle⟩
  rw [List.length_take, List.length_drop]
  omega

/-- An integer inside the byte string can be read, and fits its width. -/
theorem readUInt_of_le (order : ByteOrder) {data : List UInt8} {i k : ℕ}
    (h : i + k ≤ data.length) : ∃ n, readUInt order k data i = some n ∧ n < 256 ^ k := by
  refine ⟨_, by rw [readUInt, readBytes_of_le h]; rfl, ?_⟩
  have hlen := (length_of_readBytes (readBytes_of_le h)).1
  have hlt := decode_lt order ((data.drop i).take k)
  rwa [hlen] at hlt

theorem readBytes_append (pre bs post : List UInt8) :
    readBytes (pre ++ (bs ++ post)) pre.length bs.length = some bs := by
  rw [readBytes_of_le (by simp)]
  simp

theorem readUInt_append (order : ByteOrder) (pre post : List UInt8) (k n : ℕ) :
    readUInt order k (pre ++ (encode order k n ++ post)) pre.length = some (n % 256 ^ k) := by
  have h := readBytes_append pre (encode order k n) post
  rw [length_encode] at h
  rw [readUInt, h, Option.map_some, decode_encode]

/-! ### Agreement on a range -/

/-- The two byte strings hold the same bytes at the offsets from `a` up to `e`. -/
def Agree (a e : ℕ) (d d' : List UInt8) : Prop := ∀ i, a ≤ i → i < e → d[i]? = d'[i]?

theorem Agree.mono {a a' e e' : ℕ} {d d' : List UInt8} (h : Agree a e d d') (ha : a ≤ a')
    (he : e' ≤ e) : Agree a' e' d d' :=
  fun i hi hi' => h i (ha.trans hi) (lt_of_lt_of_le hi' he)

/-- Reads inside the common range are the same. -/
theorem Agree.readBytes {a e i k : ℕ} {d d' : List UInt8} (h : Agree a e d d') (ha : a ≤ i)
    (he : i + k ≤ e) (hd : e ≤ d.length) (hd' : e ≤ d'.length) :
    Bytes.readBytes d' i k = Bytes.readBytes d i k := by
  rw [readBytes_of_le (he.trans hd), readBytes_of_le (he.trans hd')]
  congr 1
  apply List.ext_getElem?
  intro j
  rcases lt_or_ge j k with hj | hj
  · rw [List.getElem?_take_of_lt hj, List.getElem?_take_of_lt hj, List.getElem?_drop,
      List.getElem?_drop]
    exact (h (i + j) (by omega) (by omega)).symm
  · rw [List.getElem?_take_eq_none hj, List.getElem?_take_eq_none hj]

theorem Agree.readUInt {a e i k : ℕ} {d d' : List UInt8} (h : Agree a e d d')
    (order : ByteOrder) (ha : a ≤ i) (he : i + k ≤ e) (hd : e ≤ d.length) (hd' : e ≤ d'.length) :
    Bytes.readUInt order k d' i = Bytes.readUInt order k d i := by
  rw [Bytes.readUInt, Bytes.readUInt, h.readBytes ha he hd hd']

end Bytes

end FlakeWm
