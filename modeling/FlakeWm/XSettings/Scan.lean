import FlakeWm.XSettings.Model

/-! What a walk over a blob reads.

    `EntryAt` lists the facts under which one round of `xsettings_scan` accepts an entry. A round on
    any bytes either rejects or finds such an entry, and never leaves the blob; an entry is accepted
    again in every other blob that holds the same bytes there. -/

namespace FlakeWm.XSettings

open Bytes

variable {order : ByteOrder} {data data' : List UInt8} {name : CString}

theorem sizeSub_of_le {a b : ℕ} (h : b ≤ a) (ha : a < 2 ^ 64) : sizeSub a b = a - b := by
  rw [sizeSub, Nat.add_comm, Nat.add_sub_assoc h, Nat.add_mod_left, Nat.mod_eq_of_lt]
  exact lt_of_le_of_lt (Nat.sub_le a b) ha

attribute [local irreducible] sizeSub

theorem padding_lt (size : ℕ) : padding size < 4 := by
  unfold padding
  omega

/-- The offset of the value of an entry at `offset` whose name has `n` bytes. -/
def valueOffset (offset n : ℕ) : ℕ := offset + 4 + (n + padding n + 4)

/-- An entry of the given type, name length and value size, that lies in the blob. -/
structure EntryAt (order : ByteOrder) (data : List UInt8) (name : CString) (offset : ℕ)
    (type : UInt8) (n v : ℕ) (hit : Bool) : Prop where
  type_eq : data[offset]? = some type
  nameLen : readUInt order 2 data (offset + 2) = some n
  name_eq : nameHit data name (offset + 4) n = some hit
  value : scanValue order data type (valueOffset offset n) = some (some v)
  room : valueOffset offset n + v ≤ data.length

/-- A round whose header and name lie in the blob. -/
theorem scanEntry_eq {offset n : ℕ} {type : UInt8} {hit : Bool} {r : Option ℕ}
    (h4 : offset + 4 ≤ data.length) (hval : valueOffset offset n ≤ data.length)
    (hlen : data.length < 2 ^ 64) (ht : data[offset]? = some type)
    (hn : readUInt order 2 data (offset + 2) = some n)
    (hname : nameHit data name (offset + 4) n = some hit)
    (hr : scanValue order data type (valueOffset offset n) = some r) :
    scanEntry order data name offset = scanEnd data.length (valueOffset offset n) hit r := by
  have h1 : ¬ sizeSub data.length offset < 4 := by
    rw [sizeSub_of_le (by omega) hlen]
    omega
  have h2 : ¬ sizeSub data.length (offset + 4) < n + padding n + 4 := by
    rw [sizeSub_of_le h4 hlen]
    unfold valueOffset at hval
    omega
  unfold valueOffset at hr ⊢
  unfold scanEntry
  simp only []
  rw [if_neg h1, ht, Option.bind_eq_bind, Option.bind_some, hn, Option.bind_eq_bind,
    Option.bind_some, if_neg h2, hname, Option.bind_eq_bind, Option.bind_some, hr,
    Option.bind_eq_bind, Option.bind_some]

/-- An entry is accepted, and the walk goes on behind it. -/
theorem EntryAt.scan {offset n v : ℕ} {type : UInt8} {hit : Bool}
    (h : EntryAt order data name offset type n v hit) (hlen : data.length < 2 ^ 64) :
    scanEntry order data name offset = some (some (hit, valueOffset offset n + v)) := by
  obtain ⟨ht, hn, hname, hv, hroom⟩ := h
  have hpos : offset + 4 ≤ valueOffset offset n := by
    unfold valueOffset
    omega
  rw [scanEntry_eq (by omega) (by omega) hlen ht hn hname hv, scanEnd,
    sizeSub_of_le (by omega) hlen, if_neg (by omega)]

theorem scanValue_isSome (order : ByteOrder) (type : UInt8) {offset : ℕ} (hoff : offset ≤ data.length)
    (hlen : data.length < 2 ^ 64) : ∃ r, scanValue order data type offset = some r := by
  unfold scanValue
  split
  · exact ⟨_, rfl⟩
  · split_ifs with h4
    · exact ⟨_, rfl⟩
    · rw [sizeSub_of_le hoff hlen] at h4
      obtain ⟨n, hn, _⟩ := readUInt_of_le order (by omega : offset + 4 ≤ data.length)
      rw [hn]
      simp only [Option.bind_eq_bind, Option.bind_some]
      split_ifs
      · exact ⟨_, rfl⟩
      · exact ⟨_, rfl⟩
  · exact ⟨_, rfl⟩
  · exact ⟨_, rfl⟩

/-- A round on any bytes rejects, or finds an entry that lies in the blob. -/
theorem scanEntry_cases (order : ByteOrder) (name : CString) {offset : ℕ} (hoff : offset ≤ data.length) (hlen : data.length < 2 ^ 64) :
    scanEntry order data name offset = some none ∨
    ∃ type n v hit, EntryAt order data name offset type n v hit := by
  by_cases h1 : sizeSub data.length offset < 4
  · refine .inl ?_
    unfold scanEntry
    rw [if_pos h1]
  have h4 : offset + 4 ≤ data.length := by
    rw [sizeSub_of_le hoff hlen] at h1
    omega
  obtain ⟨n, hn, -⟩ := readUInt_of_le order (by omega : offset + 2 + 2 ≤ data.length)
  have ht : data[offset]? = some (data.get ⟨offset, by omega⟩) :=
    List.getElem?_eq_getElem (by omega)
  by_cases h2 : sizeSub data.length (offset + 4) < n + padding n + 4
  · refine .inl ?_
    unfold scanEntry
    simp only []
    rw [if_neg h1, ht, Option.bind_eq_bind, Option.bind_some, hn, Option.bind_eq_bind,
      Option.bind_some, if_pos h2]
  have hval : valueOffset offset n ≤ data.length := by
    rw [sizeSub_of_le h4 hlen] at h2
    unfold valueOffset
    omega
  obtain ⟨hit, hname⟩ : ∃ hit, nameHit data name (offset + 4) n = some hit := by
    unfold nameHit
    split_ifs with heq
    · unfold valueOffset at hval
      rw [readBytes_of_le (by omega)]
      exact ⟨_, rfl⟩
    · exact ⟨_, rfl⟩
  obtain ⟨r, hr⟩ := scanValue_isSome order (data.get ⟨offset, by omega⟩) hval hlen
  have heq := scanEntry_eq h4 hval hlen ht hn hname hr
  rcases r with _ | v
  · exact .inl heq
  · by_cases h3 : data.length - valueOffset offset n < v
    · rw [scanEnd, sizeSub_of_le hval hlen, if_pos h3] at heq
      exact .inl heq
    · exact .inr ⟨_, n, v, hit, ht, hn, hname, hr, by omega⟩

/-- The walk from any offset inside the blob stays inside it, and each entry takes eight bytes. -/
theorem scanEntries_bounds (order : ByteOrder) (name : CString) (hlen : data.length < 2 ^ 64) : ∀ (count offset : ℕ) (found : Bool),
    offset ≤ data.length →
    scanEntries order data name count offset found = some none ∨
    ∃ found' e, scanEntries order data name count offset found = some (some (found', e)) ∧
      offset + 8 * count ≤ e ∧ e ≤ data.length
  | 0, offset, found, hoff => .inr ⟨found, offset, rfl, by omega, hoff⟩
  | count + 1, offset, found, hoff => by
      rcases scanEntry_cases order name hoff hlen with hs | ⟨t, n, v, hit, h⟩
      · exact .inl (by rw [scanEntries, hs]; rfl)
      · have hstep : scanEntries order data name (count + 1) offset found =
            scanEntries order data name count (valueOffset offset n + v) (found || hit) := by
          rw [scanEntries, h.scan hlen]
          rfl
        have hgrow : offset + 8 ≤ valueOffset offset n + v := by
          unfold valueOffset
          omega
        rw [hstep]
        rcases scanEntries_bounds order name hlen count _ (found || hit) h.room with hr | ⟨f, e, he, h1, h2⟩
        · exact .inl hr
        · exact .inr ⟨f, e, he, by omega, h2⟩

/-- An accepted walk ends inside the blob, behind all its entries. -/
theorem scanEntries_end {count offset e : ℕ} {found found' : Bool} (hlen : data.length < 2 ^ 64)
    (hoff : offset ≤ data.length)
    (h : scanEntries order data name count offset found = some (some (found', e))) :
    offset + 8 * count ≤ e ∧ e ≤ data.length := by
  rcases scanEntries_bounds order name hlen count offset found hoff with hr | ⟨f, e', hr, hb⟩
  · rw [hr] at h
    simp at h
  · rw [hr] at h
    simp only [Option.some.injEq, Prod.mk.injEq] at h
    rw [← h.2]
    exact hb

/-- No blob makes `xsettings_scan` read at or past its length. -/
theorem xsettingsScan_in_bounds (order : ByteOrder) (name : CString) {data : List UInt8}
    (hlen : data.length < 2 ^ 64) : ∃ r, xsettingsScan order data name = some r := by
  unfold xsettingsScan
  split_ifs with h12
  · exact ⟨_, rfl⟩
  · obtain ⟨count, hc, -⟩ := readUInt_of_le order (by omega : 8 + 4 ≤ data.length)
    rw [hc]
    simp only [Option.bind_eq_bind, Option.bind_some]
    rcases scanEntries_bounds order name hlen count 12 false (by omega) with
      h | ⟨f, e, h, -⟩
    · exact ⟨_, h⟩
    · exact ⟨_, h⟩

/-! ### Entries in another blob -/

/-- Below `2 ^ 31` bytes the size of a string value does not wrap. -/
theorem scanValue_agree {a e offset v : ℕ} {type : UInt8} (hag : Agree a e data data')
    (ha : a ≤ offset) (he : offset + v ≤ e) (hd : e ≤ data.length) (hd' : e ≤ data'.length)
    (hsmall : data.length < 2 ^ 31) (hlen : data'.length < 2 ^ 64)
    (h : scanValue order data type offset = some (some v)) :
    scanValue order data' type offset = some (some v) := by
  unfold scanValue at h ⊢
  cases ht : SettingType.ofCode type with
  | none => rw [ht] at h; simp at h
  | some t =>
    cases t with
    | integer => rw [ht] at h; exact h
    | color => rw [ht] at h; exact h
    | string =>
      rw [ht] at h
      simp only at h ⊢
      have h4 : ¬ sizeSub data.length offset < 4 := by
        intro h4
        rw [if_pos h4] at h
        simp at h
      rw [if_neg h4] at h
      rw [sizeSub_of_le (by omega) (by omega)] at h4
      obtain ⟨n, hn, hlt⟩ := readUInt_of_le order (by omega : offset + 4 ≤ data.length)
      rw [hn] at h
      simp only [Option.bind_eq_bind, Option.bind_some] at h
      have hle : ¬ n > data.length := by
        intro hgt
        rw [if_pos hgt] at h
        simp at h
      rw [if_neg hle] at h
      have hpad := padding_lt n
      have hv : 4 + n + padding n = v := by
        simp only [Option.some.injEq] at h
        omega
      have h4' : ¬ sizeSub data'.length offset < 4 := by
        rw [sizeSub_of_le (by omega) hlen]
        omega
      have hread : readUInt order 4 data' offset = some n := by
        rw [hag.readUInt order ha (by omega) hd hd', hn]
      rw [if_neg h4', hread]
      simp only [Option.bind_eq_bind, Option.bind_some]
      rw [if_neg (by omega)]
      exact h

/-- The same bytes in another blob are the same entry. -/
theorem EntryAt.agree {a e offset n v : ℕ} {type : UInt8} {hit : Bool}
    (h : EntryAt order data name offset type n v hit) (hag : Agree a e data data') (ha : a ≤ offset)
    (he : valueOffset offset n + v ≤ e) (hd : e ≤ data.length) (hd' : e ≤ data'.length)
    (hsmall : data.length < 2 ^ 31) (hlen : data'.length < 2 ^ 64) :
    EntryAt order data' name offset type n v hit := by
  obtain ⟨ht, hn, hname, hv, hroom⟩ := h
  have hval : offset + 4 + (n + padding n + 4) + v ≤ e := he
  refine ⟨?_, ?_, ?_, ?_, he.trans hd'⟩
  · rw [← hag offset ha (by omega)]
    exact ht
  · rw [hag.readUInt order (by omega) (by omega) hd hd']
    exact hn
  · unfold nameHit at hname ⊢
    split_ifs at hname ⊢ with heq
    · rw [hag.readBytes (by omega) (by omega) hd hd']
      exact hname
    · exact hname
  · exact scanValue_agree hag (by unfold valueOffset; omega) he hd hd' hsmall hlen hv

/-- An accepted walk is repeated in every blob that holds the same entries. -/
theorem scanEntries_agree {e : ℕ} {found' : Bool} (hd : e ≤ data.length) (hd' : e ≤ data'.length)
    (hsmall : data.length < 2 ^ 31) (hlen : data'.length < 2 ^ 64) :
    ∀ (count offset : ℕ) (found : Bool), offset ≤ data.length → Agree offset e data data' →
    scanEntries order data name count offset found = some (some (found', e)) →
    scanEntries order data' name count offset found = some (some (found', e))
  | 0, offset, found, _, _, h => h
  | count + 1, offset, found, hoff, hag, h => by
      have hlen₀ : data.length < 2 ^ 64 := by omega
      rcases scanEntry_cases order name hoff hlen₀ with hs | ⟨t, n, v, hit, hE⟩
      · rw [scanEntries, hs] at h
        simp at h
      · rw [scanEntries, hE.scan hlen₀] at h
        simp only [Option.bind_eq_bind, Option.bind_some] at h
        have hgrow : offset ≤ valueOffset offset n + v := by
          unfold valueOffset
          omega
        have hend : valueOffset offset n + v ≤ e := by
          have hb := scanEntries_end hlen₀ hE.room h
          omega
        have hE' := hE.agree hag le_rfl hend hd hd' hsmall hlen
        rw [scanEntries, hE'.scan hlen]
        simp only [Option.bind_eq_bind, Option.bind_some]
        exact scanEntries_agree hd hd' hsmall hlen count _ _ hE.room (hag.mono hgrow le_rfl) h

/-- Walking `m + k` entries is walking `m` and then `k`. -/
theorem scanEntries_add {e : ℕ} {found' : Bool} : ∀ (m k offset : ℕ) (found : Bool),
    scanEntries order data name m offset found = some (some (found', e)) →
    scanEntries order data name (m + k) offset found = scanEntries order data name k e found'
  | 0, k, offset, found, h => by
      simp only [scanEntries, Option.some.injEq, Prod.mk.injEq] at h
      rw [Nat.zero_add, h.1, h.2]
  | m + 1, k, offset, found, h => by
      rw [scanEntries] at h
      rw [Nat.succ_add, scanEntries]
      rcases hs : scanEntry order data name offset with _ | _ | ⟨hit, off⟩
      · rw [hs] at h; simp at h
      · rw [hs] at h; simp at h
      · rw [hs] at h
        exact scanEntries_add m k off _ h

end FlakeWm.XSettings
