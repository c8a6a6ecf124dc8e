import FlakeWm.Hashing.Model
import Mathlib.Data.List.GetD
import Mathlib.NumberTheory.LucasPrimality
import Mathlib.Tactic.NormNum.Prime
import Mathlib.Tactic.ReduceModChar

/-! The sizes of a hash table and the probes in it.

    Every size is a prime and every step of a probe is smaller, so a probe gets to every slot. This
    needs the addresses to be added without overflow, which `fits` says: it holds for every size but
    the largest, and there for the hashes that give a small step. -/

namespace FlakeWm.Hashing

open Probing

variable {κ δ : Type*} {i : ℕ} {hash : UInt32}

/-! ### Primes -/

/-- Lucas' test with the prime factors of `p - 1` listed. -/
theorem prime_of_factors {p : ℕ} (a : ZMod p) (factors : List ℕ)
    (hprime : ∀ q ∈ factors, q.Prime) (hprod : p - 1 = factors.prod) (hone : a ^ (p - 1) = 1)
    (hne : ∀ q ∈ factors, a ^ ((p - 1) / q) ≠ 1) : p.Prime := by
  refine lucas_primality p a hone ?_
  intro q hq hdvd
  rw [hprod, hq.prime.dvd_prod_iff] at hdvd
  obtain ⟨r, hr, hqr⟩ := hdvd
  obtain rfl := (Nat.prime_dvd_prime_iff_eq hq (hprime r hr)).1 hqr
  exact hne q hr

theorem prime_295279081 : Nat.Prime 295279081 := by
  refine prime_of_factors 7 [2, 2, 2, 3, 5, 2460659] (by norm_num) (by norm_num) ?_ ?_
  · norm_num
    reduce_mod_char
  · norm_num
    refine ⟨?_, ?_, ?_⟩ <;> reduce_mod_char <;> decide

theorem prime_590559793 : Nat.Prime 590559793 := by
  refine prime_of_factors 5 [2, 2, 2, 2, 3, 59, 151, 1381] (by norm_num) (by norm_num) ?_ ?_
  · norm_num
    reduce_mod_char
  · norm_num
    refine ⟨?_, ?_, ?_, ?_, ?_⟩ <;> reduce_mod_char <;> decide

theorem prime_1181116273 : Nat.Prime 1181116273 := by
  refine prime_of_factors 5 [2, 2, 2, 2, 3, 7, 557, 6311] (by norm_num) (by norm_num) ?_ ?_
  · norm_num
    reduce_mod_char
  · norm_num
    refine ⟨?_, ?_, ?_, ?_, ?_⟩ <;> reduce_mod_char <;> decide

theorem prime_2362232233 : Nat.Prime 2362232233 := by
  refine prime_of_factors 10 [2, 2, 2, 3, 3, 3727, 8803] (by norm_num) (by norm_num) ?_ ?_
  · norm_num
    reduce_mod_char
  · norm_num
    refine ⟨?_, ?_, ?_, ?_⟩ <;> reduce_mod_char <;> decide

theorem hashSizes_prime : ∀ s ∈ hashSizes, s.size.Prime := by
  simp only [hashSizes, List.forall_mem_cons, List.not_mem_nil, false_imp_iff, implies_true,
    and_true]
  -- `norm_num` finds the primes below `2 ^ 28`
  and_intros <;>
    first
      | exact prime_295279081
      | exact prime_590559793
      | exact prime_1181116273
      | exact prime_2362232233
      | norm_num

/-! ### Sizes -/

/-- What the table of sizes promises about one of them. -/
structure SizeOk (s : HashSize) : Prop where
  prime : s.size.Prime
  rehash : 0 < s.rehash ∧ s.rehash + 2 = s.size
  roomy : 0 < s.maxEntries ∧ s.maxEntries < s.size
  word : s.size < 2 ^ 32

theorem hashSize_ok (hi : i < hashSizes.length) : SizeOk (hashSize i) := by
  have hmem : hashSize i ∈ hashSizes := by
    rw [hashSize, List.getD_eq_getElem _ _ hi]
    exact List.getElem_mem hi
  have hall : ∀ s ∈ hashSizes, (0 < s.rehash ∧ s.rehash + 2 = s.size) ∧
      (0 < s.maxEntries ∧ s.maxEntries < s.size) ∧ s.size < 2 ^ 32 := by decide
  obtain ⟨hrehash, hroomy, hword⟩ := hall _ hmem
  exact ⟨hashSizes_prime _ hmem, hrehash, hroomy, hword⟩

theorem doubleHash_bounds (hi : i < hashSizes.length) (hash : UInt32) :
    0 < doubleHash i hash ∧ doubleHash i hash < (hashSize i).size := by
  obtain ⟨hpos, hrehash⟩ := (hashSize_ok hi).rehash
  have hlt := Nat.mod_lt hash.toNat hpos
  unfold doubleHash
  omega

theorem startAddress_lt (hi : i < hashSizes.length) (hash : UInt32) :
    startAddress i hash < (hashSize i).size :=
  Nat.mod_lt _ (hashSize_ok hi).prime.pos

theorem coprime_doubleHash (hi : i < hashSizes.length) (hash : UInt32) :
    (hashSize i).size.Coprime (doubleHash i hash) := by
  obtain ⟨hpos, hlt⟩ := doubleHash_bounds hi hash
  exact (hashSize_ok hi).prime.coprime_iff_not_dvd.2 (Nat.not_dvd_of_pos_of_lt hpos hlt)

/-! ### Probes -/

/-- No address of a probe overflows. -/
def fits (i : ℕ) (hash : UInt32) : Bool :=
  decide ((hashSize i).size + doubleHash i hash ≤ 2 ^ 32)

theorem nextAddress_eq (hfits : fits i hash = true) {a : ℕ} (ha : a < (hashSize i).size)
    (hi : i < hashSizes.length) :
    nextAddress i hash a = (a + doubleHash i hash) % (hashSize i).size := by
  obtain ⟨-, hlt⟩ := doubleHash_bounds hi hash
  rw [fits, decide_eq_true_iff] at hfits
  unfold nextAddress
  dsimp only
  rw [Nat.mod_eq_of_lt (by omega)]
  split_ifs with hge
  · rw [Nat.mod_eq_sub_mod hge, Nat.mod_eq_of_lt (by omega)]
  · rw [Nat.mod_eq_of_lt (by omega)]

/-- The addresses a probe for a hash visits. -/
def hashPath (i : ℕ) (hash : UInt32) : List ℕ :=
  path (hashSize i).size (startAddress i hash) (doubleHash i hash)

theorem mem_hashPath (hi : i < hashSizes.length) {x : ℕ} :
    x ∈ hashPath i hash ↔ x < (hashSize i).size :=
  mem_path (hashSize_ok hi).prime.pos (coprime_doubleHash hi hash)

theorem hashPath_circuit (hi : i < hashSizes.length) (hfits : fits i hash = true) :
    Circuit (nextAddress i hash) (startAddress i hash) (hashPath i hash) :=
  path_circuit (coprime_doubleHash hi hash) (startAddress_lt hi hash)
    fun _ ha => nextAddress_eq hfits ha hi

theorem hashPath_head (hi : i < hashSizes.length) :
    ∃ rest, hashPath i hash = startAddress i hash :: rest := by
  obtain ⟨m, hm⟩ : ∃ m, (hashSize i).size = m + 1 :=
    ⟨(hashSize i).size - 1, by have := (hashSize_ok hi).prime.pos; omega⟩
  rw [hashPath, path, hm, List.range_succ_eq_map, List.map_cons, ← hm,
    probe_zero (startAddress_lt hi hash)]
  exact ⟨_, rfl⟩

theorem hashPath_length : (hashPath i hash).length = (hashSize i).size := by
  rw [hashPath, path, List.length_map, List.length_range]

/-! ### Loops -/

section Loops

variable {T : Table (Entry κ δ)} {found : Entry κ δ → Bool} {next : ℕ → ℕ} {start : ℕ}

/-- `hash_table_insert_rehash` does not stop where it started, so it needs a free slot to end. -/
theorem insertLoop_circuit {path : List ℕ} (h : Circuit next start path) :
    ∀ {x rest fuel y}, path = x :: rest → path.length ≤ fuel → y ∈ path → T y = .free →
      insertLoop T next fuel x = firstFree T path := by
  induction h with
  | last x hx =>
      rintro _ _ (_ | fuel) y ⟨rfl, rfl⟩ hfuel hmem hfree
      · cases hfuel
      · obtain rfl := List.mem_singleton.1 hmem
        rw [insertLoop, firstFree, hfree]
  | cons x z l hxz hz _ ih =>
      rintro _ _ (_ | fuel) y ⟨rfl, rfl⟩ hfuel hmem hfree
      · cases hfuel
      · have hrest := fun hmem => ih rfl (Nat.le_of_succ_le_succ hfuel) hmem hfree
        rw [insertLoop, firstFree, hxz]
        rcases List.mem_cons.1 hmem with rfl | hmem
        · rw [hfree]
        · rw [hrest hmem]
          cases T x <;> rfl

end Loops

theorem size_le_turns (hi : i < hashSizes.length) : (hashPath i hash).length ≤ turns := by
  rw [hashPath_length]
  exact (hashSize_ok hi).word.le

/-- An entry of the old table gets the first free slot of its path. -/
theorem hashTableInsertRehash_eq {T : Table (Entry κ δ)} {entry : Entry κ δ} {y : ℕ}
    (hi : i < hashSizes.length) (hfits : fits i entry.hash = true) (hy : y < (hashSize i).size)
    (hfree : T y = .free) :
    ∃ x, firstFree T (hashPath i entry.hash) = some x ∧
      hashTableInsertRehash i T entry = some (Function.update T x (.full entry)) := by
  have hmem : y ∈ hashPath i entry.hash := (mem_hashPath hi).2 hy
  obtain ⟨x, hx⟩ := firstFree_complete hfree hmem
  obtain ⟨rest, hpath⟩ := @hashPath_head _ entry.hash hi
  refine ⟨x, hx, ?_⟩
  rw [hashTableInsertRehash, insertLoop_circuit (hashPath_circuit hi hfits) hpath
    (size_le_turns hi) hmem hfree, hx, Option.map_some]

end FlakeWm.Hashing
