import FlakeWm.Hashing.Entries

/-! Iterating over a hash table and rebuilding it.

    `hash_table_for_each` visits the full slots in order, which makes it the list of the entries;
    `hash_table_rehash` puts them one by one into a table without deleted slots. -/

namespace FlakeWm.Hashing

open Probing

variable {κ δ : Type*} {f : Funcs κ} {i : ℕ} {T : Table (Entry κ δ)} {ht : HashTable κ δ}

/-! ### Iteration -/

/-- The full slots among the `n` from `a` on. -/
def fullFrom (T : Table (Entry κ δ)) (a n : ℕ) : List ℕ :=
  (List.range' a n).filter fun x => (T x).isFull

theorem mem_fullFrom {n x : ℕ} : x ∈ fullFrom T 0 n ↔ x < n ∧ ∃ e, T x = .full e := by
  rw [fullFrom, List.mem_filter, ← List.range_eq_range', List.mem_range, isFull_iff]

theorem fullFrom_nodup (n : ℕ) : (fullFrom T 0 n).Nodup := List.Nodup.filter _ List.nodup_range'

theorem count_full (n : ℕ) (T : Table (Entry κ δ)) :
    count Slot.isFull n T = (fullFrom T 0 n).length := by
  rw [count, ← List.toFinset_card_of_nodup (fullFrom_nodup n)]
  congr 1
  ext x
  rw [Finset.mem_filter, Finset.mem_range, List.mem_toFinset, mem_fullFrom, isFull_iff]

/-- A table without deleted slots that holds `done`. -/
structure Built (f : Funcs κ) (i : ℕ) (done : List (Entry κ δ)) (T : Table (Entry κ δ)) : Prop where
  core : Core f i T
  clean : ∀ x, T x ≠ .deleted
  holds : ∀ e, Holds T e ↔ e ∈ done
  number : count Slot.isFull (hashSize i).size T = done.length

/-- Putting one more entry in, while there is room. -/
theorem Built.insert {done : List (Entry κ δ)} (h : Built f i done T) (hf : Lawful f)
    (hi : i < hashSizes.length) {e : Entry κ δ} (hhash : e.hash = f.hash e.key)
    (hfits : fits i e.hash = true) (hnew : ∀ e' ∈ done, f.equal e.key e'.key = false)
    (hroom : done.length < (hashSize i).size) :
    ∃ T', hashTableInsertRehash i T e = some T' ∧ Built f i (done ++ [e]) T' := by
  obtain ⟨y, hy, hnot⟩ := exists_of_count_lt (h.number ▸ hroom)
  have hfree : T y = .free := by
    cases hT : T y with
    | free => rfl
    | deleted => exact absurd hT (h.clean y)
    | full a => simp [hT, Slot.isFull] at hnot
  obtain ⟨x, hx, hinsert⟩ := hashTableInsertRehash_eq hi hfits hy hfree
  obtain ⟨hchain, hxfree⟩ := firstFree_sound hx
  have hxlt : x < (hashSize i).size := (mem_hashPath hi).1 hchain.mem
  have hfresh : ∀ z e', z ≠ x → T z = .full e' → f.equal e.key e'.key = false :=
    fun z e' _ hz => hnew e' ((h.holds e').1 ⟨z, hz⟩)
  refine ⟨_, hinsert, h.core.write hf hxlt hchain hhash hfits hfresh, ?_, ?_, ?_⟩
  · intro z
    rcases eq_or_ne z x with rfl | hne
    · simp
    · rw [Function.update_of_ne hne]
      exact h.clean z
  · intro e'
    rw [holds_write, List.mem_append, List.mem_singleton, ← h.holds e', or_comm]
    refine or_congr_left ⟨?_, ?_⟩
    · rintro ⟨z, -, hz⟩
      exact ⟨z, hz⟩
    · rintro ⟨z, hz⟩
      refine ⟨z, ?_, hz⟩
      rintro rfl
      rw [hxfree] at hz
      cases hz
  · have hcount := count_update Slot.isFull hxlt T (.full e)
    rw [hxfree, h.number] at hcount
    simpa [Slot.isFull] using hcount

/-- The slots, the counters and the size of a table agree. -/
structure Valid (f : Funcs κ) (ht : HashTable κ δ) : Prop where
  index : ht.sizeIndex < hashSizes.length
  core : Core f ht.sizeIndex ht.table
  entries : ht.entries = count Slot.isFull ht.size ht.table
  deleted : ht.deletedEntries = count Slot.isDeleted ht.size ht.table
  room : ht.entries + ht.deletedEntries ≤ ht.maxEntries

end FlakeWm.Hashing
