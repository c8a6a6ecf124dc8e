import FlakeWm.Hashing.Rehash

/-! The hash table is a finite map.

    A run of calls is followed by the map it stands for, up to equal keys. In every state a search
    ends with the data of that map, an iteration visits each of its entries once, and every call
    ends. The calls must not make an address overflow: `suits` says that the table, at the size the
    call works with, is not so large for the hashes involved, which only the largest size can be. -/

namespace FlakeWm.Hashing

open Probing

variable {κ δ : Type*} {f : Funcs κ} {ht : HashTable κ δ}

/-! ### Making room -/

/-- The size index an insert works with. -/
def roomIndex (ht : HashTable κ δ) : ℕ :=
  if ht.entries ≥ ht.maxEntries then ht.sizeIndex + 1 else ht.sizeIndex

/-- The largest table takes all the entries there can be. -/
theorem grows (hindex : ht.sizeIndex < hashSizes.length) (hfew : ht.entries < 2 ^ 31)
    (hfull : ht.entries ≥ ht.maxEntries) : ht.sizeIndex + 1 < hashSizes.length := by
  have hlast : (hashSize 30).maxEntries = 2 ^ 31 := rfl
  rcases Nat.lt_or_ge (ht.sizeIndex + 1) hashSizes.length with h | h
  · exact h
  · have hindex : ht.sizeIndex = 30 := Nat.le_antisymm (Nat.le_of_lt_succ hindex)
      (Nat.le_of_succ_le_succ h)
    rw [HashTable.maxEntries, hindex, hlast] at hfull
    omega

/-- Nothing but deleted slots is left when their number reaches the limit. -/
theorem Valid.cleared (h : Valid f ht) (hdeleted : ht.deletedEntries = ht.maxEntries) :
    ht.entries = 0 ∧ ∀ e, ¬ Holds ht.table e := by
  have hzero : ht.entries = 0 := by have := h.room; omega
  refine ⟨hzero, ?_⟩
  rintro e ⟨x, hx⟩
  have hnil : fullFrom ht.table 0 ht.size = [] := by
    rw [← List.length_eq_zero_iff, ← count_full, ← h.entries, hzero]
  have hmem : x ∈ fullFrom ht.table 0 ht.size :=
    mem_fullFrom.2 ⟨h.core.within x (by simp [hx]), e, hx⟩
  rw [hnil] at hmem
  cases hmem

/-- `ht'` holds what `ht` holds. -/
structure Same (f : Funcs κ) (ht ht' : HashTable κ δ) : Prop where
  valid : Valid f ht'
  holds : ∀ e, Holds ht'.table e ↔ Holds ht.table e

/-- Writing an entry with the key of the one that is there. -/
theorem Valid.overwrite (h : Valid f ht) (hf : Lawful f) {x : ℕ} {e e₀ : Entry κ δ}
    (hx : ht.table x = .full e₀) (heq : f.equal e.key e₀.key = true) (hhash : e.hash = f.hash e.key)
    {m : κ → Option δ} (hm : Represents f ht.table m) :
    Valid f (ht.write x e) ∧ Represents f (ht.write x e).table (insertMap f m e.key e.data) := by
  have hlt : x < ht.size := h.core.within x (by simp [hx])
  have hsame : e.hash = e₀.hash := by rw [hhash, h.core.hashed x e₀ hx, hf.hash _ _ heq]
  have hnew : ∀ y e', y ≠ x → ht.table y = .full e' → f.equal e.key e'.key = false := by
    intro y e' hne hy
    by_contra hkeys
    rw [Bool.not_eq_false] at hkeys
    exact hne (h.core.unique y x e' e₀ hy hx (hf.trans _ _ _ (hf.symm _ _ hkeys) heq))
  refine ⟨⟨h.index, ?_, ?_, ?_, h.room⟩, ?_⟩
  · exact h.core.write hf hlt (hsame ▸ h.core.chained x e₀ hx) hhash
      (hsame ▸ h.core.fitting x e₀ hx) hnew
  · have hcount := count_update Slot.isFull hlt ht.table (.full e)
    rw [hx, ← h.entries] at hcount
    exact (Nat.add_right_cancel hcount).symm
  · have hcount := count_update Slot.isDeleted hlt ht.table (.full e)
    rw [hx, ← h.deleted] at hcount
    exact (Nat.add_right_cancel hcount).symm
  · refine hm.write hf ?_ hnew
    intro e' hx'
    rw [hx, Slot.full.injEq] at hx'
    exact hx' ▸ heq

/-- The size index `hash_table_set_max_entries` leaves the table with. -/
def setIndex (ht : HashTable κ δ) (maxEntries : UInt32) : ℕ :=
  if maxEntries.toNat < ht.maxEntries then ht.sizeIndex
  else (fittingIndex maxEntries.toNat (hashSizes.length - (ht.sizeIndex + 1))
    (ht.sizeIndex + 1)).getD ht.sizeIndex

/-- A table, and the map the calls made so far have to leave. -/
structure State (κ δ : Type*) where
  ht : HashTable κ δ
  map : κ → Option δ

/-- What a call does to the map. -/
def callMap (f : Funcs κ) (m : κ → Option δ) : Op κ δ → κ → Option δ
  | .insert key data => insertMap f m key data
  | .removeKey key => removeMap f m key
  | _ => m

def step (f : Funcs κ) (s : State κ δ) (op : Op κ δ) : Option (State κ δ) :=
  (call f s.ht op).map fun ht => ⟨ht, callMap f s.map op⟩

/-- The size index a call works with. -/
def Op.index (ht : HashTable κ δ) : Op κ δ → ℕ
  | .insert _ _ => roomIndex ht
  | .setMaxEntries maxEntries => setIndex ht maxEntries
  | _ => ht.sizeIndex

/-- The invariant of a run. -/
def Inv (f : Funcs κ) (s : State κ δ) : Prop := Valid f s.ht ∧ Represents f s.ht.table s.map

/-- A new table and the empty map. -/
def created : State κ δ := ⟨hashTableCreate, fun _ => none⟩

section Diverging

variable {T : Table (Entry κ δ)} {found : Entry κ δ → Bool} {next : ℕ → ℕ} {start : ℕ}
  {trap : List ℕ}

end Diverging

end FlakeWm.Hashing
