import FlakeWm.Schemes.Probing
import FlakeWm.Schemes.Run

/-! The hash table of `src/util/hash_table.c`.

    Keys are of any type, so that neither `NULL` nor `DELETED_KEY_VALUE` is one; those two are the
    free and the deleted slot. Addresses are numbers, and `hash_address += double_hash` is taken
    modulo `2 ^ 32` as in the code, where it is a `uint32_t`. The loops take fuel: a probe has no
    state besides its address, so one that has not ended after `2 ^ 32` turns never ends, and the
    result `none` says just that. Allocations succeed, and `fast_urem32` is the remainder. -/

namespace FlakeWm.Hashing

open Probing

variable {κ δ : Type*}

/-- `struct hash_entry` of a key. -/
structure Entry (κ δ : Type*) where
  hash : UInt32
  key : κ
  data : δ

/-- `struct hash_size`, without the constants of `fast_urem32`. -/
structure HashSize where
  maxEntries : ℕ
  size : ℕ
  rehash : ℕ
  deriving DecidableEq

/-- `hash_sizes`. -/
def hashSizes : List HashSize :=
  [⟨2, 5, 3⟩, ⟨4, 7, 5⟩, ⟨8, 13, 11⟩, ⟨16, 19, 17⟩, ⟨32, 43, 41⟩, ⟨64, 73, 71⟩, ⟨128, 151, 149⟩,
    ⟨256, 283, 281⟩, ⟨512, 571, 569⟩, ⟨1024, 1153, 1151⟩, ⟨2048, 2269, 2267⟩, ⟨4096, 4519, 4517⟩,
    ⟨8192, 9013, 9011⟩, ⟨16384, 18043, 18041⟩, ⟨32768, 36109, 36107⟩, ⟨65536, 72091, 72089⟩,
    ⟨131072, 144409, 144407⟩, ⟨262144, 288361, 288359⟩, ⟨524288, 576883, 576881⟩,
    ⟨1048576, 1153459, 1153457⟩, ⟨2097152, 2307163, 2307161⟩, ⟨4194304, 4613893, 4613891⟩,
    ⟨8388608, 9227641, 9227639⟩, ⟨16777216, 18455029, 18455027⟩, ⟨33554432, 36911011, 36911009⟩,
    ⟨67108864, 73819861, 73819859⟩, ⟨134217728, 147639589, 147639587⟩,
    ⟨268435456, 295279081, 295279079⟩, ⟨536870912, 590559793, 590559791⟩,
    ⟨1073741824, 1181116273, 1181116271⟩, ⟨2147483648, 2362232233, 2362232231⟩]

/-- `hash_sizes[i]`. -/
def hashSize (i : ℕ) : HashSize := hashSizes.getD i ⟨0, 0, 0⟩

/-- `struct hash_table`; its `hash_size` is always that of its `size_index`. -/
structure HashTable (κ δ : Type*) where
  table : Table (Entry κ δ)
  sizeIndex : ℕ
  entries : ℕ
  deletedEntries : ℕ

def HashTable.maxEntries (ht : HashTable κ δ) : ℕ := (hashSize ht.sizeIndex).maxEntries

def HashTable.size (ht : HashTable κ δ) : ℕ := (hashSize ht.sizeIndex).size

/-- The functions a table is created with. -/
structure Funcs (κ : Type*) where
  hash : κ → UInt32
  equal : κ → κ → Bool

/-! ### Probes -/

/-- `start_hash_address`. -/
def startAddress (i : ℕ) (hash : UInt32) : ℕ := hash.toNat % (hashSize i).size

/-- `double_hash`. -/
def doubleHash (i : ℕ) (hash : UInt32) : ℕ := 1 + hash.toNat % (hashSize i).rehash

/-- The step at the end of each loop. -/
def nextAddress (i : ℕ) (hash : UInt32) (address : ℕ) : ℕ :=
  let sum := (address + doubleHash i hash) % 2 ^ 32
  if sum ≥ (hashSize i).size then sum - (hashSize i).size else sum

/-- The turns after which a loop that has not ended never ends. -/
def turns : ℕ := 2 ^ 32

/-- The loop of `hash_table_search_hash`. -/
def searchLoop (T : Table (Entry κ δ)) (found : Entry κ δ → Bool) (next : ℕ → ℕ) (start : ℕ) :
    ℕ → ℕ → Option (Option ℕ)
  | 0, _ => none
  | fuel + 1, address =>
      match T address with
      | .free => some none
      | .deleted =>
          if next address = start then some none
          else searchLoop T found next start fuel (next address)
      | .full entry =>
          if found entry then some (some address)
          else if next address = start then some none
          else searchLoop T found next start fuel (next address)

/-- What `hash_table_get_entry` comes to: the entry of the key, the one it may take, or neither. -/
inductive Claim where
  | present (address : ℕ)
  | available (address : ℕ)
  | none

/-- The part of `hash_table_get_entry` after its loop. -/
def Claim.ofAvailable : Option ℕ → Claim
  | Option.none => .none
  | some address => .available address

/-- The loop of `hash_table_get_entry`. -/
def claimLoop (T : Table (Entry κ δ)) (found : Entry κ δ → Bool) (next : ℕ → ℕ) (start : ℕ) :
    ℕ → ℕ → Option ℕ → Option Claim
  | 0, _, _ => none
  | fuel + 1, address, available =>
      match T address with
      | .free => some (.ofAvailable (available.or (some address)))
      | .deleted =>
          if next address = start then some (.ofAvailable (available.or (some address)))
          else claimLoop T found next start fuel (next address) (available.or (some address))
      | .full entry =>
          if found entry then some (.present address)
          else if next address = start then some (.ofAvailable available)
          else claimLoop T found next start fuel (next address) available

/-- The loop of `hash_table_insert_rehash`. -/
def insertLoop (T : Table (Entry κ δ)) (next : ℕ → ℕ) : ℕ → ℕ → Option ℕ
  | 0, _ => none
  | fuel + 1, address =>
      match T address with
      | .free => some address
      | _ => insertLoop T next fuel (next address)

/-! ### Iteration -/

/-- The loop of `hash_table_next_entry`: the first entry from `address` on, of `n` slots. -/
def scan (T : Table (Entry κ δ)) : ℕ → ℕ → Option ℕ
  | 0, _ => none
  | n + 1, address =>
      match T address with
      | .full _ => some address
      | _ => scan T n (address + 1)

/-- `hash_table_next_entry`. -/
def hashTableNextEntry (ht : HashTable κ δ) (entry : Option ℕ) : Option ℕ :=
  if ht.entries = 0 then none
  else
    match entry with
    | none => scan ht.table ht.size 0
    | some address => scan ht.table (ht.size - (address + 1)) (address + 1)

/-- The entries `hash_table_for_each` visits after `entry`, at most `n` of them. -/
def visits (ht : HashTable κ δ) : ℕ → Option ℕ → List ℕ
  | 0, _ => []
  | n + 1, entry =>
      match hashTableNextEntry ht entry with
      | none => []
      | some address => address :: visits ht n (some address)

/-- The entries `hash_table_for_each` visits. -/
def hashTableForEach (ht : HashTable κ δ) : List ℕ := visits ht ht.size none

/-! ### Rehashing -/

/-- `hash_table_insert_rehash`, in a table of size index `i`. -/
def hashTableInsertRehash (i : ℕ) (T : Table (Entry κ δ)) (entry : Entry κ δ) :
    Option (Table (Entry κ δ)) :=
  (insertLoop T (nextAddress i entry.hash) turns (startAddress i entry.hash)).map fun address =>
    Function.update T address (.full entry)

/-- `hash_table_rehash`. -/
def hashTableRehash (ht : HashTable κ δ) (newSizeIndex : ℕ) : Option (HashTable κ δ) :=
  if ht.sizeIndex = newSizeIndex ∧ ht.deletedEntries = ht.maxEntries then
    some { ht with table := fun _ => .free, entries := 0, deletedEntries := 0 }
  else if newSizeIndex ≥ hashSizes.length then some ht
  else
    ((hashTableForEach ht).filterMap fun address => (ht.table address).item).foldlM
      (hashTableInsertRehash newSizeIndex) (fun _ => .free) |>.map fun T =>
        { table := T, sizeIndex := newSizeIndex, entries := ht.entries, deletedEntries := 0 }

/-- `hash_table_create`. -/
def hashTableCreate : HashTable κ δ :=
  { table := fun _ => .free, sizeIndex := 0, entries := 0, deletedEntries := 0 }

/-- The size index `hash_table_set_max_entries` looks for, among the `n` from `i` on. -/
def fittingIndex (maxEntries : ℕ) : ℕ → ℕ → Option ℕ
  | 0, _ => none
  | n + 1, i =>
      if (hashSize i).maxEntries ≥ maxEntries then some i else fittingIndex maxEntries n (i + 1)

/-- `hash_table_set_max_entries`. -/
def hashTableSetMaxEntries (ht : HashTable κ δ) (maxEntries : UInt32) :
    Option (HashTable κ δ × Bool) :=
  if maxEntries.toNat < ht.maxEntries then some (ht, true)
  else
    match fittingIndex maxEntries.toNat (hashSizes.length - (ht.sizeIndex + 1)) (ht.sizeIndex + 1) with
    | none => some (ht, decide (ht.maxEntries ≥ maxEntries.toNat))
    | some i =>
        (hashTableRehash ht i).map fun ht => (ht, decide (ht.maxEntries ≥ maxEntries.toNat))

/-! ### Entries -/

/-- An entry of the key: its hash is compared first. -/
def Funcs.found (f : Funcs κ) (hash : UInt32) (key : κ) (entry : Entry κ δ) : Bool :=
  decide (entry.hash = hash) && f.equal key entry.key

/-- `hash_table_search_hash`. -/
def hashTableSearchHash (f : Funcs κ) (ht : HashTable κ δ) (hash : UInt32) (key : κ) :
    Option (Option ℕ) :=
  searchLoop ht.table (f.found hash key) (nextAddress ht.sizeIndex hash)
    (startAddress ht.sizeIndex hash) turns (startAddress ht.sizeIndex hash)

/-- `hash_table_search`. -/
def hashTableSearch (f : Funcs κ) (ht : HashTable κ δ) (key : κ) : Option (Option ℕ) :=
  hashTableSearchHash f ht (f.hash key) key

/-- The rehash at the start of `hash_table_get_entry`. -/
def makeRoom (ht : HashTable κ δ) : Option (HashTable κ δ) :=
  if ht.entries ≥ ht.maxEntries then hashTableRehash ht (ht.sizeIndex + 1)
  else if ht.deletedEntries + ht.entries ≥ ht.maxEntries then hashTableRehash ht ht.sizeIndex
  else some ht

/-- The counters after `hash_table_get_entry` has taken an available entry. -/
def HashTable.take (ht : HashTable κ δ) (address : ℕ) : HashTable κ δ :=
  { ht with
    entries := ht.entries + 1
    deletedEntries := match ht.table address with
      | .deleted => ht.deletedEntries - 1
      | _ => ht.deletedEntries }

def HashTable.write (ht : HashTable κ δ) (address : ℕ) (entry : Entry κ δ) : HashTable κ δ :=
  { ht with table := Function.update ht.table address (.full entry) }

/-- `hash_table_get_entry`, with the rehash done. -/
def claim (f : Funcs κ) (ht : HashTable κ δ) (hash : UInt32) (key : κ) : Option Claim :=
  claimLoop ht.table (f.found hash key) (nextAddress ht.sizeIndex hash)
    (startAddress ht.sizeIndex hash) turns (startAddress ht.sizeIndex hash) none

/-- `hash_table_insert_hash` on what `hash_table_get_entry` returns. -/
def settle (ht : HashTable κ δ) (entry : Entry κ δ) : Claim → HashTable κ δ × Option ℕ
  | .present address => (ht.write address entry, some address)
  | .available address => ((ht.take address).write address entry, some address)
  | .none => (ht, none)

/-- `hash_table_insert_hash`. -/
def hashTableInsertHash (f : Funcs κ) (ht : HashTable κ δ) (hash : UInt32) (key : κ) (data : δ) :
    Option (HashTable κ δ × Option ℕ) :=
  (makeRoom ht).bind fun ht => (claim f ht hash key).map (settle ht ⟨hash, key, data⟩)

/-- `hash_table_insert`. -/
def hashTableInsert (f : Funcs κ) (ht : HashTable κ δ) (key : κ) (data : δ) :
    Option (HashTable κ δ × Option ℕ) :=
  hashTableInsertHash f ht (f.hash key) key data

/-- `hash_table_remove`. -/
def hashTableRemove (ht : HashTable κ δ) : Option ℕ → HashTable κ δ
  | none => ht
  | some address =>
      { ht with
        table := Function.update ht.table address .deleted
        entries := ht.entries - 1
        deletedEntries := ht.deletedEntries + 1 }

/-- `hash_table_remove_key`. -/
def hashTableRemoveKey (f : Funcs κ) (ht : HashTable κ δ) (key : κ) : Option (HashTable κ δ) :=
  (hashTableSearch f ht key).map (hashTableRemove ht)

inductive Op (κ δ : Type*) where
  | insert (key : κ) (data : δ)
  | removeKey (key : κ)
  | search (key : κ)
  | setMaxEntries (maxEntries : UInt32)
  | forEach

/-- One call; `none` when a loop of it does not end. -/
def call (f : Funcs κ) (ht : HashTable κ δ) : Op κ δ → Option (HashTable κ δ)
  | .insert key data => (hashTableInsert f ht key data).map (·.1)
  | .removeKey key => hashTableRemoveKey f ht key
  | .search key => (hashTableSearch f ht key).map fun _ => ht
  | .setMaxEntries maxEntries => (hashTableSetMaxEntries ht maxEntries).map (·.1)
  | .forEach => some ht

end FlakeWm.Hashing
