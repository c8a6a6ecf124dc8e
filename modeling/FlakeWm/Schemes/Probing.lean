import Mathlib.Algebra.BigOperators.Group.Finset.Piecewise
import Mathlib.Data.Finset.Card
import Mathlib.Data.List.Nodup
import Mathlib.Data.Nat.ModEq

/-! Open addressing.

    A table is a function from addresses to slots, and a search visits the addresses of a list, its
    probe path, until it meets what it looks for or a free slot. `Chained T path x` says that a search
    along `path` gets to `x`. Removing an item leaves a deleted slot behind, which is what keeps the
    chains of the others. The last part is the path of double hashing, which visits every address
    once when its step and the size of the table are coprime. -/

namespace FlakeWm.Probing

variable {α : Type*}

/-- A slot that was never used, one whose item is gone, or an item. -/
inductive Slot (α : Type*) where
  | free
  | deleted
  | full (a : α)

/-- The item of a slot. -/
def Slot.item : Slot α → Option α
  | .full a => some a
  | _ => none

@[simp] theorem item_full (a : α) : (Slot.full a).item = some a := rfl

@[simp] theorem item_free : (Slot.free : Slot α).item = none := rfl

@[simp] theorem item_deleted : (Slot.deleted : Slot α).item = none := rfl

def Slot.isFull : Slot α → Bool
  | .full _ => true
  | _ => false

def Slot.isDeleted : Slot α → Bool
  | .deleted => true
  | _ => false

theorem isFull_iff {s : Slot α} : s.isFull = true ↔ ∃ a, s = .full a := by
  cases s <;> simp [Slot.isFull]

abbrev Table (α : Type*) := ℕ → Slot α

/-! ### Searches -/

/-- The first address of the path whose item meets `p`; a free slot ends the search. -/
def lookup (T : Table α) (p : α → Bool) : List ℕ → Option ℕ
  | [] => none
  | x :: path =>
      match T x with
      | .free => none
      | .deleted => lookup T p path
      | .full a => if p a then some x else lookup T p path

/-- The first free address of the path. -/
def firstFree (T : Table α) : List ℕ → Option ℕ
  | [] => none
  | x :: path =>
      match T x with
      | .free => some x
      | _ => firstFree T path

/-- A search along `path` gets to `x`. -/
def Chained (T : Table α) (path : List ℕ) (x : ℕ) : Prop :=
  ∃ before after, path = before ++ x :: after ∧ ∀ y ∈ before, T y ≠ .free

theorem Chained.mem {T : Table α} {path : List ℕ} {x : ℕ} (h : Chained T path x) : x ∈ path := by
  obtain ⟨before, after, rfl, -⟩ := h
  simp

theorem chained_head (T : Table α) (x : ℕ) (path : List ℕ) : Chained T (x :: path) x :=
  ⟨[], path, rfl, by simp⟩

theorem Chained.cons {T : Table α} {path : List ℕ} {x y : ℕ} (h : Chained T path x)
    (hy : T y ≠ .free) : Chained T (y :: path) x := by
  obtain ⟨before, after, rfl, hbefore⟩ := h
  refine ⟨y :: before, after, rfl, ?_⟩
  intro z hz
  rcases List.mem_cons.1 hz with rfl | hz
  · exact hy
  · exact hbefore z hz

theorem Chained.cases {T : Table α} {path : List ℕ} {x y : ℕ} (h : Chained T (y :: path) x) :
    x = y ∨ T y ≠ .free ∧ Chained T path x := by
  obtain ⟨before, after, heq, hbefore⟩ := h
  cases before with
  | nil => exact .inl (List.cons.inj heq).1.symm
  | cons z before =>
      obtain ⟨rfl, hrest⟩ := List.cons.inj heq
      refine .inr ⟨hbefore _ List.mem_cons_self, before, after, hrest, ?_⟩
      exact fun w hw => hbefore w (List.mem_cons_of_mem _ hw)

/-- Chains survive every change that frees no slot. -/
theorem Chained.mono {T T' : Table α} {path : List ℕ} {x : ℕ} (h : Chained T path x)
    (hfree : ∀ y, T y ≠ .free → T' y ≠ .free) : Chained T' path x := by
  obtain ⟨before, after, heq, hbefore⟩ := h
  exact ⟨before, after, heq, fun y hy => hfree y (hbefore y hy)⟩

theorem lookup_sound {T : Table α} {p : α → Bool} {x : ℕ} : ∀ {path : List ℕ},
    lookup T p path = some x → x ∈ path ∧ ∃ a, T x = .full a ∧ p a = true
  | [], h => by cases h
  | y :: path, h => by
      rw [lookup] at h
      split at h
      next => cases h
      next =>
        obtain ⟨hmem, hx⟩ := lookup_sound h
        exact ⟨List.mem_cons_of_mem _ hmem, hx⟩
      next a ha =>
        split at h
        next hp =>
          obtain rfl := Option.some.inj h
          exact ⟨List.mem_cons_self, a, ha, hp⟩
        next =>
          obtain ⟨hmem, hx⟩ := lookup_sound h
          exact ⟨List.mem_cons_of_mem _ hmem, hx⟩

/-- A search finds something if there is something to be found at the end of a chain. -/
theorem lookup_complete {T : Table α} {p : α → Bool} {x : ℕ} {a : α} (hx : T x = .full a)
    (hp : p a = true) : ∀ {path : List ℕ}, Chained T path x → ∃ y, lookup T p path = some y
  | [], h => by cases h.mem
  | y :: path, h => by
      rw [lookup]
      rcases h.cases with rfl | ⟨hy, h⟩
      · simp [hx, hp]
      · obtain ⟨z, hz⟩ := lookup_complete hx hp h
        split
        next hfree => exact absurd hfree hy
        next => exact ⟨z, hz⟩
        next b hb =>
          split
          next => exact ⟨y, rfl⟩
          next => exact ⟨z, hz⟩

theorem firstFree_sound {T : Table α} {x : ℕ} : ∀ {path : List ℕ},
    firstFree T path = some x → Chained T path x ∧ T x = .free
  | [], h => by cases h
  | y :: path, h => by
      rw [firstFree] at h
      split at h
      next hy =>
        obtain rfl := Option.some.inj h
        exact ⟨chained_head T y path, hy⟩
      next hy =>
        obtain ⟨hchain, hx⟩ := firstFree_sound h
        exact ⟨hchain.cons (by simpa using hy), hx⟩

theorem firstFree_complete {T : Table α} {x : ℕ} (hx : T x = .free) :
    ∀ {path : List ℕ}, x ∈ path → ∃ y, firstFree T path = some y
  | [], h => by cases h
  | y :: path, h => by
      rw [firstFree]
      split
      next => exact ⟨y, rfl⟩
      next hy =>
        rcases List.mem_cons.1 h with rfl | h
        · exact absurd hx hy
        · exact firstFree_complete hx h

/-! ### Counting slots -/

/-- The addresses below `n` whose slot meets `q`. -/
def count (q : Slot α → Bool) (n : ℕ) (T : Table α) : ℕ :=
  ((Finset.range n).filter fun x => q (T x) = true).card

theorem count_eq_sum (q : Slot α → Bool) (n : ℕ) (T : Table α) :
    count q n T = ∑ x ∈ Finset.range n, if q (T x) = true then 1 else 0 :=
  Finset.card_filter _ _

theorem count_eq_zero {q : Slot α → Bool} {n : ℕ} {T : Table α} (h : ∀ x < n, q (T x) = false) :
    count q n T = 0 := by
  rw [count, Finset.card_eq_zero, Finset.filter_eq_empty_iff]
  intro x hx
  simp [h x (Finset.mem_range.1 hx)]

/-- Writing one slot changes a count by what that slot contributes. -/
theorem count_update (q : Slot α → Bool) {n x : ℕ} (hx : x < n) (T : Table α) (s : Slot α) :
    count q n (Function.update T x s) + (if q (T x) = true then 1 else 0) =
      count q n T + (if q s = true then 1 else 0) := by
  have hmem : x ∈ Finset.range n := Finset.mem_range.2 hx
  have hrest : ∑ y ∈ (Finset.range n).erase x, (if q (Function.update T x s y) = true then 1 else 0)
      = ∑ y ∈ (Finset.range n).erase x, if q (T y) = true then 1 else 0 := by
    refine Finset.sum_congr rfl ?_
    intro y hy
    rw [Function.update_of_ne (Finset.ne_of_mem_erase hy)]
  rw [count_eq_sum, count_eq_sum, ← Finset.add_sum_erase _ _ hmem, ← Finset.add_sum_erase _ _ hmem,
    hrest, Function.update_self]
  omega

/-- Not every address meets `q` when fewer than `n` do. -/
theorem exists_of_count_lt {q : Slot α → Bool} {n : ℕ} {T : Table α} (h : count q n T < n) :
    ∃ x < n, q (T x) = false := by
  by_contra hall
  push Not at hall
  have hfull : (Finset.range n).filter (fun x => q (T x) = true) = Finset.range n := by
    rw [Finset.filter_eq_self]
    intro x hx
    simpa using hall x (Finset.mem_range.1 hx)
  rw [count, hfull, Finset.card_range] at h
  exact lt_irrefl n h

/-! ### Loops that end where they started -/

/-- A loop that goes from address to address with `next`, until it would visit `start`, visits the
    list. -/
inductive Circuit (next : ℕ → ℕ) (start : ℕ) : List ℕ → Prop
  | last (x : ℕ) : next x = start → Circuit next start [x]
  | cons (x y : ℕ) (l : List ℕ) : next x = y → y ≠ start → Circuit next start (y :: l) →
      Circuit next start (x :: y :: l)

/-! ### Double hashing -/

/-- The `i`-th address of a probe. -/
def probe (n start step i : ℕ) : ℕ := (start + i * step) % n

/-- The addresses a probe visits. -/
def path (n start step : ℕ) : List ℕ := (List.range n).map (probe n start step)

variable {n start step : ℕ}

theorem probe_lt (hn : 0 < n) (i : ℕ) : probe n start step i < n := Nat.mod_lt _ hn

theorem probe_injective (hcop : n.Coprime step) {i j : ℕ} (hi : i < n) (hj : j < n)
    (h : probe n start step i = probe n start step j) : i = j := by
  have hmul : step * i ≡ step * j [MOD n] := by
    have h' : start + i * step ≡ start + j * step [MOD n] := h
    rw [mul_comm step, mul_comm step]
    exact Nat.ModEq.add_left_cancel' start h'
  exact Nat.ModEq.eq_of_lt_of_lt (Nat.ModEq.cancel_left_of_coprime hcop hmul) hi hj

theorem path_nodup (hcop : n.Coprime step) : (path n start step).Nodup := by
  refine List.Nodup.map_on ?_ List.nodup_range
  intro i hi j hj h
  exact probe_injective hcop (List.mem_range.1 hi) (List.mem_range.1 hj) h

/-- A probe with a coprime step gets everywhere. -/
theorem mem_path (hn : 0 < n) (hcop : n.Coprime step) {x : ℕ} :
    x ∈ path n start step ↔ x < n := by
  have hsub : (path n start step).toFinset ⊆ Finset.range n := by
    intro y hy
    rw [List.mem_toFinset, path, List.mem_map] at hy
    obtain ⟨i, -, rfl⟩ := hy
    exact Finset.mem_range.2 (probe_lt hn i)
  have hcard : (path n start step).toFinset.card = n := by
    rw [List.toFinset_card_of_nodup (path_nodup hcop), path, List.length_map, List.length_range]
  have heq : (path n start step).toFinset = Finset.range n :=
    Finset.eq_of_subset_of_card_le hsub (by rw [hcard, Finset.card_range])
  rw [← List.mem_toFinset, heq, Finset.mem_range]

theorem probe_zero (hstart : start < n) : probe n start step 0 = start := by
  rw [probe, Nat.zero_mul, Nat.add_zero, Nat.mod_eq_of_lt hstart]

theorem probe_self (hstart : start < n) : probe n start step n = start := by
  rw [probe, Nat.add_mul_mod_self_left, Nat.mod_eq_of_lt hstart]

theorem probe_succ (i : ℕ) : (probe n start step i + step) % n = probe n start step (i + 1) := by
  rw [probe, probe, Nat.mod_add_mod, Nat.succ_mul, Nat.add_assoc]

/-- The last `m` addresses of a path, walked with its own step. -/
theorem range_circuit {next : ℕ → ℕ} (hcop : n.Coprime step) (hstart : start < n)
    (hnext : ∀ a < n, next a = (a + step) % n) : ∀ (m i : ℕ), i + (m + 1) = n →
      Circuit next start ((List.range' i (m + 1)).map (probe n start step))
  | 0, i, hi => by
      refine .last _ ?_
      rw [hnext _ (probe_lt (by omega) i), probe_succ, show i + 1 = n from hi, probe_self hstart]
  | m + 1, i, hi => by
      have hrest := range_circuit hcop hstart hnext m (i + 1) (by omega)
      rw [List.range'_succ, List.map_cons] at hrest ⊢
      rw [List.range'_succ, List.map_cons]
      refine .cons _ _ _ ?_ ?_ hrest
      · rw [hnext _ (probe_lt (by omega) i), probe_succ]
      · intro h
        have hzero : probe n start step (i + 1) = probe n start step 0 := by
          rw [h, probe_zero hstart]
        exact absurd (probe_injective hcop (by omega) (by omega) hzero) (by omega)

theorem path_circuit {next : ℕ → ℕ} (hcop : n.Coprime step) (hstart : start < n)
    (hnext : ∀ a < n, next a = (a + step) % n) : Circuit next start (path n start step) := by
  obtain ⟨m, rfl⟩ : ∃ m, n = m + 1 := ⟨n - 1, by omega⟩
  rw [path, List.range_eq_range']
  exact range_circuit hcop hstart hnext m 0 (by omega)

end FlakeWm.Probing
