import FlakeWm.Hashing.Sizes

/-! What a hash table holds.

    `Core` is the invariant of the slots: every entry is stored under the hash of its key and is
    chained from the start of its probe, and no two entries have equal keys. Filling a slot a probe
    gets to, overwriting an entry with one of an equal key, and deleting an entry keep it, and
    `Core.lookup` says what a search finds in such a table. -/

namespace FlakeWm.Hashing

open Probing

variable {κ δ : Type*}

/-- The functions of a table are an equivalence and a hash that agrees with it. -/
structure Lawful (f : Funcs κ) : Prop where
  refl : ∀ a, f.equal a a = true
  symm : ∀ a b, f.equal a b = true → f.equal b a = true
  trans : ∀ a b c, f.equal a b = true → f.equal b c = true → f.equal a c = true
  hash : ∀ a b, f.equal a b = true → f.hash a = f.hash b

variable {f : Funcs κ} {i : ℕ} {T : Table (Entry κ δ)}

/-- The table holds an entry. -/
def Holds (T : Table (Entry κ δ)) (e : Entry κ δ) : Prop := ∃ x, T x = .full e

/-- The invariant of the slots of a table of size index `i`. -/
structure Core (f : Funcs κ) (i : ℕ) (T : Table (Entry κ δ)) : Prop where
  within : ∀ x, T x ≠ .free → x < (hashSize i).size
  hashed : ∀ x e, T x = .full e → e.hash = f.hash e.key
  fitting : ∀ x e, T x = .full e → fits i e.hash = true
  chained : ∀ x e, T x = .full e → Chained T (hashPath i e.hash) x
  unique : ∀ x y e e', T x = .full e → T y = .full e' → f.equal e.key e'.key = true → x = y

theorem update_ne_free {x : ℕ} {s : Slot (Entry κ δ)} (hs : s ≠ .free) (y : ℕ) (hy : T y ≠ .free) :
    Function.update T x s y ≠ .free := by
  rcases eq_or_ne y x with rfl | hne
  · rwa [Function.update_self]
  · rwa [Function.update_of_ne hne]

theorem update_full {x y : ℕ} {e e' : Entry κ δ} (h : Function.update T x (.full e) y = .full e') :
    (y = x ∧ e' = e) ∨ (y ≠ x ∧ T y = .full e') := by
  rcases eq_or_ne y x with rfl | hne
  · rw [Function.update_self, Slot.full.injEq] at h
    exact .inl ⟨rfl, h.symm⟩
  · rw [Function.update_of_ne hne] at h
    exact .inr ⟨hne, h⟩

theorem update_deleted {x y : ℕ} {e : Entry κ δ} (h : Function.update T x .deleted y = .full e) :
    y ≠ x ∧ T y = .full e := by
  rcases eq_or_ne y x with rfl | hne
  · rw [Function.update_self] at h
    cases h
  · rw [Function.update_of_ne hne] at h
    exact ⟨hne, h⟩

section Updates

variable {x : ℕ} {e : Entry κ δ}

/-- Writing an entry whose key no other slot has keeps the invariant, when a probe gets there. -/
theorem Core.write (h : Core f i T) (hf : Lawful f) (hx : x < (hashSize i).size)
    (hchain : Chained T (hashPath i e.hash) x) (hhash : e.hash = f.hash e.key)
    (hfits : fits i e.hash = true)
    (hnew : ∀ y e', y ≠ x → T y = .full e' → f.equal e.key e'.key = false) :
    Core f i (Function.update T x (.full e)) where
  within y hy := by
    rcases eq_or_ne y x with rfl | hne
    · exact hx
    · rw [Function.update_of_ne hne] at hy
      exact h.within y hy
  hashed y e' hy := by
    rcases update_full hy with ⟨rfl, rfl⟩ | ⟨-, hy⟩
    · exact hhash
    · exact h.hashed y e' hy
  fitting y e' hy := by
    rcases update_full hy with ⟨rfl, rfl⟩ | ⟨-, hy⟩
    · exact hfits
    · exact h.fitting y e' hy
  chained y e' hy := by
    rcases update_full hy with ⟨rfl, rfl⟩ | ⟨-, hy⟩
    · exact hchain.mono (update_ne_free (by simp))
    · exact (h.chained y e' hy).mono (update_ne_free (by simp))
  unique y z e₁ e₂ hy hz heq := by
    rcases update_full hy with ⟨rfl, rfl⟩ | ⟨hne, hy'⟩
    · rcases update_full hz with ⟨rfl, -⟩ | ⟨hne', hz'⟩
      · rfl
      · rw [hnew z e₂ hne' hz'] at heq
        cases heq
    · rcases update_full hz with ⟨rfl, rfl⟩ | ⟨-, hz'⟩
      · have heq' := hf.symm _ _ heq
        rw [hnew y e₁ hne hy'] at heq'
        cases heq'
      · exact h.unique y z e₁ e₂ hy' hz' heq

theorem Core.delete (h : Core f i T) (hx : T x = .full e) :
    Core f i (Function.update T x .deleted) where
  within y hy := by
    rcases eq_or_ne y x with rfl | hne
    · exact h.within y (by simp [hx])
    · rw [Function.update_of_ne hne] at hy
      exact h.within y hy
  hashed y e' hy := h.hashed y e' (update_deleted hy).2
  fitting y e' hy := h.fitting y e' (update_deleted hy).2
  chained y e' hy := (h.chained y e' (update_deleted hy).2).mono (update_ne_free (by simp))
  unique y z e₁ e₂ hy hz := h.unique y z e₁ e₂ (update_deleted hy).2 (update_deleted hz).2

theorem holds_write (e' : Entry κ δ) : Holds (Function.update T x (.full e)) e' ↔
    e' = e ∨ ∃ y, y ≠ x ∧ T y = .full e' := by
  constructor
  · rintro ⟨y, hy⟩
    rcases update_full hy with ⟨-, rfl⟩ | ⟨hne, hy⟩
    · exact .inl rfl
    · exact .inr ⟨y, hne, hy⟩
  · rintro (rfl | ⟨y, hne, hy⟩)
    · exact ⟨x, Function.update_self ..⟩
    · exact ⟨y, by rwa [Function.update_of_ne hne]⟩

theorem holds_delete (e' : Entry κ δ) : Holds (Function.update T x .deleted) e' ↔
    ∃ y, y ≠ x ∧ T y = .full e' := by
  constructor
  · rintro ⟨y, hy⟩
    exact ⟨y, update_deleted hy⟩
  · rintro ⟨y, hne, hy⟩
    exact ⟨y, by rwa [Function.update_of_ne hne]⟩

end Updates

/-! ### Searches -/

/-- A search finds the entry with an equal key, if there is one. -/
theorem Core.lookup (h : Core f i T) (hf : Lawful f) (key : κ) :
    (∃ x e, lookup T (f.found (f.hash key) key) (hashPath i (f.hash key)) = some x ∧
      T x = .full e ∧ f.equal key e.key = true) ∨
    (Probing.lookup T (f.found (f.hash key) key) (hashPath i (f.hash key)) = none ∧
      ∀ x e, T x = .full e → f.equal key e.key = false) := by
  cases hl : Probing.lookup T (f.found (f.hash key) key) (hashPath i (f.hash key)) with
  | some x =>
      obtain ⟨-, e, hx, hfound⟩ := lookup_sound hl
      rw [Funcs.found, Bool.and_eq_true] at hfound
      exact .inl ⟨x, e, rfl, hx, hfound.2⟩
  | none =>
      refine .inr ⟨rfl, ?_⟩
      intro x e hx
      by_contra heq
      rw [Bool.not_eq_false] at heq
      have hhash : e.hash = f.hash key := (h.hashed x e hx).trans (hf.hash _ _ heq).symm
      have hfound : f.found (f.hash key) key e = true := by simp [Funcs.found, hhash, heq]
      obtain ⟨y, hy⟩ := lookup_complete hx hfound (hhash ▸ h.chained x e hx)
      rw [hl] at hy
      cases hy

/-! ### The map a table stands for -/

/-- `m` is the map of the entries of `T`, up to equal keys. -/
def Represents (f : Funcs κ) (T : Table (Entry κ δ)) (m : κ → Option δ) : Prop :=
  ∀ key data, m key = some data ↔
    ∃ e, Holds T e ∧ f.equal key e.key = true ∧ e.data = data

/-- The map after an insert. -/
def insertMap (f : Funcs κ) (m : κ → Option δ) (key : κ) (data : δ) : κ → Option δ :=
  fun k => if f.equal k key then some data else m k

/-- The map after a removal. -/
def removeMap (f : Funcs κ) (m : κ → Option δ) (key : κ) : κ → Option δ :=
  fun k => if f.equal k key then none else m k

theorem Represents.congr {T' : Table (Entry κ δ)} {m : κ → Option δ} (h : Represents f T m)
    (hsame : ∀ e, Holds T' e ↔ Holds T e) : Represents f T' m := by
  intro key data
  rw [h key data]
  simp only [hsame]

/-- `x` is the only slot that can have an entry of an equal key. -/
theorem Represents.write {m : κ → Option δ} (h : Represents f T m) (hf : Lawful f) {x : ℕ}
    {e : Entry κ δ} (hx : ∀ e', T x = .full e' → f.equal e.key e'.key = true)
    (hnew : ∀ y e', y ≠ x → T y = .full e' → f.equal e.key e'.key = false) :
    Represents f (Function.update T x (.full e)) (insertMap f m e.key e.data) := by
  intro key data
  rw [insertMap]
  split_ifs with heq
  · rw [Option.some.injEq]
    constructor
    · rintro rfl
      exact ⟨e, (holds_write e).2 (.inl rfl), heq, rfl⟩
    · rintro ⟨e', hholds, heq', rfl⟩
      rcases (holds_write e').1 hholds with rfl | ⟨y, hne, hy⟩
      · rfl
      · have hkeys := hf.trans _ _ _ (hf.symm _ _ heq) heq'
        rw [hnew y e' hne hy] at hkeys
        cases hkeys
  · rw [h key data]
    refine exists_congr fun e' => and_congr_left ?_
    rintro ⟨heq', -⟩
    rw [holds_write]
    constructor
    · rintro ⟨y, hy⟩
      refine .inr ⟨y, ?_, hy⟩
      rintro rfl
      exact heq (hf.trans _ _ _ heq' (hf.symm _ _ (hx e' hy)))
    · rintro (rfl | ⟨y, -, hy⟩)
      · exact absurd heq' heq
      · exact ⟨y, hy⟩

theorem Represents.delete {m : κ → Option δ} (h : Represents f T m) (hf : Lawful f) {x : ℕ}
    {e : Entry κ δ} {key : κ} (hx : T x = .full e) (heq : f.equal key e.key = true)
    (hunique : ∀ y e', T y = .full e' → f.equal e.key e'.key = true → y = x) :
    Represents f (Function.update T x .deleted) (removeMap f m key) := by
  intro k data
  rw [removeMap]
  split_ifs with hk
  · constructor
    · intro hnone
      cases hnone
    · rintro ⟨e', hholds, heq', -⟩
      obtain ⟨y, hne, hy⟩ := (holds_delete e').1 hholds
      have hkey := hf.trans _ _ _ (hf.symm _ _ hk) heq'
      exact absurd (hunique y e' hy (hf.trans _ _ _ (hf.symm _ _ heq) hkey)) hne
  · rw [h k data]
    refine exists_congr fun e' => and_congr_left ?_
    rintro ⟨heq', -⟩
    rw [holds_delete]
    constructor
    · rintro ⟨y, hy⟩
      refine ⟨y, ?_, hy⟩
      rintro rfl
      rw [hx, Slot.full.injEq] at hy
      subst hy
      exact hk (hf.trans _ _ _ heq' (hf.symm _ _ heq))
    · rintro ⟨y, -, hy⟩
      exact ⟨y, hy⟩

/-- What the map gives for a key, read off the slot of an entry with an equal key. -/
theorem Represents.get {m : κ → Option δ} (h : Represents f T m) {x : ℕ} {e : Entry κ δ} {key : κ}
    (hx : T x = .full e) (heq : f.equal key e.key = true) : m key = some e.data :=
  (h key e.data).2 ⟨e, ⟨x, hx⟩, heq, rfl⟩

end FlakeWm.Hashing
