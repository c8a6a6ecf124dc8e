import Mathlib.Data.List.Nodup
import Mathlib.Logic.Function.Basic
import Mathlib.Order.Nat

/-! Arrays with in-place shifting loops, read as lists.

    An array is a function from indices, of which the first `n` entries count: `listing a n`. The two
    counting loops of C are `upLoop` and `downLoop`, each with its invariant rule. `shiftedUp` and
    `shiftedDown` are the arrays left by `a[i] = a[i - 1]` (counting down) and `a[i] = a[i + 1]`
    (counting up); on listings they are insertion, removal and moving of one entry. -/

namespace FlakeWm

variable {α σ : Type*}

/-- `for (i = lo; i < hi; i++)`. -/
def upLoop (lo hi : ℕ) (body : σ → ℕ → σ) (s : σ) : σ := (List.range' lo (hi - lo)).foldl body s

/-- `for (i = hi; i > lo; i--)`. -/
def downLoop (hi lo : ℕ) (body : σ → ℕ → σ) (s : σ) : σ :=
  (List.range' (lo + 1) (hi - lo)).reverse.foldl body s

/-- The invariant rule of a loop that counts up: `P i` holds before round `i`. -/
theorem upLoop_inv {P : ℕ → σ → Prop} {body : σ → ℕ → σ} {lo hi : ℕ} (hle : lo ≤ hi)
    (hbody : ∀ i s, lo ≤ i → i < hi → P i s → P (i + 1) (body s i)) {s : σ} (h : P lo s) :
    P hi (upLoop lo hi body s) := by
  obtain ⟨n, rfl⟩ := Nat.exists_eq_add_of_le hle
  rw [upLoop, Nat.add_sub_cancel_left]
  induction n with
  | zero => simpa using h
  | succ n ih =>
    rw [List.range'_1_concat, List.foldl_append]
    have hn := ih (by omega) fun i s h1 h2 => hbody i s h1 (by omega)
    simpa [Nat.add_assoc] using hbody (lo + n) _ (by omega) (by omega) hn

/-- The invariant rule of a loop that counts down: `P i` holds before round `i`. -/
theorem downLoop_inv {P : ℕ → σ → Prop} {body : σ → ℕ → σ} {lo hi : ℕ} (hle : lo ≤ hi)
    (hbody : ∀ i s, lo < i → i ≤ hi → P i s → P (i - 1) (body s i)) {s : σ} (h : P hi s) :
    P lo (downLoop hi lo body s) := by
  obtain ⟨n, rfl⟩ := Nat.exists_eq_add_of_le hle
  rw [downLoop, Nat.add_sub_cancel_left]
  induction n generalizing s with
  | zero => simpa using h
  | succ n ih =>
    rw [List.range'_1_concat, List.reverse_append, List.reverse_singleton, List.singleton_append,
      List.foldl_cons]
    have hfirst := hbody (lo + 1 + n) s (by omega) (by omega) (by convert h using 1; omega)
    exact ih (by omega) (fun i s h1 h2 => hbody i s h1 (by omega)) (by convert hfirst using 1; omega)

/-- What every round of a loop keeps, the loop keeps. -/
theorem upLoop_keeps {I : σ → Prop} {body : σ → ℕ → σ} (hbody : ∀ s i, I s → I (body s i))
    (lo hi : ℕ) {s : σ} (h : I s) : I (upLoop lo hi body s) :=
  List.foldlRecOn _ body h fun s hs i _ => hbody s i hs

theorem downLoop_keeps {I : σ → Prop} {body : σ → ℕ → σ} (hbody : ∀ s i, I s → I (body s i))
    (lo hi : ℕ) {s : σ} (h : I s) : I (downLoop hi lo body s) :=
  List.foldlRecOn _ body h fun s hs i _ => hbody s i hs

/-! ### Shifted arrays -/

/-- The entries that count. -/
def listing (a : ℕ → α) (n : ℕ) : List α := (List.range n).map a

/-- The array after `a[i] = a[i - 1]` for `i` from `hi` down to `lo + 1`. -/
def shiftedUp (a : ℕ → α) (lo hi : ℕ) : ℕ → α := fun j => if lo < j ∧ j ≤ hi then a (j - 1) else a j

/-- The array after `a[i] = a[i + 1]` for `i` from `lo` up to `hi - 1`. -/
def shiftedDown (a : ℕ → α) (lo hi : ℕ) : ℕ → α :=
  fun j => if lo ≤ j ∧ j < hi then a (j + 1) else a j

@[simp] theorem length_listing (a : ℕ → α) (n : ℕ) : (listing a n).length = n := by
  simp [listing]

theorem getElem?_listing (a : ℕ → α) (n i : ℕ) :
    (listing a n)[i]? = if i < n then some (a i) else none := by
  rcases lt_or_ge i n with h | h
  · simp [listing, h]
  · simp [listing, h]

theorem mem_listing {a : ℕ → α} {n : ℕ} {x : α} : x ∈ listing a n ↔ ∃ i < n, a i = x := by
  simp [listing]

theorem nodup_listing {a : ℕ → α} {n : ℕ} :
    (listing a n).Nodup ↔ ∀ i < n, ∀ j < n, a i = a j → i = j := by
  rw [listing, List.nodup_map_iff_inj_on List.nodup_range]
  simp only [List.mem_range]

theorem shiftedUp_step (a : ℕ → α) {i hi : ℕ} (h : i ≤ hi) (h0 : 0 < i) :
    Function.update (shiftedUp a i hi) i (shiftedUp a i hi (i - 1)) = shiftedUp a (i - 1) hi := by
  funext j
  rcases eq_or_ne j i with rfl | hne
  · rw [Function.update_self]
    simp only [shiftedUp]
    rw [if_neg (by omega), if_pos (by omega)]
  · rw [Function.update_of_ne hne]
    simp only [shiftedUp]
    split_ifs <;> first | rfl | omega

theorem shiftedDown_step (a : ℕ → α) {lo i : ℕ} (h : lo ≤ i) :
    Function.update (shiftedDown a lo i) i (shiftedDown a lo i (i + 1)) =
      shiftedDown a lo (i + 1) := by
  funext j
  rcases eq_or_ne j i with rfl | hne
  · rw [Function.update_self]
    simp only [shiftedDown]
    rw [if_neg (by omega), if_pos (by omega)]
  · rw [Function.update_of_ne hne]
    simp only [shiftedDown]
    split_ifs <;> first | rfl | omega

/-- Making room at `pos` and writing there inserts. -/
theorem listing_insert (a : ℕ → α) {pos n : ℕ} (x : α) (h : pos ≤ n) :
    listing (Function.update (shiftedUp a pos n) pos x) (n + 1) = (listing a n).insertIdx pos x := by
  apply List.ext_getElem?
  intro j
  rw [getElem?_listing, List.getElem?_insertIdx, getElem?_listing, getElem?_listing, length_listing]
  rcases lt_trichotomy j pos with hj | rfl | hj
  · rw [Function.update_of_ne (by omega), shiftedUp, if_neg (by omega : ¬ (pos < j ∧ j ≤ n)),
      if_pos (by omega), if_pos hj, if_pos (by omega)]
  · rw [Function.update_self, if_pos (by omega), if_neg (by omega), if_pos rfl, if_pos h]
  · rw [Function.update_of_ne (by omega), if_neg (by omega : ¬ j < pos), if_neg (by omega : ¬ j = pos)]
    rcases lt_or_ge j (n + 1) with hn | hn
    · rw [if_pos hn, if_pos (by omega), shiftedUp, if_pos (by omega)]
    · rw [if_neg (by omega), if_neg (by omega)]

/-- Closing the gap at `pos` removes. -/
theorem listing_erase (a : ℕ → α) {pos n : ℕ} (h : pos < n) :
    listing (shiftedDown a pos (n - 1)) (n - 1) = (listing a n).eraseIdx pos := by
  apply List.ext_getElem?
  intro j
  rw [getElem?_listing, List.getElem?_eraseIdx, getElem?_listing, getElem?_listing]
  rcases lt_or_ge j pos with hj | hj
  · rw [if_pos (by omega), shiftedDown, if_neg (by omega), if_pos hj, if_pos (by omega)]
  · rw [if_neg (by omega : ¬ j < pos)]
    rcases lt_or_ge j (n - 1) with hn | hn
    · rw [if_pos hn, shiftedDown, if_pos ⟨hj, hn⟩, if_pos (by omega)]
    · rw [if_neg (by omega), if_neg (by omega)]

/-- Shifting the entries between and writing at the target moves an entry down. -/
theorem listing_move_down (a : ℕ → α) {p q n : ℕ} (hqp : q < p) (hp : p < n) :
    listing (Function.update (shiftedUp a q p) q (a p)) n =
      ((listing a n).eraseIdx p).insertIdx q (a p) := by
  apply List.ext_getElem?
  intro j
  rw [getElem?_listing, List.getElem?_insertIdx, List.getElem?_eraseIdx, List.getElem?_eraseIdx,
    List.length_eraseIdx, length_listing, if_pos hp]
  simp only [getElem?_listing]
  rcases lt_trichotomy j q with hj | rfl | hj
  · rw [Function.update_of_ne (by omega), shiftedUp, if_neg (by omega : ¬ (q < j ∧ j ≤ p)),
      if_pos (by omega), if_pos hj, if_pos (by omega)]
  · rw [Function.update_self, if_pos (by omega), if_neg (by omega), if_pos rfl, if_pos (by omega)]
  · rw [Function.update_of_ne (by omega), shiftedUp, if_neg (by omega : ¬ j < q),
      if_neg (by omega : ¬ j = q)]
    split_ifs <;> first | rfl | omega | (congr 2; omega)

/-- Shifting the entries between and writing at the target moves an entry up. -/
theorem listing_move_up (a : ℕ → α) {p q n : ℕ} (hpq : p < q) (hq : q < n) :
    listing (Function.update (shiftedDown a p q) q (a p)) n =
      ((listing a n).eraseIdx p).insertIdx q (a p) := by
  apply List.ext_getElem?
  intro j
  rw [getElem?_listing, List.getElem?_insertIdx, List.getElem?_eraseIdx, List.getElem?_eraseIdx,
    List.length_eraseIdx, length_listing, if_pos (by omega : p < n)]
  simp only [getElem?_listing]
  rcases lt_trichotomy j q with hj | rfl | hj
  · rw [Function.update_of_ne (by omega), shiftedDown, if_pos (by omega : j < n), if_pos hj]
    split_ifs <;> first | rfl | omega
  · rw [Function.update_self, if_pos (by omega), if_neg (by omega), if_pos rfl, if_pos (by omega)]
  · rw [Function.update_of_ne (by omega), shiftedDown, if_neg (by omega : ¬ (p ≤ j ∧ j < q)),
      if_neg (by omega : ¬ j < q), if_neg (by omega : ¬ j = q)]
    split_ifs <;> first | rfl | omega | (congr 2; omega)

/-! ### The order of the other entries -/

variable [DecidableEq α]

theorem filter_insertIdx (x : α) : ∀ (l : List α) (i : ℕ),
    (l.insertIdx i x).filter (· ≠ x) = l.filter (· ≠ x)
  | [], 0 => by simp
  | [], _ + 1 => by simp
  | y :: l, 0 => by simp
  | y :: l, i + 1 => by
      rw [List.insertIdx_succ_cons, List.filter_cons, List.filter_cons, filter_insertIdx x l i]

theorem filter_eraseIdx : ∀ (l : List α) (i : ℕ) (x : α), l[i]? = some x →
    (l.eraseIdx i).filter (· ≠ x) = l.filter (· ≠ x)
  | y :: l, 0, x, h => by
      rw [List.getElem?_cons_zero, Option.some.injEq] at h
      simp [h]
  | y :: l, i + 1, x, h => by
      rw [List.getElem?_cons_succ] at h
      rw [List.eraseIdx_cons_succ, List.filter_cons, List.filter_cons, filter_eraseIdx l i x h]

end FlakeWm
