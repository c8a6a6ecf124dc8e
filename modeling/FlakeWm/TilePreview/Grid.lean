import Mathlib.Tactic.Linarith
import Mathlib.Tactic.Ring
import FlakeWm.TilePreview.Model

/-! The grid of a preview.

    The page shows `row` rows of `col` items from `indexFirst` on, which stays a multiple of `col`.
    `getLastIndex` is the first index of the page that ends with the last row. An arrow key moves the
    index and the page together, so that the index stays on the page; only when a page has a single
    row can it go wrong, at the last row of items. -/

namespace FlakeWm.TilePreview

variable {p : Preview} {n i j : ℤ}

/-- Index `j` is shown by the loop of `preview_item_show` that has come to index `i`. -/
def Preview.Reaches (p : Preview) (i j : ℤ) : Prop :=
  i ≤ j ∧ p.indexFirst ≤ j ∧
    ¬ (i ≤ p.indexFirst + p.total ∧ p.indexFirst ≤ p.indexFirst + p.total ∧
      p.indexFirst + p.total ≤ j)

instance (p : Preview) (i j : ℤ) : Decidable (p.Reaches i j) :=
  inferInstanceAs (Decidable (_ ∧ _ ∧ ¬ _))

/-- The page shows the item at `current`, of `n`. -/
def Preview.Holds (p : Preview) (n : ℤ) : Prop := p.Reaches 0 p.current ∧ p.current < n

instance (p : Preview) (n : ℤ) : Decidable (p.Holds n) := inferInstanceAs (Decidable (_ ∧ _))

/-- Pages start at a row. -/
structure GridOk (p : Preview) : Prop where
  total : p.total = p.row * p.col
  aligned : 0 < p.row → 0 < p.col → 0 ≤ p.indexFirst ∧ p.col ∣ p.indexFirst

theorem quot_pos {a b : ℤ} (ha : 0 ≤ a) (hb : 0 < b) : quot a b = some (a / b) := by
  rw [quot, if_neg (by omega), Int.tdiv_eq_ediv_of_nonneg ha]

theorem rem_pos {a b : ℤ} (ha : 0 ≤ a) (hb : 0 < b) : rem a b = some (a % b) := by
  rw [rem, if_neg (by omega), Int.tmod_eq_emod_of_nonneg ha]

theorem GridOk.total_ge (h : GridOk p) (hrow : 0 < p.row) (hcol : 0 < p.col) :
    p.col ≤ p.total := by
  rw [h.total]
  nlinarith

/-- The last page ends with the last row. -/
theorem getLastIndex_spec (h : GridOk p) (hrow : 0 < p.row) (hcol : 0 < p.col) (hn : 0 ≤ n) :
    ∃ last, getLastIndex p n = some last ∧ 0 ≤ last ∧ p.col ∣ last ∧ n ≤ last + p.total ∧
      (last = 0 ∨ last + p.total < n + p.col) := by
  have htotal := h.total_ge hrow hcol
  by_cases hle : n > p.total
  · have hrem : rem n p.total = some (n % p.total) := rem_pos hn (by omega)
    have hpos : 0 ≤ n % p.total := Int.emod_nonneg _ (by omega)
    have hlt : n % p.total < p.total := Int.emod_lt_of_pos _ (by omega)
    have hsplit : n = n % p.total + p.total * (n / p.total) := (Int.emod_add_mul_ediv n p.total).symm
    have hpage : 1 ≤ n / p.total := Int.le_ediv_of_mul_le (by omega) (by omega)
    have hmul : p.total ≤ p.total * (n / p.total) := by nlinarith
    have hdvd : p.col ∣ p.total := ⟨p.row, by rw [h.total, mul_comm]⟩
    have hdvd' : p.col ∣ p.total * (n / p.total) := hdvd.mul_right _
    by_cases hzero : n % p.total = 0
    · refine ⟨n - p.total, ?_, by omega, ?_, by omega, .inr (by omega)⟩
      · rw [getLastIndex, if_pos hle, hrem]
        simp [hzero]
      · rw [hsplit, hzero, zero_add]
        exact Int.dvd_sub hdvd' hdvd
    · have hq := quot_pos hpos hcol
      have hr := rem_pos hpos hcol
      have hc : 0 ≤ n % p.total % p.col := Int.emod_nonneg _ (by omega)
      have hc' : n % p.total % p.col < p.col := Int.emod_lt_of_pos _ hcol
      have hsplit' : n % p.total = n % p.total % p.col + p.col * (n % p.total / p.col) :=
        (Int.emod_add_mul_ediv _ _).symm
      obtain ⟨rows, hrows, hfull, hover⟩ : ∃ rows : ℤ,
          rows = (if n % p.total % p.col = 0 then n % p.total / p.col
            else n % p.total / p.col + 1) ∧
          n % p.total ≤ p.col * rows ∧ p.col * rows < n % p.total + p.col := by
        refine ⟨_, rfl, ?_⟩
        split_ifs with hcase
        · constructor <;> omega
        · rw [mul_add, mul_one]
          constructor <;> omega
      have hlast : n - (n % p.total + (p.row - rows) * p.col) =
          p.total * (n / p.total) - p.total + p.col * rows := by
        rw [h.total]
        rw [h.total] at hsplit
        linarith [mul_comm p.col rows, sub_mul p.row rows p.col]
      refine ⟨n - (n % p.total + (p.row - rows) * p.col), ?_, ?_, ?_, ?_, .inr ?_⟩
      · rw [getLastIndex, if_pos hle, hrem]
        simp [hzero, hq, hr, hrows]
      · omega
      · rw [hlast]
        exact Int.dvd_add (Int.dvd_sub hdvd' hdvd) (Int.dvd_mul_right _ _)
      · omega
      · omega
  · exact ⟨0, by rw [getLastIndex, if_neg hle], by omega, Int.dvd_zero _, by omega, .inl rfl⟩

/-- The page of a single row does not follow the index to the last row, or the index goes back to
    the row before it: the column of the index is missing in the last row. -/
def missesLastRow (p : Preview) (n : ℤ) (key : Key) : Bool :=
  decide (p.row = 1) && decide (0 < n % p.col) && decide (n % p.col ≤ p.current % p.col) &&
    (decide (key = .up) && decide (p.current < p.col) ||
      decide (key = .down) && decide (n ≤ p.current + p.col))

theorem sub_col_aligned {f c : ℤ} (hdvd : c ∣ f) (hpos : 0 < f) : 0 ≤ f - c ∧ c ∣ f - c :=
  ⟨by have := Int.le_of_dvd hpos hdvd; omega, Int.dvd_sub hdvd (Int.dvd_refl c)⟩

theorem add_col_aligned {f c : ℤ} (hf : 0 ≤ f) (hc : 0 < c) (hdvd : c ∣ f) :
    0 ≤ f + c ∧ c ∣ f + c :=
  ⟨by omega, Int.dvd_add hdvd (Int.dvd_refl c)⟩

/-! ### The arrow keys on a grid -/

theorem arrowTarget_first (key : Key) (hcur : p.current < 0) :
    arrowTarget p n key = some (0, p.indexFirst) := by
  unfold arrowTarget
  rw [if_pos hcur]

section arrows

variable {last : ℤ} (hcol : 0 < p.col) (hn : 0 ≤ n) (hcur : 0 ≤ p.current)
  (hlast : getLastIndex p n = some last)

include hcol hn hcur hlast

theorem arrowTarget_up : arrowTarget p n .up = some (
    if p.current < p.col then
      (if p.current % p.col < n % p.col then n / p.col * p.col + p.current % p.col
        else n / p.col * p.col - (p.col - p.current % p.col), last)
    else if p.current - p.col < p.indexFirst then (p.current - p.col, p.indexFirst - p.col)
    else (p.current - p.col, p.indexFirst)) := by
  rw [arrowTarget, if_neg (by omega)]
  by_cases h : p.current < p.col
  · simp [h, quot_pos hn hcol, rem_pos hn hcol, rem_pos hcur hcol, hlast]
  · simp only [sub_neg, h, if_false]
    split_ifs <;> rfl

omit hn in
theorem arrowTarget_down : arrowTarget p n .down = some (
    if n ≤ p.current + p.col then
      if p.indexFirst < last then (p.current, last) else (p.current % p.col, 0)
    else if p.indexFirst + p.total ≤ p.current + p.col then
      (p.current + p.col, p.indexFirst + p.col)
    else (p.current + p.col, p.indexFirst)) := by
  rw [arrowTarget, if_neg (by omega)]
  by_cases h : n ≤ p.current + p.col
  · by_cases h' : p.indexFirst < last
    · simp [h, h', hlast]
    · simp [h, h', hlast, rem_pos hcur hcol]
  · simp only [ge_iff_le, h, if_false]
    split_ifs <;> rfl

omit hcol hn in
theorem arrowTarget_left : arrowTarget p n .left = some (
    if p.current = 0 then (n - 1, last)
    else if p.current - 1 < p.indexFirst then (p.current - 1, p.indexFirst - p.col)
    else (p.current - 1, p.indexFirst)) := by
  rw [arrowTarget, if_neg (by omega)]
  by_cases h : p.current = 0
  · simp [h, hlast]
  · simp only [h, if_false, if_neg (show ¬ p.current - 1 < 0 by omega)]
    split_ifs <;> rfl

omit hcol hn hlast in
theorem arrowTarget_right : arrowTarget p n .right = some (
    if n ≤ p.current + 1 then (0, 0)
    else if p.indexFirst + p.total ≤ p.current + 1 then (p.current + 1, p.indexFirst + p.col)
    else (p.current + 1, p.indexFirst)) := by
  rw [arrowTarget, if_neg (by omega)]
  by_cases h : n ≤ p.current + 1
  · simp only [h, if_true, if_pos (show p.current + 1 > n - 1 by omega)]
  · simp only [h, if_false, if_neg (show ¬ p.current + 1 > n - 1 by omega), ge_iff_le]
    split_ifs <;> rfl

end arrows

/-- The page that an arrow key turns to starts at a row. -/
theorem arrowTarget_aligned {key : Key} {target : ℤ × ℤ} (h : GridOk p) (hn : 0 ≤ n)
    (ht : arrowTarget p n key = some target) (hrow : 0 < p.row) (hcol : 0 < p.col) :
    0 ≤ target.2 ∧ p.col ∣ target.2 := by
  obtain ⟨last, hlast, hlast₀, hdvd, -⟩ := getLastIndex_spec h hrow hcol hn
  obtain ⟨hf, hf'⟩ := h.aligned hrow hcol
  by_cases hcur : p.current < 0
  · rw [arrowTarget_first key hcur] at ht
    cases ht
    exact ⟨hf, hf'⟩
  · have hcur : 0 ≤ p.current := by omega
    cases key with
    | up =>
      rw [arrowTarget_up hcol hn hcur hlast] at ht
      obtain rfl := Option.some.inj ht
      split_ifs
      · exact ⟨hlast₀, hdvd⟩
      · exact ⟨hlast₀, hdvd⟩
      · exact sub_col_aligned hf' (by omega)
      · exact ⟨hf, hf'⟩
    | down =>
      rw [arrowTarget_down hcol hcur hlast] at ht
      obtain rfl := Option.some.inj ht
      split_ifs
      · exact ⟨hlast₀, hdvd⟩
      · exact ⟨Int.le_refl 0, Int.dvd_zero _⟩
      · exact add_col_aligned hf hcol hf'
      · exact ⟨hf, hf'⟩
    | left =>
      rw [arrowTarget_left hcur hlast] at ht
      obtain rfl := Option.some.inj ht
      split_ifs
      · exact ⟨hlast₀, hdvd⟩
      · exact sub_col_aligned hf' (by omega)
      · exact ⟨hf, hf'⟩
    | right =>
      rw [arrowTarget_right hcur] at ht
      obtain rfl := Option.some.inj ht
      split_ifs
      · exact ⟨Int.le_refl 0, Int.dvd_zero _⟩
      · exact add_col_aligned hf hcol hf'
      · exact ⟨hf, hf'⟩
    | enter | leave | other =>
      simp only [arrowTarget, ite_self, Option.some.injEq] at ht
      cases ht
      exact ⟨hf, hf'⟩

/-- On a grid the loop shows the indices of the page. -/
theorem reaches_iff (hf : 0 ≤ p.indexFirst) (htotal : 0 < p.total) :
    p.Reaches 0 j ↔ p.indexFirst ≤ j ∧ j < p.indexFirst + p.total := by
  rw [Preview.Reaches]
  omega

/-- The multiples of `c` below the end of block `a` are not beyond its start. -/
theorem multiple_le {a c f : ℤ} (hc : 0 < c) (hdvd : c ∣ f) (hlt : f < a * c + c) : f ≤ a * c := by
  obtain ⟨k, rfl⟩ := hdvd
  have hk : k < a + 1 := by
    refine Int.lt_of_mul_lt_mul_left (a := c) ?_ (Int.le_of_lt hc)
    rw [mul_add, mul_one, mul_comm c a]
    exact hlt
  rw [mul_comm c k]
  exact Int.mul_le_mul_of_nonneg_right (by omega) (Int.le_of_lt hc)

/-- Up from the first row stays on the last page. -/
theorem up_wrap_holds {last : ℤ} (h : GridOk p) (hrow : 0 < p.row) (hcol : 0 < p.col)
    (hcur : 0 ≤ p.current) (hlt : p.current < n) (hfirst : p.current < p.col)
    (hmiss : p.row = 1 → 0 < n % p.col → p.current < n % p.col) (hdvd : p.col ∣ last)
    (hend : n ≤ last + p.total) (hstart : last = 0 ∨ last + p.total < n + p.col) :
    let c := if p.current % p.col < n % p.col then n / p.col * p.col + p.current % p.col
      else n / p.col * p.col - (p.col - p.current % p.col)
    (last ≤ c ∧ c < last + p.total) ∧ c < n := by
  have hsplit : n = n % p.col + n / p.col * p.col := by
    rw [mul_comm]
    exact (Int.emod_add_mul_ediv n p.col).symm
  have hr : 0 ≤ n % p.col := Int.emod_nonneg _ (by omega)
  have hr' : n % p.col < p.col := Int.emod_lt_of_pos _ hcol
  have hq : 0 ≤ n / p.col := Int.ediv_nonneg (by omega) (by omega)
  have htotal := h.total_ge hrow hcol
  rw [Int.emod_eq_of_lt hcur hfirst]
  have hcells : 0 ≤ n / p.col * p.col := Int.mul_nonneg hq (by omega)
  intro c
  by_cases hlast : p.current < n % p.col
  · have hc : c = n / p.col * p.col + p.current := if_pos hlast
    have hle : last ≤ n / p.col * p.col := by
      rcases hstart with rfl | hstart
      · exact hcells
      · exact multiple_le hcol hdvd (by omega)
    omega
  · have hc : c = n / p.col * p.col - (p.col - p.current) := if_neg hlast
    have hrows : 1 ≤ n / p.col := by
      by_contra hnone
      have hzero : n / p.col = 0 := by omega
      rw [hzero, zero_mul] at hsplit
      omega
    have hcells' : p.col ≤ n / p.col * p.col := by nlinarith
    have hle : last ≤ (n / p.col - 1) * p.col := by
      rcases hstart with rfl | hstart
      · rw [sub_mul, one_mul]
        omega
      · refine multiple_le hcol hdvd ?_
        rw [sub_mul, one_mul]
        by_cases hone : p.row = 1
        · have := hmiss hone
          omega
        · have htwo : 2 * p.col ≤ p.total := by
            rw [h.total]
            exact Int.mul_le_mul_of_nonneg_right (by omega) (by omega)
          omega
    rw [sub_mul, one_mul] at hle
    omega

/-- Down from the last rows to the last page stays on it. -/
theorem down_last_holds {last : ℤ} (h : GridOk p) (hrow : 0 < p.row) (hcol : 0 < p.col)
    (hlt : p.current < n) (hdown : n ≤ p.current + p.col)
    (hmiss : p.row = 1 → 0 < n % p.col → p.current % p.col < n % p.col) (hdvd : p.col ∣ last)
    (hend : n ≤ last + p.total) (hstart : last + p.total < n + p.col) :
    last ≤ p.current ∧ p.current < last + p.total := by
  refine ⟨?_, by omega⟩
  by_cases hone : p.row = 1
  · have htotal : p.total = p.col := by rw [h.total, hone, one_mul]
    have hsplit : n = n % p.col + n / p.col * p.col := by
      rw [mul_comm]
      exact (Int.emod_add_mul_ediv n p.col).symm
    have hsplit' : p.current = p.current % p.col + p.current / p.col * p.col := by
      rw [mul_comm]
      exact (Int.emod_add_mul_ediv _ p.col).symm
    have hr : 0 ≤ n % p.col := Int.emod_nonneg _ (by omega)
    have hr' : n % p.col < p.col := Int.emod_lt_of_pos _ hcol
    by_cases hfull : n % p.col = 0
    · have hle : last ≤ (n / p.col - 1) * p.col := by
        refine multiple_le hcol hdvd ?_
        rw [sub_mul, one_mul]
        omega
      rw [sub_mul, one_mul] at hle
      omega
    · have hcolumn := hmiss hone (by omega)
      have hle : last ≤ n / p.col * p.col := multiple_le hcol hdvd (by omega)
      -- the row of the index is the last one, since its column is in it
      have hrows : n / p.col ≤ p.current / p.col := by
        have hmul : p.col * (n / p.col) < p.col * (p.current / p.col + 1) := by
          rw [mul_add, mul_one, mul_comm p.col, mul_comm p.col]
          omega
        have := Int.lt_of_mul_lt_mul_left hmul (by omega)
        omega
      have hmul := Int.mul_le_mul_of_nonneg_right hrows (Int.le_of_lt hcol)
      have hc : 0 ≤ p.current % p.col := Int.emod_nonneg _ (by omega)
      omega
  · have htwo : 2 * p.col ≤ p.total := by
      rw [h.total]
      exact Int.mul_le_mul_of_nonneg_right (by omega) (by omega)
    omega

/-- An arrow key keeps the index on the page, unless it misses the last row. -/
theorem arrowTarget_holds {key : Key} {target : ℤ × ℤ} (h : GridOk p) (hrow : 0 < p.row)
    (hcol : 0 < p.col) (hp : p.Holds n) (hmiss : missesLastRow p n key = false)
    (harrow : key.isArrow = true) (ht : arrowTarget p n key = some target) :
    ({ p with current := target.1, indexFirst := target.2 } : Preview).Holds n := by
  have hn : 0 ≤ n := by
    have := hp.1.1
    have := hp.2
    omega
  obtain ⟨last, hlast, hlast₀, hdvd, hend, hstart⟩ := getLastIndex_spec h hrow hcol hn
  obtain ⟨hf, hf'⟩ := h.aligned hrow hcol
  have htotal := h.total_ge hrow hcol
  have haligned := (arrowTarget_aligned h hn ht hrow hcol).1
  obtain ⟨⟨hcur, -⟩, hlt⟩ := id hp
  obtain ⟨hfirst, hpage⟩ := (reaches_iff hf (by omega)).mp hp.1
  have hpos : 0 < p.total := by omega
  suffices hgoal : (target.2 ≤ target.1 ∧ target.1 < target.2 + p.total) ∧ target.1 < n by
    refine ⟨(reaches_iff ?_ ?_).mpr hgoal.1, hgoal.2⟩
    · exact haligned
    · exact hpos
  cases key with
  | up =>
    rw [arrowTarget_up hcol hn hcur hlast] at ht
    obtain rfl := Option.some.inj ht
    by_cases hwrap : p.current < p.col
    · rw [if_pos hwrap]
      refine up_wrap_holds h hrow hcol hcur hlt hwrap ?_ hdvd hend hstart
      intro hone hpos
      by_contra hge
      have hmod : p.current % p.col = p.current := Int.emod_eq_of_lt hcur hwrap
      simp [missesLastRow, hone, hpos, hwrap, hmod] at hmiss
      omega
    · rw [if_neg hwrap]
      split_ifs <;> omega
  | down =>
    rw [arrowTarget_down hcol hcur hlast] at ht
    obtain rfl := Option.some.inj ht
    by_cases hwrap : n ≤ p.current + p.col
    · rw [if_pos hwrap]
      split_ifs with hless
      · refine ⟨down_last_holds h hrow hcol hlt hwrap ?_ hdvd hend (by omega), hlt⟩
        intro hone hpos
        by_contra hge
        simp [missesLastRow, hone, hpos, hwrap] at hmiss
        omega
      · have hmod := Int.emod_lt_of_pos p.current hcol
        have hmod' : 0 ≤ p.current % p.col := Int.emod_nonneg _ (by omega)
        have hle : p.current % p.col ≤ p.current := by
          have hrows := Int.mul_nonneg (Int.le_of_lt hcol) (Int.ediv_nonneg hcur (Int.le_of_lt hcol))
          have hsplit := Int.emod_add_mul_ediv p.current p.col
          omega
        omega
    · rw [if_neg hwrap]
      split_ifs <;> omega
  | left =>
    rw [arrowTarget_left hcur hlast] at ht
    obtain rfl := Option.some.inj ht
    split_ifs <;> omega
  | right =>
    rw [arrowTarget_right hcur] at ht
    obtain rfl := Option.some.inj ht
    split_ifs <;> omega
  | enter | leave | other => cases harrow

end FlakeWm.TilePreview
