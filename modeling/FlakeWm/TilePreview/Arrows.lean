import FlakeWm.Schemes.Run
import FlakeWm.TilePreview.Grid

/-! The arrow keys from the first press on.

    Each press leaves the item at `current` on a page that starts at a row and not beyond the last page. The
    pages of a single row are the exception: a press that skips a ragged last row leaves the item off the
    page. -/

namespace FlakeWm.TilePreview

variable {p : Preview} {n last : ℤ} {key : Key}

/-- There is an item at `current`, and the page shows it. -/
structure Preview.Visible (p : Preview) (n : ℤ) : Prop where
  current : 0 ≤ p.current ∧ p.current < n
  first : 0 ≤ p.indexFirst ∧ p.col ∣ p.indexFirst
  last : ∃ last, getLastIndex p n = some last ∧ p.indexFirst ≤ last
  page : p.indexFirst ≤ p.current ∧ p.current < p.indexFirst + p.total

/-- Rows of items that are all there. -/
structure Preview.Grid (p : Preview) : Prop where
  row : 0 < p.row
  col : 0 < p.col
  total : p.total = p.row * p.col

theorem Preview.Grid.ok (h : p.Grid) (hfirst : 0 ≤ p.indexFirst ∧ p.col ∣ p.indexFirst) : GridOk p :=
  ⟨h.total, fun _ _ => hfirst⟩

theorem Preview.Grid.total_pos (h : p.Grid) : 0 < p.total := by
  rw [h.total]
  exact mul_pos h.row h.col

/-- A row that starts before another ends before it. -/
theorem add_col_le {c f g : ℤ} (hc : 0 < c) (hf : c ∣ f) (hg : c ∣ g) (hlt : f < g) : f + c ≤ g := by
  obtain ⟨k, rfl⟩ := hf
  obtain ⟨l, rfl⟩ := hg
  have hkl : k < l := Int.lt_of_mul_lt_mul_left hlt (Int.le_of_lt hc)
  have hmul := Int.mul_le_mul_of_nonneg_left (show k + 1 ≤ l by omega) (Int.le_of_lt hc)
  rwa [mul_add, mul_one] at hmul

/-- An arrow key does not turn beyond the last page. -/
theorem arrowTarget_le_last {target : ℤ × ℤ} (hgrid : p.Grid) (h : p.Visible n)
    (hlast : getLastIndex p n = some last) (harrow : key.isArrow = true) (ht : arrowTarget p n key = some target) :
    target.2 ≤ last := by
  obtain ⟨last', hlast', hle⟩ := h.last
  obtain rfl : last' = last := Option.some.inj (hlast'.symm.trans hlast)
  have hn : 0 ≤ n := by have := h.current; omega
  obtain ⟨_, hspec, hlast₀, hdvd, hend, -⟩ := getLastIndex_spec (hgrid.ok h.first) hgrid.row hgrid.col hn
  obtain rfl := Option.some.inj (hlast.symm.trans hspec)
  have hcol := hgrid.col
  -- when the page is left at its end, there is a row below it
  have hbelow (hlt : p.indexFirst + p.total < n) : p.indexFirst + p.col ≤ last' :=
    add_col_le hcol h.first.2 hdvd (by omega)
  cases key with
  | up =>
    rw [arrowTarget_up hcol hn h.current.1 hlast] at ht
    obtain rfl := Option.some.inj ht
    split_ifs <;> omega
  | down =>
    rw [arrowTarget_down hcol h.current.1 hlast] at ht
    obtain rfl := Option.some.inj ht
    split_ifs with hwrap
    · exact Int.le_refl _
    · exact hlast₀
    · exact hbelow (by omega)
    · exact hle
  | left =>
    rw [arrowTarget_left h.current.1 hlast] at ht
    obtain rfl := Option.some.inj ht
    split_ifs <;> omega
  | right =>
    rw [arrowTarget_right h.current.1] at ht
    obtain rfl := Option.some.inj ht
    split_ifs with hwrap
    · exact hlast₀
    · exact hbelow (by omega)
    · exact hle
  | enter | leave | other => cases harrow

/-- A press that misses a ragged last row leaves the item before the page. -/
theorem missed_before_page {target : ℤ × ℤ} (hgrid : p.Grid) (h : p.Visible n)
    (hmiss : missesLastRow p n key = true) (ht : arrowTarget p n key = some target) : target.1 < target.2 := by
  have hn : 0 ≤ n := by have := h.current; omega
  obtain ⟨last, hlast, hlast₀, hdvd, hend, -⟩ := getLastIndex_spec (hgrid.ok h.first) hgrid.row hgrid.col hn
  obtain ⟨last', hlast', hle⟩ := h.last
  obtain rfl : last' = last := Option.some.inj (hlast'.symm.trans hlast)
  have hcol := hgrid.col
  simp only [missesLastRow, Bool.and_eq_true, Bool.or_eq_true, decide_eq_true_eq] at hmiss
  obtain ⟨⟨⟨hone, hragged⟩, hcolumn⟩, hkey⟩ := hmiss
  have htotal : p.total = p.col := by rw [hgrid.total, hone, one_mul]
  have hsplit : n = n % p.col + n / p.col * p.col := by
    rw [mul_comm]
    exact (Int.emod_add_mul_ediv n p.col).symm
  -- the last page is the ragged row
  have hrow : n / p.col * p.col ≤ last' := by
    by_contra hlt
    have hnext := add_col_le hcol hdvd (Int.dvd_mul_left (n / p.col) p.col) (by omega)
    omega
  rcases hkey with ⟨rfl, hfirst⟩ | ⟨rfl, hwrap⟩
  · rw [Int.emod_eq_of_lt h.current.1 hfirst] at hcolumn
    rw [arrowTarget_up hcol hn h.current.1 hlast, if_pos hfirst, Int.emod_eq_of_lt h.current.1 hfirst,
      if_neg (by omega)] at ht
    obtain rfl := Option.some.inj ht
    show n / p.col * p.col - (p.col - p.current) < last'
    omega
  · have hmod : p.current % p.col = p.current - p.indexFirst := by
      obtain ⟨k, hk⟩ := h.first.2
      have hpage := h.page
      rw [show p.current = p.current - p.indexFirst + p.col * k by omega, Int.add_mul_emod_self_left,
        Int.emod_eq_of_lt (by omega) (by omega)]
      omega
    have hcurrent := h.current
    have hbefore : p.indexFirst < last' := by
      by_contra hge
      have heq : p.indexFirst = last' := by omega
      have hlast_row : n - last' = n % p.col := by
        have := add_col_le hcol (Int.dvd_mul_left (n / p.col) p.col) hdvd
        have hr := Int.emod_lt_of_pos n hcol
        omega
      omega
    have hnext := add_col_le hcol h.first.2 hdvd hbefore
    rw [arrowTarget_down hcol h.current.1 hlast, if_pos hwrap, if_pos hbefore] at ht
    obtain rfl := Option.some.inj ht
    have hpage := h.page
    show p.current < last'
    omega

/-- The press of an arrow key that leaves the item off the page: some item is chosen, the page has a single
    row, and the column of the item is missing in the last row, to which Up from the first row or Down from the
    last full row would go. -/
def losesItem (p : Preview) (n : ℤ) (key : Key) : Bool := decide (0 ≤ p.current) && missesLastRow p n key

/-- The target of a press is on the page unless the press loses the item. -/
theorem arrowTarget_visible {target : ℤ × ℤ} (hgrid : p.Grid) (hn : 0 < n)
    (h : (p.current = -1 ∧ p.indexFirst = 0) ∨ p.Visible n) (harrow : key.isArrow = true)
    (ht : arrowTarget p n key = some target) :
    ({ p with current := target.1, indexFirst := target.2 } : Preview).Visible n ↔ losesItem p n key = false := by
  have hpos := hgrid.total_pos
  rcases h with ⟨hcur, hfirst⟩ | h
  · rw [arrowTarget_first key (by omega)] at ht
    obtain rfl := Option.some.inj ht
    have hzero : 0 ≤ p.indexFirst ∧ p.col ∣ p.indexFirst := ⟨by omega, hfirst ▸ Int.dvd_zero _⟩
    obtain ⟨last, hlast, hlast₀, -⟩ := getLastIndex_spec (hgrid.ok hzero) hgrid.row hgrid.col (Int.le_of_lt hn)
    have hvisible : ({ p with current := 0, indexFirst := p.indexFirst } : Preview).Visible n := by
      refine ⟨⟨Int.le_refl 0, hn⟩, hzero, ⟨last, hlast, ?_⟩, ?_⟩
      · show p.indexFirst ≤ last
        omega
      · show p.indexFirst ≤ 0 ∧ 0 < p.indexFirst + p.total
        omega
    simp [hvisible, losesItem, hcur]
  · have hcur : decide (0 ≤ p.current) = true := decide_eq_true h.current.1
    rw [losesItem, hcur, Bool.true_and]
    constructor
    · intro hvisible
      by_contra hmiss
      have hbefore := missed_before_page hgrid h (by simpa using hmiss) ht
      exact absurd hvisible.page.1 (Int.not_le.2 hbefore)
    · intro hmiss
      have hok := hgrid.ok h.first
      have hfirst := arrowTarget_aligned hok (Int.le_of_lt hn) ht hgrid.row hgrid.col
      have hholds : p.Holds n := ⟨(reaches_iff h.first.1 hpos).2 h.page, h.current.2⟩
      have hholds' := arrowTarget_holds hok hgrid.row hgrid.col hholds hmiss harrow ht
      have hpage : target.2 ≤ target.1 ∧ target.1 < target.2 + p.total :=
        (@reaches_iff { p with current := target.1, indexFirst := target.2 } target.1 hfirst.1 hpos).1 hholds'.1
      obtain ⟨last, hlast, -⟩ := getLastIndex_spec hok hgrid.row hgrid.col (Int.le_of_lt hn)
      exact ⟨⟨hholds'.1.1, hholds'.2⟩, hfirst, ⟨last, hlast, arrowTarget_le_last hgrid h hlast harrow ht⟩, hpage⟩

/-! ### The keyboard grab -/

/-- The loop over the items ends, since nothing is divided by zero. -/
theorem showItems_isSome {width height : ℤ} (hcol : p.col ≠ 0) (hwidth : width ≠ 0) :
    ∀ (items : List Item) (i col nodeY : ℤ) (selected : Option ℕ),
      (showItems p width height i col nodeY selected items).isSome = true
  | [], _, _, _, _ => rfl
  | item :: rest, i, col, nodeY, selected => by
      have ih := @showItems_isSome width height hcol hwidth rest
      rw [showItems]
      by_cases hbare : item.tree = false
      · obtain ⟨r, hr⟩ := Option.isSome_iff_exists.1 (ih i col nodeY selected)
        rw [if_pos hbare, hr]
        rfl
      by_cases hskip : i < p.indexFirst
      · obtain ⟨r, hr⟩ := Option.isSome_iff_exists.1 (ih (i + 1) col nodeY selected)
        rw [if_neg hbare, if_pos hskip, hr]
        rfl
      by_cases hend : i = p.indexFirst + p.total
      · rw [if_neg hbare, if_neg hskip, if_pos hend]
        rfl
      rw [if_neg hbare, if_neg hskip, if_neg hend, rem, if_neg hcol, rem, if_neg hwidth]
      obtain ⟨r, hr⟩ := Option.isSome_iff_exists.1 (ih (i + 1) (col + 1)
        (if col ≠ 0 ∧ col.tmod p.col = 0 then nodeY + height else nodeY)
        (if i = p.current then some item.id else selected))
      simp only [Option.bind_eq_bind, Option.bind_some, hr]
      rfl

/-- Showing the items of a page neither fails nor changes the page. -/
theorem previewItemShow_page {m : Manager} (hcol : m.page.col ≠ 0) (hwidth : m.fixedWidth ≠ 0)
    (hheight : m.fixedHeight ≠ 0) : ∃ items selected,
    previewItemShow m = some { m with items := items, selected := selected } := by
  obtain ⟨r, hr⟩ := Option.isSome_iff_exists.1 (@showItems_isSome m.page m.fixedWidth m.fixedHeight hcol
    hwidth (m.items.map Item.hide) 0 0 ((m.page.box.height.tmod m.fixedHeight).tdiv 2) m.selected)
  refine ⟨r.2, r.1, ?_⟩
  rw [previewItemShow, rem, if_neg hheight, Option.bind_eq_bind, Option.bind_some, hr]
  rfl

/-- The press of an arrow key. -/
def arrowStep (m : Manager) (key : Key) : Option Manager :=
  if key.isArrow then (keyboardGrabKey m key true).join else none

/-- A page with rows and columns that was just set up, and at least one item. The sizes of an item are what
    the rows and columns were divided by. -/
structure Fresh (m : Manager) : Prop where
  grid : m.page.Grid
  items : 0 < m.totalItems
  first : m.page.indexFirst = 0
  current : m.page.current = -1
  width : m.fixedWidth ≠ 0
  height : m.fixedHeight ≠ 0

/-- What every press keeps. -/
structure Ready (m : Manager) : Prop where
  grid : m.page.Grid
  items : 0 < m.totalItems
  page : (m.page.current = -1 ∧ m.page.indexFirst = 0) ∨ m.page.Visible m.totalItems
  width : m.fixedWidth ≠ 0
  height : m.fixedHeight ≠ 0

/-- A press moves the page to the target of the key. -/
theorem arrowStep_page {m : Manager} (h : Ready m) (harrow : key.isArrow = true) : ∃ target m',
    arrowTarget m.page m.totalItems key = some target ∧ arrowStep m key = some m' ∧
      m'.page = { m.page with current := target.1, indexFirst := target.2 } ∧ m'.totalItems = m.totalItems ∧
      m'.fixedWidth = m.fixedWidth ∧ m'.fixedHeight = m.fixedHeight := by
  have htarget : ∃ target, arrowTarget m.page m.totalItems key = some target := by
    rcases h.page with ⟨hcur, _⟩ | hvisible
    · exact ⟨_, arrowTarget_first key (by omega)⟩
    · obtain ⟨last, hlast, -⟩ := hvisible.last
      have hcur := hvisible.current.1
      cases key with
      | up => exact ⟨_, arrowTarget_up h.grid.col (Int.le_of_lt h.items) hcur hlast⟩
      | down => exact ⟨_, arrowTarget_down h.grid.col hcur hlast⟩
      | left => exact ⟨_, arrowTarget_left hcur hlast⟩
      | right => exact ⟨_, arrowTarget_right hcur⟩
      | enter | leave | other => cases harrow
  obtain ⟨target, htarget⟩ := htarget
  let moved := m.setPage { m.page with current := target.1, indexFirst := target.2 }
  have hpage : moved.page = { m.page with current := target.1, indexFirst := target.2 } := by
    simp [moved, Manager.setPage, Manager.page]
  obtain ⟨items, selected, hshow⟩ := @previewItemShow_page moved
    (by rw [hpage]; exact Ne.symm (Int.ne_of_lt h.grid.col)) h.width h.height
  refine ⟨target, { moved with items := items, selected := selected }, htarget, ?_, hpage, rfl, rfl, rfl⟩
  have hkey : key ≠ .leave ∧ key ≠ .enter := by
    constructor
    · rintro rfl
      cases harrow
    · rintro rfl
      cases harrow
  rw [arrowStep, if_pos harrow, keyboardGrabKey, if_neg Bool.noConfusion, if_neg hkey.1,
    if_neg fun henter => hkey.2 henter.1, if_neg (by simp [harrow]), htarget]
  simp only [Option.bind_eq_bind, Option.bind_some]
  rw [show m.setPage { m.page with current := target.1, indexFirst := target.2 } = moved from rfl, hshow]
  rfl

/-- One press keeps what the next one needs, when it does not lose the item. -/
theorem arrowStep_ready {m m' : Manager} (h : Ready m) (hkeeps : losesItem m.page m.totalItems key = false)
    (hs : arrowStep m key = some m') : Ready m' := by
  have harrow : key.isArrow = true := (Option.ite_none_right_eq_some.1 hs).1
  obtain ⟨target, m₁, htarget, hstep, hpage, hitems, hwidth, hheight⟩ := arrowStep_page h harrow
  obtain rfl : m₁ = m' := Option.some.inj (hstep.symm.trans hs)
  refine ⟨?_, hitems ▸ h.items, .inr ?_, hwidth ▸ h.width, hheight ▸ h.height⟩
  · rw [hpage]
    exact ⟨h.grid.row, h.grid.col, h.grid.total⟩
  · rw [hpage, hitems]
    exact (arrowTarget_visible h.grid h.items h.page harrow htarget).2 hkeeps

/-- From a fresh page on, as long as no press loses the item, each press of an arrow key is handled, and leaves
    the item on the page exactly if it does not lose it either. -/
theorem arrow_keys_visible {m₀ m : Manager} (hfresh : Fresh m₀)
    (h : Reach arrowStep (fun m key => losesItem m.page m.totalItems key = false) m₀ m)
    (harrow : key.isArrow = true) : ∃ m', arrowStep m key = some m' ∧
    (m'.page.Visible m'.totalItems ↔ losesItem m.page m.totalItems key = false) := by
  have hready : Ready m := h.inv
    ⟨hfresh.grid, hfresh.items, .inl ⟨hfresh.current, hfresh.first⟩, hfresh.width, hfresh.height⟩
    fun _ _ _ => arrowStep_ready
  obtain ⟨target, m', htarget, hstep, hpage, hitems, -⟩ := arrowStep_page hready harrow
  refine ⟨m', hstep, ?_⟩
  rw [hpage, hitems]
  exact arrowTarget_visible hready.grid hready.items hready.page harrow htarget

attribute [local instance] neZero_previews

/-- A page of `row` rows of `col` items that was just set up, and `n` items. -/
def freshManager (row col : ℤ) (n : ℕ) : Manager where
  items := (List.range n).map fun k => { id := k, view := k, tree := true }
  preview := fun _ => { box := ⟨0, 0, 100 * col, 100 * row⟩, current := -1, total := row * col, row := row, col := col }
  itemPage := 0
  selected := none
  activeView := none
  state := .halfScreen
  totalItems := n
  usableArea := ⟨0, 0, 0, 0⟩
  fixedWidth := 100
  fixedHeight := 100
  made := n

theorem freshManager_fresh {row col : ℤ} {n : ℕ} (hrow : 0 < row) (hcol : 0 < col) (hn : 0 < n) :
    Fresh (freshManager row col n) :=
  ⟨⟨hrow, hcol, rfl⟩, Int.natCast_pos.2 hn, rfl, rfl, (by decide : (100 : ℤ) ≠ 0), (by decide : (100 : ℤ) ≠ 0)⟩

/-- Eight items in two rows of three: Up from the first row goes to the item above the gap in the last row. -/
theorem up_over_gap : ∃ m m', exec (guarded arrowStep fun m key => !losesItem m.page m.totalItems key)
      (freshManager 2 3 8) [.right, .right, .right] = some m ∧
    arrowStep m .up = some m' ∧ (m'.page.current, m'.page.indexFirst) = (5, 3) ∧ m'.page.Visible m'.totalItems := by
  have hrun : (exec (guarded arrowStep fun m key => !losesItem m.page m.totalItems key)
      (freshManager 2 3 8) [.right, .right, .right]).map (fun m => (losesItem m.page m.totalItems .up,
        (arrowStep m .up).map fun m' => (m'.page.current, m'.page.indexFirst))) = some (false, some (5, 3)) := by
    decide +kernel
  obtain ⟨m, hm, hpage⟩ := Option.map_eq_some_iff.1 hrun
  obtain ⟨hkeeps, hup⟩ := Prod.mk.inj hpage
  obtain ⟨m', hstep, hvisible⟩ := arrow_keys_visible (freshManager_fresh (by decide) (by decide) (by decide))
    ((Reach.of_exec_guarded _ _ hm).mono fun _ _ hkeep => by simpa using hkeep) (rfl : Key.up.isArrow = true)
  rw [hstep] at hup
  exact ⟨m, m', hm, hstep, Option.some.inj hup, hvisible.2 hkeeps⟩

/-- Three items in rows of two, with a single row on the page: Down from the second goes to the last page and
    leaves the item on the first. -/
theorem down_loses_item : ¬ ∀ m₀ m m' key, Fresh m₀ → Reach arrowStep Always m₀ m → arrowStep m key = some m' →
    m'.page.Visible m'.totalItems := by
  intro h
  have hrun : (exec arrowStep (freshManager 1 2 3) [.right, .right]).bind (fun m => (arrowStep m .down).map fun m' =>
      (m'.page.current, m'.page.indexFirst)) = some (1, 2) := by decide +kernel
  obtain ⟨m, hm, hdown⟩ := Option.bind_eq_some_iff.1 hrun
  obtain ⟨m', hstep, hpage⟩ := Option.map_eq_some_iff.1 hdown
  obtain ⟨hcurrent, hfirst⟩ := Prod.mk.inj hpage
  have hvisible := h _ m m' .down (freshManager_fresh (by decide) (by decide) (by decide)) (.of_exec _ _ hm) hstep
  have hbefore := hvisible.page.1
  rw [hcurrent, hfirst] at hbefore
  exact absurd hbefore (by decide)

end FlakeWm.TilePreview
