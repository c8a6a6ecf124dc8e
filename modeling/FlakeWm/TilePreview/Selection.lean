import Mathlib.Data.List.Nodup
import FlakeWm.Schemes.Run
import FlakeWm.TilePreview.Grid

/-! The selection of the tile preview.

    `preview_item_show` frames the item at `current` when the page shows it, and points `selected` to
    it; when the page does not show it, no item is framed and `selected` stays what it was. So while
    something is selected, it is the item at `current`, as long as every call of `preview_item_show`
    finds one (`keepsSelection`). -/

namespace FlakeWm.TilePreview

variable {m m' : Manager} {p : Preview} {item : Item} {items : List Item} {id : ℕ}

/-- The items with a tree, by number. -/
def ids (items : List Item) : List ℕ := (items.filter (·.tree)).map Item.id

def framedIds (items : List Item) : List ℕ := (items.filter Item.framed).map Item.id

/-- The item that the loop frames, when it has come to index `i`. -/
def Preview.target (p : Preview) (i : ℤ) (items : List Item) : Option ℕ :=
  if p.Reaches i p.current then (ids items)[(p.current - i).toNat]? else none

@[simp] theorem ids_nil : ids [] = [] := rfl

theorem ids_cons_tree (h : item.tree = true) : ids (item :: items) = item.id :: ids items := by
  simp [ids, h]

theorem ids_cons_bare (h : item.tree = false) : ids (item :: items) = ids items := by
  simp [ids, h]

theorem framedIds_cons_off (h : item.framed = false) :
    framedIds (item :: items) = framedIds items := by
  simp [framedIds, h]

theorem framedIds_cons_on (h : item.framed = true) :
    framedIds (item :: items) = item.id :: framedIds items := by
  simp [framedIds, h]

/-- Nothing is shown. -/
def Hidden (items : List Item) : Prop := ∀ item ∈ items, item.framed = false

theorem Hidden.framedIds (h : Hidden items) : framedIds items = [] := by
  simp only [TilePreview.framedIds, List.map_eq_nil_iff, List.filter_eq_nil_iff]
  intro item hitem
  simp [h item hitem]

theorem hidden_hide (items : List Item) : Hidden (items.map Item.hide) := by
  intro item hitem
  obtain ⟨old, -, rfl⟩ := List.mem_map.mp hitem
  cases h : old.tree with
  | true => simp [Item.framed, Item.hide, h]
  | false => simp [Item.framed, Item.hide, h]

/-- What the loop does to the items and the selection. -/
structure ShownAs (p : Preview) (i : ℤ) (selected : Option ℕ) (items : List Item)
    (r : Option ℕ × List Item) : Prop where
  same : r.2.map (fun item => (item.id, item.tree)) = items.map fun item => (item.id, item.tree)
  framed : framedIds r.2 = (p.target i items).toList
  selected : r.1 = (p.target i items).or selected

/-- The loop goes on without a frame: before the page, or at another index of it. -/
theorem target_next {i : ℤ} (htree : item.tree = true)
    (hmoves : i < p.indexFirst ∨ i ≠ p.indexFirst + p.total ∧ i ≠ p.current) :
    p.target i (item :: items) = p.target (i + 1) items := by
  rw [Preview.target, Preview.target, ids_cons_tree htree]
  by_cases hr : p.Reaches i p.current
  · have hr' : p.Reaches (i + 1) p.current := by
      unfold Preview.Reaches at hr ⊢
      omega
    have hindex : (p.current - i).toNat = (p.current - (i + 1)).toNat + 1 := by
      have := hr'.1
      omega
    rw [if_pos hr, if_pos hr', hindex, List.getElem?_cons_succ]
  · have hr' : ¬ p.Reaches (i + 1) p.current := by
      unfold Preview.Reaches at hr ⊢
      omega
    rw [if_neg hr, if_neg hr']

theorem target_break {i : ℤ} (hi : ¬ i < p.indexFirst) (hbreak : i = p.indexFirst + p.total) :
    p.target i items = none := by
  rw [Preview.target, if_neg]
  unfold Preview.Reaches
  omega

theorem target_here {i : ℤ} (htree : item.tree = true) (hi : ¬ i < p.indexFirst)
    (hbreak : i ≠ p.indexFirst + p.total) (hcur : i = p.current) :
    p.target i (item :: items) = some item.id := by
  rw [Preview.target, if_pos, ids_cons_tree htree, hcur, Int.sub_self]
  · rfl
  · unfold Preview.Reaches
    omega

theorem target_past {i : ℤ} (hcur : i = p.current) : p.target (i + 1) items = none := by
  rw [Preview.target, if_neg]
  unfold Preview.Reaches
  omega

theorem ShownAs.keep {i j : ℤ} {selected : Option ℕ} {r : Option ℕ × List Item}
    (h : ShownAs p j selected items r) (hitem : item.framed = false)
    (htarget : p.target i (item :: items) = p.target j items) :
    ShownAs p i selected (item :: items) (r.1, item :: r.2) where
  same := by simpa using h.same
  framed := by rw [framedIds_cons_off hitem, htarget, h.framed]
  selected := by rw [htarget, h.selected]

/-- The loop frames the item at `current` if it comes to it, and no other. -/
theorem showItems_spec {width height : ℤ} : ∀ (items : List Item) {i col nodeY : ℤ}
    {selected : Option ℕ} {r : Option ℕ × List Item}, Hidden items →
    showItems p width height i col nodeY selected items = some r → ShownAs p i selected items r
  | [], i, _, _, selected, r, _, h => by
      rw [showItems, Option.some.injEq] at h
      subst h
      have hnone : p.target i [] = none := by simp [Preview.target]
      exact ⟨rfl, by simp [hnone, framedIds], by simp [hnone]⟩
  | item :: rest, i, col, nodeY, selected, r, hidden, h => by
      have hrest : Hidden rest := fun other hother => hidden other (List.mem_cons_of_mem _ hother)
      have hitem := hidden item List.mem_cons_self
      rw [showItems] at h
      by_cases hbare : item.tree = false
      · rw [if_pos hbare] at h
        obtain ⟨r', hr', h⟩ := Option.bind_eq_some_iff.mp h
        cases h
        refine (showItems_spec rest hrest hr').keep hitem ?_
        rw [Preview.target, Preview.target, ids_cons_bare hbare]
      rw [if_neg hbare] at h
      have htree : item.tree = true := by simpa using hbare
      by_cases hskip : i < p.indexFirst
      · rw [if_pos hskip] at h
        obtain ⟨r', hr', h⟩ := Option.bind_eq_some_iff.mp h
        cases h
        exact (showItems_spec rest hrest hr').keep hitem (target_next htree (.inl hskip))
      rw [if_neg hskip] at h
      by_cases hbreak : i = p.indexFirst + p.total
      · rw [if_pos hbreak, Option.some.injEq] at h
        subst h
        have hnone : p.target i (item :: rest) = none := target_break hskip hbreak
        exact ⟨rfl, by rw [hnone, hidden.framedIds]; rfl, by rw [hnone]; rfl⟩
      rw [if_neg hbreak] at h
      obtain ⟨column, -, h⟩ := Option.bind_eq_some_iff.mp h
      obtain ⟨margin, -, h⟩ := Option.bind_eq_some_iff.mp h
      obtain ⟨r', hr', h⟩ := Option.bind_eq_some_iff.mp h
      have ih := showItems_spec rest hrest hr'
      cases h
      by_cases hcur : i = p.current
      · have hhere : p.target i (item :: rest) = some item.id := target_here htree hskip hbreak hcur
        have hpast : p.target (i + 1) rest = none := target_past hcur
        refine ⟨by simpa using ih.same, ?_, ?_⟩
        · rw [framedIds_cons_on (by simp [Item.framed, htree, hcur]), ih.framed, hpast, hhere]
          rfl
        · rw [ih.selected, hpast, hhere, if_pos hcur]
          rfl
      · have hlater : p.target i (item :: rest) = p.target (i + 1) rest :=
          target_next htree (.inr ⟨hbreak, hcur⟩)
        refine ⟨by simpa using ih.same, ?_, ?_⟩
        · rw [framedIds_cons_off (by simp [Item.framed, hcur]), ih.framed, hlater]
        · rw [ih.selected, hlater, if_neg hcur]

/-! ### The invariant -/

/-- The part of the invariant that holds also before `preview_item_show`. -/
structure Laid (m : Manager) : Prop where
  fresh : ∀ item ∈ m.items, item.id < m.made
  nodup : (m.items.map Item.id).Nodup
  total : m.totalItems = (ids m.items).length
  grids : ∀ i, GridOk (m.preview i)

/-- While something is selected, it is the item at `current`, and the one with a frame. -/
structure Sound (m : Manager) : Prop where
  laid : Laid m
  selected : ∀ x, m.selected = some x → m.page.target 0 m.items = some x ∧ framedIds m.items = [x]

theorem ids_eq_of_same {items' : List Item}
    (h : items'.map (fun item => (item.id, item.tree)) = items.map fun item => (item.id, item.tree)) :
    ids items' = ids items := by
  have hids : ∀ l : List Item,
      ids l = ((l.map fun item => (item.id, item.tree)).filter (·.2)).map (·.1) := by
    intro l
    rw [ids, List.filter_map, List.map_map]
    rfl
  rw [hids, hids, h]

theorem same_ids {items' : List Item}
    (h : items'.map (fun item => (item.id, item.tree)) = items.map fun item => (item.id, item.tree)) :
    items'.map Item.id = items.map Item.id := by
  simpa [Function.comp_def] using congrArg (List.map Prod.fst) h

theorem target_eq_some {n : ℤ} (hn : n = (ids items).length) :
    (∃ x, p.target 0 items = some x) ↔ p.Holds n := by
  rw [Preview.target, Preview.Holds]
  by_cases h : p.Reaches 0 p.current
  · have h₀ := h.1
    simp only [h, if_true, true_and, Int.sub_zero, ← Option.isSome_iff_exists]
    rw [Option.isSome_iff_ne_none, ne_eq, List.getElem?_eq_none_iff]
    omega
  · simp [h]

theorem Laid.of_same (h : Laid m)
    (hsame : m'.items.map (fun item => (item.id, item.tree)) =
      m.items.map fun item => (item.id, item.tree))
    (hmade : m'.made = m.made) (htotal : m'.totalItems = m.totalItems)
    (hgrids : ∀ i, GridOk (m'.preview i)) : Laid m' := by
  have hall := same_ids hsame
  refine ⟨?_, hall.symm ▸ h.nodup, ?_, hgrids⟩
  · intro item hitem
    have hmem : item.id ∈ m.items.map Item.id := hall ▸ List.mem_map_of_mem hitem
    obtain ⟨old, hold, heq⟩ := List.mem_map.mp hmem
    rw [hmade, ← heq]
    exact h.fresh old hold
  · rw [htotal, ids_eq_of_same hsame]
    exact h.total

/-- `preview_item_show` leaves a selection that is framed, if the page holds an item at `current` or
    nothing was selected. -/
theorem previewItemShow_sound (h : Laid m) (hok : m.selected = none ∨ m.page.Holds m.totalItems)
    (hs : previewItemShow m = some m') : Sound m' := by
  obtain ⟨margin, -, hs⟩ := Option.bind_eq_some_iff.mp hs
  obtain ⟨r, hr, hs⟩ := Option.bind_eq_some_iff.mp hs
  obtain ⟨hsame, hframed, hselected⟩ := showItems_spec _ (hidden_hide m.items) hr
  have hhide : (m.items.map Item.hide).map (fun item => (item.id, item.tree)) =
      m.items.map fun item => (item.id, item.tree) := by
    rw [List.map_map]
    refine List.map_congr_left fun item _ => ?_
    simp only [Function.comp_apply, Item.hide]
    split <;> rfl
  have hids := ids_eq_of_same (hsame.trans hhide)
  have htarget : m.page.target 0 (m.items.map Item.hide) = m.page.target 0 m.items := by
    rw [Preview.target, Preview.target, ids_eq_of_same hhide]
  cases hs
  refine ⟨h.of_same (hsame.trans hhide) rfl rfl h.grids, ?_⟩
  · intro x hx
    rw [htarget] at hframed hselected
    have hx' : r.1 = some x := hx
    have hpage : m.page.target 0 r.2 = m.page.target 0 m.items := by
      rw [Preview.target, Preview.target, hids]
    cases ht : m.page.target 0 m.items with
    | none =>
      rw [ht, Option.none_or] at hselected
      rcases hok with hnone | hholds
      · rw [hnone] at hselected
        rw [hselected] at hx'
        cases hx'
      · obtain ⟨y, hy⟩ := (target_eq_some h.total).mpr hholds
        rw [ht] at hy
        cases hy
    | some y =>
      rw [ht, Option.some_or] at hselected
      have hxy : y = x := Option.some.inj (hselected.symm.trans hx')
      subst hxy
      refine ⟨hpage.trans ht, ?_⟩
      rw [hframed, ht]
      rfl

/-! ### Items that come and go -/

theorem ids_filter (k : ℕ) :
    ids (items.filter fun other => other.id ≠ k) = (ids items).filter (· ≠ k) := by
  simp only [ids, List.filter_filter, List.filter_map, Function.comp_def]
  congr 2
  funext other
  rw [Bool.and_comm]

theorem ids_nodup (h : (items.map Item.id).Nodup) : (ids items).Nodup :=
  h.sublist (List.filter_sublist.map _)

theorem mem_ids_iff (h : (items.map Item.id).Nodup) (hitem : item ∈ items) :
    item.id ∈ ids items ↔ item.tree = true := by
  constructor
  · intro hmem
    obtain ⟨other, hother, heq⟩ := List.mem_map.mp hmem
    obtain ⟨hother, htree⟩ := List.mem_filter.mp hother
    cases List.inj_on_of_nodup_map h hother hitem heq
    exact htree
  · intro htree
    exact List.mem_map_of_mem (List.mem_filter.mpr ⟨hitem, htree⟩)

theorem Laid.destory (h : Laid m) (hitem : item ∈ m.items) : Laid (itemDestory m item) := by
  refine ⟨fun other hother => h.fresh other (List.mem_of_mem_filter hother),
    h.nodup.sublist (List.filter_sublist.map _), ?_, h.grids⟩
  have hids : ids (itemDestory m item).items = (ids m.items).erase item.id := by
    rw [itemDestory, ids_filter, (ids_nodup h.nodup).erase_eq_filter]
    simp [bne, beq_eq_decide]
  have hmem := mem_ids_iff h.nodup hitem
  rw [hids]
  cases htree : item.tree with
  | true =>
    have hmem := hmem.mpr htree
    have hpos := List.length_pos_of_mem hmem
    have htotal : (itemDestory m item).totalItems = m.totalItems - 1 := by simp [itemDestory, htree]
    rw [List.length_erase_of_mem hmem, htotal, h.total]
    omega
  | false =>
    have hmem : item.id ∉ ids m.items := by simp [hmem, htree]
    rw [List.erase_of_not_mem hmem, ← h.total]
    simp [itemDestory, htree]

theorem Laid.setPage (h : Laid m) (hp : GridOk p) : Laid (m.setPage p) := by
  refine ⟨h.fresh, h.nodup, h.total, fun i => ?_⟩
  by_cases hi : i = m.itemPage
  · simp only [Manager.setPage, hi, Function.update_self]
    exact hp
  · simp only [Manager.setPage, Function.update_of_ne hi]
    exact h.grids i

/-- Views may be put in the previews, or taken out, and the page changed. -/
theorem Laid.update_view (h : Laid m) (i page : Fin 4) (view active : Option ℕ) :
    Laid { m with preview := Function.update m.preview i { m.preview i with view := view },
                  itemPage := page, activeView := active } := by
  refine ⟨h.fresh, h.nodup, h.total, fun j => ?_⟩
  by_cases hj : j = i
  · subst hj
    simp only [Function.update_self]
    exact ⟨(h.grids j).total, (h.grids j).aligned⟩
  · simp only [Function.update_of_ne hj]
    exact h.grids j

theorem framedIds_append (a b : List Item) : framedIds (a ++ b) = framedIds a ++ framedIds b := by
  simp [framedIds]

theorem ids_append (a b : List Item) : ids (a ++ b) = ids a ++ ids b := by
  simp [ids]

/-- A new item, without a tree yet. -/
theorem Laid.create (h : Laid m) (view : View) (flip : Bool) : Laid (itemCreate m view flip) := by
  have hfresh : m.made ∉ m.items.map Item.id := by
    intro hmem
    obtain ⟨item, hitem, heq⟩ := List.mem_map.mp hmem
    have := h.fresh item hitem
    omega
  cases flip with
  | true =>
    refine ⟨?_, ?_, ?_, h.grids⟩
    · intro item hitem
      rcases List.mem_cons.mp hitem with rfl | hitem
      · exact Nat.lt_succ_self _
      · exact Nat.lt_succ_of_lt (h.fresh item hitem)
    · exact List.nodup_cons.mpr ⟨hfresh, h.nodup⟩
    · exact h.total.trans (congrArg (fun l : List ℕ => (l.length : ℤ)) (ids_cons_bare rfl).symm)
  | false =>
    refine ⟨?_, ?_, ?_, h.grids⟩
    · intro item hitem
      rcases List.mem_append.mp hitem with hitem | hitem
      · exact Nat.lt_succ_of_lt (h.fresh item hitem)
      · cases List.mem_singleton.mp hitem
        exact Nat.lt_succ_self _
    · simp only [itemCreate, Bool.false_eq_true, if_false, List.map_append, List.map_cons,
        List.map_nil]
      rw [← List.concat_eq_append]
      exact h.nodup.concat hfresh
    · simp only [itemCreate, Bool.false_eq_true, if_false, ids_append, h.total]
      simp [ids]

theorem mem_create (m : Manager) (view : View) (flip : Bool) :
    ({ id := m.made, view := view.id } : Item) ∈ (itemCreate m view flip).items := by
  cases flip <;> simp [itemCreate]

theorem map_eq_self_of_not_mem {f : Item → Item} (hid : id ∉ items.map Item.id) :
    (items.map fun item => if item.id = id then f item else item) = items := by
  refine (List.map_congr_left fun item hitem => ?_).trans (List.map_id items)
  have hne : item.id ≠ id := fun heq => hid (heq ▸ List.mem_map_of_mem hitem)
  rw [if_neg hne]
  rfl

/-- The tree of an item that had none is counted. -/
theorem ids_length_init {view : ℕ} (h : (items.map Item.id).Nodup)
    (hitem : ({ id := id, view := view } : Item) ∈ items) :
    (ids (items.map fun item =>
      if item.id = id then { item with tree := true, shown := true } else item)).length =
      (ids items).length + 1 := by
  obtain ⟨a, b, rfl⟩ := List.append_of_mem hitem
  rw [List.map_append, List.map_cons, List.nodup_append] at h
  obtain ⟨-, hb, hdisjoint⟩ := h
  have ha : id ∉ a.map Item.id := fun hmem => hdisjoint id hmem id List.mem_cons_self rfl
  rw [List.map_append, List.map_cons, map_eq_self_of_not_mem ha,
    map_eq_self_of_not_mem (List.nodup_cons.mp hb).1, if_pos rfl, ids_append, ids_append,
    ids_cons_tree rfl, ids_cons_bare rfl, List.length_append, List.length_append, List.length_cons]
  omega

/-- `item_init` on an item without a tree. -/
theorem Laid.init (h : Laid m) {view : View}
    (hitem : ({ id := id, view := view.id } : Item) ∈ m.items) :
    Laid (itemInit m id view).2 := by
  have hids : (m.items.map fun item =>
      if item.id = id then { item with tree := true, shown := true } else item).map Item.id =
        m.items.map Item.id := by
    rw [List.map_map]
    refine List.map_congr_left fun item _ => ?_
    simp only [Function.comp_apply]
    split <;> rfl
  unfold itemInit
  split_ifs
  · exact h
  · exact h.destory hitem
  · refine ⟨fun item hmem => ?_, ?_, ?_, h.grids⟩
    · have hmem' := hids ▸ List.mem_map_of_mem (f := Item.id) hmem
      obtain ⟨old, hold, heq⟩ := List.mem_map.mp hmem'
      exact heq ▸ h.fresh old hold
    · exact hids.symm ▸ h.nodup
    · have hlength := ids_length_init h.nodup hitem
      have htotal := h.total
      simp only [hlength]
      omega

/-! ### Events -/

theorem itemPageUpdate_sound {s : Option Manager} (h : Laid m)
    (hok : m.selected = none ∨ ∀ i, freePreview m.state m.preview = some i →
      (m.preview i).Holds m.totalItems)
    (hs : itemPageUpdate m = some s) : ∀ m', s = some m' → Sound m' := by
  rintro m' rfl
  rw [itemPageUpdate] at hs
  cases hfree : freePreview m.state m.preview with
  | none =>
    rw [hfree] at hs
    cases hs
  | some i =>
    rw [hfree] at hs
    obtain ⟨m₁, hshow, heq⟩ := Option.map_eq_some_iff.mp hs
    cases heq
    refine previewItemShow_sound ?_ ?_ hshow
    · exact ⟨h.fresh, h.nodup, h.total, h.grids⟩
    · rcases hok with hnone | hholds
      · exact .inl hnone
      · exact .inr (hholds i hfree)

/-- The page that follows when view `view` is put in preview `i`, or taken out of it, shows the item
    at its own `current`, of `n`. -/
def nextPageHolds (m : Manager) (i : Fin 4) (view : Option ℕ) (n : ℤ) : Bool :=
  match freePreview m.state (Function.update m.preview i { m.preview i with view := view }) with
  | none => true
  | some q => decide ((m.preview q).Holds n)

theorem holds_update_view {q i : Fin 4} {view : Option ℕ} {n : ℤ} (h : (m.preview q).Holds n) :
    (Function.update m.preview i { m.preview i with view := view } q).Holds n := by
  by_cases hq : q = i
  · subst hq
    simp only [Function.update_self]
    exact h
  · rw [Function.update_of_ne hq]
    exact h

theorem nextPageHolds_spec {i : Fin 4} {view : Option ℕ} {n : ℤ}
    (h : nextPageHolds m i view n = true) :
    ∀ q, freePreview m.state (Function.update m.preview i { m.preview i with view := view }) = some q →
      (Function.update m.preview i { m.preview i with view := view } q).Holds n := by
  intro q hq
  rw [nextPageHolds, hq] at h
  exact holds_update_view (of_decide_eq_true h)

/-- `item_view_set_tiled`, with nothing selected or a next page that holds its item. -/
theorem itemViewSetTiled_sound {s : Option Manager} (h : Laid m) (hitem : item ∈ m.items)
    (hok : m.selected = none ∨ nextPageHolds m m.itemPage (some item.view)
      (if item.tree then m.totalItems - 1 else m.totalItems) = true)
    (hs : itemViewSetTiled m item = some s) : ∀ m', s = some m' → Sound m' := by
  rw [itemViewSetTiled] at hs
  refine itemPageUpdate_sound (Laid.destory ?_ ?_) ?_ hs
  · exact h.update_view m.itemPage m.itemPage (some item.view) (some item.view)
  · exact hitem
  · rcases hok with hnone | hnext
    · exact .inl hnone
    · exact .inr (nextPageHolds_spec hnext)

/-- The condition on an event: while something is selected, the item at `current` stays on the page,
    and the pointer does not frame another. -/
def keepsSelection : Option Manager → Event → Bool
  | none, _ => true
  | some m, event => decide (m.selected = none) || match event with
      | .key key pressed => !pressed || !key.isArrow ||
          decide (0 < m.page.row) && decide (0 < m.page.col) &&
            !missesLastRow m.page m.totalItems key
      | .axis negative => match getLastIndex m.page m.totalItems with
          | none => true
          | some last => decide (({ m.page with
              indexFirst := scrolledIndex m.page last negative } : Preview).Reaches 0 m.page.current)
      | .hover id => decide (m.underPointer id = none) || decide (m.selected = some id)
      | .button (.item id part) left pressed =>
          pressed || !left || decide (part = .buttonClose) || match m.underPointer id with
            | none => true
            | some item => nextPageHolds m m.itemPage (some item.view) (m.totalItems - 1)
      | .viewUnmap id => match m.items.find? fun item => item.id = id with
          | none => true
          | some item => !item.tree || decide (m.page.current + 1 < m.totalItems)
      | .tiledViewUnmap i => decide ((m.preview i).view = none) ||
          nextPageHolds m i none m.totalItems
      | _ => true

theorem Sound.holds (h : Sound m) (hsel : m.selected ≠ none) : m.page.Holds m.totalItems := by
  obtain ⟨x, hx⟩ := Option.ne_none_iff_exists'.mp hsel
  exact (target_eq_some h.laid.total).mp ⟨x, (h.selected x hx).1⟩

theorem mem_of_underPointer (h : m.underPointer id = some item) :
    item ∈ m.items ∧ item.id = id ∧ item.tree = true ∧ item.shown = true := by
  have hp := List.find?_some h
  simp only [Bool.and_eq_true, decide_eq_true_eq] at hp
  exact ⟨List.mem_of_find?_eq_some h, hp.1.1, hp.1.2, hp.2⟩

/-! ### The keys and the wheel -/

theorem Laid.total_nonneg (h : Laid m) : 0 ≤ m.totalItems := by
  rw [h.total]
  omega

@[simp] theorem setPage_page (m : Manager) (p : Preview) : (m.setPage p).page = p := by
  simp [Manager.setPage, Manager.page]

/-- The page is moved, and the items shown again. -/
theorem movePage_sound {current first : ℤ} (h : Sound m)
    (haligned : 0 < m.page.row → 0 < m.page.col → 0 ≤ first ∧ m.page.col ∣ first)
    (hok : m.selected = none ∨
      ({ m.page with current := current, indexFirst := first } : Preview).Holds m.totalItems)
    (hs : previewItemShow (m.setPage { m.page with current := current, indexFirst := first }) =
      some m') : Sound m' := by
  refine previewItemShow_sound (h.laid.setPage ?_) ?_ hs
  · exact ⟨(h.laid.grids m.itemPage).total, haligned⟩
  · rw [setPage_page]
    exact hok

theorem keyboardGrabKey_sound {s : Option Manager} {key : Key} {pressed : Bool} (h : Sound m)
    (hok : keepsSelection (some m) (.key key pressed) = true)
    (hs : keyboardGrabKey m key pressed = some s) : ∀ m', s = some m' → Sound m' := by
  rintro m' rfl
  rw [keyboardGrabKey] at hs
  split_ifs at hs with hpressed hleave henter harrow
  · cases hs
    exact h
  · cases hs
  · obtain ⟨select, hselect, hs⟩ := Option.bind_eq_some_iff.mp hs
    obtain ⟨x, -, hfind⟩ := Option.bind_eq_some_iff.mp hselect
    have hmem := List.mem_of_find?_eq_some hfind
    refine itemViewSetTiled_sound (m := { m with selected := none }) ?_ hmem (.inl rfl) hs m' rfl
    exact ⟨h.laid.fresh, h.laid.nodup, h.laid.total, h.laid.grids⟩
  · cases hs
    exact h
  · obtain ⟨target, htarget, hs⟩ := Option.bind_eq_some_iff.mp hs
    obtain ⟨m₁, hshow, hs⟩ := Option.bind_eq_some_iff.mp hs
    cases hs
    have hgrid : GridOk m.page := h.laid.grids m.itemPage
    refine movePage_sound h (arrowTarget_aligned hgrid h.laid.total_nonneg htarget) ?_ hshow
    by_cases hsel : m.selected = none
    · exact .inl hsel
    · have hpressed : pressed = true := by simpa using hpressed
      have harrow : key.isArrow = true := by simpa using harrow
      simp only [keepsSelection, hsel, decide_false, hpressed, harrow, Bool.not_true,
        Bool.false_or, Bool.and_eq_true, decide_eq_true_eq, Bool.not_eq_true'] at hok
      obtain ⟨⟨hrow, hcol⟩, hmiss⟩ := hok
      exact .inr (arrowTarget_holds hgrid hrow hcol (h.holds hsel) hmiss harrow htarget)

theorem scrolledIndex_aligned {last : ℤ} {negative : Bool} (h : GridOk p) (hrow : 0 < p.row)
    (hcol : 0 < p.col) :
    0 ≤ scrolledIndex p last negative ∧ p.col ∣ scrolledIndex p last negative := by
  obtain ⟨hf, hf'⟩ := h.aligned hrow hcol
  cases negative with
  | true =>
    simp only [scrolledIndex, if_true]
    split_ifs with hnext
    · exact ⟨hnext.1, Int.dvd_sub hf' (Int.dvd_refl _)⟩
    · exact ⟨hf, hf'⟩
  | false =>
    simp only [scrolledIndex, Bool.false_eq_true, if_false]
    split_ifs with hnext
    · exact ⟨hnext.1, Int.dvd_add hf' (Int.dvd_refl _)⟩
    · exact ⟨hf, hf'⟩

theorem pointerGrabAxis_sound {s : Option Manager} {negative : Bool} (h : Sound m)
    (hok : keepsSelection (some m) (.axis negative) = true)
    (hs : pointerGrabAxis m negative = some s) : ∀ m', s = some m' → Sound m' := by
  rintro m' rfl
  obtain ⟨last, hlast, hs⟩ := Option.bind_eq_some_iff.mp hs
  obtain ⟨m₁, hshow, hs⟩ := Option.bind_eq_some_iff.mp hs
  cases hs
  have hgrid : GridOk m.page := h.laid.grids m.itemPage
  refine movePage_sound h (scrolledIndex_aligned hgrid) ?_ hshow
  by_cases hsel : m.selected = none
  · exact .inl hsel
  · simp only [keepsSelection, hsel, decide_false, Bool.false_or, hlast, decide_eq_true_eq] at hok
    exact .inr ⟨hok, (h.holds hsel).2⟩

/-! ### The pointer -/

/-- The selected item is the one at `current`, and is framed. -/
theorem Sound.selected_item (h : Sound m) (hsel : m.selected = some id) :
    ∃ item ∈ m.items, item.id = id ∧ item.tree = true ∧ item.selection = true ∧ 0 ≤ m.page.current ∧
      m.listed[m.page.current.toNat]? = some item := by
  obtain ⟨htarget, hframed⟩ := h.selected id hsel
  rw [Preview.target] at htarget
  split_ifs at htarget with hreach
  have hcur : 0 ≤ m.page.current := hreach.1
  rw [Int.sub_zero, ids, List.getElem?_map, Option.map_eq_some_iff] at htarget
  obtain ⟨item, hitem, hid⟩ := htarget
  have hlisted := List.mem_filter.mp (List.mem_of_getElem? hitem)
  have hmem : id ∈ framedIds m.items := by
    rw [hframed]
    exact List.mem_singleton_self id
  obtain ⟨other, hother, hid'⟩ := List.mem_map.mp hmem
  obtain ⟨hother, hon⟩ := List.mem_filter.mp hother
  cases List.inj_on_of_nodup_map h.laid.nodup hother hlisted.1 (hid'.trans hid.symm)
  simp only [Item.framed, Bool.and_eq_true] at hon
  exact ⟨item, hlisted.1, hid, hlisted.2, hon.2, hcur, hitem⟩

/-- Hovering changes the frames and the index of the page. -/
theorem Laid.hover (h : Laid m) (item : Item) : Laid (itemHover m item) := by
  have hgrid := h.grids m.itemPage
  refine h.of_same ?_ rfl rfl ?_
  · simp only [itemHover, List.map_map]
    refine List.map_congr_left fun other _ => ?_
    simp only [Function.comp_apply]
    split_ifs <;> rfl
  · refine (h.setPage (p := { m.page with
      current := (m.listed.findIdx fun other => other.id = item.id : ℕ) }) ?_).grids
    exact ⟨hgrid.total, hgrid.aligned⟩

theorem findIdx_listed (h : Laid m) {k : ℕ} (hk : m.listed[k]? = some item) :
    (m.listed.findIdx fun other => other.id = item.id) = k := by
  have hlt : (m.listed.findIdx fun other => other.id = item.id) < m.listed.length :=
    List.findIdx_lt_length_of_exists ⟨item, List.mem_of_getElem? hk, decide_eq_true rfl⟩
  have hfound : decide ((m.listed.get ⟨_, hlt⟩).id = item.id) = true :=
    List.findIdx_getElem (p := fun other : Item => decide (other.id = item.id)) (w := hlt)
  refine (List.getElem?_inj (l := ids m.items) ?_ (ids_nodup h.nodup)).mp ?_
  · rw [ids, List.length_map]
    exact hlt
  · change (m.listed.map Item.id)[_]? = (m.listed.map Item.id)[k]?
    rw [List.getElem?_map, List.getElem?_map, hk, List.getElem?_eq_getElem hlt]
    exact congrArg some (of_decide_eq_true hfound)

/-- Hovering the selected item changes nothing. -/
theorem itemHover_selected (h : Sound m) (hitem : item ∈ m.items) (hsel : m.selected = some item.id) :
    itemHover m item = m := by
  obtain ⟨other, hother, hid, htree, hon, hcur, hat⟩ := h.selected_item hsel
  cases List.inj_on_of_nodup_map h.laid.nodup hother hitem hid
  have hindex : ((m.listed.findIdx fun other => other.id = item.id : ℕ) : ℤ) = m.page.current := by
    rw [findIdx_listed h.laid hat]
    omega
  have hitems : (m.items.map fun other =>
      if some item.id = some other.id then { other with selection := false } else other).map
        (fun other => if other.id = item.id then { other with selection := true } else other) =
          m.items := by
    rw [List.map_map]
    refine (List.map_congr_left fun other hother => ?_).trans (List.map_id _)
    by_cases heq : other.id = item.id
    · cases List.inj_on_of_nodup_map h.laid.nodup hother hitem heq
      simp only [Function.comp_apply, if_true, id_eq]
      rw [← hon]
    · have hne : some item.id ≠ some other.id := fun h => heq (Option.some.inj h).symm
      simp only [Function.comp_apply, if_neg hne, if_neg heq, id_eq]
  simp only [itemHover, if_pos hcur, hat, Option.map_some, hitems, hindex, Manager.setPage]
  exact congrArg (fun preview => { m with preview := preview }) (Function.update_eq_self _ _)

theorem itemHover_sound (h : Sound m) (hitem : m.underPointer id = some item)
    (hok : m.selected = none ∨ m.selected = some id) : Sound (itemHover m item) := by
  obtain ⟨hmem, rfl, -, -⟩ := mem_of_underPointer hitem
  rcases hok with hnone | hsel
  · refine ⟨h.laid.hover item, fun x hx => ?_⟩
    rw [show (itemHover m item).selected = m.selected from rfl, hnone] at hx
    cases hx
  · rw [itemHover_selected h hmem hsel]
    exact h

theorem pointerGrabButton_sound {s : Option Manager} {hit : Hit} {left pressed : Bool} (h : Sound m)
    (hok : keepsSelection (some m) (.button hit left pressed) = true)
    (hs : pointerGrabButton m hit left pressed = some s) : ∀ m', s = some m' → Sound m' := by
  cases hit with
  | outside =>
    rintro m' rfl
    rw [pointerGrabButton] at hs
    split_ifs at hs <;> cases hs
    exact h
  | page =>
    rintro m' rfl
    rw [pointerGrabButton] at hs
    split_ifs at hs <;> cases hs
    exact h
  | item id part =>
    rw [pointerGrabButton] at hs
    cases hitem : m.underPointer id with
    | none =>
      rw [hitem] at hs
      rintro m' rfl
      cases hs
      exact h
    | some item =>
      obtain ⟨hmem, -, htree, -⟩ := mem_of_underPointer hitem
      simp only [hitem] at hs
      split_ifs at hs with hpart
      · rintro m' rfl
        cases hs
        exact h
      · refine itemViewSetTiled_sound h.laid hmem ?_ hs
        have hpart : (pressed || !left || decide (part = .buttonClose)) = false := by
          simpa using hpart
        simp only [keepsSelection, hpart, Bool.false_or, hitem, Bool.or_eq_true,
          decide_eq_true_eq] at hok
        rwa [if_pos htree]

/-! ### Views -/

theorem Preview.Holds.mono {n n' : ℤ} (h : p.Holds n) (hle : n ≤ n') : p.Holds n' :=
  ⟨h.1, Int.lt_of_lt_of_le h.2 hle⟩

theorem itemInit_selected (view : View) : (itemInit m id view).2.selected = m.selected := by
  unfold itemInit itemDestory
  split_ifs <;> rfl

theorem itemInit_page (view : View) : (itemInit m id view).2.page = m.page := by
  unfold itemInit itemDestory
  split_ifs <;> rfl

/-- An item that gets no tree changes nothing that is shown. -/
theorem itemInit_refused (h : Sound m) {view : View}
    (hinit : (itemInit (itemCreate m view false) m.made view).1 = false) :
    Sound (itemInit (itemCreate m view false) m.made view).2 := by
  have hlaid := (h.laid.create view false).init (mem_create m view false)
  have hitems : ids (itemInit (itemCreate m view false) m.made view).2.items = ids m.items ∧
      framedIds (itemInit (itemCreate m view false) m.made view).2.items = framedIds m.items := by
    unfold itemInit at hinit ⊢
    split_ifs at hinit ⊢
    · simp [itemCreate, ids, framedIds, Item.framed]
    · have hkept : m.items.filter (fun other => other.id ≠ m.made) = m.items := by
        refine List.filter_eq_self.mpr fun other hother => ?_
        have := h.laid.fresh other hother
        simp
        omega
      simp only [itemDestory, itemCreate, Bool.false_eq_true, if_false, List.filter_append, hkept]
      simp
  refine ⟨hlaid, fun x hx => ?_⟩
  rw [itemInit_selected] at hx
  obtain ⟨htarget, hframed⟩ := h.selected x hx
  rw [itemInit_page, hitems.2]
  refine ⟨?_, hframed⟩
  rw [← htarget, Preview.target, Preview.target, hitems.1]
  rfl

theorem handleNewMappedView_sound {s : Option Manager} {view : View} (h : Sound m)
    (hs : handleNewMappedView m view = some s) : ∀ m', s = some m' → Sound m' := by
  rintro m' rfl
  rw [handleNewMappedView] at hs
  split_ifs at hs with hnormal
  · cases hs
    exact h
  · cases hinit : (itemInit (itemCreate m view false) m.made view).1 with
    | false =>
      simp only [hinit, Bool.false_eq_true, if_false, Option.some.injEq] at hs
      exact hs ▸ itemInit_refused h hinit
    | true =>
      simp only [hinit, if_true] at hs
      obtain ⟨m₁, hshow, heq⟩ := Option.map_eq_some_iff.mp hs
      cases heq
      refine previewItemShow_sound ((h.laid.create view false).init (mem_create m view false)) ?_
        hshow
      rw [itemInit_selected, itemInit_page]
      by_cases hsel : m.selected = none
      · exact .inl hsel
      · refine .inr ((h.holds hsel).mono ?_)
        unfold itemInit at hinit ⊢
        split_ifs at hinit ⊢
        simp [itemCreate]

theorem handleViewUnmap_sound {s : Option Manager} (h : Sound m)
    (hok : keepsSelection (some m) (.viewUnmap id) = true)
    (hs : handleViewUnmap m id = some s) : ∀ m', s = some m' → Sound m' := by
  rintro m' rfl
  rw [handleViewUnmap] at hs
  cases hfind : m.items.find? fun item => item.id = id with
  | none =>
    rw [hfind] at hs
    cases hs
    exact h
  | some item =>
    simp only [hfind] at hs
    obtain ⟨m₁, hshow, heq⟩ := Option.map_eq_some_iff.mp hs
    cases heq
    refine previewItemShow_sound (h.laid.destory (List.mem_of_find?_eq_some hfind)) ?_ hshow
    by_cases hsel : m.selected = none
    · exact .inl hsel
    · have hholds := h.holds hsel
      simp only [keepsSelection, hsel, decide_false, Bool.false_or, hfind, Bool.or_eq_true,
        Bool.not_eq_true', decide_eq_true_eq] at hok
      right
      rcases hok with hbare | hlast
      · simp only [itemDestory, hbare, Bool.false_eq_true, if_false]
        exact hholds
      · refine ⟨hholds.1, ?_⟩
        simp only [itemDestory]
        split_ifs
        · exact Int.lt_sub_right_of_add_lt hlast
        · exact hholds.2

theorem handleTiledViewUnmap_sound {s : Option Manager} {i : Fin 4} (h : Sound m)
    (hok : keepsSelection (some m) (.tiledViewUnmap i) = true)
    (hs : handleTiledViewUnmap m i = some s) : ∀ m', s = some m' → Sound m' := by
  rw [handleTiledViewUnmap] at hs
  cases hview : (m.preview i).view with
  | none =>
    rw [hview] at hs
    rintro m' rfl
    cases hs
    exact h
  | some view =>
    simp only [hview] at hs
    refine itemPageUpdate_sound (h.laid.update_view i m.itemPage none _) ?_ hs
    simp only [keepsSelection, hview, Bool.or_eq_true, decide_eq_true_eq, reduceCtorEq,
      false_or] at hok
    exact hok.imp_right nextPageHolds_spec

/-! ### The start -/

theorem previewInit_grid {usable : Box} {width height : ℤ} {tile : Views.Tile}
    (h : previewInit usable width height tile = some p) : GridOk p := by
  obtain ⟨row, -, h⟩ := Option.bind_eq_some_iff.mp h
  obtain ⟨col, -, h⟩ := Option.bind_eq_some_iff.mp h
  cases h
  exact ⟨rfl, fun _ _ => ⟨Int.le_refl 0, Int.dvd_zero _⟩⟩

theorem createPreviewArea_grids {usable : Box} {width height : ℤ} {state : SplitState}
    {preview : Fin 4 → Preview} (h : createPreviewArea usable width height state = some preview) :
    ∀ i, GridOk (preview i) := by
  have hunused : GridOk {} := ⟨rfl, fun _ _ => ⟨Int.le_refl 0, Int.dvd_zero _⟩⟩
  obtain ⟨p₀, h₀, h⟩ := Option.bind_eq_some_iff.mp h
  obtain ⟨p₁, h₁, h⟩ := Option.bind_eq_some_iff.mp h
  split_ifs at h
  · cases h
    intro i
    match i with
    | 0 => exact previewInit_grid h₀
    | 1 => exact previewInit_grid h₁
    | 2 => exact hunused
    | 3 => exact hunused
  · obtain ⟨p₂, h₂, h⟩ := Option.bind_eq_some_iff.mp h
    obtain ⟨p₃, h₃, h⟩ := Option.bind_eq_some_iff.mp h
    cases h
    intro i
    match i with
    | 0 => exact previewInit_grid h₀
    | 1 => exact previewInit_grid h₁
    | 2 => exact previewInit_grid h₂
    | 3 => exact previewInit_grid h₃

/-- The views of the workspace become items, and nothing is selected. -/
theorem addWorkspaceView_laid {first : ℕ} (view : View) (h : Laid m ∧ m.selected = none) :
    Laid (addWorkspaceView first m view) ∧ (addWorkspaceView first m view).selected = none := by
  unfold addWorkspaceView
  split_ifs
  · exact h
  · exact ⟨(h.1.create view true).init (mem_create m view true), by
      rw [itemInit_selected]
      exact h.2⟩

theorem tiledPreviewShow_sound {first : ℕ} {workspace : List View} {s : Option Manager}
    (h : Laid m) (hnone : m.selected = none) (hs : tiledPreviewShow m first workspace = some s) :
    ∀ m', s = some m' → Sound m' := by
  rintro m' rfl
  rw [tiledPreviewShow] at hs
  cases hfree : freePreview m.state m.preview with
  | none =>
    rw [hfree] at hs
    cases hs
  | some i =>
    rw [hfree] at hs
    obtain ⟨m₁, hshow, heq⟩ := Option.map_eq_some_iff.mp hs
    cases heq
    have hstart := List.foldlRecOn (motive := fun m : Manager => Laid m ∧ m.selected = none)
      workspace.reverse (addWorkspaceView first) (b := { m with itemPage := i })
      ⟨⟨h.fresh, h.nodup, h.total, h.grids⟩, hnone⟩ fun m hm v _ => addWorkspaceView_laid v hm
    exact previewItemShow_sound hstart.1 (.inl hstart.2) hshow

theorem viewBeginTilePreview_sound {view : View} {usable : Box} {tile : Views.Tile}
    {workspace : List View} {s : Option Manager}
    (hs : viewBeginTilePreview view usable tile workspace = some s) :
    ∀ m', s = some m' → Sound m' := by
  rw [viewBeginTilePreview] at hs
  split_ifs at hs
  · cases hs
    rintro m' ⟨⟩
  · obtain ⟨preview, hpreview, hs⟩ := Option.bind_eq_some_iff.mp hs
    obtain ⟨slot, -, hs⟩ := Option.bind_eq_some_iff.mp hs
    refine tiledPreviewShow_sound ?_ rfl hs
    refine Laid.update_view ⟨?_, ?_, rfl, createPreviewArea_grids hpreview⟩ slot 0 (some view.id)
      (some view.id)
    · rintro item ⟨⟩
    · exact List.nodup_nil

/-! ### Runs -/

/-- The selection is of an item that is there, and Enter tiles the item with the frame. -/
structure SelectionLive (m : Manager) : Prop where
  selected : ∀ id, m.selected = some id → ∃ item ∈ m.items, item.id = id ∧ item.tree = true
  total : m.totalItems = m.listed.length
  framed : ∀ id, m.selected = some id →
    ∃ item, m.selectedItem = some item ∧ m.items.filter Item.framed = [item]

theorem Sound.live (h : Sound m) : SelectionLive m := by
  refine ⟨fun id hsel => ?_, ?_, fun id hsel => ?_⟩
  · obtain ⟨item, hitem, hid, htree, -⟩ := h.selected_item hsel
    exact ⟨item, hitem, hid, htree⟩
  · rw [h.laid.total, ids, List.length_map]
    rfl
  · have hframed := (h.selected id hsel).2
    rw [framedIds, List.map_eq_singleton_iff] at hframed
    obtain ⟨item, hfilter, hid⟩ := hframed
    have hmem : item ∈ m.items.filter Item.framed := by
      rw [hfilter]
      exact List.mem_singleton_self item
    refine ⟨item, ?_, hfilter⟩
    rw [Manager.selectedItem, hsel, Option.bind_some]
    cases hfind : m.items.find? fun item => item.id = id with
    | none =>
      have := List.find?_eq_none.mp hfind item (List.mem_of_mem_filter hmem)
      simp [hid] at this
    | some other =>
      have hother : other.id = id := by simpa using List.find?_some hfind
      rw [List.inj_on_of_nodup_map h.laid.nodup (List.mem_of_find?_eq_some hfind)
        (List.mem_of_mem_filter hmem) (hother.trans hid.symm)]

theorem step_sound {s s' : Option Manager} {event : Event} (h : ∀ m, s = some m → Sound m)
    (hok : keepsSelection s event = true) (hs : step s event = some s') :
    ∀ m, s' = some m → Sound m := by
  cases s with
  | none =>
    cases event with
    | begin view usable tile workspace => exact viewBeginTilePreview_sound hs
    | _ =>
      cases hs
      rintro m ⟨⟩
  | some m =>
    have hm := h m rfl
    cases event with
    | begin =>
      cases hs
      exact h
    | key key pressed => exact keyboardGrabKey_sound hm hok hs
    | axis negative => exact pointerGrabAxis_sound hm hok hs
    | hover id =>
      rintro m' rfl
      simp only [step, Option.some.injEq] at hs
      cases hitem : m.underPointer id with
      | none =>
        rw [hitem] at hs
        exact hs ▸ hm
      | some item =>
        rw [hitem] at hs
        simp only [keepsSelection, hitem, Bool.or_eq_true, decide_eq_true_eq, reduceCtorEq,
          false_or] at hok
        exact hs ▸ itemHover_sound hm hitem hok
    | button hit left pressed => exact pointerGrabButton_sound hm hok hs
    | newMappedView view => exact handleNewMappedView_sound hm hs
    | viewUnmap id => exact handleViewUnmap_sound hm hok hs
    | tiledViewUnmap i => exact handleTiledViewUnmap_sound hm hok hs
    | stop =>
      cases hs
      rintro m ⟨⟩

/-- In every run whose events keep the item at `current` on the page while something is selected,
    and frame no other, the selection is live. -/
theorem selection_live (h : Reach step (fun s e => keepsSelection s e = true) none (some m)) :
    SelectionLive m := by
  have hsound : ∀ m', some m = some m' → Sound m' := by
    refine h.inv (I := fun s : Option Manager => ∀ m', s = some m' → Sound m') ?_ ?_
    · rintro m' ⟨⟩
    · exact fun s e s' hs hok hstep => step_sound hs hok hstep
  exact (hsound m rfl).live

/-- Three windows beside the tiled one: the second is selected by keys, the third unmaps, Enter tiles
    the second, and a key selects the first on the next page. -/
def keysOnly : List Event :=
  [.begin { id := 0 } ⟨0, 0, 1920, 1080⟩ .topLeft [{ id := 1 }, { id := 2 }, { id := 3 }],
    .key .right true, .key .right true, .viewUnmap 0, .key .enter true, .key .down true]

theorem keysOnly_live :
    ∃ m, exec (guarded step keepsSelection) none keysOnly = some (some m) ∧ SelectionLive m ∧
      m.selected = some 2 := by
  refine ⟨_, rfl, ?_, by decide⟩
  exact selection_live (.of_exec_guarded keysOnly _ rfl)

/-- The selected window is closed by its client: the selection is of an item that is gone. -/
theorem closed_item_stays_selected :
    ¬ ∀ m, Reach step Always none (some m) → SelectionLive m := by
  intro h
  obtain ⟨m, hm, hselected, hitems⟩ : ∃ m, exec step none
      [.begin { id := 0 } ⟨0, 0, 1920, 1080⟩ .left [{ id := 1 }], .key .right true,
        .viewUnmap 0] = some (some m) ∧ m.selected = some 0 ∧ m.items = [] :=
    ⟨_, rfl, by decide, by decide⟩
  obtain ⟨item, hitem, -⟩ := (h m (.of_exec _ _ hm)).selected 0 hselected
  rw [hitems] at hitem
  cases hitem

end FlakeWm.TilePreview
