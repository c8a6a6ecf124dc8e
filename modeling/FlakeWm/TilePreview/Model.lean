import FlakeWm.Box
import FlakeWm.Views.Model
import Mathlib.Algebra.GroupWithZero.Nat
import Mathlib.Data.Fin.VecNotation
import Mathlib.Logic.Function.Basic

/-! The tile preview (`tile_preview.c`).

    After a view is tiled, the free halves or quarters of the output show the other views as items,
    each a thumbnail with a frame around the one that Enter would tile. The manager keeps that one as
    a pointer (`selected`), as an index on the page (`current`) and as the frame that is enabled.
    An item is known by the number of its allocation. A step yields `none` where the C code divides
    by zero or follows a pointer that is null or freed. -/

namespace FlakeWm.TilePreview

open Views (Tile)

/-- `enum split_state`. -/
inductive SplitState where | halfScreen | quarterScreen
  deriving DecidableEq

/-- `enum preview_part`. -/
inductive PreviewPart where | root | frameRect | buttonClose | titleIcon | titleText | thumbnail
  deriving DecidableEq

/-- What the preview reads of a view. `hasThumbnail` is whether its thumbnail can be made, `onOutput`
    whether it is on the output of the preview, `normal` whether its role is. -/
structure View where
  id : ℕ
  mapped : Bool := true
  skipTaskbar : Bool := false
  onOutput : Bool := true
  normal : Bool := true
  resizable : Bool := true
  hasThumbnail : Bool := true
  minWidth : ℤ := 0
  maxWidth : ℤ := 0
  minHeight : ℤ := 0
  maxHeight : ℤ := 0
  offWidth : ℤ := 0
  offHeight : ℤ := 0

/-- `struct item`. `shown` is whether the node of its tree is enabled, `selection` whether its frame
    is. -/
structure Item where
  id : ℕ
  view : ℕ
  tree : Bool := false
  shown : Bool := false
  selection : Bool := false
  x : ℤ := 0
  y : ℤ := 0
  deriving DecidableEq

/-- The selection frame of the item is on the screen. -/
def Item.framed (item : Item) : Bool := item.tree && item.shown && item.selection

/-- `struct preview`. Its own tree is enabled while it has no view. -/
structure Preview where
  view : Option ℕ := none
  box : Box := ⟨0, 0, 0, 0⟩
  tiled : Tile := .none
  indexFirst : ℤ := 0
  current : ℤ := 0
  total : ℤ := 0
  row : ℤ := 0
  col : ℤ := 0
  deriving DecidableEq

/-- There are four previews. -/
theorem neZero_previews : NeZero 4 := ⟨by decide⟩

attribute [local instance] neZero_previews

/-- `struct tile_preview_manager`. `made` counts the items allocated. -/
structure Manager where
  items : List Item
  preview : Fin 4 → Preview
  itemPage : Fin 4
  selected : Option ℕ
  activeView : Option ℕ
  state : SplitState
  totalItems : ℤ
  usableArea : Box
  fixedWidth : ℤ
  fixedHeight : ℤ
  made : ℕ

def Manager.page (m : Manager) : Preview := m.preview m.itemPage

/-- The item that `selected` points to, if it is still there. -/
def Manager.selectedItem (m : Manager) : Option Item :=
  m.selected.bind fun id => m.items.find? fun item => item.id = id

/-! ### Division of C -/

def quot (a b : ℤ) : Option ℤ := if b = 0 then none else some (a.tdiv b)

def rem (a b : ℤ) : Option ℤ := if b = 0 then none else some (a.tmod b)

/-! ### Items -/

def exceedHalfScreenWidth (view : View) (usable : Box) : Bool :=
  decide (usable.width < 2 * (view.minWidth + view.offWidth)) ||
    decide (0 < view.maxWidth) && decide (2 * (view.maxWidth + view.offWidth) < usable.width)

def exceedHalfScreenHeight (view : View) (usable : Box) : Bool :=
  decide (usable.height < 2 * (view.minHeight + view.offHeight)) ||
    decide (0 < view.maxHeight) && decide (2 * (view.maxHeight + view.offHeight) < usable.height)

def viewIsSupportPreview (view : View) (usable : Box) (tile : Tile) : Bool :=
  if tile = .top ∨ tile = .bottom ∨ exceedHalfScreenWidth view usable = true then false
  else if tile ≠ .left ∧ tile ≠ .right ∧ exceedHalfScreenHeight view usable = true then false
  else true

/-- The first loop of `preview_item_show`: no tree and no frame is enabled. -/
def Item.hide (item : Item) : Item :=
  if item.tree then { item with selection := false, shown := false } else item

/-- The second loop of `preview_item_show`: `i` counts the items with a tree, `col` those shown. -/
def showItems (p : Preview) (width height : ℤ) :
    ℤ → ℤ → ℤ → Option ℕ → List Item → Option (Option ℕ × List Item)
  | _, _, _, selected, [] => some (selected, [])
  | i, col, nodeY, selected, item :: rest =>
      if item.tree = false then do
        let r ← showItems p width height i col nodeY selected rest
        return (r.1, item :: r.2)
      else if i < p.indexFirst then do
        let r ← showItems p width height (i + 1) col nodeY selected rest
        return (r.1, item :: r.2)
      else if i = p.indexFirst + p.total then some (selected, item :: rest)
      else do
        let column ← rem col p.col
        let margin ← rem p.box.width width
        let nodeY' := if col ≠ 0 ∧ column = 0 then nodeY + height else nodeY
        let r ← showItems p width height (i + 1) (col + 1) nodeY'
          (if i = p.current then some item.id else selected) rest
        return (r.1, { item with x := margin.tdiv 2 + column * width, y := nodeY', shown := true,
                                 selection := decide (i = p.current) } :: r.2)

def previewItemShow (m : Manager) : Option Manager := do
  let margin ← rem m.page.box.height m.fixedHeight
  let r ← showItems m.page m.fixedWidth m.fixedHeight 0 0 (margin.tdiv 2) m.selected
    (m.items.map Item.hide)
  return { m with selected := r.1, items := r.2 }

/-- `item_destory`. -/
def itemDestory (m : Manager) (item : Item) : Manager :=
  { m with items := m.items.filter fun other => other.id ≠ item.id,
           totalItems := if item.tree then m.totalItems - 1 else m.totalItems }

/-- `item_create`: at the head when `flip`, at the tail otherwise. -/
def itemCreate (m : Manager) (view : View) (flip : Bool) : Manager :=
  let item : Item := { id := m.made, view := view.id }
  { m with items := if flip then item :: m.items else m.items ++ [item], made := m.made + 1 }

/-- The conditions of `item_init` that are checked before the thumbnail is made. -/
def fitsPreview (m : Manager) (view : View) : Bool :=
  view.resizable && !exceedHalfScreenWidth view m.usableArea &&
    !(decide (m.state = .quarterScreen) && exceedHalfScreenHeight view m.usableArea)

/-- `item_init` on the item with the number `id`: whether it succeeded. -/
def itemInit (m : Manager) (id : ℕ) (view : View) : Bool × Manager :=
  if fitsPreview m view = false then (false, m)
  else if view.hasThumbnail = false then (false, itemDestory m { id := id, view := view.id })
  else (true, { m with items := m.items.map fun item =>
                         if item.id = id then { item with tree := true, shown := true } else item,
                       totalItems := m.totalItems + 1 })

/-! ### Pages -/

/-- `item_page_preview_update`: the first preview without a view. -/
def freePreview (state : SplitState) (preview : Fin 4 → Preview) : Option (Fin 4) :=
  (List.finRange 4).find? fun i =>
    decide (i.val < if state = .halfScreen then 2 else 4) && decide ((preview i).view = none)

/-- `item_page_update`. The manager is gone (`some none`) when every preview has a view. -/
def itemPageUpdate (m : Manager) : Option (Option Manager) :=
  match freePreview m.state m.preview with
  | none => some none
  | some i => (previewItemShow { m with itemPage := i }).map some

/-- `preview_area_set_view`. -/
def previewAreaSetView (m : Manager) (i : Fin 4) (view : ℕ) : Manager :=
  { m with preview := Function.update m.preview i { m.preview i with view := some view } }

/-- `item_view_set_tiled`. -/
def itemViewSetTiled (m : Manager) (item : Item) : Option (Option Manager) :=
  itemPageUpdate (itemDestory (previewAreaSetView { m with activeView := some item.view } m.itemPage
    item.view) item)

def getLastIndex (p : Preview) (totalItems : ℤ) : Option ℤ :=
  if totalItems > p.total then do
    let remainder ← rem totalItems p.total
    if remainder ≠ 0 then
      let column ← rem remainder p.col
      let full ← quot remainder p.col
      let row := if column = 0 then full else full + 1
      return totalItems - (remainder + (p.row - row) * p.col)
    else return totalItems - p.total
  else some 0

def preview_gap : ℤ := 16

/-- `preview_init`. -/
def previewInit (usable : Box) (fixedWidth fixedHeight : ℤ) (tile : Tile) : Option Preview := do
  let halfWidth := usable.width.tdiv 2
  let halfHeight := usable.height.tdiv 2
  let x := if tile = .left ∨ tile = .topLeft ∨ tile = .bottomLeft then preview_gap
    else halfWidth + 8
  let y := if tile = .bottomLeft ∨ tile = .bottomRight then halfHeight + 8 else preview_gap
  let height := if tile = .left ∨ tile = .right then usable.height - 2 * preview_gap
    else halfHeight - 24
  let width := halfWidth - 24
  let row ← quot height fixedHeight
  let col ← quot width fixedWidth
  return { box := ⟨x + usable.x, y + usable.y, width, height⟩, tiled := tile, current := -1,
           row := row, col := col, total := row * col }

/-! ### Input -/

inductive Key where | up | down | left | right | enter | leave | other
  deriving DecidableEq

/-- The index and first index that an arrow key gives (`keyboard_grab_key`). -/
def arrowTarget (p : Preview) (totalItems : ℤ) (key : Key) : Option (ℤ × ℤ) :=
  if p.current < 0 then some (0, p.indexFirst)
  else match key with
  | .up =>
      let current := p.current - p.col
      if current < 0 then do
        let row ← quot totalItems p.col
        let column ← rem p.current p.col
        let last ← rem totalItems p.col
        let index ← getLastIndex p totalItems
        return (if column < last then row * p.col + column
          else row * p.col - (p.col - column), index)
      else if current < p.indexFirst then some (p.current - p.col, p.indexFirst - p.col)
      else some (current, p.indexFirst)
  | .down =>
      let current := p.current + p.col
      if current ≥ totalItems then do
        let lastIndex ← getLastIndex p totalItems
        if p.indexFirst < lastIndex then return (p.current, lastIndex)
        else
          let column ← rem p.current p.col
          return (column, 0)
      else if current ≥ p.indexFirst + p.total then some (current, p.indexFirst + p.col)
      else some (current, p.indexFirst)
  | .left =>
      let current := p.current - 1
      if current < 0 then do
        let index ← getLastIndex p totalItems
        return (totalItems - 1, index)
      else if current < p.indexFirst then some (current, p.indexFirst - p.col)
      else some (current, p.indexFirst)
  | .right =>
      let current := p.current + 1
      if current > totalItems - 1 then some (0, 0)
      else if current ≥ p.indexFirst + p.total then some (current, p.indexFirst + p.col)
      else some (current, p.indexFirst)
  | _ => some (0, p.indexFirst)

def Key.isArrow : Key → Bool
  | .up | .down | .left | .right => true
  | _ => false

def Manager.setPage (m : Manager) (p : Preview) : Manager :=
  { m with preview := Function.update m.preview m.itemPage p }

/-- `keyboard_grab_key`. -/
def keyboardGrabKey (m : Manager) (key : Key) (pressed : Bool) : Option (Option Manager) :=
  if pressed = false then some (some m)
  else if key = .leave then some none
  else if key = .enter ∧ m.selected ≠ none then do
    let select ← m.selectedItem
    itemViewSetTiled { m with selected := none } select
  else if key.isArrow = false then some (some m)
  else do
    let target ← arrowTarget m.page m.totalItems key
    let m' ← previewItemShow
      (m.setPage { m.page with current := target.1, indexFirst := target.2 })
    return some m'

/-- The first index after a turn of the wheel, which stays where it is at the ends. -/
def scrolledIndex (p : Preview) (lastIndex : ℤ) (negative : Bool) : ℤ :=
  let nextIndex := if negative then p.indexFirst - p.col else p.indexFirst + p.col
  if nextIndex ≥ 0 ∧ nextIndex ≤ lastIndex then nextIndex else p.indexFirst

/-- `pointer_grab_axis`, over the page and not within 100 ms of the last turn. -/
def pointerGrabAxis (m : Manager) (negative : Bool) : Option (Option Manager) := do
  let lastIndex ← getLastIndex m.page m.totalItems
  let m' ← previewItemShow
    (m.setPage { m.page with indexFirst := scrolledIndex m.page lastIndex negative })
  return some m'

/-- The items with a tree, which the indices count. -/
def Manager.listed (m : Manager) : List Item := m.items.filter (·.tree)

/-- An item under the pointer. -/
def Manager.underPointer (m : Manager) (id : ℕ) : Option Item :=
  m.items.find? fun item => decide (item.id = id) && item.tree && item.shown

/-- `item_hover`: the frame of the item at `current` is disabled, that of the item enabled. -/
def itemHover (m : Manager) (item : Item) : Manager :=
  let old := if 0 ≤ m.page.current then m.listed[m.page.current.toNat]? else none
  let off := m.items.map fun other =>
    if old.map Item.id = some other.id then { other with selection := false } else other
  let on := off.map fun other =>
    if other.id = item.id then { other with selection := true } else other
  { m.setPage { m.page with
      current := (m.listed.findIdx fun other => other.id = item.id : ℕ) } with items := on }

/-- What is under the pointer: a part of an item, the page beside the items, or anything else. -/
inductive Hit where
  | item (id : ℕ) (part : PreviewPart)
  | page
  | outside
  deriving DecidableEq

/-- `pointer_grab_button` and `item_click`. The close button asks the client to close. -/
def pointerGrabButton (m : Manager) (hit : Hit) (left pressed : Bool) : Option (Option Manager) :=
  match hit with
  | .outside => if pressed then some none else some (some m)
  | .page => if pressed || !left then some (some m) else some none
  | .item id part =>
      match m.underPointer id with
      | none => some (some m)
      | some item =>
          if pressed || !left || decide (part = .buttonClose) then some (some m)
          else itemViewSetTiled m item

/-! ### Views that come and go -/

/-- `handle_new_mapped_view`. -/
def handleNewMappedView (m : Manager) (view : View) : Option (Option Manager) :=
  if view.normal = false then some (some m)
  else
    let r := itemInit (itemCreate m view false) m.made view
    if r.1 then (previewItemShow r.2).map some else some (some r.2)

/-- `handle_view_unmap` of the item with the number `id`. -/
def handleViewUnmap (m : Manager) (id : ℕ) : Option (Option Manager) :=
  match m.items.find? fun item => item.id = id with
  | none => some (some m)
  | some item => (previewItemShow (itemDestory m item)).map some

/-- `handle_tiled_view_unmap` of the view in preview `i`. -/
def handleTiledViewUnmap (m : Manager) (i : Fin 4) : Option (Option Manager) :=
  match (m.preview i).view with
  | none => some (some m)
  | some view =>
      itemPageUpdate { m with
        activeView := if m.activeView = some view then none else m.activeView
        preview := Function.update m.preview i { m.preview i with view := none } }

/-- The tiles of the previews, in order (`create_preview_area`). -/
def previewTile (state : SplitState) (i : Fin 4) : Tile :=
  match state, i with
  | .halfScreen, 0 => .left
  | .halfScreen, 1 => .right
  | .halfScreen, _ => .none
  | .quarterScreen, 0 => .topLeft
  | .quarterScreen, 1 => .topRight
  | .quarterScreen, 2 => .bottomLeft
  | .quarterScreen, 3 => .bottomRight

/-- The preview that the first view takes (`create_preview_area`). -/
def firstPreview : Tile → Option (Fin 4)
  | .left | .topLeft => some 0
  | .right | .topRight => some 1
  | .bottomLeft => some 2
  | .bottomRight => some 3
  | _ => none

/-- `create_preview_area`: previews 2 and 3 are not set up for half the screen. -/
def createPreviewArea (usable : Box) (fixedWidth fixedHeight : ℤ) (state : SplitState) :
    Option (Fin 4 → Preview) := do
  let area := previewInit usable fixedWidth fixedHeight
  let p₀ ← area (previewTile state 0)
  let p₁ ← area (previewTile state 1)
  if state = .halfScreen then return ![p₀, p₁, {}, {}]
  else
    let p₂ ← area (previewTile state 2)
    let p₃ ← area (previewTile state 3)
    return ![p₀, p₁, p₂, p₃]

/-- `item_create` and `item_init` of a view of the workspace (`tiled_preview_show`). -/
def addWorkspaceView (first : ℕ) (m : Manager) (view : View) : Manager :=
  if !view.mapped || view.skipTaskbar || !view.onOutput || decide (view.id = first) then m
  else (itemInit (itemCreate m view true) m.made view).2

/-- `tiled_preview_show`, after the previews are set up. `workspace` are the views of the current
    workspace in the order of its proxies. -/
def tiledPreviewShow (m : Manager) (first : ℕ) (workspace : List View) : Option (Option Manager) :=
  match freePreview m.state m.preview with
  | none => some none
  | some i =>
      (previewItemShow
        (workspace.reverse.foldl (addWorkspaceView first) { m with itemPage := i })).map some

def splitState (tile : Tile) : SplitState :=
  if tile = .left ∨ tile = .right then .halfScreen else .quarterScreen

/-- `view_begin_tile_preview` and `tiled_preview_add`, without a manager. -/
def viewBeginTilePreview (view : View) (usable : Box) (tile : Tile) (workspace : List View) :
    Option (Option Manager) :=
  if viewIsSupportPreview view usable tile = false then some none
  else do
    let preview ← createPreviewArea usable ((usable.width - 160).tdiv 4) (usable.height.tdiv 22 * 5)
      (splitState tile)
    let slot ← firstPreview tile
    tiledPreviewShow
      (previewAreaSetView {
        items := [], preview := preview, itemPage := 0, selected := none,
        activeView := some view.id, state := splitState tile, totalItems := 0, usableArea := usable,
        fixedWidth := (usable.width - 160).tdiv 4, fixedHeight := usable.height.tdiv 22 * 5,
        made := 0 } slot view.id) view.id workspace

/-! ### Events -/

inductive Event where
  | begin (view : View) (usable : Box) (tile : Tile) (workspace : List View)
  | key (key : Key) (pressed : Bool)
  | axis (negative : Bool)
  | hover (id : ℕ)
  | button (hit : Hit) (left pressed : Bool)
  | newMappedView (view : View)
  | viewUnmap (id : ℕ)
  | tiledViewUnmap (i : Fin 4)
  | stop

/-- What an event does to the manager, `none` while there is no preview. `stop` is a configured
    output or a destroyed seat. -/
def step : Option Manager → Event → Option (Option Manager)
  | none, .begin view usable tile workspace => viewBeginTilePreview view usable tile workspace
  | none, _ => some none
  | some m, .begin .. => some (some m)
  | some m, .key key pressed => keyboardGrabKey m key pressed
  | some m, .axis negative => pointerGrabAxis m negative
  | some m, .hover id => some (some ((m.underPointer id).elim m (itemHover m)))
  | some m, .button hit left pressed => pointerGrabButton m hit left pressed
  | some m, .newMappedView view => handleNewMappedView m view
  | some m, .viewUnmap id => handleViewUnmap m id
  | some m, .tiledViewUnmap i => handleTiledViewUnmap m i
  | some _, .stop => some none

end FlakeWm.TilePreview
