import FlakeWm.Box
import FlakeWm.Schemes.Run
import FlakeWm.Schemes.Slots
import FlakeWm.Schemes.Links

/-! The positioner that finds a place for new views (`view/positioner.c`).

    Every output has a positioner, a grid of slots over the usable area of the output; the grid, and
    with it `max_slot`, changes whenever that area changes. Every workspace has a place in every
    positioner: an array of slots that counts the views at each slot and links the free ones, below
    `last_slot`, into a list. `place_find_slot` is the only way to a slot that checks its index, and
    it knows the slots up to the present `max_slot` only.

    The run is about `positioner_update_grid` and the three functions that enter, move and remove the
    entry of a view, for any slot: mapping, moving, minimizing and unmapping a view and changing its
    workspace call them, with the slot found by `positioner_add_new_view` or computed from the
    geometry of the view. Allocation succeeds, places outlive the run, and `int` does not overflow. -/

namespace FlakeWm.Placing

abbrev PositionerId := ℕ
abbrev WorkspaceId := ℕ
abbrev EntryId := ℕ

def GRID_GAP_ROW : ℤ := 50
def GRID_GAP_COLUMN : ℤ := 50
def GRID_OFFSET_TOP : ℤ := 50
def GRID_OFFSET_BOTTOM : ℤ := 500
def GRID_OFFSET_LEFT : ℤ := 50
def GRID_OFFSET_RIGHT : ℤ := 500

/-! ### The grid -/

/-- `struct positioner`, with the offsets and gaps that `handle_new_output` gives to all of them. -/
structure Positioner where
  gridArea : Box
  usableArea : Box
  numStep : ℤ
  numColumn : ℤ
  keySlot : ℤ
  maxSlot : ℤ
  deriving DecidableEq, Repr

/-- A new positioner. -/
def Positioner.zero : Positioner := ⟨⟨0, 0, 0, 0⟩, ⟨0, 0, 0, 0⟩, 0, 0, 0, 0⟩

def clampSize (size off gap : ℤ) : ℤ :=
  let size := size - off
  let size := if size < gap then gap else size
  size.tdiv gap * gap

/-- Skips the dead area and aligns to a multiple of the gap. -/
def gridOf (usable : Box) : Box where
  x := usable.x + GRID_OFFSET_LEFT
  y := usable.y + GRID_OFFSET_TOP
  width := clampSize usable.width (GRID_OFFSET_LEFT + GRID_OFFSET_RIGHT) GRID_GAP_COLUMN
  height := clampSize usable.height (GRID_OFFSET_TOP + GRID_OFFSET_BOTTOM) GRID_GAP_ROW

def positionerUpdateGrid (pos : Positioner) (usable : Box) : Positioner :=
  if kywcBoxEqual pos.usableArea usable then pos
  else
    let pos := { pos with usableArea := usable }
    let area := gridOf usable
    if kywcBoxEqual pos.gridArea area then pos
    else
      let numColumn := area.width.tdiv GRID_GAP_COLUMN
      let numRow := area.height.tdiv GRID_GAP_ROW
      let numStep := min numColumn numRow
      let keySlot := numStep * (numColumn - numStep) + numStep - 1
      { pos with
        gridArea := area
        numColumn := numColumn
        numStep := numStep
        keySlot := keySlot
        maxSlot := keySlot + (numStep * (numStep - 1)).tdiv 2 }

/-! ### Slots -/

structure Slot where
  prev : ℤ
  next : ℤ
  entries : ℤ
  deriving DecidableEq, Repr

/-- `struct place`; its positioner and workspace are the key under which it is found. -/
structure Place where
  allocNumber : ℕ
  slots : ℕ → Slot
  entries : List EntryId
  lastSlot : ℕ
  freeList : ℤ

namespace Place

def next (p : Place) (i : ℕ) : ℤ := (p.slots i).next
def prev (p : Place) (i : ℕ) : ℤ := (p.slots i).prev

def setSlot (p : Place) (i : ℕ) (x : Slot) : Place :=
  { p with slots := Function.update p.slots i x }

def setNext (p : Place) (i : ℕ) (next : ℤ) : Place := p.setSlot i { p.slots i with next := next }
def setPrev (p : Place) (i : ℕ) (prev : ℤ) : Place := p.setSlot i { p.slots i with prev := prev }

/-- `slot_p->entries += n`. -/
def addEntries (p : Place) (i : ℕ) (n : ℤ) : Place :=
  p.setSlot i { p.slots i with entries := (p.slots i).entries + n }

end Place

/-- The `while` loop that doubles the allocation until `slot` fits. -/
def doubled (slot : ℕ) : ℕ → ℕ → ℕ
  | 0, n => n
  | fuel + 1, n => if n ≤ slot then doubled slot fuel (n * 2) else n

/-- The new size of an array of `n` slots that has no room for `slot`. -/
def grownNumber (maxSlot : ℤ) (n slot : ℕ) : ℕ :=
  min (doubled slot (slot + 1) (if n ≠ 0 then n else 16)) (maxSlot + 1).toNat

/-- `realloc` and `memset` for `slot`, which is at most `max_slot`. -/
def placeGrow (maxSlot : ℤ) (p : Place) (slot : ℕ) : Place :=
  if p.allocNumber > slot then p
  else
    let n := grownNumber maxSlot p.allocNumber slot
    { p with
      allocNumber := n
      slots := fun i => if p.allocNumber ≤ i ∧ i < n then ⟨0, 0, 0⟩ else p.slots i }

/-- `place_find_slot`: the index of the slot found, and the place with room for it. -/
def placeFindSlot (maxSlot : ℤ) (p : Place) (slot : ℤ) : Place × Option ℕ :=
  if slot < 0 ∨ slot > maxSlot then (p, none)
  else (placeGrow maxSlot p slot.toNat, some slot.toNat)

/-- A slot that was looked up before becomes the head of the free list. -/
def placeInsertFreeSlot (maxSlot : ℤ) (p : Place) (slot : ℕ) : Place :=
  let p := (placeFindSlot maxSlot p slot).1
  let next := p.freeList
  let p := p.setSlot slot ⟨-1, next, 0⟩
  let p := { p with freeList := slot }
  if next ≥ 0 then p.setPrev next.toNat slot else p

/-- `if (prev_p) prev_p->next = next;` for the slot found at `prev`. -/
def placeWriteNext (maxSlot : ℤ) (p : Place) (prev next : ℤ) : Place :=
  match placeFindSlot maxSlot p prev with
  | (p, none) => p
  | (p, some i) => p.setNext i next

/-- `if (next_p) next_p->prev = prev;` for the slot found at `next`. -/
def placeWritePrev (maxSlot : ℤ) (p : Place) (next prev : ℤ) : Place :=
  match placeFindSlot maxSlot p next with
  | (p, none) => p
  | (p, some i) => p.setPrev i prev

/-- Takes a slot out of the free list; neighbours that are not found are not written. -/
def placeTakeFreeSlot (maxSlot : ℤ) (p : Place) (slot : ℕ) : Place :=
  let p := if (slot : ℤ) = p.freeList then { p with freeList := p.next slot } else p
  let p := placeWriteNext maxSlot p (p.prev slot) (p.next slot)
  placeWritePrev maxSlot p (p.next slot) (p.prev slot)

/-- One more entry at a slot that was looked up before. -/
def placeUpdateSlot (maxSlot : ℤ) (p : Place) (slot : ℕ) : Place :=
  let p := (placeFindSlot maxSlot p slot).1
  let p :=
    if slot ≥ p.lastSlot then
      { upLoop p.lastSlot slot (placeInsertFreeSlot maxSlot) p with lastSlot := slot + 1 }
    else if (p.slots slot).entries = 0 then placeTakeFreeSlot maxSlot p slot
    else p
  p.addEntries slot 1

/-- The lookup and the update at the end of `place_insert_entry` and `place_update_entry`. -/
def placeOccupy (maxSlot : ℤ) (p : Place) (slot : ℤ) : Place :=
  match placeFindSlot maxSlot p slot with
  | (p, none) => p
  | (p, some slot) => placeUpdateSlot maxSlot p slot

/-- The lookup and the release at the start of `place_remove_entry` and `place_update_entry`. -/
def placeRelease (maxSlot : ℤ) (p : Place) (slot : ℤ) : Place :=
  match placeFindSlot maxSlot p slot with
  | (p, none) => p
  | (p, some slot) =>
    let p := p.addEntries slot (-1)
    if (p.slots slot).entries = 0 then placeInsertFreeSlot maxSlot p slot else p

/-! ### Looking for a slot -/

/-- The size and margin of a `kywc_view`. -/
structure View where
  width : ℤ
  height : ℤ
  offX : ℤ
  offY : ℤ
  offWidth : ℤ
  offHeight : ℤ
  deriving DecidableEq, Repr

/-- The loop over the shorter diagonals, from round `i` on; the result is the column and the row. -/
def shortDiagonals (slot : ℤ) (column row : ℤ) : ℕ → ℤ → ℤ → ℤ × ℤ
  | 0, _, _ => (column, row)
  | n + 1, i, num =>
    if i < row then
      let num := num + (row - i)
      let off := num - slot
      if off ≥ 0 then (column - off, row - (off + i + 1))
      else shortDiagonals slot column row n (i + 1) num
    else (column, row)

/-- The top-left corner of a slot; `none` for a slot that the grid does not have. -/
def positionerCalcPosition (pos : Positioner) (slot : ℤ) : Option (ℤ × ℤ) :=
  if slot > pos.maxSlot then none
  else
    let (column, row) :=
      if slot ≤ pos.keySlot then
        let row := slot.tmod pos.numStep
        (slot.tdiv pos.numStep + row, row)
      else
        let row := pos.numStep - 1
        shortDiagonals slot (pos.numColumn - 1) row row.toNat 0 pos.keySlot
    some (column * GRID_GAP_COLUMN + pos.gridArea.x, row * GRID_GAP_ROW + pos.gridArea.y)

/-- A view fits into the usable area from the corner of the slot on. -/
def slotIsSuitable (pos : Positioner) (view : View) (slot : ℤ) : Bool :=
  match positionerCalcPosition pos slot with
  | none => false
  | some (x, y) =>
    decide (pos.usableArea.x + pos.usableArea.width - x ≥ view.width + view.offWidth) &&
      decide (pos.usableArea.y + pos.usableArea.height - y ≥ view.height + view.offHeight)

/-- The walk of `positioner_add_new_view` along the free list, in at most `n` rounds. -/
def findFreeSlot (pos : Positioner) (p : Place) (view : View) (n : ℕ) : Option ℤ :=
  walk p.next (slotIsSuitable pos view) n p.freeList

/-! ### Entries -/

/-- The positioner and the workspace of a place. -/
abbrev PlaceKey := PositionerId × WorkspaceId

/-- `struct entry`; `place` is `none` for an entry that is in no place. -/
structure Entry where
  place : Option PlaceKey
  slot : ℤ
  deriving DecidableEq, Repr

structure State where
  positioner : PositionerId → Positioner
  place : PlaceKey → Option Place
  entry : EntryId → Entry

namespace State

/-- No grid, no place, no entry. -/
def init : State := ⟨fun _ => .zero, fun _ => none, fun _ => ⟨none, -1⟩⟩

/-- The `max_slot` that counts for a place. -/
def maxSlot (s : State) (k : PlaceKey) : ℤ := (s.positioner k.1).maxSlot

def setEntry (s : State) (e : EntryId) (x : Entry) : State :=
  { s with entry := Function.update s.entry e x }

def modifyPlace (s : State) (k : PlaceKey) (f : Place → Place) : State :=
  { s with place := Function.update s.place k ((s.place k).map f) }

end State

/-- `wl_list_insert(&place->entries, &entry->link)`. -/
def Place.link (p : Place) (e : EntryId) : Place := { p with entries := e :: p.entries }

/-- `wl_list_remove(&entry->link)`. -/
def Place.unlink (p : Place) (e : EntryId) : Place :=
  { p with entries := p.entries.filter fun e' => decide (e' ≠ e) }

/-- `calloc`, with an empty free list. -/
def Place.zero : Place := ⟨0, fun _ => ⟨0, 0, 0⟩, [], 0, -1⟩

/-- `positioner_get_place`, for a view that is in a workspace: the place is there afterwards. -/
def positionerGetPlace (s : State) (k : PlaceKey) : Option State :=
  match s.place k with
  | some _ => some s
  | none =>
    match placeFindSlot (s.maxSlot k) .zero (min 31 ((s.maxSlot k).tdiv 4)) with
    | (_, none) => none
    | (p, some _) => some { s with place := Function.update s.place k (some p) }

def placeInsertEntry (s : State) (k : PlaceKey) (e : EntryId) (slot : ℤ) : State :=
  let s := (s.setEntry e ⟨some k, slot⟩).modifyPlace k (·.link e)
  s.modifyPlace k (placeOccupy (s.maxSlot k) · slot)

/-- `k` is the place of the entry. -/
def placeRemoveEntry (s : State) (k : PlaceKey) (e : EntryId) : State :=
  let s := s.modifyPlace k (placeRelease (s.maxSlot k) · (s.entry e).slot)
  (s.setEntry e ⟨none, -1⟩).modifyPlace k (·.unlink e)

/-- `k` is the place of the entry so far. -/
def placeUpdateEntry (s : State) (k k' : PlaceKey) (e : EntryId) (slot : ℤ) : State :=
  if k' = k ∧ slot = (s.entry e).slot then s
  else
    let s := s.modifyPlace k (placeRelease (s.maxSlot k) · (s.entry e).slot)
    let s := if k' = k then s else (s.modifyPlace k (·.unlink e)).modifyPlace k' (·.link e)
    let s := s.setEntry e ⟨some k', slot⟩
    s.modifyPlace k' (placeOccupy (s.maxSlot k') · slot)

/-! ### Events -/

inductive Event where
  | updateGrid (pos : PositionerId) (usable : Box)
  | insertEntry (e : EntryId) (k : PlaceKey) (slot : ℤ)
  | removeEntry (e : EntryId)
  | updateEntry (e : EntryId) (k : PlaceKey) (slot : ℤ)
  deriving DecidableEq, Repr

/-- One call. An entry is inserted when it is in no place, and removed or updated when it is in
    one; the place it goes to is created when it is not there yet. -/
def step (s : State) : Event → Option State
  | .updateGrid pos usable =>
    some { s with
      positioner := Function.update s.positioner pos (positionerUpdateGrid (s.positioner pos) usable) }
  | .insertEntry e k slot =>
    match (s.entry e).place with
    | some _ => none
    | none => (positionerGetPlace s k).map fun s => placeInsertEntry s k e slot
  | .removeEntry e =>
    match (s.entry e).place with
    | none => none
    | some k => some (placeRemoveEntry s k e)
  | .updateEntry e k' slot =>
    match (s.entry e).place with
    | none => none
    | some k => (positionerGetPlace s k').map fun s => placeUpdateEntry s k k' e slot

end FlakeWm.Placing
