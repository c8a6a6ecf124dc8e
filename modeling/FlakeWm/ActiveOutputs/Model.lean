import FlakeWm.Box
import FlakeWm.Schemes.Run
import Mathlib.Algebra.Group.Nat.Defs

/-! Which outputs the buffers of a scene are on (`src/scene/buffer.c`, `scene.c`, `output.c`).

    A buffer keeps a mask of the indices of its active outputs, its primary output, and what it has told: an output
    that was entered or left. All of it is refreshed by `update_outputs`, which walks over a subtree. The siblings of
    a node are a `Forest`, from bottom to top; the scene is one node with all others below it. Nodes and outputs have
    numbers that are not used again, while the index of an output is. Coordinates do not overflow. The
    `outputs_update` signal, damage, the fields of a buffer that do not change its size and the destruction of nodes
    are left out; the effective resolution of an output is given with what changed it. -/

namespace FlakeWm.ActiveOutputs

/-- `struct ky_scene_output` with its effective resolution. -/
structure SceneOutput where
  id : ℕ
  index : ℕ
  enabled : Bool
  x : ℤ
  y : ℤ
  width : ℤ
  height : ℤ

def SceneOutput.box (o : SceneOutput) : Box := ⟨o.x, o.y, o.width, o.height⟩

/-- `output_enter` or `output_leave` with its output. -/
structure OutputEvent where
  output : ℕ
  enter : Bool
  deriving DecidableEq

/-- `enum wl_output_transform`; the lowest bit is `WL_OUTPUT_TRANSFORM_90`. -/
abbrev Transform := Fin 8

/-- `struct ky_scene_buffer`; the events are what it emitted, the last one first. -/
structure SceneBuffer where
  buffer : Option (ℤ × ℤ) := none
  dstWidth : ℤ := 0
  dstHeight : ℤ := 0
  transform : Transform := 0
  activeOutputs : BitVec 64 := 0
  primaryOutput : Option ℕ := none
  events : List OutputEvent := []

inductive Kind where
  | tree
  | rect
  | buffer (b : SceneBuffer)

/-- `struct ky_scene_node`. -/
structure Node where
  id : ℕ
  x : ℤ := 0
  y : ℤ := 0
  kind : Kind

/-- Siblings from bottom to top, each with the nodes below it. -/
inductive Forest where
  | nil
  | node (n : Node) (children above : Forest)

/-! ### Boxes -/

/-- `buffer_get_dest_size`. -/
def SceneBuffer.destSize (b : SceneBuffer) : ℤ × ℤ :=
  if b.dstWidth > 0 ∧ b.dstHeight > 0 then (b.dstWidth, b.dstHeight)
  else
    match b.buffer with
    | some (width, height) => if b.transform.val % 2 = 1 then (height, width) else (width, height)
    | none => (0, 0)

/-- The destination box of a buffer node at a place. -/
def SceneBuffer.box (b : SceneBuffer) (x y : ℤ) : Box := ⟨x, y, b.destSize.1, b.destSize.2⟩

/-- The sides of an intersection. -/
def overlapSides (a b : Box) : ℤ × ℤ :=
  (min (a.x + a.width) (b.x + b.width) - max a.x b.x, min (a.y + a.height) (b.y + b.height) - max a.y b.y)

/-- The intersection of the regions of two boxes is not empty. -/
def meets (a b : Box) : Bool := decide (0 < (overlapSides a b).1) && decide (0 < (overlapSides a b).2)

/-- `region_area` of an intersection, as `uint32_t`. -/
def regionArea (a b : Box) : ℕ := ((overlapSides a b).1 * (overlapSides a b).2).toNat % 2 ^ 32

/-! ### Refreshing a buffer -/

/-- The variables of the first loop in `buffer_update_outputs`. -/
structure Overlap where
  largest : ℕ := 0
  primaryOutput : Option ℕ := none
  activeOutputs : BitVec 64 := 0

/-- An output that the loop does not pass over. -/
def considered (ignore : Option ℕ) (box : Box) (o : SceneOutput) : Bool :=
  decide (ignore ≠ some o.id) && o.enabled && meets box o.box

/-- A round of the first loop. -/
def Overlap.add (ignore : Option ℕ) (box : Box) (v : Overlap) (o : SceneOutput) : Overlap :=
  if considered ignore box o then
    let overlap := regionArea box o.box
    { largest := if overlap ≥ v.largest then overlap else v.largest
      primaryOutput := if overlap ≥ v.largest then some o.id else v.primaryOutput
      activeOutputs := v.activeOutputs ||| BitVec.twoPow 64 o.index }
  else v

/-- A round of the second loop: what is told about one output. -/
def emitOutput (before after : BitVec 64) (events : List OutputEvent) (o : SceneOutput) : List OutputEvent :=
  if after.getLsbD o.index && !before.getLsbD o.index then ⟨o.id, true⟩ :: events
  else if !after.getLsbD o.index && before.getLsbD o.index then ⟨o.id, false⟩ :: events
  else events

/-- `buffer_update_outputs`. -/
def SceneBuffer.updateOutputs (outputs : List SceneOutput) (ignore : Option ℕ) (b : SceneBuffer) (x y : ℤ) :
    SceneBuffer :=
  let v := outputs.foldl (Overlap.add ignore (b.box x y)) {}
  { b with
    primaryOutput := v.primaryOutput
    activeOutputs := v.activeOutputs
    events := outputs.foldl (emitOutput b.activeOutputs v.activeOutputs) b.events }

/-! ### Trees -/

/-- A function of buffers at a place, for whatever node is there. -/
def Kind.map (f : SceneBuffer → SceneBuffer) : Kind → Kind
  | .tree => .tree
  | .rect => .rect
  | .buffer b => .buffer (f b)

namespace Forest

/-- Every buffer is changed by a function of its node and its place. -/
def mapBuffers (f : ℕ → SceneBuffer → ℤ → ℤ → SceneBuffer) : Forest → ℤ → ℤ → Forest
  | nil, _, _ => nil
  | node n children above, x, y =>
      node { n with kind := n.kind.map fun b => f n.id b (x + n.x) (y + n.y) }
        (mapBuffers f children (x + n.x) (y + n.y)) (mapBuffers f above x y)

/-- `tree_update_outputs`, and what it calls for the leaves. -/
def updateOutputs (outputs : List SceneOutput) (ignore : Option ℕ) (f : Forest) (x y : ℤ) : Forest :=
  f.mapBuffers (fun _ b => b.updateOutputs outputs ignore) x y

/-- `ky_scene_node_set_position`, in a walk to the node. -/
def setPosition (outputs : List SceneOutput) (id : ℕ) (newX newY : ℤ) : Forest → ℤ → ℤ → Forest
  | nil, _, _ => nil
  | node n children above, x, y =>
      if n.id = id ∧ ¬(n.x = newX ∧ n.y = newY) then
        node
          { n with
            x := newX
            y := newY
            kind := n.kind.map fun b => b.updateOutputs outputs none (x + newX) (y + newY) }
          (updateOutputs outputs none children (x + newX) (y + newY)) (setPosition outputs id newX newY above x y)
      else
        node n (setPosition outputs id newX newY children (x + n.x) (y + n.y))
          (setPosition outputs id newX newY above x y)

/-- The node of a number, with the nodes below it. -/
def find (id : ℕ) : Forest → Option (Node × Forest)
  | nil => none
  | node n children above =>
      if n.id = id then some (n, children) else (find id children).orElse fun _ => find id above

def has (id : ℕ) (f : Forest) : Bool := (f.find id).isSome

/-- The siblings at the top level have the number. -/
def hasTop (id : ℕ) : Forest → Bool
  | nil => false
  | node n _ above => decide (n.id = id) || hasTop id above

/-- `wl_list_remove` of a node from its siblings. -/
def remove (id : ℕ) : Forest → Forest
  | nil => nil
  | node n children above => if n.id = id then remove id above else node n (remove id children) (remove id above)

/-- A node is added above its siblings. -/
def addTop (n : Node) (children : Forest) : Forest → Forest
  | nil => node n children nil
  | node m below above => node m below (addTop n children above)

/-- A node becomes the top child of a tree, and its outputs are refreshed there. -/
def insert (outputs : List SceneOutput) (parent : ℕ) (n : Node) (children : Forest) : Forest → ℤ → ℤ → Forest
  | nil, _, _ => nil
  | node m below above, x, y =>
      if m.id = parent then
        node m
          (addTop
            { n with
              kind := n.kind.map fun b => b.updateOutputs outputs none (x + m.x + n.x) (y + m.y + n.y) }
            (updateOutputs outputs none children (x + m.x + n.x) (y + m.y + n.y)) below)
          (insert outputs parent n children above x y)
      else node m (insert outputs parent n children below (x + m.x) (y + m.y)) (insert outputs parent n children above x y)

/-- A node is changed where it is. -/
def edit (id : ℕ) (f : SceneBuffer → ℤ → ℤ → SceneBuffer) (forest : Forest) (x y : ℤ) : Forest :=
  forest.mapBuffers (fun i b x y => if i = id then f b x y else b) x y

end Forest

/-! ### The scene -/

/-- `struct ky_scene`: the root tree is node 0; the outputs are in the order of their indices. -/
structure State where
  root : Forest := .node ⟨0, 0, 0, .tree⟩ .nil .nil
  outputs : List SceneOutput := []
  nextNode : ℕ := 1
  nextOutput : ℕ := 0

inductive Event where
  | treeCreate (parent : ℕ)
  | rectCreate (parent : ℕ)
  | bufferCreate (parent : ℕ) (buffer : Option (ℤ × ℤ))
  | setPosition (id : ℕ) (x y : ℤ)
  | reparent (id parent : ℕ)
  | setBuffer (id : ℕ) (buffer : Option (ℤ × ℤ))
  | setDestSize (id : ℕ) (width height : ℤ)
  | setTransform (id : ℕ) (transform : Transform)
  /-- `ky_scene_output_create` of an output with this resolution -/
  | outputCreate (enabled : Bool) (width height : ℤ)
  | outputDestroy (id : ℕ)
  | outputSetPosition (id : ℕ) (x y : ℤ)
  /-- a commit that changes mode, scale, transform or the enabled state -/
  | outputCommit (id : ℕ) (enabled : Bool) (width height : ℤ)

/-- `ky_scene_buffer_set_buffer`. -/
def SceneBuffer.setBuffer (outputs : List SceneOutput) (buffer : Option (ℤ × ℤ)) (b : SceneBuffer) (x y : ℤ) :
    SceneBuffer :=
  if b.buffer.isNone ∧ buffer.isNone then b
  else
    let getOrLostBuffer := b.buffer.isNone ∨ buffer.isNone
    let b' := { b with buffer := buffer }
    if b.destSize = b'.destSize then
      if getOrLostBuffer then b'.updateOutputs outputs none x y else b'
    else b'.updateOutputs outputs none x y

/-- `ky_scene_buffer_set_dest_size`. -/
def SceneBuffer.setDestSize (outputs : List SceneOutput) (width height : ℤ) (b : SceneBuffer) (x y : ℤ) : SceneBuffer :=
  if b.dstWidth = width ∧ b.dstHeight = height then b
  else { b with dstWidth := width, dstHeight := height }.updateOutputs outputs none x y

/-- `ky_scene_buffer_set_transform`. -/
def SceneBuffer.setTransform (transform : Transform) (b : SceneBuffer) : SceneBuffer :=
  { b with transform := transform }

/-- The index of a new output: the loop of `ky_scene_output_create` stops at the first gap. -/
def freeIndex : List SceneOutput → ℕ → ℕ
  | [], i => i
  | o :: outputs, i => if o.index = i then freeIndex outputs (i + 1) else i

/-- The new output is put before the gap's end. -/
def insertOutput (new : SceneOutput) : List SceneOutput → ℕ → List SceneOutput
  | [], _ => [new]
  | o :: outputs, i => if o.index = i then o :: insertOutput new outputs (i + 1) else new :: o :: outputs

namespace State

variable (s : State)

/-- A new node above the children of a tree; only a tree can have children. -/
def create (parent : ℕ) (kind : Kind) : Option State :=
  match s.root.find parent with
  | some (⟨_, _, _, .tree⟩, _) =>
      some
        { s with
          root := .insert s.outputs parent { id := s.nextNode, kind := kind } .nil s.root 0 0
          nextNode := s.nextNode + 1 }
  | _ => none

/-- `ky_scene_node_reparent`; a node cannot become its own ancestor. -/
def reparent (id parent : ℕ) : Option State :=
  match s.root.find id, s.root.find parent with
  | some (n, children), some (⟨_, _, _, .tree⟩, siblings) =>
      if siblings.hasTop id then some s
      else if id = parent ∨ children.has parent then none
      else some { s with root := .insert s.outputs parent n children (s.root.remove id) 0 0 }
  | _, _ => none

/-- `ky_scene_node_update_outputs` of the root. -/
def updateAll (outputs : List SceneOutput) (ignore : Option ℕ) : State :=
  { s with root := s.root.updateOutputs outputs ignore 0 0, outputs := outputs }

/-- `ky_scene_output_create`; at most 64 outputs are there. -/
def outputCreate (enabled : Bool) (width height : ℤ) : Option State :=
  let index := freeIndex s.outputs 0
  if s.outputs.length < 64 ∧ index < 64 then
    let o : SceneOutput := ⟨s.nextOutput, index, enabled, 0, 0, width, height⟩
    some { s.updateAll (insertOutput o s.outputs 0) none with nextOutput := s.nextOutput + 1 }
  else none

/-- `ky_scene_output_destroy`: the output is ignored by the refresh and then removed. -/
def outputDestroy (id : ℕ) : State :=
  let s := s.updateAll s.outputs (some id)
  { s with outputs := s.outputs.filter fun o => decide (o.id ≠ id) }

/-- The outputs with one of them changed. -/
def editOutput (id : ℕ) (f : SceneOutput → SceneOutput) : List SceneOutput :=
  s.outputs.map fun o => if o.id = id then f o else o

/-- `scene_output_set_position`. -/
def outputSetPosition (id : ℕ) (x y : ℤ) : State :=
  match s.outputs.find? fun o => decide (o.id = id) with
  | none => s
  | some o =>
    if o.x = x ∧ o.y = y then s else s.updateAll (s.editOutput id fun o => { o with x := x, y := y }) none

/-- `scene_output_handle_commit`. -/
def outputCommit (id : ℕ) (enabled : Bool) (width height : ℤ) : State :=
  s.updateAll (s.editOutput id fun o => { o with enabled := enabled, width := width, height := height }) none

end State

def step (s : State) : Event → Option State
  | .treeCreate parent => s.create parent .tree
  | .rectCreate parent => s.create parent .rect
  | .bufferCreate parent buffer => s.create parent (.buffer { buffer := buffer })
  | .setPosition id x y => some { s with root := s.root.setPosition s.outputs id x y 0 0 }
  | .reparent id parent => s.reparent id parent
  | .setBuffer id buffer => some { s with root := s.root.edit id (fun b => b.setBuffer s.outputs buffer) 0 0 }
  | .setDestSize id width height =>
      some { s with root := s.root.edit id (fun b => b.setDestSize s.outputs width height) 0 0 }
  | .setTransform id transform => some { s with root := s.root.edit id (fun b _ _ => b.setTransform transform) 0 0 }
  | .outputCreate enabled width height => s.outputCreate enabled width height
  | .outputDestroy id => some (s.outputDestroy id)
  | .outputSetPosition id x y => some (s.outputSetPosition id x y)
  | .outputCommit id enabled width height => some (s.outputCommit id enabled width height)

end FlakeWm.ActiveOutputs
