import Mathlib.Data.Finset.Prod
import Mathlib.Data.Finset.Range
import Mathlib.Data.Rat.Defs
import FlakeWm.Schemes.Run

/-! The scene graph and its damage (`scene/scene.c`, `scene/rect.c`, `scene/buffer.c`).

    A scene is a tree of nodes; its leaves are rectangles and buffers. Every change of a node pushes
    the box it had and the box it has into `pushed_damage`, and `ky_scene_collect_damage` then walks
    over the leaves from top to bottom: those that touch the pushed region get a new
    `visible_region`, and what changed of them is damage for the outputs. A change that keeps the
    visible regions is harmless: it becomes damage at once.

    Regions are finite sets of points and coordinates do not overflow. The siblings of a node are a
    `Forest`, listed from top to bottom, and a node is named by its path from the root: the position
    of each ancestor among its siblings, counted from the top, and its own. Buffers are fixed when
    their node is created, have no destination size and are not transformed. Signals, blur, input
    and the scheduling of frames are left out. -/

namespace FlakeWm.Damage

abbrev Point := ℤ × ℤ
abbrev Region := Finset Point
abbrev Path := List ℕ

/-- The `length` integers from `start` on. -/
def span (start length : ℤ) : Finset ℤ := (Finset.range length.toNat).image fun k : ℕ => start + k

/-- `pixman_region32_init_rect`, which is empty unless width and height are positive. -/
def rectRegion (x y width height : ℤ) : Region :=
  span x width ×ˢ span y height

/-- `pixman_region32_translate`. -/
def translate (r : Region) (dx dy : ℤ) : Region := r.image fun p => (p.1 + dx, p.2 + dy)

/-- The flags of `enum ky_scene_damage_type`. -/
structure DamageType where
  harmless : Bool
  harmful : Bool
  deriving DecidableEq, Repr

namespace DamageType

def none : DamageType := ⟨false, false⟩
def HARMLESS : DamageType := ⟨true, false⟩
def HARMFUL : DamageType := ⟨false, true⟩
def BOTH : DamageType := ⟨true, true⟩

def or (s t : DamageType) : DamageType := ⟨s.harmless || t.harmless, s.harmful || t.harmful⟩

end DamageType

/-! ### Nodes -/

structure Color where
  r : ℚ
  g : ℚ
  b : ℚ
  a : ℚ
  deriving DecidableEq

/-- A `wlr_buffer`; `isOpaque` says that its format has no alpha. -/
structure Buffer where
  width : ℤ
  height : ℤ
  isOpaque : Bool
  deriving DecidableEq

inductive Content where
  | rect (width height : ℤ) (color : Color)
  | buffer (buffer : Option Buffer) (opacity : ℚ) (opaqueRegion : Region)
  deriving DecidableEq

/-- The radius of the four corners. -/
structure Radius where
  rb : ℤ
  rt : ℤ
  lb : ℤ
  lt : ℤ
  deriving DecidableEq

/-- `struct ky_scene_node`; a node without content is a tree. -/
structure Node where
  content : Option Content
  enabled : Bool
  x : ℤ
  y : ℤ
  radius : Radius
  damageType : DamageType
  lastEnabled : Bool
  visibleRegion : Region
  clipRegion : Region

/-- The children of a tree from top to bottom; those of a leaf are not used. -/
inductive Forest where
  | nil
  | node (n : Node) (children below : Forest)

/-- The width and height of a leaf, for a buffer `buffer_get_dest_size`. -/
def Content.size : Content → ℤ × ℤ
  | .rect width height _ => (width, height)
  | .buffer none _ _ => (0, 0)
  | .buffer (some b) _ _ => (b.width, b.height)

/-- The alpha of a rectangle or the opacity of a buffer that is there. -/
def Content.alpha : Content → ℚ
  | .rect _ _ color => color.a
  | .buffer none _ _ => 0
  | .buffer (some _) opacity _ => opacity

/-- Where a leaf is opaque, before its clip region and its corners; for a buffer
    `buffer_get_opaque_region`. -/
def Content.opaqueRegion : Content → Region
  | .rect width height color => if color.a = 1 then rectRegion 0 0 width height else ∅
  | .buffer none _ _ => ∅
  | .buffer (some b) opacity region =>
    if opacity ≠ 1 then ∅
    else if b.isOpaque then rectRegion 0 0 b.width b.height
    else region ∩ rectRegion 0 0 b.width b.height

/-- `ky_scene_corner_region`. -/
def cornerRegion (width height : ℤ) (r : Radius) : Region :=
  rectRegion (width - r.rb) (height - r.rb) r.rb r.rb ∪
    rectRegion (width - r.rt) 0 r.rt r.rt ∪
    rectRegion 0 (height - r.lb) r.lb r.lb ∪
    rectRegion 0 0 r.lt r.lt

namespace Node

/-- `ky_scene_node_init`. -/
def init (content : Option Content) : Node where
  content := content
  enabled := true
  x := 0
  y := 0
  radius := ⟨0, 0, 0, 0⟩
  damageType := .HARMFUL
  lastEnabled := false
  visibleRegion := ∅
  clipRegion := ∅

def mark (n : Node) (type : DamageType) : Node := { n with damageType := n.damageType.or type }

end Node

/-! ### Bounding boxes -/

/-- The corners `(x1, y1)` and `(x2, y2)` of a box. -/
structure Extents where
  x1 : ℤ
  y1 : ℤ
  x2 : ℤ
  y2 : ℤ

def Extents.region (e : Extents) : Region := rectRegion e.x1 e.y1 (e.x2 - e.x1) (e.y2 - e.y1)

/-- One round of the loop in `tree_get_bounding_box`; `none` is before the first child. -/
def Extents.add (e : Extents) : Option Extents → Extents
  | none => e
  | some e' => ⟨min e.x1 e'.x1, min e.y1 e'.y1, max e.x2 e'.x2, max e.y2 e'.y2⟩

/-- `get_bounding_box` of a node, given the extents of its visible children. -/
def boundingBox (n : Node) (children : Option Extents) : Extents :=
  match n.content with
  | some c => ⟨0, 0, c.size.1, c.size.2⟩
  | none => children.getD ⟨0, 0, 0, 0⟩

namespace Forest

def isNil : Forest → Bool
  | nil => true
  | node _ _ _ => false

/-- `ky_scene_node_is_visible`. -/
def isVisible (n : Node) (children : Forest) : Bool :=
  n.enabled &&
    match n.content with
    | some c => decide (c.alpha ≠ 0)
    | none => !children.isNil

/-- What the visible nodes of a list of siblings extend over, `none` if there are none. -/
def extents : Forest → Option Extents
  | nil => none
  | node n children below =>
    if isVisible n children then
      let box := boundingBox n children.extents
      some (Extents.add ⟨box.x1 + n.x, box.y1 + n.y, box.x2 + n.x, box.y2 + n.y⟩ below.extents)
    else below.extents

end Forest

/-! ### Places in the tree -/

/-- What the ancestors of a node come to: where they are, whether they are all enabled, and the
    damage of all but the root. -/
structure Ctx where
  x : ℤ
  y : ℤ
  enabled : Bool
  damageType : DamageType

def Ctx.enter (c : Ctx) (n : Node) : Ctx :=
  ⟨c.x + n.x, c.y + n.y, c.enabled && n.enabled, c.damageType.or n.damageType⟩

namespace Forest

/-- The node at a path and the siblings below it, with what is above. -/
def sub : Forest → Ctx → Path → Option (Ctx × Forest)
  | _, _, [] => none
  | f, c, [0] => some (c, f)
  | nil, _, _ => none
  | node n children _, c, 0 :: i :: p =>
    if n.content = none then children.sub (c.enter n) (i :: p) else none
  | node _ _ below, c, (i + 1) :: p => below.sub c (i :: p)

/-- Changing what is at a path. -/
def edit (change : Forest → Option Forest) : Forest → Path → Option Forest
  | _, [] => none
  | f, [0] => change f
  | nil, _ => none
  | node n children below, 0 :: i :: p =>
    if n.content = none then (children.edit change (i :: p)).map fun children =>
      node n children below
    else none
  | node n children below, (i + 1) :: p =>
    (below.edit change (i :: p)).map fun below => node n children below

/-- Writing to the node in front. -/
def update (f : Node → Node) : Forest → Option Forest
  | nil => none
  | node n children below => some (node (f n) children below)

/-- `wl_list_remove`. -/
def remove : Forest → Option Forest
  | nil => none
  | node _ _ below => some below

/-- `wl_list_insert`. -/
def insert (n : Node) (children : Forest) (f : Forest) : Option Forest := some (node n children f)

end Forest

/-! ### The scene -/

/-- What an output shows of the scene, and its damage. -/
structure Output where
  x : ℤ
  y : ℤ
  width : ℤ
  height : ℤ
  collectedDamage : Region

/-- `struct ky_scene`; the content of the root is not used. -/
structure Scene where
  root : Node
  children : Forest
  collectedDamage : Region
  collectedInvisible : Region
  pushedDamage : Region
  outputs : List Output

namespace Scene

/-- What is above the children of the root. -/
def ctx (s : Scene) : Ctx := ⟨s.root.x, s.root.y, s.root.enabled, .none⟩

/-- The node at a path, `[]` for the root. -/
def find (s : Scene) : Path → Option (Ctx × Node × Forest)
  | [] => some (⟨0, 0, true, .none⟩, s.root, s.children)
  | i :: p =>
    match s.children.sub s.ctx (i :: p) with
    | some (c, .node n children _) => some (c, n, children)
    | _ => none

def edit (s : Scene) (p : Path) (change : Forest → Option Forest) : Option Scene :=
  (s.children.edit change p).map fun children => { s with children := children }

/-- Writing to the node at a path, `[]` for the root. -/
def update (s : Scene) (f : Node → Node) : Path → Option Scene
  | [] => some { s with root := f s.root }
  | i :: p => s.edit (i :: p) (Forest.update f)

/-- `ky_scene_add_damage`. -/
def addDamage (s : Scene) (damage : Region) : Scene :=
  { s with collectedDamage := s.collectedDamage ∪ damage }

/-- `scene_push_damage` for an enabled root; `type` has all flags from the node `n` to the root. -/
def scenePushDamage (s : Scene) (n : Node) (type : DamageType) (damage : Region) : Scene :=
  if type = .HARMLESS ∧ n.lastEnabled then s.addDamage (damage ∩ n.visibleRegion)
  else { s with pushedDamage := s.pushedDamage ∪ damage }

/-- `ky_scene_node_push_damage` of the bounding box, with the walk up the parents by
    `node_push_damage`. -/
def nodePushDamage (s : Scene) (p : Path) (type : DamageType) : Option Scene := do
  let (c, n, children) ← s.find p
  if !n.enabled then some s
  else
    let damage := (boundingBox n children.extents).region
    if damage = ∅ then some s
    else do
      let s ← s.update (·.mark type) p
      if !c.enabled then some s
      else
        let flags := (c.damageType.or (n.mark type).damageType).or s.root.damageType
        some (s.scenePushDamage n flags (translate damage (c.x + n.x) (c.y + n.y)))

/-! ### Operations on nodes -/

/-- A change between two pushes of the box, as in all structural operations. -/
def pushAround (s : Scene) (p q : Path) (change : Scene → Option Scene) : Option Scene := do
  let s ← s.nodePushDamage p .HARMFUL
  let s ← change s
  s.nodePushDamage q .HARMFUL

def nodeSetEnabled (s : Scene) (p : Path) (enabled : Bool) : Option Scene := do
  let (_, n, _) ← s.find p
  if n.enabled = enabled then some s
  else s.pushAround p p (·.update (fun n => { n with enabled := enabled }) p)

def nodeSetPosition (s : Scene) (p : Path) (x y : ℤ) : Option Scene := do
  let (_, n, _) ← s.find p
  if n.x = x ∧ n.y = y then some s
  else s.pushAround p p (·.update (fun n => { n with x := x, y := y }) p)

/-- Taking the node at `p` out and putting it in at `q`, a path in the scene without it. -/
def moveNode (s : Scene) (p q : Path) : Option Scene := do
  let (_, n, children) ← s.find p
  let s ← s.edit p Forest.remove
  s.edit q (Forest.insert n children)

/-- `ky_scene_node_place_above`; the sibling is at position `j` of the same parent. -/
def nodePlaceAbove (s : Scene) (parent : Path) (i j : ℕ) : Option Scene := do
  let _ ← s.find (parent ++ [j])
  if i = j then none
  else if j = i + 1 then some s
  else
    let p := parent ++ [i]
    let q := parent ++ [if i < j then j - 1 else j]
    s.pushAround p q (·.moveNode p q)

/-- `ky_scene_node_place_below`. -/
def nodePlaceBelow (s : Scene) (parent : Path) (i j : ℕ) : Option Scene := do
  let _ ← s.find (parent ++ [j])
  if i = j then none
  else if i = j + 1 then some s
  else
    let p := parent ++ [i]
    let q := parent ++ [(if i < j then j - 1 else j) + 1]
    s.pushAround p q (·.moveNode p q)

/-- `ky_scene_node_reparent` to the tree at `newParent`, a path in the scene without the node; so it
    is not below the node, as the assertion wants it. -/
def nodeReparent (s : Scene) (p newParent : Path) : Option Scene :=
  if p = [] then none
  else if newParent = p.dropLast then some s
  else s.pushAround p (newParent ++ [0]) (·.moveNode p (newParent ++ [0]))

/-- `ky_scene_tree_create` on top of a tree. -/
def treeCreate (s : Scene) (parent : Path) : Option Scene :=
  s.edit (parent ++ [0]) (Forest.insert (Node.init none) .nil)

/-- `ky_scene_rect_create`. -/
def rectCreate (s : Scene) (parent : Path) (width height : ℤ) (color : Color) : Option Scene := do
  let s ← s.edit (parent ++ [0]) (Forest.insert (Node.init (some (.rect width height color))) .nil)
  s.nodePushDamage (parent ++ [0]) .HARMFUL

/-- `ky_scene_buffer_create`. -/
def bufferCreate (s : Scene) (parent : Path) (buffer : Option Buffer) : Option Scene := do
  let s ← s.edit (parent ++ [0]) (Forest.insert (Node.init (some (.buffer buffer 1 ∅))) .nil)
  match buffer with
  | none => some s
  | some _ => s.nodePushDamage (parent ++ [0]) .HARMFUL

end Scene

/-! ### Destruction -/

/-- The box of a leaf that is at `(x, y)`. -/
def boxRegion (content : Content) (x y : ℤ) : Region :=
  rectRegion x y content.size.1 content.size.2

/-- The visible regions that destroying a node adds to the damage, and the boxes that it pushes. The
    children of a tree are destroyed before it, so it has nothing left to push by itself. -/
def destroyed (n : Node) (c : Ctx) (children : Region × Region) : Region × Region :=
  match n.content with
  | none => children
  | some content =>
    (if n.lastEnabled then n.visibleRegion else ∅,
      if c.enabled && n.enabled then boxRegion content (c.x + n.x) (c.y + n.y) else ∅)

/-- `tree_destroy`. -/
def Forest.destroyed : Forest → Ctx → Region × Region
  | .nil, _ => (∅, ∅)
  | .node n children below, c =>
    let here := Damage.destroyed n c (children.destroyed (c.enter n))
    let rest := below.destroyed c
    (here.1 ∪ rest.1, here.2 ∪ rest.2)

namespace Scene

/-- `ky_scene_node_destroy`, not for the root. -/
def nodeDestroy (s : Scene) (p : Path) : Option Scene :=
  if p = [] then none
  else do
    let (c, n, children) ← s.find p
    let gone := Damage.destroyed n c (children.destroyed (c.enter n))
    let s := { s.addDamage gone.1 with pushedDamage := s.pushedDamage ∪ gone.2 }
    s.edit p Forest.remove

/-! ### Operations on leaves -/

/-- The leaf at a path. -/
def findLeaf (s : Scene) (p : Path) : Option (Node × Content) := do
  let (_, n, _) ← s.find p
  let content ← n.content
  if p = [] then none else some (n, content)

def nodeSetClipRegion (s : Scene) (p : Path) (region : Region) : Option Scene := do
  let (n, _) ← s.findLeaf p
  if n.clipRegion = region then some s
  else do
    let s ← s.update (fun n => { n with clipRegion := region }) p
    s.nodePushDamage p .BOTH

def nodeSetRadius (s : Scene) (p : Path) (radius : Radius) : Option Scene := do
  let (n, _) ← s.findLeaf p
  if n.radius = radius then some s
  else do
    let s ← s.update (fun n => { n with radius := radius }) p
    s.nodePushDamage p .BOTH

/-- Writing the content of a leaf. -/
def setContent (s : Scene) (p : Path) (content : Content) : Option Scene :=
  s.update (fun n => { n with content := some content }) p

/-- `ky_scene_rect_set_size`: the larger box is pushed, or both. -/
def rectSetSize (s : Scene) (p : Path) (width height : ℤ) : Option Scene := do
  match ← s.findLeaf p with
  | (_, .rect w h color) =>
    if w = width ∧ h = height then some s
    else do
      let s ← if w > width ∨ h > height then s.nodePushDamage p .BOTH else some s
      let s ← s.setContent p (.rect width height color)
      if w < width ∨ h < height then s.nodePushDamage p .BOTH else some s
  | _ => none

/-- The condition of `ky_scene_rect_set_color` on the colour of the rectangle and the new one. -/
def colorHarmful (rectColor color : Color) : Bool :=
  decide ((rectColor.a ≠ 1 ∧ color.a = 1) ∨ (rectColor.a = 1 ∧ color.a ≠ 1))

/-- `ky_scene_rect_set_color`; the colour of the rectangle is the new one already when it asks
    whether the change is harmful. -/
def rectSetColor (s : Scene) (p : Path) (color : Color) : Option Scene := do
  match ← s.findLeaf p with
  | (_, .rect width height old) =>
    if old = color then some s
    else do
      let s ← s.setContent p (.rect width height color)
      s.nodePushDamage p (if colorHarmful color color then .BOTH else .HARMLESS)
  | _ => none

/-- The condition of `ky_scene_buffer_set_opacity`. -/
def opacityHarmful (bufferOpacity opacity : ℚ) : Bool := decide (bufferOpacity = 1 ∨ opacity = 1)

/-- `ky_scene_buffer_set_opacity`, which asks after the change as well. -/
def bufferSetOpacity (s : Scene) (p : Path) (opacity : ℚ) : Option Scene := do
  match ← s.findLeaf p with
  | (_, .buffer buffer old region) =>
    if old = opacity then some s
    else do
      let s ← s.setContent p (.buffer buffer opacity region)
      s.nodePushDamage p (if opacityHarmful opacity opacity then .BOTH else .HARMLESS)
  | _ => none

def bufferSetOpaqueRegion (s : Scene) (p : Path) (region : Region) : Option Scene := do
  match ← s.findLeaf p with
  | (_, .buffer buffer opacity old) =>
    if old = region then some s
    else do
      let s ← s.setContent p (.buffer buffer opacity region)
      s.nodePushDamage p .HARMFUL
  | _ => none

end Scene

/-! ### Collecting -/

/-- Where a leaf may be seen. -/
def contentRegion (content : Content) (clip : Region) (x y : ℤ) : Region :=
  if clip = ∅ then boxRegion content x y
  else translate (clip ∩ rectRegion 0 0 content.size.1 content.size.2) x y

/-- Where a leaf hides what is below it. -/
def opaqueRegion (content : Content) (clip : Region) (radius : Radius) (x y : ℤ) : Region :=
  let region := content.opaqueRegion
  let region := if clip = ∅ then region else region ∩ clip
  translate (region \ cornerRegion content.size.1 content.size.2 radius) x y

/-- What a walk over the nodes gathers. -/
structure Acc where
  damage : Region
  invisible : Region

/-- `rect_collect_damage` and `buffer_collect_damage`. -/
def leafCollectDamage (affected : Region) (n : Node) (content : Content) (c : Ctx) (acc : Acc) :
    Node × Acc :=
  let enabled := c.enabled && n.enabled
  let type := c.damageType.or n.damageType
  let x := c.x + n.x
  let y := c.y + n.y
  if !enabled && !n.lastEnabled then ({ n with damageType := .none }, acc)
  -- if the state of the node is changed, it must be in the affected region
  else if 0 < content.size.1 ∧ 0 < content.size.2 ∧ affected ∩ boxRegion content x y = ∅ then
    (n, acc)
  else
    let noDamage := n.lastEnabled && enabled && decide (type = .none)
    let lost := if !noDamage && n.lastEnabled && (!enabled || type.harmful) then n.visibleRegion
      else ∅
    let visible := if enabled ∧ content.alpha ≠ 0
      then contentRegion content n.clipRegion x y \ acc.invisible else ∅
    let shown := if noDamage then ∅ else visible
    let hidden := if enabled ∧ content.alpha ≠ 0
      then opaqueRegion content n.clipRegion n.radius x y else ∅
    ({ n with visibleRegion := visible, lastEnabled := enabled, damageType := .none },
      ⟨acc.damage ∪ lost ∪ shown, acc.invisible ∪ hidden⟩)

/-- The end of `tree_collect_damage`. -/
def Node.collected (n : Node) (c : Ctx) : Node :=
  { n with lastEnabled := c.enabled && n.enabled, damageType := .none }

/-- The loop of `tree_collect_damage`. -/
def Forest.collectDamage (affected : Region) : Forest → Ctx → Acc → Forest × Acc
  | .nil, _, acc => (.nil, acc)
  | .node n children below, c, acc =>
    match n.content with
    | some content =>
      let (n, acc) := leafCollectDamage affected n content c acc
      let (below, acc) := below.collectDamage affected c acc
      (.node n children below, acc)
    | none =>
      let (children, acc) := children.collectDamage affected (c.enter n) acc
      let (below, acc) := below.collectDamage affected c acc
      (.node (n.collected c) children below, acc)

namespace Scene

/-- The first part of `ky_scene_collect_damage`, when something was pushed. -/
def collectPushed (s : Scene) : Scene :=
  let (children, acc) := s.children.collectDamage s.pushedDamage s.ctx ⟨s.collectedDamage, ∅⟩
  { s with
    root := s.root.collected ⟨0, 0, true, .none⟩
    children := children
    collectedDamage := acc.damage
    collectedInvisible := (s.collectedInvisible \ s.pushedDamage) ∪ acc.invisible
    pushedDamage := ∅ }

/-- The damage is handed to the outputs, as far as they show it. -/
def distribute (s : Scene) : Scene :=
  { s with
    outputs := s.outputs.map fun o => { o with
      collectedDamage := o.collectedDamage ∪ rectRegion o.x o.y o.width o.height ∩ s.collectedDamage }
    collectedDamage := ∅ }

def collectDamage (s : Scene) : Scene :=
  (if s.pushedDamage = ∅ then s else s.collectPushed).distribute

/-- `ky_scene_create`, with its outputs. -/
def create (outputs : List Output) : Scene where
  root := Node.init none
  children := .nil
  collectedDamage := ∅
  collectedInvisible := ∅
  pushedDamage := ∅
  outputs := outputs

end Scene

/-! ### Events -/

inductive Event where
  | treeCreate (parent : Path)
  | rectCreate (parent : Path) (width height : ℤ) (color : Color)
  | bufferCreate (parent : Path) (buffer : Option Buffer)
  | nodeDestroy (p : Path)
  | nodeSetEnabled (p : Path) (enabled : Bool)
  | nodeSetPosition (p : Path) (x y : ℤ)
  | nodeReparent (p newParent : Path)
  | nodePlaceAbove (parent : Path) (i j : ℕ)
  | nodePlaceBelow (parent : Path) (i j : ℕ)
  | nodeSetClipRegion (p : Path) (region : Region)
  | nodeSetRadius (p : Path) (radius : Radius)
  | rectSetSize (p : Path) (width height : ℤ)
  | rectSetColor (p : Path) (color : Color)
  | bufferSetOpacity (p : Path) (opacity : ℚ)
  | bufferSetOpaqueRegion (p : Path) (region : Region)
  | collectDamage

/-- One event. Requests name nodes that are there. -/
def step (s : Scene) : Event → Option Scene
  | .treeCreate parent => s.treeCreate parent
  | .rectCreate parent width height color => s.rectCreate parent width height color
  | .bufferCreate parent buffer => s.bufferCreate parent buffer
  | .nodeDestroy p => s.nodeDestroy p
  | .nodeSetEnabled p enabled => s.nodeSetEnabled p enabled
  | .nodeSetPosition p x y => s.nodeSetPosition p x y
  | .nodeReparent p newParent => s.nodeReparent p newParent
  | .nodePlaceAbove parent i j => s.nodePlaceAbove parent i j
  | .nodePlaceBelow parent i j => s.nodePlaceBelow parent i j
  | .nodeSetClipRegion p region => s.nodeSetClipRegion p region
  | .nodeSetRadius p radius => s.nodeSetRadius p radius
  | .rectSetSize p width height => s.rectSetSize p width height
  | .rectSetColor p color => s.rectSetColor p color
  | .bufferSetOpacity p opacity => s.bufferSetOpacity p opacity
  | .bufferSetOpaqueRegion p region => s.bufferSetOpaqueRegion p region
  | .collectDamage => some s.collectDamage

end FlakeWm.Damage
