import FlakeWm.SceneTree.Picture

/-! Where the nodes of a scene are in a thumbnail (`src/scene/thumbnail.c`, the renders of `src/scene/scene.c`).

    A thumbnail shows a node, a view or the views of a workspace. The picture is kept as the calls of `render` that
    drew it: the node, and the pixel of the thumbnail's buffer where its origin comes to lie. A node is named by the
    way up to the root: its place among its siblings, counted from the bottom, then those of its ancestors. The tree
    of a picture is the tree that is asked for offsets; when thumbnails are rendered, failing render passes, shadows
    and corners of a decoration, security and effects are left out. -/

namespace FlakeWm.ThumbnailOffsets

open SceneTree (Node Content Forest roundAway)

abbrev Name := List ℕ

/-- A node of the scene with what is below it. -/
inductive Item where
  | leaf (n : Node) (c : Content)
  | tree (n : Node) (children : Forest)

namespace Item

def node : Item → Node
  | leaf n _ => n
  | tree n _ => n

def children : Item → Forest
  | leaf _ _ => .nil
  | tree _ children => children

/-- The `get_bounding_box` of the node. -/
def boundingBox : Item → Box
  | leaf _ c => c.boundingBox
  | tree _ children => children.boundingBox

end Item

/-- The sibling at a place, counted from the bottom. -/
def child : Forest → ℕ → Option Item
  | .nil, _ => none
  | .leaf n c _, 0 => some (.leaf n c)
  | .tree n children _, 0 => some (.tree n children)
  | .leaf _ _ above, i + 1 => child above i
  | .tree _ _ above, i + 1 => child above i

/-- The node of a name. -/
def itemAt (root : Item) : Name → Option Item
  | [] => some root
  | i :: parent => (itemAt root parent).bind fun it => child it.children i

/-- `node->x` and `node->y`. -/
def position (root : Item) (name : Name) : ℤ × ℤ :=
  match itemAt root name with
  | some it => (it.node.x, it.node.y)
  | none => (0, 0)

/-- `ky_scene_node_coords`. -/
def nodeCoords (root : Item) : Name → ℤ × ℤ
  | [] => position root []
  | i :: parent => position root (i :: parent) + nodeCoords root parent

/-! ### Rendering -/

/-- A call of a node's `render`: the place where it draws its origin. -/
structure Drawn where
  name : Name
  x : ℤ
  y : ℤ
  deriving DecidableEq

/-- The loop of `tree_render`, with the calls below the children; `i` is the place of the first child. -/
def render (parent : Name) : ℕ → Forest → ℤ → ℤ → List Drawn
  | _, .nil, _, _ => []
  | i, .leaf n _ above, x, y => ⟨i :: parent, x + n.x, y + n.y⟩ :: render parent (i + 1) above x y
  | i, .tree n children above, x, y =>
      ⟨i :: parent, x + n.x, y + n.y⟩ ::
        ((if n.enabled then render (i :: parent) 0 children (x + n.x) (y + n.y) else []) ++
          render parent (i + 1) above x y)

/-- A thumbnail's buffer with what is drawn in it. -/
structure Picture where
  width : ℤ
  height : ℤ
  drawn : List Drawn

/-- The pixel of a place: `ky_scene_render_box` for a target that begins at the origin and is not transformed. -/
def Drawn.pixel (d : Drawn) (scale : ℚ) : Drawn :=
  { d with x := roundAway (d.x * scale), y := roundAway (d.y * scale) }

section Rendering

variable (allocates : ℤ → ℤ → Bool) (root : Item)

/-- What `node_thumbnail_render` and `view_thumbnail_render` have in common: the source, which is enabled meanwhile,
drawn so that the box fills a buffer. `allocates` says for which sizes a buffer can be made. -/
def renderSource (source : Name) (boundingBox : Box) (scale : ℚ) : Option Picture :=
  let width := roundAway (boundingBox.width * scale)
  let height := roundAway (boundingBox.height * scale)
  if allocates width height then
    match itemAt root source with
    | none => none
    | some it =>
        let calls := ⟨source, -boundingBox.x, -boundingBox.y⟩ ::
          render source 0 it.children (-boundingBox.x) (-boundingBox.y)
        some ⟨width, height, calls.map (·.pixel scale)⟩
  else none

end Rendering

/-! ### Thumbnails -/

inductive ThumbnailType where
  | node
  | view
  | workspace
  | output
  | none
  deriving DecidableEq

/-- `struct thumbnail_buffer` with the fields of the four kinds. -/
structure Thumbnail where
  type : ThumbnailType
  buffer : Option Picture
  sourceNode : Name := []
  offsetX : ℤ := 0
  offsetY : ℤ := 0
  outputGeometry : Box := ⟨0, 0, 0, 0⟩

/-- The loop of `thumbnail_get_node_offset`: up from a node until its parent is the source. -/
def walkUp (root : Item) (source : Name) : Name → ℤ × ℤ → Option (ℤ × ℤ)
  | [], _ => none
  | i :: parent, acc =>
      let acc := acc + position root (i :: parent)
      if parent = source then some acc else walkUp root source parent acc

/-- `thumbnail_get_node_offset`. -/
def thumbnailGetNodeOffset (root : Item) (t : Thumbnail) (name : Name) : Option (ℤ × ℤ) :=
  match t.buffer, t.type with
  | none, _ => none
  | some _, .none => none
  | some _, .node | some _, .view =>
      if name = t.sourceNode then some (t.offsetX, t.offsetY)
      else walkUp root t.sourceNode name (t.offsetX, t.offsetY)
  | some _, .workspace | some _, .output =>
      let x := t.offsetX + ((nodeCoords root name).1 - t.outputGeometry.x)
      let y := t.offsetY + ((nodeCoords root name).2 - t.outputGeometry.y)
      if x < 0 ∨ y < 0 ∨ x > t.outputGeometry.width ∨ y > t.outputGeometry.height then none else some (x, y)

/-! ### Views -/

/-- `enum thumbnail_option`. -/
structure Options where
  disableDecor : Bool := false
  disableShadow : Bool := false
  disableRoundCorner : Bool := false
  enableSinglePlane : Bool := false
  enableSecurity : Bool := false

/-- The shadow of `struct theme`. -/
structure Theme where
  shadowBorder : ℤ
  shadowOffsetX : ℤ
  shadowOffsetY : ℤ

structure Margin where
  offX : ℤ := 0
  offY : ℤ := 0
  offWidth : ℤ := 0
  offHeight : ℤ := 0

structure Padding where
  left : ℤ := 0
  right : ℤ := 0
  top : ℤ := 0
  bottom : ℤ := 0

/-- What the thumbnails read of a view: `ssd` has the flags of the server side decoration, and `KYWC_SSD_NONE` is 0;
`surface` is the place of `surface_tree` in the view's tree. -/
structure View where
  tree : Name
  surface : ℕ
  geometry : Box
  margin : Margin := {}
  padding : Padding := {}
  ssd : ℕ := 0
  mapped : Bool := true
  minimized : Bool := false
  output : ℕ := 0

def View.surfaceTree (v : View) : Name := v.surface :: v.tree

/-- A view in the scene: `view_helper_move` keeps its tree at its geometry, and `surface_tree`, made in the view's
tree, is never moved. -/
structure PlacedView (root : Item) extends View where
  surfaceItem : Item
  tree_coords : nodeCoords root tree = (geometry.x, geometry.y)
  surface_at : itemAt root (surface :: tree) = some surfaceItem
  surface_position : position root (surface :: tree) = (0, 0)

section Views

variable (allocates : ℤ → ℤ → Bool) (root : Item) (theme : Theme)

/-- `view_thumbnail_get_box`. -/
def viewThumbnailGetBox (v : View) (options : Options) : Box :=
  if v.ssd = 0 then
    ⟨-v.padding.left, -v.padding.top, v.geometry.width + (v.padding.right + v.padding.left),
      v.geometry.height + (v.padding.bottom + v.padding.top)⟩
  else if options.disableDecor then ⟨0, 0, v.geometry.width, v.geometry.height⟩
  else if options.disableShadow then
    ⟨-v.margin.offX, -v.margin.offY, v.geometry.width + v.margin.offWidth, v.geometry.height + v.margin.offHeight⟩
  else
    ⟨-(v.margin.offX + theme.shadowBorder - theme.shadowOffsetX),
      -(v.margin.offY + theme.shadowBorder - theme.shadowOffsetY),
      v.geometry.width + (v.margin.offWidth + theme.shadowBorder * 2),
      v.geometry.height + (v.margin.offHeight + theme.shadowBorder * 2)⟩

/-- The `source_node` that `view_thumbnail_get_or_create` chooses. -/
def viewSource (v : View) (options : Options) : Name := if options.disableDecor then v.surfaceTree else v.tree

/-- `node_thumbnail_render`; a bounding box that is empty gives no buffer. -/
def nodeThumbnail (source : Name) (scale : ℚ) : Thumbnail :=
  let box := ((itemAt root source).map Item.boundingBox).getD ⟨0, 0, 0, 0⟩
  { type := .node
    buffer := if box.width ≤ 0 ∨ box.height ≤ 0 then none else renderSource allocates root source box scale
    sourceNode := source
    offsetX := -box.x
    offsetY := -box.y }

/-- `view_thumbnail_render`. -/
def viewThumbnail (v : View) (options : Options) (scale : ℚ) : Thumbnail :=
  let box := viewThumbnailGetBox theme v options
  { type := .view
    buffer := renderSource allocates root (viewSource v options) box scale
    sourceNode := viewSource v options
    offsetX := -box.x
    offsetY := -box.y }

/-! ### Workspaces -/

/-- `view_thumbnail_get_position`. -/
def viewThumbnailGetPosition (v : View) : ℤ × ℤ :=
  if v.ssd ≠ 0 then
    (v.geometry.x - v.margin.offX - theme.shadowBorder + theme.shadowOffsetX,
      v.geometry.y - v.margin.offY - theme.shadowBorder + theme.shadowOffsetY)
  else (v.geometry.x - v.padding.left, v.geometry.y - v.padding.right)

/-- The options of the thumbnails that a workspace thumbnail shows. -/
def workspaceOptions (singlePlane : Bool) : Options :=
  { disableRoundCorner := true, disableShadow := true, enableSecurity := true, enableSinglePlane := singlePlane }

/-- The output of a workspace thumbnail, with its effective geometry. -/
structure Output where
  output : ℕ
  geometry : Box

/-- A view that the loop of `workspace_thumbnail_render` does not pass over. -/
def shown (output : Output) (v : View) : Bool := v.mapped && !v.minimized && decide (v.output = output.output)

/-- One round of the loop: the texture of the view's thumbnail put at the view's position. -/
def drawView (singlePlane : Bool) (output : Output) (v : View) : List Drawn :=
  match (viewThumbnail allocates root theme v (workspaceOptions singlePlane) 1).buffer with
  | none => []
  | some picture =>
      let position := viewThumbnailGetPosition theme v
      picture.drawn.map fun d =>
        { d with
          x := position.1 - output.geometry.x + d.x
          y := position.2 - output.geometry.y + d.y }

/-- `workspace_thumbnail_render` at scale 1, where no texture is stretched; the views are in the order in which they
are drawn. -/
def workspaceThumbnail (views : List View) (output : Output) (singlePlane : Bool) : Thumbnail :=
  { type := .workspace
    buffer :=
      if allocates output.geometry.width output.geometry.height then
        some ⟨output.geometry.width, output.geometry.height,
          (views.filter (shown output)).flatMap (drawView allocates root theme singlePlane output)⟩
      else none
    outputGeometry := output.geometry }

end Views

end FlakeWm.ThumbnailOffsets
