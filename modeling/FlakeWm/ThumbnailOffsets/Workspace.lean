import FlakeWm.ThumbnailOffsets.Agreement

/-! Where a workspace's thumbnail draws its views (`src/scene/thumbnail.c`).

    The thumbnail of a view begins at the box that is chosen for its options, and is put at a position that is
    chosen without them. The two do not cancel: what is left is `drawShift`. -/

namespace FlakeWm.ThumbnailOffsets

open SceneTree (Node Content Forest roundAway)

variable {allocates : ℤ → ℤ → Bool} {root : Item} {theme : Theme} {singlePlane : Bool} {output : Output}

/-- How far from its geometry a workspace's thumbnail draws a view. -/
def drawShift (theme : Theme) (v : View) : ℤ × ℤ :=
  if v.ssd = 0 then (0, v.padding.top - v.padding.right)
  else (theme.shadowOffsetX - theme.shadowBorder, theme.shadowOffsetY - theme.shadowBorder)

/-- The position is the corner of the box, moved to the geometry and then too far. -/
theorem viewThumbnailGetPosition_eq (theme : Theme) (v : View) (singlePlane : Bool) :
    viewThumbnailGetPosition theme v =
      (v.geometry.x + (drawShift theme v).1 + (viewThumbnailGetBox theme v (workspaceOptions singlePlane)).x,
        v.geometry.y + (drawShift theme v).2 + (viewThumbnailGetBox theme v (workspaceOptions singlePlane)).y) := by
  by_cases hssd : v.ssd = 0
  · simp only [viewThumbnailGetPosition, drawShift, viewThumbnailGetBox, hssd, ne_eq, not_true_eq_false, if_true, if_false,
      Prod.mk.injEq]
    omega
  · simp only [viewThumbnailGetPosition, drawShift, viewThumbnailGetBox, hssd, ne_eq, not_false_eq_true, if_true,
      if_false, workspaceOptions, Bool.false_eq_true, Prod.mk.injEq]
    omega

/-- A buffer can be made for the thumbnail of a view that the workspace shows. -/
def hasBuffer (allocates : ℤ → ℤ → Bool) (theme : Theme) (singlePlane : Bool) (v : View) : Bool :=
  let box := viewThumbnailGetBox theme v (workspaceOptions singlePlane)
  allocates box.width box.height

/-- Every node of a view is drawn its shift away from its place in the scene. -/
theorem drawView_place (v : PlacedView root) {d : Drawn}
    (hd : d ∈ drawView allocates root theme singlePlane output v.toView) :
    d.x = (nodeCoords root d.name).1 - output.geometry.x + (drawShift theme v.toView).1 ∧
      d.y = (nodeCoords root d.name).2 - output.geometry.y + (drawShift theme v.toView).2 := by
  rw [drawView] at hd
  split at hd
  · cases hd
  next picture hpicture =>
    obtain ⟨d', hd', rfl⟩ := List.mem_map.1 hd
    have hbelow := renderSource_below hpicture hd'
    have hcoords := hbelow.nodeCoords
    rw [viewSource, workspaceOptions, if_neg Bool.false_ne_true, v.tree_coords, Prod.ext_iff] at hcoords
    simp only [Prod.mk_add_mk] at hcoords
    rw [viewThumbnailGetPosition_eq theme v.toView singlePlane]
    dsimp only [workspaceOptions] at hcoords ⊢
    omega

/-- A child is drawn when the loop over its siblings runs. -/
theorem mem_render_child {x y : ℤ} : ∀ (f : Forest) (parent : Name) (i k : ℕ) {it : Item}, child f k = some it →
    (⟨(i + k) :: parent, x + it.node.x, y + it.node.y⟩ : Drawn) ∈ render parent i f x y
  | .nil, _, _, _, _, h => by cases h
  | .leaf _ _ _, _, _, 0, _, h => by
      obtain rfl := Option.some.inj h
      exact List.mem_cons_self
  | .tree _ _ _, _, _, 0, _, h => by
      obtain rfl := Option.some.inj h
      exact List.mem_cons_self
  | .leaf _ _ above, parent, i, k + 1, it, h => by
      have hrest := mem_render_child (x := x) (y := y) above parent (i + 1) k h
      rw [Nat.add_assoc, Nat.add_comm 1 k] at hrest
      exact List.mem_cons_of_mem _ hrest
  | .tree _ _ above, parent, i, k + 1, it, h => by
      have hrest := mem_render_child (x := x) (y := y) above parent (i + 1) k h
      rw [Nat.add_assoc, Nat.add_comm 1 k] at hrest
      exact List.mem_cons_of_mem _ (List.mem_append_right _ hrest)

/-- The surface of a view that has a buffer is drawn. -/
theorem drawView_surface (output : Output) (v : PlacedView root)
    (hbuffer : hasBuffer allocates theme singlePlane v.toView = true) :
    ∃ d ∈ drawView allocates root theme singlePlane output v.toView, d.name = v.surfaceTree := by
  obtain ⟨it, hit, hchild⟩ := Option.bind_eq_some_iff.1 v.surface_at
  let box := viewThumbnailGetBox theme v.toView (workspaceOptions singlePlane)
  have hpicture : (viewThumbnail allocates root theme v.toView (workspaceOptions singlePlane) 1).buffer = _ :=
    renderSource_eq hit hbuffer
  have hsurface := mem_render_child (x := -box.x) (y := -box.y) it.children v.tree 0 v.surface hchild
  rw [drawView, hpicture]
  exact ⟨_, List.mem_map_of_mem (List.mem_cons_of_mem _ hsurface), by rw [Nat.zero_add]; rfl⟩

theorem drawView_hasBuffer (v : PlacedView root) {d : Drawn}
    (hd : d ∈ drawView allocates root theme singlePlane output v.toView) :
    hasBuffer allocates theme singlePlane v.toView = true := by
  rw [drawView] at hd
  split at hd
  · cases hd
  next picture hpicture =>
    rw [viewThumbnail] at hpicture
    dsimp only [renderSource] at hpicture
    split at hpicture
    next hallocates => simpa [hasBuffer, roundAway_intCast] using hallocates
    · cases hpicture

/-- The surface has the place of the view's tree. -/
theorem surface_coords (v : PlacedView root) : nodeCoords root v.surfaceTree = (v.geometry.x, v.geometry.y) := by
  rw [View.surfaceTree, nodeCoords, v.surface_position, v.tree_coords]
  simp

/-! ### Every kind -/

/-- What a thumbnail of scale 1 is made from. -/
inductive Source (root : Item) where
  | node (name : Name)
  | view (v : PlacedView root) (options : Options)
  | workspace (views : List (PlacedView root)) (output : Output) (singlePlane : Bool)

namespace Source

/-- The thumbnail after it was rendered. -/
def thumbnail (allocates : ℤ → ℤ → Bool) (theme : Theme) : Source root → Thumbnail
  | node name => nodeThumbnail allocates root name 1
  | view v options => viewThumbnail allocates root theme v.toView options 1
  | workspace views output singlePlane =>
      workspaceThumbnail allocates root theme (views.map PlacedView.toView) output singlePlane

/-- In a workspace's thumbnail each view's surface is drawn at its geometry relative to the output. -/
def SurfacesPlaced (allocates : ℤ → ℤ → Bool) (theme : Theme) : Source root → Prop
  | node _ => True
  | view _ _ => True
  | workspace views output singlePlane =>
      ∀ picture, ((workspace views output singlePlane).thumbnail allocates theme).buffer = some picture →
        ∀ v ∈ views, shown output v.toView = true → ∀ d ∈ picture.drawn, d.name = v.surfaceTree →
          d.x = v.geometry.x - output.geometry.x ∧ d.y = v.geometry.y - output.geometry.y

/-- No view that is drawn in a workspace's thumbnail has a shift. -/
def Unshifted (allocates : ℤ → ℤ → Bool) (theme : Theme) : Source root → Prop
  | node _ => True
  | view _ _ => True
  | workspace views output singlePlane =>
      allocates output.geometry.width output.geometry.height = true →
        ∀ v ∈ views, shown output v.toView = true → hasBuffer allocates theme singlePlane v.toView = true →
          if v.ssd = 0 then v.padding.right = v.padding.top
          else theme.shadowBorder = theme.shadowOffsetX ∧ theme.shadowBorder = theme.shadowOffsetY

end Source

/-- The condition of a view is that its shift is zero. -/
theorem drawShift_eq_zero_iff (theme : Theme) (v : View) :
    drawShift theme v = 0 ↔
      if v.ssd = 0 then v.padding.right = v.padding.top
      else theme.shadowBorder = theme.shadowOffsetX ∧ theme.shadowBorder = theme.shadowOffsetY := by
  rw [drawShift]
  split
  · rw [Prod.ext_iff]
    simp only [Prod.fst_zero, Prod.snd_zero, true_and]
    omega
  · rw [Prod.ext_iff]
    simp only [Prod.fst_zero, Prod.snd_zero]
    omega

section Workspace

variable {views : List (PlacedView root)} {d : Drawn} {v : PlacedView root} {picture : Picture}

/-- The picture of a workspace's thumbnail is that of its views. -/
theorem workspace_drawn
    (hpicture : (workspaceThumbnail allocates root theme (views.map PlacedView.toView) output singlePlane).buffer =
      some picture) :
    allocates output.geometry.width output.geometry.height = true ∧
      ∀ d, d ∈ picture.drawn ↔ ∃ v ∈ views, shown output v.toView = true ∧
        d ∈ drawView allocates root theme singlePlane output v.toView := by
  rw [workspaceThumbnail] at hpicture
  dsimp only at hpicture
  split at hpicture
  next hallocates =>
    obtain rfl := Option.some.inj hpicture
    refine ⟨hallocates, fun d => ?_⟩
    simp only [List.mem_flatMap, List.mem_filter, List.mem_map]
    constructor
    · rintro ⟨_, ⟨⟨v, hv, rfl⟩, hshown⟩, hd⟩
      exact ⟨v, hv, hshown, hd⟩
    · rintro ⟨v, hv, hshown, hd⟩
      exact ⟨_, ⟨⟨v, hv, rfl⟩, hshown⟩, hd⟩
  · cases hpicture

/-- Without shifts every node is drawn at its place relative to the output. -/
theorem workspace_place (hunshifted : (Source.workspace views output singlePlane).Unshifted allocates theme)
    (hpicture : (workspaceThumbnail allocates root theme (views.map PlacedView.toView) output singlePlane).buffer =
      some picture) (hd : d ∈ picture.drawn) :
    d.x = (nodeCoords root d.name).1 - output.geometry.x ∧ d.y = (nodeCoords root d.name).2 - output.geometry.y := by
  obtain ⟨hallocates, hdrawn⟩ := workspace_drawn hpicture
  obtain ⟨v, hv, hshown, hd⟩ := (hdrawn d).1 hd
  have hplace := drawView_place v hd
  have hzero := (drawShift_eq_zero_iff theme v.toView).2 (hunshifted hallocates v hv hshown (drawView_hasBuffer v hd))
  rw [hzero] at hplace
  simpa using hplace

/-- What is reported for a workspace's thumbnail. -/
theorem workspace_report {name : Name} {x y : ℤ}
    (hreport : thumbnailGetNodeOffset root
      (workspaceThumbnail allocates root theme (views.map PlacedView.toView) output singlePlane) name = some (x, y)) :
    x = (nodeCoords root name).1 - output.geometry.x ∧ y = (nodeCoords root name).2 - output.geometry.y := by
  rw [thumbnailGetNodeOffset] at hreport
  split at hreport
  · cases hreport
  next htype => cases htype
  next htype => cases htype
  next htype => cases htype
  next =>
    obtain ⟨-, heq⟩ := Option.ite_none_left_eq_some.1 hreport
    simp only [workspaceThumbnail, Option.some.injEq, Prod.mk.injEq] at heq
    omega
  next htype => cases htype

end Workspace

/-- A scene of one view at (100, 50), with its surface. -/
def window : Item :=
  .tree {} (.tree { x := 100, y := 50 } (.tree {} .nil .nil) .nil)

/-- A view that draws its own shadow, wider at its sides than above. -/
def shadowed : PlacedView window where
  tree := [0]
  surface := 0
  geometry := ⟨100, 50, 300, 200⟩
  padding := ⟨20, 20, 10, 30⟩
  surfaceItem := .tree {} .nil
  tree_coords := by decide
  surface_at := rfl
  surface_position := by decide

/-- It is put too high: by its right padding where its top padding was drawn. -/
theorem not_every_thumbnail_agrees :
    ¬ ∀ (allocates : ℤ → ℤ → Bool) (theme : Theme) (root : Item) (source : Source root),
      Agrees root (source.thumbnail allocates theme) ∧ source.SurfacesPlaced allocates theme := by
  intro h
  obtain ⟨-, hplaced⟩ := h (fun _ _ => true) ⟨40, 0, 20⟩ window (.workspace [shadowed] ⟨0, ⟨0, 0, 1920, 1080⟩⟩ false)
  have hat := hplaced _ rfl shadowed (by simp) rfl ⟨[0, 0], 100, 40⟩ (by decide +kernel) rfl
  exact absurd hat.2 (by decide)

/-- The offsets of a node's and a view's thumbnail always agree with what is drawn; those of a workspace's thumbnail
do, and its surfaces are at their geometries, exactly when no view that it draws has a shift. -/
theorem offsets_agree_iff (allocates : ℤ → ℤ → Bool) (theme : Theme) (source : Source root) :
    (Agrees root (source.thumbnail allocates theme) ∧ source.SurfacesPlaced allocates theme) ↔
      source.Unshifted allocates theme := by
  cases source with
  | node name =>
      have hbuffer : ∀ picture, ((Source.node name).thumbnail allocates theme).buffer = some picture →
          renderSource allocates root name (((itemAt root name).map Item.boundingBox).getD ⟨0, 0, 0, 0⟩) 1 =
            some picture :=
        fun picture hpicture => (Option.ite_none_left_eq_some.1 hpicture).2
      exact iff_of_true ⟨agrees_renderSource (Or.inl rfl) hbuffer ⟨rfl, rfl⟩, trivial⟩ trivial
  | view v options =>
      exact iff_of_true ⟨agrees_renderSource (Or.inr rfl) (fun _ hpicture => hpicture) ⟨rfl, rfl⟩, trivial⟩ trivial
  | workspace views output singlePlane =>
      constructor
      · rintro ⟨-, hplaced⟩ hallocates v hv hshown hbuffer
        obtain ⟨d, hd, hname⟩ := drawView_surface output v hbuffer
        have hpicture : ((Source.workspace views output singlePlane).thumbnail allocates theme).buffer = some _ :=
          if_pos hallocates
        have hat := hplaced _ hpicture v hv hshown d (((workspace_drawn hpicture).2 d).2 ⟨v, hv, hshown, hd⟩) hname
        have hplace := drawView_place v hd
        rw [hname, surface_coords] at hplace
        refine (drawShift_eq_zero_iff theme v.toView).1 (Prod.ext ?_ ?_)
        · simp only [Prod.fst_zero]
          omega
        · simp only [Prod.snd_zero]
          omega
      · intro hunshifted
        refine ⟨fun picture hpicture d hd x y hreport => ?_, fun picture hpicture v hv hshown d hd hname => ?_⟩
        · have hplace := workspace_place hunshifted hpicture hd
          have hreported := workspace_report hreport
          omega
        · have hplace := workspace_place hunshifted hpicture hd
          rwa [hname, surface_coords] at hplace

end FlakeWm.ThumbnailOffsets
