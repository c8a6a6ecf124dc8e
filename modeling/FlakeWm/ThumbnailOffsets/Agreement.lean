import FlakeWm.ThumbnailOffsets.Model

/-! The offsets that are reported and the places that are drawn (`src/scene/thumbnail.c`).

    The render walks down from the source and the report walks up to it; both add the positions between. What is
    left is where each kind of thumbnail begins: a node's and a view's thumbnail report the place they drew from,
    a workspace's thumbnail reports the place in the scene and draws at the place that is chosen for the view. -/

namespace FlakeWm.ThumbnailOffsets

open SceneTree (Node Content Forest roundAway)

variable {root : Item} {source name : Name} {p : ℤ × ℤ}

/-! ### Down and up -/

/-- A node is the source or below it, at `p` from it. -/
inductive Below (root : Item) (source : Name) : Name → ℤ × ℤ → Prop
  | self : Below root source source 0
  | child {name : Name} {p : ℤ × ℤ} {i : ℕ} :
      Below root source name p → Below root source (i :: name) (position root (i :: name) + p)

theorem position_eq {it : Item} (h : itemAt root name = some it) : position root name = (it.node.x, it.node.y) := by
  rw [position, h]

/-- Every call of `render` below the source draws a node that is below it, as far from the place where the source is
drawn. `f` are the siblings from place `i` on. -/
theorem render_below {d : Drawn} {x y : ℤ} : ∀ (f : Forest) (parent : Name) (i : ℕ) {p : ℤ × ℤ},
    (∀ k it, child f k = some it → itemAt root ((i + k) :: parent) = some it) → Below root source parent p →
      d ∈ render parent i f (x + p.1) (y + p.2) → Below root source d.name (d.x - x, d.y - y)
  | .nil, _, _, _, _, _, hd => by cases hd
  | .leaf n c above, parent, i, p, hchild, hparent, hd => by
      have habove : ∀ k it, child above k = some it → itemAt root ((i + 1 + k) :: parent) = some it := fun k it h => by
        rw [Nat.add_assoc, Nat.add_comm 1 k]
        exact hchild (k + 1) it h
      rcases List.mem_cons.1 hd with rfl | hd
      · have hpos : position root (i :: parent) = (n.x, n.y) := position_eq (hchild 0 _ rfl)
        have hbelow := Below.child (i := i) hparent
        rw [hpos] at hbelow
        convert hbelow using 1
        ext <;> simp <;> ring
      · exact render_below above parent (i + 1) habove hparent hd
  | .tree n children above, parent, i, p, hchild, hparent, hd => by
      have habove : ∀ k it, child above k = some it → itemAt root ((i + 1 + k) :: parent) = some it := fun k it h => by
        rw [Nat.add_assoc, Nat.add_comm 1 k]
        exact hchild (k + 1) it h
      have hitem : itemAt root (i :: parent) = some (.tree n children) := hchild 0 _ rfl
      have hbelow := Below.child (i := i) hparent
      rw [position_eq hitem] at hbelow
      rw [render] at hd
      rcases List.mem_cons.1 hd with rfl | hd
      · convert hbelow using 1
        ext <;> simp [Item.node] <;> ring
      · rcases List.mem_append.1 hd with hd | hd
        · split at hd
          · refine render_below children (i :: parent) 0 (fun k it h => ?_) hbelow ?_
            · rw [Nat.zero_add, itemAt, hitem]
              exact h
            · convert hd using 2 <;> simp [Item.node] <;> ring
          · cases hd
        · exact render_below above parent (i + 1) habove hparent hd

theorem Below.length_le (h : Below root source name p) : source.length ≤ name.length := by
  induction h with
  | self => exact Nat.le_refl _
  | child _ ih => exact Nat.le_succ_of_le ih

theorem Below.eq_zero (h : Below root source name p) (hname : name = source) : p = 0 := by
  cases h with
  | self => rfl
  | child hbelow =>
      have hle := hbelow.length_le
      have hlength := congrArg List.length hname
      rw [List.length_cons] at hlength
      omega

/-- The walk up from a node below the source adds what the render added on its way down. -/
theorem Below.walkUp (h : Below root source name p) (acc : ℤ × ℤ) (hne : name ≠ source) :
    walkUp root source name acc = some (acc + p) := by
  induction h generalizing acc with
  | self => exact absurd rfl hne
  | @child name p i hbelow ih =>
      rw [ThumbnailOffsets.walkUp]
      by_cases hsource : name = source
      · subst hsource
        rw [if_pos rfl, hbelow.eq_zero rfl]
        simp
      · rw [if_neg hsource, ih _ hsource, add_assoc]

/-- The place in the scene adds the same positions. -/
theorem Below.nodeCoords (h : Below root source name p) : nodeCoords root name = nodeCoords root source + p := by
  induction h with
  | self => rw [add_zero]
  | child _ ih => rw [ThumbnailOffsets.nodeCoords, ih, add_left_comm]

/-! ### A node's and a view's thumbnail -/

/-- Wherever an offset is reported for a node that is drawn, it is the pixel of the node's origin. -/
def Agrees (root : Item) (t : Thumbnail) : Prop :=
  ∀ picture, t.buffer = some picture → ∀ d ∈ picture.drawn, ∀ x y,
    thumbnailGetNodeOffset root t d.name = some (x, y) → d.x = x ∧ d.y = y

section Source

variable {allocates : ℤ → ℤ → Bool} {box : Box} {picture : Picture} {t : Thumbnail}

theorem roundAway_intCast (z : ℤ) : roundAway z = z := by
  have hhalf : ⌊(1 / 2 : ℚ)⌋ = 0 := by norm_num
  rw [roundAway]
  split
  · rw [← Int.cast_neg, Int.floor_intCast_add, hhalf, add_zero, neg_neg]
  · rw [Int.floor_intCast_add, hhalf, add_zero]

/-- At scale 1 a pixel is a place. -/
theorem pixel_one (d : Drawn) : d.pixel 1 = d := by
  simp [Drawn.pixel, roundAway_intCast]

theorem renderSource_eq {it : Item} (hit : itemAt root source = some it)
    (hallocates : allocates box.width box.height = true) :
    renderSource allocates root source box 1 =
      some ⟨box.width, box.height,
        ⟨source, -box.x, -box.y⟩ :: render source 0 it.children (-box.x) (-box.y)⟩ := by
  simp [renderSource, hit, hallocates, roundAway_intCast, pixel_one]

theorem renderSource_below (h : renderSource allocates root source box 1 = some picture) {d : Drawn}
    (hd : d ∈ picture.drawn) : Below root source d.name (d.x + box.x, d.y + box.y) := by
  rw [renderSource] at h
  dsimp only at h
  split at h
  · split at h
    · cases h
    next it hit =>
      obtain rfl := Option.some.inj h
      simp only [pixel_one, List.map_id'] at hd
      rcases List.mem_cons.1 hd with rfl | hd
      · convert Below.self using 1
        ext <;> simp
      · have hchild : ∀ k it', child it.children k = some it' → itemAt root ((0 + k) :: source) = some it' :=
          fun k it' hk => by
            rw [Nat.zero_add, itemAt, hit]
            exact hk
        have hplace : d ∈ render source 0 it.children (-box.x + (0 : ℤ × ℤ).1) (-box.y + (0 : ℤ × ℤ).2) := by
          simpa using hd
        have hbelow := render_below it.children source 0 hchild Below.self hplace
        simpa using hbelow
  · cases h

/-- A thumbnail that reports the place it draws its source at agrees. -/
theorem agrees_renderSource (htype : t.type = .node ∨ t.type = .view)
    (hbuffer : ∀ picture, t.buffer = some picture → renderSource allocates root t.sourceNode box 1 = some picture)
    (hoffset : t.offsetX = -box.x ∧ t.offsetY = -box.y) : Agrees root t := by
  intro picture hpicture d hd x y hxy
  have hbelow := renderSource_below (hbuffer picture hpicture) hd
  have hreport : thumbnailGetNodeOffset root t d.name =
      if d.name = t.sourceNode then some (t.offsetX, t.offsetY)
      else walkUp root t.sourceNode d.name (t.offsetX, t.offsetY) := by
    rw [thumbnailGetNodeOffset, hpicture]
    rcases htype with h | h <;> rw [h]
  rw [hreport, hoffset.1, hoffset.2] at hxy
  split at hxy
  next hname =>
    have hzero := hbelow.eq_zero hname
    simp only [Prod.ext_iff, Prod.fst_zero, Prod.snd_zero] at hzero
    simp only [Option.some.injEq, Prod.mk.injEq] at hxy
    omega
  next hname =>
    rw [hbelow.walkUp _ hname] at hxy
    simp only [Prod.mk_add_mk, Option.some.injEq, Prod.mk.injEq] at hxy
    omega

end Source

end FlakeWm.ThumbnailOffsets
