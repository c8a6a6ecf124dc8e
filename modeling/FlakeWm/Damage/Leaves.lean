import FlakeWm.Damage.Model

/-! The leaves of a scene, in the order in which they are drawn.

    `Forest.leaves` lists the leaves from top to bottom, each with what its ancestors make of it. An
    operation on a node changes, moves or removes one stretch of this list: `Spot` names the node,
    its stretch and the leaves above and below it, and there is one lemma for each elementary
    change. The proofs about damage then deal with lists of leaves and not with paths. -/

namespace FlakeWm.Damage

theorem mem_span {start length k : ℤ} :
    k ∈ span start length ↔ start ≤ k ∧ k < start + length := by
  simp only [span, Finset.mem_image, Finset.mem_range]
  constructor
  · rintro ⟨j, hj, rfl⟩
    omega
  · rintro ⟨hstart, hend⟩
    exact ⟨(k - start).toNat, by omega, by omega⟩

theorem mem_rectRegion {x y width height : ℤ} {q : Point} : q ∈ rectRegion x y width height ↔
    (x ≤ q.1 ∧ q.1 < x + width) ∧ y ≤ q.2 ∧ q.2 < y + height := by
  rw [rectRegion, Finset.mem_product, mem_span, mem_span]

@[simp] theorem mem_translate {r : Region} {dx dy : ℤ} {q : Point} :
    q ∈ translate r dx dy ↔ (q.1 - dx, q.2 - dy) ∈ r := by
  rw [translate, Finset.mem_image]
  constructor
  · rintro ⟨p, hp, rfl⟩
    simpa using hp
  · intro h
    exact ⟨_, h, by simp⟩

theorem Extents.mem_region {e : Extents} {q : Point} : q ∈ e.region ↔
    (e.x1 ≤ q.1 ∧ q.1 < e.x2) ∧ e.y1 ≤ q.2 ∧ q.2 < e.y2 := by
  rw [Extents.region, mem_rectRegion, add_sub_cancel, add_sub_cancel]

theorem Extents.mem_add_left {e : Extents} {o : Option Extents} {q : Point} (h : q ∈ e.region) :
    q ∈ (e.add o).region := by
  cases o with
  | none => exact h
  | some e' =>
    rw [Extents.mem_region] at h ⊢
    simp only [Extents.add]
    omega

theorem Extents.mem_add_right {e e' : Extents} {q : Point} (h : q ∈ e'.region) :
    q ∈ (e.add (some e')).region := by
  rw [Extents.mem_region] at h ⊢
  simp only [Extents.add]
  omega

namespace DamageType

theorem or_assoc (s t u : DamageType) : (s.or t).or u = s.or (t.or u) := by
  simp [or, Bool.or_assoc]

theorem or_right_comm (s t u : DamageType) : (s.or t).or u = (s.or u).or t := by
  simp [or, Bool.or_right_comm]

end DamageType

/-- A leaf with its place on the screen, and the flags of its ancestors and its own. -/
structure Leaf where
  content : Content
  clipRegion : Region
  radius : Radius
  x : ℤ
  y : ℤ
  enabled : Bool
  damageType : DamageType
  lastEnabled : Bool
  visibleRegion : Region

namespace Leaf

def box (l : Leaf) : Region := boxRegion l.content l.x l.y
def region (l : Leaf) : Region := contentRegion l.content l.clipRegion l.x l.y
def solid (l : Leaf) : Region := opaqueRegion l.content l.clipRegion l.radius l.x l.y

/-- Enabled with all its ancestors, and not fully transparent. -/
def Drawn (l : Leaf) : Prop := l.enabled = true ∧ l.content.alpha ≠ 0

instance (l : Leaf) : Decidable l.Drawn := inferInstanceAs (Decidable (_ ∧ _))

def flag (t : DamageType) (l : Leaf) : Leaf := { l with damageType := l.damageType.or t }

end Leaf

def Ctx.leaf (c : Ctx) (n : Node) (content : Content) : Leaf where
  content := content
  clipRegion := n.clipRegion
  radius := n.radius
  x := c.x + n.x
  y := c.y + n.y
  enabled := c.enabled && n.enabled
  damageType := c.damageType.or n.damageType
  lastEnabled := n.lastEnabled
  visibleRegion := n.visibleRegion

/-- The leaves of a node, given those of its children. -/
def itemLeaves (n : Node) (c : Ctx) (children : List Leaf) : List Leaf :=
  match n.content with
  | none => children
  | some content => [c.leaf n content]

namespace Forest

def leaves : Forest → Ctx → List Leaf
  | nil, _ => []
  | node n children below, c => itemLeaves n c (children.leaves (c.enter n)) ++ below.leaves c

/-- The leaves at and below a node. -/
def item (n : Node) (children : Forest) (c : Ctx) : List Leaf :=
  itemLeaves n c (children.leaves (c.enter n))

/-- The leaves above the node at a path. -/
def before : Forest → Ctx → Path → List Leaf
  | node n children _, c, 0 :: i :: p => children.before (c.enter n) (i :: p)
  | node n children below, c, (i + 1) :: p => item n children c ++ below.before c (i :: p)
  | _, _, _ => []

/-- The leaves below the parent of the node at a path. -/
def after : Forest → Ctx → Path → List Leaf
  | node n children below, c, 0 :: i :: p => children.after (c.enter n) (i :: p) ++ below.leaves c
  | node _ _ below, c, (i + 1) :: p => below.after c (i :: p)
  | _, _, _ => []

variable {f f' g : Forest} {c c' : Ctx} {p : Path} {n : Node} {children below : Forest}

theorem item_leaf {content : Content} (h : n.content = some content) :
    item n children c = [c.leaf n content] := by
  rw [item, itemLeaves, h]

theorem item_tree (h : n.content = none) : item n children c = children.leaves (c.enter n) := by
  rw [item, itemLeaves, h]

@[simp] theorem leaves_node : (node n children below).leaves c =
    item n children c ++ below.leaves c := rfl

@[simp] theorem sub_zero : f.sub c [0] = some (c, f) := by cases f <;> rfl

@[simp] theorem edit_zero (change : Forest → Option Forest) : f.edit change [0] = change f := by
  cases f <;> rfl

@[simp] theorem before_zero : f.before c [0] = [] := by cases f <;> rfl

@[simp] theorem after_zero : f.after c [0] = [] := by cases f <;> rfl

theorem nil_sub (h : nil.sub c p = some (c', g)) : p = [0] := by
  match p, h with
  | [0], _ => rfl

/-- The part at a path is one stretch of the leaves. -/
theorem sub_leaves (h : f.sub c p = some (c', g)) :
    f.leaves c = f.before c p ++ g.leaves c' ++ f.after c p := by
  induction f, c, p using Forest.sub.induct with
  | case1 f c => cases f <;> cases h
  | case2 f c =>
    rw [sub_zero, Option.some.injEq, Prod.mk.injEq] at h
    obtain ⟨rfl, rfl⟩ := h
    simp
  | case3 c p hnil hzero => exact absurd (nil_sub h) hzero
  | case4 n children below c i p htree ih =>
    rw [sub, if_pos htree] at h
    rw [leaves_node, item_tree htree, ih h, before, after]
    simp
  | case5 n children below c i p htree =>
    rw [sub, if_neg htree] at h
    cases h
  | case6 n children below c i p ih =>
    rw [sub] at h
    rw [leaves_node, ih h, before, after]
    simp

/-- Editing at a path changes what is there, and nothing above or below it. -/
theorem edit_spec {change : Forest → Option Forest} (c : Ctx) (h : f.edit change p = some f') :
    ∃ c' g g', f.sub c p = some (c', g) ∧ change g = some g' ∧ f'.sub c p = some (c', g') ∧
      f'.before c p = f.before c p ∧ f'.after c p = f.after c p := by
  induction f, p using Forest.edit.induct generalizing c f' with
  | case1 f => cases f <;> cases h
  | case2 f =>
    rw [edit_zero] at h
    exact ⟨c, f, f', sub_zero, h, sub_zero, by simp, by simp⟩
  | case3 p hnil hzero =>
    match p, h with
    | [0], _ => exact absurd rfl hzero
  | case4 n children below i p htree ih =>
    rw [edit, if_pos htree, Option.map_eq_some_iff] at h
    obtain ⟨children', h, rfl⟩ := h
    obtain ⟨c', g, g', hsub, hg, hsub', hbefore, hafter⟩ := ih (c.enter n) h
    refine ⟨c', g, g', ?_, hg, ?_, ?_, ?_⟩
    · rw [sub, if_pos htree, hsub]
    · rw [sub, if_pos htree, hsub']
    · rw [before, before, hbefore]
    · rw [after, after, hafter]
  | case5 n children below i p htree =>
    rw [edit, if_neg htree] at h
    cases h
  | case6 n children below i p ih =>
    rw [edit, Option.map_eq_some_iff] at h
    obtain ⟨below', h, rfl⟩ := h
    obtain ⟨c', g, g', hsub, hg, hsub', hbefore, hafter⟩ := ih c h
    refine ⟨c', g, g', ?_, hg, ?_, ?_, ?_⟩
    · rw [sub, hsub]
    · rw [sub, hsub']
    · rw [before, before, hbefore]
    · rw [after, after, hafter]

/-! ### Flags and boxes -/

theorem leaves_flag (t : DamageType) : ∀ (f : Forest) (c : Ctx),
    f.leaves { c with damageType := c.damageType.or t } = (f.leaves c).map (Leaf.flag t)
  | nil, _ => rfl
  | node n children below, c => by
    have hitem : item n children { c with damageType := c.damageType.or t } =
        (item n children c).map (Leaf.flag t) := by
      cases hn : n.content with
      | some content =>
        rw [item_leaf hn, item_leaf hn, List.map_singleton]
        simp [Ctx.leaf, Leaf.flag, DamageType.or_right_comm]
      | none =>
        rw [item_tree hn, item_tree hn, ← leaves_flag t children]
        simp [Ctx.enter, DamageType.or_right_comm]
    rw [leaves_node, leaves_node, List.map_append, hitem, leaves_flag t below]

theorem item_mark (t : DamageType) :
    item (n.mark t) children c = (item n children c).map (Leaf.flag t) := by
  cases hn : n.content with
  | some content =>
    rw [item_leaf hn, item_leaf (n := n.mark t) hn, List.map_singleton]
    simp [Ctx.leaf, Leaf.flag, Node.mark, DamageType.or_assoc]
  | none =>
    rw [item_tree hn, item_tree (n := n.mark t) hn, ← leaves_flag t children]
    simp [Ctx.enter, Node.mark, DamageType.or_assoc]

theorem enabled_of_mem {l : Leaf} (hl : l ∈ f.leaves c) (he : l.enabled = true) :
    c.enabled = true := by
  induction f generalizing c with
  | nil => cases hl
  | node n children below ihc ihb =>
    rw [leaves_node, List.mem_append] at hl
    rcases hl with hl | hl
    · cases hn : n.content with
      | some content =>
        rw [item_leaf hn, List.mem_singleton] at hl
        subst hl
        exact (Bool.and_eq_true_iff.mp he).1
      | none =>
        rw [item_tree hn] at hl
        exact (Bool.and_eq_true_iff.mp (ihc hl)).1
    · exact ihb hl

theorem enabled_of_mem_item {l : Leaf} (hl : l ∈ item n children c) (he : l.enabled = true) :
    c.enabled = true ∧ n.enabled = true := by
  cases hn : n.content with
  | some content =>
    rw [item_leaf hn, List.mem_singleton] at hl
    subst hl
    exact Bool.and_eq_true_iff.mp he
  | none =>
    rw [item_tree hn] at hl
    exact Bool.and_eq_true_iff.mp (enabled_of_mem hl he)

/-- What is said of a forest below: its extents hold every point of a drawn leaf. -/
def Bounded (f : Forest) : Prop := ∀ (c : Ctx) (l : Leaf) (q : Point), l ∈ f.leaves c → l.Drawn →
  q ∈ l.box → ∃ e, f.extents = some e ∧ q ∈ translate e.region c.x c.y

/-- The bounding box of a node holds its drawn leaves. -/
theorem item_bounded (h : children.Bounded) {l : Leaf} {q : Point} (hl : l ∈ item n children c)
    (hd : l.Drawn) (hq : q ∈ l.box) :
    q ∈ translate (boundingBox n children.extents).region (c.x + n.x) (c.y + n.y) := by
  cases hn : n.content with
  | some content =>
    rw [item_leaf hn, List.mem_singleton] at hl
    subst hl
    simp only [boundingBox, hn]
    rw [mem_translate, Extents.mem_region]
    rw [Leaf.box, boxRegion, mem_rectRegion] at hq
    simp only [Ctx.leaf] at hq
    refine ⟨⟨?_, ?_⟩, ?_, ?_⟩ <;> dsimp only <;> omega
  | none =>
    rw [item_tree hn] at hl
    obtain ⟨e, he, hqe⟩ := h _ l q hl hd hq
    simp only [boundingBox, hn, he]
    exact hqe

theorem isVisible_of_drawn {l : Leaf} (hl : l ∈ item n children c) (hd : l.Drawn) :
    isVisible n children = true := by
  have hn := (enabled_of_mem_item hl hd.1).2
  rw [isVisible, hn, Bool.true_and]
  cases hc : n.content with
  | some content =>
    rw [item_leaf hc, List.mem_singleton] at hl
    subst hl
    exact decide_eq_true hd.2
  | none =>
    rw [item_tree hc] at hl
    cases children with
    | nil => cases hl
    | node n children below => rfl

theorem bounded (f : Forest) : f.Bounded := by
  induction f with
  | nil =>
    intro c l q hl
    cases hl
  | node n children below ihc ihb =>
    intro c l q hl hd hq
    rw [leaves_node, List.mem_append] at hl
    rw [extents]
    rcases hl with hl | hl
    · have hbox := item_bounded ihc hl hd hq
      rw [if_pos (isVisible_of_drawn hl hd)]
      refine ⟨_, rfl, mem_translate.mpr (Extents.mem_add_left ?_)⟩
      rw [mem_translate, Extents.mem_region] at hbox
      rw [Extents.mem_region]
      dsimp only at hbox ⊢
      omega
    · obtain ⟨e, he, hqe⟩ := ihb c l q hl hd hq
      split_ifs
      · refine ⟨_, rfl, ?_⟩
        rw [he]
        exact mem_translate.mpr (Extents.mem_add_right (mem_translate.mp hqe))
      · exact ⟨e, he, hqe⟩

/-! ### Spots -/

/-- The node at a path of a forest under `b`, with its context, its children, and the leaves above
    and below its own. -/
structure Spot (f : Forest) (b : Ctx) (p : Path) (c : Ctx) (n : Node) (children : Forest)
    (above under : List Leaf) : Prop where
  found : ∃ below, f.sub b p = some (c, node n children below) ∧ above = f.before b p ∧
    under = below.leaves c ++ f.after b p

variable {b : Ctx} {above under : List Leaf}

theorem spot_of_sub (h : f.sub b p = some (c, node n children below)) :
    ∃ above under, f.Spot b p c n children above under :=
  ⟨_, _, below, h, rfl, rfl⟩

namespace Spot

theorem leaves_eq (h : f.Spot b p c n children above under) :
    f.leaves b = above ++ item n children c ++ under := by
  obtain ⟨below, hsub, rfl, rfl⟩ := h.found
  rw [sub_leaves hsub, leaves_node]
  simp

theorem update {change : Node → Node} (h : f.Spot b p c n children above under)
    (hedit : f.edit (Forest.update change) p = some f') :
    f'.Spot b p c (change n) children above under := by
  obtain ⟨below, hsub, rfl, rfl⟩ := h.found
  obtain ⟨c', g, g', hsub', hg, hnew, hbefore, hafter⟩ := edit_spec b hedit
  rw [hsub, Option.some.injEq, Prod.mk.injEq] at hsub'
  obtain ⟨rfl, rfl⟩ := hsub'
  rw [Forest.update, Option.some.injEq] at hg
  subst hg
  exact ⟨below, hnew, hbefore.symm, by rw [hafter]⟩

theorem remove (h : f.Spot b p c n children above under)
    (hedit : f.edit Forest.remove p = some f') : f'.leaves b = above ++ under := by
  obtain ⟨below, hsub, rfl, rfl⟩ := h.found
  obtain ⟨c', g, g', hsub', hg, hnew, hbefore, hafter⟩ := edit_spec b hedit
  rw [hsub, Option.some.injEq, Prod.mk.injEq] at hsub'
  obtain ⟨rfl, rfl⟩ := hsub'
  rw [Forest.remove, Option.some.injEq] at hg
  subst hg
  rw [sub_leaves hnew, hbefore, hafter, List.append_assoc]

end Spot

theorem insert_spot (b : Ctx) (hedit : f.edit (Forest.insert n children) p = some f') :
    ∃ c above under, f'.Spot b p c n children above under ∧ f.leaves b = above ++ under := by
  obtain ⟨c, g, g', hsub, hg, hnew, hbefore, hafter⟩ := edit_spec b hedit
  rw [Forest.insert, Option.some.injEq] at hg
  subst hg
  refine ⟨c, _, _, ⟨g, hnew, rfl, rfl⟩, ?_⟩
  rw [sub_leaves hsub, hbefore, hafter, List.append_assoc]

end Forest

end FlakeWm.Damage
