import FlakeWm.Damage.Collect

/-! Leaves that were on the screen (`scene/scene.c`).

    A leaf that the last walk has made visible is still drawn, or it is flagged: by itself, or by an ancestor. When a
    node is moved to another parent, it loses the flags of the old ancestors; so this must hold of every node with its
    own flags and those below it only, which is `Forest.Held`. Pushing the damage of a node before it is changed then
    flags all leaves below it that were visible (`told_of_push`), also when the node is disabled and nothing is
    pushed. -/

namespace FlakeWm.Damage

variable {l : Leaf} {c c' b : Ctx} {n n' : Node} {children below f f' g : Forest} {p : Path} {type : DamageType}

namespace Leaf

/-- The last walk has found the leaf enabled and visible. -/
def Shown (l : Leaf) : Prop := l.lastEnabled = true ∧ l.visibleRegion ≠ ∅

/-- Drawn, and not empty. -/
def Solid (l : Leaf) : Prop := l.Drawn ∧ 0 < l.content.size.1 ∧ 0 < l.content.size.2

/-- What was visible is still drawn, or flagged. -/
def Fine (l : Leaf) : Prop := l.Shown → l.damageType.harmful = true ∨ l.Solid

/-- What was visible is flagged. -/
def Told (l : Leaf) : Prop := l.Shown → l.damageType.harmful = true

/-- What is left of the last walk. -/
def last (l : Leaf) : Bool × Region := (l.lastEnabled, l.visibleRegion)

theorem shown_of_last {l' : Leaf} (h : l'.last = l.last) : l'.Shown ↔ l.Shown := by
  simp only [last, Prod.mk.injEq] at h
  rw [Shown, Shown, h.1, h.2]

theorem Told.fine (h : l.Told) : l.Fine := fun hshown => Or.inl (h hshown)

theorem box_nonempty : l.box.Nonempty ↔ 0 < l.content.size.1 ∧ 0 < l.content.size.2 := by
  constructor
  · rintro ⟨q, hq⟩
    rw [mem_box] at hq
    omega
  · intro h
    refine ⟨(l.x, l.y), mem_box.2 ?_⟩
    dsimp only
    omega

/-- A leaf of a tree that is put under other nodes. -/
def under (c : Ctx) (l : Leaf) : Leaf :=
  { l with
    x := c.x + l.x
    y := c.y + l.y
    enabled := c.enabled && l.enabled
    damageType := c.damageType.or l.damageType }

theorem Told.under (h : l.Told) (c : Ctx) : (l.under c).Told := by
  intro hshown
  show (c.damageType.harmful || l.damageType.harmful) = true
  rw [h hshown, Bool.or_true]

end Leaf

/-- Above the root: nothing moves, disables or flags. -/
def Ctx.top : Ctx := ⟨0, 0, true, .none⟩

namespace Forest

theorem leaf_under (c : Ctx) (n : Node) (content : Content) : c.leaf n content = (Ctx.top.leaf n content).under c := by
  simp [Ctx.leaf, Ctx.top, Leaf.under, DamageType.or, DamageType.none]

/-- The leaves under any nodes are those of the tree by itself, put under these. -/
theorem leaves_under : ∀ (f : Forest) (c : Ctx), f.leaves c = (f.leaves .top).map (Leaf.under c)
  | nil, _ => rfl
  | node n children below, c => by
      rw [leaves_node, leaves_node, List.map_append, ← leaves_under below c]
      cases hn : n.content with
      | some content =>
        rw [item_leaf hn, item_leaf hn, List.map_singleton, leaf_under]
      | none =>
        rw [item_tree hn, item_tree hn, leaves_under children, leaves_under children (Ctx.top.enter n), List.map_map]
        refine congrArg (· ++ below.leaves c) (List.map_congr_left fun l _ => ?_)
        simp [Leaf.under, Ctx.enter, Ctx.top, DamageType.or, DamageType.none, add_assoc, Bool.and_assoc, Bool.or_assoc]

theorem item_under (n : Node) (children : Forest) (c : Ctx) :
    item n children c = (item n children .top).map (Leaf.under c) := by
  have h := leaves_under (node n children nil) c
  rwa [leaves_node, leaves_node, leaves, leaves, List.append_nil, List.append_nil] at h

/-- Every leaf that was visible is drawn or flagged below each of its ancestors. -/
def Held : Forest → Prop
  | nil => True
  | node n children below => (∀ l ∈ item n children .top, l.Fine) ∧ children.Held ∧ below.Held

/-- A node whose leaves are all flagged, as far as they were visible. -/
def Told (n : Node) (children : Forest) : Prop := ∀ l ∈ item n children .top, l.Told

theorem Told.told (h : Told n children) (c : Ctx) : ∀ l ∈ item n children c, l.Told := by
  intro l hl
  rw [item_under] at hl
  obtain ⟨m, hm, rfl⟩ := List.mem_map.1 hl
  exact (h m hm).under c

/-- The root moves its leaves only. -/
theorem Held.fine (h : f.Held) (x y : ℤ) : ∀ l ∈ f.leaves ⟨x, y, true, .none⟩, l.Fine := by
  induction f with
  | nil => simp [leaves]
  | node n children below _ ih =>
    intro l hl
    rw [leaves_node, List.mem_append] at hl
    rcases hl with hl | hl
    · rw [item_under] at hl
      obtain ⟨m, hm, rfl⟩ := List.mem_map.1 hl
      have hfine := h.1 m hm
      simpa [Leaf.Fine, Leaf.Shown, Leaf.Solid, Leaf.Drawn, Leaf.under, DamageType.or, DamageType.none] using hfine
    · exact ih h.2.2 l hl

theorem Held.sub (h : f.Held) (hsub : f.sub b p = some (c, g)) : g.Held := by
  induction f, b, p using Forest.sub.induct with
  | case1 f c => cases f <;> cases hsub
  | case2 f c =>
    rw [sub_zero, Option.some.injEq, Prod.mk.injEq] at hsub
    exact hsub.2 ▸ h
  | case3 c p hnil hzero => exact absurd (nil_sub hsub) hzero
  | case4 n children below c i p htree ih =>
    rw [Forest.sub, if_pos htree] at hsub
    exact ih h.2.1 hsub
  | case5 n children below c i p htree =>
    rw [Forest.sub, if_neg htree] at hsub
    cases hsub
  | case6 n children below c i p ih =>
    rw [Forest.sub] at hsub
    exact ih h.2.2 hsub

/-- What an edit must keep of the place that it changes, whatever is above. -/
def Keeps (g g' : Forest) : Prop :=
  g.Held → g'.Held ∧ ∀ c, (∀ l ∈ g.leaves c, l.Fine) → ∀ l ∈ g'.leaves c, l.Fine

theorem edit_keeps {change : Forest → Option Forest} (hedit : f.edit change p = some f')
    (hchange : ∀ c g g', f.sub b p = some (c, g) → change g = some g' → Keeps g g') : Keeps f f' := by
  induction f, p using Forest.edit.induct generalizing b f' with
  | case1 f => cases f <;> cases hedit
  | case2 f =>
    rw [edit_zero] at hedit
    exact hchange b f f' sub_zero hedit
  | case3 p hnil hzero =>
    rw [edit.eq_3 change p hnil hzero] at hedit
    cases hedit
  | case4 n children below i p htree ih =>
    rw [edit, if_pos htree, Option.map_eq_some_iff] at hedit
    obtain ⟨children', hedit, rfl⟩ := hedit
    rintro ⟨hitem, hchildren, hbelow⟩
    obtain ⟨hheld, hleaves⟩ := ih (b := b.enter n) hedit (fun c g g' hsub => hchange c g g' (by
      rw [sub, if_pos htree, hsub])) hchildren
    have hfine (c : Ctx) (h : ∀ l ∈ item n children c, l.Fine) : ∀ l ∈ item n children' c, l.Fine := by
      rw [item_tree htree] at h ⊢
      exact hleaves _ h
    refine ⟨⟨hfine .top hitem, hheld, hbelow⟩, fun c h l hl => ?_⟩
    rw [leaves_node, List.mem_append] at hl
    rcases hl with hl | hl
    · exact hfine c (fun m hm => h m (List.mem_append_left _ hm)) l hl
    · exact h l (List.mem_append_right _ hl)
  | case5 n children below i p htree =>
    rw [edit, if_neg htree] at hedit
    cases hedit
  | case6 n children below i p ih =>
    rw [edit, Option.map_eq_some_iff] at hedit
    obtain ⟨below', hedit, rfl⟩ := hedit
    rintro ⟨hitem, hchildren, hbelow⟩
    obtain ⟨hheld, hleaves⟩ := ih (b := b) hedit (fun c g g' hsub => hchange c g g' (by rw [sub, hsub])) hbelow
    refine ⟨⟨hitem, hchildren, hheld⟩, fun c h l hl => ?_⟩
    rw [leaves_node, List.mem_append] at hl
    rcases hl with hl | hl
    · exact h l (List.mem_append_left _ hl)
    · exact hleaves c (fun m hm => h m (List.mem_append_right _ hm)) l hl

/-- A node may be replaced by one whose leaves are fine wherever they were. -/
theorem Keeps.node (hitem : ∀ c, (∀ l ∈ item n children c, l.Fine) → ∀ l ∈ item n' children c, l.Fine) :
    Keeps (.node n children below) (.node n' children below) := by
  rintro ⟨htop, hchildren, hbelow⟩
  refine ⟨⟨hitem .top htop, hchildren, hbelow⟩, fun c h l hl => ?_⟩
  rw [leaves_node, List.mem_append] at hl
  rcases hl with hl | hl
  · exact hitem c (fun m hm => h m (List.mem_append_left _ hm)) l hl
  · exact h l (List.mem_append_right _ hl)

theorem Keeps.remove (n : Node) (children below : Forest) : Keeps (.node n children below) below :=
  fun h => ⟨h.2.2, fun _ hl l hmem => hl l (List.mem_append_right _ hmem)⟩

theorem Keeps.insert (htold : Told n children) (hchildren : children.Held) (g : Forest) :
    Keeps g (.node n children g) := by
  intro h
  refine ⟨⟨fun l hl => (htold l hl).fine, hchildren, h⟩, fun c hg l hl => ?_⟩
  rw [leaves_node, List.mem_append] at hl
  rcases hl with hl | hl
  · exact (htold.told c l hl).fine
  · exact hg l hl

/-! ### Pushing -/

/-- A harmful mark flags all leaves below the node. -/
theorem told_mark (htype : type.harmful = true) (n : Node) (children : Forest) : Told (n.mark type) children := by
  intro l hl _
  rw [item_mark] at hl
  obtain ⟨m, -, rfl⟩ := List.mem_map.1 hl
  show (m.damageType.harmful || type.harmful) = true
  rw [htype, Bool.or_true]

theorem keeps_mark (type : DamageType) (n : Node) (children below : Forest) :
    Keeps (.node n children below) (.node (n.mark type) children below) := by
  refine Keeps.node fun c h l hl => ?_
  rw [item_mark] at hl
  obtain ⟨m, hm, rfl⟩ := List.mem_map.1 hl
  intro hshown
  rcases h m hm hshown with hharmful | hsolid
  · refine Or.inl ?_
    show (m.damageType.harmful || type.harmful) = true
    rw [hharmful, Bool.true_or]
  · exact Or.inr hsolid

/-- Where nothing is pushed, nothing is drawn, and what was visible is flagged already. -/
theorem told_of_empty (hheld : (node n children below).Held)
    (hnone : n.enabled = false ∨ (boundingBox n children.extents).region = ∅) : Told n children := by
  intro l hl hshown
  refine (hheld.1 l hl hshown).resolve_right fun ⟨hdrawn, hsize⟩ => ?_
  rcases hnone with hoff | hempty
  · exact Bool.false_ne_true (hoff.symm.trans (enabled_of_mem_item hl hdrawn.1).2)
  · obtain ⟨q, hq⟩ := Leaf.box_nonempty.2 hsize
    have hmem := item_bounded children.bounded hl hdrawn hq
    rw [hempty, mem_translate] at hmem
    cases hmem

/-! ### Changes of a node -/

/-- A node that is changed keeps its flags and what is left of the last walk. -/
structure Like (n n' : Node) : Prop where
  tree : n'.content = none ↔ n.content = none
  damageType : n.damageType.harmful = true → n'.damageType.harmful = true
  lastEnabled : n'.lastEnabled = n.lastEnabled
  visibleRegion : n'.visibleRegion = n.visibleRegion

theorem Like.refl (n : Node) : Like n n := ⟨Iff.rfl, id, rfl, rfl⟩

theorem Like.trans {n'' : Node} (h : Like n n') (h' : Like n' n'') : Like n n'' :=
  ⟨h'.tree.trans h.tree, fun hn => h'.damageType (h.damageType hn), h'.lastEnabled.trans h.lastEnabled,
    h'.visibleRegion.trans h.visibleRegion⟩

theorem Like.mark (n : Node) (type : DamageType) : Like n (n.mark type) := by
  refine ⟨Iff.rfl, fun h => ?_, rfl, rfl⟩
  show (n.damageType.harmful || type.harmful) = true
  rw [h, Bool.true_or]

theorem Like.last (h : Like n n') (children : Forest) (c c' : Ctx) :
    (item n' children c').map Leaf.last = (item n children c).map Leaf.last := by
  cases hn : n.content with
  | none =>
    rw [item_tree hn, item_tree (h.tree.2 hn), leaves_under, leaves_under children (c.enter n), List.map_map, List.map_map]
    rfl
  | some content =>
    obtain ⟨content', hn'⟩ := Option.ne_none_iff_exists'.1 fun hnone => by
      rw [h.tree.1 hnone] at hn
      cases hn
    rw [item_leaf hn, item_leaf hn', List.map_singleton, List.map_singleton]
    simp [Leaf.last, Ctx.leaf, h.lastEnabled, h.visibleRegion]

theorem Like.told (h : Like n n') (htold : Told n children) : Told n' children := by
  intro l hl
  cases hn : n.content with
  | none =>
    rw [item_tree (h.tree.2 hn), leaves_under] at hl
    obtain ⟨m, hm, rfl⟩ := List.mem_map.1 hl
    have htold' := htold (m.under (Ctx.top.enter n)) (by
      rw [item_tree hn, leaves_under]
      exact List.mem_map_of_mem hm)
    intro hshown
    have hharmful := htold' hshown
    simp only [Leaf.under, Ctx.enter, Ctx.top, DamageType.or, DamageType.none, Bool.false_or, Bool.or_eq_true]
      at hharmful ⊢
    exact hharmful.imp_left h.damageType
  | some content =>
    obtain ⟨content', hn'⟩ := Option.ne_none_iff_exists'.1 fun hnone => by
      rw [h.tree.1 hnone] at hn
      cases hn
    rw [item_leaf hn', List.mem_singleton] at hl
    subst hl
    have htold' := htold (Ctx.top.leaf n content) (by rw [item_leaf hn]; exact List.mem_singleton_self _)
    intro hshown
    simp only [Leaf.Shown, Ctx.leaf] at hshown
    rw [h.lastEnabled, h.visibleRegion] at hshown
    have hharmful := htold' hshown
    simp only [Ctx.leaf, Ctx.top, DamageType.or, DamageType.none, Bool.false_or] at hharmful ⊢
    exact h.damageType hharmful

theorem Like.keeps (h : Like n n') (htold : Told n children) (below : Forest) :
    Keeps (.node n children below) (.node n' children below) :=
  Keeps.node fun c _ l hl => ((h.told htold).told c l hl).fine

end Forest

end FlakeWm.Damage
