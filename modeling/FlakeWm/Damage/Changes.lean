import FlakeWm.Damage.Held

/-! What the operations on a scene change (`scene/scene.c`, `scene/rect.c`, `scene/buffer.c`).

    Every operation replaces, adds, moves or removes one stretch of the leaves, and pushes the boxes of those that are
    drawn before and after it: `Changes`. The leaves that were visible before are flagged after it, or their visible
    region is damaged at once. A change of a colour or an opacity may take a shortcut instead, which is `Recolors`. -/

namespace FlakeWm.Damage

open Forest

variable {s s' s'' : Scene} {p q : Path} {c : Ctx} {n n' : Node} {children : Forest} {above under : List Leaf}
  {type : DamageType}

/-! ### What is kept -/

/-- Damage is added, and everything but the nodes stays. -/
structure Grows (s s' : Scene) : Prop where
  root : s'.root = s.root
  outputs : s'.outputs = s.outputs
  invisible : s'.collectedInvisible = s.collectedInvisible
  pushed : s.pushedDamage ⊆ s'.pushedDamage
  damage : s.collectedDamage ⊆ s'.collectedDamage

namespace Grows

theorem refl (s : Scene) : Grows s s := ⟨rfl, rfl, rfl, subset_rfl, subset_rfl⟩

theorem trans (h : Grows s s') (h' : Grows s' s'') : Grows s s'' :=
  ⟨h'.root.trans h.root, h'.outputs.trans h.outputs, h'.invisible.trans h.invisible, h.pushed.trans h'.pushed,
    h.damage.trans h'.damage⟩

theorem ctx (h : Grows s s') : s'.ctx = s.ctx := by
  rw [Scene.ctx, h.root]
  rfl

end Grows

namespace Scene

/-- The leaves of a scene, from top to bottom. -/
def leaves (s : Scene) : List Leaf := s.children.leaves s.ctx

/-- The node at a path of the scene, with the leaves above and below its own. -/
def At (s : Scene) (p : Path) (c : Ctx) (n : Node) (children : Forest) (above under : List Leaf) : Prop :=
  s.children.Spot s.ctx p c n children above under

theorem find_at (hp : p ≠ []) (h : s.find p = some (c, n, children)) :
    ∃ above under, s.At p c n children above under := by
  obtain ⟨i, p, rfl⟩ := List.exists_cons_of_ne_nil hp
  rw [find] at h
  split at h
  next hsub =>
    simp only [Option.some.injEq, Prod.mk.injEq] at h
    obtain ⟨rfl, rfl, rfl⟩ := h
    exact spot_of_sub hsub
  · cases h

theorem At.find (h : s.At p c n children above under) : s.find p = some (c, n, children) := by
  obtain ⟨below, hsub, -, -⟩ := h.found
  cases p with
  | nil =>
    rw [Forest.sub] at hsub
    cases hsub
  | cons i p => rw [Scene.find, hsub]

/-- A node that is not the root is written to in the forest. -/
theorem At.update_eq (h : s.At p c n children above under) (f : Node → Node) :
    s.update f p = s.edit p (Forest.update f) := by
  obtain ⟨below, hsub, -, -⟩ := h.found
  cases p with
  | nil =>
    rw [Forest.sub] at hsub
    cases hsub
  | cons i p => rfl

theorem edit_spec {change : Forest → Option Forest} (h : s.edit p change = some s') :
    Grows s s' ∧ s.children.edit change p = some s'.children ∧ s'.pushedDamage = s.pushedDamage ∧
      s'.collectedDamage = s.collectedDamage := by
  rw [edit, Option.map_eq_some_iff] at h
  obtain ⟨children, h, rfl⟩ := h
  exact ⟨⟨rfl, rfl, rfl, subset_rfl, subset_rfl⟩, h, rfl, rfl⟩

/-- Nothing above the leaves is disabled or still flagged, and every leaf that was visible is drawn or flagged. -/
structure Held (s : Scene) : Prop where
  enabled : s.root.enabled = true
  clean : s.root.damageType.harmful = true → ∀ l ∈ s.leaves, l.lastEnabled = false
  held : s.children.Held

theorem Held.fine (h : s.Held) : ∀ l ∈ s.leaves, l.Fine := by
  rw [leaves, ctx, h.enabled]
  exact h.held.fine s.root.x s.root.y

end Scene

/-! ### Pushing -/

/-- The node is a leaf whose change was taken for harmless. -/
def Shortcut (s : Scene) (type : DamageType) (c : Ctx) (n : Node) : Prop :=
  (c.damageType.or (n.mark type).damageType).or s.root.damageType = .HARMLESS ∧ n.lastEnabled = true

/-- What `nodePushDamage` does with the node at a path, which is not the root. -/
structure Pushes (s s' : Scene) (p : Path) (type : DamageType) (c : Ctx) (n : Node) (children : Forest)
    (above under : List Leaf) (n' : Node) : Prop where
  grows : Grows s s'
  spot : s'.At p c n' children above under
  like : Like n n'
  marked : n' = n ∧ s'.children = s.children ∧ (n.enabled = false ∨ (boundingBox n children.extents).region = ∅) ∨
    n' = n.mark type ∧ n.enabled = true ∧ (boundingBox n children.extents).region ≠ ∅ ∧
      s.children.edit (Forest.update (·.mark type)) p = some s'.children
  box : c.enabled = true → n.enabled = true →
    ∀ x ∈ translate (boundingBox n children.extents).region (c.x + n.x) (c.y + n.y),
      (¬ Shortcut s type c n → x ∈ s'.pushedDamage) ∧
        (Shortcut s type c n → x ∈ n.visibleRegion → x ∈ s'.collectedDamage)

theorem nodePushDamage_spec (h : s.At p c n children above under) (hs : s.nodePushDamage p type = some s') :
    ∃ n', Pushes s s' p type c n children above under n' := by
  rw [Scene.nodePushDamage, h.find] at hs
  simp only [Option.bind_eq_bind, Option.bind_some] at hs
  split at hs
  next hoff =>
    rw [Bool.not_eq_true'] at hoff
    cases hs
    refine ⟨n, .refl s, h, .refl n, Or.inl ⟨rfl, rfl, Or.inl hoff⟩, fun _ hon => ?_⟩
    exact absurd (hoff.symm.trans hon) Bool.false_ne_true
  next hon =>
    rw [Bool.not_eq_true', Bool.not_eq_false] at hon
    split at hs
    next hempty =>
      cases hs
      refine ⟨n, .refl s, h, .refl n, Or.inl ⟨rfl, rfl, Or.inr hempty⟩, fun _ _ x hx => ?_⟩
      rw [hempty, mem_translate] at hx
      cases hx
    next hbox =>
      rw [Option.bind_eq_some_iff, h.update_eq] at hs
      obtain ⟨s₁, hs₁, hs⟩ := hs
      obtain ⟨hgrows, hedit, -, -⟩ := Scene.edit_spec hs₁
      have hspot : s₁.At p c (n.mark type) children above under := by
        rw [Scene.At, hgrows.ctx]
        exact h.update hedit
      split at hs
      next hdisabled =>
        rw [Bool.not_eq_true'] at hdisabled
        cases hs
        refine ⟨_, hgrows, hspot, .mark n type, Or.inr ⟨rfl, hon, hbox, hedit⟩, fun henabled => ?_⟩
        exact absurd (hdisabled.symm.trans henabled) Bool.false_ne_true
      · rw [Option.some.injEq, Scene.scenePushDamage] at hs
        split at hs
        next hshortcut =>
          rw [hgrows.root] at hshortcut
          subst hs
          refine ⟨_, hgrows.trans ⟨rfl, rfl, rfl, subset_rfl, Finset.subset_union_left⟩, hspot, .mark n type,
            Or.inr ⟨rfl, hon, hbox, hedit⟩, fun _ _ x hx => ⟨fun hfull => absurd hshortcut hfull, fun _ hvisible => ?_⟩⟩
          exact Finset.mem_union_right _ (Finset.mem_inter.2 ⟨hx, hvisible⟩)
        next hfull =>
          rw [hgrows.root] at hfull
          subst hs
          refine ⟨_, hgrows.trans ⟨rfl, rfl, rfl, Finset.subset_union_left, subset_rfl⟩, hspot, .mark n type,
            Or.inr ⟨rfl, hon, hbox, hedit⟩, fun _ _ x hx => ⟨fun _ => Finset.mem_union_right _ hx, fun h => ?_⟩⟩
          exact absurd h hfull

theorem not_shortcut (htype : type.harmful = true) : ¬ Shortcut s type c n := by
  intro h
  have hharmful := congrArg DamageType.harmful h.1
  simp [DamageType.or, DamageType.HARMLESS, Node.mark, htype] at hharmful

namespace Pushes

variable {l : Leaf}

theorem keeps (h : Pushes s s' p type c n children above under n') : Keeps s.children s'.children := by
  rcases h.marked with ⟨-, hsame, -⟩ | ⟨-, -, -, hedit⟩
  · rw [hsame]
    exact fun hheld => ⟨hheld, fun _ hfine => hfine⟩
  · refine edit_keeps (b := s.ctx) hedit fun _ g g' _ hg => ?_
    cases g with
    | nil => cases hg
    | node m children below =>
      cases hg
      exact keeps_mark type m children below

theorem content (h : Pushes s s' p type c n children above under n') : n'.content = n.content := by
  rcases h.marked with ⟨rfl, -⟩ | ⟨rfl, -⟩ <;> rfl

/-- After a harmful push every leaf below the node that was visible is flagged. -/
theorem told (h : Pushes s s' p type c n children above under n') (hat : s.At p c n children above under)
    (htype : type.harmful = true) (hheld : s.children.Held) : Told n' children := by
  rcases h.marked with ⟨rfl, -, hnone⟩ | ⟨rfl, -⟩
  · obtain ⟨below, hsub, -, -⟩ := hat.found
    exact told_of_empty (hheld.sub hsub) hnone
  · exact told_mark htype n children

theorem oldBoxes (h : Pushes s s' p type c n children above under n') (htype : type.harmful = true) :
    ∀ l ∈ item n children c, l.Drawn → l.box ⊆ s'.pushedDamage := by
  intro l hl hdrawn x hx
  obtain ⟨habove, hnode⟩ := enabled_of_mem_item hl hdrawn.1
  have hbox := item_bounded children.bounded hl hdrawn hx
  exact (h.box habove hnode x hbox).1 (not_shortcut htype)

/-- The node is as before but for its flags. -/
theorem of_mem (h : Pushes s s' p type c n children above under n') (hl : l ∈ item n' children c) :
    ∃ m ∈ item n children c, l.look = m.look ∧ l.enabled = m.enabled ∧ (m.damageType.harmful = true →
      l.damageType.harmful = true) ∧ (n' ≠ n → type.harmful = true → l.damageType.harmful = true) := by
  rcases h.marked with ⟨rfl, -⟩ | ⟨rfl, -⟩
  · exact ⟨l, hl, rfl, rfl, id, fun hne => absurd rfl hne⟩
  · rw [item_mark] at hl
    obtain ⟨m, hm, rfl⟩ := List.mem_map.1 hl
    refine ⟨m, hm, rfl, rfl, fun hharmful => ?_, fun _ htype => ?_⟩
    · show (m.damageType.harmful || type.harmful) = true
      rw [hharmful, Bool.true_or]
    · show (m.damageType.harmful || type.harmful) = true
      rw [htype, Bool.or_true]

end Pushes

theorem Leaf.drawn_of_look {l m : Leaf} (hlook : l.look = m.look) (henabled : l.enabled = m.enabled) :
    l.Drawn ↔ m.Drawn := by
  simp only [Leaf.look, Prod.mk.injEq] at hlook
  rw [Leaf.Drawn, Leaf.Drawn, hlook.1, henabled]

theorem Leaf.solid_of_looks {l m : Leaf} (hlook : l.look = m.look) (henabled : l.enabled = m.enabled) :
    l.Solid ↔ m.Solid := by
  have hdrawn := Leaf.drawn_of_look hlook henabled
  simp only [Leaf.look, Prod.mk.injEq] at hlook
  rw [Leaf.Solid, Leaf.Solid, hdrawn, hlook.1]

namespace Pushes

theorem newBoxes (h : Pushes s s' p type c n children above under n') (htype : type.harmful = true) :
    ∀ l ∈ item n' children c, l.Drawn → l.box ⊆ s'.pushedDamage := by
  intro l hl hdrawn
  obtain ⟨m, hm, hlook, henabled, -, -⟩ := h.of_mem hl
  rw [Leaf.box_of_look hlook]
  exact h.oldBoxes htype m hm ((Leaf.drawn_of_look hlook henabled).1 hdrawn)

/-- After a harmful push every leaf below the node that is drawn is flagged. -/
theorem fresh (h : Pushes s s' p type c n children above under n') (htype : type.harmful = true) :
    ∀ l ∈ item n' children c, l.Solid → l.damageType.harmful = true := by
  intro l hl hsolid
  rcases h.marked with ⟨rfl, -, hnone⟩ | ⟨rfl, -⟩
  · rcases hnone with hoff | hempty
    · exact absurd (hoff.symm.trans (enabled_of_mem_item hl hsolid.1.1).2) Bool.false_ne_true
    · obtain ⟨q, hq⟩ := Leaf.box_nonempty.2 hsolid.2
      have hmem := item_bounded children.bounded hl hsolid.1 hq
      rw [hempty, mem_translate] at hmem
      cases hmem
  · rw [item_mark] at hl
    obtain ⟨m, -, rfl⟩ := List.mem_map.1 hl
    show (m.damageType.harmful || type.harmful) = true
    rw [htype, Bool.or_true]

end Pushes

/-! ### Changing -/

/-- One stretch of the leaves is replaced or moved, and both what was there and what is there now is pushed. -/
structure Changes (s s' : Scene) (old new : List Leaf) : Prop where
  grows : Grows s s'
  parts : ∃ above under above' under', s.leaves = above ++ old ++ under ∧ s'.leaves = above' ++ new ++ under' ∧
    above' ++ under' = above ++ under
  oldBoxes : ∀ l ∈ old, l.Drawn → l.box ⊆ s'.pushedDamage
  newBoxes : ∀ l ∈ new, l.Drawn → l.box ⊆ s'.pushedDamage

/-- What is drawn now is flagged, and so is what was visible, unless that is damaged at once. -/
structure Tells (s s' : Scene) (old new : List Leaf) : Prop extends Changes s s' old new where
  fresh : s.Held → ∀ l ∈ new, l.Solid → l.damageType.harmful = true ∨ l.lastEnabled = false
  held : s.Held → s'.children.Held
  told : s.Held → ∀ l ∈ new, l.Told
  gone : ∀ l ∈ old, l.lastEnabled = true → l.visibleRegion ⊆ s'.collectedDamage ∨ l.last ∈ new.map Leaf.last

/-- An operation that finds nothing to change. -/
theorem Tells.refl (s : Scene) : Tells s s [] [] where
  grows := .refl s
  parts := ⟨s.leaves, [], s.leaves, [], by simp, by simp, rfl⟩
  oldBoxes := by simp
  newBoxes := by simp
  fresh := by simp
  held h := h.held
  told := by simp
  gone := by simp

theorem Scene.At.update {f : Node → Node} (hat : s.At p c n children above under)
    (hs : s.edit p (Forest.update f) = some s') : Grows s s' ∧ s'.At p c (f n) children above under := by
  obtain ⟨hgrows, hedit, -, -⟩ := Scene.edit_spec hs
  refine ⟨hgrows, ?_⟩
  rw [Scene.At, hgrows.ctx]
  exact Spot.update hat hedit

/-- Writing to a node keeps what it keeps in its place. -/
theorem Scene.At.keeps {f : Node → Node} (hat : s.At p c n children above under)
    (hs : s.edit p (Forest.update f) = some s')
    (hnode : ∀ below, Keeps (.node n children below) (.node (f n) children below)) : Keeps s.children s'.children := by
  obtain ⟨-, hedit, -, -⟩ := Scene.edit_spec hs
  obtain ⟨below, hsub, -, -⟩ := hat.found
  refine edit_keeps (b := s.ctx) hedit fun c' g g' hsub' hg => ?_
  rw [hsub, Option.some.injEq, Prod.mk.injEq] at hsub'
  obtain ⟨-, rfl⟩ := hsub'
  cases hg
  exact hnode below

/-- Writing to a node between two pushes. -/
theorem update_between {f : Node → Node} {type' : DamageType} {s₁ s₂ : Scene} (htype : type.harmful = true)
    (htype' : type'.harmful = true) (hf : ∀ m, m.content = n.content → Like m (f m))
    (hat : s.At p c n children above under) (hs₁ : s.nodePushDamage p type = some s₁)
    (hs₂ : s₁.update f p = some s₂) (hs : s₂.nodePushDamage p type' = some s') : ∃ old new, Tells s s' old new := by
  obtain ⟨n₁, h₁⟩ := nodePushDamage_spec hat hs₁
  rw [h₁.spot.update_eq] at hs₂
  obtain ⟨hgrows, hat₂⟩ := h₁.spot.update hs₂
  obtain ⟨n₃, h₃⟩ := nodePushDamage_spec hat₂ hs
  have hlike := hf n₁ h₁.content
  refine ⟨item n children c, item n₃ children c, ⟨(h₁.grows.trans hgrows).trans h₃.grows,
    ⟨above, under, above, under, hat.leaves_eq, h₃.spot.leaves_eq, rfl⟩, fun l hl hdrawn => ?_, h₃.newBoxes htype'⟩,
    fun _ l hl hsolid => Or.inl (h₃.fresh htype' l hl hsolid), fun hheld => ?_, fun hheld => ?_, fun l hl _ => Or.inr ?_⟩
  · exact (h₁.oldBoxes htype l hl hdrawn).trans (hgrows.pushed.trans h₃.grows.pushed)
  · have htold := h₁.told hat htype hheld.held
    have hheld₂ := h₁.spot.keeps hs₂ (fun below => hlike.keeps htold below) (h₁.keeps hheld.held).1
    exact (h₃.keeps hheld₂.1).1
  · exact (h₃.like.told (hlike.told (h₁.told hat htype hheld.held))).told c
  · rw [((h₁.like.trans hlike).trans h₃.like).last children c c]
    exact List.mem_map_of_mem hl

/-- Moving a node to another place between two pushes. -/
theorem pushAround_move (hat : s.At p c n children above under) (hs : s.pushAround p q (·.moveNode p q) = some s') :
    ∃ old new, Tells s s' old new := by
  simp only [Scene.pushAround, Option.bind_eq_bind, Option.bind_eq_some_iff] at hs
  obtain ⟨s₁, hs₁, s₃, hmove, hs⟩ := hs
  obtain ⟨n₁, h₁⟩ := nodePushDamage_spec hat hs₁
  rw [Scene.moveNode, h₁.spot.find] at hmove
  simp only [Option.bind_eq_bind, Option.bind_some, Option.bind_eq_some_iff] at hmove
  obtain ⟨s₂, hs₂, hs₃⟩ := hmove
  obtain ⟨hgrows₂, hremove, -, -⟩ := Scene.edit_spec hs₂
  obtain ⟨hgrows₃, hinsert, -, -⟩ := Scene.edit_spec hs₃
  have hleft : s₂.children.leaves s₁.ctx = above ++ under := h₁.spot.remove hremove
  obtain ⟨c', above', under', hspot, hparts⟩ := insert_spot s₃.ctx hinsert
  obtain ⟨n₄, h₄⟩ := nodePushDamage_spec (s := s₃) hspot hs
  rw [(hgrows₂.trans hgrows₃).ctx, hleft] at hparts
  have hgrows := (h₁.grows.trans hgrows₂).trans hgrows₃
  refine ⟨item n children c, item n₄ children c', ⟨hgrows.trans h₄.grows,
    ⟨above, under, above', under', hat.leaves_eq, h₄.spot.leaves_eq, hparts.symm⟩, fun l hl hdrawn => ?_,
    h₄.newBoxes rfl⟩, fun _ l hl hsolid => Or.inl (h₄.fresh rfl l hl hsolid), fun hheld => ?_, fun hheld => ?_,
    fun l hl _ => Or.inr ?_⟩
  · exact (h₁.oldBoxes rfl l hl hdrawn).trans
      (hgrows₂.pushed.trans (hgrows₃.pushed.trans h₄.grows.pushed))
  · obtain ⟨below, hsub, -, -⟩ := hat.found
    have htold := h₁.told hat rfl hheld.held
    have hchildren := (hheld.held.sub hsub).2.1
    have hheld₂ : s₂.children.Held := by
      refine (edit_keeps (b := s₁.ctx) hremove (fun _ g g' _ hg => ?_) (h₁.keeps hheld.held).1).1
      cases g with
      | nil => cases hg
      | node m children below =>
        cases hg
        exact .remove m children _
    have hheld₃ : s₃.children.Held := by
      refine (edit_keeps (b := s₂.ctx) hinsert (fun _ g g' _ hg => ?_) hheld₂).1
      cases hg
      exact .insert htold hchildren g
    exact (h₄.keeps hheld₃).1
  · exact (h₄.like.told (h₁.told hat rfl hheld.held)).told c'
  · rw [(h₁.like.trans h₄.like).last children c c']
    exact List.mem_map_of_mem hl

/-! ### Adding and removing -/

/-- A new leaf has not been visible. -/
theorem told_init (content : Option Content) : Told (Node.init content) .nil := by
  intro l hl hshown
  cases content with
  | none =>
    rw [item_tree (n := Node.init none) rfl] at hl
    cases hl
  | some content =>
    rw [item_leaf (n := Node.init (some content)) rfl, List.mem_singleton] at hl
    subst hl
    exact absurd hshown.1 Bool.false_ne_true

theorem insert_spec {content : Option Content} (hs : s.edit p (Forest.insert (Node.init content) .nil) = some s') :
    Grows s s' ∧ Keeps s.children s'.children ∧ ∃ c above under, s'.At p c (Node.init content) .nil above under ∧
      s.leaves = above ++ under := by
  obtain ⟨hgrows, hinsert, -, -⟩ := Scene.edit_spec hs
  obtain ⟨c, above, under, hspot, hparts⟩ := insert_spot s'.ctx hinsert
  refine ⟨hgrows, edit_keeps (b := s.ctx) hinsert fun _ g g' _ hg => ?_, c, above, under, hspot, ?_⟩
  · cases hg
    exact .insert (told_init content) trivial g
  · rw [Scene.leaves, ← hgrows.ctx]
    exact hparts

theorem treeCreate_changes {parent : Path} (hs : s.treeCreate parent = some s') : ∃ old new, Tells s s' old new := by
  obtain ⟨hgrows, hkeeps, c, above, under, hat, hparts⟩ := insert_spec hs
  refine ⟨[], [], ⟨hgrows, ⟨above, under, above, under, by rw [hparts, List.append_nil], ?_, rfl⟩,
    List.forall_mem_nil _, List.forall_mem_nil _⟩, fun _ => List.forall_mem_nil _, fun hheld => (hkeeps hheld.held).1, fun _ => List.forall_mem_nil _, List.forall_mem_nil _⟩
  rw [Scene.leaves, Spot.leaves_eq hat, item_tree (n := Node.init none) rfl, Forest.leaves]

/-- A new leaf whose box is pushed. -/
theorem create_changes {content : Content} {s₁ : Scene}
    (hs₁ : s.edit p (Forest.insert (Node.init (some content)) .nil) = some s₁)
    (hs : s₁.nodePushDamage p .HARMFUL = some s') : ∃ old new, Tells s s' old new := by
  obtain ⟨hgrows, hkeeps, c, above, under, hat, hparts⟩ := insert_spec hs₁
  obtain ⟨n', h⟩ := nodePushDamage_spec hat hs
  refine ⟨[], item n' .nil c, ⟨hgrows.trans h.grows,
    ⟨above, under, above, under, by rw [hparts, List.append_nil], h.spot.leaves_eq, rfl⟩, List.forall_mem_nil _,
    h.newBoxes rfl⟩, fun _ l hl hsolid => Or.inl (h.fresh rfl l hl hsolid), fun hheld => (h.keeps (hkeeps hheld.held).1).1,
    fun hheld => ((h.told hat rfl (hkeeps hheld.held).1).told c), List.forall_mem_nil _⟩

/-- A new buffer node without a buffer, which is not drawn. -/
theorem create_undrawn {content : Content} (hzero : content.alpha = 0)
    (hs : s.edit p (Forest.insert (Node.init (some content)) .nil) = some s') : ∃ old new, Tells s s' old new := by
  obtain ⟨hgrows, hkeeps, c, above, under, hat, hparts⟩ := insert_spec hs
  have hundrawn : ∀ l ∈ item (Node.init (some content)) .nil c, ¬ l.Drawn := by
    intro l hl hdrawn
    rw [item_leaf (n := Node.init (some content)) rfl, List.mem_singleton] at hl
    subst hl
    exact hdrawn.2 hzero
  refine ⟨[], item (Node.init (some content)) .nil c, ⟨hgrows,
    ⟨above, under, above, under, by rw [hparts, List.append_nil], hat.leaves_eq, rfl⟩, List.forall_mem_nil _,
    fun l hl hdrawn => absurd hdrawn (hundrawn l hl)⟩, fun _ l hl hsolid => absurd hsolid.1 (hundrawn l hl),
    fun hheld => (hkeeps hheld.held).1, fun _ => (told_init _).told c, List.forall_mem_nil _⟩

/-- Destroying leaves damages what was visible of them and pushes what is drawn of them. -/
theorem destroyed_spec : ∀ (f : Forest) (c : Ctx), ∀ l ∈ f.leaves c,
    (l.lastEnabled = true → l.visibleRegion ⊆ (f.destroyed c).1) ∧ (l.Drawn → l.box ⊆ (f.destroyed c).2)
  | .nil, _, _, hl => by cases hl
  | .node n children below, c, l, hl => by
      rw [leaves_node, List.mem_append] at hl
      rw [Forest.destroyed]
      dsimp only
      rcases hl with hl | hl
      · suffices h : (l.lastEnabled = true → l.visibleRegion ⊆ (destroyed n c (children.destroyed (c.enter n))).1) ∧
            (l.Drawn → l.box ⊆ (destroyed n c (children.destroyed (c.enter n))).2) from
          ⟨fun hlast => (h.1 hlast).trans Finset.subset_union_left, fun hd => (h.2 hd).trans Finset.subset_union_left⟩
        cases hn : n.content with
        | none =>
          rw [item_tree hn] at hl
          simp only [destroyed, hn]
          exact destroyed_spec children _ l hl
        | some content =>
          rw [item_leaf hn, List.mem_singleton] at hl
          subst hl
          simp only [destroyed, hn]
          refine ⟨fun hlast => ?_, fun hdrawn => ?_⟩
          · rw [if_pos (show n.lastEnabled = true from hlast)]
            exact subset_rfl
          · rw [if_pos (show (c.enabled && n.enabled) = true from hdrawn.1)]
            exact subset_rfl
      · obtain ⟨hlost, hbox⟩ := destroyed_spec below c l hl
        exact ⟨fun hlast => (hlost hlast).trans Finset.subset_union_right,
          fun hd => (hbox hd).trans Finset.subset_union_right⟩

theorem nodeDestroy_changes (hs : s.nodeDestroy p = some s') : ∃ old new, Tells s s' old new := by
  rw [Scene.nodeDestroy] at hs
  split at hs
  · cases hs
  next hp =>
    rw [Option.bind_eq_bind, Option.bind_eq_some_iff] at hs
    obtain ⟨⟨c, n, children⟩, hfind, hs⟩ := hs
    dsimp only at hs
    obtain ⟨above, under, hat⟩ := Scene.find_at hp hfind
    obtain ⟨hgrows, hremove, hpushed, hdamage⟩ := Scene.edit_spec hs
    have hleft := Spot.remove hat hremove
    -- the node by itself, without what is below it in the list
    have hgone (l : Leaf) (hl : l ∈ item n children c) :
        (l.lastEnabled = true → l.visibleRegion ⊆ (destroyed n c (children.destroyed (c.enter n))).1) ∧
          (l.Drawn → l.box ⊆ (destroyed n c (children.destroyed (c.enter n))).2) := by
      have h := destroyed_spec (.node n children .nil) c l (by rwa [leaves_node, Forest.leaves, List.append_nil])
      rw [Forest.destroyed, Forest.destroyed] at h
      dsimp only at h
      rwa [Finset.union_empty, Finset.union_empty] at h
    refine ⟨item n children c, [], ⟨⟨hgrows.root, hgrows.outputs, hgrows.invisible, ?_, ?_⟩,
      ⟨above, under, above, under, hat.leaves_eq, ?_, rfl⟩, fun l hl hdrawn => ?_, List.forall_mem_nil _⟩, fun _ => List.forall_mem_nil _,
      fun hheld => ?_, fun _ => List.forall_mem_nil _, fun l hl hlast => Or.inl ?_⟩
    · exact Finset.subset_union_left.trans hgrows.pushed
    · exact Finset.subset_union_left.trans hgrows.damage
    · rw [List.append_nil, ← hleft, Scene.leaves, hgrows.ctx]
      rfl
    · rw [hpushed]
      exact ((hgone l hl).2 hdrawn).trans Finset.subset_union_right
    · refine (edit_keeps (b := s.ctx) hremove (fun _ g g' _ hg => ?_) hheld.held).1
      cases g with
      | nil => cases hg
      | node m children below =>
        cases hg
        exact .remove m children _
    · rw [hdamage]
      exact ((hgone l hl).1 hlast).trans Finset.subset_union_right

/-! ### Leaves -/

variable {content content' : Content} {s₁ : Scene}

theorem findLeaf_at (h : s.findLeaf p = some (n, content)) :
    n.content = some content ∧ ∃ c children above under, s.At p c n children above under := by
  rw [Scene.findLeaf, Option.bind_eq_bind, Option.bind_eq_some_iff] at h
  obtain ⟨⟨c, m, children⟩, hfind, h⟩ := h
  rw [Option.bind_eq_bind, Option.bind_eq_some_iff] at h
  obtain ⟨d, hd, h⟩ := h
  split at h
  · cases h
  next hp =>
    simp only [Option.some.injEq, Prod.mk.injEq] at h
    obtain ⟨rfl, rfl⟩ := h
    exact ⟨hd, c, children, Scene.find_at hp hfind⟩

/-- The bounding box of a leaf is its box. -/
theorem leaf_box (hn : n.content = some content) {x : Point} (hx : x ∈ (c.leaf n content).box) :
    x ∈ translate (boundingBox n children.extents).region (c.x + n.x) (c.y + n.y) := by
  rw [Leaf.mem_box] at hx
  rw [mem_translate, boundingBox, hn, Extents.mem_region]
  simp only [Ctx.leaf] at hx ⊢
  omega

/-- A leaf that is written to, as large as before or larger, and drawn if it was. -/
structure Enlarges (n n' : Node) (content content' : Content) : Prop where
  old : n.content = some content
  new : n'.content = some content'
  enabled : n'.enabled = n.enabled
  x : n'.x = n.x
  y : n'.y = n.y
  damageType : n'.damageType = n.damageType
  lastEnabled : n'.lastEnabled = n.lastEnabled
  visibleRegion : n'.visibleRegion = n.visibleRegion
  width : content.size.1 ≤ content'.size.1
  height : content.size.2 ≤ content'.size.2
  alpha : content.alpha ≠ 0 → content'.alpha ≠ 0

namespace Enlarges

theorem like (h : Enlarges n n' content content') : Like n n' where
  tree := by
    rw [h.old, h.new]
    exact iff_of_false (Option.some_ne_none _) (Option.some_ne_none _)
  damageType := by
    rw [h.damageType]
    exact id
  lastEnabled := h.lastEnabled
  visibleRegion := h.visibleRegion

theorem drawn (h : Enlarges n n' content content') (hdrawn : (c.leaf n content).Drawn) :
    (c.leaf n' content').Drawn := by
  refine ⟨?_, h.alpha hdrawn.2⟩
  show (c.enabled && n'.enabled) = true
  rw [h.enabled]
  exact hdrawn.1

theorem solid (h : Enlarges n n' content content') (hsolid : (c.leaf n content).Solid) : (c.leaf n' content').Solid :=
  ⟨h.drawn hsolid.1, hsolid.2.1.trans_le h.width, hsolid.2.2.trans_le h.height⟩

theorem box (h : Enlarges n n' content content') : (c.leaf n content).box ⊆ (c.leaf n' content').box := by
  intro q hq
  have hwidth := h.width
  have hheight := h.height
  rw [Leaf.mem_box] at hq ⊢
  simp only [Ctx.leaf, h.x, h.y] at hq ⊢
  omega

theorem keeps (h : Enlarges n n' content content') (below : Forest) :
    Keeps (.node n children below) (.node n' children below) := by
  refine Keeps.node fun c hfine l hl => ?_
  rw [item_leaf h.new, List.mem_singleton] at hl
  subst hl
  have hold := hfine (c.leaf n content) (by rw [item_leaf h.old]; exact List.mem_singleton_self _)
  intro hshown
  simp only [Leaf.Shown, Ctx.leaf, h.lastEnabled, h.visibleRegion] at hshown
  refine (hold hshown).imp (fun hharmful => ?_) h.solid
  simpa [Ctx.leaf, h.damageType] using hharmful

/-- Writing to a leaf before it is pushed. -/
theorem update_push {f : Node → Node} (h : Enlarges n (f n) content content') (htype : type.harmful = true)
    (hat : s.At p c n children above under) (hs₁ : s.update f p = some s₁)
    (hs : s₁.nodePushDamage p type = some s') : ∃ old new, Tells s s' old new := by
  rw [hat.update_eq] at hs₁
  obtain ⟨hgrows, hat₁⟩ := hat.update hs₁
  obtain ⟨n₂, h₂⟩ := nodePushDamage_spec hat₁ hs
  have hkeeps := hat.keeps hs₁ h.keeps
  refine ⟨item n children c, item n₂ children c, ⟨hgrows.trans h₂.grows,
    ⟨above, under, above, under, hat.leaves_eq, h₂.spot.leaves_eq, rfl⟩, fun l hl hdrawn => ?_, h₂.newBoxes htype⟩,
    fun _ l hl hsolid => Or.inl (h₂.fresh htype l hl hsolid), fun hheld => (h₂.keeps (hkeeps hheld.held).1).1,
    fun hheld => (h₂.told hat₁ htype (hkeeps hheld.held).1).told c, fun l hl _ => Or.inr ?_⟩
  · rw [item_leaf h.old, List.mem_singleton] at hl
    subst hl
    exact h.box.trans (h₂.oldBoxes htype _ (by rw [item_leaf h.new]; exact List.mem_singleton_self _) (h.drawn hdrawn))
  · rw [(h.like.trans h₂.like).last children c c]
    exact List.mem_map_of_mem hl

/-- Writing to a leaf after it is pushed, when it does not get larger: `h` is the way back. -/
theorem push_update {f : Node → Node} (hlike : ∀ m, m.content = n.content → Enlarges (f m) m content' content)
    (htype : type.harmful = true) (hat : s.At p c n children above under) (hs₁ : s.nodePushDamage p type = some s₁)
    (hs : s₁.update f p = some s') : ∃ old new, Tells s s' old new := by
  obtain ⟨n₁, h₁⟩ := nodePushDamage_spec hat hs₁
  rw [h₁.spot.update_eq] at hs
  obtain ⟨hgrows, hat₂⟩ := h₁.spot.update hs
  have h := hlike n₁ h₁.content
  have hlike₁ : Like n₁ (f n₁) :=
    ⟨h.like.tree.symm, by rw [h.damageType]; exact id, h.lastEnabled.symm, h.visibleRegion.symm⟩
  have hmem : c.leaf n₁ content ∈ item n₁ children c := by
    rw [item_leaf h.new]
    exact List.mem_singleton_self _
  refine ⟨item n children c, item (f n₁) children c, ⟨h₁.grows.trans hgrows,
    ⟨above, under, above, under, hat.leaves_eq, hat₂.leaves_eq, rfl⟩, fun l hl hdrawn => ?_, fun l hl hdrawn => ?_⟩,
    fun _ l hl hsolid => Or.inl ?_, fun hheld => ?_, fun hheld => ?_, fun l hl _ => Or.inr ?_⟩
  · exact (h₁.oldBoxes htype l hl hdrawn).trans hgrows.pushed
  · rw [item_leaf h.old, List.mem_singleton] at hl
    subst hl
    exact h.box.trans ((h₁.newBoxes htype _ hmem (h.drawn hdrawn)).trans hgrows.pushed)
  · rw [item_leaf h.old, List.mem_singleton] at hl
    subst hl
    have hharmful := h₁.fresh htype _ hmem (h.solid hsolid)
    simpa [Ctx.leaf, h.damageType] using hharmful
  · exact (h₁.spot.keeps hs (fun below => hlike₁.keeps (h₁.told hat htype hheld.held) below)
      (h₁.keeps hheld.held).1).1
  · exact (hlike₁.told (h₁.told hat htype hheld.held)).told c
  · rw [(h₁.like.trans hlike₁).last children c c]
    exact List.mem_map_of_mem hl

end Enlarges

end FlakeWm.Damage
