import FlakeWm.Damage.Changes

/-! What each event does to the leaves (`scene/scene.c`, `scene/rect.c`, `scene/buffer.c`).

    All operations but two push what they change. `ky_scene_rect_set_color` and `ky_scene_buffer_set_opacity` call
    their change harmless, and where nothing else has happened to the leaf since the last walk, only its visible region
    is damaged. -/

namespace FlakeWm.Damage

open Forest

variable {s s' s₁ : Scene} {p : Path} {c : Ctx} {n : Node} {children : Forest} {above under : List Leaf}
  {content content' : Content} {l : Leaf}

/-- The leaf with another content, after a harmless push. -/
def Leaf.recolored (l : Leaf) (content : Content) : Leaf :=
  { l with content := content, damageType := l.damageType.or .HARMLESS }

/-- A change of the colour of a leaf that damages its visible region only. -/
structure Recolors (s s' : Scene) (l : Leaf) (content : Content) : Prop where
  grows : Grows s s'
  parts : ∃ above under, s.leaves = above ++ l :: under ∧ s'.leaves = above ++ l.recolored content :: under
  lastEnabled : l.lastEnabled = true
  quiet : l.damageType.harmful = false
  damaged : l.box ∩ l.visibleRegion ⊆ s'.collectedDamage
  held : (l.content.alpha ≠ 0 → content.alpha ≠ 0) → s.Held → s'.children.Held

/-- Flags that are not harmful, of a leaf that is marked as harmless. -/
theorem eq_harmless {t u : DamageType} (ht : t.harmful = false) (hu : u.harmful = false) (hmark : t.harmless = true) :
    t.or u = .HARMLESS := by
  simp [DamageType.or, DamageType.HARMLESS, ht, hu, hmark]

/-- What changing the colour of a leaf does: the shortcut is taken, or its box is pushed. -/
theorem recolor (hat : s.At p c n children above under) (hn : n.content = some content)
    (hsize : content'.size = content.size) (hs₁ : s.setContent p content' = some s₁)
    (hs : s₁.nodePushDamage p .HARMLESS = some s') :
    (∃ old new, Changes s s' old new ∧
      ((n.lastEnabled = true → content.alpha ≠ 0 → content'.alpha ≠ 0) → Tells s s' old new)) ∨
      Recolors s s' (c.leaf n content) content' := by
  rw [Scene.setContent, hat.update_eq] at hs₁
  obtain ⟨hgrows, hat₁⟩ := hat.update hs₁
  obtain ⟨n₂, h⟩ := nodePushDamage_spec hat₁ hs
  have hn₂ : n₂.content = some content' := h.content
  have hlike : Like n { n with content := some content' } :=
    ⟨by simp [hn], id, rfl, rfl⟩
  have hkeeps (halpha : n.lastEnabled = true → content.alpha ≠ 0 → content'.alpha ≠ 0) :
      Keeps s.children s₁.children := by
    refine hat.keeps hs₁ fun below => Keeps.node fun c hfine m hm => ?_
    rw [item_leaf (n := { n with content := some content' }) rfl, List.mem_singleton] at hm
    subst hm
    intro hshown
    refine (hfine (c.leaf n content) (by rw [item_leaf hn]; exact List.mem_singleton_self _) hshown).imp id ?_
    rintro ⟨hdrawn, hwidth, hheight⟩
    exact ⟨⟨hdrawn.1, halpha hshown.1 hdrawn.2⟩, hsize ▸ hwidth, hsize ▸ hheight⟩
  have hbox : (c.leaf { n with content := some content' } content').box = (c.leaf n content).box := by
    simp only [Leaf.box, boxRegion, Ctx.leaf, hsize]
  -- what is left when the node is enabled and not empty
  have hmarked (hon : n.enabled = true) {x : Point} (hx : x ∈ (c.leaf n content).box) :
      n₂ = { n with content := some content' }.mark .HARMLESS := by
    rcases h.marked with ⟨-, -, hoff | hempty⟩ | ⟨hmark, -⟩
    · exact absurd (hoff.symm.trans hon) Bool.false_ne_true
    · have hmem : x ∈ translate (boundingBox { n with content := some content' } children.extents).region
          (c.x + n.x) (c.y + n.y) := leaf_box rfl (hbox ▸ hx)
      rw [hempty, mem_translate] at hmem
      cases hmem
    · exact hmark
  by_cases hshort : c.enabled = true ∧ n.enabled = true ∧ (c.leaf n content).box.Nonempty ∧
      Shortcut s₁ .HARMLESS c { n with content := some content' }
  · obtain ⟨habove, hon, ⟨x, hx⟩, hshortcut⟩ := hshort
    refine Or.inr ⟨hgrows.trans h.grows, ⟨above, under, ?_, ?_⟩, hshortcut.2, ?_, fun y hy => ?_, fun halpha hheld => ?_⟩
    · rw [Scene.leaves, hat.leaves_eq, item_leaf hn, List.append_assoc]
      rfl
    · rw [Scene.leaves, h.spot.leaves_eq, item_leaf hn₂, List.append_assoc, hmarked hon hx]
      simp [Ctx.leaf, Leaf.recolored, Node.mark, DamageType.or_assoc]
    · have hflags := congrArg DamageType.harmful hshortcut.1
      simp only [DamageType.or, DamageType.HARMLESS, Node.mark, Bool.or_false, Bool.or_eq_false_iff] at hflags
      simp [Ctx.leaf, DamageType.or, hflags.1]
    · obtain ⟨hy, hvisible⟩ := Finset.mem_inter.1 hy
      exact (h.box habove hon y (leaf_box (n := { n with content := some content' }) rfl (hbox ▸ hy))).2 hshortcut
        hvisible
    · exact (h.keeps (hkeeps (fun _ => halpha) hheld.held).1).1
  · have hfull {x : Point} (henabled : (c.enabled && n.enabled) = true) (hx : x ∈ (c.leaf n content).box) :
        ¬ Shortcut s₁ .HARMLESS c { n with content := some content' } := by
      rw [Bool.and_eq_true] at henabled
      exact fun h => hshort ⟨henabled.1, henabled.2, ⟨x, hx⟩, h⟩
    have hpushed (henabled : (c.enabled && n.enabled) = true) : (c.leaf n content).box ⊆ s'.pushedDamage := by
      intro x hx
      rw [Bool.and_eq_true] at henabled
      refine (h.box henabled.1 henabled.2 x (leaf_box (n := { n with content := some content' }) rfl (hbox ▸ hx))).1 ?_
      exact hfull (Bool.and_eq_true_iff.2 henabled) hx
    have hflagged (hheld : s.Held) (henabled : (c.enabled && n.enabled) = true)
        (hnonempty : (c.leaf n content).box.Nonempty) :
        (c.leaf n₂ content').damageType.harmful = true ∨ n.lastEnabled = false := by
      obtain ⟨x, hx⟩ := hnonempty
      by_contra hnot
      rw [not_or, Bool.not_eq_true, Bool.not_eq_false] at hnot
      have hroot : s₁.root.damageType.harmful = false := by
        rw [hgrows.root, Bool.eq_false_iff]
        intro hroot
        have hmem : c.leaf n content ∈ s.leaves := by
          rw [Scene.leaves, hat.leaves_eq, item_leaf hn]
          simp
        exact Bool.false_ne_true ((hheld.clean hroot _ hmem).symm.trans hnot.2)
      refine hfull henabled hx ⟨?_, hnot.2⟩
      rw [hmarked (Bool.and_eq_true_iff.1 henabled).2 hx] at hnot
      exact eq_harmless hnot.1 hroot (by simp [DamageType.or, DamageType.HARMLESS, Node.mark])
    have hnew {m : Leaf} (hm : m ∈ item n₂ children c) : m = c.leaf n₂ content' := by
      rwa [item_leaf hn₂, List.mem_singleton] at hm
    have hsame : n₂.enabled = n.enabled ∧ n₂.x = n.x ∧ n₂.y = n.y ∧ n₂.lastEnabled = n.lastEnabled ∧
        n₂.visibleRegion = n.visibleRegion := by
      rcases h.marked with ⟨rfl, -⟩ | ⟨rfl, -⟩ <;> exact ⟨rfl, rfl, rfl, rfl, rfl⟩
    have hbox₂ : (c.leaf n₂ content').box = (c.leaf n content).box := by
      simp only [Leaf.box, boxRegion, Ctx.leaf, hsize, hsame.2.1, hsame.2.2.1]
    have henabled₂ : (c.leaf n₂ content').enabled = (c.enabled && n.enabled) := congrArg (c.enabled && ·) hsame.1
    have hchanges : Changes s s' (item n children c) (item n₂ children c) := by
      refine ⟨hgrows.trans h.grows, ⟨above, under, above, under, hat.leaves_eq, h.spot.leaves_eq, rfl⟩,
        fun m hm hdrawn => ?_, fun m hm hdrawn => ?_⟩
      · rw [item_leaf hn, List.mem_singleton] at hm
        subst hm
        exact hpushed hdrawn.1
      · rw [hnew hm] at hdrawn ⊢
        rw [hbox₂]
        exact hpushed (henabled₂ ▸ hdrawn.1)
    refine Or.inl ⟨_, _, hchanges, fun halpha => ⟨hchanges, fun hheld m hm hsolid => ?_, fun hheld => ?_,
      fun hheld m hm hshown => ?_, fun m hm _ => Or.inr ?_⟩⟩
    · rw [hnew hm] at hsolid ⊢
      have hnonempty := Leaf.box_nonempty.2 hsolid.2
      rw [hbox₂] at hnonempty
      exact (hflagged hheld (henabled₂ ▸ hsolid.1.1) hnonempty).imp id fun hlast => hsame.2.2.2.1.trans hlast
    · exact (h.keeps (hkeeps halpha hheld.held).1).1
    · rw [hnew hm] at hshown ⊢
      have hmem : c.leaf n content ∈ s.leaves := by
        rw [Scene.leaves, hat.leaves_eq, item_leaf hn]
        simp
      simp only [Leaf.Shown, Ctx.leaf, hsame.2.2.2.1, hsame.2.2.2.2] at hshown
      rcases hheld.fine _ hmem hshown with hharmful | hsolid
      · have hdamageType : n.damageType.harmful = true → n₂.damageType.harmful = true := (hlike.trans h.like).damageType
        simp only [Ctx.leaf, DamageType.or, Bool.or_eq_true] at hharmful ⊢
        exact hharmful.imp id hdamageType
      · refine (hflagged hheld hsolid.1.1 (Leaf.box_nonempty.2 hsolid.2)).resolve_right fun hlast => ?_
        exact Bool.false_ne_true (hlast.symm.trans hshown.1)
    · rw [(hlike.trans h.like).last children c c]
      exact List.mem_map_of_mem hm

/-! ### Events -/

/-- The leaf whose colour or opacity an event changes, with its content before and after. -/
def recolors (s : Scene) : Event → Option (Node × Content × Content)
  | .rectSetColor p color =>
    match s.findLeaf p with
    | some (n, .rect width height old) => some (n, .rect width height old, .rect width height color)
    | _ => none
  | .bufferSetOpacity p opacity =>
    match s.findLeaf p with
    | some (n, .buffer buffer old region) => some (n, .buffer buffer old region, .buffer buffer opacity region)
    | _ => none
  | _ => none

/-- The root is neither enabled, disabled nor moved. -/
def Event.ofRoot : Event → Prop
  | .nodeSetEnabled p _ => p = []
  | .nodeSetPosition p _ _ => p = []
  | _ => False

/-- What a change of the colour or the opacity of a leaf comes to. -/
structure Recolored (s s' : Scene) (n : Node) (content content' : Content) : Prop where
  size : content'.size = content.size
  opaqueRegion : (content.alpha = 1 → content'.alpha = 1) → content.opaqueRegion ⊆ content'.opaqueRegion
  outcome : (∃ old new, Changes s s' old new ∧
      ((n.lastEnabled = true → content.alpha ≠ 0 → content'.alpha ≠ 0) → Tells s s' old new)) ∨
    ∃ c : Ctx, Recolors s s' (c.leaf n content) content'

theorem rectSetColor_outcome {color : Color} (hs : s.rectSetColor p color = some s') :
    (∃ old new, Tells s s' old new) ∨ ∃ n content content',
      recolors s (.rectSetColor p color) = some (n, content, content') ∧ Recolored s s' n content content' := by
  rw [Scene.rectSetColor, Option.bind_eq_bind, Option.bind_eq_some_iff] at hs
  obtain ⟨⟨n, content⟩, hfind, hs⟩ := hs
  cases content with
  | buffer buffer opacity region => cases hs
  | rect width height old =>
    dsimp only at hs
    split at hs
    · cases hs
      exact Or.inl ⟨[], [], .refl s⟩
    · rw [Option.bind_eq_bind, Option.bind_eq_some_iff] at hs
      obtain ⟨s₁, hs₁, hs⟩ := hs
      obtain ⟨hn, c, children, above, under, hat⟩ := findLeaf_at hfind
      have hharmless : Scene.colorHarmful color color = false := by simp [Scene.colorHarmful]
      rw [hharmless, if_neg Bool.false_ne_true] at hs
      have hrecolors : recolors s (.rectSetColor p color) =
          some (n, .rect width height old, .rect width height color) := by
        rw [recolors, hfind]
      refine Or.inr ⟨n, _, _, hrecolors, rfl, fun hone => ?_, ?_⟩
      · by_cases hold : old.a = 1
        · have hnew : color.a = 1 := hone hold
          rw [Content.opaqueRegion, Content.opaqueRegion, if_pos hold, if_pos hnew]
        · rw [Content.opaqueRegion, if_neg hold]
          exact Finset.empty_subset _
      · have hsize : (Content.rect width height color).size = (Content.rect width height old).size := rfl
        exact (recolor hat hn hsize hs₁ hs).imp id fun h => ⟨c, h⟩

theorem bufferSetOpacity_outcome {opacity : ℚ} (hs : s.bufferSetOpacity p opacity = some s') :
    (∃ old new, Tells s s' old new) ∨ ∃ n content content',
      recolors s (.bufferSetOpacity p opacity) = some (n, content, content') ∧ Recolored s s' n content content' := by
  rw [Scene.bufferSetOpacity, Option.bind_eq_bind, Option.bind_eq_some_iff] at hs
  obtain ⟨⟨n, content⟩, hfind, hs⟩ := hs
  cases content with
  | rect width height color => cases hs
  | buffer buffer old region =>
    dsimp only at hs
    split at hs
    · cases hs
      exact Or.inl ⟨[], [], .refl s⟩
    · rw [Option.bind_eq_bind, Option.bind_eq_some_iff] at hs
      obtain ⟨s₁, hs₁, hs⟩ := hs
      obtain ⟨hn, c, children, above, under, hat⟩ := findLeaf_at hfind
      have hsize : (Content.buffer buffer opacity region).size = (Content.buffer buffer old region).size := by
        cases buffer <;> rfl
      split at hs
      next hharmful =>
        -- both before and after the change the opacity is the new one
        rw [Scene.opacityHarmful, decide_eq_true_eq, or_self] at hharmful
        subst hharmful
        refine Or.inl (Enlarges.update_push ⟨hn, rfl, rfl, rfl, rfl, rfl, rfl, rfl, ?_, ?_, ?_⟩ rfl hat hs₁ hs)
        · rw [hsize]
        · rw [hsize]
        · intro halpha
          cases buffer with
          | none => exact absurd rfl halpha
          | some b => exact show (1 : ℚ) ≠ 0 by decide
      · have hrecolors : recolors s (.bufferSetOpacity p opacity) =
            some (n, .buffer buffer old region, .buffer buffer opacity region) := by
          rw [recolors, hfind]
        refine Or.inr ⟨n, _, _, hrecolors, hsize, fun hone => ?_, ?_⟩
        · cases buffer with
          | none => exact subset_rfl
          | some b =>
            by_cases hold : old = 1
            · have hnew : opacity = 1 := hone hold
              rw [Content.opaqueRegion, Content.opaqueRegion, if_neg (not_not.2 hold), if_neg (not_not.2 hnew)]
            · rw [Content.opaqueRegion, if_pos hold]
              exact Finset.empty_subset _
        · exact (recolor hat hn hsize hs₁ hs).imp id fun h => ⟨c, h⟩

theorem rectSetSize_tells {width height : ℤ} (hs : s.rectSetSize p width height = some s') :
    ∃ old new, Tells s s' old new := by
  rw [Scene.rectSetSize, Option.bind_eq_bind, Option.bind_eq_some_iff] at hs
  obtain ⟨⟨n, content⟩, hfind, hs⟩ := hs
  cases content with
  | buffer buffer opacity region => cases hs
  | rect w h color =>
    dsimp only at hs
    split at hs
    · cases hs
      exact ⟨[], [], .refl s⟩
    next hdiffers =>
      obtain ⟨hn, c, children, above, under, hat⟩ := findLeaf_at hfind
      by_cases hshrinks : w > width ∨ h > height
      · rw [if_pos hshrinks] at hs
        simp only [Option.bind_eq_bind, Option.bind_eq_some_iff] at hs
        obtain ⟨s₁, hs₁, s₂, hs₂, hs⟩ := hs
        split at hs
        · refine update_between rfl rfl (fun m hm => ?_) hat hs₁ hs₂ hs
          exact ⟨by simp [hm, hn], id, rfl, rfl⟩
        next hsmaller =>
          cases hs
          rw [not_or, not_lt, not_lt] at hsmaller
          have hback (m : Node) (hm : m.content = n.content) : Enlarges { m with content := some (.rect width height color) } m
              (.rect width height color) (.rect w h color) :=
            ⟨rfl, hm.trans hn, rfl, rfl, rfl, rfl, rfl, rfl, hsmaller.1, hsmaller.2, id⟩
          exact Enlarges.push_update hback rfl hat hs₁ hs₂
      · rw [if_neg hshrinks] at hs
        simp only [Option.bind_eq_bind, Option.bind_some, Option.bind_eq_some_iff] at hs
        obtain ⟨s₁, hs₁, hs⟩ := hs
        rw [not_or, not_lt, not_lt] at hshrinks
        split at hs
        · have hlarger : Enlarges n { n with content := some (.rect width height color) } (.rect w h color)
              (.rect width height color) :=
            ⟨hn, rfl, rfl, rfl, rfl, rfl, rfl, rfl, hshrinks.1, hshrinks.2, id⟩
          exact hlarger.update_push rfl hat hs₁ hs
        next hsmaller =>
          rw [not_or, not_lt, not_lt] at hsmaller
          exact absurd ⟨le_antisymm hshrinks.1 hsmaller.1, le_antisymm hshrinks.2 hsmaller.2⟩ hdiffers

/-- Writing what neither the box nor the transparency of a leaf depends on. -/
theorem write_tells {f : Node → Node} {type : DamageType} (hfind : s.findLeaf p = some (n, content))
    (h : Enlarges n (f n) content content') (htype : type.harmful = true)
    (hs : ((s.update f p).bind fun s => s.nodePushDamage p type) = some s') : ∃ old new, Tells s s' old new := by
  rw [Option.bind_eq_some_iff] at hs
  obtain ⟨s₁, hs₁, hs⟩ := hs
  obtain ⟨-, c, children, above, under, hat⟩ := findLeaf_at hfind
  exact h.update_push htype hat hs₁ hs

/-- Moving a node that is not the root. -/
theorem pushed_move {q : Path} (hp : p ≠ []) (hs : s.pushAround p q (·.moveNode p q) = some s') :
    ∃ old new, Tells s s' old new := by
  have hfound : ∃ c n children, s.find p = some (c, n, children) := by
    rw [Scene.pushAround, Scene.nodePushDamage] at hs
    cases hfind : s.find p with
    | none =>
      rw [hfind] at hs
      cases hs
    | some found => exact ⟨found.1, found.2.1, found.2.2, rfl⟩
  obtain ⟨c, n, children, hfind⟩ := hfound
  obtain ⟨above, under, hat⟩ := Scene.find_at hp hfind
  exact pushAround_move hat hs

/-- Every operation tells what it changes, except for a change of a colour or an opacity. -/
theorem step_outcome {e : Event} (he : e ≠ .collectDamage) (hroot : ¬ e.ofRoot) (hs : step s e = some s') :
    (∃ old new, Tells s s' old new) ∨ ∃ n content content',
      recolors s e = some (n, content, content') ∧ Recolored s s' n content content' := by
  cases e with
  | treeCreate parent => exact Or.inl (treeCreate_changes hs)
  | rectCreate parent width height color =>
    rw [step, Scene.rectCreate, Option.bind_eq_bind, Option.bind_eq_some_iff] at hs
    obtain ⟨s₁, hs₁, hs⟩ := hs
    exact Or.inl (create_changes hs₁ hs)
  | bufferCreate parent buffer =>
    rw [step, Scene.bufferCreate, Option.bind_eq_bind, Option.bind_eq_some_iff] at hs
    obtain ⟨s₁, hs₁, hs⟩ := hs
    cases buffer with
    | none =>
      cases hs
      exact Or.inl (create_undrawn rfl hs₁)
    | some b => exact Or.inl (create_changes hs₁ hs)
  | nodeDestroy p => exact Or.inl (nodeDestroy_changes hs)
  | nodeSetEnabled p enabled =>
    rw [step, Scene.nodeSetEnabled, Option.bind_eq_bind, Option.bind_eq_some_iff] at hs
    obtain ⟨⟨c, n, children⟩, hfind, hs⟩ := hs
    dsimp only at hs
    split at hs
    · cases hs
      exact Or.inl ⟨[], [], .refl s⟩
    · obtain ⟨above, under, hat⟩ := Scene.find_at hroot hfind
      simp only [Scene.pushAround, Option.bind_eq_bind, Option.bind_eq_some_iff] at hs
      obtain ⟨s₁, hs₁, s₂, hs₂, hs⟩ := hs
      refine Or.inl (update_between (f := fun m => { m with enabled := enabled }) rfl rfl (fun m _ => ?_) hat hs₁ hs₂ hs)
      exact ⟨Iff.rfl, id, rfl, rfl⟩
  | nodeSetPosition p x y =>
    rw [step, Scene.nodeSetPosition, Option.bind_eq_bind, Option.bind_eq_some_iff] at hs
    obtain ⟨⟨c, n, children⟩, hfind, hs⟩ := hs
    dsimp only at hs
    split at hs
    · cases hs
      exact Or.inl ⟨[], [], .refl s⟩
    · obtain ⟨above, under, hat⟩ := Scene.find_at hroot hfind
      simp only [Scene.pushAround, Option.bind_eq_bind, Option.bind_eq_some_iff] at hs
      obtain ⟨s₁, hs₁, s₂, hs₂, hs⟩ := hs
      refine Or.inl (update_between (f := fun m => { m with x := x, y := y }) rfl rfl (fun m _ => ?_) hat hs₁ hs₂ hs)
      exact ⟨Iff.rfl, id, rfl, rfl⟩
  | nodeReparent p newParent =>
    rw [step, Scene.nodeReparent] at hs
    split at hs
    · cases hs
    next hp =>
      split at hs
      · cases hs
        exact Or.inl ⟨[], [], .refl s⟩
      · exact Or.inl (pushed_move hp hs)
  | nodePlaceAbove parent i j =>
    rw [step, Scene.nodePlaceAbove, Option.bind_eq_bind, Option.bind_eq_some_iff] at hs
    obtain ⟨-, -, hs⟩ := hs
    split at hs
    · cases hs
    · split at hs
      · cases hs
        exact Or.inl ⟨[], [], .refl s⟩
      · exact Or.inl (pushed_move (List.append_ne_nil_of_right_ne_nil _ (List.cons_ne_nil _ _)) hs)
  | nodePlaceBelow parent i j =>
    rw [step, Scene.nodePlaceBelow, Option.bind_eq_bind, Option.bind_eq_some_iff] at hs
    obtain ⟨-, -, hs⟩ := hs
    split at hs
    · cases hs
    · split at hs
      · cases hs
        exact Or.inl ⟨[], [], .refl s⟩
      · exact Or.inl (pushed_move (List.append_ne_nil_of_right_ne_nil _ (List.cons_ne_nil _ _)) hs)
  | nodeSetClipRegion p region =>
    rw [step, Scene.nodeSetClipRegion, Option.bind_eq_bind, Option.bind_eq_some_iff] at hs
    obtain ⟨⟨n, content⟩, hfind, hs⟩ := hs
    dsimp only at hs
    split at hs
    · cases hs
      exact Or.inl ⟨[], [], .refl s⟩
    · have hn := (findLeaf_at hfind).1
      exact Or.inl (write_tells hfind ⟨hn, hn, rfl, rfl, rfl, rfl, rfl, rfl, le_rfl, le_rfl, id⟩ rfl hs)
  | nodeSetRadius p radius =>
    rw [step, Scene.nodeSetRadius, Option.bind_eq_bind, Option.bind_eq_some_iff] at hs
    obtain ⟨⟨n, content⟩, hfind, hs⟩ := hs
    dsimp only at hs
    split at hs
    · cases hs
      exact Or.inl ⟨[], [], .refl s⟩
    · have hn := (findLeaf_at hfind).1
      exact Or.inl (write_tells hfind ⟨hn, hn, rfl, rfl, rfl, rfl, rfl, rfl, le_rfl, le_rfl, id⟩ rfl hs)
  | rectSetSize p width height => exact Or.inl (rectSetSize_tells hs)
  | rectSetColor p color => exact rectSetColor_outcome hs
  | bufferSetOpacity p opacity => exact bufferSetOpacity_outcome hs
  | bufferSetOpaqueRegion p region =>
    rw [step, Scene.bufferSetOpaqueRegion, Option.bind_eq_bind, Option.bind_eq_some_iff] at hs
    obtain ⟨⟨n, content⟩, hfind, hs⟩ := hs
    cases content with
    | rect width height color => cases hs
    | buffer buffer opacity old =>
      dsimp only at hs
      split at hs
      · cases hs
        exact Or.inl ⟨[], [], .refl s⟩
      · have hn := (findLeaf_at hfind).1
        have hsize : (Content.buffer buffer opacity region).size = (Content.buffer buffer opacity old).size := by
          cases buffer <;> rfl
        have halpha : (Content.buffer buffer opacity region).alpha = (Content.buffer buffer opacity old).alpha := by
          cases buffer <;> rfl
        refine Or.inl (write_tells hfind ⟨hn, rfl, rfl, rfl, rfl, rfl, rfl, rfl, ?_, ?_, ?_⟩ rfl hs)
        · rw [hsize]
        · rw [hsize]
        · rw [halpha]
          exact id
  | collectDamage => exact absurd rfl he

end FlakeWm.Damage
