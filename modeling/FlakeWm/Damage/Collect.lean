import FlakeWm.Damage.Leaves

/-! What `ky_scene_collect_damage` does to the leaves of a scene (`scene/rect.c`, `scene/buffer.c`).

    `Collected` says what becomes of one leaf, which is passed over unless its box touches the affected region, and
    `CollectedAll` what becomes of the leaves of a forest in the order in which the walk meets them, from top to
    bottom. The walk over the tree itself is in `collectDamage_spec` only. -/

namespace FlakeWm.Damage

variable {affected : Region} {l l' : Leaf} {acc acc' acc'' : Acc} {q : Point}

namespace Leaf

/-- What a leaf paints, and where. -/
def look (l : Leaf) : Content × Region × Radius × ℤ × ℤ := (l.content, l.clipRegion, l.radius, l.x, l.y)

/-- The walk does not pass over the leaf. -/
def Affected (affected : Region) (l : Leaf) : Prop :=
  (l.enabled = true ∨ l.lastEnabled = true) ∧
    ¬ (0 < l.content.size.1 ∧ 0 < l.content.size.2 ∧ affected ∩ l.box = ∅)

instance : Decidable (l.Affected affected) := inferInstanceAs (Decidable (_ ∧ _))

theorem mem_box : q ∈ l.box ↔
    (l.x ≤ q.1 ∧ q.1 < l.x + l.content.size.1) ∧ l.y ≤ q.2 ∧ q.2 < l.y + l.content.size.2 := mem_rectRegion

theorem region_subset_box (l : Leaf) : l.region ⊆ l.box := by
  intro q hq
  rw [region, contentRegion] at hq
  split at hq
  · exact hq
  · rw [mem_translate, Finset.mem_inter, mem_rectRegion] at hq
    rw [mem_box]
    dsimp only at hq
    omega

theorem opaqueRegion_subset (c : Content) : c.opaqueRegion ⊆ rectRegion 0 0 c.size.1 c.size.2 := by
  cases c with
  | rect width height color =>
    rw [Content.opaqueRegion]
    split
    · exact subset_rfl
    · exact Finset.empty_subset _
  | buffer buffer opacity region =>
    cases buffer with
    | none => exact Finset.empty_subset _
    | some b =>
      rw [Content.opaqueRegion]
      split
      · exact Finset.empty_subset _
      · split
        · exact subset_rfl
        · exact Finset.inter_subset_right

/-- A leaf hides nothing where it paints nothing. -/
theorem solid_subset_region (l : Leaf) : l.solid ⊆ l.region := by
  intro q hq
  rw [solid, opaqueRegion, mem_translate, Finset.mem_sdiff] at hq
  rw [region, contentRegion]
  split
  next hclip =>
    rw [if_pos hclip] at hq
    have h := mem_rectRegion.1 (opaqueRegion_subset _ hq.1)
    rw [boxRegion, mem_rectRegion]
    dsimp only at h
    omega
  next hclip =>
    rw [if_neg hclip, Finset.mem_inter] at hq
    rw [mem_translate, Finset.mem_inter]
    exact ⟨hq.1.2, opaqueRegion_subset _ hq.1.1⟩

theorem solid_subset_box (l : Leaf) : l.solid ⊆ l.box := l.solid_subset_region.trans l.region_subset_box

theorem box_of_look (h : l.look = l'.look) : l.box = l'.box := by
  simp only [look, Prod.mk.injEq] at h
  rw [box, box, h.1, h.2.2.2.1, h.2.2.2.2]

theorem region_of_look (h : l.look = l'.look) : l.region = l'.region := by
  simp only [look, Prod.mk.injEq] at h
  rw [region, region, h.1, h.2.1, h.2.2.2.1, h.2.2.2.2]

theorem solid_of_look (h : l.look = l'.look) : l.solid = l'.solid := by
  simp only [look, Prod.mk.injEq] at h
  rw [solid, solid, h.1, h.2.1, h.2.2.1, h.2.2.2.1, h.2.2.2.2]

/-- A drawn leaf that has a point in the affected region is not passed over. -/
theorem affected_of_drawn (h : l.Drawn) (hbox : q ∈ l.box) (hq : q ∈ affected) : l.Affected affected := by
  refine ⟨Or.inl h.1, fun hout => ?_⟩
  have hmem := Finset.mem_inter.2 ⟨hq, hbox⟩
  rw [hout.2.2] at hmem
  cases hmem

end Leaf

/-- What is collected of one leaf. -/
structure Collected (affected : Region) (l : Leaf) (acc : Acc) (l' : Leaf) (acc' : Acc) : Prop where
  look : l'.look = l.look
  enabled : l'.enabled = l.enabled
  lastEnabled : l.Affected affected → l'.lastEnabled = l.enabled
  damageType : l.Affected affected → l'.damageType = .none
  visibleRegion : l.Affected affected →
    l'.visibleRegion = if l.Drawn then l.region \ acc.invisible else ∅
  invisible : acc'.invisible = acc.invisible ∪ if l.Affected affected ∧ l.Drawn then l.solid else ∅
  damage : acc.damage ⊆ acc'.damage
  lost : l.Affected affected → l.lastEnabled = true → l.enabled = false ∨ l.damageType.harmful = true →
    l.visibleRegion ⊆ acc'.damage
  shown : l.Affected affected → l.lastEnabled = false ∨ l.damageType ≠ .none → l'.visibleRegion ⊆ acc'.damage
  passed : ¬ l.Affected affected → l'.lastEnabled = l.lastEnabled ∧ l'.visibleRegion = l.visibleRegion ∧
    (l'.damageType.harmful = true → l.damageType.harmful = true)

namespace Collected

theorem drawn (h : Collected affected l acc l' acc') : l'.Drawn ↔ l.Drawn := by
  have hlook := h.look
  simp only [Leaf.look, Prod.mk.injEq] at hlook
  rw [Leaf.Drawn, Leaf.Drawn, h.enabled, hlook.1]

end Collected

/-- What is collected of leaves, from top to bottom. -/
inductive CollectedAll (affected : Region) : List Leaf → Acc → List Leaf → Acc → Prop
  | nil (acc : Acc) : CollectedAll affected [] acc [] acc
  | cons {l l' : Leaf} {ls ls' : List Leaf} {acc acc' acc'' : Acc} : Collected affected l acc l' acc' →
      CollectedAll affected ls acc' ls' acc'' → CollectedAll affected (l :: ls) acc (l' :: ls') acc''

namespace CollectedAll

variable {ls ls' ms ms' : List Leaf}

theorem append (h : CollectedAll affected ls acc ls' acc') (h' : CollectedAll affected ms acc' ms' acc'') :
    CollectedAll affected (ls ++ ms) acc (ls' ++ ms') acc'' := by
  induction h with
  | nil acc => exact h'
  | cons hl _ ih => exact .cons hl (ih h')

/-- What is hidden in the end is what was hidden and what the leaves hide that the walk has met. -/
theorem mem_invisible (h : CollectedAll affected ls acc ls' acc') :
    q ∈ acc'.invisible ↔ q ∈ acc.invisible ∨ ∃ l ∈ ls, l.Affected affected ∧ l.Drawn ∧ q ∈ l.solid := by
  induction h with
  | nil acc => simp
  | @cons l l' ls ls' acc acc' acc'' hl _ ih =>
    have hmem : q ∈ acc'.invisible ↔ q ∈ acc.invisible ∨ l.Affected affected ∧ l.Drawn ∧ q ∈ l.solid := by
      rw [hl.invisible, Finset.mem_union]
      split
      next htouched => simp [htouched]
      next hpassed =>
        refine or_congr Iff.rfl (iff_of_false (Finset.notMem_empty q) ?_)
        exact fun htouched => hpassed ⟨htouched.1, htouched.2.1⟩
    rw [ih, hmem, List.exists_mem_cons_iff, or_assoc]

theorem damage (h : CollectedAll affected ls acc ls' acc') : acc.damage ⊆ acc'.damage := by
  induction h with
  | nil acc => exact subset_rfl
  | cons hl _ ih => exact hl.damage.trans ih

/-- The walk comes to every leaf, with what the leaves above it hide. -/
theorem split {above below : List Leaf} (h : CollectedAll affected (above ++ l :: below) acc ls' acc'') :
    ∃ above' acc₁ l' acc₂ below', ls' = above' ++ l' :: below' ∧ CollectedAll affected above acc above' acc₁ ∧
      Collected affected l acc₁ l' acc₂ ∧ CollectedAll affected below acc₂ below' acc'' := by
  induction above generalizing acc ls' with
  | nil =>
    obtain ⟨⟩ | ⟨hl, hbelow⟩ := h
    exact ⟨[], _, _, _, _, rfl, .nil _, hl, hbelow⟩
  | cons m above ih =>
    obtain ⟨⟩ | ⟨hm, hrest⟩ := h
    obtain ⟨above', acc₁, l', acc₂, below', rfl, habove, hl, hbelow⟩ := ih hrest
    exact ⟨_ :: above', acc₁, l', acc₂, below', rfl, .cons hm habove, hl, hbelow⟩

/-- Every leaf that is left comes from one before. -/
theorem split' {above' below' : List Leaf} (h : CollectedAll affected ls acc (above' ++ l' :: below') acc'') :
    ∃ above acc₁ l acc₂ below, ls = above ++ l :: below ∧ CollectedAll affected above acc above' acc₁ ∧
      Collected affected l acc₁ l' acc₂ ∧ CollectedAll affected below acc₂ below' acc'' := by
  induction above' generalizing acc ls with
  | nil =>
    obtain ⟨⟩ | ⟨hl, hbelow⟩ := h
    exact ⟨[], _, _, _, _, rfl, .nil _, hl, hbelow⟩
  | cons m above' ih =>
    obtain ⟨⟩ | ⟨hm, hrest⟩ := h
    obtain ⟨above, acc₁, l, acc₂, below, rfl, habove, hl, hbelow⟩ := ih hrest
    exact ⟨_ :: above, acc₁, l, acc₂, below, rfl, .cons hm habove, hl, hbelow⟩

theorem of_mem (h : CollectedAll affected ls acc ls' acc') (hl : l ∈ ls) :
    ∃ l' ∈ ls', ∃ acc₁ acc₂, Collected affected l acc₁ l' acc₂ ∧ acc₂.damage ⊆ acc'.damage := by
  obtain ⟨above, below, rfl⟩ := List.append_of_mem hl
  obtain ⟨above', acc₁, l', acc₂, below', rfl, -, hl', hbelow⟩ := h.split
  exact ⟨l', by simp, acc₁, acc₂, hl', hbelow.damage⟩

theorem of_mem' (h : CollectedAll affected ls acc ls' acc') (hl : l' ∈ ls') :
    ∃ l ∈ ls, ∃ acc₁ acc₂, Collected affected l acc₁ l' acc₂ := by
  obtain ⟨above', below', rfl⟩ := List.append_of_mem hl
  obtain ⟨above, acc₁, l, acc₂, below, rfl, -, hl', -⟩ := h.split'
  exact ⟨l, by simp, acc₁, acc₂, hl'⟩

end CollectedAll

/-! ### The walk -/

variable (affected) in
theorem leafCollectDamage_spec {n : Node} {content : Content} (hn : n.content = some content) (c : Ctx) (acc : Acc) :
    (leafCollectDamage affected n content c acc).1.content = some content ∧
      Collected affected (c.leaf n content) acc
        ({ c with damageType := .none }.leaf (leafCollectDamage affected n content c acc).1 content)
        (leafCollectDamage affected n content c acc).2 := by
  rw [leafCollectDamage]
  dsimp only
  split
  next hoff =>
    rw [Bool.and_eq_true, Bool.not_eq_true', Bool.not_eq_true'] at hoff
    have hpassed : ¬ (c.leaf n content).Affected affected := by
      rintro ⟨hon | hon, -⟩
      · exact Bool.false_ne_true (hoff.1.symm.trans hon)
      · exact Bool.false_ne_true (hoff.2.symm.trans hon)
    refine ⟨hn, rfl, rfl, fun h => absurd h hpassed, fun h => absurd h hpassed, fun h => absurd h hpassed, ?_,
      subset_rfl, fun h => absurd h hpassed, fun h => absurd h hpassed, fun _ => ⟨rfl, rfl, nofun⟩⟩
    rw [if_neg fun h => hpassed h.1, Finset.union_empty]
  next hon =>
    split
    next hout =>
      have hpassed : ¬ (c.leaf n content).Affected affected := fun h => h.2 hout
      refine ⟨hn, rfl, rfl, fun h => absurd h hpassed, fun h => absurd h hpassed, fun h => absurd h hpassed, ?_,
        subset_rfl, fun h => absurd h hpassed, fun h => absurd h hpassed, fun _ => ⟨rfl, rfl, fun hharmful => ?_⟩⟩
      · rw [if_neg fun h => hpassed h.1, Finset.union_empty]
      · simp only [Ctx.leaf, DamageType.or, DamageType.none, Bool.false_or] at hharmful ⊢
        simp [hharmful]
    next hin =>
      have htouched : (c.leaf n content).Affected affected := by
        refine ⟨?_, hin⟩
        simp only [Ctx.leaf]
        rw [Bool.and_eq_true, Bool.not_eq_true', Bool.not_eq_true', not_and, Bool.not_eq_false] at hon
        cases henabled : c.enabled && n.enabled with
        | true => exact Or.inl rfl
        | false => exact Or.inr (hon henabled)
      refine ⟨hn, rfl, rfl, fun _ => rfl, fun _ => rfl, fun _ => rfl, ?_, ?_, fun _ hlast hlost => ?_,
        fun _ hnew => ?_, fun h => absurd htouched h⟩
      · simp only [htouched, true_and]
        rfl
      · intro q hq
        simp [hq]
      · have hnotQuiet : (n.lastEnabled && (c.enabled && n.enabled) && decide (c.damageType.or n.damageType = .none)) =
            false := by
          rw [Bool.eq_false_iff]
          intro hquiet
          rw [Bool.and_eq_true, Bool.and_eq_true, decide_eq_true_eq] at hquiet
          rcases hlost with hoff | hharmful
          · exact Bool.false_ne_true (hoff.symm.trans hquiet.1.2)
          · simp only [Ctx.leaf, hquiet.2, DamageType.none] at hharmful
            cases hharmful
        have hlost' : (!(c.enabled && n.enabled) || (c.damageType.or n.damageType).harmful) = true := by
          rcases hlost with hoff | hharmful
          · simp only [Ctx.leaf] at hoff
            rw [hoff]
            rfl
          · simp only [Ctx.leaf] at hharmful
            rw [hharmful, Bool.or_true]
        simp only [Ctx.leaf] at hlast
        intro q hq
        simp only [Ctx.leaf] at hq
        rw [hnotQuiet, hlast, hlost']
        simp [hq]
      · have hnotQuiet : (n.lastEnabled && (c.enabled && n.enabled) && decide (c.damageType.or n.damageType = .none)) =
            false := by
          rw [Bool.eq_false_iff]
          intro hquiet
          rw [Bool.and_eq_true, Bool.and_eq_true, decide_eq_true_eq] at hquiet
          rcases hnew with hlast | htype
          · exact Bool.false_ne_true (hlast.symm.trans hquiet.1.1)
          · exact htype hquiet.2
        intro q hq
        rw [hnotQuiet]
        exact Finset.mem_union_right _ hq

/-- What the walk makes of the leaves; the flags of the trees above are gone afterwards. -/
theorem Forest.collectDamage_spec : ∀ (f : Forest) (c : Ctx) (acc : Acc),
    CollectedAll affected (f.leaves c) acc ((f.collectDamage affected c acc).1.leaves { c with damageType := .none })
      (f.collectDamage affected c acc).2
  | .nil, _, _ => .nil _
  | .node n children below, c, acc => by
      rw [Forest.collectDamage]
      cases hn : n.content with
      | some content =>
        obtain ⟨hcontent, hleaf⟩ := leafCollectDamage_spec affected hn c acc
        rw [leaves_node, item_leaf hn]
        dsimp only
        rw [leaves_node, item_leaf hcontent]
        exact .cons hleaf (collectDamage_spec below c _)
      | none =>
        rw [leaves_node, item_tree hn]
        dsimp only
        rw [leaves_node, item_tree (n := n.collected c) hn]
        exact (collectDamage_spec children (c.enter n) acc).append (collectDamage_spec below c _)

end FlakeWm.Damage
