import FlakeWm.Damage.Operations

/-! Occlusion culling hides nothing that can be seen (`scene/scene.c`, `scene/rect.c`, `scene/buffer.c`).

    Visible regions are only worked out anew where something was pushed. Between two walks they are right at every
    point outside the pushed region, because an operation changes the leaves there are at a point only if it pushes the
    point; and a walk makes them right at the points inside. The shortcut of a change that is called harmless keeps
    this as long as no leaf appears by it or stops being opaque. -/

namespace FlakeWm.Damage

variable {s s' : Scene} {affected : Region} {l : Leaf} {ls ls' above below : List Leaf} {acc acc' : Acc} {q : Point}

/-- A leaf hides what is below it at a point. -/
def Leaf.Hides (q : Point) (l : Leaf) : Prop := l.Drawn ∧ q ∈ l.solid

/-- Some leaf hides what is below it at a point. -/
def Covered (ls : List Leaf) (q : Point) : Prop := ∃ l ∈ ls, l.Hides q

/-- At a point, every leaf down to the first that hides what is below has the point in its visible region. -/
def Sees (q : Point) : List Leaf → Prop
  | [] => True
  | l :: ls => (l.Drawn → q ∈ l.region → q ∈ l.visibleRegion) ∧ (¬ l.Hides q → Sees q ls)

theorem covered_append : Covered (ls ++ ls') q ↔ Covered ls q ∨ Covered ls' q := by
  simp [Covered, or_and_right, exists_or]

theorem sees_append : ∀ (ls ls' : List Leaf), Sees q (ls ++ ls') ↔ Sees q ls ∧ (¬ Covered ls q → Sees q ls')
  | [], ls' => by simp [Sees, Covered]
  | l :: ls, ls' => by
      have hcovered : Covered (l :: ls) q ↔ l.Hides q ∨ Covered ls q := by simp [Covered]
      rw [List.cons_append, Sees, Sees, sees_append ls ls', hcovered]
      tauto

/-- What is not at a point changes nothing there. -/
theorem sees_away (haway : ∀ l ∈ ls, l.Drawn → q ∉ l.box) : Sees q ls ∧ ¬ Covered ls q := by
  have hnot : ¬ Covered ls q := fun ⟨l, hl, hdrawn, hq⟩ => haway l hl hdrawn (l.solid_subset_box hq)
  refine ⟨?_, hnot⟩
  induction ls with
  | nil => trivial
  | cons l ls ih =>
    refine ⟨fun hdrawn hq => absurd (l.region_subset_box hq) (haway l List.mem_cons_self hdrawn), fun _ => ?_⟩
    exact ih (fun m hm => haway m (List.mem_cons_of_mem _ hm)) fun ⟨m, hm, h⟩ => hnot ⟨m, List.mem_cons_of_mem _ hm, h⟩

/-- Leaves that are not at a point may be put in or taken out there. -/
theorem sees_around (above under : List Leaf) {mid : List Leaf} (haway : ∀ l ∈ mid, l.Drawn → q ∉ l.box) :
    (Sees q (above ++ mid ++ under) ↔ Sees q (above ++ under)) ∧
      (Covered (above ++ mid ++ under) q ↔ Covered (above ++ under) q) := by
  obtain ⟨hsees, hnot⟩ := sees_away haway
  constructor
  · rw [List.append_assoc, sees_append above, sees_append mid, sees_append above]
    exact and_congr_right fun _ => forall_congr' fun _ => ⟨fun h => h.2 hnot, fun h => ⟨hsees, fun _ => h⟩⟩
  · rw [covered_append, covered_append, covered_append, or_iff_left hnot]

/-! ### The invariant between two walks -/

/-- The visible regions and the invisible region are right at a point. -/
def Scene.CulledAt (s : Scene) (q : Point) : Prop :=
  Sees q s.leaves ∧ (q ∈ s.collectedInvisible → Covered s.leaves q)

/-- They are right wherever nothing is pushed. -/
def Scene.CulledOutside (s : Scene) : Prop := ∀ q, q ∉ s.pushedDamage → s.CulledAt q

theorem Changes.culled {old new : List Leaf} (h : Changes s s' old new) (hs : s.CulledOutside) : s'.CulledOutside := by
  intro q hq
  obtain ⟨above, under, above', under', hleaves, hleaves', hparts⟩ := h.parts
  have hold := sees_around (q := q) above under
    fun l hl hdrawn hbox => hq (h.oldBoxes l hl hdrawn hbox)
  have hnew := sees_around (q := q) above' under'
    fun l hl hdrawn hbox => hq (h.newBoxes l hl hdrawn hbox)
  obtain ⟨hsees, hinvisible⟩ := hs q fun hbefore => hq (h.grows.pushed hbefore)
  rw [hleaves] at hsees hinvisible
  rw [Scene.CulledAt, hleaves', hnew.1, hnew.2, hparts, h.grows.invisible]
  exact ⟨hold.1.1 hsees, fun hq => hold.2.1 (hinvisible hq)⟩

/-- A leaf does not appear by a change of its colour or opacity, and does not stop being opaque. -/
def Harmless (content content' : Content) : Prop :=
  (content.alpha = 0 → content'.alpha = 0) ∧ (content.alpha = 1 → content'.alpha = 1)

theorem alpha_of_solid (hq : q ∈ l.solid) : l.content.alpha = 1 := by
  rw [Leaf.solid, opaqueRegion, mem_translate, Finset.mem_sdiff] at hq
  have hregion : l.content.opaqueRegion ≠ ∅ := by
    intro hempty
    simp [hempty] at hq
  cases hc : l.content with
  | rect width height color =>
    rw [hc, Content.opaqueRegion] at hregion
    by_contra halpha
    exact hregion (if_neg halpha)
  | buffer buffer opacity region =>
    rw [hc] at hregion
    cases buffer with
    | none => exact absurd rfl hregion
    | some b =>
      by_contra halpha
      exact hregion (if_pos halpha)

theorem region_recolored {content : Content} (hsize : content.size = l.content.size) :
    (l.recolored content).region = l.region := by
  simp only [Leaf.region, Leaf.recolored, contentRegion, boxRegion, hsize]

theorem opaqueRegion_mono {content content' : Content} (hsize : content'.size = content.size)
    (hregion : content.opaqueRegion ⊆ content'.opaqueRegion) (clip : Region) (radius : Radius) (x y : ℤ) :
    opaqueRegion content clip radius x y ⊆ opaqueRegion content' clip radius x y := by
  intro q hq
  rw [opaqueRegion, mem_translate, Finset.mem_sdiff] at hq ⊢
  rw [hsize]
  refine ⟨?_, hq.2⟩
  by_cases hclip : clip = ∅
  · rw [if_pos hclip] at hq ⊢
    exact hregion hq.1
  · rw [if_neg hclip, Finset.mem_inter] at hq ⊢
    exact ⟨hregion hq.1.1, hq.1.2⟩

theorem hides_recolored {content : Content} (hsize : content.size = l.content.size)
    (hregion : l.content.opaqueRegion ⊆ content.opaqueRegion) (hone : l.content.alpha = 1 → content.alpha = 1)
    (h : l.Hides q) : (l.recolored content).Hides q := by
  refine ⟨⟨h.1.1, ?_⟩, ?_⟩
  · show content.alpha ≠ 0
    rw [hone (alpha_of_solid h.2)]
    decide
  · exact opaqueRegion_mono hsize hregion l.clipRegion l.radius l.x l.y h.2

theorem Recolors.culled {content : Content} (h : Recolors s s' l content) (hsize : content.size = l.content.size)
    (hregion : (l.content.alpha = 1 → content.alpha = 1) → l.content.opaqueRegion ⊆ content.opaqueRegion)
    (hharmless : Harmless l.content content) (hs : s.CulledOutside) : s'.CulledOutside := by
  intro q hq
  obtain ⟨above, under, hleaves, hleaves'⟩ := h.parts
  obtain ⟨hsees, hinvisible⟩ := hs q fun hbefore => hq (h.grows.pushed hbefore)
  have hhides := hides_recolored (q := q) hsize (hregion hharmless.2) hharmless.2
  rw [hleaves, sees_append, Sees] at hsees
  rw [Scene.CulledAt, hleaves', h.grows.invisible, sees_append, Sees, region_recolored hsize]
  refine ⟨⟨hsees.1, fun hnot => ⟨fun hdrawn => (hsees.2 hnot).1 ⟨hdrawn.1, fun hzero => ?_⟩, fun hrest => ?_⟩⟩, fun hin => ?_⟩
  · exact hdrawn.2 (hharmless.1 hzero)
  · exact (hsees.2 hnot).2 fun h => hrest (hhides h)
  · have hcovered := hinvisible hin
    rw [hleaves] at hcovered
    obtain ⟨m, hm, hmhides⟩ := hcovered
    rcases List.mem_append.1 hm with hm | hm
    · exact ⟨m, List.mem_append_left _ hm, hmhides⟩
    · rcases List.mem_cons.1 hm with rfl | hm
      · exact ⟨_, List.mem_append_right _ List.mem_cons_self, hhides hmhides⟩
      · exact ⟨m, List.mem_append_right _ (List.mem_cons_of_mem _ hm), hmhides⟩

/-! ### The walk -/

theorem Collected.hides {l' : Leaf} (h : Collected affected l acc l' acc') : l'.Hides q ↔ l.Hides q := by
  rw [Leaf.Hides, Leaf.Hides, h.drawn, Leaf.solid_of_look h.look]

theorem CollectedAll.covered (h : CollectedAll affected ls acc ls' acc') : Covered ls' q ↔ Covered ls q := by
  induction h with
  | nil acc => rfl
  | cons hl _ ih =>
    rw [Covered, List.exists_mem_cons_iff, Covered, List.exists_mem_cons_iff, hl.hides]
    exact or_congr Iff.rfl ih

/-- The walk makes the visible regions right where something was pushed, and leaves them right elsewhere. -/
theorem CollectedAll.sees (h : CollectedAll affected ls acc ls' acc') (hacc : q ∉ acc.invisible)
    (hsees : q ∉ affected → Sees q ls) : Sees q ls' := by
  induction h with
  | nil acc => trivial
  | @cons l l' ls ls' acc acc' acc'' hl _ ih =>
    refine ⟨fun hdrawn hq => ?_, fun hnot => ih ?_ fun hq => (hsees hq).2 (hl.hides.not.1 hnot)⟩
    · rw [Leaf.region_of_look hl.look] at hq
      rw [hl.drawn] at hdrawn
      by_cases haffected : l.Affected affected
      · rw [hl.visibleRegion haffected, if_pos hdrawn]
        exact Finset.mem_sdiff.2 ⟨hq, hacc⟩
      · rw [(hl.passed haffected).2.1]
        refine (hsees fun hin => ?_).1 hdrawn hq
        exact haffected (Leaf.affected_of_drawn hdrawn (l.region_subset_box hq) hin)
    · rw [hl.invisible, Finset.mem_union, not_or]
      refine ⟨hacc, fun hin => ?_⟩
      split at hin
      next htouched => exact hnot (hl.hides.2 ⟨htouched.2, hin⟩)
      · cases hin

namespace Scene

theorem collectPushed_leaves (s : Scene) : ∃ acc, CollectedAll s.pushedDamage s.leaves ⟨s.collectedDamage, ∅⟩
    s.collectPushed.leaves acc ∧ s.collectPushed.collectedDamage = acc.damage ∧
      s.collectPushed.collectedInvisible = (s.collectedInvisible \ s.pushedDamage) ∪ acc.invisible :=
  ⟨_, Forest.collectDamage_spec s.children s.ctx _, rfl, rfl⟩

theorem collectPushed_culled (hs : s.CulledOutside) (q : Point) : s.collectPushed.CulledAt q := by
  obtain ⟨acc, hall, -, hinvisible⟩ := s.collectPushed_leaves
  refine ⟨hall.sees (Finset.notMem_empty q) fun hq => (hs q hq).1, fun hq => ?_⟩
  rw [hall.covered]
  rw [hinvisible, Finset.mem_union, Finset.mem_sdiff, hall.mem_invisible] at hq
  rcases hq with ⟨hq, hout⟩ | hempty | ⟨l, hl, -, hdrawn, hq⟩
  · exact (hs q hout).2 hq
  · cases hempty
  · exact ⟨l, hl, hdrawn, hq⟩

theorem collectDamage_culled (hs : s.CulledOutside) (q : Point) : s.collectDamage.CulledAt q := by
  rw [collectDamage]
  split
  next hnone =>
    refine hs q ?_
    rw [hnone]
    exact Finset.notMem_empty q
  · exact collectPushed_culled hs q

end Scene

/-! ### Runs -/

/-- The root is left alone, and a leaf that was enabled in the last walk neither appears by a change of its colour or
opacity nor stops being opaque. -/
def Safe (s : Scene) (e : Event) : Prop :=
  ¬ e.ofRoot ∧ ∀ n content content', recolors s e = some (n, content, content') → n.lastEnabled = true →
    Harmless content content'

theorem step_culled (hs : s.CulledOutside) {e : Event} (hsafe : Safe s e) (hstep : step s e = some s') :
    s'.CulledOutside := by
  by_cases he : e = .collectDamage
  · subst he
    cases hstep
    exact fun q _ => Scene.collectDamage_culled hs q
  · rcases step_outcome he hsafe.1 hstep with ⟨old, new, h⟩ | ⟨n, content, content', hrecolors, h⟩
    · exact h.toChanges.culled hs
    · rcases h.outcome with ⟨old, new, hchanges, -⟩ | ⟨c, hshort⟩
      · exact hchanges.culled hs
      · exact hshort.culled h.size h.opaqueRegion (hsafe.2 n content content' hrecolors hshort.lastEnabled) hs

theorem create_culled (outputs : List Output) : (Scene.create outputs).CulledOutside :=
  fun _ _ => ⟨trivial, fun hq => nomatch hq⟩

/-- Every point of a drawn leaf that no leaf above hides is in its visible region, and the background is left out only
where a leaf hides it. -/
structure Scene.Culls (s : Scene) : Prop where
  visible : ∀ above l below, s.leaves = above ++ l :: below → l.Drawn → ∀ q ∈ l.region, ¬ Covered above q →
    q ∈ l.visibleRegion
  invisible : ∀ q ∈ s.collectedInvisible, Covered s.leaves q

theorem Scene.culls_of_culledAt (h : ∀ q, s.CulledAt q) : s.Culls := by
  refine ⟨fun above l below hleaves hdrawn q hq hnot => ?_, fun q hq => (h q).2 hq⟩
  have hsees := (h q).1
  rw [hleaves, sees_append, Sees] at hsees
  exact (hsees.2 hnot).1 hdrawn hq

/-- Whatever has been done to a scene, after the next walk culling hides nothing that can be seen. -/
theorem culling_hides_nothing {outputs : List Output} (h : Reach step Safe (Scene.create outputs) s) :
    s.collectDamage.Culls :=
  Scene.culls_of_culledAt (Scene.collectDamage_culled
    (h.inv (create_culled outputs) fun _ _ _ hs hsafe hstep => step_culled hs hsafe hstep))

end FlakeWm.Damage
