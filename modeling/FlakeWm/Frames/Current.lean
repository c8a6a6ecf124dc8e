import FlakeWm.Frames.Model

/-! The buffers that are presented are current.

    A point at which a tracked buffer is out of date is in the damage of its entry (`Covered`). So
    rendering the damage of a buffer makes all of it current, and its entry may be cleared; what
    changed meanwhile is in the damage of the others. A failure damages everything again. -/

namespace FlakeWm.Frames

open FlakeWm.Damage

variable {α : Type*} {o o' : Output α}

/-! ### The ring -/

namespace Ring

@[simp] theorem add_bounds (r : Ring) (d : Region) : (r.add d).bounds = r.bounds := rfl

@[simp] theorem addWhole_bounds (r : Ring) : r.addWhole.bounds = r.bounds := rfl

@[simp] theorem rotateBuffer_bounds (r : Ring) (b : Option ℕ) :
    (r.rotateBuffer b).bounds = r.bounds := rfl

/-- The buffers that have an entry. -/
def tracked (r : Ring) : List ℕ := r.buffers.map Entry.buffer

@[simp] theorem add_tracked (r : Ring) (d : Region) : (r.add d).tracked = r.tracked := by
  simp [tracked, add, Function.comp_def]

@[simp] theorem addWhole_tracked (r : Ring) : r.addWhole.tracked = r.tracked := add_tracked r _

@[simp] theorem rotateBuffer_tracked (r : Ring) (b : Option ℕ) :
    (r.rotateBuffer b).tracked = r.tracked := by
  simp only [tracked, rotateBuffer, List.map_map]
  refine List.map_congr_left fun e _ => ?_
  rw [Function.comp_apply]
  split_ifs <;> rfl

@[simp] theorem setBounds_tracked (r : Ring) (width height : ℤ) :
    (r.setBounds width height).tracked = r.tracked := by
  rw [setBounds]
  split_ifs
  · exact addWhole_tracked _
  · rfl

theorem mem_add {r : Ring} {d : Region} {e : Entry} (he : e ∈ (r.add d).buffers) :
    ∃ e₀ ∈ r.buffers, e₀.buffer = e.buffer ∧ e.damage = e₀.damage ∪ d ∩ r.bounds := by
  obtain ⟨e₀, he₀, rfl⟩ := List.mem_map.mp he
  exact ⟨e₀, he₀, rfl, rfl⟩

theorem mem_rotateBuffer {r : Ring} {b : Option ℕ} {e : Entry}
    (he : e ∈ (r.rotateBuffer b).buffers) :
    e ∈ r.buffers ∨ some e.buffer = b := by
  obtain ⟨e₀, he₀, rfl⟩ := List.mem_map.mp he
  split_ifs with hb
  · exact .inr hb
  · exact .inl he₀

end Ring

/-! ### Covered damage -/

/-- Where a tracked buffer is out of date, its entry is damaged; and a buffer has one entry. -/
structure Covered (o : Output α) : Prop where
  stale : ∀ e ∈ o.ring.buffers, ∀ p ∈ o.ring.bounds, o.content e.buffer p ≠ o.picture p →
    p ∈ e.damage
  distinct : o.ring.tracked.Nodup

/-- After the whole output was damaged, any content and picture will do. -/
theorem covered_addWhole {r : Ring} (hring : o.ring = r.addWhole) (hdistinct : r.tracked.Nodup) :
    Covered o := by
  refine ⟨fun e he p hp _ => ?_, by rw [hring, Ring.addWhole_tracked]; exact hdistinct⟩
  rw [hring] at he hp
  obtain ⟨e₀, -, -, hd⟩ := Ring.mem_add he
  rw [hd, Finset.inter_self]
  exact Finset.mem_union_right _ hp

theorem Covered.damage (h : Covered o) (region : Region) (picture : Point → α) :
    Covered (o.damage region picture) := by
  refine ⟨fun e he p hp hstale => ?_, ?_⟩
  · obtain ⟨e₀, he₀, hb, hd⟩ := Ring.mem_add he
    have hp' : p ∈ o.ring.bounds := hp
    rw [hd]
    by_cases hmem : p ∈ region
    · exact Finset.mem_union_right _ (Finset.mem_inter.mpr ⟨hmem, hp'⟩)
    · refine Finset.mem_union_left _ (h.stale e₀ he₀ p hp' ?_)
      rw [hb]
      have hsame : (o.damage region picture).picture p = o.picture p := if_neg hmem
      rwa [hsame] at hstale
  · exact (Ring.add_tracked o.ring region).symm ▸ h.distinct

/-- The buffer is current. -/
def Current (o : Output α) (b : ℕ) : Prop := ∀ p ∈ o.ring.bounds, o.content b p = o.picture p

/-- The entry of a current buffer may be cleared. -/
theorem Covered.rotate {b : Option ℕ} (h : Covered o) (hcurrent : ∀ b', b = some b' → Current o b') :
    Covered { o with ring := o.ring.rotateBuffer b } := by
  refine ⟨fun e he p hp hstale => ?_, (Ring.rotateBuffer_tracked o.ring b).symm ▸ h.distinct⟩
  by_cases hb : some e.buffer = b
  · exact absurd (hcurrent e.buffer hb.symm p hp) hstale
  · obtain he | he := Ring.mem_rotateBuffer he
    · exact h.stale e he p hp hstale
    · exact absurd he hb

/-! ### Rendering -/

/-- Drawing the picture. -/
theorem Covered.draw (h : Covered o) (b : ℕ) (region : Region) :
    Covered (o.draw b region o.picture) := by
  refine ⟨fun e he p hp hstale => h.stale e he p hp fun hcurrent => hstale ?_, h.distinct⟩
  change (if e.buffer = b ∧ p ∈ region then o.picture p else o.content e.buffer p) = o.picture p
  split_ifs
  · rfl
  · exact hcurrent

/-- The damage of the buffer is drawn: what blur excludes is not in it. -/
theorem mem_target {r : Rendering α} {d : Region} {p : Point} (hsub : d ⊆ o.ring.bounds)
    (hp : p ∈ d) : p ∈ o.targetDamage r d \ o.excludedDamage r d := by
  rw [Finset.mem_sdiff, Output.targetDamage, Finset.mem_inter]
  refine ⟨⟨Finset.mem_union_left _ hp, hsub hp⟩, fun hexcluded => ?_⟩
  rw [Output.excludedDamage] at hexcluded
  split_ifs at hexcluded
  · exact (Finset.mem_sdiff.mp hexcluded).2 (Finset.mem_union_left _ hp)
  · exact absurd hexcluded (Finset.notMem_empty p)

theorem frameDamage_subset {r : Rendering α} {d : Region} :
    o.frameDamage r d ⊆ o.targetDamage r d \ o.excludedDamage r d :=
  Finset.sdiff_subset_sdiff Finset.sdiff_subset (Finset.Subset.refl _)

/-- The damage of a buffer has the points at which it is out of date. -/
theorem getBufferDamage_spec (h : Covered o) (b : ℕ) (tracked : Bool) :
    let r := o.ring.getBufferDamage b tracked
    Covered { o with ring := r.1 } ∧ r.1.bounds = o.ring.bounds ∧ r.2 ⊆ o.ring.bounds ∧
      ∀ p ∈ o.ring.bounds, o.content b p ≠ o.picture p → p ∈ r.2 := by
  rw [Ring.getBufferDamage]
  cases hfound : o.ring.buffers.find? (fun e => decide (e.buffer = b)) with
  | some e =>
    have he := List.mem_of_find?_eq_some hfound
    have hb : e.buffer = b := by simpa using List.find?_some hfound
    refine ⟨h, rfl, Finset.inter_subset_right, fun p hp hstale => ?_⟩
    exact Finset.mem_inter.mpr ⟨h.stale e he p hp (hb ▸ hstale), hp⟩
  | none =>
    dsimp only
    split_ifs
    · refine ⟨⟨fun e he p hp hstale => ?_, ?_⟩, rfl, Finset.Subset.refl _, fun p hp _ => hp⟩
      · rcases List.mem_cons.mp he with rfl | he
        · exact hp
        · exact h.stale e he p hp hstale
      · refine List.nodup_cons.mpr ⟨fun hmem => ?_, h.distinct⟩
        obtain ⟨e, he, hb⟩ := List.mem_map.mp hmem
        exact absurd (decide_eq_true hb) (List.find?_eq_none.mp hfound e he)
    · exact ⟨h, rfl, Finset.Subset.refl _, fun p hp _ => hp⟩

/-- Drawing the damage of a buffer makes it current, and what the blur changed is damage of the
    others. -/
theorem drawDamage_spec {b : ℕ} {d : Region} (r : Rendering α) (h : Covered o)
    (hsub : d ⊆ o.ring.bounds) (hd : ∀ p ∈ o.ring.bounds, o.content b p ≠ o.picture p → p ∈ d) :
    Covered (o.drawDamage r b d) ∧ Current (o.drawDamage r b d) b ∧
      (o.drawDamage r b d).ring.bounds = o.ring.bounds := by
  rw [Output.drawDamage]
  split_ifs with hempty
  · refine ⟨h, fun p hp => ?_, rfl⟩
    by_contra hstale
    have hmem := hd p hp hstale
    rw [hempty] at hmem
    exact absurd hmem (Finset.notMem_empty p)
  · refine ⟨(h.damage _ _).draw b _, fun p hp => ?_, rfl⟩
    have hp' : p ∈ o.ring.bounds := hp
    by_cases htarget : p ∈ o.targetDamage r d \ o.excludedDamage r d
    · exact if_pos ⟨rfl, htarget⟩
    · have hframe : p ∉ o.frameDamage r d := fun hmem => htarget (frameDamage_subset hmem)
      have hcontent : o.content b p = o.picture p := by
        by_contra hstale
        exact htarget (mem_target hsub (hd p hp' hstale))
      calc
        _ = o.content b p := if_neg fun hmem => htarget hmem.2
        _ = o.picture p := hcontent
        _ = (o.damage (o.frameDamage r d) r.blurred).picture p := (if_neg hframe).symm

theorem renderPass_spec (h : Covered o) (r : Rendering α) (b : ℕ) :
    Covered (o.renderPass r b) ∧ Current (o.renderPass r b) b := by
  obtain ⟨hring, hbounds, hsub, hd⟩ := getBufferDamage_spec h b r.tracked
  rw [← hbounds] at hsub hd
  obtain ⟨hdrawn, hcurrent, -⟩ := drawDamage_spec r hring hsub hd
  have hrotated := hdrawn.rotate (b := some b) fun b' hb' => Option.some.inj hb' ▸ hcurrent
  rw [Output.renderPass]
  dsimp only
  split_ifs
  · exact ⟨covered_addWhole rfl hrotated.distinct, hcurrent⟩
  · exact ⟨hrotated, hcurrent⟩

/-- What `scene_output_render` hands to the backend is current. -/
theorem render_spec (h : Covered o) (r : Rendering α) :
    Covered (o.render r).1 ∧ ∀ b, (o.render r).2 = some b → Current (o.render r).1 b := by
  rw [Output.render]
  cases r.buffer with
  | none => exact ⟨h, fun b hb => by cases hb⟩
  | some b =>
    obtain ⟨hcovered, hcurrent⟩ := renderPass_spec h r b
    dsimp only
    split_ifs
    · exact ⟨h, fun b hb => by cases hb⟩
    · exact ⟨covered_addWhole rfl hcovered.distinct, fun b hb => by cases hb⟩
    · refine ⟨hcovered, fun b' hb' => ?_⟩
      cases hb'
      exact hcurrent

theorem Covered.setScanout (h : Covered o) (scanout : Bool) : Covered (o.setScanout scanout) := by
  rw [Output.setScanout]
  split_ifs
  · exact covered_addWhole rfl h.distinct
  · exact ⟨h.stale, h.distinct⟩

theorem present_spec (h : Covered o) (f : Frame α) :
    Covered (o.present f).1 ∧ ∀ b, (o.present f).2 = some b → Current (o.present f).1 b := by
  rw [Output.present]
  by_cases hscan : f.scanout = true
  · rw [if_pos hscan]
    split_ifs
    · exact ⟨h.rotate fun b hb => (by cases hb), fun b hb => by cases hb⟩
    · exact ⟨covered_addWhole rfl h.distinct, fun b hb => by cases hb⟩
  · rw [if_neg hscan]
    obtain ⟨hrendered, hcurrent⟩ := render_spec h f.rendering
    split
    · next o₁ heq =>
      rw [heq] at hrendered
      exact ⟨hrendered, fun b hb => by cases hb⟩
    · next o₁ b heq =>
      rw [heq] at hrendered hcurrent
      split_ifs
      · refine ⟨⟨hrendered.stale, hrendered.distinct⟩, fun b' hb' => ?_⟩
        cases hb'
        exact hcurrent b rfl
      · exact ⟨covered_addWhole rfl hrendered.distinct, fun b hb => by cases hb⟩

/-- What `ky_scene_output_commit` presents is current. -/
theorem commit_spec (h : Covered o) (f : Frame α) :
    Covered (o.commit f).1 ∧ ∀ b, (o.commit f).2 = some b → Current (o.commit f).1 b := by
  have hdamaged := h.damage f.damage f.picture
  rw [Output.commit]
  dsimp only
  split_ifs
  · exact ⟨h, fun b hb => by cases hb⟩
  · exact ⟨hdamaged, fun b hb => by cases hb⟩
  · exact present_spec (hdamaged.setScanout f.scanout) f

/-! ### Runs -/

theorem step_covered {ev : Event α} (h : Covered o) (hs : step o ev = some o') : Covered o' := by
  cases ev with
  | damage region picture =>
    cases hs
    exact h.damage region picture
  | damageWhole picture =>
    cases hs
    exact covered_addWhole rfl h.distinct
  | updateGeometry width height picture =>
    cases hs
    exact covered_addWhole rfl (by rw [Ring.setBounds_tracked]; exact h.distinct)
  | bufferDestroy buffer content =>
    cases hs
    refine ⟨fun e he p hp hstale => ?_, h.distinct.sublist (List.filter_sublist.map _)⟩
    obtain ⟨he, hne⟩ := List.mem_filter.mp he
    refine h.stale e he p hp fun hcurrent => hstale ?_
    change (if e.buffer = buffer then content else o.content e.buffer) p = o.picture p
    rw [if_neg (by simpa using hne)]
    exact hcurrent
  | commitRetry =>
    cases hs
    exact ⟨h.stale, h.distinct⟩
  | commit frame =>
    cases hs
    exact (commit_spec h frame).1

/-- Every buffer that is committed shows the picture of its frame, and the damage of the entries has
    every point at which a tracked buffer is out of date. -/
structure Presents (o : Output α) : Prop where
  committed : ∀ f b, (o.commit f).2 = some b → ∀ p ∈ (o.commit f).1.ring.bounds,
    (o.commit f).1.content b p = (o.commit f).1.picture p
  tracked : ∀ e ∈ o.ring.buffers, ∀ p ∈ o.ring.bounds, o.content e.buffer p ≠ o.picture p →
    p ∈ e.damage

/-- In every run, every presented frame buffer is up to date. -/
theorem presented_buffers_current {picture : Point → α} {content : ℕ → Point → α}
    (h : Reach step Always { picture := picture, content := content } o) : Presents o := by
  have hinit : Covered { picture := picture, content := content } :=
    ⟨fun e he => absurd he List.not_mem_nil, List.nodup_nil⟩
  have hcovered : Covered o := h.inv hinit fun o ev o' ho _ hs => step_covered ho hs
  exact ⟨fun f => (commit_spec hcovered f).2, hcovered.stale⟩

/-- A first frame into a new buffer, a frame that scans out and one into the same buffer. -/
def threeFrames : List (Event ℕ) :=
  let rendering : Rendering ℕ := ⟨some 0, true, true, ∅, ∅, true, fun _ => 0, false, true, fun _ => 0⟩
  [.updateGeometry 2 1 fun _ => 1, .commit ⟨∅, fun _ => 0, true, false, rendering, true, true⟩,
    .commit ⟨rectRegion 0 0 1 1, fun _ => 2, true, true, rendering, true, true⟩]

theorem threeFrames_current :
    ∃ o : Output ℕ, exec step ({ picture := fun _ => 0, content := fun _ _ => 0 } : Output ℕ)
        threeFrames = some o ∧ Presents o ∧
      (o.commit ⟨∅, fun _ => 0, true, false,
        ⟨some 0, true, true, ∅, ∅, true, fun _ => 0, false, true, fun _ => 0⟩, true, true⟩).2 =
          some 0 := by
  refine ⟨_, rfl, ?_, rfl⟩
  exact presented_buffers_current (.of_exec threeFrames _ rfl)

end FlakeWm.Frames
