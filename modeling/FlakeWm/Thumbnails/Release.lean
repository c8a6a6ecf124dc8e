import Mathlib.Data.List.Nodup
import Mathlib.Data.List.Range
import FlakeWm.Thumbnails.Model

/-! What is made is released once.

    Each `wlr_buffer`, thumbnail and thumbnail buffer is either held or logged as released, once
    (`Counted`). The thumbnail buffer is held together as long as a loop over the thumbnails runs, so
    what listeners do in between keeps this; the loop itself comes to its end when no listener
    destroys the thumbnail that follows. A render that fails after it took the buffer of the thumbnail
    buffer drops that one, and the destruction that follows drops it again. -/

namespace FlakeWm.Thumbnails

variable {s s' : State} {tb tb' : ThumbnailBuffer}

/-! ### Ledgers -/

/-- The numbers below `n` are gone or kept, each of them once. -/
def Once (gone kept : List ℕ) (n : ℕ) : Prop := (gone ++ kept).Perm (List.range n)

theorem Once.lt {gone kept : List ℕ} {n a : ℕ} (h : Once gone kept n) (ha : a ∈ kept) : a < n :=
  List.mem_range.mp (h.mem_iff.mp (List.mem_append_right _ ha))

theorem Once.nodup {gone kept : List ℕ} {n : ℕ} (h : Once gone kept n) : kept.Nodup :=
  (List.nodup_append.mp (h.nodup_iff.mpr List.nodup_range)).2.1

/-- Some of what is kept goes. -/
theorem Once.release {gone kept moved kept' : List ℕ} {n : ℕ} (h : Once gone kept n)
    (hp : kept.Perm (moved ++ kept')) : Once (gone ++ moved) kept' n := by
  rw [Once, List.append_assoc]
  exact (hp.symm.append_left gone).trans h

theorem Once.release_all {gone kept : List ℕ} {n : ℕ} (h : Once gone kept n) :
    Once (gone ++ kept) [] n := by
  rw [Once, List.append_nil]
  exact h

/-- The next number is kept. -/
theorem Once.make {gone kept : List ℕ} {n : ℕ} (h : Once gone kept n) :
    Once gone (n :: kept) (n + 1) := by
  rw [Once, List.range_succ]
  exact List.perm_middle.trans ((h.cons n).trans (List.perm_append_singleton n _).symm)

/-! ### What is held -/

/-- The `wlr_buffer` of the thumbnail buffer. -/
def held (owner : Option ThumbnailBuffer) : List ℕ :=
  owner.elim [] fun tb => (tb.buffer.map WlrBuffer.id).toList

def linked (owner : Option ThumbnailBuffer) : List ℕ := owner.elim [] ThumbnailBuffer.ids

def self (owner : Option ThumbnailBuffer) : List ℕ := (owner.map ThumbnailBuffer.id).toList

/-- Everything that was made is held or was released once, and no freed thumbnail was used. -/
structure Counted (s : State) : Prop where
  buffers : Once s.drops (held s.owner) s.buffers
  thumbnails : Once s.freed (linked s.owner) s.thumbnails
  owners : Once s.freedOwners (self s.owner) s.owners
  no_fault : s.fault = false

theorem counted_init : Counted {} := ⟨.refl _, .refl _, .refl _, rfl⟩

theorem Counted.setOwner (h : Counted s) (ho : s.owner = some tb) (hid : tb'.id = tb.id)
    (hids : tb'.ids = tb.ids) (hbuffer : tb'.buffer = tb.buffer) : Counted (s.setOwner tb') := by
  obtain ⟨hb, ht, hw, hf⟩ := h
  rw [ho] at hb ht hw
  refine ⟨?_, ?_, ?_, hf⟩
  · simpa [State.setOwner, held, hbuffer] using hb
  · simpa [State.setOwner, linked, hids] using ht
  · simpa [State.setOwner, self, hid] using hw

/-! ### Destruction -/

theorem wlrBufferDrop_eq (b : Option WlrBuffer) :
    s.wlrBufferDrop b = { s with drops := s.drops ++ (b.map WlrBuffer.id).toList } := by
  cases b <;> simp [State.wlrBufferDrop]

theorem thumbnailBufferDestroy_counted (h : Counted s) : Counted s.thumbnailBufferDestroy := by
  rw [State.thumbnailBufferDestroy]
  split
  · exact h
  · next tb ho =>
    split_ifs
    · exact h
    · exact h.setOwner ho rfl rfl rfl
    · obtain ⟨hb, ht, hw, hf⟩ := h
      rw [ho] at hb ht hw
      rw [wlrBufferDrop_eq]
      exact ⟨hb.release_all, ht.release_all, hw.release_all, hf⟩

theorem filter_ids (tb : ThumbnailBuffer) (id : ℕ) :
    { tb with thumbnails := tb.thumbnails.filter fun t => t.id ≠ id }.ids =
      tb.ids.filter fun i => i ≠ id := by
  simp [ThumbnailBuffer.ids, List.filter_map, Function.comp_def]

theorem thumbnailDestroy_counted (h : Counted s) (id : ℕ) : Counted (s.thumbnailDestroy id) := by
  rw [State.thumbnailDestroy]
  split
  · exact h
  · next tb ho =>
    split_ifs with hmem
    · refine thumbnailBufferDestroy_counted ?_
      obtain ⟨hb, ht, hw, hf⟩ := h
      rw [ho] at hb ht hw
      refine ⟨hb, ht.release ?_, hw, hf⟩
      have herase : tb.ids.erase id = tb.ids.filter fun i => i ≠ id := by
        rw [List.Nodup.erase_eq_filter (show tb.ids.Nodup from ht.nodup)]
        refine List.filter_congr fun i _ => ?_
        by_cases hi : i = id <;> simp [hi]
      change tb.ids.Perm ([id] ++ ThumbnailBuffer.ids _)
      rw [filter_ids, ← herase]
      exact List.perm_cons_erase hmem
    · exact h

theorem thumbnailCreate_counted (h : Counted s) : Counted s.thumbnailCreate := by
  obtain ⟨hb, ht, hw, hf⟩ := h
  rw [State.thumbnailCreate]
  dsimp only
  split
  · next tb ho =>
    rw [ho] at hb ht hw
    exact ⟨hb, ht.make, hw, hf⟩
  · next ho =>
    rw [ho] at hb ht hw
    exact ⟨hb, ht.make, hw.make, hf⟩

theorem map_ids (tb : ThumbnailBuffer) (f : Thumbnail → Thumbnail) (hf : ∀ t, (f t).id = t.id) :
    { tb with thumbnails := tb.thumbnails.map f }.ids = tb.ids := by
  simp [ThumbnailBuffer.ids, Function.comp_def, hf]

theorem edit_counted {f : ThumbnailBuffer → Thumbnail → Thumbnail} (hf : ∀ tb t, (f tb t).id = t.id)
    (h : Counted s) (id : ℕ) : Counted (s.edit id f) := by
  rw [State.edit]
  split
  · exact h
  · next tb ho =>
    refine h.setOwner ho rfl (map_ids tb _ fun t => ?_) rfl
    split_ifs
    · exact hf tb t
    · rfl

theorem markWantsUpdate_eq (s : State) (id : ℕ) (wants : Bool) :
    s.thumbnailMarkWantsUpdate id wants =
      s.edit id fun _ t => { t with wantsUpdate := wants } := rfl

/-! ### Listeners -/

/-- The thumbnail buffer is there and cannot be destroyed. -/
def Pinned (s : State) : Prop := ∃ tb, s.owner = some tb ∧ tb.canDestroy = false

theorem find_eq_of_owner (ho : s.owner = some tb) (id : ℕ) :
    s.find id = tb.thumbnails.find? fun t => t.id = id := by
  rw [State.find, ho, Option.bind_some]

theorem live_eq_isSome (s : State) (id : ℕ) : s.live id = (s.find id).isSome := by
  rw [State.live, State.find]
  cases s.owner with
  | none => rfl
  | some tb =>
    rw [Option.any_some, Option.bind_some, Bool.eq_iff_iff, List.find?_isSome]
    simp [ThumbnailBuffer.ids]

/-- A pinned thumbnail buffer is only marked. -/
theorem destroy_of_pinned (ho : s.owner = some tb) (hpin : tb.canDestroy = false) :
    ∃ b, s.thumbnailBufferDestroy = s.setOwner { tb with needDestroy := b } := by
  rw [State.thumbnailBufferDestroy, ho]
  dsimp only
  split_ifs with h h'
  · refine ⟨tb.needDestroy, ?_⟩
    rw [State.setOwner, ← ho]
  · exact ⟨true, rfl⟩
  · rw [hpin] at h'
    exact absurd rfl h'

/-- What a listener does to the thumbnails that are there when it starts. -/
structure Acted (s s' : State) (destroyed : List ℕ) : Prop where
  counted : Counted s'
  pinned : Pinned s'
  grows : s.thumbnails ≤ s'.thumbnails
  find : ∀ j < s.thumbnails, s'.find j = if j ∈ destroyed then none else s.find j

def State.Action.destroyed : State.Action → List ℕ
  | .create => []
  | .destroy id => [id]

theorem create_acted (h : Counted s) (hpin : Pinned s) : Acted s s.thumbnailCreate [] := by
  obtain ⟨tb, ho, hcan⟩ := hpin
  have heq : s.thumbnailCreate = { s.setOwner { tb with
      thumbnails := { id := s.thumbnails } :: tb.thumbnails } with
      thumbnails := s.thumbnails + 1 } := by
    rw [State.thumbnailCreate, ho]
  refine ⟨thumbnailCreate_counted h, ?_, ?_, fun j hj => ?_⟩
  · rw [heq]
    exact ⟨_, rfl, hcan⟩
  · rw [heq]
    exact Nat.le_succ _
  · rw [heq, if_neg List.not_mem_nil, find_eq_of_owner rfl, find_eq_of_owner ho, List.find?_cons]
    have hne : s.thumbnails ≠ j := by omega
    simp [hne]

theorem destroy_acted (h : Counted s) (hpin : Pinned s) (id : ℕ) :
    Acted s (s.thumbnailDestroy id) [id] := by
  have hcounted := thumbnailDestroy_counted h id
  obtain ⟨tb, ho, hcan⟩ := hpin
  rw [State.thumbnailDestroy, ho] at hcounted ⊢
  dsimp only at hcounted ⊢
  split_ifs at hcounted ⊢ with hmem
  · obtain ⟨b, hb⟩ := destroy_of_pinned (s := { s.setOwner { tb with
        thumbnails := tb.thumbnails.filter fun t => t.id ≠ id } with freed := s.freed ++ [id] })
      rfl hcan
    rw [hb] at hcounted ⊢
    refine ⟨hcounted, ⟨_, rfl, hcan⟩, le_refl _, fun j _ => ?_⟩
    rw [find_eq_of_owner rfl, find_eq_of_owner ho, List.find?_filter]
    by_cases hj : j = id
    · subst hj
      simp
    · rw [if_neg (by simpa using hj)]
      refine List.find?_congr fun t _ => ?_
      by_cases ht : t.id = j
      · simp [ht, hj]
      · simp [ht]
  · refine ⟨hcounted, ⟨tb, ho, hcan⟩, le_refl _, fun j _ => ?_⟩
    split_ifs with hj
    · rw [List.mem_singleton] at hj
      subst hj
      rw [find_eq_of_owner ho, List.find?_eq_none]
      intro t ht heq
      exact hmem (List.mem_map.mpr ⟨t, ht, by simpa using heq⟩)
    · rfl

theorem act_acted (h : Counted s) (hpin : Pinned s) : ∀ a : State.Action, Acted s (s.act a) a.destroyed
  | .create => create_acted h hpin
  | .destroy id => destroy_acted h hpin id

/-- A run of actions. -/
theorem acts_acted : ∀ (as : List State.Action) {s : State}, Counted s → Pinned s →
    Acted s (as.foldl State.act s) (as.flatMap State.Action.destroyed)
  | [], s, h, hpin => ⟨h, hpin, le_refl _, fun j _ => by simp⟩
  | a :: as, s, h, hpin => by
      have hfirst := act_acted h hpin a
      have hrest := acts_acted as hfirst.counted hfirst.pinned
      refine ⟨hrest.counted, hrest.pinned, le_trans hfirst.grows hrest.grows, fun j hj => ?_⟩
      rw [List.foldl_cons, hrest.find j (lt_of_lt_of_le hj hfirst.grows), hfirst.find j hj,
        List.flatMap_cons]
      by_cases h₁ : j ∈ a.destroyed <;> by_cases h₂ : j ∈ as.flatMap State.Action.destroyed <;>
        simp [h₁, h₂]

/-! ### Loops -/

theorem edit_acted {f : ThumbnailBuffer → Thumbnail → Thumbnail} (hf : ∀ tb t, (f tb t).id = t.id)
    (h : Counted s) (hpin : Pinned s) (id : ℕ) :
    Counted (s.edit id f) ∧ Pinned (s.edit id f) ∧ (s.edit id f).thumbnails = s.thumbnails ∧
      (∀ j, ((s.edit id f).find j).isSome = (s.find j).isSome) ∧
      ∀ j ≠ id, (s.edit id f).find j = s.find j := by
  have hcounted := edit_counted hf h id
  obtain ⟨tb, ho, hcan⟩ := hpin
  rw [State.edit, ho] at hcounted ⊢
  dsimp only at hcounted ⊢
  have hids : ∀ t : Thumbnail, (if t.id = id then (f tb t) else t).id = t.id := by
    intro t
    split_ifs
    · exact hf tb t
    · rfl
  refine ⟨hcounted, ⟨_, rfl, hcan⟩, rfl, fun j => ?_, fun j hj => ?_⟩
  · rw [find_eq_of_owner rfl, find_eq_of_owner ho, List.find?_map]
    simp [hids]
  · rw [find_eq_of_owner rfl, find_eq_of_owner ho, List.find?_map]
    simp only [Function.comp_def, hids]
    cases hfound : tb.thumbnails.find? (fun t => decide (t.id = j)) with
    | none => rfl
    | some t =>
      have ht : t.id = j := by simpa using List.find?_some hfound
      rw [Option.map_some, if_neg (by rw [ht]; exact hj)]

/-- The loop over the thumbnails, where `told` are those that get the update. -/
structure Telling (p : Thumbnail → Bool) (told : ℕ → Bool) (rest : List ℕ) (s : State) : Prop where
  counted : Counted s
  pinned : Pinned s
  nodup : rest.Nodup
  made : ∀ i ∈ rest, i < s.thumbnails
  flags : ∀ i ∈ rest, (s.find i).isSome = true → (s.find i).any p = told i

theorem Telling.skip {p : Thumbnail → Bool} {told : ℕ → Bool} {i : ℕ} {rest : List ℕ}
    (h : Telling p told (i :: rest) s) : Telling p told rest s :=
  ⟨h.counted, h.pinned, (List.nodup_cons.mp h.nodup).2,
    fun j hj => h.made j (List.mem_cons_of_mem _ hj),
    fun j hj => h.flags j (List.mem_cons_of_mem _ hj)⟩

/-- The thumbnails that the listener of `i` destroys, if it gets the update. -/
def destroyedBy (told : ℕ → Bool) (listener : ℕ → List State.Action) (i : ℕ) : List ℕ :=
  if told i then (listener i).flatMap State.Action.destroyed else []

/-- What the body of a loop does: the update and its listener, or something to the thumbnail only. -/
structure Body (p : Thumbnail → Bool) (listener : ℕ → List State.Action)
    (body : State → ℕ → State) : Prop where
  told : ∀ s i, (s.find i).any p = true → ∃ f : ThumbnailBuffer → Thumbnail → Thumbnail,
    (∀ tb t, (f tb t).id = t.id) ∧ body s i = (listener i).foldl State.act (s.edit i f)
  untold : ∀ s i, (s.find i).any p = false → ∃ f : ThumbnailBuffer → Thumbnail → Thumbnail,
    (∀ tb t, (f tb t).id = t.id) ∧ body s i = s.edit i f

theorem Telling.body {p : Thumbnail → Bool} {told : ℕ → Bool} {listener : ℕ → List State.Action}
    {body : State → ℕ → State} (hbody : Body p listener body) {i : ℕ} {rest : List ℕ}
    (h : Telling p told (i :: rest) s) (hlive : s.live i = true) :
    Telling p told rest (body s i) ∧ ∀ j ∈ rest,
      (body s i).live j = (s.live j && decide (j ∉ destroyedBy told listener i)) := by
  rw [live_eq_isSome] at hlive
  have hflag := h.flags i List.mem_cons_self hlive
  obtain ⟨hi, hnodup⟩ := List.nodup_cons.mp h.nodup
  have hmade := fun j hj => h.made j (List.mem_cons_of_mem i hj)
  have hne : ∀ j ∈ rest, j ≠ i := fun j hj heq => hi (heq ▸ hj)
  cases htold : told i with
  | true =>
    obtain ⟨f, hf, heq⟩ := hbody.told s i (hflag.trans htold)
    obtain ⟨hcounted, hpin, hn, -, hfind⟩ := edit_acted hf h.counted h.pinned i
    have hacted := acts_acted (listener i) hcounted hpin
    have hall : ∀ j ∈ rest, (body s i).find j =
        if j ∈ destroyedBy told listener i then none else s.find j := by
      intro j hj
      rw [heq, hacted.find j (hn ▸ hmade j hj), hfind j (hne j hj), destroyedBy, htold, if_pos rfl]
    refine ⟨⟨heq ▸ hacted.counted, heq ▸ hacted.pinned, hnodup, fun j hj => ?_, fun j hj hj' => ?_⟩,
      fun j hj => ?_⟩
    · rw [heq]
      exact lt_of_lt_of_le (hn ▸ hmade j hj) hacted.grows
    · rw [hall j hj] at hj' ⊢
      split_ifs at hj' ⊢ with hd
      · cases hj'
      · exact h.flags j (List.mem_cons_of_mem _ hj) hj'
    · rw [live_eq_isSome, live_eq_isSome, hall j hj]
      split_ifs with hd <;> simp [hd]
  | false =>
    obtain ⟨f, hf, heq⟩ := hbody.untold s i (hflag.trans htold)
    obtain ⟨hcounted, hpin, hn, -, hfind⟩ := edit_acted hf h.counted h.pinned i
    rw [heq]
    refine ⟨⟨hcounted, hpin, hnodup, fun j hj => hn ▸ hmade j hj, fun j hj hj' => ?_⟩,
      fun j hj => ?_⟩
    · rw [hfind j (hne j hj)] at hj' ⊢
      exact h.flags j (List.mem_cons_of_mem _ hj) hj'
    · rw [live_eq_isSome, live_eq_isSome, hfind j (hne j hj), destroyedBy, htold]
      simp

theorem edit_same (s : State) (id : ℕ) : s.edit id (fun _ t => t) = s := by
  rw [State.edit]
  split
  · rfl
  · next tb ho =>
    simp only [ite_self, List.map_id', State.setOwner]
    rw [← ho]

theorem update_body (changed : Bool) (listener : ℕ → List State.Action) :
    Body Thumbnail.wantsUpdate listener (State.update changed listener) := by
  refine ⟨fun s i h => ⟨_, fun _ _ => ?_, if_pos h⟩, fun s i h => ⟨_, fun _ _ => ?_, if_neg ?_⟩⟩
  · rfl
  · rfl
  · rw [h]
    exact Bool.false_ne_true

theorem updateForced_body (listener : ℕ → List State.Action) :
    Body (fun t => t.wantsUpdate && t.forceUpdate) listener (State.updateForced listener) := by
  refine ⟨fun s i h => ⟨_, fun _ _ => ?_, if_pos h⟩, fun s i h => ⟨fun _ t => t, fun _ _ => rfl, ?_⟩⟩
  · rfl
  · rw [edit_same, State.updateForced, if_neg]
    rw [h]
    exact Bool.false_ne_true

/-- No listener that is told destroys the thumbnail that follows. -/
def listenersSpareNext (p : Thumbnail → Bool) (tb : ThumbnailBuffer)
    (listener : ℕ → List State.Action) : Bool :=
  sparesNext (destroyedBy (fun i => (tb.thumbnails.find? fun t => t.id = i).any p) listener)
    (fun i => i ∈ tb.ids) tb.ids

theorem notifyAll_counted {p : Thumbnail → Bool} {listener : ℕ → List State.Action}
    {body : State → ℕ → State} (hbody : Body p listener body) (h : Counted (s.setOwner tb))
    (hspares : listenersSpareNext p tb listener = true) : Counted (s.notifyAll tb body) := by
  have hstart : Telling p (fun i => (tb.thumbnails.find? fun t => t.id = i).any p) tb.ids
      (s.setOwner { tb with canDestroy := false }) := by
    have hids : tb.ids = linked (s.setOwner tb).owner := rfl
    refine ⟨h.setOwner rfl rfl rfl rfl, ⟨_, rfl, rfl⟩, hids ▸ h.thumbnails.nodup, fun i hi => ?_,
      fun i _ _ => rfl⟩
    exact h.thumbnails.lt (hids ▸ hi)
  have hrun : (forEachSafe State.live body (s.setOwner { tb with canDestroy := false }) none
      tb.ids).isSome = true :=
    forEachSafe_isSome (fun s i rest hI hlive => (hI.body hbody hlive).1)
      (fun s i rest hI _ => hI.skip) (fun s i rest hI hlive => (hI.body hbody hlive).2) tb.ids _ none
      hstart (fun t ht => by cases ht) hspares
  obtain ⟨s', hs'⟩ := Option.isSome_iff_exists.mp hrun
  have hend := forEachSafe_inv (fun s i rest hI hlive => (Telling.body hbody hI hlive).1)
    (fun s i rest hI _ => hI.skip) tb.ids hstart hs'
  obtain ⟨tb', ho, -⟩ := hend.pinned
  rw [State.notifyAll, hs']
  dsimp only
  rw [ho]
  exact thumbnailBufferDestroy_counted (hend.counted.setOwner ho rfl rfl rfl)

/-! ### Frames -/

/-- A render that fails after it has a buffer. -/
def failsLate (type : ThumbnailType) (result : RenderResult) : Bool :=
  result = .noPass ∨ result = .notSubmitted ∨ (type ≠ .workspace ∧ result = .syncFailed)

/-- The buffer that is there has the right size. -/
def reuses (tb : ThumbnailBuffer) (width height : ℤ) : Bool :=
  tb.buffer.any fun b => b.width = width ∧ b.height = height

/-- The render comes to its end. -/
def succeeds (type : ThumbnailType) (tb : ThumbnailBuffer) (width height : ℤ)
    (result : RenderResult) : Bool :=
  !failsLate type result && !decide (type = .node ∧ result = .emptyBox) &&
    (decide (result ≠ .noBuffer) || reuses tb width height)

theorem allocate_cases (s : State) (tb : ThumbnailBuffer) (width height : ℤ) (made : Bool) :
    (∃ b, tb.buffer = some b ∧ reuses tb width height = true ∧
      s.thumbnailBufferAllocate tb width height made = (s, some b)) ∨
    (∃ b, b.id = s.buffers ∧ made = true ∧ s.thumbnailBufferAllocate tb width height made =
      ({ s with buffers := s.buffers + 1 }, some b)) ∨
    (made = false ∧ reuses tb width height = false ∧
      s.thumbnailBufferAllocate tb width height made = (s, none)) := by
  rw [State.thumbnailBufferAllocate, reuses]
  cases tb.buffer with
  | none =>
    cases made with
    | true => exact .inr (.inl ⟨_, rfl, rfl, rfl⟩)
    | false => exact .inr (.inr ⟨rfl, rfl, rfl⟩)
  | some b =>
    by_cases hsame : b.width = width ∧ b.height = height
    · exact .inl ⟨b, rfl, by simpa using hsame, if_pos hsame⟩
    · dsimp only
      rw [if_neg hsame]
      cases made with
      | true => exact .inr (.inl ⟨_, rfl, rfl, rfl⟩)
      | false => exact .inr (.inr ⟨rfl, by simpa using hsame, rfl⟩)

/-- What `render` does: it renders to the old buffer or to a new one, or fails, and drops the buffer
    that it failed with. -/
theorem render_cases (s : State) (type : ThumbnailType) (tb : ThumbnailBuffer) (width height : ℤ)
    (result : RenderResult) :
    (∃ b, tb.buffer = some b ∧ succeeds type tb width height result = true ∧
      reuses tb width height = true ∧ s.render type tb width height result = (s, some b)) ∨
    (∃ b, b.id = s.buffers ∧ succeeds type tb width height result = true ∧
      s.render type tb width height result = ({ s with buffers := s.buffers + 1 }, some b)) ∨
    (∃ b, tb.buffer = some b ∧ failsLate type result = true ∧ reuses tb width height = true ∧
      s.render type tb width height result = (s.wlrBufferDrop (some b), none)) ∨
    (∃ b, b.id = s.buffers ∧ failsLate type result = true ∧ s.render type tb width height result =
      ({ s with buffers := s.buffers + 1 }.wlrBufferDrop (some b), none)) ∨
    (succeeds type tb width height result = false ∧
      s.render type tb width height result = (s, none)) := by
  by_cases hempty : type = .node ∧ result = .emptyBox
  · exact .inr (.inr (.inr (.inr ⟨by simp [succeeds, hempty], if_pos hempty⟩)))
  rw [State.render, if_neg hempty]
  obtain ⟨b, hb, hreuses, heq⟩ | ⟨b, hb, hmade, heq⟩ | ⟨hmade, hreuses, heq⟩ :=
    allocate_cases s tb width height (decide (result ≠ .noBuffer))
  · rw [heq]
    dsimp only
    split_ifs with hlate
    · exact .inr (.inr (.inl ⟨b, hb, by simpa [failsLate] using hlate, hreuses, rfl⟩))
    · refine .inl ⟨b, hb, ?_, hreuses, rfl⟩
      simp only [succeeds, failsLate, hlate, hempty, hreuses]
      simp
  · rw [heq]
    dsimp only
    split_ifs with hlate
    · exact .inr (.inr (.inr (.inl ⟨b, hb, by simpa [failsLate] using hlate, rfl⟩)))
    · refine .inr (.inl ⟨b, hb, ?_, rfl⟩)
      simp only [succeeds, failsLate, hlate, hempty, hmade]
      simp
  · rw [heq]
    exact .inr (.inr (.inr (.inr ⟨by simp only [succeeds, hmade, hreuses, Bool.or_self,
      Bool.and_false], rfl⟩)))

/-- No frame fails late with the buffer that the thumbnail buffer holds, and no listener destroys the
    thumbnail that follows its own. -/
def releasesOnce (type : ThumbnailType) (s : State) : Event → Bool
  | .frame width height result listener =>
    s.owner.all fun tb =>
      if !tb.wasDamaged then
        listenersSpareNext (fun t => t.wantsUpdate && t.forceUpdate) tb listener
      else if !tb.thumbnails.any Thumbnail.wantsUpdate then true
      else if succeeds type tb width height result then
        listenersSpareNext Thumbnail.wantsUpdate tb listener
      else !(failsLate type result && reuses tb width height)
  | _ => true

/-- Something that was just made and is not held is released. -/
theorem Once.make_release {gone kept : List ℕ} {n : ℕ} (h : Once gone kept n) :
    Once (gone ++ [n]) kept (n + 1) :=
  h.make.release (.refl _)

theorem render_counted {type : ThumbnailType} {width height : ℤ} {result : RenderResult}
    {listener : ℕ → List State.Action} (h : Counted s) (ho : s.owner = some tb)
    (hok : releasesOnce type s (.frame width height result listener) = true) :
    Counted (s.thumbnailBufferRender type tb width height result listener) := by
  have hself : s.setOwner tb = s := by rw [State.setOwner, ← ho]
  rw [releasesOnce, ho, Option.all_some] at hok
  rw [State.thumbnailBufferRender]
  by_cases hdamaged : tb.wasDamaged = true
  swap
  · rw [if_pos (by simpa using hdamaged)] at hok ⊢
    exact notifyAll_counted (updateForced_body listener) (hself.symm ▸ h) hok
  rw [if_neg (by simpa using hdamaged)] at hok ⊢
  by_cases hwants : tb.thumbnails.any Thumbnail.wantsUpdate = true
  swap
  · rw [if_pos (by simpa using hwants)]
    exact h
  rw [if_neg (by simpa using hwants)] at hok ⊢
  have hb := h.buffers
  rw [ho] at hb
  obtain ⟨b, hbuffer, hsucc, -, heq⟩ | ⟨b, hid, hsucc, heq⟩ | ⟨b, hbuffer, hlate, hreuses, heq⟩ |
    ⟨b, hid, -, heq⟩ | ⟨-, heq⟩ := render_cases s type tb width height result
  · -- the old buffer again
    rw [if_pos hsucc] at hok
    rw [heq]
    have hchanged : decide (tb.buffer.map WlrBuffer.id ≠ some b.id) = false := by
      simp [hbuffer]
    dsimp only
    rw [hchanged, if_neg Bool.false_ne_true]
    refine notifyAll_counted (update_body _ listener) ?_ hok
    exact h.setOwner ho rfl rfl hbuffer.symm
  · -- a new buffer
    rw [if_pos hsucc] at hok
    rw [heq]
    have hchanged : decide (tb.buffer.map WlrBuffer.id ≠ some b.id) = true := by
      rw [decide_eq_true_eq, hid]
      intro hold
      exact absurd (hb.lt (a := s.buffers) (by simp [held, hold])) (lt_irrefl _)
    dsimp only
    rw [hchanged, if_pos rfl]
    refine notifyAll_counted (update_body _ listener) ?_ hok
    rw [wlrBufferDrop_eq]
    obtain ⟨-, ht, hw, hf⟩ := h
    rw [ho] at ht hw
    refine ⟨?_, ht, hw, hf⟩
    change Once _ [b.id] _
    rw [hid]
    exact hb.make.release (List.perm_append_singleton _ _).symm
  · -- the old buffer was dropped
    rw [hlate, hreuses, if_neg (by simp [succeeds, hlate])] at hok
    cases hok
  · rw [heq]
    refine thumbnailBufferDestroy_counted ?_
    rw [wlrBufferDrop_eq]
    obtain ⟨-, ht, hw, hf⟩ := h
    rw [ho] at ht hw
    refine ⟨?_, ht, hw, hf⟩
    change Once (s.drops ++ [b.id]) (held (some tb)) (s.buffers + 1)
    rw [hid]
    exact hb.make_release
  · rw [heq]
    exact thumbnailBufferDestroy_counted (h.setOwner ho rfl rfl rfl)

/-! ### Runs -/

theorem step_counted {type : ThumbnailType} {ev : Event} (h : Counted s)
    (hok : releasesOnce type s ev = true) (hs : step type s ev = some s') : Counted s' := by
  simp only [step, h.no_fault, Bool.false_eq_true, if_false] at hs
  cases ev with
  | create =>
    cases hs
    exact thumbnailCreate_counted h
  | destroy id =>
    dsimp only at hs
    split_ifs at hs
    cases hs
    exact thumbnailDestroy_counted h id
  | markWantsUpdate id wants =>
    dsimp only at hs
    split_ifs at hs
    cases hs
    rw [markWantsUpdate_eq]
    refine edit_counted (fun _ _ => ?_) h id
    rfl
  | sourceDamage =>
    obtain ⟨tb, ho, rfl⟩ := Option.map_eq_some_iff.mp hs
    exact h.setOwner ho rfl rfl rfl
  | sourceDestroy =>
    obtain ⟨tb, ho, rfl⟩ := Option.map_eq_some_iff.mp hs
    exact thumbnailBufferDestroy_counted (h.setOwner ho rfl rfl rfl)
  | frame width height result listener =>
    obtain ⟨tb, ho, rfl⟩ := Option.map_eq_some_iff.mp hs
    exact render_counted h ho hok

theorem Once.count {gone kept : List ℕ} {n a : ℕ} (h : Once gone kept n) (ha : a < n) :
    gone.count a = if a ∈ kept then 0 else 1 := by
  have hsum := h.count_eq a
  rw [List.count_append, List.count_eq_one_of_mem List.nodup_range (List.mem_range.mpr ha)] at hsum
  split_ifs with hk
  · rw [List.count_eq_one_of_mem h.nodup hk] at hsum
    omega
  · rw [List.count_eq_zero_of_not_mem hk] at hsum
    omega

end FlakeWm.Thumbnails
