import Mathlib.Data.List.Perm.Basic
import FlakeWm.Workspaces.Model

/-! The array of workspaces stays an array: distinct live workspaces, each at its own position.

    The three shifting loops differ in direction and in what they tell the clients, but every round
    writes one slot and renumbers the workspace it moved there (`Moves`). `Reslotted` is what holds
    after some rounds: the workspaces in the slots written so far have the index of their slot, and
    the others kept their number. -/

namespace FlakeWm.Workspaces

namespace Manager

variable {m m' m'' : Manager}

/-! ### What the functions keep -/

/-- The part of the manager that no shifting loop, name or signal changes. -/
structure Kept (m m' : Manager) : Prop where
  count : m'.count = m.count
  current : m'.current = m.current
  live : m'.live = m.live
  next : m'.next = m.next
  activated : ∀ w, (m'.workspace w).activated = (m.workspace w).activated

/-- `Kept`, and the array with the positions is the same as well. -/
structure SameArray (m m' : Manager) : Prop extends Kept m m' where
  slots : m'.slots = m.slots
  position : ∀ w, (m'.workspace w).position = (m.workspace w).position

theorem Kept.trans (h : Kept m m') (h' : Kept m' m'') : Kept m m'' :=
  ⟨h'.count.trans h.count, h'.current.trans h.current, h'.live.trans h.live, h'.next.trans h.next,
    fun w => (h'.activated w).trans (h.activated w)⟩

theorem SameArray.trans (h : SameArray m m') (h' : SameArray m' m'') : SameArray m m'' :=
  ⟨h.toKept.trans h'.toKept, h'.slots.trans h.slots,
    fun w => (h'.position w).trans (h.position w)⟩

theorem SameArray.refl (m : Manager) : SameArray m m :=
  ⟨⟨rfl, rfl, rfl, rfl, fun _ => rfl⟩, rfl, fun _ => rfl⟩

theorem notify_sameArray (m : Manager) (w : WorkspaceId) (f : Workspace → Mirror → Mirror) :
    SameArray m (m.notify w f) := ⟨⟨rfl, rfl, rfl, rfl, fun _ => rfl⟩, rfl, fun _ => rfl⟩

/-- Rewriting a workspace without touching its position and its activation. -/
theorem setWorkspace_sameArray (m : Manager) (w : WorkspaceId) {x : Workspace}
    (hp : x.position = (m.workspace w).position) (ha : x.activated = (m.workspace w).activated) :
    SameArray m (m.setWorkspace w x) := by
  refine ⟨⟨rfl, rfl, rfl, rfl, fun w' => ?_⟩, rfl, fun w' => ?_⟩
  · rcases eq_or_ne w' w with rfl | hne
    · simp [setWorkspace, ha]
    · simp [setWorkspace, hne]
  · rcases eq_or_ne w' w with rfl | hne
    · simp [setWorkspace, hp]
    · simp [setWorkspace, hne]

theorem updateName_sameArray (m : Manager) (w : WorkspaceId) (name : Option String) :
    SameArray m (m.updateName w name) := by
  unfold updateName
  simp only
  split_ifs
  · exact .refl m
  · refine (setWorkspace_sameArray m w ?_ ?_).trans (notify_sameArray _ w _) <;> rfl

/-! ### The shifting loops -/

/-- One round of a shifting loop: slot `i` gets the workspace of slot `j`, which gets number `i`. -/
structure Moves (i j : ℕ) (m m' : Manager) : Prop extends Kept m m' where
  slots : m'.slots = Function.update m.slots i (m.slots j)
  position : ∀ w, (m'.workspace w).position =
    if w = m.slots j then i else (m.workspace w).position

theorem moveSlot_moves (m : Manager) (i j : ℕ) : Moves i j m (m.moveSlot i j) := by
  refine ⟨⟨rfl, rfl, rfl, rfl, fun w => ?_⟩, rfl, fun w => ?_⟩
  · rcases eq_or_ne w (m.slots j) with rfl | hne
    · simp [moveSlot, putSlot]
    · simp [moveSlot, putSlot, hne]
  · rcases eq_or_ne w (m.slots j) with rfl | hne
    · simp [moveSlot, putSlot]
    · simp [moveSlot, putSlot, hne]

theorem Moves.sameArray {i j : ℕ} (h : Moves i j m m') (h' : SameArray m' m'') : Moves i j m m'' :=
  ⟨h.toKept.trans h'.toKept, h'.slots.trans h.slots, fun w => (h'.position w).trans (h.position w)⟩

theorem renumberSlot_moves (m : Manager) (i j : ℕ) : Moves i j m (m.renumberSlot i j) :=
  (moveSlot_moves m i j).sameArray
    ((notify_sameArray _ _ _).trans (updateName_sameArray _ _ _))

/-- The workspaces in the slots `moved` have the number of their slot, the others their old one. -/
structure Reslotted (moved : ℕ → Prop) (m m' : Manager) : Prop extends Kept m m' where
  moved_position : ∀ i, moved i → (m'.workspace (m'.slots i)).position = i
  other_position : ∀ w, (∀ i, moved i → m'.slots i ≠ w) →
    (m'.workspace w).position = (m.workspace w).position

/-- A round that moves a workspace no slot of `moved` has adds its slot. -/
theorem Reslotted.step {moved moved' : ℕ → Prop} {i j : ℕ} (h : Reslotted moved m m')
    (hm : Moves i j m' m'') (hnew : ∀ k, moved' k ↔ moved k ∨ k = i) (hi : ¬ moved i)
    (hfresh : ∀ k, moved k → m'.slots k ≠ m'.slots j) : Reslotted moved' m m'' := by
  have hslot : ∀ k, moved k → m''.slots k = m'.slots k := by
    intro k hk
    rw [hm.slots, Function.update_of_ne]
    rintro rfl
    exact hi hk
  have hself : m''.slots i = m'.slots j := by rw [hm.slots, Function.update_self]
  refine ⟨h.toKept.trans hm.toKept, fun k hk => ?_, fun w hw => ?_⟩
  · rcases (hnew k).mp hk with hk | rfl
    · rw [hslot k hk, hm.position, if_neg (hfresh k hk)]
      have hpos := h.moved_position k hk
      exact hpos
    · rw [hself, hm.position, if_pos rfl]
  · have hne : w ≠ m'.slots j := fun heq => hw i ((hnew i).mpr (.inr rfl)) (hself.trans heq.symm)
    rw [hm.position, if_neg hne]
    refine h.other_position w fun k hk => ?_
    rw [← hslot k hk]
    exact hw k ((hnew k).mpr (.inl hk))

/-- The workspaces in the first `n` slots are distinct. -/
def Distinct (m : Manager) (n : ℕ) : Prop := ∀ i < n, ∀ j < n, m.slots i = m.slots j → i = j

/-- A loop that makes room: `workspace_create`, and `workspace_set_position` towards the front. -/
theorem downLoop_reslotted {body : Manager → ℕ → Manager}
    (hbody : ∀ m i, Moves i (i - 1) m (body m i)) {lo hi n : ℕ} (hlo : lo ≤ hi) (hhi : hi ≤ n)
    (hd : Distinct m n) :
    Reslotted (fun k => lo < k ∧ k ≤ hi) m (downLoop hi lo body m) ∧
      (downLoop hi lo body m).slots = shiftedUp m.slots lo hi := by
  refine downLoop_inv (P := fun i m' => Reslotted (fun k => i < k ∧ k ≤ hi) m m' ∧
    m'.slots = shiftedUp m.slots i hi) hlo ?_ ?_
  · rintro i m' hlt hle ⟨hr, hs⟩
    have hsrc : m'.slots (i - 1) = m.slots (i - 1) := by
      rw [hs, shiftedUp, if_neg (by omega)]
    refine ⟨hr.step (hbody m' i) (fun k => by omega) (by omega) fun k hk => ?_, ?_⟩
    · rw [hsrc, hs, shiftedUp, if_pos hk]
      intro heq
      have := hd (k - 1) (by omega) (i - 1) (by omega) heq
      omega
    · rw [(hbody m' i).slots, hs]
      exact shiftedUp_step m.slots hle (by omega)
  · refine ⟨⟨⟨rfl, rfl, rfl, rfl, fun _ => rfl⟩, fun k hk => by omega, fun _ _ => rfl⟩, ?_⟩
    funext j
    rw [shiftedUp, if_neg (by omega)]

/-- A loop that closes a gap: `fix_workspace`, and `workspace_set_position` towards the end. -/
theorem upLoop_reslotted {body : Manager → ℕ → Manager}
    (hbody : ∀ m i, Moves i (i + 1) m (body m i)) {lo hi n : ℕ} (hlo : lo ≤ hi) (hhi : hi < n)
    (hd : Distinct m n) :
    Reslotted (fun k => lo ≤ k ∧ k < hi) m (upLoop lo hi body m) ∧
      (upLoop lo hi body m).slots = shiftedDown m.slots lo hi := by
  refine upLoop_inv (P := fun i m' => Reslotted (fun k => lo ≤ k ∧ k < i) m m' ∧
    m'.slots = shiftedDown m.slots lo i) hlo ?_ ?_
  · rintro i m' hle hlt ⟨hr, hs⟩
    have hsrc : m'.slots (i + 1) = m.slots (i + 1) := by
      rw [hs, shiftedDown, if_neg (by omega)]
    refine ⟨hr.step (hbody m' i) (fun k => by omega) (by omega) fun k hk => ?_, ?_⟩
    · rw [hsrc, hs, shiftedDown, if_pos hk]
      intro heq
      have := hd (k + 1) (by omega) (i + 1) (by omega) heq
      omega
    · rw [(hbody m' i).slots, hs]
      exact shiftedDown_step m.slots hle
  · refine ⟨⟨⟨rfl, rfl, rfl, rfl, fun _ => rfl⟩, fun k hk => by omega, fun _ _ => rfl⟩, ?_⟩
    funext j
    rw [shiftedDown, if_neg (by omega)]

/-! ### The invariant -/

/-- The used slots hold the live workspaces, each once and at its own position. -/
structure ArrayOk (m : Manager) : Prop where
  count_le : m.count ≤ MAX_WORKSPACES
  distinct : Distinct m m.count
  live_iff : ∀ w, m.live w = true ↔ ∃ i < m.count, m.slots i = w
  position : ∀ i < m.count, (m.workspace (m.slots i)).position = i
  fresh : ∀ w, m.live w = true → w < m.next

/-- A workspace is activated exactly when it is the current one. -/
structure ActiveOk (m : Manager) : Prop where
  activated : ∀ w, m.live w = true → ((m.workspace w).activated = true ↔ m.current = some w)

/-- What `ArrayOk` reads. -/
structure SamePlaces (m m' : Manager) : Prop where
  slots : m'.slots = m.slots
  count : m'.count = m.count
  live : m'.live = m.live
  next : m'.next = m.next
  position : ∀ w, (m'.workspace w).position = (m.workspace w).position

theorem SameArray.places (h : SameArray m m') : SamePlaces m m' :=
  ⟨h.slots, h.count, h.live, h.next, h.position⟩

theorem SamePlaces.trans (h : SamePlaces m m') (h' : SamePlaces m' m'') : SamePlaces m m'' :=
  ⟨h'.slots.trans h.slots, h'.count.trans h.count, h'.live.trans h.live, h'.next.trans h.next,
    fun w => (h'.position w).trans (h.position w)⟩

theorem ArrayOk.samePlaces (h : ArrayOk m) (hs : SamePlaces m m') : ArrayOk m' := by
  refine ⟨?_, ?_, ?_, ?_, ?_⟩
  · rw [hs.count]; exact h.count_le
  · rw [Distinct, hs.count, hs.slots]; exact h.distinct
  · rw [hs.live, hs.count, hs.slots]; exact h.live_iff
  · rw [hs.count, hs.slots]
    intro i hi
    rw [hs.position]
    exact h.position i hi
  · rw [hs.live, hs.next]; exact h.fresh

theorem ActiveOk.kept (h : ActiveOk m) (hk : Kept m m') : ActiveOk m' := by
  refine ⟨fun w hw => ?_⟩
  rw [hk.activated, hk.current]
  exact h.activated w (hk.live ▸ hw)

/-- A live workspace is in the slot of its position. -/
theorem ArrayOk.slot_position (h : ArrayOk m) {w : WorkspaceId} (hw : m.live w = true) :
    (m.workspace w).position < m.count ∧ m.slots (m.workspace w).position = w := by
  obtain ⟨i, hi, rfl⟩ := (h.live_iff w).mp hw
  rw [h.position i hi]
  exact ⟨hi, rfl⟩

theorem order_eq (hs : m'.slots = m.slots) (hc : m'.count = m.count) : m'.order = m.order := by
  rw [order, order, hs, hc]

/-! ### Creation -/

/-- Making room and writing the new workspace. -/
theorem allocate_ok (h : ArrayOk m) {position : ℕ} (hpos : position ≤ m.count)
    (hroom : m.count < MAX_WORKSPACES)
    (hr : Reslotted (fun k => position < k ∧ k ≤ m.count) m m')
    (hs : m'.slots = shiftedUp m.slots position m.count) :
    ArrayOk (m'.allocate position) ∧
      (m'.allocate position).order = m.order.insertIdx position m.next := by
  have hfree : m.next ∉ m.order := by
    intro hmem
    obtain ⟨i, hi, heq⟩ := mem_listing.mp hmem
    exact lt_irrefl _ (h.fresh m.next ((h.live_iff _).mpr ⟨i, hi, heq⟩))
  have hlen : position ≤ m.order.length := by rw [order, length_listing]; exact hpos
  have horder : (m'.allocate position).order = m.order.insertIdx position m.next := by
    have hl := listing_insert m.slots m.next hpos
    rw [order, allocate, order, ← hl, hr.next, hr.count, hs]
  have hcount : (m'.allocate position).count = m.count + 1 := congrArg (· + 1) hr.count
  have hmem : ∀ w, (∃ i < m.count + 1, (m'.allocate position).slots i = w) ↔
      w = m.next ∨ ∃ i < m.count, m.slots i = w := by
    intro w
    rw [← hcount, ← mem_listing, ← mem_listing]
    change w ∈ (m'.allocate position).order ↔ w = m.next ∨ w ∈ m.order
    rw [horder, List.mem_insertIdx hlen]
  refine ⟨⟨?_, ?_, ?_, ?_, ?_⟩, horder⟩
  · rw [hcount]; exact hroom
  · rw [Distinct, ← nodup_listing]
    change (m'.allocate position).order.Nodup
    rw [horder, (List.perm_insertIdx m.next m.order hlen).nodup_iff]
    exact List.nodup_cons.mpr ⟨hfree, nodup_listing.mpr h.distinct⟩
  · intro w
    rw [hcount, hmem, ← h.live_iff]
    rcases eq_or_ne w m.next with rfl | hne
    · simp [allocate, hr.next]
    · simp [allocate, hr.next, hr.live, hne]
  · intro i hi
    rw [hcount] at hi
    rcases eq_or_ne i position with rfl | hne
    · simp [allocate]
    · -- the moved workspaces were renumbered, the ones before the gap were not touched
      have hslot : (m'.allocate position).slots i = m'.slots i := Function.update_of_ne hne _ _
      have hold : m'.slots i ∈ m.order := by
        rw [hs, shiftedUp]
        split_ifs
        · exact mem_listing.mpr ⟨i - 1, by omega, rfl⟩
        · exact mem_listing.mpr ⟨i, by omega, rfl⟩
      have hne' : m'.slots i ≠ m'.next := by
        rw [hr.next]
        exact fun heq => hfree (heq ▸ hold)
      rw [hslot]
      have hws : (m'.allocate position).workspace (m'.slots i) = m'.workspace (m'.slots i) :=
        Function.update_of_ne hne' _ _
      rw [hws]
      rcases lt_or_gt_of_ne hne with hlt | hgt
      · have hi' : m'.slots i = m.slots i := by rw [hs, shiftedUp, if_neg (by omega)]
        rw [hr.other_position, hi', h.position i (by omega)]
        intro k hk heq
        rw [hi', hs, shiftedUp, if_pos hk] at heq
        have := h.distinct (k - 1) (by omega) i (by omega) heq
        omega
      · exact hr.moved_position i ⟨hgt, by omega⟩
  · intro w hw
    have hnext : (m'.allocate position).next = m.next + 1 := congrArg (· + 1) hr.next
    rw [hnext]
    rcases eq_or_ne w m.next with rfl | hne
    · exact Nat.lt_succ_self _
    · have hlive : (m'.allocate position).live w = m.live w := by
        simp [allocate, hr.next, hr.live, hne]
      exact Nat.lt_succ_of_lt (h.fresh w (hlive ▸ hw))

theorem emitNewWorkspace_sameArray (m : Manager) (w : WorkspaceId) :
    SameArray m (m.emitNewWorkspace w) := ⟨⟨rfl, rfl, rfl, rfl, fun _ => rfl⟩, rfl, fun _ => rfl⟩

/-- The position that `workspace_create` uses. -/
def clamped (m : Manager) (position : ℕ) : ℕ := if position > m.count then m.count else position

/-- `workspace_create` inserts a fresh workspace that is not activated. -/
theorem insert_ok (h : ArrayOk m) (ha : ActiveOk m) (hcur : ∀ w, m.current = some w → m.live w = true)
    (hroom : m.count < MAX_WORKSPACES) (name : Option String) (position : ℕ) :
    ArrayOk (m.insert name position) ∧ ActiveOk (m.insert name position) ∧
      (m.insert name position).order = m.order.insertIdx (m.clamped position) m.next ∧
      (m.insert name position).current = m.current ∧
      (m.insert name position).live = Function.update m.live m.next true := by
  have hpos : m.clamped position ≤ m.count := by
    unfold clamped
    split_ifs <;> omega
  obtain ⟨hr, hs⟩ := downLoop_reslotted (fun m i => moveSlot_moves m i (i - 1)) hpos le_rfl h.distinct
  obtain ⟨hok, horder⟩ := allocate_ok h hpos hroom hr hs
  set m₁ := downLoop m.count (m.clamped position) (fun m i => m.moveSlot i (i - 1)) m
  have hsame : SameArray (m₁.allocate (m.clamped position)) (m.insert name position) :=
    (updateName_sameArray _ _ _).trans (emitNewWorkspace_sameArray _ _)
  have hlive : (m₁.allocate (m.clamped position)).live = Function.update m.live m.next true := by
    rw [allocate, hr.next, hr.live]
  refine ⟨hok.samePlaces hsame.places, ?_, ?_, hsame.current.trans hr.current, hsame.live.trans hlive⟩
  · refine ActiveOk.kept (m := m₁.allocate (m.clamped position)) ⟨fun w hw => ?_⟩ hsame.toKept
    have hcur₁ : (m₁.allocate (m.clamped position)).current = m.current := hr.current
    rw [hcur₁]
    rcases eq_or_ne w m.next with rfl | hne
    · have hfresh : m.current ≠ some m.next := fun heq =>
        lt_irrefl _ (h.fresh m.next (hcur m.next heq))
      simp [allocate, hr.next, hfresh]
    · have hact : ((m₁.allocate (m.clamped position)).workspace w).activated =
          (m.workspace w).activated := by
        rw [← hr.activated w]
        simp [allocate, hr.next, hne]
      have hold : m.live w = true := by
        rw [hlive, Function.update_of_ne hne] at hw
        exact hw
      rw [hact]
      exact ha.activated w hold
  · exact (order_eq hsame.slots hsame.count).trans horder

/-! ### Removal -/

/-- What `fix_workspace` and the end of `workspace_destroy` do to the array: `w` is gone, and the
    workspaces behind it moved up. In between, `w` is in no slot but still there. -/
theorem remove_ok (h : ArrayOk m) {w : WorkspaceId} (hw : m.live w = true) :
    (m.remove w).order = m.order.eraseIdx (m.workspace w).position ∧
    ArrayOk { m.remove w with live := Function.update m.live w false } ∧
    Kept m { m.remove w with count := m.count } ∧
    ((m.remove w).workspace w).position = (m.workspace w).position := by
  obtain ⟨hlt, hslot⟩ := h.slot_position hw
  set position := (m.workspace w).position with hposition
  obtain ⟨hr, hs⟩ := upLoop_reslotted (fun m i => renumberSlot_moves m i (i + 1))
    (by omega : position ≤ m.count - 1) (by omega) h.distinct
  have heq : m.remove w = { upLoop position (m.count - 1) (fun m i => m.renumberSlot i (i + 1)) m with
      count := (upLoop position (m.count - 1) (fun m i => m.renumberSlot i (i + 1)) m).count - 1 } :=
    rfl
  set m₁ := upLoop position (m.count - 1) (fun m i => m.renumberSlot i (i + 1)) m
  have hslots : (m.remove w).slots = shiftedDown m.slots position (m.count - 1) := by rw [heq, ← hs]
  have hcount : (m.remove w).count = m.count - 1 := by rw [heq, ← hr.count]
  have hws : (m.remove w).workspace = m₁.workspace := by rw [heq]
  have horder : (m.remove w).order = m.order.eraseIdx position := by
    rw [order, hslots, hcount, listing_erase m.slots hlt, order]
  -- the workspace in every slot that is left, by where it was before
  have hsrc : ∀ i < m.count - 1, ∃ j < m.count, j ≠ position ∧ (m.remove w).slots i = m.slots j := by
    intro i hi
    rw [hslots, shiftedDown]
    split_ifs with hmoved
    · exact ⟨i + 1, by omega, by omega, rfl⟩
    · exact ⟨i, by omega, by omega, rfl⟩
  have hgone : ∀ i < m.count - 1, (m.remove w).slots i ≠ w := by
    intro i hi hiw
    obtain ⟨j, hj, hne, hij⟩ := hsrc i hi
    exact hne (h.distinct j hj position hlt (hij.symm.trans (hiw.trans hslot.symm)))
  refine ⟨horder, ⟨?_, ?_, ?_, ?_, ?_⟩, ?_, ?_⟩
  · change (m.remove w).count ≤ MAX_WORKSPACES
    have := h.count_le
    omega
  · rw [Distinct, ← nodup_listing]
    change (m.remove w).order.Nodup
    rw [horder]
    exact (nodup_listing.mpr h.distinct).sublist (List.eraseIdx_sublist ..)
  · intro u
    change Function.update m.live w false u = true ↔ ∃ i < (m.remove w).count, (m.remove w).slots i = u
    rw [hcount]
    rcases eq_or_ne u w with rfl | hne
    · rw [Function.update_self]
      simp only [Bool.false_eq_true, false_iff, not_exists, not_and]
      exact hgone
    · rw [Function.update_of_ne hne, h.live_iff]
      constructor
      · rintro ⟨j, hj, rfl⟩
        have hjp : j ≠ position := by
          rintro rfl
          exact hne hslot
        rcases lt_or_gt_of_ne hjp with hlt' | hgt
        · exact ⟨j, by omega, by rw [hslots, shiftedDown, if_neg (by omega)]⟩
        · refine ⟨j - 1, by omega, ?_⟩
          rw [hslots, shiftedDown, if_pos (by omega)]
          congr 1
          omega
      · rintro ⟨i, hi, rfl⟩
        obtain ⟨j, hj, -, hij⟩ := hsrc i hi
        exact ⟨j, hj, hij.symm⟩
  · intro i hi
    change ((m.remove w).workspace ((m.remove w).slots i)).position = i
    have hi' : i < m.count - 1 := hcount ▸ hi
    rw [hws, hslots, ← hs]
    rcases lt_or_ge i position with hlt' | hge
    · have hsame : m₁.slots i = m.slots i := by rw [hs, shiftedDown, if_neg (by omega)]
      rw [hr.other_position, hsame, h.position i (by omega)]
      intro k hk heq'
      rw [hsame, hs, shiftedDown, if_pos hk] at heq'
      have := h.distinct (k + 1) (by omega) i (by omega) heq'
      omega
    · exact hr.moved_position i ⟨hge, hi'⟩
  · intro u hu
    change u < (m.remove w).next
    have hnext : (m.remove w).next = m.next := by rw [heq, ← hr.next]
    rw [hnext]
    rcases eq_or_ne u w with rfl | hne
    · exact h.fresh u hw
    · have hu' : Function.update m.live w false u = true := hu
      rw [Function.update_of_ne hne] at hu'
      exact h.fresh u hu'
  · exact ⟨rfl, by rw [heq, ← hr.current], by rw [heq, ← hr.live], by rw [heq, ← hr.next],
      fun u => by rw [heq]; exact hr.activated u⟩
  · rw [hws, hr.other_position]
    intro k hk
    have hkw := hgone k (by omega)
    rwa [hslots, ← hs] at hkw

/-! ### Moving -/

/-- Writing `w` into the slot that the loop left free for it. -/
theorem writeBack_ok (h : ArrayOk m) {moved : ℕ → Prop} {w : WorkspaceId} {p q : ℕ}
    (hp : p < m.count) (hq : q < m.count) (hslot : m.slots p = w) (hr : Reslotted moved m m')
    (horder : listing (Function.update m'.slots q w) m.count =
      (m.order.eraseIdx p).insertIdx q w)
    (hq' : ¬ moved q) (hin : ∀ i, moved i → i < m.count)
    (hstay : ∀ i, ¬ moved i → i ≠ q → m'.slots i = m.slots i) :
    ArrayOk (m'.putSlot q w) ∧ Kept m (m'.putSlot q w) ∧
      (m'.putSlot q w).order.filter (· ≠ w) = m.order.filter (· ≠ w) := by
  set m₂ := m'.putSlot q w with hm₂
  have hget : m.order[p]? = some w := by rw [order, getElem?_listing, if_pos hp, hslot]
  have hlen : m.order.length = m.count := length_listing ..
  have hcount : m₂.count = m.count := hr.count
  have horder₂ : m₂.order = (m.order.eraseIdx p).insertIdx q w := by
    rw [← horder, ← hcount]
    rfl
  have hperm : m₂.order.Perm m.order := by
    rw [horder₂]
    have hq₂ : q ≤ (m.order.eraseIdx p).length := by
      rw [List.length_eraseIdx_of_lt (by omega)]
      omega
    refine (List.perm_insertIdx w _ hq₂).trans ?_
    have hw : w = m.order[p] := by
      rw [List.getElem?_eq_getElem (by omega), Option.some.injEq] at hget
      exact hget.symm
    rw [hw]
    exact List.getElem_cons_eraseIdx_perm (by omega)
  have hdistinct : Distinct m₂ m₂.count := by
    rw [Distinct, ← nodup_listing]
    exact hperm.nodup_iff.mpr (nodup_listing.mpr h.distinct)
  have hself : m₂.slots q = w := Function.update_self ..
  have hother : ∀ i, i ≠ q → m₂.slots i = m'.slots i := fun i hi => Function.update_of_ne hi ..
  have hkept : Kept m m₂ := by
    refine hr.toKept.trans ⟨rfl, rfl, rfl, rfl, fun u => ?_⟩
    rcases eq_or_ne u w with rfl | hne
    · simp [hm₂, putSlot]
    · simp [hm₂, putSlot, hne]
  refine ⟨⟨hcount ▸ h.count_le, hdistinct, fun u => ?_, fun i hi => ?_, ?_⟩, hkept, ?_⟩
  · rw [hkept.live, h.live_iff]
    rw [← mem_listing, ← mem_listing]
    exact (hperm.mem_iff).symm
  · rcases eq_or_ne i q with rfl | hne
    · rw [hself]
      simp [hm₂, putSlot]
    · have hiw : m₂.slots i ≠ w := fun heq =>
        hne (hdistinct i hi q (hcount ▸ hq) (heq.trans hself.symm))
      have hws : m₂.workspace (m₂.slots i) = m'.workspace (m₂.slots i) :=
        Function.update_of_ne hiw _ _
      rw [hws, hother i hne]
      by_cases hmi : moved i
      · exact hr.moved_position i hmi
      · rw [hr.other_position, hstay i hmi hne, h.position i (hcount ▸ hi)]
        intro k hk heq
        have hkq : k ≠ q := fun h => hq' (h ▸ hk)
        have hki := hdistinct k (hcount ▸ hin k hk) i hi (by
          rw [hother k hkq, hother i hne]
          exact heq)
        exact hmi (hki ▸ hk)
  · rw [hkept.live, hkept.next]
    exact h.fresh
  · rw [horder₂, filter_insertIdx, filter_eraseIdx _ _ _ hget]

theorem upLoop_of_le {body : Manager → ℕ → Manager} {lo hi : ℕ} (h : hi ≤ lo) :
    upLoop lo hi body m = m := by
  rw [upLoop, Nat.sub_eq_zero_of_le h]
  rfl

theorem downLoop_of_le {body : Manager → ℕ → Manager} {lo hi : ℕ} (h : hi ≤ lo) :
    downLoop hi lo body m = m := by
  rw [downLoop, Nat.sub_eq_zero_of_le h]
  rfl

/-- `workspace_set_position` moves one workspace and keeps everything else. -/
theorem workspaceSetPosition_ok (h : ArrayOk m) {w : WorkspaceId} (hw : m.live w = true)
    (position : ℕ) :
    ArrayOk (m.workspaceSetPosition w position) ∧ Kept m (m.workspaceSetPosition w position) ∧
      (m.workspaceSetPosition w position).order.filter (· ≠ w) = m.order.filter (· ≠ w) := by
  obtain ⟨hp, hslot⟩ := h.slot_position hw
  unfold workspaceSetPosition
  simp only
  set q := if position ≥ m.count then m.count - 1 else position with hqdef
  have hq : q < m.count := by
    rw [hqdef]
    split_ifs <;> omega
  set p := (m.workspace w).position
  split_ifs with heq
  · exact ⟨h, (SameArray.refl m).toKept, rfl⟩
  -- only one of the two loops runs; both leave the slot `q` free
  suffices hloop : ∃ moved m', upLoop p q (fun m i => m.renumberSlot i (i + 1))
        (downLoop p q (fun m i => m.renumberSlot i (i - 1)) m) = m' ∧ Reslotted moved m m' ∧
      listing (Function.update m'.slots q w) m.count = (m.order.eraseIdx p).insertIdx q w ∧
      ¬ moved q ∧ (∀ i, moved i → i < m.count) ∧
      ∀ i, ¬ moved i → i ≠ q → m'.slots i = m.slots i by
    obtain ⟨moved, m', hm', hr, horder, hq', hin, hstay⟩ := hloop
    rw [hm']
    obtain ⟨hok, hkept, hfilter⟩ := writeBack_ok h hp hq hslot hr horder hq' hin hstay
    have hsame : SameArray (m'.putSlot q w) (updateName ((m'.putSlot q w).emitPosition w) w none) :=
      (notify_sameArray _ _ _).trans (updateName_sameArray _ _ _)
    refine ⟨hok.samePlaces hsame.places, hkept.trans hsame.toKept, ?_⟩
    rw [order_eq hsame.slots hsame.count]
    exact hfilter
  rcases lt_or_gt_of_ne heq with hlt | hgt
  · obtain ⟨hr, hs⟩ := downLoop_reslotted (fun m i => renumberSlot_moves m i (i - 1)) hlt.le hp.le
      h.distinct
    refine ⟨_, _, upLoop_of_le hlt.le, hr, ?_, by omega, by omega, fun i hi hne => ?_⟩
    · rw [hs, ← hslot, listing_move_down m.slots hlt hp, hslot, order]
    · rw [hs, shiftedUp, if_neg hi]
  · obtain ⟨hr, hs⟩ := upLoop_reslotted (fun m i => renumberSlot_moves m i (i + 1)) hgt.le hq
      h.distinct
    rw [downLoop_of_le hgt.le]
    refine ⟨_, _, rfl, hr, ?_, by omega, by omega, fun i hi hne => ?_⟩
    · rw [hs, ← hslot, listing_move_up m.slots hgt hq, hslot, order]
    · rw [hs, shiftedDown, if_neg hi]

end Manager

end FlakeWm.Workspaces
