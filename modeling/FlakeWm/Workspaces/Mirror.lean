import FlakeWm.Workspaces.Order

/-! What clients are told about workspaces, and what workspaces are called.

    Removal and `workspace_set_position` renumber every workspace they shift, tell its position and
    give it its new default name (`renumber_truthful`). The loop of `workspace_create` only writes the
    positions: the workspaces it shifts keep their old default names, and their clients keep the old
    positions. So the mirrors stay true exactly as long as nothing that has a default name or a client
    is shifted by a creation (`shiftsUnseen`). -/

namespace FlakeWm.Workspaces

namespace Manager

variable {m m' : Manager}

/-- Every mirror of a live workspace shows its name and position, and default names count from 1. -/
structure Truthful (m : Manager) : Prop where
  mirror : ∀ c w x, m.live w = true → m.mirror c w = some x →
    x.name = (m.workspace w).name ∧ x.position = (m.workspace w).position
  name : ∀ w, m.live w = true → (m.workspace w).hasCustomName = false →
    (m.workspace w).name = desktopName (m.workspace w).position

/-- Mirrors belong to workspaces and clients that were there. -/
structure MirrorsFresh (m : Manager) : Prop where
  workspace : ∀ c w, m.next ≤ w → m.mirror c w = none
  client : ∀ c w, m.nextClient ≤ c → m.mirror c w = none
  bound : ∀ c ∈ m.clients, c < m.nextClient

/-- The mirrors and clients of `m'` are some of those of `m`, and the counters are the same. -/
structure NoNewMirrors (m m' : Manager) : Prop where
  next : m'.next = m.next
  nextClient : m'.nextClient = m.nextClient
  mirror : ∀ c w, m.mirror c w = none → m'.mirror c w = none
  bound : ∀ c ∈ m'.clients, c ∈ m.clients

theorem MirrorsFresh.mono (h : MirrorsFresh m) (hn : NoNewMirrors m m') : MirrorsFresh m' := by
  refine ⟨fun c w hw => ?_, fun c w hc => ?_, fun c hc => ?_⟩
  · rw [hn.next] at hw
    exact hn.mirror c w (h.workspace c w hw)
  · rw [hn.nextClient] at hc
    exact hn.mirror c w (h.client c w hc)
  · rw [hn.nextClient]
    exact h.bound c (hn.bound c hc)

theorem desktopName_injective {i j : ℕ} (h : desktopName i = desktopName j) : i = j := by
  unfold desktopName at h
  rw [String.append_right_inj] at h
  have hdigits : Nat.toDigits 10 (i + 1) = Nat.toDigits 10 (j + 1) := by
    have hrepr : Nat.repr (i + 1) = Nat.repr (j + 1) := h
    rw [Nat.repr, Nat.repr] at hrepr
    exact String.ofList_injective hrepr
  have hnum := congrArg (fun cs => Nat.ofDigitChars 10 cs 0) hdigits
  simp only [Nat.ofDigitChars_ten_toDigits] at hnum
  omega

/-! ### Renumbering -/

/-- What every round of the other two loops ends with. -/
def renumber (m : Manager) (i : ℕ) (w : WorkspaceId) : Manager :=
  updateName ((m.putSlot i w).emitPosition w) w none

theorem renumberSlot_eq (m : Manager) (i j : ℕ) : m.renumberSlot i j = m.renumber i (m.slots j) := by
  have hslot : (m.moveSlot i j).slots i = m.slots j := Function.update_self ..
  unfold renumberSlot
  simp only
  rw [hslot]
  rfl

/-- A workspace that is renumbered keeps a custom name and gets the default name of its position. -/
theorem renumber_workspace (m : Manager) (i : ℕ) (w : WorkspaceId) :
    (m.renumber i w).workspace w =
      if (m.workspace w).hasCustomName then { m.workspace w with position := i }
      else { m.workspace w with position := i, name := desktopName i } := by
  unfold renumber updateName
  cases hc : (m.workspace w).hasCustomName <;>
    simp [hc, putSlot, emitPosition, emitName, notify, setWorkspace]

theorem renumber_workspace_of_ne (m : Manager) (i : ℕ) {w u : WorkspaceId} (h : u ≠ w) :
    (m.renumber i w).workspace u = m.workspace u := by
  unfold renumber updateName
  cases hc : (m.workspace w).hasCustomName <;>
    simp [hc, h, putSlot, emitPosition, emitName, notify, setWorkspace]

/-- Its clients are told the position, and the name unless it is a custom one. -/
theorem renumber_mirror (m : Manager) (i : ℕ) (w : WorkspaceId) (c : ClientId) :
    (m.renumber i w).mirror c w = (m.mirror c w).map fun x =>
      if (m.workspace w).hasCustomName then { x with position := i }
      else { x with position := i, name := desktopName i } := by
  unfold renumber updateName
  cases hc : (m.workspace w).hasCustomName <;>
    simp [hc, putSlot, emitPosition, emitName, notify, setWorkspace, Function.comp_def]

theorem renumber_mirror_of_ne (m : Manager) (i : ℕ) {w u : WorkspaceId} (h : u ≠ w) (c : ClientId) :
    (m.renumber i w).mirror c u = m.mirror c u := by
  unfold renumber updateName
  cases hc : (m.workspace w).hasCustomName <;>
    simp [hc, h, putSlot, emitPosition, emitName, notify, setWorkspace]

theorem renumber_live (m : Manager) (i : ℕ) (w : WorkspaceId) : (m.renumber i w).live = m.live := by
  unfold renumber updateName
  cases hc : (m.workspace w).hasCustomName <;>
    simp [hc, putSlot, emitPosition, emitName, notify, setWorkspace]

/-- Renumbering a workspace leaves nobody with an old position or name. -/
theorem renumber_truthful (h : Truthful m) (i : ℕ) (w : WorkspaceId) :
    Truthful (m.renumber i w) := by
  refine ⟨fun c u x hu hx => ?_, fun u hu hcustom => ?_⟩
  · rw [renumber_live] at hu
    rcases eq_or_ne u w with rfl | hne
    · rw [renumber_mirror, Option.map_eq_some_iff] at hx
      obtain ⟨y, hy, rfl⟩ := hx
      rw [renumber_workspace]
      split_ifs
      · exact ⟨(h.mirror c u y hu hy).1, rfl⟩
      · exact ⟨rfl, rfl⟩
    · rw [renumber_mirror_of_ne _ _ hne] at hx
      rw [renumber_workspace_of_ne _ _ hne]
      exact h.mirror c u x hu hx
  · rw [renumber_live] at hu
    rcases eq_or_ne u w with rfl | hne
    · rw [renumber_workspace] at hcustom ⊢
      split_ifs at hcustom ⊢ with hc
      · simp [hc] at hcustom
      · rfl
    · rw [renumber_workspace_of_ne _ _ hne] at hcustom ⊢
      exact h.name u hu hcustom

theorem renumber_noNewMirrors (m : Manager) (i : ℕ) (w : WorkspaceId) :
    NoNewMirrors m (m.renumber i w) := by
  have hrest : (m.renumber i w).next = m.next ∧ (m.renumber i w).nextClient = m.nextClient ∧
      (m.renumber i w).clients = m.clients := by
    unfold renumber updateName
    cases hc : (m.workspace w).hasCustomName <;>
      simp [hc, putSlot, emitPosition, emitName, notify, setWorkspace]
  refine ⟨hrest.1, hrest.2.1, fun c u hu => ?_, fun c hc => hrest.2.2 ▸ hc⟩
  · rcases eq_or_ne u w with rfl | hne
    · rw [renumber_mirror, hu, Option.map_none]
    · rw [renumber_mirror_of_ne _ _ hne]
      exact hu

/-- The state that the clients see is right, and stays so. -/
structure Told (m : Manager) : Prop extends Truthful m, MirrorsFresh m

theorem Told.renumber (h : Told m) (i : ℕ) (w : WorkspaceId) : Told (m.renumber i w) :=
  ⟨renumber_truthful h.toTruthful i w, h.toMirrorsFresh.mono (renumber_noNewMirrors m i w)⟩

theorem Told.renumberSlot (h : Told m) (i j : ℕ) : Told (m.renumberSlot i j) := by
  rw [renumberSlot_eq]
  exact h.renumber i _

/-! ### The functions that keep the mirrors true -/

/-- Changing what the mirrors do not show. -/
theorem Told.congr (h : Told m) (hn : NoNewMirrors m m')
    (hlive : ∀ w, m'.live w = true → m.live w = true)
    (hws : ∀ w, (m'.workspace w).name = (m.workspace w).name ∧
      (m'.workspace w).position = (m.workspace w).position ∧
      (m'.workspace w).hasCustomName = (m.workspace w).hasCustomName)
    (hmirror : ∀ c w x, m'.mirror c w = some x →
      ∃ y, m.mirror c w = some y ∧ x.name = y.name ∧ x.position = y.position) : Told m' := by
  refine ⟨⟨fun c w x hw hx => ?_, fun w hw hc => ?_⟩, h.toMirrorsFresh.mono hn⟩
  · obtain ⟨y, hy, hname, hpos⟩ := hmirror c w x hx
    rw [hname, hpos, (hws w).1, (hws w).2.1]
    exact h.mirror c w y (hlive w hw) hy
  · rw [(hws w).1, (hws w).2.1]
    exact h.name w (hlive w hw) ((hws w).2.2 ▸ hc)

theorem Told.remove (h : Told m) (w : WorkspaceId) : Told (m.remove w) := by
  have hloop : Told (upLoop (m.workspace w).position (m.count - 1)
      (fun m i => m.renumberSlot i (i + 1)) m) :=
    upLoop_keeps (I := Told) (fun m i hm => hm.renumberSlot i _) _ _ h
  exact hloop.congr ⟨rfl, rfl, fun _ _ h => h, fun _ h => h⟩ (fun _ h => h) (fun _ => ⟨rfl, rfl, rfl⟩)
    fun c w x hx => ⟨x, hx, rfl, rfl⟩

theorem Told.workspaceSetPosition (h : Told m) (w : WorkspaceId) (position : ℕ) :
    Told (m.workspaceSetPosition w position) := by
  unfold Manager.workspaceSetPosition
  simp only
  generalize (if position ≥ m.count then m.count - 1 else position) = q
  split_ifs
  · exact h
  · refine Told.renumber ?_ _ w
    refine upLoop_keeps (I := Told) (fun m i hm => hm.renumberSlot i _) _ _ ?_
    exact downLoop_keeps (I := Told) (fun m i hm => hm.renumberSlot i _) _ _ h

theorem Told.setActivated (h : Told m) (w : WorkspaceId) (b : Bool) : Told (m.setActivated w b) := by
  refine h.congr ⟨rfl, rfl, fun c u hu => ?_, fun _ h => h⟩ (fun _ h => h) (fun u => ?_)
    fun c u x hx => ?_
  · rcases eq_or_ne u w with rfl | hne
    · simp [Manager.setActivated, emitActivate, notify, setWorkspace, hu]
    · simp [Manager.setActivated, emitActivate, notify, setWorkspace, hu, hne]
  · rcases eq_or_ne u w with rfl | hne
    · simp [Manager.setActivated, emitActivate, notify, setWorkspace]
    · simp [Manager.setActivated, emitActivate, notify, setWorkspace, hne]
  · rcases eq_or_ne u w with rfl | hne
    · simp only [Manager.setActivated, emitActivate, notify, Function.update_self,
        Option.map_eq_some_iff] at hx
      obtain ⟨y, hy, rfl⟩ := hx
      exact ⟨y, hy, rfl, rfl⟩
    · simp only [Manager.setActivated, emitActivate, notify, Function.update_of_ne hne] at hx
      exact ⟨x, hx, rfl, rfl⟩

theorem Told.free (h : Told m) (w : WorkspaceId) : Told (m.free w) := by
  have hmirror : ∀ c u x, (m.free w).mirror c u = some x → m.mirror c u = some x := by
    intro c u x hx
    rcases eq_or_ne u w with rfl | hne
    · simp [Manager.free, emitDestroy] at hx
    · simpa [Manager.free, emitDestroy, hne] using hx
  refine h.congr ⟨rfl, rfl, fun c u hu => ?_, fun _ h => h⟩ (fun u hu => ?_) (fun _ => ⟨rfl, rfl, rfl⟩)
    fun c u x hx => ⟨x, hmirror c u x hx, rfl, rfl⟩
  · cases hx : (m.free w).mirror c u with
    | none => rfl
    | some x => rw [hmirror c u x hx] at hu; cases hu
  · rcases eq_or_ne u w with rfl | hne
    · simp [Manager.free, emitDestroy] at hu
    · simpa [Manager.free, emitDestroy, hne] using hu

/-- A client that gives up resources has fewer mirrors. -/
theorem Told.fewer (h : Told m)
    (hmirror : ∀ c w x, m'.mirror c w = some x → m.mirror c w = some x)
    (hbound : ∀ c ∈ m'.clients, c ∈ m.clients)
    (hrest : m'.live = m.live ∧ m'.workspace = m.workspace ∧ m'.next = m.next ∧
      m'.nextClient = m.nextClient) : Told m' := by
  refine h.congr ⟨hrest.2.2.1, hrest.2.2.2, fun c u hu => ?_, hbound⟩ (fun u hu => hrest.1 ▸ hu)
    (fun _ => by rw [hrest.2.1]; exact ⟨rfl, rfl, rfl⟩) fun c u x hx => ⟨x, hmirror c u x hx, rfl, rfl⟩
  cases hx : m'.mirror c u with
  | none => rfl
  | some x => rw [hmirror c u x hx] at hu; cases hu

theorem Told.release (h : Told m) (c : ClientId) (w : WorkspaceId) : Told (m.release c w) := by
  refine h.fewer (fun c' u x hx => ?_) (fun _ h => h) ⟨rfl, rfl, rfl, rfl⟩
  rcases eq_or_ne c' c with rfl | hc
  · rcases eq_or_ne u w with rfl | hu
    · simp [Manager.release] at hx
    · simpa [Manager.release, hu] using hx
  · simpa [Manager.release, hc] using hx

/-- A new client is told everything that is true. -/
theorem Told.bind (h : Told m) (ha : ArrayOk m) : Told m.bind := by
  refine ⟨⟨fun c w x hw hx => ?_, h.name⟩, ⟨fun c w hw => ?_, fun c w hc => ?_, fun c hc => ?_⟩⟩
  · rcases eq_or_ne c m.nextClient with rfl | hne
    · simp only [Manager.bind, Function.update_self, Option.ite_none_right_eq_some,
        Option.some.injEq] at hx
      obtain ⟨-, rfl⟩ := hx
      exact ⟨rfl, rfl⟩
    · simp only [Manager.bind, Function.update_of_ne hne] at hx
      exact h.mirror c w x hw hx
  · rcases eq_or_ne c m.nextClient with rfl | hne
    · simp only [Manager.bind, Function.update_self, ite_eq_right_iff, reduceCtorEq, imp_false]
      intro hmem
      have := ha.fresh w ((ha.live_iff w).mpr (mem_listing.mp hmem))
      exact absurd hw (not_le.mpr this)
    · simp only [Manager.bind, Function.update_of_ne hne]
      exact h.workspace c w hw
  · have hlt : m.nextClient < c := hc
    simp only [Manager.bind, Function.update_of_ne (ne_of_gt hlt)]
    exact h.client c w hlt.le
  · rcases List.mem_cons.mp hc with rfl | hc
    · exact Nat.lt_succ_self _
    · exact Nat.lt_succ_of_lt (h.bound c hc)

/-! ### Creation -/

/-- What the loop of `workspace_create` does not touch. -/
structure Quiet (m m' : Manager) : Prop where
  name : ∀ w, (m'.workspace w).name = (m.workspace w).name
  hasCustomName : ∀ w, (m'.workspace w).hasCustomName = (m.workspace w).hasCustomName
  mirror : m'.mirror = m.mirror
  clients : m'.clients = m.clients
  nextClient : m'.nextClient = m.nextClient
  next : m'.next = m.next

theorem moveSlot_quiet {m₀ : Manager} (h : Quiet m₀ m) (i j : ℕ) : Quiet m₀ (m.moveSlot i j) := by
  refine ⟨fun w => ?_, fun w => ?_, h.mirror, h.clients, h.nextClient, h.next⟩
  · rw [← h.name w]
    rcases eq_or_ne w (m.slots j) with rfl | hne
    · simp [moveSlot, putSlot]
    · simp [moveSlot, putSlot, hne]
  · rw [← h.hasCustomName w]
    rcases eq_or_ne w (m.slots j) with rfl | hne
    · simp [moveSlot, putSlot]
    · simp [moveSlot, putSlot, hne]

/-- After `workspace_create` the old workspaces have their old names and mirrors, and the new one is
    shown to the bound clients as it is. -/
theorem insert_mirror (hf : MirrorsFresh m) (name : Option String) (position : ℕ) :
    (∀ w, w ≠ m.next → ((m.insert name position).workspace w).name = (m.workspace w).name ∧
      ((m.insert name position).workspace w).hasCustomName = (m.workspace w).hasCustomName ∧
      ∀ c, (m.insert name position).mirror c w = m.mirror c w) ∧
    ((m.insert name position).workspace m.next =
      ⟨name.getD (desktopName (m.clamped position)), name.isSome, m.clamped position, false⟩) ∧
    (∀ c x, (m.insert name position).mirror c m.next = some x →
      c ∈ m.clients ∧ x = (m.insert name position).details m.next) ∧
    (m.insert name position).next = m.next + 1 ∧
    (m.insert name position).nextClient = m.nextClient ∧
    (m.insert name position).clients = m.clients := by
  have hq : Quiet m (downLoop m.count (m.clamped position) (fun m i => m.moveSlot i (i - 1)) m) :=
    downLoop_keeps (I := Quiet m) (fun m' i h => moveSlot_quiet h i _) _ _
      ⟨fun _ => rfl, fun _ => rfl, rfl, rfl, rfl, rfl⟩
  have hins : m.insert name position = (((downLoop m.count (m.clamped position)
      (fun m i => m.moveSlot i (i - 1)) m).allocate (m.clamped position)).updateName m.next
        name).emitNewWorkspace m.next := rfl
  rw [hins]
  generalize downLoop m.count (m.clamped position) (fun m i => m.moveSlot i (i - 1)) m = m₁ at hq
  generalize m.clamped position = q
  have hupdate : (m₁.allocate q).updateName m.next name =
      ((m₁.allocate q).setWorkspace m.next ⟨name.getD (desktopName q), name.isSome, q, false⟩).emitName
        m.next := by
    have hnew : (m₁.allocate q).workspace m.next = ⟨"", false, q, false⟩ := by
      simp [allocate, hq.next]
    simp [updateName, hnew]
  rw [hupdate]
  have hnone : ∀ c, m.mirror c m.next = none := fun c => hf.workspace c _ le_rfl
  refine ⟨fun w hw => ⟨?_, ?_, fun c => ?_⟩, ?_, fun c x hx => ?_, ?_, ?_, ?_⟩
  · rw [← hq.name w]
    simp [emitNewWorkspace, emitName, notify, setWorkspace, allocate, hq.next, hw]
  · rw [← hq.hasCustomName w]
    simp [emitNewWorkspace, emitName, notify, setWorkspace, allocate, hq.next, hw]
  · rw [← hq.mirror]
    by_cases hc : c ∈ m.clients
    · simp [emitNewWorkspace, emitName, notify, setWorkspace, allocate, hq.clients, hc, hw]
    · simp [emitNewWorkspace, emitName, notify, setWorkspace, allocate, hq.clients, hc, hw]
  · simp [emitNewWorkspace, emitName, notify, setWorkspace]
  · by_cases hc : c ∈ m.clients
    · refine ⟨hc, ?_⟩
      simp only [emitNewWorkspace, emitName, notify, setWorkspace, allocate, hq.clients, hc, if_true,
        Function.update_self, Option.some.injEq] at hx
      exact hx.symm
    · simp [emitNewWorkspace, emitName, notify, setWorkspace, allocate, hq.clients, hc, hq.mirror,
        hnone] at hx
  · simp [emitNewWorkspace, emitName, notify, setWorkspace, allocate, hq.next]
  · simp [emitNewWorkspace, emitName, notify, setWorkspace, allocate, hq.nextClient]
  · simp [emitNewWorkspace, emitName, notify, setWorkspace, allocate, hq.clients]

/-- A creation gives every workspace from its position on the next position. -/
theorem insert_position (h : Inv m) (hroom : m.count ≠ MAX_WORKSPACES) (name : Option String)
    (position : ℕ) {i : ℕ} (hi : i < m.count) :
    ((m.insert name position).workspace (m.slots i)).position =
      if i < m.clamped position then i else i + 1 := by
  obtain ⟨hok, -, horder, -, -⟩ := h.insert_ok hroom name position
  have hpos : m.clamped position ≤ m.count := by
    unfold clamped
    split_ifs <;> omega
  have hget : m.order[i]? = some (m.slots i) := by rw [order, getElem?_listing, if_pos hi]
  have hslot : (m.insert name position).order[if i < m.clamped position then i else i + 1]? =
      some (m.slots i) := by
    rw [horder]
    split_ifs with hlt
    · rw [List.getElem?_insertIdx_of_lt hlt]
      exact hget
    · rw [List.getElem?_insertIdx_of_gt (by omega), Nat.add_sub_cancel]
      exact hget
  rw [order, getElem?_listing, Option.ite_none_right_eq_some, Option.some.injEq] at hslot
  rw [← hslot.2]
  exact hok.position _ hslot.1

/-- The workspaces that a creation at `position` shifts have custom names and no client. -/
def shiftsUnseen (m : Manager) (position : ℕ) : Bool :=
  decide (∀ i < m.count, position ≤ i → (m.workspace (m.slots i)).hasCustomName = true ∧
    ∀ c < m.nextClient, m.mirror c (m.slots i) = none)

/-- A creation leaves the mirrors true exactly when it shifts nothing that is seen. -/
theorem insert_told_iff (h : Inv m) (ht : Told m) (hroom : m.count ≠ MAX_WORKSPACES)
    (name : Option String) (position : ℕ) :
    MirrorsFresh (m.insert name position) ∧
      (Truthful (m.insert name position) ↔ m.shiftsUnseen position = true) := by
  obtain ⟨hold, hnew, hshown, hnext, hclient, hclients⟩ := insert_mirror ht.toMirrorsFresh name position
  obtain ⟨hok, -, horder, -, hlive⟩ := h.insert_ok hroom name position
  have hslot : ∀ i < m.count, m.slots i ≠ m.next ∧ m.live (m.slots i) = true := by
    intro i hi
    have hl := (h.live_iff _).mpr ⟨i, hi, rfl⟩
    exact ⟨ne_of_lt (h.fresh _ hl), hl⟩
  have hlive' : ∀ i < m.count, (m.insert name position).live (m.slots i) = true := by
    intro i hi
    rw [hlive, Function.update_of_ne (hslot i hi).1]
    exact (hslot i hi).2
  have hclamp : ∀ i < m.count, (i < m.clamped position ↔ i < position) := by
    intro i hi
    unfold clamped
    split_ifs <;> omega
  have hpos := fun {i} (hi : i < m.count) => insert_position h hroom name position hi
  refine ⟨⟨fun c u hu => ?_, fun c u hc => ?_, fun c hc => ?_⟩, ?_⟩
  · rw [hnext] at hu
    have hne : u ≠ m.next := Nat.ne_of_gt hu
    rw [(hold u hne).2.2 c]
    exact ht.workspace c u (Nat.le_of_succ_le hu)
  · rw [hclient] at hc
    rcases eq_or_ne u m.next with rfl | hne
    · cases hx : (m.insert name position).mirror c m.next with
      | none => rfl
      | some x => exact absurd (ht.bound c (hshown c x hx).1) (not_lt.mpr hc)
    · rw [(hold u hne).2.2 c]
      exact ht.client c u hc
  · rw [hclient]
    exact ht.bound c (hclients ▸ hc)
  · rw [shiftsUnseen, decide_eq_true_eq]
    constructor
    · -- a shifted workspace with a default name or a client would be told wrong
      intro htrue i hi hge
      have hshift : ((m.insert name position).workspace (m.slots i)).position = i + 1 := by
        rw [hpos hi, if_neg]
        rw [hclamp i hi]
        omega
      obtain ⟨hname, hcustom, hmirror⟩ := hold _ (hslot i hi).1
      refine ⟨?_, fun c _ => ?_⟩
      · by_contra hdefault
        rw [Bool.not_eq_true] at hdefault
        have hwas := ht.name _ (hslot i hi).2 hdefault
        have hnow := htrue.name _ (hlive' i hi) (hcustom.trans hdefault)
        rw [hname, hwas, hshift, h.position i hi] at hnow
        have := desktopName_injective hnow
        omega
      · cases hx : m.mirror c (m.slots i) with
        | none => rfl
        | some x =>
          have hwas := (ht.mirror c _ x (hslot i hi).2 hx).2
          have hnow := (htrue.mirror c _ x (hlive' i hi) ((hmirror c).trans hx)).2
          rw [hwas, h.position i hi, hshift] at hnow
          omega
    · intro hunseen
      have hcases : ∀ u, (m.insert name position).live u = true →
          u = m.next ∨ ∃ i < m.count, m.slots i = u := by
        intro u hu
        rw [hlive] at hu
        rcases eq_or_ne u m.next with rfl | hne
        · exact .inl rfl
        · rw [Function.update_of_ne hne] at hu
          exact .inr ((h.live_iff u).mp hu)
      refine ⟨fun c u x hu hx => ?_, fun u hu hcustom => ?_⟩
      · rcases hcases u hu with rfl | ⟨i, hi, rfl⟩
        · rw [(hshown c x hx).2]
          exact ⟨rfl, rfl⟩
        · obtain ⟨hname, -, hmirror⟩ := hold _ (hslot i hi).1
          rw [hmirror c] at hx
          have hwas := ht.mirror c _ x (hslot i hi).2 hx
          have hlt : i < position := by
            by_contra hge
            have hnone := (hunseen i hi (by omega)).2 c (by
              by_contra hc
              rw [ht.client c _ (not_lt.mp hc)] at hx
              cases hx)
            rw [hnone] at hx
            cases hx
          rw [hname, hpos hi, if_pos ((hclamp i hi).mpr hlt)]
          exact ⟨hwas.1, hwas.2.trans (h.position i hi)⟩
      · rcases hcases u hu with rfl | ⟨i, hi, rfl⟩
        · rw [hnew] at hcustom ⊢
          cases name with
          | none => rfl
          | some name => simp at hcustom
        · obtain ⟨hname, hcustom', -⟩ := hold _ (hslot i hi).1
          rw [hcustom'] at hcustom
          have hlt : i < position := by
            by_contra hge
            have hyes := (hunseen i hi (by omega)).1
            rw [hcustom] at hyes
            cases hyes
          rw [hname, hpos hi, if_pos ((hclamp i hi).mpr hlt), ht.name _ (hslot i hi).2 hcustom,
            h.position i hi]

end Manager

open Manager

variable {s s' : State}

/-! ### One event -/

theorem workspaceActivate_told (h : Told s.mgr) (w : WorkspaceId) :
    Told (workspaceActivate s w).mgr := by
  have hset : ∀ (s : State) (u : WorkspaceId) (b : Bool), Told s.mgr →
      Told (workspaceSetActivated s u b).mgr := by
    intro s u b h
    unfold workspaceSetActivated
    split_ifs
    · exact h
    · exact h.setActivated u b
  have hcur : ∀ s : State, Told s.mgr → Told (setCurrent s w).mgr := fun s h =>
    h.fewer (fun _ _ _ hx => hx) (fun _ hc => hc) ⟨rfl, rfl, rfl, rfl⟩
  unfold workspaceActivate
  split_ifs
  · exact h
  · cases s.mgr.current with
    | none => exact hset _ _ _ (hcur s h)
    | some old => exact hset _ _ _ (hcur _ (hset _ _ _ h))

theorem workspaceDestroy_told (h : Told s.mgr) {w : WorkspaceId}
    (hs : workspaceDestroy s w = some s') : Told s'.mgr := by
  obtain ⟨s₁, hs₁, hcase⟩ := workspaceDestroy_mgr hs
  rcases hcase with ⟨heq, -⟩ | ⟨-, heq⟩
  · rw [heq]
    exact (h.remove w).free w
  · rw [heq]
    exact (workspaceActivate_told (hs₁ ▸ h.remove w) _).free w

/-- A creation is rejected, or shifts no workspace that has a default name or is known to a client. -/
def createsUnseen (s : State) : Event → Bool
  | .workspaceCreate _ position => s.mgr.count == MAX_WORKSPACES || s.mgr.shiftsUnseen position
  | _ => true

/-- Every event keeps the mirrors true, except a creation that shifts a workspace that is seen. -/
theorem told_step (h : Inv s.mgr) (ht : Told s.mgr) (e : Event) (hs : step s e = some s') :
    MirrorsFresh s'.mgr ∧ (Truthful s'.mgr ↔ createsUnseen s e = true) := by
  have htold : Told s'.mgr → createsUnseen s e = true →
      MirrorsFresh s'.mgr ∧ (Truthful s'.mgr ↔ createsUnseen s e = true) := fun h he =>
    ⟨h.toMirrorsFresh, iff_of_true h.toTruthful he⟩
  have hview : s'.mgr = s.mgr → Told s'.mgr := fun heq => heq ▸ ht
  cases e
  case workspaceCreate name position =>
    rcases workspaceCreate_mgr hs with ⟨hfull, rfl⟩ | ⟨hroom, hm⟩
    · exact htold ht (by simp [createsUnseen, hfull])
    · rw [hm]
      have hunseen : createsUnseen s (.workspaceCreate name position) =
          s.mgr.shiftsUnseen position := by
        simp [createsUnseen, hroom]
      rw [hunseen]
      exact insert_told_iff h ht hroom name position
  case workspaceDestroy w =>
    rw [step, Option.ite_none_right_eq_some] at hs
    exact htold (workspaceDestroy_told ht hs.2) rfl
  case workspaceActivate w =>
    rw [step, Option.ite_none_right_eq_some, Option.some.injEq] at hs
    obtain ⟨-, rfl⟩ := hs
    exact htold (workspaceActivate_told ht w) rfl
  case workspaceSetPosition w position =>
    rw [step, Option.ite_none_right_eq_some, Option.some.injEq] at hs
    obtain ⟨-, rfl⟩ := hs
    exact htold (ht.workspaceSetPosition w position) rfl
  case clientBind =>
    cases hs
    exact htold (ht.bind h.toArrayOk) rfl
  case clientStop c =>
    cases hs
    refine htold (ht.fewer (fun _ _ _ hx => hx) (fun c' hc' => ?_) ⟨rfl, rfl, rfl, rfl⟩) rfl
    exact List.mem_of_mem_filter hc'
  case clientRelease c w =>
    cases hs
    exact htold (ht.release c w) rfl
  case viewInit v =>
    rw [step] at hs
    split at hs
    · cases hs
    · split_ifs at hs
      obtain ⟨m, -, rfl⟩ := Option.map_eq_some_iff.mp hs
      exact htold ht rfl
  case viewSetWorkspace v w => exact htold (hview (onWorkspace_mgr hs)) rfl
  case viewAddWorkspace v w => exact htold (hview (onWorkspace_mgr hs)) rfl
  case viewRemoveWorkspace v w => exact htold (hview (onWorkspace_mgr hs)) rfl
  all_goals exact htold (hview (onViews_mgr hs)) rfl

/-! ### Start and runs -/

theorem firstManager_told : Told firstManager := by
  refine workspaceActivate_told (s := ⟨Manager.empty.insert none 0, .empty⟩) ?_ _
  have hfresh : MirrorsFresh Manager.empty :=
    ⟨fun _ _ _ => rfl, fun _ _ _ => rfl, fun _ h => by simp [Manager.empty] at h⟩
  obtain ⟨hold, hnew, hshown, hnext, hclient, hclients⟩ := insert_mirror hfresh none 0
  have hnone : ∀ c w, (Manager.empty.insert none 0).mirror c w = none := by
    intro c w
    rcases eq_or_ne w Manager.empty.next with rfl | hne
    · cases hx : (Manager.empty.insert none 0).mirror c Manager.empty.next with
      | none => rfl
      | some x =>
        have hc := (hshown c x hx).1
        simp [Manager.empty] at hc
    · rw [(hold w hne).2.2 c]
      rfl
  refine ⟨⟨fun c w x _ hx => ?_, fun w hw _ => ?_⟩, ⟨fun c w _ => hnone c w, fun c w _ => hnone c w,
    fun c hc => ?_⟩⟩
  · rw [hnone c w] at hx
    cases hx
  · have hlive : (Manager.empty.insert none 0).live =
        Function.update Manager.empty.live Manager.empty.next true := rfl
    rw [hlive] at hw
    rcases eq_or_ne w Manager.empty.next with rfl | hne
    · rw [hnew]
      rfl
    · rw [Function.update_of_ne hne] at hw
      simp [Manager.empty] at hw
  · rw [hclients] at hc
    simp [Manager.empty] at hc

/-- The default workspace and the configured ones are appended, so nothing is shifted. -/
theorem handleServerReady_told (n : ℕ) :
    ∃ m, handleServerReady n = some ⟨m, .empty⟩ ∧ Inv m ∧ Told m := by
  obtain ⟨m, hready, hm, i, ht, -⟩ := handleServerReady_ok n
    (J := fun i m => Told m ∧ m.count ≤ i) ⟨firstManager_told, le_rfl⟩ (by
      rintro i m m' hm ⟨ht, hcount⟩ hs
      have hunseen : createsUnseen ⟨m, .empty⟩ (.workspaceCreate none i) = true := by
        simp only [createsUnseen, Bool.or_eq_true, shiftsUnseen, decide_eq_true_eq]
        exact .inr fun j hj hij => absurd hj (by omega)
      obtain ⟨hfresh, htrue⟩ := told_step (s := ⟨m, .empty⟩) hm ht (.workspaceCreate none i) hs
      refine ⟨⟨htrue.mpr hunseen, hfresh⟩, ?_⟩
      rcases workspaceCreate_mgr hs with ⟨-, heq⟩ | ⟨hroom, heq⟩
      · rw [State.mk.injEq] at heq
        rw [heq.1]
        omega
      · simp only at heq
        rw [heq]
        have hlen := congrArg List.length (hm.insert_ok hroom none i).2.2.1
        rw [order, length_listing, List.length_insertIdx, order, length_listing] at hlen
        split_ifs at hlen <;> omega)
  exact ⟨m, hready, hm, ht⟩

/-- In every run whose creations shift nothing that is seen, every mirror of every live workspace
    shows its name and position, and the default names are right; and in such a run an event keeps
    this if and only if it is not a creation that shifts a workspace that is seen. -/
theorem mirrors_truthful (n : ℕ) :
    ∃ s₀, handleServerReady n = some s₀ ∧
      ∀ s, Reach step (fun s e => createsUnseen s e = true) s₀ s → Truthful s.mgr ∧
        ∀ e s', step s e = some s' → (Truthful s'.mgr ↔ createsUnseen s e = true) := by
  obtain ⟨m, hready, hm, ht₀⟩ := handleServerReady_told n
  refine ⟨_, hready, fun s hreach => ?_⟩
  obtain ⟨hinv, htold⟩ : Inv s.mgr ∧ Told s.mgr := by
    refine hreach.inv (I := fun s => Inv s.mgr ∧ Told s.mgr) ⟨hm, ht₀⟩ ?_
    rintro s e s' ⟨hi, ht⟩ hok hs
    obtain ⟨hfresh, htrue⟩ := told_step hi ht e hs
    exact ⟨(mgr_inv_step hi e hs).1, ⟨htrue.mpr hok, hfresh⟩⟩
  exact ⟨htold.toTruthful, fun e s' hs => (told_step hinv htold e hs).2⟩

/-- A client binds, then a workspace is created before the only one: the client still has the only
    one at position 0 and as the first desktop. -/
theorem insertion_leaves_mirror_behind :
    ¬ ∀ n s₀ s, handleServerReady n = some s₀ → Reach step Always s₀ s → Truthful s.mgr := by
  intro h
  obtain ⟨s₀, s, hready, hs, hlive, hmirror, hpos⟩ : ∃ s₀ s, handleServerReady 1 = some s₀ ∧
      exec step s₀ [.clientBind, .workspaceCreate none 0] = some s ∧ s.mgr.live 0 = true ∧
      s.mgr.mirror 0 0 = some ⟨"Desktop 1", 0, true⟩ ∧ (s.mgr.workspace 0).position = 1 :=
    ⟨_, _, rfl, rfl, rfl, rfl, rfl⟩
  have htrue := (h 1 s₀ s hready (.of_exec _ _ hs)).mirror 0 0 _ hlive hmirror
  rw [hpos] at htrue
  exact absurd htrue.2 (by decide)

/-- Appending a workspace while a client is bound is told right. -/
theorem appended_workspace_told :
    ∃ s₀ s, handleServerReady 2 = some s₀ ∧
      exec step s₀ [.clientBind, .workspaceCreate none 2, .workspaceSetPosition 2 0] = some s ∧
      s.mgr.order = [2, 0, 1] ∧ Truthful s.mgr := by
  obtain ⟨s₀, hready, htrue⟩ := mirrors_truthful 2
  obtain ⟨s, hs, hrun, horder⟩ : ∃ s,
      exec step s₀ [.clientBind, .workspaceCreate none 2, .workspaceSetPosition 2 0] = some s ∧
      exec (guarded step createsUnseen) s₀
        [.clientBind, .workspaceCreate none 2, .workspaceSetPosition 2 0] = some s ∧
      s.mgr.order = [2, 0, 1] := by
    cases hready
    exact ⟨_, rfl, rfl, rfl⟩
  exact ⟨s₀, s, hready, hs, horder, (htrue s (.of_exec_guarded _ _ hrun)).1⟩

end FlakeWm.Workspaces
