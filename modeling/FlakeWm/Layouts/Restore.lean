import FlakeWm.Layouts.Model

/-! What was saved is what is restored.

    The two keys of a set of outputs determine the set, as long as the hash does not collide, so
    saves for other sets leave the entries of this one alone. The set of enabled outputs has a key
    only if it is not empty: a save with every output disabled files the configuration under the
    remains of an earlier call, which may be the key of another layout. -/

namespace FlakeWm.Layouts

/-- What is used of the hash, for the data `D` that is hashed: it has no collisions there, and its
    values look like UUIDs. -/
structure CollisionFree (hash : Str → Str) (D : Set Str) : Prop where
  length_hash : ∀ x, (hash x).length = uuidLength
  blank_notMem : ∀ x, ' ' ∉ hash x
  injOn : Set.InjOn hash D

/-- The outputs of a set as the code tells them apart. -/
def uuidSet (hash : Str → Str) (os : List Output) : Set Str := {u | ∃ o ∈ os, o.uuid hash = u}

/-- A set of connected outputs whose key is up to date, as it is for every save. -/
structure Manager.Configured (m : Manager) (hash : Str → Str) (D : Set Str) : Prop where
  ne_nil : m.actual ≠ []
  names : (m.actual.map (·.name)).Nodup
  uuids : (m.actual.map (·.uuid hash)).Nodup
  generated : m.outputsLayout = generateLayout hash m.actual m.outputsLayout
  descriptions : ∀ o ∈ m.actual, o.description ∈ D
  connected_mem : 2 ≤ m.actual.length → Layouts.uuids hash m.actual ∈ D
  enabled_mem : 2 ≤ m.enabled.length → Layouts.uuids hash m.enabled ∈ D

/-- Another set of connected outputs, with another set of enabled outputs. -/
structure Manager.Apart (k m : Manager) (hash : Str → Str) : Prop where
  connected : uuidSet hash k.actual ≠ uuidSet hash m.actual
  enabled : uuidSet hash k.enabled ≠ uuidSet hash m.enabled

/-- The same enabled flag and, if enabled, the same mode, scale, transform and position. -/
def SameLayout (p s : State) : Prop :=
  p.enabled = s.enabled ∧ (s.enabled = true →
    p.width = s.width ∧ p.height = s.height ∧ p.refresh = s.refresh ∧ p.scale = s.scale ∧
      p.transform = s.transform ∧ p.lx = s.lx ∧ p.ly = s.ly)

/-- `get_output_pending_config`. -/
def pendingOf (configs : List (Output × State)) (o : Output) : Option State :=
  (configs.find? (·.1 = o)).map (·.2)

/-- The pending configuration is the one the outputs of `m` had. -/
structure Restored (m : Manager) (p : Pending) : Prop where
  states : ∀ o ∈ m.actual, ∃ s, pendingOf p.configs o = some s ∧ SameLayout s (m.state o)
  primary : p.primary = m.primary

/-- Whatever the file held before and the stack holds during the saves: after a save for `m` and
    saves for `others`, the outputs of `m`, connected again in any order, are restored. -/
def Restores (hash : Str → Str) (m : Manager) (others : List Manager) : Prop :=
  ∀ (file : File) (buffer : Str) (saves : List (Manager × Str)), saves.map Prod.fst = others →
    ∀ m' : Manager, m'.actual.Perm m.actual →
      ∃ file' p, ((m, buffer) :: saves).foldlM (saveLayouts hash) file = some file' ∧
        getLayoutConfigs hash m' file' = some p ∧ Restored m p

theorem mem_actual_of_mem_enabled {m : Manager} {o : Output} (h : o ∈ m.enabled) : o ∈ m.actual :=
  List.mem_of_mem_filter h

/-! ### Keys -/

section

variable {hash : Str → Str} {D : Set Str}

theorem CollisionFree.length_uuid (h : CollisionFree hash D) (o : Output) :
    (o.uuid hash).length = uuidLength :=
  h.length_hash _

theorem CollisionFree.length_generateLayout (h : CollisionFree hash D) {os : List Output}
    (hos : os ≠ []) (buffer : Str) : (generateLayout hash os buffer).length = uuidLength := by
  unfold generateLayout
  split
  · exact absurd rfl hos
  · exact h.length_uuid _
  · exact h.length_hash _

/-- UUIDs have one length, so the concatenation gives them back. -/
theorem flatten_injective_of_length {n : ℕ} (hn : 0 < n) : ∀ {L L' : List Str},
    (∀ u ∈ L, u.length = n) → (∀ u ∈ L', u.length = n) → L.flatten = L'.flatten → L = L'
  | [], [], _, _, _ => rfl
  | [], u :: _, _, h', h => by
      have hu := h' u List.mem_cons_self
      have hlen := congrArg List.length h
      simp only [List.flatten_nil, List.length_nil, List.flatten_cons, List.length_append] at hlen
      omega
  | u :: _, [], h', _, h => by
      have hu := h' u List.mem_cons_self
      have hlen := congrArg List.length h
      simp only [List.flatten_nil, List.length_nil, List.flatten_cons, List.length_append] at hlen
      omega
  | u :: L, v :: L', hL, hL', h => by
      have huv : u.length = v.length :=
        (hL u List.mem_cons_self).trans (hL' v List.mem_cons_self).symm
      obtain ⟨rfl, htail⟩ := List.append_inj h huv
      rw [flatten_injective_of_length hn (fun w hw => hL w (List.mem_cons_of_mem _ hw))
        (fun w hw => hL' w (List.mem_cons_of_mem _ hw)) htail]

/-- The hashed concatenation gives the set of UUIDs back. -/
theorem CollisionFree.uuidSet_eq_of_uuids_eq (h : CollisionFree hash D) {os os' : List Output}
    (heq : uuids hash os = uuids hash os') : uuidSet hash os = uuidSet hash os' := by
  have hlists := flatten_injective_of_length (n := uuidLength) (by decide)
    (fun u hu => by
      obtain ⟨o, -, rfl⟩ := List.mem_map.1 hu
      exact h.length_uuid o)
    (fun u hu => by
      obtain ⟨o, -, rfl⟩ := List.mem_map.1 hu
      exact h.length_uuid o) heq
  ext u
  have hmem : ∀ l : List Output, u ∈ uuidSet hash l ↔
      u ∈ (l.insertionSort fun a b => a.name ≤ b.name).map fun o => o.uuid hash := by
    intro l
    simp only [uuidSet, Set.mem_ofPred_eq, List.mem_map, List.mem_insertionSort]
  rw [hmem, hmem, hlists]

/-- The description of an output is never a concatenation of UUIDs. -/
theorem CollisionFree.description_ne_uuids (h : CollisionFree hash D) (o : Output)
    (os : List Output) : o.description ≠ uuids hash os := by
  intro heq
  have hb := o.blank
  rw [heq, uuids, List.mem_flatten] at hb
  obtain ⟨u, hu, hb⟩ := hb
  obtain ⟨o', -, rfl⟩ := List.mem_map.1 hu
  exact h.blank_notMem _ hb

/-- The key of a non-empty set of outputs determines the set. -/
theorem CollisionFree.uuidSet_eq_of_generateLayout_eq (h : CollisionFree hash D)
    {os os' : List Output} (hne : os ≠ []) (hne' : os' ≠ []) (hd : ∀ o ∈ os, o.description ∈ D)
    (hd' : ∀ o ∈ os', o.description ∈ D) (hu : 2 ≤ os.length → uuids hash os ∈ D)
    (hu' : 2 ≤ os'.length → uuids hash os' ∈ D) {buffer buffer' : Str}
    (heq : generateLayout hash os buffer = generateLayout hash os' buffer') :
    uuidSet hash os = uuidSet hash os' := by
  match os, os' with
  | [], _ => exact absurd rfl hne
  | _ :: _, [] => exact absurd rfl hne'
  | [o], [o'] =>
    have huuid : o.uuid hash = o'.uuid hash := heq
    ext u
    simp only [uuidSet, Set.mem_ofPred_eq, List.mem_singleton, exists_eq_left, huuid]
  | [o], a :: b :: l =>
    have hdesc := h.injOn (hd o List.mem_cons_self) (hu' (by simp)) heq
    exact absurd hdesc (h.description_ne_uuids o _)
  | a :: b :: l, [o'] =>
    have hdesc := h.injOn (hd' o' List.mem_cons_self) (hu (by simp)) heq.symm
    exact absurd hdesc (h.description_ne_uuids o' _)
  | a :: b :: l, a' :: b' :: l' =>
    exact h.uuidSet_eq_of_uuids_eq (h.injOn (hu (by simp)) (hu' (by simp)) heq)

/-- The order of the list does not matter to the key: the names decide. -/
theorem generateLayout_perm {os os' : List Output} (hp : os'.Perm os) (hne : os ≠ [])
    (hnames : (os.map (·.name)).Nodup) (buffer buffer' : Str) :
    generateLayout hash os' buffer' = generateLayout hash os buffer := by
  have hsort : (os'.insertionSort fun a b => a.name ≤ b.name) =
      os.insertionSort fun a b => a.name ≤ b.name := by
    refine List.Perm.eq_of_pairwise ?_
      (List.pairwise_insertionSort _ os') (List.pairwise_insertionSort _ os)
      ((List.perm_insertionSort _ os').trans (hp.trans (List.perm_insertionSort _ os).symm))
    intro a b ha hb hab hba
    rw [List.mem_insertionSort] at ha hb
    exact List.inj_on_of_nodup_map hnames (hp.subset ha) hb (le_antisymm hab hba)
  match os, os', hp, hne, hsort with
  | [], _, _, hne, _ => exact absurd rfl hne
  | [o], os', hp, _, _ =>
    rw [List.perm_singleton.1 hp]
    rfl
  | a :: b :: l, [], hp, _, _ => exact absurd hp.length_eq (by simp)
  | a :: b :: l, [a'], hp, _, _ => exact absurd hp.length_eq (by simp)
  | a :: b :: l, a' :: b' :: l', _, _, hsort =>
    simp only [generateLayout, uuids, hsort]

end

/-! ### Saving -/

/-- The key of an output under an active layout that is a UUID. -/
def layoutKey (hash : Str → Str) (active : Str) (o : Output) : Str := active ++ ':' :: o.uuid hash

theorem outputGetLayout_eq (hash : Str → Str) {active : Str} (ha : active.length = uuidLength)
    (o : Output) : outputGetLayout hash o active = some (layoutKey hash active o) := by
  have hfits : active.length < 2 * (uuidLength + 1) := by
    rw [ha]
    decide
  rw [outputGetLayout, if_neg (by omega), if_pos hfits, ← ha, List.take_length]
  rfl

theorem layoutKey_inj (hash : Str → Str) {active active' : Str} (ha : active.length = uuidLength)
    (ha' : active'.length = uuidLength) {o o' : Output}
    (h : layoutKey hash active o = layoutKey hash active' o') :
    active = active' ∧ o.uuid hash = o'.uuid hash := by
  obtain ⟨hactive, hrest⟩ := List.append_inj h (ha.trans ha'.symm)
  exact ⟨hactive, (List.cons.inj hrest).2⟩

/-- A set key is shorter than the key of an output. -/
theorem ne_layoutKey (hash : Str → Str) {active key : Str} (ha : active.length = uuidLength)
    (hk : key.length = uuidLength) (o : Output) : key ≠ layoutKey hash active o := by
  intro h
  have hlen := congrArg List.length h
  rw [layoutKey, List.length_append, List.length_cons] at hlen
  omega

theorem edit_of_ne (file : File) {k key : Str} (h : k ≠ key) (f : Entry → Entry) :
    file.edit key f k = file k :=
  if_neg h

theorem edit_self (file : File) (key : Str) (f : Entry → Entry) :
    file.edit key f key = some (f ((file key).getD .empty)) :=
  if_pos rfl

/-- Writing the configurations of a list of outputs touches their keys only. -/
theorem write_frame (hash : Str → Str) (m : Manager) {active : Str}
    (ha : active.length = uuidLength) : ∀ (l : List Output) (file : File),
    ∃ file', l.foldlM (writeLayoutConfig hash m active) file = some file' ∧
      ∀ k, (∀ o ∈ l, k ≠ layoutKey hash active o) → file' k = file k
  | [], file => ⟨file, rfl, fun _ _ => rfl⟩
  | o :: l, file => by
      obtain ⟨file', hrun, hframe⟩ := write_frame hash m ha l
        (file.edit (layoutKey hash active o) (writeEntry (m.state o) (decide (m.primary = some o))))
      refine ⟨file', ?_, fun k hk => ?_⟩
      · rw [List.foldlM_cons, writeLayoutConfig, outputGetLayout_eq hash ha]
        exact hrun
      · rw [hframe k fun o' ho' => hk o' (List.mem_cons_of_mem _ ho')]
        exact edit_of_ne file (hk o List.mem_cons_self) _

/-- After the loop each output has its configuration under its key. -/
theorem write_contents {hash : Str → Str} {m : Manager} {active : Str}
    (ha : active.length = uuidLength) : ∀ (l : List Output) (file file' : File),
    (l.map (·.uuid hash)).Nodup → l.foldlM (writeLayoutConfig hash m active) file = some file' →
      ∀ o ∈ l, ∃ e, file' (layoutKey hash active o) =
        some (writeEntry (m.state o) (decide (m.primary = some o)) e)
  | [], _, _, _, _ => fun _ ho => absurd ho List.not_mem_nil
  | o :: l, file, file', hnd, hrun => by
      rw [List.foldlM_cons, writeLayoutConfig, outputGetLayout_eq hash ha] at hrun
      rw [List.map_cons, List.nodup_cons] at hnd
      rintro o' (_ | ⟨_, ho'⟩)
      · obtain ⟨file'', hrun', hframe⟩ := write_frame hash m ha l
          (file.edit (layoutKey hash active o)
            (writeEntry (m.state o) (decide (m.primary = some o))))
        have hfile : file'' = file' := Option.some.inj (hrun'.symm.trans hrun)
        refine ⟨(file (layoutKey hash active o)).getD .empty, ?_⟩
        rw [← hfile, hframe _ fun o' ho' heq => ?_]
        · exact edit_self file _ _
        · have huuid := (layoutKey_inj hash ha ha heq).2
          exact hnd.1 (List.mem_map.2 ⟨o', ho', huuid.symm⟩)
      · exact write_contents ha l _ file' hnd.2 hrun o' ho'

/-- The layouts of `m` are in the file. -/
structure Saved (hash : Str → Str) (m : Manager) (active : Str) (file : File) : Prop where
  activeLayout : getActiveLayout file m.outputsLayout = some active
  entries : ∀ o ∈ m.actual, ∃ e, file (layoutKey hash active o) =
    some (writeEntry (m.state o) (decide (m.primary = some o)) e)

section

variable {hash : Str → Str} {D : Set Str} {m k : Manager}

theorem Manager.Configured.length_outputsLayout (hm : m.Configured hash D)
    (h : CollisionFree hash D) : m.outputsLayout.length = uuidLength := by
  rw [hm.generated]
  exact h.length_generateLayout hm.ne_nil _

/-- A save with an enabled output goes through and changes only its own keys. -/
theorem saveLayouts_frame (h : CollisionFree hash D) (hne : m.enabled ≠ []) (file : File)
    (buffer : Str) :
    ∃ file', saveLayouts hash file (m, buffer) = some file' ∧
      ∀ key, key ≠ m.outputsLayout →
        (∀ o ∈ m.actual, key ≠ layoutKey hash (generateLayout hash m.enabled buffer) o) →
          file' key = file key := by
  obtain ⟨file', hrun, hframe⟩ := write_frame hash m (h.length_generateLayout hne buffer) m.actual
    (setActiveLayout file m.outputsLayout (generateLayout hash m.enabled buffer))
  refine ⟨file', hrun, fun key hk hkeys => ?_⟩
  rw [hframe key hkeys]
  exact edit_of_ne file hk _

/-- A save files the layouts of its outputs. -/
theorem saveLayouts_saved (h : CollisionFree hash D) (hm : m.Configured hash D)
    (hne : m.enabled ≠ []) {file file' : File} {buffer : Str}
    (hs : saveLayouts hash file (m, buffer) = some file') :
    Saved hash m (generateLayout hash m.enabled buffer) file' := by
  have ha := h.length_generateLayout hne buffer
  refine ⟨?_, write_contents ha _ _ _ hm.uuids hs⟩
  obtain ⟨file'', hrun, hframe⟩ := write_frame hash m ha m.actual
    (setActiveLayout file m.outputsLayout (generateLayout hash m.enabled buffer))
  have hfile : file'' = file' := Option.some.inj (hrun.symm.trans hs)
  rw [getActiveLayout, ← hfile,
    hframe _ fun o _ => ne_layoutKey hash ha (hm.length_outputsLayout h) o, setActiveLayout,
    edit_self]
  rfl

/-- A save for another set of outputs leaves the layouts alone. -/
theorem saveLayouts_keeps (h : CollisionFree hash D) (hm : m.Configured hash D)
    (hk : k.Configured hash D) (hap : k.Apart m hash) (hne : m.enabled ≠ [])
    (hnek : k.enabled ≠ []) {file file' : File} {buffer buffer' : Str}
    (hsaved : Saved hash m (generateLayout hash m.enabled buffer) file)
    (hs : saveLayouts hash file (k, buffer') = some file') :
    Saved hash m (generateLayout hash m.enabled buffer) file' := by
  have ha := h.length_generateLayout hne buffer
  have hak := h.length_generateLayout hnek buffer'
  have hsets : m.outputsLayout ≠ k.outputsLayout := by
    intro heq
    rw [hm.generated, hk.generated] at heq
    exact hap.connected (h.uuidSet_eq_of_generateLayout_eq hm.ne_nil hk.ne_nil hm.descriptions
      hk.descriptions hm.connected_mem hk.connected_mem heq).symm
  have hactive : generateLayout hash m.enabled buffer ≠ generateLayout hash k.enabled buffer' := by
    intro heq
    exact hap.enabled (h.uuidSet_eq_of_generateLayout_eq hne hnek
      (fun o ho => hm.descriptions o (mem_actual_of_mem_enabled ho))
      (fun o ho => hk.descriptions o (mem_actual_of_mem_enabled ho)) hm.enabled_mem hk.enabled_mem
      heq).symm
  obtain ⟨file'', hrun, hframe⟩ := saveLayouts_frame h hnek file buffer'
  have hfile : file'' = file' := Option.some.inj (hrun.symm.trans hs)
  rw [← hfile]
  refine ⟨?_, fun o ho => ?_⟩
  · rw [getActiveLayout,
      hframe _ hsets fun o _ => ne_layoutKey hash hak (hm.length_outputsLayout h) o]
    exact hsaved.activeLayout
  · rw [hframe _ (ne_layoutKey hash ha (hk.length_outputsLayout h) o).symm
      fun o' _ heq => hactive (layoutKey_inj hash ha hak heq).1]
    exact hsaved.entries o ho

/-- Saves for other sets of outputs, one after the other. -/
theorem saves_keep (h : CollisionFree hash D) (hm : m.Configured hash D) (hne : m.enabled ≠ [])
    {buffer : Str} : ∀ (saves : List (Manager × Str)) (file : File),
    (∀ s ∈ saves, s.1.Configured hash D ∧ s.1.Apart m hash ∧ s.1.enabled ≠ []) →
    Saved hash m (generateLayout hash m.enabled buffer) file →
      ∃ file', saves.foldlM (saveLayouts hash) file = some file' ∧
        Saved hash m (generateLayout hash m.enabled buffer) file'
  | [], file, _, hsaved => ⟨file, rfl, hsaved⟩
  | (k, buffer') :: saves, file, hall, hsaved => by
      obtain ⟨hk, hap, hnek⟩ := hall (k, buffer') List.mem_cons_self
      obtain ⟨file₁, hrun, -⟩ := saveLayouts_frame h hnek file buffer'
      have hsaved₁ := saveLayouts_keeps h hm hk hap hne hnek hsaved hrun
      obtain ⟨file', hrest, hsaved'⟩ := saves_keep h hm hne saves file₁
        (fun s hs => hall s (List.mem_cons_of_mem _ hs)) hsaved₁
      refine ⟨file', ?_, hsaved'⟩
      rw [List.foldlM_cons, hrun]
      exact hrest

end

/-! ### Restoring -/

theorem pendingOf_cons (c : Output × State) (configs : List (Output × State)) (o : Output) :
    pendingOf (c :: configs) o = if c.1 = o then some c.2 else pendingOf configs o := by
  by_cases h : c.1 = o <;> simp [pendingOf, h]

theorem pendingOf_replace {o o' : Output} {s : State} : ∀ configs : List (Output × State),
    pendingOf (configs.map fun c => if c.1 = o then (o, s) else c) o' =
      if o' = o ∧ configs.any (·.1 = o) then some s else pendingOf configs o'
  | [] => by simp [pendingOf]
  | c :: configs => by
      rw [List.map_cons, pendingOf_cons, pendingOf_cons, pendingOf_replace configs]
      by_cases hc : c.1 = o
      · by_cases ho : o = o'
        · simp [hc, ho]
        · simp [hc, ho, Ne.symm ho]
      · by_cases ho : c.1 = o'
        · have hne : o' ≠ o := fun h => hc (ho.trans h)
          simp [ho, hne]
        · have hany : (c :: configs).any (·.1 = o) = configs.any (·.1 = o) := by
            rw [List.any_cons, decide_eq_false hc, Bool.false_or]
          rw [if_neg hc, if_neg ho, if_neg ho, hany]

theorem pendingOf_addPendingState (o o' : Output) (s : State) (configs : List (Output × State)) :
    pendingOf (addPendingState o s configs) o' =
      if o' = o then some s else pendingOf configs o' := by
  unfold addPendingState
  by_cases hany : configs.any (·.1 = o) = true
  · rw [if_pos hany, pendingOf_replace]
    simp only [hany, and_true]
  · rw [if_neg hany]
    rw [pendingOf_cons]
    simp only [eq_comm]

theorem sameLayout_readEntry_writeEntry (s : State) (primary : Bool) (e : Entry) :
    SameLayout (readEntry (writeEntry s primary e)) s := by
  unfold writeEntry readEntry SameLayout
  by_cases hs : s.enabled = true <;> simp [hs, readFields, State.zero]

theorem readPrimary_writeEntry (s : State) (primary : Bool) (e : Entry) :
    readPrimary (writeEntry s primary e) = (s.enabled && primary) := by
  unfold writeEntry readPrimary
  by_cases hs : s.enabled = true <;> simp [hs]

/-- The primary output of `m`, if it is one of `l` and enabled. -/
def Manager.primaryAmong (m : Manager) (l : List Output) : Option Output :=
  m.primary.filter fun o => decide (o ∈ l) && (m.state o).enabled

theorem primaryAmong_cons (m : Manager) (o : Output) (l : List Output) (p : Option Output) :
    (m.primaryAmong (o :: l)).or p =
      (m.primaryAmong l).or
        (if (m.state o).enabled && decide (m.primary = some o) then some o else p) := by
  unfold Manager.primaryAmong
  cases hp : m.primary with
  | none => simp
  | some q =>
    by_cases hq : q = o
    · subst hq
      by_cases hs : (m.state q).enabled = true <;> by_cases hl : q ∈ l <;>
        simp [Option.filter, hs, hl]
    · simp [Option.filter, hq]

/-- The loop over the outputs of a saved layout. -/
theorem read_spec {hash : Str → Str} (m m' : Manager) {active : Str} {file : File}
    (ha : active.length = uuidLength) : ∀ (l : List Output) (p : Pending),
    (∀ o ∈ l, ∃ e, file (layoutKey hash active o) =
      some (writeEntry (m.state o) (decide (m.primary = some o)) e)) →
    ∃ p', l.foldlM (getLayoutConfig hash m' file (some active)) p = some p' ∧
      (∀ o ∈ l, ∃ s, pendingOf p'.configs o = some s ∧ SameLayout s (m.state o)) ∧
      (∀ o ∉ l, pendingOf p'.configs o = pendingOf p.configs o) ∧
      p'.primary = (m.primaryAmong l).or p.primary
  | [], p, _ => by
      refine ⟨p, rfl, fun o ho => absurd ho List.not_mem_nil, fun _ _ => rfl, ?_⟩
      have hnone : m.primaryAmong [] = none := by
        cases h : m.primary <;> simp [Manager.primaryAmong, h, Option.filter]
      rw [hnone, Option.none_or]
  | o :: l, p, hall => by
      obtain ⟨e, he⟩ := hall o List.mem_cons_self
      obtain ⟨p', hrun, hin, hout, hprim⟩ := read_spec m m' ha l
        { p with
          configs := addPendingState o
            (readEntry (writeEntry (m.state o) (decide (m.primary = some o)) e)) p.configs
          primary := if readPrimary (writeEntry (m.state o) (decide (m.primary = some o)) e) then
            some o else p.primary } (fun o' ho' => hall o' (List.mem_cons_of_mem _ ho'))
      refine ⟨p', ?_, ?_, ?_, ?_⟩
      · rw [List.foldlM_cons, getLayoutConfig, outputGetLayout_eq hash ha, Option.map_some, he]
        exact hrun
      · intro o' ho'
        by_cases hl : o' ∈ l
        · exact hin o' hl
        · obtain rfl : o' = o := (List.mem_cons.1 ho').resolve_right hl
          refine ⟨_, ?_, sameLayout_readEntry_writeEntry _ (decide (m.primary = some o')) e⟩
          rw [hout o' hl, pendingOf_addPendingState, if_pos rfl]
      · intro o' ho'
        rw [List.mem_cons, not_or] at ho'
        rw [hout o' ho'.2, pendingOf_addPendingState, if_neg ho'.1]
      · rw [hprim, readPrimary_writeEntry, primaryAmong_cons]

section

variable {hash : Str → Str} {D : Set Str} {m m' : Manager}

/-- The outputs of a saved layout, connected again, are restored; of the primary output this much
    is known. -/
theorem getLayoutConfigs_of_saved (h : CollisionFree hash D) (hm : m.Configured hash D)
    (hne : m.enabled ≠ []) {buffer : Str} {file : File}
    (hsaved : Saved hash m (generateLayout hash m.enabled buffer) file)
    (hp : m'.actual.Perm m.actual) :
    ∃ p, getLayoutConfigs hash m' file = some p ∧
      (∀ o ∈ m.actual, ∃ s, pendingOf p.configs o = some s ∧ SameLayout s (m.state o)) ∧
      p.primary = m.primaryAmong m.actual := by
  have hlayout : generateLayout hash m'.actual m'.outputsLayout = m.outputsLayout := by
    rw [generateLayout_perm hp hm.ne_nil hm.names m.outputsLayout, ← hm.generated]
  have hamong : m.primaryAmong m'.actual = m.primaryAmong m.actual := by
    unfold Manager.primaryAmong
    simp only [hp.mem_iff]
  obtain ⟨p, hrun, hin, -, hprim⟩ := read_spec m m'
    (h.length_generateLayout hne buffer) m'.actual ⟨m.outputsLayout, [], none⟩
    (fun o ho => hsaved.entries o (hp.subset ho))
  refine ⟨p, ?_, fun o ho => hin o (hp.symm.subset ho), ?_⟩
  · rw [getLayoutConfigs, hlayout, hsaved.activeLayout]
    exact hrun
  · rw [hprim, Option.or_none, hamong]

theorem primaryAmong_eq_iff (m : Manager) :
    m.primaryAmong m.actual = m.primary ↔ ∀ o, m.primary = some o → o ∈ m.enabled := by
  unfold Manager.primaryAmong
  cases hp : m.primary with
  | none => simp
  | some q =>
    have hmem : q ∈ m.enabled ↔ (decide (q ∈ m.actual) && (m.state q).enabled) = true := by
      rw [Manager.enabled, List.mem_filter, Bool.and_eq_true, decide_eq_true_iff]
    simp only [Option.some.injEq, forall_eq', hmem, Option.filter_eq_some_iff, true_and]

/-- A layout without enabled outputs may be filed under a string that does not fit anywhere. -/
theorem saveLayouts_overrun (hne : m.actual ≠ []) (hall : m.enabled = []) (file : File) :
    saveLayouts hash file (m, List.replicate 74 'x') = none := by
  unfold saveLayouts
  obtain ⟨o, l, hl⟩ := List.exists_cons_of_ne_nil hne
  simp only [hl, hall, generateLayout, List.foldlM_cons, writeLayoutConfig, outputGetLayout,
    List.length_replicate, uuidLength]
  rfl

end

theorem foldlM_eq_none {σ ε : Type*} {f : σ → ε → Option σ} {x : ε} (hx : ∀ s, f s x = none) :
    ∀ (l : List ε) (s : σ), x ∈ l → l.foldlM f s = none
  | y :: l, s, hmem => by
      rw [List.foldlM_cons]
      rcases List.mem_cons.1 hmem with rfl | hl
      · rw [hx s]
        rfl
      · cases hy : f s y with
        | none => rfl
        | some s' => exact foldlM_eq_none hx l s' hl

/-- With an enabled output in every save, everything but the primary output is settled. -/
theorem restore_of_enabled {hash : Str → Str} {D : Set Str} (h : CollisionFree hash D) {m : Manager}
    {others : List Manager} (hm : m.Configured hash D)
    (hothers : ∀ k ∈ others, k.Configured hash D ∧ k.Apart m hash)
    (hne : ∀ k ∈ m :: others, k.enabled ≠ []) (file : File) (buffer : Str)
    {saves : List (Manager × Str)} (hsaves : saves.map Prod.fst = others) {m' : Manager}
    (hperm : m'.actual.Perm m.actual) :
    ∃ file' p, ((m, buffer) :: saves).foldlM (saveLayouts hash) file = some file' ∧
      getLayoutConfigs hash m' file' = some p ∧
      (∀ o ∈ m.actual, ∃ s, pendingOf p.configs o = some s ∧ SameLayout s (m.state o)) ∧
      p.primary = m.primaryAmong m.actual := by
  have hnem := hne m List.mem_cons_self
  obtain ⟨file₁, hrun, -⟩ := saveLayouts_frame h hnem file buffer
  have hall : ∀ s ∈ saves, s.1.Configured hash D ∧ s.1.Apart m hash ∧ s.1.enabled ≠ [] := by
    intro s hs
    have hk : s.1 ∈ others := hsaves ▸ List.mem_map_of_mem hs
    exact ⟨(hothers s.1 hk).1, (hothers s.1 hk).2, hne s.1 (List.mem_cons_of_mem _ hk)⟩
  obtain ⟨file', hrest, hsaved⟩ := saves_keep h hm hnem saves file₁ hall
    (saveLayouts_saved h hm hnem hrun)
  obtain ⟨p, hread, hstates, hprim⟩ := getLayoutConfigs_of_saved h hm hnem hsaved hperm
  refine ⟨file', p, ?_, hread, hstates, hprim⟩
  rw [List.foldlM_cons, hrun]
  exact hrest

theorem map_fst_map_pair (others : List Manager) (buffer : Str) :
    (others.map fun k => (k, buffer)).map Prod.fst = others := by
  rw [List.map_map]
  exact List.map_id others

/-- Where a save may run over the buffer, nothing is promised: every save has an enabled output. -/
theorem enabled_of_restores {hash : Str → Str} {m : Manager} {others : List Manager}
    (hne : ∀ k ∈ m :: others, k.actual ≠ []) (hres : Restores hash m others) :
    ∀ k ∈ m :: others, k.enabled ≠ [] := by
  intro k hk hnone
  obtain ⟨file', -, hrun, -⟩ := hres (fun _ => none) (List.replicate 74 'x') _
    (map_fst_map_pair others (List.replicate 74 'x')) m (List.Perm.refl _)
  have hmem : (k, List.replicate 74 'x') ∈ (m, List.replicate 74 'x') ::
      others.map fun k => (k, List.replicate 74 'x') := by
    rcases List.mem_cons.1 hk with rfl | hk
    · exact List.mem_cons_self
    · exact List.mem_cons_of_mem _ (List.mem_map_of_mem hk)
  rw [foldlM_eq_none (saveLayouts_overrun (hne k hk) hnone) _ _ hmem] at hrun
  cases hrun

/-- For every set of connected outputs and every configuration of them, whatever the file held
    before and whatever is saved for other sets in between: the layout comes back exactly if every
    save has an enabled output, and the primary output, if there is one, is enabled. -/
theorem layouts_restored {hash : Str → Str} {D : Set Str} (h : CollisionFree hash D) {m : Manager}
    {others : List Manager} (hm : m.Configured hash D)
    (hothers : ∀ k ∈ others, k.Configured hash D ∧ k.Apart m hash) :
    Restores hash m others ↔
      (∀ k ∈ m :: others, k.enabled ≠ []) ∧ ∀ o, m.primary = some o → o ∈ m.enabled := by
  constructor
  · intro hres
    have hact : ∀ k ∈ m :: others, k.actual ≠ [] := by
      rintro k (_ | ⟨_, hk⟩)
      · exact hm.ne_nil
      · exact (hothers k hk).1.ne_nil
    have hne := enabled_of_restores hact hres
    refine ⟨hne, (primaryAmong_eq_iff m).1 ?_⟩
    have hsaves := map_fst_map_pair others []
    obtain ⟨file', p, hrun, hread, hres⟩ := hres (fun _ => none) [] _ hsaves m (List.Perm.refl _)
    obtain ⟨file'', p', hrun', hread', -, hprim⟩ := restore_of_enabled h hm hothers hne
      (fun _ => none) [] hsaves (List.Perm.refl _)
    obtain rfl : file'' = file' := Option.some.inj (hrun'.symm.trans hrun)
    obtain rfl : p' = p := Option.some.inj (hread'.symm.trans hread)
    exact hprim.symm.trans hres.primary
  · rintro ⟨hne, hprim⟩ file buffer saves hsaves m' hperm
    obtain ⟨file', p, hrun, hread, hstates, hp⟩ := restore_of_enabled h hm hothers hne file buffer
      hsaves hperm
    exact ⟨file', p, hrun, hread, hstates, hp.trans ((primaryAmong_eq_iff m).2 hprim)⟩

/-! ### Two monitors -/

def firstMonitor : Output := ⟨"DP-1".toList, "Acme A1 (DP-1)".toList, by decide⟩

def secondMonitor : Output := ⟨"DP-2".toList, "Acme B2 (DP-2)".toList, by decide⟩

/-- The UUIDs of the two monitors, and of the two together. -/
def monitorHash (x : Str) : Str :=
  if x = "Acme A1 (DP-1)".toList then "9155383d-b009-698a-39a8-36df70162253".toList
  else if x = "Acme B2 (DP-2)".toList then "dc6da743-226e-ea09-db81-c4b18261aab1".toList
  else "01a28b68-07a3-916a-da49-f0f12ac11bbd".toList

def monitorData : List Str :=
  [firstMonitor.description, secondMonitor.description,
    uuids monitorHash [firstMonitor, secondMonitor]]

theorem monitorHash_collisionFree : CollisionFree monitorHash {x | x ∈ monitorData} where
  length_hash x := by
    unfold monitorHash
    split_ifs <;> rfl
  blank_notMem x := by
    unfold monitorHash
    split_ifs <;> decide
  injOn := by
    have hinj : ∀ x ∈ monitorData, ∀ y ∈ monitorData, monitorHash x = monitorHash y → x = y := by
      decide
    exact fun x hx y hy => hinj x hx y hy

/-- Full HD at the origin. -/
def fullHd : State := ⟨true, true, 1920, 1080, 60000, 0, 1, 0, 0⟩

/-- The monitors `os` with those of `on` enabled, and the first of them primary. -/
def monitors (os on : List Output) : Manager where
  outputs := os
  fallback := none
  state o := if o ∈ on then fullHd else State.zero
  primary := on.head?
  outputsLayout := generateLayout monitorHash os []
  preferredMode _ := (1920, 1080, 60000)
  preferredScale _ _ _ := 1

theorem monitors_actual (os on : List Output) : (monitors os on).actual = os := by
  simp [Manager.actual, monitors]

theorem monitors_enabled (os on : List Output) :
    (monitors os on).enabled = os.filter fun o => decide (o ∈ on) := by
  rw [Manager.enabled, monitors_actual]
  refine List.filter_congr fun o _ => ?_
  by_cases ho : o ∈ on <;> simp [monitors, ho, fullHd, State.zero]

theorem monitors_configured {os on : List Output} (hne : os ≠ [])
    (hnames : (os.map (·.name)).Nodup) (huuids : (os.map (·.uuid monitorHash)).Nodup)
    (hdata : ∀ o ∈ os, o.description ∈ monitorData)
    (hos : 2 ≤ os.length → uuids monitorHash os ∈ monitorData)
    (hon : (os.filter fun o => decide (o ∈ on)).length < 2) :
    (monitors os on).Configured monitorHash {x | x ∈ monitorData} where
  ne_nil := by rwa [monitors_actual]
  names := by rwa [monitors_actual]
  uuids := by rwa [monitors_actual]
  generated := by
    rw [monitors_actual]
    match os, hne with
    | [_], _ => rfl
    | _ :: _ :: _, _ => rfl
  descriptions := by rwa [monitors_actual]
  connected_mem := by rwa [monitors_actual]
  enabled_mem h := by
    rw [monitors_enabled] at h
    omega

theorem monitors_apart {os on os' on' : List Output} {u v : Str}
    (hu : (u ∈ os.map (·.uuid monitorHash)) ≠ (u ∈ os'.map (·.uuid monitorHash)))
    (hv : (v ∈ (os.filter fun o => decide (o ∈ on)).map (·.uuid monitorHash)) ≠
      (v ∈ (os'.filter fun o => decide (o ∈ on')).map (·.uuid monitorHash))) :
    (monitors os on).Apart (monitors os' on') monitorHash := by
  have hmem : ∀ (w : Str) (l : List Output),
      (w ∈ uuidSet monitorHash l) = (w ∈ l.map (·.uuid monitorHash)) := by
    intro w l
    simp only [uuidSet, Set.mem_ofPred_eq, List.mem_map]
  refine ⟨fun heq => hu ?_, fun heq => hv ?_⟩
  · rw [← hmem, ← hmem, ← monitors_actual os on, heq, monitors_actual]
  · rw [← hmem, ← hmem, ← monitors_enabled, heq, monitors_enabled]

/-- Both monitors connected and the first one in use, then the second one alone: the layout of both
    is restored. -/
theorem both_monitors_restored :
    Restores monitorHash (monitors [firstMonitor, secondMonitor] [firstMonitor])
      [monitors [secondMonitor] [secondMonitor]] := by
  refine (layouts_restored monitorHash_collisionFree ?_ ?_).2 ⟨?_, ?_⟩
  · exact monitors_configured (by simp) (by decide) (by decide) (by decide) (by decide) (by decide)
  · rintro k (_ | ⟨_, ⟨⟩⟩)
    refine ⟨monitors_configured (by simp) (by decide) (by decide) (by decide) (by decide)
      (by decide), ?_⟩
    exact monitors_apart (u := firstMonitor.uuid monitorHash) (v := firstMonitor.uuid monitorHash)
      (by decide) (by decide)
  · rintro k (_ | ⟨_, _ | ⟨_, ⟨⟩⟩⟩) <;> rw [monitors_enabled] <;> decide
  · intro o ho
    cases ho
    rw [monitors_enabled]
    decide

/-- Both monitors are connected and disabled, and the stack still holds the UUID of the first one;
    then the first one is connected alone. With both again, it comes back enabled. -/
theorem disabled_monitors_not_restored :
    ¬ ∀ (hash : Str → Str) (D : Set Str) (m : Manager) (others : List Manager),
      CollisionFree hash D → m.Configured hash D →
      (∀ k ∈ others, k.Configured hash D ∧ k.Apart m hash) → Restores hash m others := by
  intro hclaim
  have hres := hclaim monitorHash {x | x ∈ monitorData} (monitors [firstMonitor, secondMonitor] [])
    [monitors [firstMonitor] [firstMonitor]] monitorHash_collisionFree
    (monitors_configured (by simp) (by decide) (by decide) (by decide) (by decide) (by decide)) (by
      rintro k (_ | ⟨_, ⟨⟩⟩)
      refine ⟨monitors_configured (by simp) (by decide) (by decide) (by decide) (by decide)
        (by decide), ?_⟩
      exact monitors_apart (u := secondMonitor.uuid monitorHash)
        (v := firstMonitor.uuid monitorHash) (by decide) (by decide))
  obtain ⟨file', p, hrun, hread, hrestored⟩ := hres (fun _ => none) (firstMonitor.uuid monitorHash)
    [(monitors [firstMonitor] [firstMonitor], [])] rfl _ (List.Perm.refl _)
  have hwrong : ((([(monitors [firstMonitor, secondMonitor] [], firstMonitor.uuid monitorHash),
      (monitors [firstMonitor] [firstMonitor], [])].foldlM (saveLayouts monitorHash)
      fun _ => none).bind (getLayoutConfigs monitorHash
        (monitors [firstMonitor, secondMonitor] []))).bind fun p =>
          (pendingOf p.configs firstMonitor).map (·.enabled)) = some true := by decide
  rw [hrun, Option.bind_some, hread, Option.bind_some] at hwrong
  obtain ⟨s, hs, hsame⟩ := hrestored.states firstMonitor (by rw [monitors_actual]; decide)
  rw [hs] at hwrong
  have henabled : s.enabled = true := Option.some.inj hwrong
  have hdisabled : s.enabled = false := hsame.1
  rw [henabled] at hdisabled
  cases hdisabled

end FlakeWm.Layouts
