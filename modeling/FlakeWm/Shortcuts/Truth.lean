import Mathlib.Data.List.Nodup
import FlakeWm.Shortcuts.Model

/-! What the shortcuts say is bound.

    The binding of a shortcut has the keysym and modifiers of its key, and is in the table exactly
    while the shortcut is registered (`Sound`). A request works on one shortcut and its binding and
    leaves the others alone (`Held`). The key is written without a look at the binding in two places:
    `set_foreign_shortcut_keys`, and `set_shortcut_keys` when the table refuses the new key. -/

namespace FlakeWm.Shortcuts

variable {t : KeyTables} {r r₀ : Registry} {s s₀ : Shortcut}

def KeyBinding.code (b : KeyBinding) : Word × Word := (b.keysym, b.modifiers)

/-- The keysym and modifiers of a Qt key. -/
def codeOf (t : KeyTables) (key : Word) : Word × Word := (qtkeyToKeysym t key, qtkeyToModifiers key)

def Shortcut.name (s : Shortcut) : String × String := (s.component, s.uniqueName)

/-- The table has made bindings only, each once, and no two with the same keysym and modifiers. -/
structure TableOk (r : Registry) : Prop where
  lt : ∀ b ∈ r.table, b < r.made
  nodup : r.table.Nodup
  distinct : ∀ a ∈ r.table, ∀ b ∈ r.table, (r.bindings a).code = (r.bindings b).code → a = b

/-- The bindings of the shortcuts are those of their keys. -/
structure Sound (t : KeyTables) (r : Registry) : Prop where
  table : TableOk r
  named : (r.shortcuts.map Shortcut.name).Nodup
  made : ∀ s ∈ r.shortcuts, ∀ b, s.binding = some b → b < r.made
  bound : ∀ s ∈ r.shortcuts, ∀ b, s.binding = some b → (r.bindings b).code = codeOf t s.key
  apart : ∀ s ∈ r.shortcuts, ∀ s' ∈ r.shortcuts, ∀ b, s.binding = some b → s'.binding = some b →
    s.name = s'.name
  registered : ∀ s ∈ r.shortcuts, s.isRegistered = true ↔ ∃ b, s.binding = some b ∧ b ∈ r.table

/-! ### The table -/

theorem isValid_iff {b : ℕ} {keysym modifiers : Word} :
    r.keyBindingIsValid b keysym modifiers = true ↔
      ∀ a ∈ r.table, a ≠ b → (r.bindings a).code ≠ (keysym, modifiers) := by
  rw [Registry.keyBindingIsValid, List.all_eq_true]
  refine forall_congr' fun a => forall_congr' fun _ => ?_
  simp only [KeyBinding.code, ne_eq, Prod.mk.injEq, Bool.or_eq_true, decide_eq_true_eq,
    Bool.not_eq_true', Bool.and_eq_false_iff, decide_eq_false_iff_not]
  constructor
  · rintro h hne ⟨hk, hm⟩
    rcases h with h | h | h
    · exact hne h
    · exact h hm.symm
    · exact h hk.symm
  · intro h
    by_cases hab : a = b
    · exact .inl hab
    · by_cases hm : modifiers = (r.bindings a).modifiers
      · exact .inr (.inr fun hk => h hab ⟨hk.symm, hm.symm⟩)
      · exact .inr (.inl hm)

theorem TableOk.unregister (h : TableOk r) (b : ℕ) : TableOk (r.keyBindingUnregister b) :=
  ⟨fun a ha => h.lt a (List.mem_filter.mp ha).1, h.nodup.filter _,
    fun a ha c hc => h.distinct a (List.mem_filter.mp ha).1 c (List.mem_filter.mp hc).1⟩

theorem TableOk.cons {b : ℕ} (h : TableOk r) (hb : b < r.made) (hmem : b ∉ r.table)
    (hvalid : r.keyBindingIsValid b (r.bindings b).keysym (r.bindings b).modifiers = true) :
    TableOk { r with table := b :: r.table } := by
  have hnew : ∀ a ∈ r.table, (r.bindings a).code ≠ (r.bindings b).code :=
    fun a ha => isValid_iff.mp hvalid a ha fun hab => hmem (hab ▸ ha)
  refine ⟨fun a ha => ?_, List.nodup_cons.mpr ⟨hmem, h.nodup⟩, fun a ha c hc hcode => ?_⟩
  · rcases List.mem_cons.mp ha with rfl | ha
    · exact hb
    · exact h.lt a ha
  · rcases List.mem_cons.mp ha with rfl | ha' <;> rcases List.mem_cons.mp hc with rfl | hc'
    · rfl
    · exact absurd hcode.symm (hnew c hc')
    · exact absurd hcode (hnew a ha')
    · exact h.distinct a ha' c hc' hcode

theorem setBinding_code (r : Registry) (b : ℕ) (keysym modifiers : Word) (a : ℕ) :
    ((r.setBinding b keysym modifiers).bindings a).code =
      if a = b then (keysym, modifiers) else (r.bindings a).code := by
  simp only [Registry.setBinding]
  split_ifs <;> rfl

theorem TableOk.setBinding {b : ℕ} {keysym modifiers : Word} (h : TableOk r)
    (hvalid : b ∈ r.table → r.keyBindingIsValid b keysym modifiers = true) :
    TableOk (r.setBinding b keysym modifiers) := by
  refine ⟨h.lt, h.nodup, fun a ha c hc hcode => ?_⟩
  have ha' : a ∈ r.table := ha
  have hc' : c ∈ r.table := hc
  rw [setBinding_code, setBinding_code] at hcode
  split_ifs at hcode with hab hcb hcb
  · rw [hab, hcb]
  · exact absurd hcode.symm (isValid_iff.mp (hvalid (hab ▸ ha')) c hc' hcb)
  · exact absurd hcode (isValid_iff.mp (hvalid (hcb ▸ hc')) a ha' hab)
  · exact h.distinct a ha' c hc' hcode

/-! ### One shortcut -/

/-- From `s₀` in `r₀`, a request came to the shortcut `s` and the registry `r`, where `s` is not
    written back yet. -/
structure Held (t : KeyTables) (r₀ : Registry) (s₀ : Shortcut) (r : Registry) (s : Shortcut) :
    Prop where
  table : TableOk r
  shortcuts : r.shortcuts = r₀.shortcuts
  name : s.name = s₀.name
  grows : r₀.made ≤ r.made
  others : ∀ b < r₀.made, s₀.binding ≠ some b →
    r.bindings b = r₀.bindings b ∧ (b ∈ r.table ↔ b ∈ r₀.table)
  made : ∀ b, s.binding = some b → b < r.made
  own : ∀ b, s.binding = some b → s₀.binding = some b ∨ r₀.made ≤ b
  bound : ∀ b, s.binding = some b → (r.bindings b).code = codeOf t s.key
  registered : s.isRegistered = true ↔ ∃ b, s.binding = some b ∧ b ∈ r.table

theorem Sound.held (h : Sound t r) (hs : s ∈ r.shortcuts) : Held t r s r s :=
  ⟨h.table, rfl, rfl, Nat.le_refl _, fun _ _ _ => ⟨rfl, Iff.rfl⟩, h.made s hs, fun _ => .inl,
    h.bound s hs, h.registered s hs⟩

/-- Flags that no binding depends on. -/
theorem Held.flags {s' : Shortcut} (h : Held t r₀ s₀ r s) (hname : s'.name = s.name)
    (hbinding : s'.binding = s.binding) (hkey : codeOf t s'.key = codeOf t s.key)
    (hregistered : s'.isRegistered = s.isRegistered) : Held t r₀ s₀ r s' := by
  refine ⟨h.table, h.shortcuts, hname.trans h.name, h.grows, h.others, ?_, ?_, ?_, ?_⟩
  · rw [hbinding]
    exact h.made
  · rw [hbinding]
    exact h.own
  · rw [hbinding, hkey]
    exact h.bound
  · rw [hbinding, hregistered]
    exact h.registered

theorem Held.present {b : Bool} (h : Held t r₀ s₀ r s) :
    Held t r₀ s₀ r { s with isPresent := b } :=
  h.flags rfl rfl rfl rfl

theorem mem_put_of_ne {a : Shortcut} (ha : a ∈ r.shortcuts) (hne : a.name ≠ s.name) :
    a ∈ (r.put s).shortcuts := by
  refine List.mem_map.mpr ⟨a, ha, if_neg fun heq => hne ?_⟩
  exact Prod.ext heq.1 heq.2

theorem mem_put {a : Shortcut} (ha : a ∈ (r.put s).shortcuts) :
    a = s ∨ (a ∈ r.shortcuts ∧ a.name ≠ s.name) := by
  obtain ⟨a₀, ha₀, rfl⟩ := List.mem_map.mp ha
  by_cases hname : a₀.component = s.component ∧ a₀.uniqueName = s.uniqueName
  · rw [if_pos hname]
    exact .inl rfl
  · rw [if_neg hname]
    refine .inr ⟨ha₀, fun heq => hname ?_⟩
    exact Prod.mk.injEq .. ▸ heq

theorem put_names (r : Registry) (s : Shortcut) :
    (r.put s).shortcuts.map Shortcut.name = r.shortcuts.map Shortcut.name := by
  rw [Registry.put, List.map_map]
  refine List.map_congr_left fun a _ => ?_
  rw [Function.comp_apply]
  split_ifs with hname
  · exact Prod.ext hname.1.symm hname.2.symm
  · rfl

/-- The shortcut is written back. -/
theorem Held.put (h : Held t r₀ s₀ r s) (h₀ : Sound t r₀) (hs₀ : s₀ ∈ r₀.shortcuts) :
    Sound t (r.put s) := by
  -- the other shortcuts have other bindings, which did not change
  have hother : ∀ a ∈ r.shortcuts, a.name ≠ s.name → ∀ b, a.binding = some b →
      b < r₀.made ∧ s.binding ≠ some b ∧ r.bindings b = r₀.bindings b ∧
        (b ∈ r.table ↔ b ∈ r₀.table) := by
    intro a ha hne b hb
    rw [h.shortcuts] at ha
    have hlt := h₀.made a ha b hb
    have hs₀b : s₀.binding ≠ some b := by
      intro heq
      exact hne ((h₀.apart a ha s₀ hs₀ b hb heq).trans h.name.symm)
    refine ⟨hlt, fun hsb => ?_, h.others b hlt hs₀b⟩
    rcases h.own b hsb with hown | hown
    · exact hs₀b hown
    · omega
  refine ⟨⟨h.table.lt, h.table.nodup, h.table.distinct⟩, ?_, ?_, ?_, ?_, ?_⟩
  · rw [put_names, h.shortcuts]
    exact h₀.named
  · intro a ha b hb
    rcases mem_put ha with rfl | ⟨ha, hne⟩
    · exact h.made b hb
    · exact Nat.lt_of_lt_of_le (hother a ha hne b hb).1 h.grows
  · intro a ha b hb
    rcases mem_put ha with rfl | ⟨ha, hne⟩
    · exact h.bound b hb
    · obtain ⟨-, -, hsame, -⟩ := hother a ha hne b hb
      change (r.bindings b).code = _
      rw [hsame]
      exact h₀.bound a (h.shortcuts ▸ ha) b hb
  · intro a ha c hc b hab hcb
    rcases mem_put ha with rfl | ⟨ha', hne⟩ <;> rcases mem_put hc with rfl | ⟨hc', hne'⟩
    · rfl
    · exact absurd hab (hother c hc' hne' b hcb).2.1
    · exact absurd hcb (hother a ha' hne b hab).2.1
    · exact h₀.apart a (h.shortcuts ▸ ha') c (h.shortcuts ▸ hc') b hab hcb
  · intro a ha
    rcases mem_put ha with rfl | ⟨ha, hne⟩
    · exact h.registered
    · rw [h₀.registered a (h.shortcuts ▸ ha)]
      refine exists_congr fun b => and_congr_right fun hb => ?_
      exact (hother a ha hne b hb).2.2.2.symm

/-! ### What requests do to the shortcut -/

theorem mem_unregister {a b : ℕ} : a ∈ (r.keyBindingUnregister b).table ↔ a ∈ r.table ∧ a ≠ b := by
  simp [Registry.keyBindingUnregister]

/-- The binding of the shortcut leaves the table. -/
theorem Held.unregister {b : ℕ} (h : Held t r₀ s₀ r s) (hb : s.binding = some b) :
    ∀ c < r₀.made, s₀.binding ≠ some c →
      (r.keyBindingUnregister b).bindings c = r₀.bindings c ∧
        (c ∈ (r.keyBindingUnregister b).table ↔ c ∈ r₀.table) := by
  intro c hc hne
  obtain ⟨hsame, hmem⟩ := h.others c hc hne
  refine ⟨hsame, ?_⟩
  rw [mem_unregister, hmem]
  refine and_iff_left fun hcb => ?_
  subst hcb
  rcases h.own c hb with hown | hown
  · exact hne hown
  · omega

theorem Held.setInactive (h : Held t r₀ s₀ r s) :
    Held t r₀ s₀ (r.globalShortcutSetInactive s).1 (r.globalShortcutSetInactive s).2 := by
  rw [Registry.globalShortcutSetInactive]
  split_ifs
  · exact h
  · split
    · exact h
    · next b hb =>
      refine ⟨h.table.unregister b, h.shortcuts, h.name, h.grows, h.unregister hb, h.made, h.own,
        h.bound, ?_⟩
      refine iff_of_false (by simp) ?_
      rintro ⟨c, hc, hmem⟩
      cases hb.symm.trans hc
      exact (mem_unregister.mp hmem).2 rfl

theorem Held.setActive (h : Held t r₀ s₀ r s) :
    Held t r₀ s₀ (r.globalShortcutSetActive s).1 (r.globalShortcutSetActive s).2 := by
  rw [Registry.globalShortcutSetActive]
  split_ifs with hidle
  · exact h
  · have hnot : s.isRegistered = false := by
      simp only [Bool.or_eq_true, not_or] at hidle
      simpa using hidle.2
    split
    · exact h
    · next b hb =>
      have hmem : b ∉ r.table := by
        intro hmem
        rw [h.registered.mpr ⟨b, hb, hmem⟩] at hnot
        cases hnot
      rw [Registry.keyBindingRegister, if_neg hmem]
      by_cases hvalid : r.keyBindingIsValid b (r.bindings b).keysym (r.bindings b).modifiers = true
      · rw [if_neg (by simp [hvalid])]
        refine ⟨h.table.cons (h.made b hb) hmem hvalid, h.shortcuts, h.name, h.grows,
          fun c hc hne => ?_, h.made, h.own, h.bound, ?_⟩
        · obtain ⟨hsame, hiff⟩ := h.others c hc hne
          refine ⟨hsame, ?_⟩
          rw [List.mem_cons, hiff]
          refine or_iff_right fun hcb => ?_
          subst hcb
          rcases h.own c hb with hown | hown
          · exact hne hown
          · omega
        · exact iff_of_true rfl ⟨b, hb, List.mem_cons_self⟩
      · rw [if_pos (by simpa using hvalid)]
        refine ⟨h.table.unregister b, h.shortcuts, h.name, h.grows, h.unregister hb, ?_, ?_, ?_, ?_⟩
        · intro c hc
          cases hc
        · intro c hc
          cases hc
        · intro c hc
          cases hc
        · refine iff_of_false (by simp) ?_
          rintro ⟨c, hc, -⟩
          cases hc

/-- A new key, unless the table refuses it. -/
theorem Held.createBinding (h : Held t r₀ s₀ r s) (key : Word)
    (hvalid : ∀ b, s.binding = some b → b ∈ r.table →
      r.keyBindingIsValid b (qtkeyToKeysym t key) (qtkeyToModifiers key) = true) :
    Held t r₀ s₀ (r.globalShortcutCreateBinding t { s with key := key }).1
      (r.globalShortcutCreateBinding t { s with key := key }).2 := by
  rw [Registry.globalShortcutCreateBinding]
  dsimp only
  split
  · next b hb =>
    have hb' : s.binding = some b := hb
    have hrefused : ¬ (b ∈ r.table ∧
        (!r.keyBindingIsValid b (qtkeyToKeysym t key) (qtkeyToModifiers key)) = true) := by
      rintro ⟨hmem, hrefused⟩
      rw [hvalid b hb' hmem] at hrefused
      cases hrefused
    rw [Registry.keyBindingUpdate, if_neg hrefused]
    refine ⟨h.table.setBinding (hvalid b hb'), h.shortcuts, h.name, h.grows, fun c hc hne => ?_,
      h.made, h.own, fun c hc => ?_, h.registered⟩
    · obtain ⟨hsame, hiff⟩ := h.others c hc hne
      refine ⟨?_, hiff⟩
      have hcb : c ≠ b := by
        rintro rfl
        rcases h.own c hb' with hown | hown
        · exact hne hown
        · omega
      exact (if_neg hcb).trans hsame
    · cases hb.symm.trans hc
      rw [setBinding_code, if_pos rfl, codeOf]
  · next hb =>
    have hb' : s.binding = none := hb
    rw [Registry.keyBindingCreate]
    have hfresh : r.made ∉ r.table := fun hmem => absurd (h.table.lt _ hmem) (Nat.lt_irrefl _)
    have hold : ∀ a, a ≠ r.made → (if a = r.made then
        (⟨qtkeyToKeysym t key, qtkeyToModifiers key, ""⟩ : KeyBinding) else r.bindings a) =
        r.bindings a := fun a ha => if_neg ha
    refine ⟨⟨fun a ha => ?_, h.table.nodup, fun a ha c hc hcode => ?_⟩, h.shortcuts, h.name,
      Nat.le_succ_of_le h.grows, fun c hc hne => ?_, fun c hc => ?_, fun c hc => ?_,
      fun c hc => ?_, ?_⟩
    · exact Nat.lt_succ_of_lt (h.table.lt a ha)
    · have ha' : a ≠ r.made := fun heq => hfresh (heq ▸ ha)
      have hc' : c ≠ r.made := fun heq => hfresh (heq ▸ hc)
      dsimp only at hcode
      rw [hold a ha', hold c hc'] at hcode
      exact h.table.distinct a ha c hc hcode
    · have hcb : c ≠ r.made := by
        have := h.grows
        omega
      exact ⟨(hold c hcb).trans (h.others c hc hne).1, (h.others c hc hne).2⟩
    · cases hc
      exact Nat.lt_succ_self _
    · cases hc
      exact .inr h.grows
    · cases hc
      dsimp only
      rw [if_pos rfl]
      rfl
    · refine iff_of_false ?_ ?_
      · intro hreg
        obtain ⟨c, hc, -⟩ := h.registered.mp hreg
        rw [hb'] at hc
        cases hc
      · rintro ⟨c, hc, hmem⟩
        cases hc
        exact hfresh hmem

/-! ### Requests -/

theorem getShortcutByName_spec {c n : String} (h : r.getShortcutByName c n = some s) :
    s ∈ r.shortcuts ∧ s.name = (c, n) := by
  have hname := List.find?_some h
  refine ⟨List.mem_of_find?_eq_some h, ?_⟩
  rw [Shortcut.name, Prod.mk.injEq]
  exact of_decide_eq_true hname

/-- The request sets a new key, and not only a default one. -/
def changesKey (s : Shortcut) (f : Registry.Flags) : Bool :=
  !f.isDefault && !(!f.noAutoloading && !s.isFresh)

/-- No request writes a key that the binding does not follow: a foreign key is set only on a shortcut
    without binding, or with the same keysym and modifiers; a new key of a registered shortcut is not
    taken by another binding. -/
def keepsTruth (t : KeyTables) (r : Registry) : Request → Bool
  | .setForeignShortcutKeys c n key =>
    (r.getShortcutByName c n).all fun s => s.binding.isNone || codeOf t key = codeOf t s.key
  | .setShortcutKeys c n key flags =>
    (r.getShortcutByName c n).all fun s => !changesKey s (.ofWord flags) ||
      s.binding.all fun b => b ∉ r.table ||
        r.keyBindingIsValid b (qtkeyToKeysym t key) (qtkeyToModifiers key)
  | _ => true

theorem Held.changeKeys (h : Held t r₀ s₀ r s) {key : Word} {f : Registry.Flags}
    (hok : changesKey s f = true → ∀ b, s.binding = some b → b ∈ r.table →
      r.keyBindingIsValid b (qtkeyToKeysym t key) (qtkeyToModifiers key) = true) :
    Held t r₀ s₀ (r.changeKeys t s key f).1 (r.changeKeys t s key f).2 := by
  rw [Registry.changeKeys]
  by_cases hdefault : f.isDefault = true
  · rw [if_pos hdefault]
    exact h.flags rfl rfl rfl rfl
  rw [if_neg hdefault]
  by_cases hauto : (!f.noAutoloading && !s.isFresh) = true
  · rw [if_pos hauto]
    split_ifs
    · exact h.present.setActive
    · exact h
  rw [if_neg hauto]
  have hchanges : changesKey s f = true := by
    rw [changesKey, Bool.eq_false_iff.mpr hdefault, Bool.eq_false_iff.mpr hauto]
    rfl
  have hbound := h.createBinding key (hok hchanges)
  dsimp only
  split_ifs
  · exact hbound.present.setActive.flags rfl rfl rfl rfl
  · exact hbound.flags rfl rfl rfl rfl

theorem doRegister_sound (h : Sound t r) (c n : String) : Sound t (r.doRegister c n) := by
  rw [Registry.doRegister]
  split
  · exact h
  · next hnone =>
    have hnew : ∀ {P : Shortcut → Prop}, P { component := c, uniqueName := n } →
        (∀ s ∈ r.shortcuts, P s) →
        ∀ s ∈ ({ component := c, uniqueName := n } :: r.shortcuts : List Shortcut), P s := by
      intro P hP hall s hs
      rcases List.mem_cons.mp hs with rfl | hs
      · exact hP
      · exact hall s hs
    refine ⟨⟨h.table.lt, h.table.nodup, h.table.distinct⟩, ?_, ?_, ?_, ?_, ?_⟩
    · refine List.nodup_cons.mpr ⟨fun hmem => ?_, h.named⟩
      obtain ⟨s, hs, hname⟩ := List.mem_map.mp hmem
      have hother := List.find?_eq_none.mp hnone s hs
      rw [Shortcut.name, Shortcut.name, Prod.mk.injEq] at hname
      exact absurd (decide_eq_true hname) hother
    · exact hnew (fun b hb => by cases hb) h.made
    · exact hnew (fun b hb => by cases hb) h.bound
    · refine hnew (fun s' _ b hb => by cases hb) fun s hs => ?_
      exact hnew (fun b _ hb => by cases hb) (h.apart s hs)
    · refine hnew (iff_of_false (by simp) ?_) h.registered
      rintro ⟨b, hb, -⟩
      cases hb

theorem unRegister_sound (h : Sound t r) (c n : String) : Sound t (r.unRegister c n) := by
  rw [Registry.unRegister]
  split
  · exact h
  · next s hs =>
    obtain ⟨hmem, hname⟩ := getShortcutByName_spec hs
    dsimp only
    -- the others have other names, and so other bindings
    have hrest : ∀ a ∈ r.shortcuts.filter (fun a =>
        ¬ (a.component = c ∧ a.uniqueName = n)), a ∈ r.shortcuts ∧ a.name ≠ s.name := by
      intro a ha
      obtain ⟨ha, hne⟩ := List.mem_filter.mp ha
      refine ⟨ha, fun heq => of_decide_eq_true hne ?_⟩
      rw [hname, Shortcut.name, Prod.mk.injEq] at heq
      exact heq
    have hnamed := h.named.sublist ((List.filter_sublist (p := fun a : Shortcut =>
      decide ¬ (a.component = c ∧ a.uniqueName = n)) (l := r.shortcuts)).map Shortcut.name)
    cases hb : s.binding with
    | none =>
      exact ⟨⟨h.table.lt, h.table.nodup, h.table.distinct⟩, hnamed,
        fun a ha => h.made a (hrest a ha).1, fun a ha => h.bound a (hrest a ha).1,
        fun a ha a' ha' => h.apart a (hrest a ha).1 a' (hrest a' ha').1,
        fun a ha => h.registered a (hrest a ha).1⟩
    | some b =>
      have htable := h.table.unregister b
      refine ⟨⟨htable.lt, htable.nodup, htable.distinct⟩, hnamed,
        fun a ha => h.made a (hrest a ha).1, fun a ha => h.bound a (hrest a ha).1,
        fun a ha a' ha' => h.apart a (hrest a ha).1 a' (hrest a' ha').1, fun a ha => ?_⟩
      obtain ⟨hmem', hne⟩ := hrest a ha
      rw [h.registered a hmem']
      refine exists_congr fun d => and_congr_right fun hd => ?_
      refine (mem_unregister.trans (and_iff_left fun heq => ?_)).symm
      exact hne (h.apart a hmem' s hmem d hd (heq ▸ hb))

theorem foldl_deactivate_sound : ∀ (l : List Shortcut) {r : Registry}, Sound t r →
    (∀ s ∈ l, s ∈ r.shortcuts) → (l.map Shortcut.name).Nodup → Sound t (l.foldl Registry.deactivate r)
  | [], _, h, _, _ => h
  | s :: l, r, h, hmem, hnodup => by
      obtain ⟨hs, hnodup⟩ := List.nodup_cons.mp hnodup
      have hheld := (h.held (hmem s List.mem_cons_self)).setInactive
      refine foldl_deactivate_sound l (hheld.put h (hmem s List.mem_cons_self)) (fun a ha => ?_) hnodup
      -- the shortcuts that are still to come have other names
      have hne : a.name ≠ (r.globalShortcutSetInactive s).2.name := by
        rw [hheld.name]
        exact fun heq => hs (heq ▸ List.mem_map_of_mem ha)
      exact mem_put_of_ne (hheld.shortcuts.symm ▸ hmem a (List.mem_cons_of_mem _ ha)) hne

theorem step_sound {q : Request} {r' : Registry} (h : Sound t r) (hok : keepsTruth t r q = true)
    (hs : step t r q = some r') : Sound t r' := by
  cases q with
  | doRegister c n =>
    cases hs
    exact doRegister_sound h c n
  | setShortcutKeys c n key flags =>
    cases hs
    rw [Registry.setShortcutKeys]
    rw [keepsTruth] at hok
    split
    · exact h
    · next s hfound =>
      have hmem := (getShortcutByName_spec hfound).1
      rw [hfound, Option.all_some] at hok
      refine ((h.held hmem).changeKeys fun hchanges b hb htable => ?_).put h hmem
      rw [hchanges, hb] at hok
      simpa [htable] using hok
  | setForeignShortcutKeys c n key =>
    cases hs
    rw [Registry.setForeignShortcutKeys]
    rw [keepsTruth] at hok
    split
    · exact h
    · next s hfound =>
      have hmem := (getShortcutByName_spec hfound).1
      rw [hfound, Option.all_some, Bool.or_eq_true] at hok
      have hheld := h.held hmem
      rcases hok with hnone | hsame
      · rw [Option.isNone_iff_eq_none] at hnone
        have hkey : Held t r s r { s with key := key } := by
          refine ⟨hheld.table, rfl, rfl, hheld.grows, hheld.others, hheld.made, hheld.own,
            fun b hb => ?_, hheld.registered⟩
          cases hnone.symm.trans hb
        exact hkey.put h hmem
      · have hkey : Held t r s r { s with key := key } :=
          hheld.flags rfl rfl (of_decide_eq_true hsame) rfl
        exact hkey.put h hmem
  | setInactive c n =>
    cases hs
    rw [Registry.setInactive]
    split
    · exact h
    · next s hfound =>
      have hmem := (getShortcutByName_spec hfound).1
      exact (h.held hmem).present.setInactive.put h hmem
  | activateGlobalShortcutContext c context =>
    cases hs
    rw [Registry.activateGlobalShortcutContext]
    split_ifs
    · refine foldl_deactivate_sound _ h (fun s hs => (List.mem_filter.mp hs).1) ?_
      exact h.named.sublist (List.filter_sublist.map _)
    · exact h
  | unregister c n =>
    cases hs
    exact unRegister_sound h c n

/-! ### The built-in bindings -/

/-- The Qt key of a built-in binding. -/
def builtinKey (t : KeyTables) (b : KeyBinding) : Word :=
  modifiersToQtkey b.modifiers ||| keysymToQtkey t b.keysym

/-- Some of the built-in bindings have their shortcuts. -/
structure Built (t : KeyTables) (r₀ : Registry) (done : List ℕ) (r : Registry) : Prop where
  bindings : r.bindings = r₀.bindings
  made : r.made = r₀.made
  table : r.table = r₀.table
  named : (r.shortcuts.map Shortcut.name).Nodup
  shortcut : ∀ s ∈ r.shortcuts, ∃ b ∈ done, s.binding = some b ∧
    s.name = (Registry.componentBuiltin, (r₀.bindings b).keybind) ∧
    s.key = builtinKey t (r₀.bindings b) ∧ s.isRegistered = true

/-- What is reported is what is bound. -/
structure Truthful (t : KeyTables) (r : Registry) : Prop where
  registered : ∀ s ∈ r.shortcuts, s.isRegistered = true → ∃ b ∈ r.table, s.binding = some b ∧
    ∃ key, r.shortcutKeys s.component s.uniqueName = some key ∧
      (r.bindings b).keysym = qtkeyToKeysym t key ∧ (r.bindings b).modifiers = qtkeyToModifiers key
  unregistered : ∀ s ∈ r.shortcuts, s.isRegistered = false → ∀ b ∈ r.table, s.binding ≠ some b
  distinct : (r.table.map fun b => ((r.bindings b).keysym, (r.bindings b).modifiers)).Nodup

end FlakeWm.Shortcuts
