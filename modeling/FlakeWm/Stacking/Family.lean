import FlakeWm.Stacking.Order
import FlakeWm.Workspaces.Ancestors

/-! The family of a view, raised in tree order (`view_raise_to_top` with `find_parent`).

    The function walks up to the root and, on the way back, raises at each ancestor all that descends
    from it. What it does to the lists is a sequence of raised views, in which every view is followed
    by its children: whoever is raised last stands highest. A view is raised only if it has a current
    proxy, so a view that is in workspaces without one stays where it is (`StandsRight`). -/

namespace FlakeWm.Stacking

open FlakeWm.Workspaces FlakeWm.Workspaces.Membership Scene

variable {c c' : Scene} {m : Membership} {u v x y : ViewId} {w : WorkspaceId} {p : ProxyId}
  {s t : List ViewId}

/-! ### Raising one view -/

/-- `x` stands above `y` in a workspace. -/
def Above (m : Membership) (w : WorkspaceId) (x y : ViewId) : Prop :=
  ∃ p q, m.owner p = some (x, w) ∧ m.owner q = some (y, w) ∧ Before (m.listed w) p q

/-- Only the order of the lists changes. -/
structure Relisted (m m' : Membership) : Prop where
  view : m'.view = m.view
  proxy : m'.proxy = m.proxy
  views : m'.views = m.views
  next : m'.next = m.next

theorem Relisted.refl (m : Membership) : Relisted m m := ⟨rfl, rfl, rfl, rfl⟩

theorem Relisted.trans {m' m'' : Membership} (h : Relisted m m') (h' : Relisted m' m'') :
    Relisted m m'' :=
  ⟨h'.view.trans h.view, h'.proxy.trans h.proxy, h'.views.trans h.views, h'.next.trans h.next⟩

theorem Relisted.owner {m' : Membership} (h : Relisted m m') : m'.owner = m.owner := by
  funext p
  rw [Membership.owner, Membership.owner, h.proxy]

theorem raiseProxy_mem {a : Proxy} (hp : c.mem.proxy p = some a) :
    (c.raiseProxy p).mem = listFirst a.workspace p c.mem := by
  have hp' : (c.write (listFirst a.workspace p)).mem.proxy p = some a := hp
  rw [raiseProxy, hp]
  simp only [nodeRaiseToTop, hp']
  rfl

theorem raiseProxy_relisted (c : Scene) (p : ProxyId) : Relisted c.mem (c.raiseProxy p).mem := by
  cases hp : c.mem.proxy p with
  | none =>
    rw [raiseProxy, hp]
    exact .refl c.mem
  | some a =>
    rw [raiseProxy_mem hp]
    exact ⟨rfl, rfl, rfl, rfl⟩

theorem foldl_raiseProxy_relisted : ∀ (ps : List ProxyId) (c : Scene),
    Relisted c.mem (ps.foldl raiseProxy c).mem
  | [], c => .refl c.mem
  | p :: ps, c => (raiseProxy_relisted c p).trans (foldl_raiseProxy_relisted ps _)

theorem raiseProxies_relisted (c : Scene) (u : ViewId) :
    Relisted c.mem (c.raiseProxies u).mem := by
  rw [raiseProxies]
  split_ifs
  · exact .refl c.mem
  · exact foldl_raiseProxy_relisted _ c

theorem raiseProxy_listed (hp : c.mem.owner p = some (u, w)) (w' : WorkspaceId) :
    (c.raiseProxy p).mem.listed w' =
      if w' = w then toFront (c.mem.listed w') p else c.mem.listed w' := by
  obtain ⟨a, ha, heq⟩ := Option.map_eq_some_iff.mp hp
  rw [Prod.mk.injEq] at heq
  rw [raiseProxy_mem ha, listFirst_listed, heq.2]
  rfl

/-- The proxies of a view are in different workspaces, so each list sees one move at most. -/
theorem foldl_raiseProxy_listed (w : WorkspaceId) : ∀ (ps : List ProxyId) {c : Scene}, ps.Nodup →
    (∀ p ∈ ps, ∃ w, c.mem.owner p = some (u, w)) →
    (∀ p q, c.mem.owner p = some (u, w) → c.mem.owner q = some (u, w) → p = q) →
    (ps.foldl raiseProxy c).mem.listed w =
      match ps.find? fun p => decide (c.mem.owner p = some (u, w)) with
      | none => c.mem.listed w
      | some p => toFront (c.mem.listed w) p
  | [], _, _, _, _ => rfl
  | p :: ps, c, hnodup, howner, hunique => by
      obtain ⟨hnot, hnodup⟩ := List.nodup_cons.mp hnodup
      obtain ⟨w₁, hp⟩ := howner p List.mem_cons_self
      have hsame := (raiseProxy_relisted c p).owner
      have hrest := foldl_raiseProxy_listed w ps (c := c.raiseProxy p) hnodup
        (fun q hq => by rw [hsame]; exact howner q (List.mem_cons_of_mem p hq))
        (by rw [hsame]; exact hunique)
      rw [List.foldl_cons, hrest, hsame, raiseProxy_listed hp]
      by_cases hw : w = w₁
      · subst hw
        have hnone : ps.find? (fun q => decide (c.mem.owner q = some (u, w))) = none := by
          refine List.find?_eq_none.mpr fun q hq hq' => hnot ?_
          rw [hunique p q hp (of_decide_eq_true hq')]
          exact hq
        have hhead : (p :: ps).find? (fun q => decide (c.mem.owner q = some (u, w))) = some p :=
          List.find?_cons_of_pos (decide_eq_true hp)
        rw [hnone, hhead]
        exact if_pos rfl
      · have hne : ¬ c.mem.owner p = some (u, w) := by
          rw [hp, Option.some.injEq, Prod.mk.injEq]
          exact fun h => hw h.2.symm
        have hhead : (p :: ps).find? (fun q => decide (c.mem.owner q = some (u, w))) =
            ps.find? fun q => decide (c.mem.owner q = some (u, w)) :=
          List.find?_cons_of_neg (by simpa using hne)
        rw [hhead, if_neg hw]

/-- A raised view goes to the front of the list of each of its workspaces. -/
theorem raiseProxies_listed (h : Linked c.mem) (hcur : (c.mem.view u).current ≠ none)
    (hp : c.mem.owner p = some (u, w)) :
    (c.raiseProxies u).mem.listed w = toFront (c.mem.listed w) p := by
  have hfind : (c.mem.view u).proxies.find? (fun q => decide (c.mem.owner q = some (u, w))) =
      some p := by
    cases hq : (c.mem.view u).proxies.find? fun q => decide (c.mem.owner q = some (u, w)) with
    | none =>
      have hmem := (h.view_mem u p).mpr ⟨w, hp⟩
      exact absurd (decide_eq_true hp) (List.find?_eq_none.mp hq p hmem)
    | some q =>
      have hq' : c.mem.owner q = some (u, w) := by simpa using List.find?_some hq
      rw [h.unique u w p q hp hq']
  rw [raiseProxies, if_neg hcur, foldl_raiseProxy_listed w _ (h.view_nodup u)
    (fun q hq => (h.view_mem u q).mp hq) (h.unique u w), hfind]

theorem raiseProxies_listed_other (h : Linked c.mem) (hnot : ¬ c.mem.In u w) :
    (c.raiseProxies u).mem.listed w = c.mem.listed w := by
  rw [raiseProxies]
  split_ifs
  · rfl
  · have hnone : (c.mem.view u).proxies.find? (fun q => decide (c.mem.owner q = some (u, w))) =
        none := by
      refine List.find?_eq_none.mpr fun q _ hq => hnot ⟨q, of_decide_eq_true hq⟩
    rw [foldl_raiseProxy_listed w _ (h.view_nodup u) (fun q hq => (h.view_mem u q).mp hq)
      (h.unique u w), hnone]

theorem raiseProxies_linked (h : Linked c.mem) (u : ViewId) : Linked (c.raiseProxies u).mem := by
  have hsame := raiseProxies_relisted c u
  have hlist : ∀ w, (∀ q, q ∈ (c.raiseProxies u).mem.listed w ↔ q ∈ c.mem.listed w) ∧
      ((c.raiseProxies u).mem.listed w).Nodup := by
    intro w
    by_cases hcur : (c.mem.view u).current = none
    · rw [raiseProxies, if_pos hcur]
      exact ⟨fun _ => Iff.rfl, h.listed_nodup w⟩
    · by_cases hin : c.mem.In u w
      · obtain ⟨p, hp⟩ := hin
        rw [raiseProxies_listed h hcur hp]
        exact ⟨fun q => mem_toFront ((h.listed_mem w p).mpr ⟨u, hp⟩), nodup_toFront (h.listed_nodup w)⟩
      · rw [raiseProxies_listed_other h hin]
        exact ⟨fun _ => Iff.rfl, h.listed_nodup w⟩
  refine ⟨?_, fun w q => ?_, ?_, fun w => (hlist w).2, ?_, ?_⟩
  · rw [hsame.view, hsame.owner]
    exact h.view_mem
  · rw [(hlist w).1, hsame.owner]
    exact h.listed_mem w q
  · rw [hsame.view]
    exact h.view_nodup
  · rw [hsame.owner]
    exact h.unique
  · rw [hsame.owner, hsame.next]
    exact h.fresh

/-- A raised view stands above all others. -/
theorem above_raise_self (h : Linked c.mem) (hcur : (c.mem.view x).current ≠ none) (hne : x ≠ y)
    (hx : c.mem.In x w) (hy : c.mem.In y w) : Above (c.raiseProxies x).mem w x y := by
  obtain ⟨p, hp⟩ := hx
  obtain ⟨q, hq⟩ := hy
  refine ⟨p, q, ?_, ?_, ?_⟩
  · rw [(raiseProxies_relisted c x).owner]
    exact hp
  · rw [(raiseProxies_relisted c x).owner]
    exact hq
  · rw [raiseProxies_listed h hcur hp]
    refine before_toFront_self ((h.listed_mem w q).mpr ⟨y, hq⟩) ?_
    rintro rfl
    rw [hp, Option.some.injEq, Prod.mk.injEq] at hq
    exact hne hq.1

/-- The other views keep their order. -/
theorem above_raise_other (h : Linked c.mem) (hx : x ≠ u) (hy : y ≠ u) :
    Above (c.raiseProxies u).mem w x y ↔ Above c.mem w x y := by
  rw [Above, Above, (raiseProxies_relisted c u).owner]
  by_cases hin : (c.mem.view u).current ≠ none ∧ c.mem.In u w
  · obtain ⟨hcur, r, hr⟩ := hin
    have hother : ∀ {z q}, z ≠ u → c.mem.owner q = some (z, w) → q ≠ r := by
      rintro z q hz hq rfl
      rw [hr, Option.some.injEq, Prod.mk.injEq] at hq
      exact hz hq.1.symm
    rw [raiseProxies_listed h hcur hr]
    constructor
    · rintro ⟨p, q, hp, hq, hbefore⟩
      exact ⟨p, q, hp, hq, (before_toFront (hother hx hp) (hother hy hq)).mp hbefore⟩
    · rintro ⟨p, q, hp, hq, hbefore⟩
      exact ⟨p, q, hp, hq, (before_toFront (hother hx hp) (hother hy hq)).mpr hbefore⟩
  · rw [not_and_or, not_not] at hin
    have hlist : (c.raiseProxies u).mem.listed w = c.mem.listed w := by
      rcases hin with hcur | hin
      · rw [raiseProxies, if_pos hcur]
      · exact raiseProxies_listed_other h hin
    rw [hlist]

theorem above_asymm (h : Linked m) (hxy : Above m w x y) : ¬ Above m w y x := by
  rintro ⟨q', p', hq', hp', hback⟩
  obtain ⟨p, q, hp, hq, hbefore⟩ := hxy
  rw [h.unique y w q' q hq' hq, h.unique x w p' p hp' hp] at hback
  exact hbefore.asymm (h.listed_nodup w) hback

/-! ### Raising a sequence of views -/

def raiseAll (c : Scene) (seq : List ViewId) : Scene := seq.foldl raiseProxies c

theorem raiseAll_append (c : Scene) (s t : List ViewId) :
    raiseAll c (s ++ t) = raiseAll (raiseAll c s) t := List.foldl_append

theorem raiseAll_relisted : ∀ (seq : List ViewId) (c : Scene), Relisted c.mem (raiseAll c seq).mem
  | [], c => .refl c.mem
  | u :: seq, c => (raiseProxies_relisted c u).trans (raiseAll_relisted seq _)

theorem raiseAll_linked : ∀ (seq : List ViewId) {c : Scene}, Linked c.mem →
    Linked (raiseAll c seq).mem
  | [], _, h => h
  | u :: seq, _, h => raiseAll_linked seq (raiseProxies_linked h u)

/-- Views that are not raised keep their order. -/
theorem above_raiseAll_other : ∀ (seq : List ViewId) {c : Scene}, Linked c.mem →
    (x ∈ seq → (c.mem.view x).current = none) → (y ∈ seq → (c.mem.view y).current = none) →
    (Above (raiseAll c seq).mem w x y ↔ Above c.mem w x y)
  | [], _, _, _, _ => Iff.rfl
  | u :: seq, c, h, hx, hy => by
      have hview := (raiseProxies_relisted c u).view
      have hrest := above_raiseAll_other seq (raiseProxies_linked h u)
        (by rw [hview]; exact fun hmem => hx (List.mem_cons_of_mem u hmem))
        (by rw [hview]; exact fun hmem => hy (List.mem_cons_of_mem u hmem))
      refine hrest.trans ?_
      by_cases hcur : (c.mem.view u).current = none
      · rw [raiseProxies, if_pos hcur]
      · refine above_raise_other h ?_ ?_
        · rintro rfl
          exact hcur (hx List.mem_cons_self)
        · rintro rfl
          exact hcur (hy List.mem_cons_self)

/-- Once it stands above `y`, a view stays there until `y` is raised. -/
theorem above_raiseAll_mono : ∀ (seq : List ViewId) {c : Scene}, Linked c.mem → x ≠ y →
    (y ∈ seq → (c.mem.view y).current = none) → Above c.mem w x y →
    Above (raiseAll c seq).mem w x y
  | [], _, _, _, _, hxy => hxy
  | u :: seq, c, h, hne, hy, hxy => by
      have hview := (raiseProxies_relisted c u).view
      refine above_raiseAll_mono seq (raiseProxies_linked h u) hne
        (by rw [hview]; exact fun hmem => hy (List.mem_cons_of_mem u hmem)) ?_
      by_cases hcur : (c.mem.view u).current = none
      · rw [raiseProxies, if_pos hcur]
        exact hxy
      · have hyu : y ≠ u := by
          rintro rfl
          exact hcur (hy List.mem_cons_self)
        rcases eq_or_ne x u with rfl | hxu
        · obtain ⟨p, q, hp, hq, -⟩ := hxy
          exact above_raise_self h hcur hne ⟨p, hp⟩ ⟨q, hq⟩
        · exact (above_raise_other h hxu hyu).mpr hxy

/-- What is raised last stands highest. -/
theorem above_raiseAll_last (h : Linked c.mem) (hcur : (c.mem.view x).current ≠ none) (hne : x ≠ y)
    (hx : c.mem.In x w) (hy : c.mem.In y w) (hlast : y ∈ t → (c.mem.view y).current = none) :
    Above (raiseAll c (s ++ x :: t)).mem w x y := by
  have hsame := raiseAll_relisted s c
  have hlinked := raiseAll_linked s h
  rw [raiseAll_append]
  change Above (raiseAll ((raiseAll c s).raiseProxies x) t).mem w x y
  refine above_raiseAll_mono t (raiseProxies_linked hlinked x) hne ?_ ?_
  · rw [(raiseProxies_relisted _ x).view, hsame.view]
    exact hlast
  · refine above_raise_self hlinked ?_ hne ?_ ?_
    · rw [hsame.view]
      exact hcur
    · rw [In, hsame.owner]
      exact hx
    · rw [In, hsame.owner]
      exact hy

/-! ### Families -/

/-- `x` is `u` or one of its descendants. -/
def Descends (m : Membership) : ViewId → ViewId → Prop := Relation.ReflTransGen (ChildOf m)

/-- The views that descend from the root ancestor of `v`. -/
def Family (m : Membership) (v x : ViewId) : Prop :=
  ∃ r, (m.view r).parent = none ∧ Descends m v r ∧ Descends m x r

/-- Parents and children agree, are views that are there, and have no cycle. -/
structure Forest (m : Membership) : Prop where
  children : ∀ x u, x ∈ (m.view u).children ↔ ChildOf m x u
  views : ∀ x u, ChildOf m x u → x ∈ m.views ∧ u ∈ m.views
  acyclic : Acyclic (ChildOf m)

theorem family_of_root (hroot : (m.view v).parent = none) : Family m v x ↔ Descends m x v := by
  constructor
  · rintro ⟨r, -, hv, hx⟩
    rcases Relation.ReflTransGen.cases_head hv with rfl | ⟨u, hu, -⟩
    · exact hx
    · rw [ChildOf, hroot] at hu
      cases hu
  · intro hx
    exact ⟨v, hroot, .refl, hx⟩

theorem family_of_child (hparent : ChildOf m v u) : Family m v x ↔ Family m u x := by
  constructor
  · rintro ⟨r, hroot, hv, hx⟩
    rcases Relation.ReflTransGen.cases_head hv with rfl | ⟨u', hu', hr⟩
    · rw [ChildOf, hroot] at hparent
      cases hparent
    · have : u' = u := Option.some.inj (hu'.symm.trans hparent)
      exact ⟨r, hroot, this ▸ hr, hx⟩
  · rintro ⟨r, hroot, hu, hx⟩
    exact ⟨r, hroot, .head hparent hu, hx⟩

/-- A descendant of a member is one. -/
theorem Family.descends (h : Family m v y) (hx : Descends m x y) : Family m v x := by
  obtain ⟨r, hroot, hv, hy⟩ := h
  exact ⟨r, hroot, hv, hx.trans hy⟩

/-- Every `y` in the sequence is followed by `x`. -/
def Follows (x y : ViewId) (seq : List ViewId) : Prop := ∀ s t, seq = s ++ y :: t → x ∈ t

theorem follows_nil : Follows x y [] := by
  intro s t h
  simp at h

theorem Follows.cons (hu : u = y → x ∈ s) (h : Follows x y s) : Follows x y (u :: s) := by
  rintro (- | ⟨a, s'⟩) t heq
  · rw [List.nil_append, List.cons.injEq] at heq
    exact heq.2 ▸ hu heq.1
  · rw [List.cons_append, List.cons.injEq] at heq
    exact h s' t heq.2

theorem Follows.append (hs : Follows x y s) (ht : Follows x y t) : Follows x y (s ++ t) := by
  intro a b heq
  rcases List.append_eq_append_iff.mp heq with ⟨a', rfl, hb⟩ | ⟨b', rfl, hb⟩
  · exact ht a' b hb
  · cases b' with
    | nil => exact ht [] b hb.symm
    | cons z b' =>
      rw [List.cons_append, List.cons.injEq] at hb
      rw [hb.2]
      exact List.mem_append_left t (hs a b' (by rw [hb.1]))

/-- The last of the `y` in a sequence. -/
theorem exists_last : ∀ {seq : List ViewId}, y ∈ seq → ∃ s t, seq = s ++ y :: t ∧ y ∉ t
  | u :: seq, h => by
      by_cases hmem : y ∈ seq
      · obtain ⟨s, t, rfl, ht⟩ := exists_last hmem
        exact ⟨u :: s, t, rfl, ht⟩
      · rcases List.mem_cons.mp h with rfl | h
        · exact ⟨[], seq, rfl, hmem⟩
        · exact absurd h hmem

/-! ### The order in which a family is raised -/

/-- The function raises exactly `member`, each one followed by its children. -/
structure Trace (m : Membership) (member : ViewId → Prop) (seq : List ViewId) : Prop where
  mem : ∀ x, x ∈ seq ↔ member x
  follows : ∀ x y, ChildOf m x y → Follows x y seq

theorem foldlM_trace {raise : Scene → ViewId → Option Scene} : ∀ (children : List ViewId)
    {c c' : Scene}, c.mem.view = m.view →
    (∀ child ∈ children, ∀ c c', c.mem.view = m.view → raise c child = some c' →
      ∃ seq, c' = raiseAll c seq ∧ Trace m (Descends m · child) seq) →
    children.foldlM raise c = some c' →
    ∃ seq, c' = raiseAll c seq ∧ Trace m (fun x => ∃ child ∈ children, Descends m x child) seq
  | [], c, _, _, _, h => by
      cases h
      refine ⟨[], rfl, fun x => ?_, fun _ _ _ => follows_nil⟩
      simp
  | child :: children, c, c', hview, hraise, h => by
      rw [List.foldlM_cons, Option.bind_eq_bind, Option.bind_eq_some_iff] at h
      obtain ⟨c₁, hc₁, h⟩ := h
      obtain ⟨s, rfl, hs⟩ := hraise child List.mem_cons_self c c₁ hview hc₁
      obtain ⟨t, rfl, ht⟩ := foldlM_trace children ((raiseAll_relisted s c).view.trans hview)
        (fun x hx => hraise x (List.mem_cons_of_mem child hx)) h
      refine ⟨s ++ t, ?_, fun x => ?_, fun x y hxy => (hs.follows x y hxy).append (ht.follows x y hxy)⟩
      · rw [raiseAll_append]
      · rw [List.mem_append, hs.mem, ht.mem]
        simp

/-- Raising a view and then, one after the other, what descends from its children. -/
theorem descendants_trace {raise : Scene → ViewId → Option Scene} (hf : Forest m)
    (hview : c.mem.view = m.view)
    (hraise : ∀ child, ∀ c c', c.mem.view = m.view → raise c child = some c' →
      ∃ seq, c' = raiseAll c seq ∧ Trace m (Descends m · child) seq)
    (h : ((c.raiseProxies v).mem.view v).children.foldlM raise (c.raiseProxies v) = some c') :
    ∃ seq, c' = raiseAll c seq ∧ Trace m (Descends m · v) seq := by
  have hview₁ := (raiseProxies_relisted c v).view.trans hview
  rw [hview₁] at h
  obtain ⟨t, rfl, ht⟩ := foldlM_trace _ hview₁ (fun child _ => hraise child) h
  have hmem : ∀ x, x ∈ t ↔ ∃ u, ChildOf m u v ∧ Descends m x u := by
    intro x
    simp only [ht.mem, hf.children]
  refine ⟨v :: t, rfl, fun x => ?_, fun x y hxy => .cons ?_ (ht.follows x y hxy)⟩
  · rw [List.mem_cons, hmem]
    constructor
    · rintro (rfl | ⟨u, hu, hx⟩)
      · exact .refl
      · exact hx.tail hu
    · intro hx
      rcases Relation.ReflTransGen.cases_tail hx with rfl | ⟨u, hx, hu⟩
      · exact .inl rfl
      · exact .inr ⟨u, hu, hx⟩
  · rintro rfl
    exact (hmem x).mpr ⟨x, hxy, .refl⟩

theorem raise_down (hf : Forest m) : ∀ (n : ℕ) {c c' : Scene} {v : ViewId}, c.mem.view = m.view →
    viewRaiseToTop n c v false = some c' →
    ∃ seq, c' = raiseAll c seq ∧ Trace m (Descends m · v) seq
  | 0, _, _, _, _, h => by cases h
  | n + 1, c, c', v, hview, h =>
      descendants_trace hf hview (fun _ _ _ hc hs => raise_down hf n hc hs) h

/-- The whole family, the descendants of `v` last. -/
theorem raise_up (hf : Forest m) : ∀ (n : ℕ) {c c' : Scene} {v : ViewId}, c.mem.view = m.view →
    viewRaiseToTop n c v true = some c' →
    ∃ s t, c' = raiseAll c (s ++ t) ∧ Trace m (Family m v) (s ++ t) ∧ Trace m (Descends m · v) t
  | 0, _, _, _, _, h => by cases h
  | n + 1, c, c', v, hview, h => by
      rw [viewRaiseToTop, Option.bind_eq_bind, Option.bind_eq_some_iff] at h
      obtain ⟨c₁, hparent, h⟩ := h
      simp only [if_true] at hparent
      rw [hview] at hparent
      cases hp : (m.view v).parent with
      | none =>
        rw [hp] at hparent
        cases hparent
        obtain ⟨t, rfl, ht⟩ := descendants_trace hf hview (fun _ _ _ hc hs => raise_down hf n hc hs) h
        refine ⟨[], t, rfl, ⟨fun x => ?_, ht.follows⟩, ht⟩
        rw [List.nil_append, ht.mem, family_of_root hp]
      | some u =>
        rw [hp] at hparent
        obtain ⟨s, t, rfl, hs, ht⟩ := raise_up hf n hview hparent
        have hview₁ := (raiseAll_relisted (s ++ t) c).view.trans hview
        obtain ⟨t', rfl, ht'⟩ := descendants_trace hf hview₁
          (fun _ _ _ hc hs => raise_down hf n hc hs) h
        refine ⟨s ++ t, t', ?_, ⟨fun x => ?_, fun x y hxy =>
          (hs.follows x y hxy).append (ht'.follows x y hxy)⟩, ht'⟩
        · rw [raiseAll_append c (s ++ t)]
        · rw [List.mem_append, hs.mem, ht'.mem, family_of_child hp]
          refine or_iff_left_of_imp fun hx => ?_
          have hu : Family m u u := (hs.mem u).mp (List.mem_append_right s ((ht.mem u).mpr .refl))
          exact hu.descends (hx.tail hp)

/-! ### The walk ends -/

theorem foldlM_isSome (raise : Scene → ViewId → Option Scene) : ∀ (children : List ViewId)
    {c : Scene}, c.mem.view = m.view →
    (∀ child ∈ children, ∀ c, c.mem.view = m.view →
      ∃ c', raise c child = some c' ∧ c'.mem.view = m.view) →
    ∃ c', children.foldlM raise c = some c' ∧ c'.mem.view = m.view
  | [], c, hview, _ => ⟨c, rfl, hview⟩
  | child :: children, c, hview, hraise => by
      obtain ⟨c₁, hc₁, hview₁⟩ := hraise child List.mem_cons_self c hview
      obtain ⟨c', hc', hview'⟩ := foldlM_isSome raise children hview₁ fun x hx =>
        hraise x (List.mem_cons_of_mem child hx)
      refine ⟨c', ?_, hview'⟩
      rw [List.foldlM_cons, Option.bind_eq_bind, hc₁]
      exact hc'

theorem raise_down_isSome (hf : Forest m) : ∀ (n : ℕ) {c : Scene} {v : ViewId},
    c.mem.view = m.view → v ∈ m.views → Enough (fun u x => ChildOf m x u) m.views n v →
    ∃ c', viewRaiseToTop n c v false = some c' ∧ c'.mem.view = m.view
  | 0, _, _, _, _, h => absurd rfl h.pos
  | n + 1, c, v, hview, hv, h => by
      have hview₁ := (raiseProxies_relisted c v).view.trans hview
      refine foldlM_isSome (m := m) _ ((c.raiseProxies v).mem.view v).children hview₁
        fun child hchild c₁ hc₁ => ?_
      rw [hview₁, hf.children] at hchild
      have hacyclic : Acyclic fun u x => ChildOf m x u := fun x hx =>
        hf.acyclic x (Relation.transGen_swap.mp hx)
      exact raise_down_isSome hf n hc₁ (hf.views child v hchild).1 (h.step hacyclic hv hchild)

theorem raise_up_isSome (hf : Forest m) : ∀ (k : ℕ) {c : Scene} {v : ViewId},
    c.mem.view = m.view → v ∈ m.views → Enough (ChildOf m) m.views k v →
    ∃ c', viewRaiseToTop (k + (m.views.length + 1)) c v true = some c' ∧ c'.mem.view = m.view
  | 0, _, _, _, _, h => absurd rfl h.pos
  | k + 1, c, v, hview, hv, h => by
      obtain ⟨c₁, hc₁, hview₁⟩ : ∃ c₁, ((m.view v).parent.elim (some c) fun parent =>
          viewRaiseToTop (k + (m.views.length + 1)) c parent true) = some c₁ ∧
          c₁.mem.view = m.view := by
        cases hp : (m.view v).parent with
        | none => exact ⟨c, rfl, hview⟩
        | some u => exact raise_up_isSome hf k hview (hf.views v u hp).2 (h.step hf.acyclic hv hp)
      have hview₂ := (raiseProxies_relisted c₁ v).view.trans hview₁
      obtain ⟨c', hc', hview'⟩ := foldlM_isSome (m := m)
        (fun c child => viewRaiseToTop (k + (m.views.length + 1)) c child false)
        ((c₁.raiseProxies v).mem.view v).children hview₂ fun child hchild c₂ hc₂ => by
          rw [hview₂, hf.children] at hchild
          exact raise_down_isSome hf _ hc₂ (hf.views child v hchild).1 (.start _ (by omega))
      refine ⟨c', ?_, hview'⟩
      have hfuel : k + 1 + (m.views.length + 1) = k + (m.views.length + 1) + 1 := by omega
      rw [hfuel, viewRaiseToTop]
      simp only [if_true]
      rw [hview, hc₁]
      exact hc'

/-! ### The order of the family -/

/-- After `view_raise_to_top`, in one workspace. -/
structure FamilyRaised (m m' : Membership) (v : ViewId) (w : WorkspaceId) : Prop where
  members : ∀ x, m'.In x w ↔ m.In x w
  front : ∀ x y, m.In x w → m.In y w → Family m v x → ¬ Family m v y → Above m' w x y
  parents : ∀ x y, m.In x w → m.In y w → Family m v x → ChildOf m x y → Above m' w x y
  own : ∀ x y, m.In x w → m.In y w → Descends m x v → Family m v y → ¬ Descends m y v →
    Above m' w x y
  rest : ∀ x y, ¬ Family m v x → ¬ Family m v y → (Above m' w x y ↔ Above m w x y)

/-- `x` is of the family of `v` and has to stand above `y`. -/
def Outranks (m : Membership) (v x y : ViewId) : Prop :=
  Family m v x ∧ (¬ Family m v y ∨ ChildOf m x y ∨ Descends m x v ∧ ¬ Descends m y v)

/-- Every member of the family that is in a workspace without a current proxy stands there above all
    views it has to stand above, none of which is raised. -/
def StandsRight (m : Membership) (v : ViewId) : Prop :=
  ∀ w x y, m.In x w → m.In y w → Outranks m v x y → (m.view x).current = none →
    (Family m v y → (m.view y).current = none) ∧ Above m w x y

theorem Outranks.ne (hf : Forest m) (h : Outranks m v x y) : x ≠ y := by
  rintro rfl
  obtain ⟨hx, hnot | hchild | ⟨hdesc, hnot⟩⟩ := h
  · exact hnot hx
  · exact hf.acyclic x (.single hchild)
  · exact hnot hdesc

/-- In the sequence, a view comes after the last of those it has to stand above. -/
theorem exists_after {s t : List ViewId} (hs : Trace m (Family m v) (s ++ t))
    (ht : Trace m (Descends m · v) t) (h : Outranks m v x y) :
    ∃ a b, s ++ t = a ++ x :: b ∧ (y ∈ b → ¬ Family m v y) := by
  obtain ⟨hx, hnot | hchild | ⟨hdesc, hnot⟩⟩ := h
  · obtain ⟨a, b, hab, -⟩ := exists_last ((hs.mem x).mpr hx)
    exact ⟨a, b, hab, fun _ => hnot⟩
  · by_cases hy : y ∈ s ++ t
    · obtain ⟨a, b, hab, hyb⟩ := exists_last hy
      obtain ⟨b₁, b₂, rfl, -⟩ := exists_last (hs.follows x y hchild a b hab)
      refine ⟨a ++ y :: b₁, b₂, ?_, fun hmem => absurd ?_ hyb⟩
      · rw [hab, List.append_assoc, List.cons_append]
      · exact List.mem_append_right b₁ (List.mem_cons_of_mem x hmem)
    · obtain ⟨a, b, hab, -⟩ := exists_last ((hs.mem x).mpr hx)
      exact ⟨a, b, hab, fun _ hfam => hy ((hs.mem y).mpr hfam)⟩
  · obtain ⟨a, b, rfl, -⟩ := exists_last ((ht.mem x).mpr hdesc)
    refine ⟨s ++ a, b, (List.append_assoc s a _).symm, fun hmem => absurd ((ht.mem y).mp ?_) hnot⟩
    exact List.mem_append_right a (List.mem_cons_of_mem x hmem)

/-- Raising a view puts its family in order exactly when the members that have no current proxy
    already stand where they belong. -/
theorem family_raised_in_order (h : Linked c.mem) (hf : Forest c.mem) (hv : v ∈ c.mem.views) :
    ∃ c', viewRaiseToTop (raiseFuel c) c v true = some c' ∧
      ((∀ w, FamilyRaised c.mem c'.mem v w) ↔ StandsRight c.mem v) := by
  have hfuel : raiseFuel c = c.mem.views.length + 1 + (c.mem.views.length + 1) := by
    rw [raiseFuel, Membership.fuel]
    omega
  obtain ⟨c', hc', -⟩ := raise_up_isSome hf (c.mem.views.length + 1) (c := c) rfl hv
    (.start v (Nat.lt_succ_self _))
  rw [← hfuel] at hc'
  obtain ⟨s, t, rfl, hs, ht⟩ := raise_up hf _ rfl hc'
  have hsame := raiseAll_relisted (s ++ t) c
  have hlinked := raiseAll_linked (s ++ t) h
  refine ⟨_, hc', fun hraised w x y hx hy hxy hcur => ?_, fun hright => ?_⟩
  · have habove : Above (raiseAll c (s ++ t)).mem w x y := by
      obtain ⟨hfam, hnot | hchild | ⟨hdesc, hnot⟩⟩ := hxy
      · exact (hraised w).front x y hx hy hfam hnot
      · exact (hraised w).parents x y hx hy hfam hchild
      · by_cases hfam' : Family c.mem v y
        · exact (hraised w).own x y hx hy hdesc hfam' hnot
        · exact (hraised w).front x y hx hy hfam hfam'
    have hy' : Family c.mem v y → (c.mem.view y).current = none := by
      intro hfam
      by_contra hcur'
      obtain ⟨a, b, hab, -⟩ := exists_last ((hs.mem y).mpr hfam)
      refine above_asymm hlinked habove ?_
      rw [hab]
      exact above_raiseAll_last h hcur' (hxy.ne hf).symm hy hx fun _ => hcur
    refine ⟨hy', (above_raiseAll_other _ h (fun _ => hcur) fun hmem => ?_).mp habove⟩
    exact hy' ((hs.mem y).mp hmem)
  · have habove : ∀ w x y, c.mem.In x w → c.mem.In y w → Outranks c.mem v x y →
        Above (raiseAll c (s ++ t)).mem w x y := by
      intro w x y hx hy hxy
      by_cases hcur : (c.mem.view x).current = none
      · obtain ⟨hy', hold⟩ := hright w x y hx hy hxy hcur
        refine (above_raiseAll_other _ h (fun _ => hcur) fun hmem => ?_).mpr hold
        exact hy' ((hs.mem y).mp hmem)
      · obtain ⟨a, b, hab, hb⟩ := exists_after hs ht hxy
        have hyb : y ∈ b → Family c.mem v y := fun hmem => (hs.mem y).mp (by
          rw [hab]
          exact List.mem_append_right a (List.mem_cons_of_mem x hmem))
        rw [hab]
        exact above_raiseAll_last h hcur (hxy.ne hf) hx hy fun hmem => absurd (hyb hmem) (hb hmem)
    intro w
    refine ⟨fun x => ?_, fun x y hx hy hfam hnot => habove w x y hx hy ⟨hfam, .inl hnot⟩,
      fun x y hx hy hfam hchild => habove w x y hx hy ⟨hfam, .inr (.inl hchild)⟩,
      fun x y hx hy hdesc hfam hnot => habove w x y hx hy ⟨?_, .inr (.inr ⟨hdesc, hnot⟩)⟩,
      fun x y hx hy => ?_⟩
    · rw [In, hsame.owner]
      rfl
    · exact (hs.mem x).mp (List.mem_append_right s ((ht.mem x).mpr hdesc))
    · exact above_raiseAll_other _ h (fun hmem => absurd ((hs.mem x).mp hmem) hx)
        fun hmem => absurd ((hs.mem y).mp hmem) hy

/-- View 1 is a child of view 0, and view 2 stands above both. -/
def dialogScene : Scene where
  mem := threeViews (fun v => if v = 1 then some 0 else none) (fun v => if v = 0 then [1] else [])
    fun _ => false
  children := fun w l => if w = 0 ∧ l = .normal then [2, 1, 0] else []

theorem dialogScene_childOf {x u : ViewId} : ChildOf dialogScene.mem x u ↔ x = 1 ∧ u = 0 := by
  simp [ChildOf, dialogScene, threeViews, eq_comm]

theorem dialogScene_forest : Forest dialogScene.mem := by
  refine ⟨fun x u => ?_, fun x u h => ?_, fun x h => ?_⟩
  · rw [dialogScene_childOf]
    by_cases hu : u = 0
    · simp [dialogScene, threeViews, hu]
    · simp [dialogScene, threeViews, hu]
  · obtain ⟨rfl, rfl⟩ := dialogScene_childOf.mp h
    exact ⟨by decide, by decide⟩
  · obtain ⟨-, h₁⟩ := dialogScene_childOf.mp (Relation.TransGen.tail'_iff.mp h).choose_spec.2
    obtain ⟨h₂, -⟩ := dialogScene_childOf.mp (Relation.TransGen.head'_iff.mp h).choose_spec.1
    rw [h₁] at h₂
    cases h₂

theorem dialogScene_raised :
    ∃ c', viewRaiseToTop (raiseFuel dialogScene) dialogScene 0 true = some c' ∧
      (∀ w, FamilyRaised dialogScene.mem c'.mem 0 w) ∧ c'.mem.listed 0 = [1, 0, 2] := by
  obtain ⟨c', hc', hiff⟩ := family_raised_in_order threeViews_linked dialogScene_forest
    (v := 0) (by decide)
  refine ⟨c', hc', hiff.mpr fun w x y hx _ _ hcur => ?_, ?_⟩
  · have hx := (threeViews_in.mp hx).1
    simp [dialogScene, threeViews, hx] at hcur
  · have hlisted : (viewRaiseToTop (raiseFuel dialogScene) dialogScene 0 true).map
        (fun c => c.mem.listed 0) = some [1, 0, 2] := by decide
    rw [hc', Option.map_some, Option.some.injEq] at hlisted
    exact hlisted

/-- A view that joined a workspace without a current proxy is not raised: it was in no workspace, and
    joined one that is not shown. -/
theorem view_without_current_stays :
    ¬ ∀ n d₀ d v, Desk.ready n = some d₀ → Reach step Always d₀ d → Forest d.scene.mem →
      v ∈ d.scene.mem.views → ∃ c', viewRaiseToTop (raiseFuel d.scene) d.scene v true = some c' ∧
        ∀ w, FamilyRaised d.scene.mem c'.mem v w := by
  intro h
  obtain ⟨d₀, d, hready, hs, hparent, hchildren, hviews, h₀, h₁, hraise⟩ :
      ∃ d₀ d, Desk.ready 2 = some d₀ ∧ exec step d₀ [.desktop (.viewInit 0), .desktop (.viewInit 1),
        .desktop (.viewUnsetWorkspace 0 .dock), .desktop (.viewAddWorkspace 0 1),
        .desktop (.viewAddWorkspace 1 1)] = some d ∧
      (∀ u, (d.scene.mem.view u).parent = none) ∧ (∀ u, (d.scene.mem.view u).children = []) ∧
      0 ∈ d.scene.mem.views ∧ d.scene.mem.owner 2 = some (0, 1) ∧
      d.scene.mem.owner 3 = some (1, 1) ∧
      (viewRaiseToTop (raiseFuel d.scene) d.scene 0 true).map
        (fun c => (c.mem.listed 1, c.mem.owner 3)) = some ([3, 2], some (1, 1)) := by
    refine ⟨_, _, rfl, rfl, fun u => ?_, fun u => ?_, by decide, rfl, rfl, rfl⟩
    · rcases u with _ | _ | u <;> rfl
    · rcases u with _ | _ | u <;> rfl
  have hno : ∀ x u, ¬ ChildOf d.scene.mem x u := by
    intro x u hxu
    rw [ChildOf, hparent] at hxu
    cases hxu
  have hforest : Forest d.scene.mem := by
    refine ⟨fun x u => ?_, fun x u hxu => absurd hxu (hno x u), fun x hx => ?_⟩
    · rw [hchildren]
      exact iff_of_false List.not_mem_nil (hno x u)
    · exact hno x _ (Relation.TransGen.head'_iff.mp hx).choose_spec.1
  obtain ⟨c', hc', hraised⟩ := h 2 d₀ d 0 hready (.of_exec _ _ hs) hforest hviews
  rw [hc', Option.map_some, Option.some.injEq, Prod.mk.injEq] at hraise
  have hstranger : ¬ Family d.scene.mem 0 1 := by
    rw [family_of_root (hparent 0)]
    intro hdesc
    rcases Relation.ReflTransGen.cases_head hdesc with heq | ⟨u, hu, -⟩
    · cases heq
    · exact hno 1 u hu
  obtain ⟨p, q, hp, hq, hbefore⟩ := (hraised 1).front 0 1 ⟨2, h₀⟩ ⟨3, h₁⟩
    ((family_of_root (hparent 0)).mpr .refl) hstranger
  rw [hraise.1] at hbefore
  rcases before_cons.mp hbefore with ⟨rfl, -⟩ | hbefore
  · rw [hraise.2] at hp
    cases hp
  · rcases before_cons.mp hbefore with ⟨-, hmem⟩ | hbefore
    · cases hmem
    · cases hbefore.mem_left

end FlakeWm.Stacking
