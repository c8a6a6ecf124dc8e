import Mathlib.Data.List.Find

/-! Loops over a linked list whose body may unlink elements.

    `wl_list_for_each_safe` saves the successor of an element before it runs the body, and goes on
    with the saved one. So the body may unlink any element but the saved one: the loop would go on
    with an element that is gone. New elements are only put at the head, where the loop does not come
    any more; so the elements to visit are those of the list at the start. -/

namespace FlakeWm

variable {σ ι : Type*} [DecidableEq ι]

/-- The loop over `ids`, with the saved successor; `none` says that the saved one was unlinked. -/
def forEachSafe (live : σ → ι → Bool) (body : σ → ι → σ) : σ → Option ι → List ι → Option σ
  | s, _, [] => some s
  | s, saved, i :: rest =>
    if live s i then forEachSafe live body (body s i) (rest.find? (live s)) rest
    else if saved = some i then none
    else forEachSafe live body s saved rest

/-- What holds before the loop and survives the body holds after it; `I` may speak about the elements
    that are still to come. -/
theorem forEachSafe_inv {live : σ → ι → Bool} {body : σ → ι → σ} {I : List ι → σ → Prop}
    (hbody : ∀ s i rest, I (i :: rest) s → live s i = true → I rest (body s i))
    (hskip : ∀ s i rest, I (i :: rest) s → live s i = false → I rest s) :
    ∀ (ids : List ι) {s s' : σ} {saved : Option ι}, I ids s →
      forEachSafe live body s saved ids = some s' → I [] s'
  | [], s, s', _, hs, h => by
      cases h
      exact hs
  | i :: rest, s, s', saved, hs, h => by
      rw [forEachSafe] at h
      cases hlive : live s i with
      | true =>
        rw [hlive, if_pos rfl] at h
        exact forEachSafe_inv hbody hskip rest (hbody s i rest hs hlive) h
      | false =>
        rw [hlive, if_neg Bool.false_ne_true] at h
        split_ifs at h
        exact forEachSafe_inv hbody hskip rest (hskip s i rest hs hlive) h

/-- No body unlinks the element that follows its own; `removed i` are those that the body for `i`
    unlinks. -/
def sparesNext (removed : ι → List ι) : (ι → Bool) → List ι → Bool
  | _, [] => true
  | live, i :: rest =>
    if live i then
      (rest.find? live).all (fun next => next ∉ removed i) &&
        sparesNext removed (fun j => live j && decide (j ∉ removed i)) rest
    else sparesNext removed live rest

theorem sparesNext_congr {removed : ι → List ι} : ∀ {ids : List ι} {p q : ι → Bool},
    (∀ j ∈ ids, p j = q j) → sparesNext removed p ids = sparesNext removed q ids
  | [], _, _, _ => rfl
  | i :: rest, p, q, h => by
      have hrest : ∀ j ∈ rest, p j = q j := fun j hj => h j (List.mem_cons_of_mem _ hj)
      have hfind : rest.find? p = rest.find? q := List.find?_congr hrest
      rw [sparesNext, sparesNext, h i List.mem_cons_self, hfind, sparesNext_congr hrest]
      congr 2
      exact sparesNext_congr fun j hj => by rw [hrest j hj]

/-- Bodies that unlink nothing. -/
theorem sparesNext_nil : ∀ (ids : List ι) (live : ι → Bool), sparesNext (fun _ => []) live ids = true
  | [], _ => rfl
  | i :: rest, live => by
      rw [sparesNext, sparesNext_nil rest, sparesNext_nil rest]
      cases rest.find? live <;> simp

omit [DecidableEq ι] in
/-- The first element that meets `p` is also the first that meets the stronger `q`, if it does. -/
theorem find?_of_imp {p q : ι → Bool} {t : ι} (hq : q t = true) : ∀ {ids : List ι},
    (∀ j ∈ ids, q j = true → p j = true) → ids.find? p = some t → ids.find? q = some t
  | [], _, h => by cases h
  | i :: rest, himp, h => by
      rw [List.find?_cons] at h ⊢
      cases hp : p i with
      | true =>
        rw [hp] at h
        cases h
        rw [hq]
      | false =>
        rw [hp] at h
        have hqi : q i = false := by
          rw [← Bool.not_eq_true]
          intro hqi
          rw [himp i List.mem_cons_self hqi] at hp
          cases hp
        rw [hqi]
        exact find?_of_imp hq (fun j hj => himp j (List.mem_cons_of_mem _ hj)) h

/-- A loop whose bodies spare the next element comes to its end. -/
theorem forEachSafe_isSome {live : σ → ι → Bool} {body : σ → ι → σ} {removed : ι → List ι}
    {I : List ι → σ → Prop}
    (hbody : ∀ s i rest, I (i :: rest) s → live s i = true → I rest (body s i))
    (hskip : ∀ s i rest, I (i :: rest) s → live s i = false → I rest s)
    (hremoved : ∀ s i rest, I (i :: rest) s → live s i = true → ∀ j ∈ rest,
      live (body s i) j = (live s j && decide (j ∉ removed i))) :
    ∀ (ids : List ι) (s : σ) (saved : Option ι), I ids s →
      (∀ t, saved = some t → ids.find? (live s) = some t) →
      sparesNext removed (live s) ids = true → (forEachSafe live body s saved ids).isSome = true
  | [], _, _, _, _, _ => rfl
  | i :: rest, s, saved, hs, hsaved, hspares => by
      rw [forEachSafe]
      rw [sparesNext] at hspares
      cases hlive : live s i with
      | true =>
        rw [hlive, if_pos rfl] at hspares
        rw [if_pos rfl]
        obtain ⟨hnext, hspares⟩ := Bool.and_eq_true_iff.mp hspares
        have hafter := hremoved s i rest hs hlive
        refine forEachSafe_isSome hbody hskip hremoved rest _ _ (hbody s i rest hs hlive)
          (fun t ht => ?_) ?_
        · -- the saved element is still linked, and those before it are not linked again
          refine find?_of_imp ?_ (fun j hj hj' => ?_) ht
          · rw [hafter t (List.mem_of_find?_eq_some ht), List.find?_some ht]
            simpa [ht] using hnext
          · rw [hafter j hj] at hj'
            exact (Bool.and_eq_true_iff.mp hj').1
        · rw [sparesNext_congr hafter]
          exact hspares
      | false =>
        rw [hlive, if_neg Bool.false_ne_true] at hspares
        have hskipped : (i :: rest).find? (live s) = rest.find? (live s) := by
          rw [List.find?_cons, hlive]
        have hne : saved ≠ some i := by
          intro heq
          have hfound := List.find?_some (hsaved i heq)
          rw [hlive] at hfound
          cases hfound
        rw [if_neg Bool.false_ne_true, if_neg hne]
        exact forEachSafe_isSome hbody hskip hremoved rest s saved (hskip s i rest hs hlive)
          (fun t ht => hskipped ▸ hsaved t ht) hspares

end FlakeWm
