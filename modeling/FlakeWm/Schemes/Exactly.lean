import FlakeWm.Schemes.Run

/-! Runs that keep an invariant exactly as long as their events meet a condition.

    The invariant rule of `Reach` gives one direction. Where a step from a good state ends in a good state if and only
    if its event meets the condition there, a run stays good if and only if all its events meet it. -/

namespace FlakeWm

variable {σ ε : Type*} {step : σ → ε → Option σ}

/-- Every event of a run meets a condition in the state where it is handled. -/
def AllMeet (step : σ → ε → Option σ) (ok : σ → ε → Prop) : σ → List ε → Prop
  | _, [] => True
  | s, e :: es => ok s e ∧ ∀ s', step s e = some s' → AllMeet step ok s' es

/-- Something holds in every state that a run goes through, the first and the last one included. -/
def Throughout (step : σ → ε → Option σ) (I : σ → Prop) (s : σ) (es : List ε) : Prop :=
  ∀ before, before <+: es → ∀ s', exec step s before = some s' → I s'

theorem throughout_nil {I : σ → Prop} {s : σ} : Throughout step I s [] ↔ I s := by
  constructor
  · exact fun h => h [] (List.prefix_refl _) s rfl
  · intro h before hbefore s' hs'
    rw [List.prefix_nil.1 hbefore] at hs'
    cases hs'
    exact h

theorem throughout_cons {I : σ → Prop} {s : σ} {e : ε} {es : List ε} :
    Throughout step I s (e :: es) ↔ I s ∧ ∀ s', step s e = some s' → Throughout step I s' es := by
  constructor
  · intro h
    refine ⟨h [] List.nil_prefix s rfl, fun s' hs' before hbefore t ht => ?_⟩
    refine h (e :: before) ((List.prefix_cons_inj e).2 hbefore) t ?_
    rwa [exec_cons, hs', Option.bind_some]
  · rintro ⟨hs, hrest⟩ before hbefore t ht
    rcases List.prefix_cons_iff.1 hbefore with rfl | ⟨rest, rfl, hprefix⟩
    · cases ht
      exact hs
    · rw [exec_cons, Option.bind_eq_some_iff] at ht
      obtain ⟨s', hs', ht⟩ := ht
      exact hrest s' hs' rest hprefix t ht

/-- A step that keeps the invariant exactly under a condition makes a run that keeps it exactly under that condition,
when an event that cannot be handled meets the condition. -/
theorem throughout_iff {I : σ → Prop} {ok : σ → ε → Prop}
    (hstep : ∀ s e s', I s → step s e = some s' → (I s' ↔ ok s e))
    (hnone : ∀ s e, I s → step s e = none → ok s e) : ∀ (es : List ε) {s : σ}, I s →
    (Throughout step I s es ↔ AllMeet step ok s es)
  | [], s, h => by
      rw [throughout_nil]
      exact iff_of_true h trivial
  | e :: es, s, h => by
      rw [throughout_cons, AllMeet, and_iff_right h]
      cases hs : step s e with
      | none => exact iff_of_true (fun _ h => nomatch h) ⟨hnone s e h hs, fun _ h => nomatch h⟩
      | some s' =>
        constructor
        · intro hrest
          have hall := hrest s' rfl
          have hgood : I s' := hall [] List.nil_prefix s' rfl
          refine ⟨(hstep s e s' h hs).1 hgood, fun t ht => ?_⟩
          cases ht
          exact (throughout_iff hstep hnone es hgood).1 hall
        · rintro ⟨hok, hrest⟩ t ht
          cases ht
          exact (throughout_iff hstep hnone es ((hstep s e s' h hs).2 hok)).2 (hrest s' rfl)

end FlakeWm
