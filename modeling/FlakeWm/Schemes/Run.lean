import Mathlib.Data.List.Basic

/-! Runs of a partial step function.

    A component is a state type `σ`, an event type `ε` and `step : σ → ε → Option σ`, where `none`
    says that the event cannot be handled in that state (it is not offered, or the handler aborts).
    `Reach step ok s₀` are the states reached from `s₀` by handling events, each of which meets `ok`
    in the state that handles it; `ok := Always` puts no condition on the events. Every safety
    theorem of the development is `Reach.inv` applied to a step lemma. -/

namespace FlakeWm

variable {σ ε : Type*}

/-- The states reached from `s₀` by events that meet `ok` where they are handled. -/
inductive Reach (step : σ → ε → Option σ) (ok : σ → ε → Prop) (s₀ : σ) : σ → Prop
  | init : Reach step ok s₀ s₀
  | next {s s' : σ} (e : ε) : Reach step ok s₀ s → ok s e → step s e = some s' →
      Reach step ok s₀ s'

/-- No condition on the events. -/
def Always : σ → ε → Prop := fun _ _ => True

/-- Handling a list of events in order. -/
def exec (step : σ → ε → Option σ) (s : σ) (es : List ε) : Option σ := es.foldlM step s

/-- The step function that refuses the events that do not meet `ok`. -/
def guarded (step : σ → ε → Option σ) (ok : σ → ε → Bool) (s : σ) (e : ε) : Option σ :=
  if ok s e then step s e else none

@[simp] theorem exec_nil (step : σ → ε → Option σ) (s : σ) : exec step s [] = some s := rfl

theorem exec_cons (step : σ → ε → Option σ) (s : σ) (e : ε) (es : List ε) :
    exec step s (e :: es) = (step s e).bind fun s' => exec step s' es := rfl

/-- The invariant rule for a loop that may abort. -/
theorem foldlM_inv {I : σ → Prop} {f : σ → ε → Option σ} : ∀ (l : List ε) {s s' : σ}, I s →
    (∀ x ∈ l, ∀ a b, I a → f a x = some b → I b) → l.foldlM f s = some s' → I s'
  | [], _, _, h, _, hs => by
      cases hs
      exact h
  | x :: l, s, _, h, hf, hs => by
      rw [List.foldlM_cons, Option.bind_eq_bind, Option.bind_eq_some_iff] at hs
      obtain ⟨s₁, hx, hs⟩ := hs
      exact foldlM_inv l (hf x List.mem_cons_self s s₁ h hx)
        (fun y hy => hf y (List.mem_cons_of_mem _ hy)) hs

namespace Reach

variable {step : σ → ε → Option σ} {ok : σ → ε → Prop} {s₀ s t : σ}

/-- The invariant rule: what holds at the start and survives every step holds in every state. -/
theorem inv {I : σ → Prop} (h₀ : I s₀)
    (hstep : ∀ s e s', I s → ok s e → step s e = some s' → I s') (h : Reach step ok s₀ s) : I s := by
  induction h with
  | init => exact h₀
  | next e _ hok hs ih => exact hstep _ e _ ih hok hs

theorem trans (h : Reach step ok s₀ s) (h' : Reach step ok s t) : Reach step ok s₀ t := by
  induction h' with
  | init => exact h
  | next e _ hok hs ih => exact ih.next e hok hs

theorem mono {ok' : σ → ε → Prop} (hok : ∀ s e, ok s e → ok' s e) (h : Reach step ok s₀ s) :
    Reach step ok' s₀ s := by
  induction h with
  | init => exact .init
  | next e _ he hs ih => exact ih.next e (hok _ e he) hs

/-- A list of events that are all handled, and all meet `ok`, reaches its last state. -/
theorem of_exec_guarded {ok : σ → ε → Bool} : ∀ (es : List ε) (s : σ),
    exec (guarded step ok) s es = some t → Reach step (fun s e => ok s e = true) s t
  | [], s, h => by
      rw [exec_nil, Option.some.injEq] at h
      exact h ▸ .init
  | e :: es, s, h => by
      rw [exec_cons, Option.bind_eq_some_iff] at h
      obtain ⟨s', hs, h⟩ := h
      rw [guarded, Option.ite_none_right_eq_some] at hs
      exact trans (.next e .init hs.1 hs.2) (of_exec_guarded es s' h)

/-- A list of events that are all handled reaches its last state. -/
theorem of_exec (es : List ε) (s : σ) (h : exec step s es = some t) : Reach step Always s t := by
  have hg : guarded step (fun _ _ => true) = step := by
    funext s e
    simp [guarded]
  exact (of_exec_guarded es s (by rwa [hg])).mono fun _ _ _ => trivial

end Reach

end FlakeWm
