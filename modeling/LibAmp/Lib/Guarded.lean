import Mathlib.Logic.Basic

/-!
# Runs of a fallible step under assumptions

A machine takes events by a step that can fail. What its environment promises is an assumption
on each event, in the state in which the event happens; `run_inv` is the invariant rule.
-/

namespace Guarded

variable {ε σ E : Type}

/-- Take the events one after the other, up to the first that fails. -/
def run (step : σ → E → Except ε σ) (s : σ) : List E → Except ε σ
  | [] => .ok s
  | e :: events =>
    match step s e with
    | .error err => .error err
    | .ok t => run step t events

/-- Every event meets the assumption in the state in which it happens. -/
def Allowed (ok : σ → E → Prop) (step : σ → E → Except ε σ) (s : σ) : List E → Prop
  | [] => True
  | e :: events => ok s e ∧ ∀ t, step s e = .ok t → Allowed ok step t events

variable {ok : σ → E → Prop} {step : σ → E → Except ε σ}

/-- The invariant rule. If every allowed event succeeds and keeps `inv`, so does every allowed
run. -/
theorem run_inv {inv : σ → Prop} (keeps : ∀ s e, inv s → ok s e → ∃ t, step s e = .ok t ∧ inv t)
    {s : σ} (hs : inv s) {events : List E} (allowed : Allowed ok step s events) :
    ∃ t, run step s events = .ok t ∧ inv t := by
  induction events generalizing s with
  | nil => exact ⟨s, rfl, hs⟩
  | cons e events ih =>
    obtain ⟨allowedHead, allowedTail⟩ := allowed
    obtain ⟨t, ht, inv_t⟩ := keeps s e hs allowedHead
    obtain ⟨u, hu, inv_u⟩ := ih inv_t (allowedTail t ht)
    refine ⟨u, ?_, inv_u⟩
    rw [run, ht]
    exact hu

/-! ## Runs that fail -/

/-- The run comes to an event that is bad in the state in which it happens. -/
def Meets (bad : σ → E → Prop) (step : σ → E → Except ε σ) (s : σ) : List E → Prop
  | [] => False
  | e :: events => bad s e ∨ ∃ t, step s e = .ok t ∧ Meets bad step t events

theorem run_keeps {inv : σ → Prop} (keeps : ∀ s e t, inv s → step s e = .ok t → inv t) {s t : σ}
    (hs : inv s) {events : List E} (h : run step s events = .ok t) : inv t := by
  induction events generalizing s with
  | nil =>
    cases h
    exact hs
  | cons e events ih =>
    unfold run at h
    split at h
    · cases h
    · next u hu => exact ih (keeps s e u hs hu) h

/-- If the bad events are those that fail in one way, the runs that fail in this way are those that
come to one. -/
theorem run_error_iff {inv : σ → Prop} {bad : σ → E → Prop} {err : ε}
    (keeps : ∀ s e t, inv s → step s e = .ok t → inv t)
    (fails : ∀ s e, inv s → (step s e = .error err ↔ bad s e)) {s : σ} (hs : inv s)
    (events : List E) : run step s events = .error err ↔ Meets bad step s events := by
  induction events generalizing s with
  | nil => exact iff_of_false nofun id
  | cons e events ih =>
    have head := fails s e hs
    unfold run Meets
    cases stepped : step s e with
    | error err' =>
      rw [stepped] at head
      constructor
      · exact fun h => .inl (head.1 h)
      · rintro (bad | ⟨t, ht, -⟩)
        · exact head.2 bad
        · cases ht
    | ok t =>
      rw [stepped] at head
      rw [ih (keeps s e t hs stepped)]
      constructor
      · exact fun met => .inr ⟨t, rfl, met⟩
      · rintro (bad | ⟨u, hu, met⟩)
        · cases head.2 bad
        · cases hu
          exact met

end Guarded
