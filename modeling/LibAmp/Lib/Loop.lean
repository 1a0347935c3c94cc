import Mathlib.Logic.Basic

/-!
# Fuelled loops over a fallible body

A `while` loop whose body can fail is run for a bounded number of turns. A measure that
decreases on every turn gives a bound that is always enough; `run_spec` is the invariant rule.
-/

namespace WhileLoop

variable {ε σ α : Type}

/-- One turn of a loop: go round again from a new state, or leave with a result. -/
inductive Turn (σ α : Type) where
  | again (s : σ)
  | leave (a : α)

/-- Run the body until it leaves. Running out of fuel is reported as `stuck`. -/
def run (stuck : ε) (body : σ → Except ε (Turn σ α)) : Nat → σ → Except ε α
  | 0, _ => .error stuck
  | fuel + 1, s =>
    match body s with
    | .error e => .error e
    | .ok (.leave a) => .ok a
    | .ok (.again t) => run stuck body fuel t

/-- What holds of the outcome of a fallible step. -/
def Outcome (failed : ε → Prop) (passed : α → Prop) : Except ε α → Prop
  | .error e => failed e
  | .ok a => passed a

@[simp] theorem outcome_error {failed : ε → Prop} {passed : α → Prop} {e : ε} :
    Outcome failed passed (.error e) ↔ failed e := Iff.rfl

/-- What one turn owes: it leaves with `left`, or goes round with `again`. -/
def TurnOutcome (again : σ → Prop) (left : α → Prop) : Turn σ α → Prop
  | .again t => again t
  | .leave a => left a

variable {stuck : ε} {body : σ → Except ε (Turn σ α)}

/-- The invariant rule. A body that keeps `inv`, lowers `measure` on every further turn and
leaves only with `left` makes the loop end with `left`, given more fuel than the measure. -/
theorem run_spec (measure : σ → Nat) (inv : σ → Prop) {failed : ε → Prop} {left : α → Prop}
    (turn : ∀ s, inv s →
      Outcome failed (TurnOutcome (fun t => inv t ∧ measure t < measure s) left) (body s))
    (fuel : Nat) (s : σ) (hs : inv s) (hfuel : measure s < fuel) :
    Outcome failed left (run stuck body fuel s) := by
  induction fuel generalizing s with
  | zero => omega
  | succ fuel ih =>
    have step := turn s hs
    unfold run
    rcases hb : body s with e | t | a <;> rw [hb] at step
    · exact step
    · obtain ⟨ht, hlt⟩ := step
      exact ih t ht (by omega)
    · exact step

/-- The rule for a loop that is known to end: no measure is needed. -/
theorem run_left (inv : σ → Prop) {failed : σ → ε → Prop} {left : α → Prop}
    (turn : ∀ s, inv s → Outcome (failed s) (TurnOutcome inv left) (body s)) {fuel : Nat}
    {s : σ} (hs : inv s) {a : α} (h : run stuck body fuel s = .ok a) : left a := by
  induction fuel generalizing s with
  | zero => cases h
  | succ fuel ih =>
    have step := turn s hs
    unfold run at h
    rcases hb : body s with e | t | b <;> rw [hb] at step h
    · cases h
    · exact ih step h
    · cases h
      exact step

/-- A loop that ends does so with any fuel above its measure. -/
theorem run_of_measure (measure : σ → Nat) (inv : σ → Prop)
    (turn : ∀ s t, inv s → body s = .ok (.again t) → inv t ∧ measure t < measure s)
    {fuel fuel' : Nat} {s : σ} (hs : inv s) {a : α} (h : run stuck body fuel s = .ok a)
    (enough : measure s < fuel') : run stuck body fuel' s = .ok a := by
  induction fuel generalizing s fuel' with
  | zero => simp [run] at h
  | succ fuel ih =>
    obtain ⟨fuel', rfl⟩ : ∃ n, fuel' = n + 1 := ⟨fuel' - 1, by omega⟩
    unfold run at h ⊢
    rcases hb : body s with e | t | b <;> rw [hb] at h
    · cases h
    · obtain ⟨ht, lt⟩ := turn s t hs hb
      exact ih ht h (by omega)
    · exact h

/-! ## The states a loop passes through -/

/-- `Visits body s t`: a loop entered at `s` comes to the top of a turn at `t`. -/
inductive Visits (body : σ → Except ε (Turn σ α)) : σ → σ → Prop where
  | entry (s : σ) : Visits body s s
  | turn {s t u : σ} (h : body s = .ok (.again t)) (rest : Visits body t u) : Visits body s u

/-- What every turn preserves holds at every turn. -/
theorem Visits.inv (inv : σ → Prop) {s t : σ} (visits : Visits body s t)
    (turn : ∀ s t, inv s → body s = .ok (.again t) → inv t) (hs : inv s) : inv t := by
  induction visits with
  | entry => exact hs
  | turn h _ ih => exact ih (turn _ _ hs h)

/-- The same, from what one turn owes. -/
theorem Visits.outcome_inv {inv : σ → Prop} {failed : σ → ε → Prop} {left : α → Prop} {s t : σ}
    (visits : Visits body s t)
    (turn : ∀ s, inv s → Outcome (failed s) (TurnOutcome inv left) (body s)) (hs : inv s) :
    inv t := by
  apply visits.inv inv _ hs
  intro s t hs again
  have kept := turn s hs
  rw [again] at kept
  exact kept

/-- A loop that ends passes on its result from every turn it comes to. -/
theorem Visits.run_ok {s t : σ} (visits : Visits body s t) {fuel : Nat} {a : α}
    (h : run stuck body fuel s = .ok a) : ∃ fuel', run stuck body fuel' t = .ok a := by
  induction visits generalizing fuel with
  | entry => exact ⟨fuel, h⟩
  | turn hbody _ ih =>
    cases fuel with
    | zero => simp [run] at h
    | succ fuel =>
      simp only [run, hbody] at h
      exact ih h

/-- The turn a loop leaves from determines its result. -/
theorem Visits.run_eq {s t : σ} (visits : Visits body s t) {fuel : Nat} {a b : α}
    (h : run stuck body fuel s = .ok a) (leaves : body t = .ok (.leave b)) : a = b := by
  obtain ⟨fuel', h'⟩ := visits.run_ok h
  cases fuel' with
  | zero => simp [run] at h'
  | succ fuel' =>
    rw [run, leaves] at h'
    simpa using h'.symm

/-! ## Loops that do the same -/

variable {τ β : Type}

def Turn.map (f : σ → τ) (g : α → β) : Turn σ α → Turn τ β
  | .again s => .again (f s)
  | .leave a => .leave (g a)

/-- A loop whose turns, with something forgotten, are those of another loop ends like it. -/
theorem run_map {body' : τ → Except ε (Turn τ β)} (f : σ → τ) (g : α → β) (inv : σ → Prop)
    (turn : ∀ s, inv s → (body s).map (Turn.map f g) = body' (f s))
    (keeps : ∀ s t, inv s → body s = .ok (.again t) → inv t) (fuel : Nat) (s : σ) (hs : inv s) :
    (run stuck body fuel s).map g = run stuck body' fuel (f s) := by
  induction fuel generalizing s with
  | zero => rfl
  | succ fuel ih =>
    have same := turn s hs
    unfold run
    rcases hb : body s with e | t | a <;> rw [hb] at same <;> rw [← same]
    · rfl
    · exact ih t (keeps s t hs hb)
    · rfl

end WhileLoop
