import Mathlib.Logic.Basic

/-!
# Loops

A round of a loop goes on with a new state, ends with a value or panics.  How
often it goes round is bounded by fuel.  The rules are for invariants that come
with a bound, which every round lowers: then the loop ends, and what it ends
with is what its last round ends with.
-/

namespace Loop

variable {σ α : Type}

/-- Go round until there is a value; `none` is a panic, or too little fuel. -/
def iterate (round : σ → Option (σ ⊕ α)) : Nat → σ → Option α
  | 0, _ => none
  | fuel + 1, state =>
      match round state with
      | some (.inl next) => iterate round fuel next
      | some (.inr value) => some value
      | none => none

/-- The loop ends, and with a value that is `finished`. -/
def Returns (round : σ → Option (σ ⊕ α)) (state : σ) (finished : α → Prop) :
    Prop :=
  (∃ fuel value, iterate round fuel state = some value) ∧
    ∀ fuel value, iterate round fuel state = some value → finished value

variable {round : σ → Option (σ ⊕ α)} {finished : α → Prop}

theorem returns_of_bound {invariant : Nat → σ → Prop}
    (goes : ∀ {bound state}, invariant bound state →
      (∃ less next, less < bound ∧ round state = some (.inl next) ∧
        invariant less next) ∨
      ∃ value, round state = some (.inr value) ∧ finished value)
    {bound : Nat} {state : σ} (initially : invariant bound state) :
    Returns round state finished := by
  induction bound using Nat.strongRecOn generalizing state with
  | _ bound induction =>
      rcases goes initially with
        ⟨less, next, lower, went, kept⟩ | ⟨value, ended, finishes⟩
      · obtain ⟨⟨fuel, value, returned⟩, sound⟩ := induction less lower kept
        refine ⟨⟨fuel + 1, value, by simp [iterate, went, returned]⟩, ?_⟩
        intro fuel value returned
        cases fuel with
        | zero => cases returned
        | succ fuel =>
            simp only [iterate, went] at returned
            exact sound fuel value returned
      · refine ⟨⟨1, value, by simp [iterate, ended]⟩, ?_⟩
        intro fuel last returned
        cases fuel with
        | zero => cases returned
        | succ fuel =>
            simp only [iterate, ended] at returned
            cases returned
            exact finishes

/-- The rule when the bound is a measure of the state. -/
theorem returns_of_measure {invariant : σ → Prop} (measure : σ → Nat)
    (goes : ∀ {state}, invariant state →
      (∃ next, round state = some (.inl next) ∧ invariant next ∧
        measure next < measure state) ∨
      ∃ value, round state = some (.inr value) ∧ finished value)
    {state : σ} (initially : invariant state) :
    Returns round state finished := by
  let bounded : Nat → σ → Prop := fun bound state =>
    invariant state ∧ measure state = bound
  have start : bounded (measure state) state := ⟨initially, rfl⟩
  refine returns_of_bound ?_ start
  rintro _ state ⟨holds, rfl⟩
  rcases goes holds with ⟨next, went, kept, less⟩ | ended
  · exact .inl ⟨_, next, less, went, kept, rfl⟩
  · exact .inr ended

end Loop
