import Mathlib.Logic.Basic

/-!
# Programs over a state that may fail

A program ends with a value or fails, and in both cases leaves a state behind.
`Ensures` is its weakest precondition: what has to hold before it so that one
assertion holds where it ends and another one where it fails.  The rules below
take a program apart, one statement at a time.
-/

def Program (σ ε α : Type) : Type :=
  σ → Except ε α × σ

namespace Program

variable {σ τ ε α β : Type}

def andThen (first : Program σ ε α) (next : α → Program σ ε β) :
    Program σ ε β :=
  fun s => match first s with
    | (.ok value, s') => next value s'
    | (.error e, s') => (.error e, s')

instance : Monad (Program σ ε) where
  pure value := fun s => (.ok value, s)
  bind := andThen

/-- Fail, with the state as it is. -/
def fail (e : ε) : Program σ ε α :=
  fun s => (.error e, s)

/-- Read something off the state. -/
def gets (read : σ → α) : Program σ ε α :=
  fun s => (.ok (read s), s)

def modify (change : σ → σ) : Program σ ε Unit :=
  fun s => (.ok (), change s)

/-- Run from `s`, the program ends where `post` holds of its value, or fails
where `fails` does. -/
def Ensures (program : Program σ ε α) (post : α → σ → Prop)
    (fails : σ → Prop) (s : σ) : Prop :=
  match program s with
  | (.ok value, s') => post value s'
  | (.error _, s') => fails s'

variable {program : Program σ ε α} {next : α → Program σ ε β}
  {post : α → σ → Prop} {fails : σ → Prop} {s : σ}

@[simp] theorem ensures_pure {value : α} :
    Ensures (pure value : Program σ ε α) post fails s ↔ post value s :=
  Iff.rfl

@[simp] theorem ensures_gets {read : σ → α} :
    Ensures (gets read : Program σ ε α) post fails s ↔ post (read s) s :=
  Iff.rfl

theorem bind_ok {value : α} {s' : σ} (ended : program s = (.ok value, s')) :
    (program >>= next) s = next value s' := by
  show andThen program next s = _
  rw [andThen, ended]

theorem bind_error {e : ε} {s' : σ} (failed : program s = (.error e, s')) :
    (program >>= next) s = (.error e, s') := by
  show andThen program next s = _
  rw [andThen, failed]

@[simp] theorem ensures_bind {post : β → σ → Prop} :
    Ensures (program >>= next) post fails s ↔
      Ensures program (fun value => Ensures (next value) post fails) fails
        s := by
  show Ensures (andThen program next) post fails s ↔ _
  unfold Ensures andThen
  rcases program s with ⟨result, s'⟩
  cases result with
  | ok value => rfl
  | error e => rfl

/-- The rule of consequence. -/
theorem Ensures.mono {post' : α → σ → Prop} {fails' : σ → Prop}
    (ensures : Ensures program post fails s)
    (ends : ∀ value s', post value s' → post' value s')
    (failed : ∀ s', fails s' → fails' s') :
    Ensures program post' fails' s := by
  unfold Ensures at ensures ⊢
  rcases outcome : program s with ⟨result, s'⟩
  rw [outcome] at ensures
  cases result with
  | ok value => exact ends value s' ensures
  | error e => exact failed s' ensures

/-- A sequence meets its assertions when the first part leaves what the
second one needs. -/
theorem Ensures.bind {mid : α → σ → Prop} {failed : σ → Prop}
    {post : β → σ → Prop}
    (first : Ensures program mid failed s)
    (second : ∀ value s', mid value s' → Ensures (next value) post fails s')
    (stopped : ∀ s', failed s' → fails s') :
    Ensures (program >>= next) post fails s :=
  ensures_bind.mpr (first.mono second stopped)

/-- What holds in both cases holds of the state that is left. -/
theorem Ensures.final {holds : σ → Prop}
    (ensures : Ensures program (fun _ => holds) holds s) :
    holds (program s).2 := by
  unfold Ensures at ensures
  rcases outcome : program s with ⟨result, s'⟩
  rw [outcome] at ensures
  cases result with
  | ok value => exact ensures
  | error e => exact ensures

theorem Ensures.and {post' : α → σ → Prop} {fails' : σ → Prop}
    (one : Ensures program post fails s)
    (other : Ensures program post' fails' s) :
    Ensures program (fun value s' => post value s' ∧ post' value s')
      (fun s' => fails s' ∧ fails' s') s := by
  unfold Ensures at one other ⊢
  rcases outcome : program s with ⟨result, s'⟩
  rw [outcome] at one other
  cases result with
  | ok value => exact ⟨one, other⟩
  | error e => exact ⟨one, other⟩

theorem Ensures.of_ok {value : α} {s' : σ}
    (ensures : Ensures program post fails s)
    (ended : program s = (.ok value, s')) : post value s' := by
  unfold Ensures at ensures
  rw [ended] at ensures
  exact ensures

theorem Ensures.ends (ensures : Ensures program post (fun _ => False) s) :
    ∃ value s', program s = (.ok value, s') ∧ post value s' := by
  unfold Ensures at ensures
  rcases outcome : program s with ⟨result, s'⟩
  rw [outcome] at ensures
  cases result with
  | ok value => exact ⟨value, s', rfl, ensures⟩
  | error e => exact ensures.elim

theorem bind_eq_ok {value : β} {last : σ}
    (ended : (program >>= next) s = (.ok value, last)) :
    ∃ first s', program s = (.ok first, s') ∧
      next first s' = (.ok value, last) := by
  rcases outcome : program s with ⟨result, s'⟩
  cases result with
  | ok first =>
      rw [bind_ok outcome] at ended
      exact ⟨first, s', rfl, ended⟩
  | error e =>
      rw [bind_error outcome] at ended
      cases ended

/-- A sequence fails in its first part, or in its second one. -/
theorem bind_eq_error {e : ε} {last : σ}
    (failed : (program >>= next) s = (.error e, last)) :
    program s = (.error e, last) ∨ ∃ value s',
      program s = (.ok value, s') ∧ next value s' = (.error e, last) := by
  rcases outcome : program s with ⟨result, s'⟩
  cases result with
  | ok value =>
      rw [bind_ok outcome] at failed
      exact .inr ⟨value, s', rfl, failed⟩
  | error other =>
      rw [bind_error outcome] at failed
      cases failed
      exact .inl rfl

/-! ## Errors -/

/-- The program fails with no other errors. -/
def Raises (errors : ε → Prop) (program : Program σ ε α) : Prop :=
  ∀ s e s', program s = (.error e, s') → errors e

variable {errors : ε → Prop}

theorem raises_pure {value : α} :
    Raises errors (pure value : Program σ ε α) := by
  intro s e s' failed
  cases failed

theorem raises_gets {read : σ → α} :
    Raises errors (gets read : Program σ ε α) := by
  intro s e s' failed
  cases failed

theorem raises_modify {change : σ → σ} :
    Raises errors (modify change : Program σ ε Unit) := by
  intro s e s' failed
  cases failed

theorem raises_fail {e : ε} (allowed : errors e) :
    Raises errors (fail e : Program σ ε α) := by
  intro s other s' failed
  cases failed
  exact allowed

theorem Raises.bind (first : Raises errors program)
    (second : ∀ value, Raises errors (next value)) :
    Raises errors (program >>= next) := by
  intro s e s' failed
  rcases bind_eq_error failed with early | ⟨value, middle, _, late⟩
  · exact first s e s' early
  · exact second value middle e s' late

/-! ## Runs from two states -/

/-- From related states the program ends in the same way, and in related
states again. -/
def Alike (related : σ → σ → Prop) (program : Program σ ε α) : Prop :=
  ∀ s t, related s t →
    (program s).1 = (program t).1 ∧ related (program s).2 (program t).2

variable {related : σ → σ → Prop}

theorem alike_pure {value : α} :
    Alike related (pure value : Program σ ε α) :=
  fun _ _ holds => ⟨rfl, holds⟩

theorem alike_gets {read : σ → α}
    (same : ∀ {s t}, related s t → read s = read t) :
    Alike related (gets read : Program σ ε α) :=
  fun _ _ holds => ⟨congrArg Except.ok (same holds), holds⟩

theorem alike_modify {change : σ → σ}
    (kept : ∀ {s t}, related s t → related (change s) (change t)) :
    Alike related (modify change : Program σ ε Unit) :=
  fun _ _ holds => ⟨rfl, kept holds⟩

theorem Alike.bind (first : Alike related program)
    (second : ∀ value, Alike related (next value)) :
    Alike related (program >>= next) := by
  intro s t holds
  obtain ⟨same, later⟩ := first s t holds
  rcases left : program s with ⟨result, s'⟩
  rcases right : program t with ⟨result', t'⟩
  rw [left, right] at same later
  have equal : result = result' := same
  subst equal
  cases result with
  | ok value =>
      rw [bind_ok left, bind_ok right]
      exact second value s' t' later
  | error e =>
      rw [bind_error left, bind_error right]
      exact ⟨rfl, later⟩

/-- What a run from one of the states ends with, a run from the other one
does. -/
theorem Alike.of_eq (alike : Alike related program) {t s' : σ}
    (holds : related s t) {result : Except ε α}
    (ended : program s = (result, s')) :
    ∃ t', program t = (result, t') ∧ related s' t' := by
  obtain ⟨same, later⟩ := alike s t holds
  rw [ended] at same later
  exact ⟨(program t).2, Prod.ext same.symm rfl, later⟩

theorem Alike.ensures (alike : Alike related program) {t : σ}
    (holds : related s t) {returned : α → Prop}
    (ensures : Ensures program (fun value _ => returned value)
      (fun _ => True) t) :
    Ensures program (fun value _ => returned value) (fun _ => True) s := by
  rcases outcome : program s with ⟨result, s'⟩
  obtain ⟨t', same, _⟩ := alike.of_eq holds outcome
  unfold Ensures at ensures ⊢
  rw [same] at ensures
  rw [outcome]
  cases result with
  | ok value => exact ensures
  | error e => trivial

/-! ## Logs -/

/-- The program appends `out` to a log, or a prefix of it if it fails. -/
def Emits {ω : Type} (log : σ → List ω) (out : List ω)
    (program : Program σ ε α) : Prop :=
  ∀ s, ∃ more, log (program s).2 = log s ++ more ∧ more <+: out ∧
    ∀ value, (program s).1 = .ok value → more = out

variable {ω : Type} {log : σ → List ω} {out later : List ω}

theorem emits_pure {value : α} :
    Emits log [] (pure value : Program σ ε α) := by
  intro s
  exact ⟨[], (List.append_nil _).symm, List.nil_prefix, fun _ _ => rfl⟩

theorem emits_fail {e : ε} : Emits log out (fail e : Program σ ε α) := by
  intro s
  refine ⟨[], (List.append_nil _).symm, List.nil_prefix, ?_⟩
  intro value ended
  cases ended

/-- A sequence, where it depends on what the first part returns how the second
one goes on. -/
theorem Emits.bindReturned {returned : α → Prop}
    (first : Emits log out program)
    (returns : ∀ s value, (program s).1 = .ok value → returned value)
    (second : ∀ value, returned value → Emits log later (next value)) :
    Emits log (out ++ later) (program >>= next) := by
  intro s
  obtain ⟨more, appended, prefixed, whole⟩ := first s
  have known := returns s
  have step : (program >>= next) s = andThen program next s := rfl
  rw [step, andThen]
  rcases outcome : program s with ⟨result, s'⟩
  rw [outcome] at appended whole known
  cases result with
  | error e =>
      refine ⟨more, appended, ?_, ?_⟩
      · exact prefixed.trans (List.prefix_append out later)
      · intro value ended
        cases ended
  | ok value =>
      obtain ⟨rest, behind, shorter, ends⟩ :=
        second value (known value rfl) s'
      have same : more = out := whole value rfl
      subst same
      refine ⟨more ++ rest, ?_, ?_, ?_⟩
      · rw [behind, appended, List.append_assoc]
      · exact List.prefix_append_right_inj more |>.mpr shorter
      · intro last ended
        rw [ends last ended]

theorem Emits.bind (first : Emits log out program)
    (second : ∀ value, Emits log later (next value)) :
    Emits log (out ++ later) (program >>= next) :=
  first.bindReturned (fun _ _ _ => trivial) (fun value _ => second value)

end Program
