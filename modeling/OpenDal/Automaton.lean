import Mathlib.Data.List.Basic

/-!
# Runs of event-driven systems

A system is a partial step function: `step state event` is `none` when the
event cannot happen in that state.  A run is the left fold of a list of
events, so every schedule of a concurrent system is one list and every result
below is about all of them.

The rules come in three kinds: an invariant of one step is an invariant of
every run, a quantity that every step decreases bounds the length of every
run, and a relation between two systems that their steps keep is one between
the ends of their runs.
-/

namespace Automaton

variable {σ ε : Type}

/-- Perform the events in order; `none` as soon as one of them is not
possible. -/
def run (step : σ → ε → Option σ) (start : σ) (events : List ε) : Option σ :=
  events.foldlM step start

@[simp] theorem run_nil (step : σ → ε → Option σ) (start : σ) :
    run step start [] = some start := by
  simp [run]

theorem run_cons_eq_some_iff
    {step : σ → ε → Option σ} {start finish : σ}
    {event : ε} {events : List ε} :
    run step start (event :: events) = some finish ↔
      ∃ next, step start event = some next ∧
        run step next events = some finish := by
  simp [run, Option.bind_eq_some_iff]

/-- Every event of the list happens in a state that allows it. -/
def Along (step : σ → ε → Option σ) (allowed : σ → ε → Prop) :
    σ → List ε → Prop
  | _, [] => True
  | state, event :: events => allowed state event ∧
      match step state event with
      | none => True
      | some next => Along step allowed next events

theorem along_cons_iff {step : σ → ε → Option σ} {allowed : σ → ε → Prop}
    {start : σ} {event : ε} {events : List ε} :
    Along step allowed start (event :: events) ↔ allowed start event ∧
      ∀ next, step start event = some next →
        Along step allowed next events := by
  cases stepped : step start event with
  | none => simp [Along, stepped]
  | some next => simp [Along, stepped]

theorem along_cons_none {step : σ → ε → Option σ} {allowed : σ → ε → Prop}
    {start : σ} {event : ε} {events : List ε}
    (stuck : step start event = none) :
    allowed start event ↔ Along step allowed start (event :: events) := by
  simp [Along, stuck]

theorem along_cons_some {step : σ → ε → Option σ} {allowed : σ → ε → Prop}
    {start next : σ} {event : ε} {events : List ε}
    (stepped : step start event = some next) :
    (allowed start event ∧ Along step allowed next events) ↔
      Along step allowed start (event :: events) := by
  simp [Along, stepped]

instance decidableAlong (step : σ → ε → Option σ) (allowed : σ → ε → Prop)
    [∀ state event, Decidable (allowed state event)] :
    (start : σ) → (events : List ε) → Decidable (Along step allowed start events)
  | _, [] => .isTrue trivial
  | start, event :: events =>
      match stepped : step start event with
      | none => decidable_of_iff _ (along_cons_none stepped)
      | some next =>
          have := decidableAlong step allowed next events
          decidable_of_iff _ (along_cons_some stepped)

/-- The invariant rule.  Only steps that are allowed have to keep the
invariant, which is how assumptions about the environment enter a result. -/
theorem run_invariant_along
    {step : σ → ε → Option σ} {invariant : σ → Prop}
    {allowed : σ → ε → Prop}
    (preserved : ∀ {state event next}, invariant state →
      allowed state event → step state event = some next → invariant next)
    {start finish : σ} {events : List ε}
    (initially : invariant start) (admissible : Along step allowed start events)
    (ran : run step start events = some finish) :
    invariant finish := by
  induction events generalizing start with
  | nil =>
      simp only [run_nil, Option.some.injEq] at ran
      exact ran ▸ initially
  | cons event events induction =>
      obtain ⟨next, stepped, rest⟩ := run_cons_eq_some_iff.mp ran
      obtain ⟨permitted, later⟩ := admissible
      rw [stepped] at later
      have kept : invariant next := preserved initially permitted stepped
      exact induction kept later rest

theorem along_of_mem {step : σ → ε → Option σ} {allowed : σ → ε → Prop}
    {events : List ε}
    (admissible : ∀ event ∈ events, ∀ state, allowed state event)
    (start : σ) : Along step allowed start events := by
  induction events generalizing start with
  | nil => trivial
  | cons event events induction =>
      refine ⟨admissible event (by simp) start, ?_⟩
      split
      · trivial
      · rename_i next _
        exact induction
          (fun later member => admissible later (by simp [member])) next

theorem along_of_reached {step : σ → ε → Option σ} {allowed : σ → ε → Prop}
    {start finish : σ} {events : List ε}
    (ran : run step start events = some finish)
    (reached : ∀ before event after state next,
      events = before ++ event :: after →
      run step start before = some state →
      step state event = some next → allowed state event) :
    Along step allowed start events := by
  induction events generalizing start with
  | nil => trivial
  | cons event events induction =>
      obtain ⟨next, stepped, rest⟩ := run_cons_eq_some_iff.mp ran
      refine along_cons_iff.mpr
        ⟨reached [] event events start next rfl (run_nil step start) stepped,
          ?_⟩
      intro other same
      cases stepped.symm.trans same
      apply induction rest
      intro before later after state last split ran' stepped'
      exact reached (event :: before) later after state last (by rw [split]; rfl)
        (run_cons_eq_some_iff.mpr ⟨next, stepped, ran'⟩) stepped'

theorem along_iff_forall_mem {step : σ → ε → Option σ} {allowed : ε → Prop}
    {start finish : σ} {events : List ε}
    (ran : run step start events = some finish) :
    Along step (fun _ => allowed) start events ↔
      ∀ event ∈ events, allowed event := by
  constructor
  · intro along
    induction events generalizing start with
    | nil => simp
    | cons event events induction =>
        obtain ⟨next, stepped, rest⟩ := run_cons_eq_some_iff.mp ran
        obtain ⟨permitted, later⟩ := along_cons_iff.mp along
        intro other member
        rcases List.mem_cons.mp member with rfl | behind
        · exact permitted
        · exact induction rest (later next stepped) other behind
  · intro admissible
    exact along_of_mem (fun event member _ => admissible event member) start

/-- The invariant rule when it depends on the event alone what is allowed. -/
theorem run_invariant
    {step : σ → ε → Option σ} {invariant : σ → Prop} {allowed : ε → Prop}
    (preserved : ∀ {state event next}, invariant state → allowed event →
      step state event = some next → invariant next)
    {start finish : σ} {events : List ε}
    (initially : invariant start)
    (admissible : ∀ event ∈ events, allowed event)
    (ran : run step start events = some finish) :
    invariant finish :=
  run_invariant_along preserved initially
    (along_of_mem (fun event member _ => admissible event member) start) ran

/-- The invariant rule when every event keeps the invariant. -/
theorem run_invariant_of_forall
    {step : σ → ε → Option σ} {invariant : σ → Prop}
    (preserved : ∀ {state event next}, invariant state →
      step state event = some next → invariant next)
    {start finish : σ} {events : List ε}
    (initially : invariant start)
    (ran : run step start events = some finish) :
    invariant finish := by
  have preservedAlways : ∀ {state event next}, invariant state → True →
      step state event = some next → invariant next :=
    fun kept _ stepped => preserved kept stepped
  exact run_invariant preservedAlways initially (fun _ _ => trivial) ran

/-- The simulation rule: two systems that a relation holds together, as long as
both perform the same event, are held together by it over whole runs. -/
theorem run_related {τ : Type} {step : σ → ε → Option σ}
    {other : τ → ε → Option τ} {related : σ → τ → Prop}
    (preserved : ∀ {left right event leftNext rightNext},
      related left right → step left event = some leftNext →
      other right event = some rightNext → related leftNext rightNext)
    {left leftFinish : σ} {right rightFinish : τ} {events : List ε}
    (initially : related left right)
    (leftRan : run step left events = some leftFinish)
    (rightRan : run other right events = some rightFinish) :
    related leftFinish rightFinish := by
  induction events generalizing left right with
  | nil =>
      simp only [run_nil, Option.some.injEq] at leftRan rightRan
      exact leftRan ▸ rightRan ▸ initially
  | cons event events induction =>
      obtain ⟨leftNext, leftStep, leftRest⟩ := run_cons_eq_some_iff.mp leftRan
      obtain ⟨rightNext, rightStep, rightRest⟩ :=
        run_cons_eq_some_iff.mp rightRan
      exact induction (preserved initially leftStep rightStep) leftRest
        rightRest

/-- The progress rule: when no event can get stuck, every list of events is a
run. -/
theorem run_total
    {step : σ → ε → Option σ} {invariant : σ → Prop}
    (progress : ∀ {state} event, invariant state →
      ∃ next, step state event = some next ∧ invariant next)
    {start : σ} (initially : invariant start) (events : List ε) :
    ∃ finish, run step start events = some finish ∧ invariant finish := by
  induction events generalizing start with
  | nil => exact ⟨start, run_nil step start, initially⟩
  | cons event events induction =>
      obtain ⟨next, stepped, kept⟩ := progress event initially
      obtain ⟨finish, ran, reached⟩ := induction kept
      exact ⟨finish, run_cons_eq_some_iff.mpr ⟨next, stepped, ran⟩, reached⟩

/-- The progress rule when it depends on the state which events are allowed. -/
theorem run_total_along
    {step : σ → ε → Option σ} {invariant : σ → Prop}
    {allowed : σ → ε → Prop}
    (progress : ∀ {state event}, invariant state → allowed state event →
      ∃ next, step state event = some next ∧ invariant next)
    {start : σ} {events : List ε} (initially : invariant start)
    (admissible : Along step allowed start events) :
    ∃ finish, run step start events = some finish ∧ invariant finish := by
  induction events generalizing start with
  | nil => exact ⟨start, run_nil step start, initially⟩
  | cons event events induction =>
      obtain ⟨permitted, later⟩ := along_cons_iff.mp admissible
      obtain ⟨next, stepped, kept⟩ := progress initially permitted
      obtain ⟨finish, ran, reached⟩ := induction kept (later next stepped)
      exact ⟨finish, run_cons_eq_some_iff.mpr ⟨next, stepped, ran⟩, reached⟩

/-- The abstraction rule: a view of the state that every step respects turns
the runs of one system into those of the other. -/
theorem run_map {τ : Type} {step : σ → ε → Option σ}
    {other : τ → ε → Option τ} {view : σ → τ}
    (respects : ∀ state event,
      (step state event).map view = other (view state) event)
    (start : σ) (events : List ε) :
    (run step start events).map view = run other (view start) events := by
  induction events generalizing start with
  | nil => simp
  | cons event events induction =>
      have first := respects start event
      simp only [run, List.foldlM_cons, Option.bind_eq_bind] at induction ⊢
      cases stepped : step start event with
      | none =>
          rw [stepped] at first
          rw [← first]
          rfl
      | some next =>
          rw [stepped] at first
          rw [← first]
          exact induction next

/-- The dichotomy rule: a run whose steps are all allowed ends level, and one
step that is not allowed leaves a gap that no later step closes. -/
theorem run_level_or_gap
    {step : σ → ε → Option σ} {level gap : σ → Prop}
    {allowed : σ → ε → Prop}
    (keeps : ∀ {state event next}, level state → allowed state event →
      step state event = some next → level next)
    (breaks : ∀ {state event next}, level state → ¬ allowed state event →
      step state event = some next → gap next)
    (stays : ∀ {state event next}, gap state →
      step state event = some next → gap next)
    {start finish : σ} {events : List ε} (initially : level start)
    (ran : run step start events = some finish) :
    (Along step allowed start events → level finish) ∧
      (¬ Along step allowed start events → gap finish) := by
  refine ⟨fun along => run_invariant_along keeps initially along ran, ?_⟩
  intro offending
  induction events generalizing start with
  | nil => exact absurd trivial offending
  | cons event events induction =>
      obtain ⟨next, stepped, rest⟩ := run_cons_eq_some_iff.mp ran
      by_cases permitted : allowed start event
      · apply induction (keeps initially permitted stepped) rest
        intro later
        apply offending
        refine ⟨permitted, ?_⟩
        rw [stepped]
        exact later
      · have opened : gap next := breaks initially permitted stepped
        exact run_invariant_of_forall stays opened rest

theorem run_concat {step : σ → ε → Option σ} {start middle finish : σ}
    {events : List ε} {event : ε} (ran : run step start events = some middle)
    (stepped : step middle event = some finish) :
    run step start (events ++ [event]) = some finish := by
  simp only [run] at ran
  simp [run, List.foldlM_append, ran, stepped]

theorem run_append {step : σ → ε → Option σ} {start middle finish : σ}
    {events others : List ε} (ran : run step start events = some middle)
    (resumed : run step middle others = some finish) :
    run step start (events ++ others) = some finish := by
  simp only [run] at ran resumed
  simp [run, List.foldlM_append, ran, resumed]

/-- The agreement rule: two systems that make the same steps wherever an
invariant of one of them holds have the same runs. -/
theorem run_congr {step other : σ → ε → Option σ} {invariant : σ → Prop}
    (agree : ∀ {state} event, invariant state →
      step state event = other state event)
    (preserved : ∀ {state event next}, invariant state →
      other state event = some next → invariant next)
    {start : σ} (initially : invariant start) (events : List ε) :
    run step start events = run other start events := by
  induction events generalizing start with
  | nil => simp
  | cons event events induction =>
      have same := agree event initially
      simp only [run, List.foldlM_cons, Option.bind_eq_bind] at induction ⊢
      rw [same]
      cases stepped : other start event with
      | none => rfl
      | some next => exact induction (preserved initially stepped)

/-- When runs have a bounded length and every state that has not finished has
a step, some run finishes. -/
theorem run_finishes {step : σ → ε → Option σ} {start : σ}
    {finished : σ → Prop} {bound : Nat}
    (bounded : ∀ events state, run step start events = some state →
      events.length ≤ bound)
    (continues : ∀ events state, run step start events = some state →
      ¬ finished state → ∃ event, (step state event).isSome = true) :
    ∃ events state, run step start events = some state ∧ finished state := by
  by_contra unfinished
  have longer : ∀ length, ∃ events state, events.length = length ∧
      run step start events = some state := by
    intro length
    induction length with
    | zero => exact ⟨[], start, rfl, run_nil step start⟩
    | succ length induction =>
        obtain ⟨events, state, rfl, ran⟩ := induction
        have running : ¬ finished state :=
          fun ended => unfinished ⟨events, state, ran, ended⟩
        obtain ⟨event, resumes⟩ := continues events state ran running
        obtain ⟨later, stepped⟩ := Option.isSome_iff_exists.mp resumes
        exact ⟨events ++ [event], later, by simp, run_concat ran stepped⟩
  obtain ⟨events, state, exceeds, ran⟩ := longer (bound + 1)
  have within := bounded events state ran
  omega

/-- The variant rule: a measure that decreases with every step is a bound on
the number of steps of every run. -/
theorem run_length_le
    {step : σ → ε → Option σ} {invariant : σ → Prop} {allowed : ε → Prop}
    (measure : σ → Nat)
    (preserved : ∀ {state event next}, invariant state → allowed event →
      step state event = some next → invariant next)
    (decreases : ∀ {state event next}, invariant state → allowed event →
      step state event = some next → measure next < measure state)
    {start finish : σ} {events : List ε}
    (initially : invariant start)
    (admissible : ∀ event ∈ events, allowed event)
    (ran : run step start events = some finish) :
    events.length ≤ measure start := by
  induction events generalizing start with
  | nil => exact Nat.zero_le _
  | cons event events induction =>
      obtain ⟨next, stepped, rest⟩ := run_cons_eq_some_iff.mp ran
      have permitted : allowed event := admissible event (by simp)
      have shorter : events.length ≤ measure next :=
        induction (preserved initially permitted stepped)
          (fun later member => admissible later (by simp [member])) rest
      have smaller : measure next < measure start :=
        decreases initially permitted stepped
      simp only [List.length_cons]
      omega

/-- The progress measure: where every step either is done or increases a
measure, a run that is not done has increased it once for every event. -/
theorem run_done_or_length_le
    {step : σ → ε → Option σ} {invariant done : σ → Prop}
    (measure : σ → Nat)
    (preserved : ∀ {state event next}, invariant state →
      step state event = some next → invariant next)
    (increases : ∀ {state event next}, invariant state →
      step state event = some next →
      done next ∨ measure state < measure next)
    (stays : ∀ {state event next}, done state →
      step state event = some next → done next)
    {start finish : σ} {events : List ε} (initially : invariant start)
    (ran : run step start events = some finish) :
    done finish ∨ measure start + events.length ≤ measure finish := by
  induction events generalizing start with
  | nil =>
      simp only [run_nil, Option.some.injEq] at ran
      simp [ran]
  | cons event events induction =>
      obtain ⟨next, stepped, rest⟩ := run_cons_eq_some_iff.mp ran
      rcases increases initially stepped with finished | larger
      · exact .inl (run_invariant_of_forall stays finished rest)
      · rcases induction (preserved initially stepped) rest with
          finished | reached
        · exact .inl finished
        · apply Or.inr
          simp only [List.length_cons]
          omega

/-- The stuttering rule: a step of the system is one of the system that is seen
of it, or is not seen. -/
theorem run_stutters {τ : Type} {step : σ → ε → Option σ}
    {other : τ → ε → Option τ} {view : σ → τ} {invariant : σ → Prop}
    (preserved : ∀ {state event next}, invariant state →
      step state event = some next → invariant next)
    (seen : ∀ {state event next}, invariant state →
      step state event = some next →
      other (view state) event = some (view next) ∨ view next = view state)
    {start finish : σ} {events : List ε} (initially : invariant start)
    (ran : run step start events = some finish) :
    ∃ others, run other (view start) others = some (view finish) := by
  induction events generalizing start with
  | nil =>
      simp only [run_nil, Option.some.injEq] at ran
      exact ⟨[], by rw [ran, run_nil]⟩
  | cons event events induction =>
      obtain ⟨next, stepped, rest⟩ := run_cons_eq_some_iff.mp ran
      obtain ⟨others, followed⟩ :=
        induction (preserved initially stepped) rest
      rcases seen initially stepped with moved | still
      · exact ⟨event :: others,
          run_cons_eq_some_iff.mpr ⟨view next, moved, followed⟩⟩
      · exact ⟨others, still ▸ followed⟩

theorem run_lifts {τ : Type} {step : σ → ε → Option σ}
    {other : τ → ε → Option τ} {view : σ → τ} {invariant : σ → Prop}
    (lifts : ∀ {state event seen}, invariant state →
      other (view state) event = some seen →
      ∃ next, step state event = some next ∧ view next = seen ∧
        invariant next)
    {start : σ} {seen : τ} {events : List ε} (initially : invariant start)
    (ran : run other (view start) events = some seen) :
    ∃ finish, run step start events = some finish ∧ view finish = seen ∧
      invariant finish := by
  induction events generalizing start with
  | nil =>
      simp only [run_nil, Option.some.injEq] at ran
      exact ⟨start, run_nil step start, ran, initially⟩
  | cons event events induction =>
      obtain ⟨middle, moved, rest⟩ := run_cons_eq_some_iff.mp ran
      obtain ⟨next, stepped, rfl, kept⟩ := lifts initially moved
      obtain ⟨finish, resumed, same, reached⟩ := induction kept rest
      exact ⟨finish, run_cons_eq_some_iff.mpr ⟨next, stepped, resumed⟩, same,
        reached⟩

/-- `run_map` where the steps agree only as long as an invariant holds. -/
theorem run_map_of_invariant {τ : Type} {step : σ → ε → Option σ}
    {other : τ → ε → Option τ} {view : σ → τ} {invariant : σ → Prop}
    (respects : ∀ {state} event, invariant state →
      (step state event).map view = other (view state) event)
    (preserved : ∀ {state event next}, invariant state →
      step state event = some next → invariant next)
    {start : σ} (initially : invariant start) (events : List ε) :
    (run step start events).map view = run other (view start) events := by
  induction events generalizing start with
  | nil => simp
  | cons event events induction =>
      have first := respects event initially
      simp only [run, List.foldlM_cons, Option.bind_eq_bind] at induction ⊢
      cases stepped : step start event with
      | none =>
          rw [stepped] at first
          rw [← first]
          rfl
      | some next =>
          rw [stepped] at first
          rw [← first]
          exact induction (preserved initially stepped)

end Automaton
