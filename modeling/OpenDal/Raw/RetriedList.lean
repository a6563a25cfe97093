import OpenDal.Raw.FlatEnumeration

/-!
# Retrying a recursive listing

A consumer calls `FlatLister::next` again after every error.  A lister that
fails is asked again and nothing is lost.  A directory whose `list` fails has
been taken out of `nextDir` before, so it is not opened again: its subtree is
missing and the listing still ends with `None`.
-/

namespace OpenDal

namespace FlatLister

variable {A L : Type} [Lister L] [ListAccess A L] {listed : DirListing}
  (service : ListingService A listed) (turns : Nat)

/-- What has been returned and what is owed make up `whole`. -/
def Level (whole : List Entry) (session : ListSession (FlatLister A L)) :
    Prop :=
  ∃ owed, Yields service turns session.lister owed ∧
    session.outputs ++ owed = whole ∧
    (session.finished = true → owed = [])

/-- What has been returned and what is owed is too short. -/
def Gap (whole : List Entry) (session : ListSession (FlatLister A L)) :
    Prop :=
  ∃ owed, Yields service turns session.lister owed ∧
    session.outputs.length + owed.length < whole.length

/-- No call of `list` fails in the next call of `next`. -/
def OpensAll (session : ListSession (FlatLister A L)) (_ : Unit) : Prop :=
  session.lister.opensAll turns = true

/-- What one call can do to a session; the flag says that no `list` has
failed. -/
inductive Calls (session : ListSession (FlatLister A L))
    (owed : List Entry) : Bool → ListSession (FlatLister A L) → Prop where
  | returns {lister : FlatLister A L} {entry : Entry} {rest : List Entry}
      (split : owed = entry :: rest)
      (yields : Yields service turns lister rest) :
      Calls session owed true
        { session with lister, outputs := session.outputs ++ [entry] }
  | ends {lister : FlatLister A L} (nothing : owed = [])
      (yields : Yields service turns lister []) :
      Calls session owed true { session with lister, finished := true }
  | fails {lister : FlatLister A L}
      (yields : Yields service turns lister owed) :
      Calls session owed true
        { session with lister, failures := session.failures + 1 }
  | loses {lister : FlatLister A L} {de : Entry} {rest : List Entry}
      (split : owed = listed.forest.postOrder de ++ rest)
      (yields : Yields service turns lister rest) :
      Calls session owed false
        { session with lister, failures := session.failures + 1 }

variable {service turns} {whole owed : List Entry}
  {session next' : ListSession (FlatLister A L)} {call : Unit}

theorem exists_step (call : Unit)
    (yields : Yields service turns session.lister owed) :
    ∃ later, session.step (next turns) call = some later ∧
      Calls service turns session owed (session.lister.opensAll turns)
        later := by
  obtain ⟨work, owes, enough⟩ := yields
  obtain ⟨result, lister, returned, accounts⟩ := next_accounts owes enough
  simp only [ListSession.step, returned, Option.map_some]
  refine ⟨_, rfl, ?_⟩
  generalize opensAll turns session.lister = opened at accounts ⊢
  cases accounts with
  | returns split owesLater fewer =>
      exact .returns split ⟨_, owesLater, by omega⟩
  | ends nothing owesLater fewer =>
      exact .ends nothing ⟨_, owesLater, by omega⟩
  | fails owesLater fewer => exact .fails ⟨_, owesLater, by omega⟩
  | loses split owesLater fewer =>
      exact .loses split ⟨_, owesLater, by omega⟩

theorem calls_of_step (yields : Yields service turns session.lister owed)
    (stepped : session.step (next turns) call = some next') :
    Calls service turns session owed (session.lister.opensAll turns)
      next' := by
  obtain ⟨later, steppedLater, calls⟩ := exists_step call yields
  cases stepped.symm.trans steppedLater
  exact calls

theorem Calls.yields {opened : Bool}
    (calls : Calls service turns session owed opened next') :
    ∃ rest, Yields service turns next'.lister rest := by
  cases calls with
  | returns _ yields => exact ⟨_, yields⟩
  | ends _ yields => exact ⟨_, yields⟩
  | fails yields => exact ⟨_, yields⟩
  | loses _ yields => exact ⟨_, yields⟩

theorem Calls.progress {opened : Bool}
    (calls : Calls service turns session owed opened next') :
    next'.finished = true ∨ session.failures + session.outputs.length <
      next'.failures + next'.outputs.length := by
  cases calls with
  | returns _ _ =>
      apply Or.inr
      simp only [List.length_append, List.length_singleton]
      omega
  | ends _ _ => exact .inl rfl
  | fails _ =>
      apply Or.inr
      simp only
      omega
  | loses _ _ =>
      apply Or.inr
      simp only
      omega

theorem finished_of_step (finished : session.finished = true)
    (stepped : session.step (next turns) call = some next') :
    next'.finished = true := by
  obtain ⟨⟨result, lister⟩, _, same⟩ := Option.map_eq_some_iff.mp stepped
  rw [← same]
  rcases result with err | _ | entry
  · exact finished
  · rfl
  · exact finished

/-! ## Calls that lose nothing, and calls that do -/

theorem level_step (level : Level service turns whole session)
    (opens : OpensAll turns session call)
    (stepped : session.step (next turns) call = some next') :
    Level service turns whole next' := by
  obtain ⟨owed, yields, total, ended⟩ := level
  have calls := calls_of_step yields stepped
  rw [opens] at calls
  cases calls with
  | returns split yieldsRest =>
      subst split
      refine ⟨_, yieldsRest, by rw [← total, List.append_assoc]; rfl, ?_⟩
      intro done
      cases ended done
  | ends nothing yieldsNone =>
      subst nothing
      exact ⟨[], yieldsNone, total, fun _ => rfl⟩
  | fails yieldsSame => exact ⟨owed, yieldsSame, total, ended⟩

theorem gap_of_level (level : Level service turns whole session)
    (offending : ¬ OpensAll turns session call)
    (stepped : session.step (next turns) call = some next') :
    Gap service turns whole next' := by
  obtain ⟨owed, yields, total, _⟩ := level
  have calls := calls_of_step yields stepped
  rw [Bool.not_eq_true _ |>.mp offending] at calls
  cases calls with
  | loses split yieldsRest =>
      refine ⟨_, yieldsRest, ?_⟩
      -- the directory itself is among what has been lost
      rw [← total, split, Forest.postOrder_eq]
      simp only [List.length_append, List.length_singleton]
      omega

theorem gap_step (gap : Gap service turns whole session)
    (stepped : session.step (next turns) call = some next') :
    Gap service turns whole next' := by
  obtain ⟨owed, yields, short⟩ := gap
  have calls := calls_of_step yields stepped
  generalize session.lister.opensAll turns = opened at calls
  cases calls with
  | returns split yieldsRest =>
      refine ⟨_, yieldsRest, ?_⟩
      rw [split, List.length_cons] at short
      rw [List.length_append, List.length_singleton]
      omega
  | ends nothing yieldsNone => exact ⟨[], yieldsNone, nothing ▸ short⟩
  | fails yieldsSame => exact ⟨owed, yieldsSame, short⟩
  | loses split yieldsRest =>
      refine ⟨_, yieldsRest, ?_⟩
      rw [split, List.length_append] at short
      simp only
      omega

/-! ## Whole listings -/

/-- A finished listing without failures has returned everything. -/
private theorem outputs_of_steady (steady : service.Steady)
    {finish : ListSession (FlatLister A L)} {calls : List Unit}
    (initially : Yields service turns session.lister whole)
    (fresh : session = .new session.lister)
    (ran : Automaton.run (ListSession.step (next turns)) session calls =
      some finish) (finished : finish.finished = true) :
    finish.outputs = whole := by
  have same : calls = List.replicate calls.length () :=
    List.eq_replicate_of_mem fun _ _ => rfl
  obtain ⟨later, ranAll⟩ :=
    (enumerates steady turns).run session initially calls.length
  rw [← same] at ranAll
  cases ran.symm.trans ranAll
  rw [fresh] at finished ⊢
  simp only [ListSession.new, Bool.false_or, decide_eq_true_eq] at finished
  simp only [ListSession.new, List.nil_append]
  exact List.take_of_length_le (Nat.le_of_lt finished)

/-- A listing whose calls return. -/
def Running (service : ListingService A listed) (turns : Nat)
    (session : ListSession (FlatLister A L)) : Prop :=
  ∃ owed, Yields service turns session.lister owed

private theorem running_step (running : Running service turns session)
    (stepped : session.step (next turns) call = some next') :
    Running service turns next' := by
  obtain ⟨owed, yields⟩ := running
  exact (calls_of_step yields stepped).yields

private theorem progress_step (running : Running service turns session)
    (stepped : session.step (next turns) call = some next') :
    next'.finished = true ∨ session.failures + session.outputs.length <
      next'.failures + next'.outputs.length := by
  obtain ⟨owed, yields⟩ := running
  exact (calls_of_step yields stepped).progress

private theorem run_running (calls : List Unit)
    (initially : Running service turns session) :
    ∃ finish, Automaton.run (ListSession.step (next turns)) session calls =
      some finish := by
  have progress : ∀ {state : ListSession (FlatLister A L)} (call : Unit),
      Running service turns state → ∃ later,
        state.step (next turns) call = some later ∧
          Running service turns later := by
    intro state call given
    obtain ⟨owed, yields⟩ := given
    obtain ⟨later, stepped, calls⟩ := exists_step call yields
    exact ⟨later, stepped, calls.yields⟩
  obtain ⟨finish, ran, _⟩ := Automaton.run_total progress initially calls
  exact ⟨finish, ran⟩

/-- A listing that is called again after every error comes to its end, and then
has returned the entries of the listing without failures exactly if no call of
`list` has failed. -/
theorem returns_all_iff_opened {A' L' : Type} [Lister L']
    [ListAccess A' L'] (service : ListingService A listed)
    (reliable : ListingService A' listed) (steady : reliable.Steady)
    (acc : A) (acc' : A') {dir : Path} (known : listed.tree.HasDir dir) :
    ∃ enough, ∀ turns, enough ≤ turns → ∀ calls calls' : List Unit,
      ∃ (finish : ListSession (FlatLister A L))
        (finish' : ListSession (FlatLister A' L')),
        Automaton.run (ListSession.step (next turns))
          (.new (.new acc dir)) calls = some finish ∧
        Automaton.run (ListSession.step (next turns))
          (.new (.new acc' dir)) calls' = some finish' ∧
        (finish'.finished = true →
          (finish.failures + finish'.outputs.length < calls.length →
            finish.finished = true) ∧
          (finish.finished = true →
            (finish.outputs.Perm finish'.outputs ↔
              Automaton.Along (ListSession.step (next turns))
                (OpensAll turns) (.new (.new acc dir)) calls))) := by
  refine ⟨listed.work (listed.walk dir) + 1,
    fun turns enough calls calls' => ?_⟩
  have start : Yields service turns (new acc dir : FlatLister A L) _ :=
    yields_new acc known enough
  have start' : Yields reliable turns (new acc' dir : FlatLister A' L') _ :=
    yields_new acc' known enough
  have running : Running service turns (.new (new acc dir)) := ⟨_, start⟩
  have running' : Running reliable turns (.new (new acc' dir)) := ⟨_, start'⟩
  obtain ⟨finish, ran⟩ := run_running calls running
  obtain ⟨finish', ran'⟩ := run_running calls' running'
  have level : Level service turns (listed.walk dir) (.new (new acc dir)) :=
    ⟨_, start, rfl, by simp [ListSession.new]⟩
  obtain ⟨keeps, breaks⟩ := Automaton.run_level_or_gap level_step
    gap_of_level gap_step level ran
  refine ⟨finish, finish', ran, ran', fun finished' => ?_⟩
  rw [outputs_of_steady steady start' rfl ran' finished']
  constructor
  · intro more
    have bounded : finish.outputs.length ≤ (listed.walk dir).length := by
      by_cases along : Automaton.Along (ListSession.step (next turns))
          (OpensAll turns) (.new (.new acc dir)) calls
      · obtain ⟨owed, _, total, _⟩ := keeps along
        rw [← total, List.length_append]
        omega
      · obtain ⟨owed, _, short⟩ := breaks along
        omega
    rcases Automaton.run_done_or_length_le
      (fun session : ListSession (FlatLister A L) =>
        session.failures + session.outputs.length)
      running_step progress_step finished_of_step running ran with
      done | grown
    · exact done
    · simp only [ListSession.new, List.length_nil] at grown
      omega
  · intro finished
    constructor
    · intro same
      by_contra offending
      obtain ⟨owed, _, short⟩ := breaks offending
      have total := same.length_eq
      omega
    · intro along
      obtain ⟨owed, _, total, ended⟩ := keeps along
      rw [ended finished, List.append_nil] at total
      rw [total]

end FlatLister

/-! ## A service that fails -/

/-- A tree where the next `list` of some directories fails, and each lister
fails a number of times before it returns its first entry. -/
structure FlakyTree (listed : DirListing) where
  failing : List Path
  lag : Nat

structure FlakyLister where
  lag : Nat
  entries : List Entry

def FlakyTree.failure : Error :=
  (Error.new .unexpected "timeout").setTemporary

instance : Lister FlakyLister where
  next := fun l =>
    match l.lag, l.entries with
    | lag + 1, _ => (.error FlakyTree.failure, { l with lag })
    | 0, [] => (.ok none, l)
    | 0, entry :: rest => (.ok (some entry), { l with entries := rest })

instance {listed : DirListing} :
    ListAccess (FlakyTree listed) FlakyLister where
  list := fun self dir _ =>
    if dir ∈ self.failing then
      (.error FlakyTree.failure, { self with failing := self.failing.erase dir })
    else
      (.ok ⟨self.lag, listed.listing dir⟩, self)

def FlakyTree.service (listed : DirListing) :
    ListingService (FlakyTree listed) listed where
  yields := fun l entries => l.entries = entries
  opened := by
    intro acc later dir l _ answered
    simp only [ListAccess.list] at answered
    split at answered
    · cases answered
    · cases answered
      rfl
  more := by
    intro l later entry _ same answered
    obtain ⟨lag, entries⟩ := l
    subst same
    cases lag with
    | succ lag => cases answered
    | zero =>
        cases entries with
        | nil => cases answered
        | cons entry rest =>
            cases answered
            exact ⟨rest, rfl, rfl⟩
  last := by
    intro l later _ same answered
    obtain ⟨lag, entries⟩ := l
    subst same
    cases lag with
    | succ lag => cases answered
    | zero =>
        cases entries with
        | nil =>
            cases answered
            exact ⟨rfl, rfl⟩
        | cons entry rest => cases answered
  failed := by
    intro l later err _ same answered
    obtain ⟨lag, entries⟩ := l
    subst same
    cases lag with
    | succ lag =>
        cases answered
        rfl
    | zero =>
        cases entries with
        | nil => cases answered
        | cons entry rest => cases answered

namespace FlatLister

/-- Listers that fail once before each first entry. -/
theorem returns_all_iff_opened_lagging :
    ∃ enough, ∀ turns, enough ≤ turns → ∀ calls calls' : List Unit,
      ∃ (finish : ListSession (FlatLister (FlakyTree sampleListing)
          FlakyLister))
        (finish' : ListSession (FlatLister (PlainTree sampleListing)
          PlainLister)),
        Automaton.run (ListSession.step (next turns))
          (.new (.new ⟨[], 1⟩ "/".toList)) calls = some finish ∧
        Automaton.run (ListSession.step (next turns))
          (.new (.new ⟨⟩ "/".toList)) calls' = some finish' ∧
        (finish'.finished = true → finish.finished = true →
          (finish.outputs.Perm finish'.outputs ↔
            Automaton.Along (ListSession.step (next turns))
              (OpensAll turns) (.new (.new (⟨[], 1⟩ : FlakyTree sampleListing)
                "/".toList)) calls)) := by
  obtain ⟨enough, runs⟩ := returns_all_iff_opened
    (FlakyTree.service sampleListing) (PlainTree.service sampleListing)
    PlainTree.steady ⟨[], 1⟩ ⟨⟩
    (show sampleListing.tree.HasDir "/".toList by decide)
  refine ⟨enough, fun turns fits calls calls' => ?_⟩
  obtain ⟨finish, finish', ran, ran', complete⟩ := runs turns fits calls calls'
  exact ⟨finish, finish', ran, ran',
    fun finished' finished => (complete finished').2 finished⟩

/-- One failure of `list("d/")`: the listing of the root ends with `None` after
three calls, and neither `d/` nor the file in it has been returned. -/
theorem returns_all_fails_unopened :
    ∃ (finish : ListSession (FlatLister (FlakyTree sampleListing)
        FlakyLister))
      (finish' : ListSession (FlatLister (PlainTree sampleListing)
        PlainLister)),
      Automaton.run (ListSession.step (next 9))
        (.new (.new ⟨["d/".toList], 0⟩ "/".toList)) [(), (), ()] =
          some finish ∧
      Automaton.run (ListSession.step (next 9))
        (.new (.new ⟨⟩ "/".toList)) [(), (), (), ()] = some finish' ∧
      finish.finished = true ∧ finish'.finished = true ∧
      finish.outputs = [⟨"/".toList, .new .dir⟩] ∧
      ¬ finish.outputs.Perm finish'.outputs := by
  exact ⟨_, _, rfl, rfl, rfl, rfl, rfl, by decide⟩

end FlatLister

end OpenDal
