import OpenDal.Program
import OpenDal.Types.DeleteSink

/-!
# The paths that are deleted

A path can be deleted through an operator, a deleter or a sink, one by one or
many at a time.  `delete_with` and `remove_via` normalize the path first.  All
others hand it to the deleter of the accessor as it was given.

The blocking operator has no streams; apart from that, and from `remove_via`,
its methods have the bodies of the asynchronous ones.
-/

namespace OpenDal

open Path

/-- `stuck` is the overflow of `cur_size -= deleted`, or a `close` that needs
more flushes. -/
inductive DeleteFailure where
  | error (err : Error)
  | stuck

/-- The paths that a deleter was given. -/
def handed : List DeleteCall → List Path
  | [] => []
  | .delete key :: log => key.1 :: handed log
  | .flush :: log => handed log

/-- The methods of an accessor that deleting uses.  Every call of `delete` has
its own answer. -/
structure DeleteAccess (D : Type) where
  delete : Nat → Except Error D
  deleteMaxSize : Option Nat

/-! ## `IntoDeleteInput` -/

/-- What can be turned into a `DeleteInput`. -/
inductive DeleteItem where
  | ofPath (path : Path)
  | ofInput (input : DeleteInput)
  | ofPair (path : Path) (args : OpDelete)
  | ofEntry (entry : Entry)

namespace DeleteItem

def intoDeleteInput : DeleteItem → DeleteInput
  | .ofPath path => .ofPath path
  | .ofInput input => input
  | .ofPair path args => ⟨path, args.version⟩
  | .ofEntry entry => .ofEntry entry

/-- The path that the user has given. -/
def given : DeleteItem → Path
  | .ofPath path => path
  | .ofInput input => input.path
  | .ofPair path _ => path
  | .ofEntry entry => entry.path

theorem intoDeleteInput_path (item : DeleteItem) :
    item.intoDeleteInput.path = item.given := by
  cases item with
  | ofPath path => rfl
  | ofInput input => rfl
  | ofPair path args => rfl
  | ofEntry entry => rfl

end DeleteItem

/-! ## `Deleter` -/

namespace Deleter

variable {D : Type} {α : Type}

/-- A call of the deleter; the one that panics leaves the last state. -/
def program (call : Deleter D → Option (Except Error α × Deleter D)) :
    Program (Deleter D) DeleteFailure α :=
  fun d => match call d with
  | none => (.error .stuck, d)
  | some (.error err, d) => (.error (.error err), d)
  | some (.ok value, d) => (.ok value, d)

variable [Delete D]

def deleteTryIter : List (Except Error DeleteItem) →
    Program (Deleter D) DeleteFailure Unit
  | [] => pure ()
  | .error err :: _ => Program.fail (.error err)
  | .ok item :: items => do
      program (fun d => d.delete item.intoDeleteInput)
      deleteTryIter items

def deleteIter (items : List DeleteItem) :
    Program (Deleter D) DeleteFailure Unit :=
  deleteTryIter (items.map .ok)

/-- The loop is that of `delete_try_iter`, over a stream. -/
def deleteItemTryStream (items : List (Except Error DeleteItem)) :
    Program (Deleter D) DeleteFailure Unit :=
  deleteTryIter items

def deleteStream (items : List DeleteItem) :
    Program (Deleter D) DeleteFailure Unit :=
  deleteTryIter (items.map .ok)

def closeWithin (fuel : Nat) : Program (Deleter D) DeleteFailure Unit :=
  program (fun d => d.close fuel)

end Deleter

/-! ## The operators -/

namespace DeleteAccess

variable {D : Type} [Delete D] (access : DeleteAccess D)

/-- `delete_with(path)`, as the `n`-th call of `delete` of the accessor. -/
def deleteWith (n : Nat) (path : Path) (args : OpDelete) :
    Except DeleteFailure Unit × List DeleteCall :=
  let path := normalizePath path
  match access.delete n with
  | .error err => (.error (.error err), [])
  | .ok deleter =>
      match Delete.delete (Logged.mk deleter []) path args with
      | (.error err, deleter) => (.error (.error err), deleter.log)
      | (.ok (), deleter) =>
          match Delete.flush deleter with
          | (.error err, deleter) => (.error (.error err), deleter.log)
          | (.ok _, deleter) => (.ok (), deleter.log)

/-- `self.deleter()`, what is done with it, and `close`. -/
def withDeleter (fuel : Nat)
    (program : Program (Deleter (Logged D)) DeleteFailure Unit) :
    Except DeleteFailure Unit × List DeleteCall :=
  match access.delete 0 with
  | .error err => (.error (.error err), [])
  | .ok deleter =>
      let ran := (program >>= fun _ => Deleter.closeWithin fuel)
        (Deleter.create ⟨deleter, []⟩ access.deleteMaxSize)
      (ran.1, ran.2.deleter.log)

/-- `remove_via` of the blocking operator: a deleter for every path. -/
def deleteEach (n : Nat) : List Path →
    Except DeleteFailure Unit × List DeleteCall
  | [] => (.ok (), [])
  | path :: paths =>
      match access.deleteWith n path OpDelete.new with
      | (.error failure, log) => (.error failure, log)
      | (.ok (), log) =>
          let (result, more) := deleteEach (n + 1) paths
          (result, log ++ more)

end DeleteAccess

/-- The methods of `Operator` that delete what they are given. -/
inductive OperatorDelete where
  | delete (path : Path) (args : OpDelete)
  | deleteIter (items : List DeleteItem)
  | deleteTryIter (items : List (Except Error DeleteItem))
  | deleteStream (items : List DeleteItem)
  | deleteTryStream (items : List (Except Error DeleteItem))
  | remove (paths : List Path)
  | removeVia (paths : List Path)

/-- The methods of `BlockingOperator`. -/
inductive BlockingOperatorDelete where
  | delete (path : Path) (args : OpDelete)
  | deleteIter (items : List DeleteItem)
  | deleteTryIter (items : List (Except Error DeleteItem))
  | remove (paths : List Path)
  | removeVia (paths : List Path)

/-- The paths of the items that are no errors. -/
def givenPaths (items : List (Except Error DeleteItem)) : List Path :=
  items.filterMap (fun item => item.toOption.map DeleteItem.given)

namespace OperatorDelete

variable {D : Type} [Delete D] (access : DeleteAccess D) (fuel : Nat)

def run : OperatorDelete → Except DeleteFailure Unit × List DeleteCall
  | .delete path args => access.deleteWith 0 path args
  | .deleteIter items => access.withDeleter fuel (Deleter.deleteIter items)
  | .deleteTryIter items =>
      access.withDeleter fuel (Deleter.deleteTryIter items)
  | .deleteStream items => access.withDeleter fuel (Deleter.deleteStream items)
  | .deleteTryStream items =>
      access.withDeleter fuel (Deleter.deleteItemTryStream items)
  | .remove paths =>
      access.withDeleter fuel (Deleter.deleteIter (paths.map .ofPath))
  | .removeVia paths =>
      access.withDeleter fuel
        (Deleter.deleteStream
          ((paths.map normalizePath).map .ofPath))

/-- The paths as they were given. -/
def given : OperatorDelete → List Path
  | .delete path _ => [path]
  | .deleteIter items => items.map DeleteItem.given
  | .deleteTryIter items => givenPaths items
  | .deleteStream items => items.map DeleteItem.given
  | .deleteTryStream items => givenPaths items
  | .remove paths => paths
  | .removeVia paths => paths

/-- Which of them call `normalize_path`. -/
def normalizes : OperatorDelete → Bool
  | .delete _ _ => true
  | .removeVia _ => true
  | _ => false

end OperatorDelete

namespace BlockingOperatorDelete

variable {D : Type} [Delete D] (access : DeleteAccess D) (fuel : Nat)

def run : BlockingOperatorDelete → Except DeleteFailure Unit × List DeleteCall
  | .delete path args => access.deleteWith 0 path args
  | .deleteIter items => access.withDeleter fuel (Deleter.deleteIter items)
  | .deleteTryIter items =>
      access.withDeleter fuel (Deleter.deleteTryIter items)
  | .remove paths =>
      access.withDeleter fuel (Deleter.deleteIter (paths.map .ofPath))
  | .removeVia paths => access.deleteEach 0 paths

def given : BlockingOperatorDelete → List Path
  | .delete path _ => [path]
  | .deleteIter items => items.map DeleteItem.given
  | .deleteTryIter items => givenPaths items
  | .remove paths => paths
  | .removeVia paths => paths

def normalizes : BlockingOperatorDelete → Bool
  | .delete _ _ => true
  | .removeVia _ => true
  | _ => false

end BlockingOperatorDelete

/-! ## What is handed over -/

/-- The path that a method hands over for one that it is given. -/
def route (normalizes : Bool) (path : Path) : Path :=
  if normalizes then normalizePath path else path

theorem handed_append (log more : List DeleteCall) :
    handed (log ++ more) = handed log ++ handed more := by
  induction log with
  | nil => rfl
  | cons call log induction =>
      cases call with
      | delete key => simp only [List.cons_append, handed, induction]
      | flush => simp only [List.cons_append, handed, induction]

namespace Deleter

variable {D : Type} [Delete D]

/-- What the deleter of the service has been given. -/
def paths (d : Deleter (Logged D)) : List Path :=
  handed d.deleter.log

theorem flush_paths {d later : Deleter (Logged D)}
    {result : Except Error Nat} (flushed : d.flush = some (result, later)) :
    later.paths = d.paths := by
  have logged : (Delete.flush d.deleter).2.log = d.deleter.log ++ [.flush] :=
    rfl
  have same : handed (d.deleter.log ++ [.flush]) = handed d.deleter.log := by
    rw [handed_append]
    exact List.append_nil _
  unfold flush at flushed
  rcases answer : Delete.flush d.deleter with ⟨_ | deleted, deleter⟩
  · rw [answer] at flushed logged
    cases flushed
    rw [paths, logged, same, paths]
  · rw [answer] at flushed logged
    simp only at flushed
    split at flushed
    · cases flushed
      rw [paths, logged, same, paths]
    · cases flushed

theorem push_paths (d : Deleter (Logged D)) (input : DeleteInput) :
    (d.push input).2.paths = d.paths ++ [input.path] := by
  have logged : (Delete.delete d.deleter input.path input.op).2.log =
      d.deleter.log ++ [.delete input.key] := rfl
  unfold push
  rcases answer : Delete.delete d.deleter input.path input.op with
    ⟨_ | accepted, deleter⟩
  · rw [answer] at logged
    rw [paths, logged, handed_append]
    rfl
  · rw [answer] at logged
    rw [paths, logged, handed_append]
    rfl

theorem delete_paths {d later : Deleter (Logged D)} {input : DeleteInput}
    {result : Except Error Unit}
    (deleted : d.delete input = some (result, later)) :
    ∃ more, later.paths = d.paths ++ more ∧ more <+: [input.path] ∧
      (result = .ok () → more = [input.path]) := by
  unfold delete at deleted
  split at deleted
  · rcases flushed : d.flush with _ | ⟨_ | count, middle⟩
    · rw [flushed] at deleted
      cases deleted
    · rw [flushed] at deleted
      cases deleted
      refine ⟨[], ?_, List.nil_prefix, ?_⟩
      · rw [flush_paths flushed, List.append_nil]
      · intro ended
        cases ended
    · rw [flushed] at deleted
      have pushed := Option.some.inj deleted
      refine ⟨[input.path], ?_, List.prefix_refl _, fun _ => rfl⟩
      rw [← flush_paths flushed, ← push_paths middle input, pushed]
  · have pushed := Option.some.inj deleted
    refine ⟨[input.path], ?_, List.prefix_refl _, fun _ => rfl⟩
    rw [← push_paths d input, pushed]

theorem close_paths {fuel : Nat} {d later : Deleter (Logged D)}
    {result : Except Error Unit}
    (closed : d.close fuel = some (result, later)) :
    later.paths = d.paths := by
  induction fuel generalizing d with
  | zero => cases closed
  | succ fuel induction =>
      unfold close at closed
      rcases flushed : d.flush with _ | ⟨_ | count, middle⟩
      · rw [flushed] at closed
        cases closed
      · rw [flushed] at closed
        cases closed
        exact flush_paths flushed
      · rw [flushed] at closed
        simp only at closed
        split at closed
        · cases closed
          exact flush_paths flushed
        · rw [induction closed, flush_paths flushed]

omit [Delete D] in
theorem program_emits {α : Type} {out : List Path}
    {call : Deleter (Logged D) → Option (Except Error α × Deleter (Logged D))}
    (hands : ∀ {d later result}, call d = some (result, later) →
      ∃ more, later.paths = d.paths ++ more ∧ more <+: out ∧
        ∀ value, result = .ok value → more = out) :
    Program.Emits paths out (program call) := by
  intro d
  unfold program
  rcases called : call d with _ | ⟨_ | value, later⟩
  · refine ⟨[], (List.append_nil _).symm, List.nil_prefix, ?_⟩
    intro value ended
    cases ended
  · obtain ⟨more, appended, shorter, -⟩ := hands called
    refine ⟨more, appended, shorter, ?_⟩
    intro value ended
    cases ended
  · obtain ⟨more, appended, shorter, whole⟩ := hands called
    exact ⟨more, appended, shorter, fun _ _ => whole value rfl⟩

theorem delete_emits (item : DeleteItem) :
    Program.Emits (paths (D := D)) [item.given]
      (program (fun d => d.delete item.intoDeleteInput)) := by
  apply program_emits
  intro d later result deleted
  rw [← item.intoDeleteInput_path]
  obtain ⟨more, appended, shorter, whole⟩ := delete_paths deleted
  exact ⟨more, appended, shorter, fun _ ended => whole ended⟩

theorem closeWithin_emits (fuel : Nat) :
    Program.Emits (paths (D := D)) [] (closeWithin fuel) := by
  apply program_emits
  intro d later result closed
  refine ⟨[], ?_, List.nil_prefix, fun _ _ => rfl⟩
  rw [close_paths closed, List.append_nil]

theorem deleteTryIter_emits (items : List (Except Error DeleteItem)) :
    Program.Emits (paths (D := D)) (givenPaths items)
      (deleteTryIter items) := by
  induction items with
  | nil => exact Program.emits_pure
  | cons item items induction =>
      cases item with
      | error err => exact Program.emits_fail
      | ok item => exact (delete_emits item).bind (fun _ => induction)

theorem deleteIter_emits (items : List DeleteItem) :
    Program.Emits (paths (D := D)) (items.map DeleteItem.given)
      (deleteIter items) := by
  have same : givenPaths (items.map .ok) = items.map DeleteItem.given := by
    rw [givenPaths, List.filterMap_map]
    exact congrFun List.filterMap_eq_map' items
  rw [← same]
  exact deleteTryIter_emits (items.map .ok)

theorem deletePaths_emits (given : List Path) :
    Program.Emits (paths (D := D)) given (deleteIter (given.map .ofPath)) := by
  have same : (given.map .ofPath).map DeleteItem.given = given := by
    rw [List.map_map]
    exact List.map_id given
  conv =>
    arg 2
    rw [← same]
  exact deleteIter_emits (given.map .ofPath)

end Deleter

/-! ## What the operators hand over -/

/-- The paths of the log are routed from the first of those that were given,
and from all of them if the method succeeds. -/
def Routes (normalizes : Bool) (given : List Path)
    (answer : Except DeleteFailure Unit × List DeleteCall) : Prop :=
  handed answer.2 <+: given.map (route normalizes) ∧
    (answer.1 = .ok () → handed answer.2 = given.map (route normalizes))

namespace DeleteAccess

variable {D : Type} [Delete D] (access : DeleteAccess D)

theorem withDeleter_routes {normalizes : Bool} {given : List Path} (fuel : Nat)
    {program : Program (Deleter (Logged D)) DeleteFailure Unit}
    (emits : Program.Emits Deleter.paths (given.map (route normalizes))
      program) :
    Routes normalizes given (access.withDeleter fuel program) := by
  unfold withDeleter
  split
  · refine ⟨List.nil_prefix, ?_⟩
    intro ended
    cases ended
  · next deleter created =>
      have whole := emits.bind
        (fun _ => Deleter.closeWithin_emits (D := D) fuel)
      rw [List.append_nil] at whole
      obtain ⟨more, appended, shorter, ends⟩ :=
        whole (Deleter.create ⟨deleter, []⟩ access.deleteMaxSize)
      have nothing : (Deleter.create (Logged.mk deleter [])
          access.deleteMaxSize).paths = [] := rfl
      rw [nothing, List.nil_append] at appended
      rw [← appended] at shorter
      refine ⟨shorter, ?_⟩
      intro ended
      exact appended.trans (ends () ended)

theorem deleteWith_routes (n : Nat) (path : Path) (args : OpDelete) :
    Routes true [path] (access.deleteWith n path args) := by
  unfold deleteWith
  split
  · refine ⟨List.nil_prefix, ?_⟩
    intro ended
    cases ended
  · next deleter created =>
      have whole : ([path].map (route true)) = [normalizePath path] := rfl
      have logged : (Delete.delete (Logged.mk deleter [])
          (normalizePath path) args).2.log =
          [.delete (normalizePath path, args)] := rfl
      dsimp only
      split
      · next err later deleted =>
          rw [deleted] at logged
          refine ⟨?_, ?_⟩
          · rw [whole, logged]
            exact List.prefix_refl _
          · intro ended
            cases ended
      · next later deleted =>
          rw [deleted] at logged
          have flushed : (Delete.flush later).2.log =
              [.delete (normalizePath path, args), .flush] := by
            have appended : (Delete.flush later).2.log = later.log ++ [.flush] :=
              rfl
            rw [appended, logged]
            rfl
          split
          · next err last answer =>
              rw [answer] at flushed
              refine ⟨?_, ?_⟩
              · rw [whole, flushed]
                exact List.prefix_refl _
              · intro ended
                cases ended
          · next count last answer =>
              rw [answer] at flushed
              refine ⟨?_, ?_⟩
              · rw [whole, flushed]
                exact List.prefix_refl _
              · intro _
                rw [whole, flushed]
                rfl

theorem deleteEach_routes (n : Nat) (paths : List Path) :
    Routes true paths (access.deleteEach n paths) := by
  induction paths generalizing n with
  | nil => exact ⟨List.prefix_refl _, fun _ => rfl⟩
  | cons path paths induction =>
      obtain ⟨shorter, ends⟩ := access.deleteWith_routes n path OpDelete.new
      unfold deleteEach
      split
      · next failure log answer =>
          rw [answer] at shorter
          refine ⟨?_, ?_⟩
          · exact shorter.trans (List.prefix_append _ _)
          · intro ended
            cases ended
      · next log answer =>
          rw [answer] at ends
          have first : handed log = [route true path] := ends rfl
          obtain ⟨later, rest⟩ := induction (n + 1)
          refine ⟨?_, ?_⟩
          · rw [handed_append, first, List.map_cons]
            exact List.prefix_append_right_inj [route true path] |>.mpr later
          · intro ended
            rw [handed_append, first, List.map_cons, rest ended]
            rfl

end DeleteAccess

theorem DeleteAccess.withDeleter_given {D : Type} [Delete D]
    (access : DeleteAccess D) {given : List Path} (fuel : Nat)
    {program : Program (Deleter (Logged D)) DeleteFailure Unit}
    (emits : Program.Emits Deleter.paths given program) :
    Routes false given (access.withDeleter fuel program) := by
  have same : given.map (route false) = given := List.map_id given
  apply access.withDeleter_routes
  rw [same]
  exact emits

theorem OperatorDelete.run_routes {D : Type} [Delete D]
    (access : DeleteAccess D) (fuel : Nat) (call : OperatorDelete) :
    Routes call.normalizes call.given (call.run access fuel) := by
  cases call with
  | delete path args => exact access.deleteWith_routes 0 path args
  | deleteIter items =>
      exact access.withDeleter_given fuel (Deleter.deleteIter_emits items)
  | deleteTryIter items =>
      exact access.withDeleter_given fuel (Deleter.deleteTryIter_emits items)
  | deleteStream items =>
      exact access.withDeleter_given fuel (Deleter.deleteIter_emits items)
  | deleteTryStream items =>
      exact access.withDeleter_given fuel (Deleter.deleteTryIter_emits items)
  | remove paths =>
      exact access.withDeleter_given fuel (Deleter.deletePaths_emits paths)
  | removeVia paths =>
      exact access.withDeleter_routes fuel
        (Deleter.deletePaths_emits (paths.map normalizePath))

theorem BlockingOperatorDelete.run_routes {D : Type} [Delete D]
    (access : DeleteAccess D) (fuel : Nat) (call : BlockingOperatorDelete) :
    Routes call.normalizes call.given (call.run access fuel) := by
  cases call with
  | delete path args => exact access.deleteWith_routes 0 path args
  | deleteIter items =>
      exact access.withDeleter_given fuel (Deleter.deleteIter_emits items)
  | deleteTryIter items =>
      exact access.withDeleter_given fuel (Deleter.deleteTryIter_emits items)
  | remove paths =>
      exact access.withDeleter_given fuel (Deleter.deletePaths_emits paths)
  | removeVia paths => exact access.deleteEach_routes 0 paths

/-! ## The sink -/

namespace FuturesDeleteSink

variable {D : Type} [Delete D]

/-- A poll after an item has been sent. -/
inductive PollCall where
  | ready (polled : Option Nat)
  | flush (polled : Option Nat)
  | close (polled : Option Nat)

def poll (sink : FuturesDeleteSink D) :
    PollCall → Option (FuturesDeleteSink D)
  | .ready polled => (sink.pollReady polled).map Prod.snd
  | .flush polled => (sink.pollFlush polled).map Prod.snd
  | .close polled => (sink.pollClose polled).map Prod.snd

/-- What the deleter has been given, also while a future owns it. -/
def paths (sink : FuturesDeleteSink (Logged D)) : List Path :=
  (sink.state.deleter.map Deleter.paths).getD []

/-- The item is waiting to be deleted, or its path has been handed over, or it
has been dropped. -/
structure Sent (base : List Path) (input : DeleteInput)
    (sink : FuturesDeleteSink (Logged D)) : Prop where
  owned : ∃ d, sink.state.deleter = some d
  appended : ∃ more, sink.paths = base ++ more ∧ more <+: [input.path]
  waiting : ∀ d other, sink.state = .delete d other →
    other = input ∧ d.paths = base

variable {base : List Path} {input : DeleteInput}
  {sink later : FuturesDeleteSink (Logged D)}

omit [Delete D] in
theorem Sent.of_deleter {d : Deleter (Logged D)} {more : List Path}
    (appended : d.paths = base ++ more) (shorter : more <+: [input.path])
    (state : DeleteSinkState (Logged D)) (owner : state.deleter = some d)
    (other : state.isDelete = false) :
    Sent base input ⟨state⟩ where
  owned := ⟨d, owner⟩
  appended := by
    refine ⟨more, ?_, shorter⟩
    rw [paths, owner]
    exact appended
  waiting := by
    intro deleter item same
    have isDelete : state.isDelete = true := by
      rw [show state = .delete deleter item from same]
      rfl
    rw [isDelete] at other
    cases other

theorem Sent.pollFuture (sent : Sent base input sink) {polled : Option Nat}
    {result : Except Error Unit} {d : Deleter (Logged D)}
    (ready : pollFuture polled sink.state = some (.ready (result, d))) :
    ∃ more, d.paths = base ++ more ∧ more <+: [input.path] := by
  obtain ⟨more, appended, shorter⟩ := sent.appended
  rcases state : sink.state with deleter | ⟨deleter, other⟩ | deleter | deleter
  all_goals cases polled with
  | none =>
      rw [state] at ready
      cases ready
  | some fuel => ?_
  · rw [state] at ready
    cases ready
  · obtain ⟨rfl, start⟩ := sent.waiting deleter other state
    rw [state] at ready
    obtain ⟨answer, deleted, same⟩ := Option.map_eq_some_iff.mp ready
    cases same
    obtain ⟨added, handed, only, -⟩ := Deleter.delete_paths deleted
    exact ⟨added, start ▸ handed, only⟩
  · rw [state] at ready
    obtain ⟨⟨answer, left⟩, flushed, same⟩ := Option.map_eq_some_iff.mp ready
    cases same
    have owner : sink.paths = deleter.paths := by
      rw [paths, state]
      rfl
    exact ⟨more, by rw [Deleter.flush_paths flushed, ← owner, appended],
      shorter⟩
  · rw [state] at ready
    obtain ⟨⟨answer, left⟩, closed, same⟩ := Option.map_eq_some_iff.mp ready
    cases same
    have owner : sink.paths = deleter.paths := by
      rw [paths, state]
      rfl
    exact ⟨more, by rw [Deleter.close_paths closed, ← owner, appended],
      shorter⟩

/-- Polling the future completes it and gives back the deleter. -/
theorem Sent.completed (sent : Sent base input sink) {polled : Option Nat}
    {result : Except Error Unit} {d : Deleter (Logged D)}
    (ready : FuturesDeleteSink.pollFuture polled sink.state =
      some (.ready (result, d)))
    (state : DeleteSinkState (Logged D)) (owner : state.deleter = some d)
    (other : state.isDelete = false) :
    Sent base input ⟨state⟩ := by
  obtain ⟨more, appended, shorter⟩ := sent.pollFuture ready
  exact .of_deleter appended shorter state owner other

theorem Sent.pollReady (sent : Sent base input sink) {polled : Option Nat}
    {answer : Poll (Except Error Unit)}
    (stepped : sink.pollReady polled = some (answer, later)) :
    Sent base input later := by
  unfold FuturesDeleteSink.pollReady at stepped
  split at stepped
  · cases stepped
    exact sent
  · split at stepped
    · cases stepped
    · cases stepped
      exact sent
    · next result d ready =>
        cases stepped
        exact sent.completed ready _ rfl rfl

/-- The future that is made owns the deleter and deletes nothing. -/
theorem Sent.drive {future : Deleter (Logged D) → DeleteSinkState (Logged D)}
    {own : DeleteSinkState (Logged D) → Bool}
    (owner : ∀ d, (future d).deleter = some d)
    (made : ∀ d, (future d).isDelete = false)
    (sent : Sent base input sink) {polled : Option Nat}
    {answer : Poll (Except Error Unit)}
    (stepped : FuturesDeleteSink.drive future own polled sink =
      some (answer, later)) :
    Sent base input later := by
  unfold FuturesDeleteSink.drive at stepped
  split at stepped
  · next deleter state =>
      obtain ⟨d, held⟩ := sent.owned
      have idle : deleter = some d := by
        rw [state] at held
        exact held
      obtain ⟨more, appended, shorter⟩ := sent.appended
      have whole : sink.paths = d.paths := by
        rw [paths, held]
        rfl
      rw [idle] at stepped
      cases stepped
      exact .of_deleter (whole ▸ appended) shorter _ (owner d) (made d)
  · split at stepped
    · cases stepped
    · cases stepped
      exact sent
    · next err d ready =>
        cases stepped
        exact sent.completed ready _ rfl rfl
    · next d ready =>
        split at stepped
        · cases stepped
          exact sent.completed ready _ rfl rfl
        · cases stepped
          exact sent.completed ready _ (owner d) (made d)

theorem Sent.poll (sent : Sent base input sink) {call : PollCall}
    (stepped : sink.poll call = some later) : Sent base input later := by
  cases call with
  | ready polled =>
      obtain ⟨⟨answer, next⟩, polls, rfl⟩ := Option.map_eq_some_iff.mp stepped
      exact sent.pollReady polls
  | flush polled =>
      obtain ⟨⟨answer, next⟩, polls, rfl⟩ := Option.map_eq_some_iff.mp stepped
      exact sent.drive (fun _ => rfl) (fun _ => rfl) polls
  | close polled =>
      obtain ⟨⟨answer, next⟩, polls, rfl⟩ := Option.map_eq_some_iff.mp stepped
      exact sent.drive (fun _ => rfl) (fun _ => rfl) polls

omit [Delete D] in
theorem Sent.start (sends : sink.startSend input = (.ok (), later)) :
    Sent sink.paths input later := by
  unfold startSend at sends
  split at sends
  · cases sends
  · next d state =>
      cases sends
      have whole : sink.paths = d.paths := by
        rw [paths, state]
        rfl
      constructor
      · exact ⟨d, rfl⟩
      · refine ⟨[], ?_, List.nil_prefix⟩
        rw [List.append_nil, whole]
        rfl
      · intro deleter other same
        cases same
        exact ⟨rfl, whole.symm⟩
  · cases sends

theorem sent_paths {sent : FuturesDeleteSink (Logged D)}
    (sends : sink.startSend input = (.ok (), sent)) {polls : List PollCall}
    (ran : Automaton.run poll sent polls = some later) :
    ∃ more, later.paths = sink.paths ++ more ∧ more <+: [input.path] :=
  (Automaton.run_invariant_of_forall (fun kept stepped => kept.poll stepped)
    (Sent.start sends) ran).appended

end FuturesDeleteSink

/-! ## One path, however it is deleted -/

/-- Each path that was handed over is the normal form of the one given in its
place if the method normalizes or there was nothing to normalize, and is not
otherwise. -/
def NormalizedExactly (normalizes : Bool) (given paths : List Path) : Prop :=
  ∀ (i : Nat) path, paths[i]? = some path →
    ∃ s, given[i]? = some s ∧
      (path = normalizePath s ↔ normalizes = true ∨ normalizePath s = s)

theorem normalizedExactly_of_starts {normalizes : Bool}
    {given paths : List Path}
    (shorter : paths <+: given.map (route normalizes)) :
    NormalizedExactly normalizes given paths := by
  intro i path found
  obtain ⟨rest, whole⟩ := shorter
  have inside : i < paths.length := by
    obtain ⟨bound, -⟩ := List.getElem?_eq_some_iff.mp found
    exact bound
  have routed : (given.map (route normalizes))[i]? = some path := by
    rw [← whole, List.getElem?_append_left inside]
    exact found
  rw [List.getElem?_map] at routed
  obtain ⟨s, there, rfl⟩ := Option.map_eq_some_iff.mp routed
  refine ⟨s, there, ?_⟩
  cases normalizes with
  | true =>
      constructor
      · intro _
        exact .inl rfl
      · intro _
        rfl
  | false =>
      constructor
      · intro same
        exact .inr same.symm
      · intro normal
        rcases normal with never | same
        · cases never
        · exact same.symm

theorem normalizedExactly_single {path : Path} {paths : List Path}
    (shorter : paths <+: [path]) : NormalizedExactly false [path] paths :=
  normalizedExactly_of_starts shorter

/-- Every way of deleting hands over the paths it is given, in order, and each
of them in its normal form exactly if the method normalizes or the path is
normal. -/
theorem deletion_paths_iff {D : Type} [Delete D] (access : DeleteAccess D)
    (fuel : Nat) :
    (∀ call : OperatorDelete,
      NormalizedExactly call.normalizes call.given
        (handed (call.run access fuel).2) ∧
      ((call.run access fuel).1 = .ok () →
        (handed (call.run access fuel).2).length = call.given.length)) ∧
    (∀ call : BlockingOperatorDelete,
      NormalizedExactly call.normalizes call.given
        (handed (call.run access fuel).2) ∧
      ((call.run access fuel).1 = .ok () →
        (handed (call.run access fuel).2).length = call.given.length)) ∧
    (∀ (d later : Deleter (Logged D)) (item : DeleteItem)
      (result : Except Error Unit),
      d.delete item.intoDeleteInput = some (result, later) →
      ∃ more, later.paths = d.paths ++ more ∧
        NormalizedExactly false [item.given] more ∧
        (result = .ok () → more.length = 1)) ∧
    (∀ (sink sent later : FuturesDeleteSink (Logged D)) (item : DeleteItem)
      (polls : List FuturesDeleteSink.PollCall),
      sink.startSend item.intoDeleteInput = (.ok (), sent) →
      Automaton.run FuturesDeleteSink.poll sent polls = some later →
      ∃ more, later.paths = sink.paths ++ more ∧
        NormalizedExactly false [item.given] more) := by
  refine ⟨?_, ?_, ?_, ?_⟩
  · intro call
    obtain ⟨shorter, ends⟩ := call.run_routes access fuel
    refine ⟨normalizedExactly_of_starts shorter, ?_⟩
    intro ended
    rw [ends ended, List.length_map]
  · intro call
    obtain ⟨shorter, ends⟩ := call.run_routes access fuel
    refine ⟨normalizedExactly_of_starts shorter, ?_⟩
    intro ended
    rw [ends ended, List.length_map]
  · intro d later item result deleted
    obtain ⟨more, appended, shorter, whole⟩ := Deleter.delete_paths deleted
    rw [item.intoDeleteInput_path] at shorter whole
    refine ⟨more, appended, normalizedExactly_single shorter, ?_⟩
    intro ended
    rw [whole ended]
    rfl
  · intro sink sent later item polls sends ran
    obtain ⟨more, appended, shorter⟩ := FuturesDeleteSink.sent_paths sends ran
    rw [item.intoDeleteInput_path] at shorter
    exact ⟨more, appended, normalizedExactly_single shorter⟩

/-- The deleter of an empty store, and what the operator hands to it. -/
def memoryAccess : DeleteAccess (OneShotDeleter MemoryStore) where
  delete := fun _ => .ok (OneShotDeleter.new ⟨[]⟩)
  deleteMaxSize := none

/-- `delete_iter` deletes `/a` where `delete` deletes `a`. -/
theorem deletion_paths_differ :
    ¬ ∀ (call : OperatorDelete) (i : Nat) (path : Path),
      (handed (call.run memoryAccess 1).2)[i]? = some path →
      ∃ s, call.given[i]? = some s ∧ path = normalizePath s := by
  intro all
  obtain ⟨s, given, same⟩ := all (.deleteIter [.ofPath ['/', 'a']]) 0
    ['/', 'a'] rfl
  have whole : s = ['/', 'a'] := (Option.some.inj given).symm
  rw [whole] at same
  exact absurd same (by decide)

end OpenDal
