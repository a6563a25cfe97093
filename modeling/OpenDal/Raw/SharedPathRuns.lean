import OpenDal.Raw.SharedPaths

/-!
# Caching does not change path resolution

Whatever tasks share the cacher and whatever is evicted, every call returns
what the uncached walk over the remote gives, and no directory is created next
to one with its name.  At most one call runs at a time, so what a suspended
call knows about the remote is still true when it goes on; the cache never
holds anything but what its paths lead to, and this stays true when the remote
grows.
-/

namespace OpenDal

open Path

variable {ι : Type} [DecidableEq ι] {tree : RemoteTree ι}
  {cache : Path → Option ι}

/-- The cache holds nothing but what its paths lead to. -/
def RemoteTree.Caches (tree : RemoteTree ι) (cache : Path → Option ι) : Prop :=
  ∀ key id, cache key = some id → tree.walk key.names = some id

theorem RemoteTree.Caches.insert {key : Path} {id : ι}
    (caches : tree.Caches cache) (leads : tree.walk key.names = some id) :
    tree.Caches (Function.update cache key (some id)) := by
  intro other found hit
  by_cases same : other = key
  · rw [same, Function.update_self] at hit
    cases hit
    rw [same]
    exact leads
  · rw [Function.update_of_ne same] at hit
    exact caches other found hit

theorem RemoteTree.Caches.createDir {parent new : ι} {name : Path}
    (caches : tree.Caches cache) :
    (tree.createDir parent name new).Caches cache := by
  intro key id hit
  exact walk_createDir (caches key id hit)

theorem RemoteTree.Caches.evict (caches : tree.Caches cache)
    (keys : List Path) :
    tree.Caches fun key => if keys.contains key then none else cache key := by
  intro key id hit
  simp only [Option.ite_none_left_eq_some] at hit
  exact caches key id hit.2

namespace PathCall

/-- What the uncached walk gives for the call. -/
def Exact (tree : RemoteTree ι) : PathCall → Option ι → Prop
  | .get path, result => result = tree.walk path.names
  | .ensureDir path, result =>
      result = tree.walk (PathCacher.ensuredDir path).names ∧
        result.isSome = true

/-- The path of the call is normalized; `ensure_dir` takes any path apart. -/
def Normalized : PathCall → Prop
  | .get path => IsPath path ∨ path = ['/']
  | .ensureDir _ => True

/-- What a suspended call knows about the way it still has to go. -/
def Ready (tree : RemoteTree ι) : PathCall → PathAwait ι → Prop
  | .get path, .getRoot paths =>
      ∃ last, PathCacher.Chain [] paths last ∧ last.names = path.names
  | .get path, .getQuery id next rest =>
      ∃ dir last, PathCacher.Chain dir (next :: rest) last ∧
        last.names = path.names ∧ tree.walk dir.names = some id
  | .ensureDir path, .ensureRoot parents =>
      PathCacher.Chain [] parents (PathCacher.ensuredDir path)
  | .ensureDir path, .ensureQuery id next rest =>
      ∃ dir, PathCacher.Chain dir (next :: rest)
          (PathCacher.ensuredDir path) ∧
        tree.walk dir.names = some id
  | .ensureDir path, .ensureCreate id next rest =>
      ∃ dir, PathCacher.Chain dir (next :: rest)
          (PathCacher.ensuredDir path) ∧
        tree.walk dir.names = some id ∧
        tree.query id (getBasename next) = none
  | _, _ => False

/-- What a call leaves behind where it stops. -/
def Settled (tree : RemoteTree ι) (call : PathCall) : PathOutcome ι → Prop
  | .awaits request => call.Ready tree request
  | .returned result => call.Exact tree result

/-! ## How far a call comes -/

/-- The first step of a way down asks for the next name. -/
theorem walk_step {dir next last : Path} {rest : List Path} {id : ι}
    (chain : PathCacher.Chain dir (next :: rest) last)
    (leads : tree.walk dir.names = some id) :
    PathCacher.Chain next rest last ∧
      tree.walk next.names = tree.query id (getBasename next) := by
  cases chain with
  | @step _ name _ _ isDir isName later =>
      refine ⟨later, ?_⟩
      rw [getBasename_append isDir isName, names_append isDir isName]
      exact RemoteTree.walk_concat leads name

theorem queryDown_settled {dir last path : Path} {paths : List Path} {id : ι}
    (chain : PathCacher.Chain dir paths last)
    (ends : last.names = path.names)
    (leads : tree.walk dir.names = some id) :
    Settled tree (.get path) (queryDown id paths) := by
  cases paths with
  | nil =>
      cases chain
      show some id = tree.walk path.names
      rw [← ends, leads]
  | cons next rest => exact ⟨dir, last, chain, ends, leads⟩

theorem ensureDown_settled {dir path : Path} {parents : List Path} {id : ι}
    (caches : tree.Caches cache)
    (chain : PathCacher.Chain dir parents (PathCacher.ensuredDir path))
    (leads : tree.walk dir.names = some id) :
    Settled tree (.ensureDir path) (ensureDown cache id parents) := by
  induction parents generalizing dir id with
  | nil =>
      cases chain
      exact ⟨leads.symm, rfl⟩
  | cons next rest induction =>
      unfold ensureDown
      cases hit : cache next with
      | none => exact ⟨dir, chain, leads⟩
      | some value =>
          obtain ⟨later, _⟩ := walk_step chain leads
          exact induction later (caches next value hit)

theorem parents_chain (path : Path) :
    PathCacher.Chain [] (PathCacher.parents [] (components path))
      (PathCacher.ensuredDir path) := by
  apply PathCacher.parents_spec .root
  intro segment member
  exact isSegment_of_mem_components member

theorem begin_settled {call : PathCall} (normalized : call.Normalized)
    (caches : tree.Caches cache) :
    call.Settled tree (call.begin cache) := by
  cases call with
  | get path =>
      cases hit : cache path with
      | some id =>
          simp only [begin, hit]
          exact (caches path id hit).symm
      | none =>
          obtain ⟨dir, last, isDir, ends, chain, reason⟩ :=
            PathCacher.climb_spec_path normalized cache
          simp only [begin, hit]
          generalize PathCacher.climb cache (path.length + 1) path [] = climbed
            at chain reason ⊢
          obtain ⟨found, paths⟩ := climbed
          cases found with
          | some id =>
              have leads := caches _ id reason
              rw [names_dirKey isDir] at leads
              exact queryDown_settled chain ends leads
          | none =>
              have root : dir = [] := reason
              subst root
              exact ⟨last, chain, ends⟩
  | ensureDir path =>
      cases hit : cache ['/'] with
      | none =>
          simp only [begin, hit]
          exact parents_chain path
      | some id =>
          simp only [begin, hit]
          exact ensureDown_settled caches (parents_chain path)
            (caches ['/'] id hit)

theorem answered_settled {call : PathCall} {request : PathAwait ι}
    {after : Path → Option ι} {outcome : PathOutcome ι}
    (caches : tree.Caches cache) (ready : call.Ready tree request)
    (resumed : answered tree cache request = some (after, outcome)) :
    tree.Caches after ∧ call.Settled tree outcome := by
  cases request with
  | getRoot paths =>
      cases call with
      | ensureDir path => exact ready.elim
      | get path =>
          obtain ⟨last, chain, ends⟩ := ready
          cases resumed
          have leads : tree.walk (names []) = some tree.root :=
            RemoteTree.walk_nil tree
          exact ⟨caches.insert leads, queryDown_settled chain ends leads⟩
  | getQuery id next rest =>
      cases call with
      | ensureDir path => exact ready.elim
      | get path =>
          obtain ⟨dir, last, chain, ends, leads⟩ := ready
          obtain ⟨later, asks⟩ := walk_step chain leads
          cases found : tree.query id (getBasename next) with
          | some child =>
              rw [found] at asks
              simp only [answered, found] at resumed
              cases resumed
              exact ⟨caches.insert asks, queryDown_settled later ends asks⟩
          | none =>
              rw [found] at asks
              simp only [answered, found] at resumed
              cases resumed
              refine ⟨caches, ?_⟩
              show none = tree.walk path.names
              rw [← ends]
              exact (RemoteTree.walk_of_isPrefix asks later.names_prefix).symm
  | ensureRoot parents =>
      cases call with
      | get path => exact ready.elim
      | ensureDir path =>
          cases resumed
          exact ⟨caches, ensureDown_settled caches ready
            (RemoteTree.walk_nil tree)⟩
  | ensureQuery id next rest =>
      cases call with
      | get path => exact ready.elim
      | ensureDir path =>
          obtain ⟨dir, chain, leads⟩ := ready
          obtain ⟨later, asks⟩ := walk_step chain leads
          cases found : tree.query id (getBasename next) with
          | some child =>
              rw [found] at asks
              simp only [answered, found] at resumed
              cases resumed
              have kept := caches.insert asks
              exact ⟨kept, ensureDown_settled kept later asks⟩
          | none =>
              simp only [answered, found] at resumed
              cases resumed
              exact ⟨caches, dir, chain, leads, found⟩
  | ensureCreate id next rest => cases resumed

theorem created_settled {path next : Path} {rest : List Path} {id new : ι}
    (caches : tree.Caches cache)
    (ready : (ensureDir path).Ready tree (.ensureCreate id next rest)) :
    let grown := tree.createDir id (getBasename next) new
    let after := Function.update cache next (some new)
    grown.Caches after ∧
      (ensureDir path).Settled grown (ensureDown after new rest) := by
  intro grown after
  obtain ⟨dir, chain, leads, missing⟩ := ready
  have still : grown.walk dir.names = some id :=
    RemoteTree.walk_createDir leads
  obtain ⟨later, asks⟩ := walk_step chain still
  rw [RemoteTree.query_created missing new] at asks
  have kept : grown.Caches after :=
    RemoteTree.Caches.insert caches.createDir asks
  exact ⟨kept, ensureDown_settled kept later asks⟩

end PathCall

namespace SharedPaths

omit [DecidableEq ι] in
/-- A task that does not do what has been noted for `task` is another one, and
does what it did before. -/
theorem of_update {tasks : Nat → PathTask ι} {task other : Nat}
    {entry value : PathTask ι} (different : entry ≠ value)
    (found : Function.update tasks task entry other = value) :
    other ≠ task ∧ tasks other = value := by
  by_cases same : other = task
  · rw [same, Function.update_self] at found
    exact absurd found different
  · rw [Function.update_of_ne same] at found
    exact ⟨same, found⟩

/-- What every reachable state satisfies. -/
structure Invariant (state : SharedPaths ι) : Prop where
  distinct : state.tree.Distinct
  caches : state.tree.Caches state.cache
  normalized : ∀ task call, state.tasks task = .locking call →
    call.Normalized
  ready : ∀ task call request, state.tasks task = .running call request →
    call.Ready state.tree request
  single : ∀ task other call otherCall request otherRequest,
    state.tasks task = .running call request →
    state.tasks other = .running otherCall otherRequest → task = other
  held : state.withLock = true → ∀ task call request,
    state.tasks task = .running call request → state.holder = some task
  exact : ∀ returned ∈ state.returned,
    returned.call.Exact returned.tree returned.result

theorem invariant_start {withLock : Bool} (distinct : tree.Distinct) :
    (start withLock tree).Invariant := by
  constructor
  · exact distinct
  · intro key id hit
    cases hit
  · intro task call locking
    cases locking
  · intro task call request running
    cases running
  · intro task other call otherCall request otherRequest running
    cases running
  · intro _ task call request running
    cases running
  · intro returned member
    cases member

theorem Invariant.settle {state : SharedPaths ι} {task : Nat}
    {call : PathCall} {outcome : PathOutcome ι}
    (distinct : state.tree.Distinct)
    (caches : state.tree.Caches state.cache)
    (normalized : ∀ other waiting, state.tasks other = .locking waiting →
      waiting.Normalized)
    (alone : ∀ other running request,
      state.tasks other = .running running request → other = task)
    (held : state.withLock = true → state.holder = some task)
    (exact : ∀ returned ∈ state.returned,
      returned.call.Exact returned.tree returned.result)
    (settled : call.Settled state.tree outcome) :
    (state.settle task call outcome).Invariant := by
  have waiting : ∀ {entry : PathTask ι} {other held},
      (∀ call, entry ≠ .locking call) →
      Function.update state.tasks task entry other = .locking held →
      held.Normalized := by
    intro entry other held different locking
    exact normalized other held (of_update (different held) locking).2
  cases outcome with
  | awaits request =>
      -- the only call that is running is the one that has come to a stop
      have only : ∀ other running asked,
          Function.update state.tasks task (.running call request) other =
            .running running asked → other = task := by
        intro other running asked found
        by_contra different
        rw [Function.update_of_ne different] at found
        exact different (alone other running asked found)
      constructor
      · exact distinct
      · exact caches
      · intro other held locking
        exact waiting (by simp) locking
      · intro other running asked found
        have same := only other running asked found
        have entry : Function.update state.tasks task
            (.running call request) other = .running running asked := found
        rw [same, Function.update_self] at entry
        cases entry
        exact settled
      · intro one other running otherRunning asked otherAsked first second
        exact (only one running asked first).trans
          (only other otherRunning otherAsked second).symm
      · intro locks other running asked found
        rw [only other running asked found]
        exact held locks
      · exact exact
  | returned result =>
      have none : ∀ other running asked,
          Function.update state.tasks task .idle other ≠
            .running running asked := by
        intro other running asked found
        obtain ⟨different, before⟩ := of_update (by simp) found
        exact different (alone other running asked before)
      constructor
      · exact distinct
      · exact caches
      · intro other held locking
        exact waiting (by simp) locking
      · intro other running asked found
        exact absurd found (none other running asked)
      · intro one other running otherRunning asked otherAsked first
        exact absurd first (none one running asked)
      · intro _ other running asked found
        exact absurd found (none other running asked)
      · intro record member
        rcases List.mem_append.mp member with earlier | new
        · exact exact record earlier
        · rw [List.mem_singleton] at new
          subst new
          exact settled

/-! ## One event -/

variable {state next : SharedPaths ι}

theorem Invariant.call {task : Nat} {call : PathCall}
    (invariant : state.Invariant) (normalized : call.Normalized)
    (stepped : step state (.call task call) = some next) :
    next.Invariant := by
  simp only [step] at stepped
  split at stepped
  · cases stepped
    have running : ∀ other held request,
        Function.update state.tasks task (.locking call) other =
          .running held request → state.tasks other = .running held request :=
      fun other held request found =>
        (of_update (by simp) found).2
    constructor
    · exact invariant.distinct
    · exact invariant.caches
    · intro other waiting locking
      by_cases same : call = waiting
      · exact same ▸ normalized
      · have different : (.locking call : PathTask ι) ≠ .locking waiting :=
          fun equal => same (PathTask.locking.inj equal)
        exact invariant.normalized other waiting
          (of_update different locking).2
    · intro other held request found
      exact invariant.ready other held request (running _ _ _ found)
    · intro one other held otherHeld request otherRequest first second
      exact invariant.single one other held otherHeld request otherRequest
        (running _ _ _ first) (running _ _ _ second)
    · intro locks other held request found
      exact invariant.held locks other held request (running _ _ _ found)
    · exact invariant.exact
  · cases stepped

theorem Invariant.none_running {task : Nat} (invariant : state.Invariant)
    (admissible : Admissible state (.lock task))
    (free : ¬ (state.withLock = true ∧ state.holder.isSome = true)) :
    ∀ other call request, state.tasks other ≠ .running call request := by
  intro other call request running
  rcases admissible with locks | alone
  · apply free
    rw [invariant.held locks other call request running]
    exact ⟨locks, rfl⟩
  · exact alone other call request running

theorem Invariant.lock {task : Nat} (invariant : state.Invariant)
    (admissible : Admissible state (.lock task))
    (stepped : step state (.lock task) = some next) : next.Invariant := by
  simp only [step] at stepped
  split at stepped
  · rename_i call locking
    split at stepped
    · cases stepped
    · rename_i free
      cases stepped
      have none := invariant.none_running admissible free
      apply Invariant.settle
      · exact invariant.distinct
      · exact invariant.caches
      · exact invariant.normalized
      · intro other running request found
        exact absurd found (none other running request)
      · intro locks
        exact if_pos locks
      · exact invariant.exact
      · exact PathCall.begin_settled
          (invariant.normalized task call locking) invariant.caches
  · cases stepped

/-- The one call that is running comes to its next stop. -/
theorem Invariant.resumed {task : Nat} {call : PathCall}
    {request : PathAwait ι} {grown : RemoteTree ι}
    {after : Path → Option ι} {outcome : PathOutcome ι}
    (invariant : state.Invariant)
    (running : state.tasks task = .running call request)
    (distinct : grown.Distinct) (caches : grown.Caches after)
    (settled : call.Settled grown outcome) :
    ({ state with tree := grown, cache := after }.settle task call
      outcome).Invariant := by
  apply Invariant.settle
  · exact distinct
  · exact caches
  · exact invariant.normalized
  · intro other held asked found
    exact invariant.single other task held call asked request found running
  · intro locks
    exact invariant.held locks task call request running
  · exact invariant.exact
  · exact settled

theorem Invariant.answer {task : Nat} (invariant : state.Invariant)
    (stepped : step state (.answer task) = some next) : next.Invariant := by
  simp only [step] at stepped
  split at stepped
  · rename_i call request running
    obtain ⟨⟨after, outcome⟩, resumed, ended⟩ :=
      Option.bind_eq_some_iff.mp stepped
    cases ended
    obtain ⟨caches, settled⟩ := PathCall.answered_settled invariant.caches
      (invariant.ready task call request running) resumed
    exact invariant.resumed running invariant.distinct caches settled
  · cases stepped

/-- Only a call that has found the name missing creates a directory. -/
theorem Invariant.missing {task : Nat} {call : PathCall} {id : ι}
    {parent : Path} {rest : List Path} (invariant : state.Invariant)
    (running : state.tasks task =
      .running call (.ensureCreate id parent rest)) :
    state.tree.query id (getBasename parent) = none := by
  have ready := invariant.ready task call _ running
  cases call with
  | get path => exact ready.elim
  | ensureDir path =>
      obtain ⟨dir, _, _, missing⟩ := ready
      exact missing

theorem Invariant.created {task : Nat} {id : ι} (invariant : state.Invariant)
    (stepped : step state (.created task id) = some next) :
    next.Invariant := by
  simp only [step] at stepped
  split at stepped
  · rename_i call parentId parent rest running
    cases stepped
    have missing := invariant.missing running
    have ready := invariant.ready task call _ running
    cases call with
    | get path => exact ready.elim
    | ensureDir path =>
        obtain ⟨caches, settled⟩ :=
          PathCall.created_settled invariant.caches ready
        exact invariant.resumed running
          (RemoteTree.distinct_createDir invariant.distinct missing id)
          caches settled
  · cases stepped

theorem Invariant.failed {task : Nat} {created : Option ι}
    (invariant : state.Invariant)
    (stepped : step state (.failed task created) = some next) :
    next.Invariant := by
  simp only [step] at stepped
  split at stepped
  · rename_i call request running
    have kept : ∀ grown : RemoteTree ι, grown.Distinct →
        grown.Caches state.cache →
        SharedPaths.Invariant { state with
          tree := grown
          holder := none
          tasks := Function.update state.tasks task .idle } := by
      intro grown distinct caches
      have none : ∀ other held asked,
          Function.update state.tasks task .idle other ≠
            .running held asked := by
        intro other held asked found
        obtain ⟨different, before⟩ := of_update (by simp) found
        exact different (invariant.single other task held call asked request
          before running)
      constructor
      · exact distinct
      · exact caches
      · intro other waiting locking
        exact invariant.normalized other waiting
          (of_update (by simp) locking).2
      · intro other held asked found
        exact absurd found (none other held asked)
      · intro one other held otherHeld asked otherAsked found
        exact absurd found (none one held asked)
      · intro _ other held asked found
        exact absurd found (none other held asked)
      · exact invariant.exact
    cases stepped
    split
    · exact kept _ (RemoteTree.distinct_createDir invariant.distinct
        (invariant.missing running) _) invariant.caches.createDir
    · exact kept _ invariant.distinct invariant.caches
  · cases stepped

theorem Invariant.evict {keys : List Path} (invariant : state.Invariant)
    (stepped : step state (.evict keys) = some next) : next.Invariant := by
  cases stepped
  constructor
  · exact invariant.distinct
  · exact invariant.caches.evict keys
  · exact invariant.normalized
  · exact invariant.ready
  · exact invariant.single
  · exact invariant.held
  · exact invariant.exact

theorem Invariant.step {event : PathEvent ι} (invariant : state.Invariant)
    (admissible : Admissible state event)
    (stepped : SharedPaths.step state event = some next) :
    next.Invariant := by
  cases event with
  | call task call =>
      apply invariant.call _ stepped
      cases call with
      | get path => exact admissible
      | ensureDir path => trivial
  | lock task => exact invariant.lock admissible stepped
  | answer task => exact invariant.answer stepped
  | created task id => exact invariant.created stepped
  | failed task created => exact invariant.failed stepped
  | evict keys => exact invariant.evict stepped

/-! ## Runs -/

/-- Two tasks make the same directory; the second one waits for the lock, and
what the first one has cached is evicted meanwhile. -/
def sharedDirectory : List (PathEvent Nat) :=
  [.call 0 (.ensureDir ['a', '/']), .call 1 (.ensureDir ['a', '/']), .lock 0,
    .answer 0, .answer 0, .created 0 7, .evict [['a', '/']], .lock 1,
    .answer 1, .answer 1]

end SharedPaths

end OpenDal
