import OpenDal.Raw.CachedPaths

/-!
# What a lookup leaves in the cache

A lookup sends a query for each name on its way and stores the answers.  What
each of these steps keeps, the lookup keeps, so an entry that is not evicted
stays, and an entry that is not on the way does not come back.

A lookup reads no entries but those of the directories on its way, and two
caches that agree on these give the same answer.
-/

namespace OpenDal

open Path Program

namespace PathCacher

variable {σ τ ε ι α : Type} {query : PathQuery σ ε ι} {names : List Path}
  {cacher : PathCacher σ ι} {dir name key path : Path} {paths : List Path}

/-! ## Assertions that a lookup keeps -/

/-- Each step of a lookup of `names` keeps the assertion, or fails where
`fails` holds. -/
structure Keeps (query : PathQuery σ ε ι) (names : List Path)
    (holds fails : PathCacher σ ι → Prop) : Prop where
  root : ∀ {cacher}, holds cacher →
    Ensures (await query.root) (fun _ => holds) fails cacher
  asked : ∀ {cacher} id {name}, name ∈ names → holds cacher →
    Ensures (await (query.query id name)) (fun _ => holds) fails cacher
  stored : ∀ {cacher key} id, key.names <+: names → holds cacher →
    holds (cacher.stored key id)
  noted : ∀ {cacher} served, holds cacher → holds { cacher with served }

section Keeps

variable {holds fails : PathCacher σ ι → Prop}

theorem Keeps.queryDown (keeps : Keeps query path.names holds fails)
    (chain : Chain dir paths path) (id : ι) (start : holds cacher) :
    Ensures (queryDown query id paths) (fun _ => holds) fails cacher := by
  induction chain generalizing id cacher with
  | done => exact start
  | @step dir name path rest isDir isName later induction =>
      have member := Chain.name_mem isDir isName later
      have asked := keeps.asked id member start
      rw [PathCacher.queryDown, getBasename_append isDir isName]
      apply asked.bind
      · intro found after kept
        cases found with
        | none => exact kept
        | some id =>
            have stored := keeps.stored id later.names_prefix kept
            exact induction keeps id stored
      · intro after failed
        exact failed

theorem Keeps.search (keeps : Keeps query path.names holds fails)
    (isPath : IsPath path ∨ path = ['/']) (start : holds cacher) :
    Ensures (search query path) (fun _ => holds) fails cacher := by
  obtain ⟨first, last, _, same, chain, _⟩ :=
    climb_spec_path isPath cacher.cache
  rw [← same] at keeps
  simp only [PathCacher.search, ensures_bind, ensures_gets]
  generalize climb cacher.cache (path.length + 1) path [] = climbed
    at chain ⊢
  obtain ⟨found, paths⟩ := climbed
  cases found with
  | some id => exact keeps.queryDown chain id start
  | none =>
      apply (keeps.root start).bind
      · intro id after kept
        have stored : holds (after.stored ['/'] id) :=
          keeps.stored id List.nil_prefix kept
        exact keeps.queryDown chain id stored
      · intro after failed
        exact failed

theorem Keeps.get (keeps : Keeps query path.names holds fails)
    (isPath : IsPath path ∨ path = ['/']) (start : holds cacher) :
    Ensures (get query path) (fun _ => holds) fails cacher := by
  simp only [PathCacher.get, ensures_bind, ensures_cached]
  cases hit : cacher.cache path with
  | some id => exact keeps.noted _ start
  | none =>
      apply (keeps.search isPath start).bind
      · intro found after kept
        exact keeps.noted _ kept
      · intro after failed
        exact failed

end Keeps

theorem get_of_cached {id : ι} (hit : cacher.cache path = some id) :
    get query path cacher = (.ok (some id),
      { cacher with
        served := ⟨path, some id, cacher.service⟩ :: cacher.served }) := by
  have read : (cached path : Program (PathCacher σ ι) ε (Option ι)) cacher =
      (.ok (some id), cacher) := by
    rw [← hit]
    rfl
  unfold PathCacher.get
  rw [bind_ok read]
  rfl

/-- What holds after every answer holds after a request. -/
theorem ensures_await_of {request : Program σ ε α}
    {holds : PathCacher σ ι → Prop}
    (always : ∀ s, holds (cacher.answered s)) :
    Ensures (await request) (fun _ => holds) holds cacher := by
  rw [ensures_await]
  unfold Ensures
  rcases request cacher.service with ⟨result, s⟩
  cases result with
  | ok value => exact always s
  | error e => exact always s

theorem cache_answered_eq (s : σ) : (cacher.answered s).cache key =
    if (cacher.evictions.headD []).contains key then none
    else cacher.cache key :=
  rfl

/-- The key is cached and is not about to be evicted. -/
structure Held (key : Path) (cacher : PathCacher σ ι) : Prop where
  cached : (cacher.cache key).isSome
  spared : ∀ keys ∈ cacher.evictions, key ∉ keys

theorem Held.answered (held : Held key cacher) (s : σ) :
    Held key (cacher.answered s) := by
  obtain ⟨cached, spared⟩ := held
  have kept : ¬ (cacher.evictions.headD []).contains key = true := by
    rw [List.contains_iff_mem]
    cases evictions : cacher.evictions with
    | nil => simp
    | cons keys rest => exact spared keys (by simp [evictions])
  constructor
  · rw [cache_answered_eq, if_neg kept]
    exact cached
  · intro keys member
    exact spared keys (List.mem_of_mem_tail member)

theorem cache_stored_of_ne {other : Path} {id : ι} (different : other ≠ key) :
    (cacher.stored key id).cache other = cacher.cache other := by
  simp [stored, different]

theorem keeps_held : Keeps query names (Held key) (Held key) where
  root held := ensures_await_of held.answered
  asked _ _ _ held := ensures_await_of held.answered
  stored := by
    intro cacher other id onTheWay held
    refine ⟨?_, held.spared⟩
    by_cases same : key = other
    · simp [stored, same]
    · rw [cache_stored_of_ne same]
      exact held.cached
  noted _ held := ⟨held.cached, held.spared⟩

theorem keeps_still : Keeps query names
    (fun cacher => cacher.evictions = []) (fun cacher => cacher.evictions = [])
    where
  root still := ensures_await_of fun _ => congrArg List.tail still
  asked _ _ _ still := ensures_await_of fun _ => congrArg List.tail still
  stored _ _ still := still
  noted _ still := still

/-- The key is not cached, or the next request will change that. -/
def Gone (key : Path) (cacher : PathCacher σ ι) : Prop :=
  cacher.cache key = none ∨ key ∈ cacher.evictions.headD []

theorem Gone.uncached (gone : Gone key cacher) (s : σ) :
    (cacher.answered s).cache key = none := by
  rw [cache_answered_eq]
  rcases gone with free | next
  · rw [free, ite_self]
  · rw [if_pos (List.contains_iff_mem.mpr next)]

theorem keeps_gone (outside : ¬ key.names <+: names) :
    Keeps query names (Gone key) (Gone key) where
  root gone := ensures_await_of fun s => .inl (gone.uncached s)
  asked _ _ _ gone := ensures_await_of fun s => .inl (gone.uncached s)
  stored := by
    intro cacher other id onTheWay gone
    have different : key ≠ other := by
      intro same
      subst same
      exact outside onTheWay
    rcases gone with free | next
    · exact .inl ((cache_stored_of_ne different).trans free)
    · exact .inr next
  noted _ gone := gone

/-! ## Where the way up ends -/

theorem Chain.mem (chain : Chain dir paths path)
    (longer : dir.names.length < key.names.length)
    (onTheWay : key.names <+: path.names) : key ∈ paths := by
  induction chain with
  | done =>
      have shorter := onTheWay.length_le
      omega
  | @step dir name path rest isDir isName later induction =>
      have length := congrArg List.length (names_append isDir isName)
      rw [List.length_append, List.length_singleton] at length
      rcases Nat.lt_or_ge (dir ++ name).names.length key.names.length with
        further | here
      · exact List.mem_cons_of_mem _ (induction further onTheWay)
      · have shorter := List.prefix_of_prefix_length_le onTheWay
          later.names_prefix here
        have same := shorter.eq_of_length_le (by omega)
        rw [eq_of_names_eq isDir isName same]
        exact List.mem_cons_self

variable {cache : Path → Option ι} {fuel : Nat} {id : ι}

theorem uncached_of_mem_climb
    (member : key ∈ (climb cache fuel path paths).2) :
    key ∈ paths ∨ key = path ∨ cache key = none := by
  induction fuel generalizing path paths with
  | zero => exact .inl member
  | succ fuel induction =>
      have passed : ∀ {other}, key ∈ path :: paths ∨ other →
          key ∈ paths ∨ key = path ∨ other := by
        intro other given
        rcases given with added | further
        · rcases List.mem_cons.mp added with same | earlier
          · exact .inr (.inl same)
          · exact .inl earlier
        · exact .inr (.inr further)
      unfold climb at member
      split at member
      · exact .inl member
      · cases hit : cache path.getParent with
        | some id =>
            simp only [hit] at member
            exact passed (.inl member)
        | none =>
            simp only [hit] at member
            rcases induction member with earlier | same | free
            · exact passed (.inl earlier)
            · exact passed (.inr (same ▸ hit))
            · exact passed (.inr free)

theorem root_uncached_of_climb (isPath : IsPath path) (filled : path ≠ [])
    (enough : path.length < fuel)
    (passed : (climb cache fuel path paths).1 = none) :
    cache ['/'] = none := by
  induction fuel generalizing path paths with
  | zero => omega
  | succ fuel induction =>
      cases isPath with
      | root => exact absurd rfl filled
      | @entry dir name isDir isName =>
          have inner := append_name_ne_slash isDir isName
          simp only [climb, inner, filled, or_self, if_false,
            getParent_append isDir isName] at passed
          cases hit : cache (dirKey dir) with
          | some id =>
              rw [hit] at passed
              cases passed
          | none =>
              rw [hit] at passed
              by_cases empty : dir = []
              · subst empty
                exact hit
              · have positive := List.length_pos_iff.mpr isName.ne_nil
                rw [List.length_append] at enough
                rw [dirKey_of_ne_nil empty] at passed
                exact induction isDir.isPath empty (by omega) passed

theorem IsDir.eq_of_names_eq {other : Path} (isDir : IsDir dir)
    (isOther : IsDir other) (same : dir.names = other.names) :
    dir = other := by
  rw [← flatten_names isDir.ne_slash, same, flatten_names isOther.ne_slash]

/-- The way up ends at a cached directory if nothing further down on the way
is cached. -/
theorem climb_eq (isDir : IsDir dir) (isName : IsName name)
    (hit : cache (dirKey dir) = some id) (isPath : IsPath path)
    (onTheWay : (dir ++ name).names <+: path.names)
    (free : ∀ key, (dir ++ name).names <+: key.names → cache key = none) :
    ∃ rest, climb cache (path.length + 1) path [] =
      (some id, (dir ++ name) :: rest) := by
  have length := congrArg List.length (names_append isDir isName)
  rw [List.length_append, List.length_singleton] at length
  have bound := onTheWay.length_le
  have filled : path ≠ [] := by
    intro empty
    rw [empty, show Path.names [] = [] from rfl, List.length_nil] at bound
    omega
  obtain ⟨start, last, isStart, same, chain, reason⟩ :=
    climb_spec_path (.inl isPath) cache
  have above := (isDir_prefix_names isDir isName).trans onTheWay
  rw [← same] at onTheWay above
  have passedAll : ∀ key ∈ (climb cache (path.length + 1) path []).2,
      cache key = none := by
    intro key member
    rcases uncached_of_mem_climb member with earlier | rfl | uncached
    · cases earlier
    · exact free key (same ▸ onTheWay)
    · exact uncached
  have passedRoot : (climb cache (path.length + 1) path []).1 = none →
      cache ['/'] = none :=
    root_uncached_of_climb isPath filled (Nat.lt_succ_self _)
  generalize climb cache (path.length + 1) path [] = climbed
    at chain reason passedAll passedRoot ⊢
  obtain ⟨found, paths⟩ := climbed
  have notAbove : ¬ start.names.length < dir.names.length := by
    intro shorter
    rw [← names_dirKey isDir] at shorter above
    rw [passedAll _ (chain.mem shorter above)] at hit
    cases hit
  cases found with
  | none =>
      -- then the root is not cached, and nothing is above it
      have empty : start = [] := reason
      subst empty
      have noNames : dir.names = [] :=
        List.eq_nil_of_length_eq_zero (Nat.eq_zero_of_not_pos notAbove)
      have isRoot : dir = [] := IsDir.eq_of_names_eq isDir .root noNames
      subst isRoot
      rw [dirKey_nil, passedRoot rfl] at hit
      cases hit
  | some other =>
      have notBelow : ¬ dir.names.length < start.names.length := by
        intro longer
        have below : (dir ++ name).names <+: start.names :=
          List.prefix_of_prefix_length_le onTheWay chain.names_prefix
            (by omega)
        rw [← names_dirKey isStart] at below
        rw [free _ below] at reason
        cases reason
      have shorter : dir.names <+: start.names :=
        List.prefix_of_prefix_length_le above chain.names_prefix (by omega)
      have isDeepest : dir = start := IsDir.eq_of_names_eq isDir isStart
        (shorter.eq_of_length_le (by omega))
      subst isDeepest
      rw [hit] at reason
      cases reason
      cases chain with
      | done =>
          have longer := onTheWay.length_le
          omega
      | @step _ next _ rest _ isNext later =>
          have length' := congrArg List.length (names_append isDir isNext)
          rw [List.length_append, List.length_singleton] at length'
          have equal : (dir ++ next).names = (dir ++ name).names :=
            (List.prefix_of_prefix_length_le later.names_prefix onTheWay
              (by omega)).eq_of_length_le (by omega)
          rw [eq_of_names_eq isDir isName equal]
          exact ⟨rest, rfl⟩

/-! ## Where a lookup changes nothing -/

section Unchanged

variable [Preorder τ] (tree : NameTree τ ι) (view : σ → τ)

/-- The directory where the way to the path ends is cached, and what comes
next leads nowhere. -/
def EndCached (cacher : PathCacher σ ι) (path : Path) : Prop :=
  ∃ dir name, IsDir dir ∧ IsName name ∧
    (dir ++ name).names <+: path.names ∧
    (cacher.cache (dirKey dir)).isSome ∧
    tree.lookup (view cacher.service) (dir ++ name).names = none

variable {tree view} (lawful : query.Lawful tree view)
  (isPath : IsPath path)
  (legible : ∀ name ∈ path.names, tree.Legible name)
  (good : Good tree view cacher) (still : cacher.evictions = [])

theorem cache_answered_still (still : cacher.evictions = []) (s : σ) :
    (cacher.answered s).cache = cacher.cache := by
  funext key
  rw [cache_answered_eq, still]
  rfl

theorem lookup_eq_none_further {v : τ} {front : List Path}
    (missing : tree.lookup v front = none) (shorter : front <+: names) :
    tree.lookup v names = none := by
  obtain ⟨more, rfl⟩ := shorter
  exact tree.lookup_none missing more

theorem Good.uncached (good : Good tree view cacher)
    (missing : tree.lookup (view cacher.service) key.names = none) :
    cacher.cache key = none := by
  cases hit : cacher.cache key with
  | none => rfl
  | some id =>
      rw [good.sound hit] at missing
      cases missing

include lawful isPath legible good still

/-- From the end of the way, the first query finds nothing. -/
theorem get_of_endCached (endCached : EndCached tree view cacher path) :
    Ensures (get query path) (fun _ after => after.cache = cacher.cache)
      (fun _ => True) cacher := by
  obtain ⟨dir, name, isDir, isName, onTheWay, cached, missing⟩ := endCached
  obtain ⟨id, hit⟩ := Option.isSome_iff_exists.mp cached
  have free : ∀ key, (dir ++ name).names <+: key.names →
      cacher.cache key = none := by
    intro key below
    exact good.uncached (lookup_eq_none_further missing below)
  obtain ⟨rest, climbed⟩ :=
    climb_eq isDir isName hit isPath onTheWay free
  have leads := good.sound hit
  rw [names_dirKey isDir] at leads
  have member : name ∈ path.names := by
    apply onTheWay.subset
    rw [names_append isDir isName]
    simp
  have asked : Ensures (await (query.query id (getBasename (dir ++ name))))
      (fun found after => found = none ∧ after.cache = cacher.cache)
      (fun _ => True) cacher := by
    rw [getBasename_append isDir isName, ensures_await]
    apply (lawful.query_ensures good.valid leads
      (legible name member)).mono
    · intro found s given
      rw [names_append isDir isName] at missing
      exact ⟨given.2.trans missing, cache_answered_still still s⟩
    · intro s _
      trivial
  simp only [PathCacher.get, ensures_bind, ensures_cached,
    free path onTheWay, PathCacher.search, ensures_gets, climbed,
    PathCacher.queryDown]
  apply asked.mono
  · intro found after given
    obtain ⟨rfl, same⟩ := given
    exact same
  · intro after failed
    exact failed

omit lawful isPath legible good still in
theorem held_stored (still : cacher.evictions = []) (key : Path) (id : ι) :
    Held key (cacher.stored key id) := by
  constructor
  · simp [stored]
  · intro keys member
    rw [show (cacher.stored key id).evictions = [] from still] at member
    cases member

omit lawful isPath legible good still in
theorem ensures_await_still (request : Program σ ε α)
    (still : cacher.evictions = []) :
    Ensures (await request) (fun _ after => after.evictions = [])
      (fun _ => True) cacher := by
  have keeps : Ensures (await request)
      (fun _ (after : PathCacher σ ι) => after.evictions = [])
      (fun after => after.evictions = []) cacher := by
    apply ensures_await_of
    intro s
    exact (congrArg List.tail still).trans rfl
  exact keeps.mono (fun _ _ kept => kept) fun _ _ => trivial

/-- From elsewhere, a lookup that finds nothing leaves a new entry. -/
theorem get_of_not_endCached
    (missing : tree.lookup (view cacher.service) path.names = none)
    (elsewhere : ¬ EndCached tree view cacher path) :
    Ensures (get query path)
      (fun _ after => ∃ key, cacher.cache key = none ∧
        (after.cache key).isSome)
      (fun _ => True) cacher := by
  have free := good.uncached missing
  have keeps : ∀ key, cacher.cache key = none → ∀ {start last paths id}
      {after : PathCacher σ ι}, Chain start paths last →
      Held key after → Ensures (queryDown query id paths)
        (fun _ after => ∃ key, cacher.cache key = none ∧
          (after.cache key).isSome) (fun _ => True) after := by
    intro key uncached start last paths id after chain held
    apply (keeps_held.queryDown chain id held).mono
    · intro _ final kept
      exact ⟨key, uncached, kept.cached⟩
    · intro _ _
      trivial
  obtain ⟨start, last, isStart, same, chain, reason⟩ :=
    climb_spec_path (.inl isPath) cacher.cache
  have passedAll : ∀ key ∈
      (climb cacher.cache (path.length + 1) path []).2,
      cacher.cache key = none := by
    intro key member
    rcases uncached_of_mem_climb member with earlier | rfl | uncached
    · cases earlier
    · exact free
    · exact uncached
  have passedRoot : path ≠ [] →
      (climb cacher.cache (path.length + 1) path []).1 = none →
      cacher.cache ['/'] = none :=
    fun filled => root_uncached_of_climb isPath filled (Nat.lt_succ_self _)
  simp only [PathCacher.get, ensures_bind, ensures_cached, free,
    PathCacher.search, ensures_gets]
  generalize climb cacher.cache (path.length + 1) path [] = climbed
    at chain reason passedAll passedRoot ⊢
  obtain ⟨found, paths⟩ := climbed
  rw [← same] at legible missing
  cases found with
  | none =>
      have rootFree : cacher.cache ['/'] = none := by
        by_cases empty : path = []
        · apply good.uncached
          rw [same, empty] at missing
          exact missing
        · exact passedRoot empty rfl
      apply (ensures_await_still query.root still).bind
      · intro id after quiet
        exact keeps ['/'] rootFree chain (held_stored quiet ['/'] id)
      · intro _ _
        trivial
  | some id =>
      have leads : tree.lookup (view cacher.service) start.names =
          some id := by
        rw [← names_dirKey isStart]
        exact good.sound reason
      cases chain with
      | done =>
          rw [missing] at leads
          cases leads
      | @step _ name _ rest _ isName later =>
          have member := Chain.name_mem isStart isName later
          have asked := (await_query lawful last.names isStart isName good
            leads (legible name member)).and
              (ensures_await_still _ still)
          apply asked.bind
          · intro found after given
            obtain ⟨⟨_, answer⟩, quiet⟩ := given
            cases found with
            | none =>
                refine (elsewhere ?_).elim
                refine ⟨start, name, isStart, isName, ?_, ?_, answer.symm⟩
                · exact same ▸ later.names_prefix
                · exact Option.isSome_iff_exists.mpr ⟨id, reason⟩
            | some next =>
                exact keeps (start ++ name)
                  (passedAll _ List.mem_cons_self) later
                  (held_stored quiet _ next)
          · intro _ _
            trivial

theorem get_cache_eq_iff {after : PathCacher σ ι}
    (ended : get query path cacher = (.ok none, after)) :
    after.cache = cacher.cache ↔ EndCached tree view cacher path := by
  have missing := ((get_spec lawful (.inl isPath) legible good).of_ok ended).2
  constructor
  · intro unchanged
    by_contra elsewhere
    obtain ⟨key, free, held⟩ := (get_of_not_endCached lawful isPath legible
      good still missing.symm elsewhere).of_ok ended
    rw [unchanged, free] at held
    cases held
  · intro endCached
    exact (get_of_endCached lawful isPath legible good still endCached).of_ok
      ended

end Unchanged

/-! ## Errors -/

section Errors

variable {errors : ε → Prop}

theorem raises_await {request : Program σ ε α}
    (raises : Raises errors request) :
    Raises errors (await (ι := ι) request) := by
  intro cacher e after failed
  unfold await at failed
  rcases outcome : request cacher.service with ⟨result, s⟩
  rw [outcome] at failed
  cases failed
  exact raises _ e s outcome

theorem raises_cached (path : Path) : Raises errors
    (cached path : Program (PathCacher σ ι) ε (Option ι)) :=
  raises_gets

/-- The cacher fails with what its queries fail with. -/
structure QueryRaises (query : PathQuery σ ε ι) (errors : ε → Prop) :
    Prop where
  root : Raises errors query.root
  asked : ∀ id name, Raises errors (query.query id name)
  created : ∀ id name, Raises errors (query.createDir id name)

variable (raises : QueryRaises query errors)
include raises

theorem raises_queryDown (id : ι) (paths : List Path) :
    Raises errors (queryDown query id paths) := by
  induction paths generalizing id with
  | nil => exact raises_pure
  | cons path paths induction =>
      apply (raises_await (raises.asked _ _)).bind
      intro found
      cases found with
      | none => exact raises_pure
      | some id => exact raises_modify.bind fun _ => induction id

theorem raises_get (path : Path) : Raises errors (get query path) := by
  have answers : ∀ found, Raises errors
      (answer path found : Program (PathCacher σ ι) ε (Option ι)) :=
    fun _ => raises_modify.bind fun _ => raises_pure
  refine Raises.bind (raises_cached _) ?_
  intro hit
  cases hit with
  | some id => exact answers (some id)
  | none =>
      refine Raises.bind ?_ answers
      refine Raises.bind raises_gets ?_
      intro start
      obtain ⟨found, paths⟩ := start
      cases found with
      | some id => exact raises_queryDown raises id paths
      | none =>
          apply (raises_await raises.root).bind
          intro id
          exact raises_modify.bind fun _ => raises_queryDown raises id paths

theorem raises_ensureChild (id : ι) (parent : Path) :
    Raises errors (ensureChild query id parent) := by
  have stores : ∀ value, Raises errors
      (store parent value >>= fun _ => pure value :
        Program (PathCacher σ ι) ε ι) :=
    fun _ => raises_modify.bind fun _ => raises_pure
  apply (raises_await (raises.asked _ _)).bind
  intro found
  cases found with
  | some value => exact stores value
  | none => exact (raises_await (raises.created _ _)).bind stores

theorem raises_ensureDown (id : ι) (paths : List Path) :
    Raises errors (ensureDown query id paths) := by
  induction paths generalizing id with
  | nil => exact raises_pure
  | cons parent rest induction =>
      refine Raises.bind (raises_cached _) ?_
      intro hit
      cases hit with
      | some value => exact induction value
      | none => exact (raises_ensureChild raises id parent).bind induction

theorem raises_ensureDir (path : Path) :
    Raises errors (ensureDir query path) := by
  refine Raises.bind (raises_cached _) ?_
  intro hit
  cases hit with
  | some id => exact raises_ensureDown raises id _
  | none =>
      apply (raises_await raises.root).bind
      intro id
      exact raises_ensureDown raises id _

end Errors

/-! ## Caches that agree -/

/-- The cachers differ in nothing but entries that are not to be kept, and in
what they have answered. -/
structure Agree (keep : Path → Prop) (left right : PathCacher σ ι) :
    Prop where
  service : left.service = right.service
  evictions : left.evictions = right.evictions
  cache : ∀ {key}, keep key → left.cache key = right.cache key

section Agree

variable {keep : Path → Prop} {left right : PathCacher σ ι}

theorem Agree.answered (agree : Agree keep left right) (s : σ) :
    Agree keep (left.answered s) (right.answered s) := by
  constructor
  · rfl
  · exact congrArg List.tail agree.evictions
  · intro key kept
    rw [cache_answered_eq, cache_answered_eq, agree.evictions,
      agree.cache kept]

theorem Agree.stored (agree : Agree keep left right) (key : Path) (id : ι) :
    Agree keep (left.stored key id) (right.stored key id) := by
  constructor
  · exact agree.service
  · exact agree.evictions
  · intro other kept
    by_cases same : other = key
    · simp [PathCacher.stored, same]
    · rw [cache_stored_of_ne same, cache_stored_of_ne same,
        agree.cache kept]

theorem alike_await (request : Program σ ε α) :
    Alike (Agree keep) (await (ι := ι) request) := by
  intro left right agree
  unfold await
  rw [agree.service]
  exact ⟨rfl, agree.answered _⟩

theorem alike_store (key : Path) (id : ι) :
    Alike (Agree keep) (store key id : Program (PathCacher σ ι) ε Unit) :=
  alike_modify fun agree => agree.stored key id

theorem alike_answer (path : Path) (found : Option ι) :
    Alike (Agree keep)
      (answer path found : Program (PathCacher σ ι) ε (Option ι)) := by
  apply Alike.bind
  · apply alike_modify
    intro left right agree
    exact ⟨agree.service, agree.evictions, agree.cache⟩
  · intro _
    exact alike_pure

/-- The way down reads no entry at all. -/
theorem alike_queryDown (id : ι) (paths : List Path) :
    Alike (Agree keep) (queryDown query id paths) := by
  induction paths generalizing id with
  | nil => exact alike_pure
  | cons path paths induction =>
      apply (alike_await _).bind
      intro found
      cases found with
      | none => exact alike_pure
      | some id => exact (alike_store path id).bind fun _ => induction id

/-- So the way down finds what the path leads to, whatever is cached. -/
theorem queryDown_exact [Preorder τ] {tree : NameTree τ ι} {view : σ → τ}
    (lawful : query.Lawful tree view) (chain : Chain dir paths path)
    (legible : ∀ name ∈ path.names, tree.Legible name) {id : ι}
    (valid : tree.Valid (view cacher.service))
    (leads : tree.lookup (view cacher.service) dir.names = some id) :
    Ensures (queryDown query id paths)
      (fun found _ => found = tree.lookup (view cacher.service) path.names)
      (fun _ => True) cacher := by
  let bare : PathCacher σ ι :=
    ⟨cacher.service, fun _ => none, cacher.evictions, []⟩
  have agree : Agree (fun _ => False) cacher bare :=
    ⟨rfl, rfl, fun never => never.elim⟩
  have good : Good tree view bare := by
    refine ⟨valid, ?_, ?_⟩
    · intro key id hit
      cases hit
    · intro served member
      cases member
  apply (alike_queryDown id paths).ensures agree
  apply (queryDown_spec lawful chain legible good leads).mono
  · intro found after given
    exact given.2
  · intro _ _
    trivial

variable (closed : ∀ {key}, IsPath key → keep key → keep key.getParent)
include closed

/-- The way up reads the entries of directories on the way. -/
theorem climb_congr {cache other : Path → Option ι}
    (same : ∀ {key}, keep key → cache key = other key) {fuel : Nat}
    (isPath : IsPath path ∨ path = ['/']) (kept : keep path) :
    climb cache fuel path paths = climb other fuel path paths := by
  induction fuel generalizing path paths with
  | zero => rfl
  | succ fuel induction =>
      rcases isPath with isPath | rfl
      · have above := closed isPath kept
        have equal := same above
        unfold climb
        split
        · rfl
        · simp only [equal]
          cases hit : other path.getParent with
          | some id => rfl
          | none => exact induction isPath.getParent above
      · rfl

theorem alike_search (isPath : IsPath path ∨ path = ['/'])
    (kept : keep path) : Alike (Agree keep) (search query path) := by
  apply Alike.bind
  · apply alike_gets
    intro left right agree
    exact climb_congr closed agree.cache isPath kept
  · intro start
    obtain ⟨found, paths⟩ := start
    cases found with
    | some id => exact alike_queryDown id paths
    | none =>
        apply (alike_await _).bind
        intro id
        exact (alike_store _ id).bind fun _ => alike_queryDown id paths

theorem alike_get (isPath : IsPath path ∨ path = ['/']) (kept : keep path) :
    Alike (Agree keep) (get query path) := by
  apply Alike.bind
  · apply alike_gets
    intro left right agree
    exact agree.cache kept
  · intro hit
    cases hit with
    | some id => exact alike_answer path (some id)
    | none =>
        apply (alike_search closed isPath kept).bind
        intro found
        exact alike_answer path found

end Agree

end PathCacher

end OpenDal
