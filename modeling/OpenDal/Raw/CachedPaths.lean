import OpenDal.Raw.PathCache

/-!
# What the path cacher answers

As long as every entry of the cache is what its path leads to, `get` finds
what the path leads to and `ensure_dir` makes it lead somewhere, whatever is
cached already and whatever is evicted meanwhile.  Both only add entries for
the paths on the way.
-/

namespace OpenDal

open Path Program

namespace PathCacher

variable {σ τ ε ι α : Type}

@[simp] theorem ensures_await {request : Program σ ε α}
    {post : α → PathCacher σ ι → Prop} {fails : PathCacher σ ι → Prop}
    {cacher : PathCacher σ ι} :
    Ensures (await request) post fails cacher ↔
      Ensures request (fun value s => post value (cacher.answered s))
        (fun s => fails (cacher.answered s)) cacher.service := by
  unfold Ensures await
  rcases request cacher.service with ⟨result, s⟩
  cases result with
  | ok value => rfl
  | error e => rfl

@[simp] theorem ensures_cached {path : Path}
    {post : Option ι → PathCacher σ ι → Prop}
    {fails : PathCacher σ ι → Prop} {cacher : PathCacher σ ι} :
    Ensures (cached path : Program (PathCacher σ ι) ε (Option ι)) post fails
      cacher ↔ post (cacher.cache path) cacher :=
  Iff.rfl

@[simp] theorem ensures_store {path : Path} {id : ι}
    {post : Unit → PathCacher σ ι → Prop}
    {fails : PathCacher σ ι → Prop} {cacher : PathCacher σ ι} :
    Ensures (store path id : Program (PathCacher σ ι) ε Unit) post fails
      cacher ↔ post () (cacher.stored path id) :=
  Iff.rfl

theorem cache_answered {cacher : PathCacher σ ι} {s : σ} {key : Path}
    {id : ι} (hit : (cacher.answered s).cache key = some id) :
    cacher.cache key = some id := by
  simp only [answered, evict] at hit
  split at hit
  · cases hit
  · exact hit

variable [Preorder τ] (tree : NameTree τ ι) (view : σ → τ)

/-- The cache holds nothing but what its paths lead to, and so far no answer
was wrong. -/
structure Good (cacher : PathCacher σ ι) : Prop where
  valid : tree.Valid (view cacher.service)
  sound : ∀ {key id}, cacher.cache key = some id →
    tree.lookup (view cacher.service) key.names = some id
  exact : ∀ served ∈ cacher.served,
    served.found = tree.lookup (view served.service) served.path.names

/-- The service has grown and so has the cache, both on the way to `names`. -/
structure Grows (names : List Path) (before after : PathCacher σ ι) :
    Prop where
  good : Good tree view after
  adds : tree.Adds names (view before.service) (view after.service)
  keys : ∀ {key}, (after.cache key).isSome →
    (before.cache key).isSome ∨ key.names <+: names

/-- Only the cache has grown. -/
structure Reads (names : List Path) (before after : PathCacher σ ι) :
    Prop where
  good : Good tree view after
  same : view after.service = view before.service
  keys : ∀ {key}, (after.cache key).isSome →
    (before.cache key).isSome ∨ key.names <+: names

variable {tree view} {names : List Path}
  {cacher before middle after : PathCacher σ ι}

theorem Good.new {service : σ} (valid : tree.Valid (view service)) :
    Good tree view (PathCacher.new service) where
  valid := valid
  sound := fun hit => nomatch hit
  exact := fun _ member => nomatch member

theorem Good.evict (good : Good tree view cacher) (keys : List Path) :
    Good tree view (cacher.evict keys) where
  valid := good.valid
  sound := by
    intro key id hit
    simp only [PathCacher.evict] at hit
    split at hit
    · cases hit
    · exact good.sound hit
  exact := good.exact

/-! ## Steps -/

theorem Reads.refl (good : Good tree view cacher) :
    Reads tree view names cacher cacher :=
  ⟨good, rfl, fun hit => .inl hit⟩

theorem Reads.trans (first : Reads tree view names before middle)
    (second : Reads tree view names middle after) :
    Reads tree view names before after := by
  refine ⟨second.good, second.same.trans first.same, ?_⟩
  intro key hit
  rcases second.keys hit with earlier | onTheWay
  · exact first.keys earlier
  · exact .inr onTheWay

theorem Reads.mono {longer : List Path}
    (reads : Reads tree view names before after)
    (onTheWay : names <+: longer) : Reads tree view longer before after :=
  ⟨reads.good, reads.same,
    fun hit => (reads.keys hit).imp id (·.trans onTheWay)⟩

theorem Grows.refl (good : Good tree view cacher) :
    Grows tree view names cacher cacher :=
  ⟨good, ⟨good.valid, le_refl _, fun found => .inl found⟩,
    fun hit => .inl hit⟩

theorem Grows.trans (first : Grows tree view names before middle)
    (second : Grows tree view names middle after) :
    Grows tree view names before after := by
  refine ⟨second.good, ⟨second.adds.valid,
    le_trans first.adds.le second.adds.le, ?_⟩, ?_⟩
  · intro found id lookup
    rcases second.adds.only lookup with earlier | onTheWay
    · exact first.adds.only earlier
    · exact .inr onTheWay
  · intro key hit
    rcases second.keys hit with earlier | onTheWay
    · exact first.keys earlier
    · exact .inr onTheWay

theorem Reads.grows (reads : Reads tree view names before after) :
    Grows tree view names before after := by
  refine ⟨reads.good, ?_, reads.keys⟩
  refine ⟨reads.good.valid, le_of_eq reads.same.symm, ?_⟩
  intro found id lookup
  rw [reads.same] at lookup
  exact .inl lookup

theorem Good.reads_answered (good : Good tree view cacher) {s : σ}
    (same : view s = view cacher.service) :
    Reads tree view names cacher (cacher.answered s) := by
  refine ⟨⟨?_, ?_, good.exact⟩, same, ?_⟩
  · exact (congrArg tree.Valid same).mpr good.valid
  · intro key id hit
    have lookup := good.sound (cache_answered hit)
    exact (congrArg (tree.lookup · key.names = some id) same).mpr lookup
  · intro key hit
    obtain ⟨id, held⟩ := Option.isSome_iff_exists.mp hit
    exact .inl (Option.isSome_iff_exists.mpr ⟨id, cache_answered held⟩)

theorem Good.grows_answered (good : Good tree view cacher) {s : σ}
    (adds : tree.Adds names (view cacher.service) (view s)) :
    Grows tree view names cacher (cacher.answered s) := by
  refine ⟨⟨adds.valid, ?_, good.exact⟩, adds, ?_⟩
  · intro key id hit
    exact tree.lookup_mono good.valid adds.valid adds.le
      (good.sound (cache_answered hit))
  · intro key hit
    obtain ⟨id, held⟩ := Option.isSome_iff_exists.mp hit
    exact .inl (Option.isSome_iff_exists.mpr ⟨id, cache_answered held⟩)

theorem Good.reads_stored (good : Good tree view cacher) {key : Path}
    {id : ι} (onTheWay : key.names <+: names)
    (leads : tree.lookup (view cacher.service) key.names = some id) :
    Reads tree view names cacher (cacher.stored key id) := by
  refine ⟨⟨good.valid, ?_, good.exact⟩, rfl, ?_⟩
  · intro other found hit
    simp only [stored, Function.update_apply] at hit
    split at hit
    · rename_i same
      cases hit
      exact same ▸ leads
    · exact good.sound hit
  · intro other hit
    simp only [stored, Function.update_apply] at hit
    split at hit
    · rename_i same
      exact .inr (same ▸ onTheWay)
    · exact .inl hit

/-! ## The paths on the way down -/

/-- Each of the paths is in the directory before it, the first one in `dir`
and the last one is `path`. -/
inductive Chain : Path → List Path → Path → Prop where
  | done {path : Path} : Chain path [] path
  | step {dir name path : Path} {rest : List Path} (isDir : IsDir dir)
      (isName : IsName name) (later : Chain (dir ++ name) rest path) :
      Chain dir ((dir ++ name) :: rest) path

theorem Chain.names_prefix {dir path : Path} {paths : List Path}
    (chain : Chain dir paths path) : dir.names <+: path.names := by
  induction chain with
  | done => exact List.prefix_refl _
  | step isDir isName _ induction =>
      exact (isDir_prefix_names isDir isName).trans induction

theorem Chain.name_mem {dir name path : Path} {rest : List Path}
    (isDir : IsDir dir) (isName : IsName name)
    (later : Chain (dir ++ name) rest path) : name ∈ path.names := by
  apply later.names_prefix.subset
  rw [names_append isDir isName]
  simp

/-- The loop of `get` stops at a cached directory, or at the root. -/
theorem climb_spec (cache : Path → Option ι) {dir : Path} (isDir : IsDir dir)
    {paths : List Path} {path : Path} (chain : Chain dir paths path)
    {fuel : Nat} (enough : dir.length < fuel) :
    ∃ start, IsDir start ∧
      Chain start (climb cache fuel (dirKey dir) paths).2 path ∧
      match (climb cache fuel (dirKey dir) paths).1 with
      | some id => cache (dirKey start) = some id
      | none => start = [] := by
  induction isDir generalizing paths fuel with
  | root =>
      obtain ⟨fuel, rfl⟩ := Nat.exists_eq_succ_of_ne_zero
        (Nat.ne_of_gt enough)
      refine ⟨[], .root, ?_⟩
      simpa [climb] using chain
  | @child dir segment parent isSegment induction =>
      obtain ⟨fuel, rfl⟩ := Nat.exists_eq_succ_of_ne_zero
        (Nat.ne_of_gt (Nat.lt_of_le_of_lt (Nat.zero_le _) enough))
      have isName : IsName (segment ++ ['/']) := .dir isSegment
      have inner := append_name_ne_slash parent isName
      have filled : dir ++ (segment ++ ['/']) ≠ [] := by simp
      have longer : Chain dir ((dir ++ (segment ++ ['/'])) :: paths) path :=
        .step parent isName chain
      rw [dirKey_of_ne_nil filled]
      simp only [climb, inner, filled, or_self, if_false,
        getParent_append parent isName]
      cases hit : cache (dirKey dir) with
      | some id => exact ⟨dir, parent, longer, hit⟩
      | none =>
          have shorter : dir.length < fuel := by
            simp only [List.length_append, List.length_singleton] at enough
            omega
          exact induction longer shorter

theorem climb_path (cache : Path → Option ι) {dir name : Path}
    (isDir : IsDir dir) (isName : IsName name) :
    ∃ start, IsDir start ∧
      Chain start (climb cache ((dir ++ name).length + 1) (dir ++ name)
        []).2 (dir ++ name) ∧
      match (climb cache ((dir ++ name).length + 1) (dir ++ name) []).1 with
      | some id => cache (dirKey start) = some id
      | none => start = [] := by
  have inner := append_name_ne_slash isDir isName
  have filled : dir ++ name ≠ [] := by simp [isName.ne_nil]
  have chain : Chain dir [dir ++ name] (dir ++ name) :=
    .step isDir isName .done
  simp only [climb, inner, filled, or_self, if_false,
    getParent_append isDir isName]
  cases hit : cache (dirKey dir) with
  | some id => exact ⟨dir, isDir, chain, hit⟩
  | none =>
      have positive := List.length_pos_iff.mpr isName.ne_nil
      have enough : dir.length < (dir ++ name).length := by
        rw [List.length_append]
        omega
      exact climb_spec cache isDir chain enough

/-- The way of a lookup, from a cached directory or from the root on. -/
theorem climb_spec_path {path : Path} (isPath : IsPath path ∨ path = ['/'])
    (cache : Path → Option ι) :
    ∃ start last, IsDir start ∧ last.names = path.names ∧
      Chain start (climb cache (path.length + 1) path []).2 last ∧
      match (climb cache (path.length + 1) path []).1 with
      | some id => cache (dirKey start) = some id
      | none => start = [] := by
  rcases isPath with isPath | rfl
  · cases isPath with
    | root => exact ⟨[], [], .root, rfl, .done, rfl⟩
    | entry isDir isName =>
        obtain ⟨start, isStart, chain, reason⟩ :=
          climb_path cache isDir isName
        exact ⟨start, _, isStart, rfl, chain, reason⟩
  · exact ⟨[], [], .root, rfl, .done, rfl⟩

/-! ## Looking a path up -/

theorem answer_spec {path : Path} {found : Option ι}
    (reads : Reads tree view path.names before cacher)
    (same : found = tree.lookup (view before.service) path.names) :
    Ensures (answer path found : Program (PathCacher σ ι) ε (Option ι))
      (fun found after => Reads tree view path.names before after ∧
        found = tree.lookup (view before.service) path.names)
      (Reads tree view path.names before) cacher := by
  refine ⟨⟨⟨reads.good.valid, reads.good.sound, ?_⟩, reads.same, reads.keys⟩,
    same⟩
  intro served member
  rcases List.mem_cons.mp member with rfl | earlier
  · exact same.trans (congrArg (tree.lookup · path.names) reads.same.symm)
  · exact reads.good.exact served earlier

theorem endsWithSlash_of_mem_parents (dir : Path) (segments : List Path) :
    ∀ parent ∈ parents dir segments, endsWithSlash parent = true := by
  induction segments generalizing dir with
  | nil => simp [parents]
  | cons segment segments induction =>
      intro parent member
      rcases List.mem_cons.mp member with rfl | later
      · exact endsWithSlash_iff.mpr ⟨dir ++ segment, by simp⟩
      · exact induction _ parent later

section Lawful

variable {query : PathQuery σ ε ι} (lawful : query.Lawful tree view)
include lawful

theorem await_query (names : List Path) {dir name : Path} {id : ι} (isDir : IsDir dir)
    (isName : IsName name) (good : Good tree view cacher)
    (leads : tree.lookup (view cacher.service) dir.names = some id)
    (legible : tree.Legible name) :
    Ensures (await (query.query id (getBasename (dir ++ name))))
      (fun found after => Reads tree view names cacher after ∧
        found = tree.lookup (view cacher.service) (dir ++ name).names)
      (Reads tree view names cacher) cacher := by
  rw [getBasename_append isDir isName, names_append isDir isName,
    ensures_await]
  apply (lawful.query_ensures good.valid leads legible).mono
  · intro found s given
    exact ⟨good.reads_answered given.1, given.2⟩
  · intro s same
    exact good.reads_answered same

theorem await_root (names : List Path) (good : Good tree view cacher) :
    Ensures (await query.root)
      (fun id after => Reads tree view names cacher after ∧
        tree.lookup (view cacher.service) [] = some id)
      (Reads tree view names cacher) cacher := by
  rw [ensures_await]
  apply (lawful.root_ensures cacher.service).mono
  · intro id s given
    exact ⟨good.reads_answered given.1, given.2⟩
  · intro s same
    exact good.reads_answered same

theorem queryDown_spec {dir path : Path} {paths : List Path}
    (chain : Chain dir paths path)
    (legible : ∀ name ∈ path.names, tree.Legible name) {id : ι}
    (good : Good tree view cacher)
    (leads : tree.lookup (view cacher.service) dir.names = some id) :
    Ensures (queryDown query id paths)
      (fun found after => Reads tree view path.names cacher after ∧
        found = tree.lookup (view cacher.service) path.names)
      (Reads tree view path.names cacher) cacher := by
  induction chain generalizing id cacher with
  | done =>
      rw [queryDown, ensures_pure]
      exact ⟨.refl good, leads.symm⟩
  | @step dir name path rest isDir isName later induction =>
      rw [queryDown]
      apply (await_query lawful path.names isDir isName good leads
        (legible name (Chain.name_mem isDir isName later))).bind
      · intro found after given
        obtain ⟨reads, same⟩ := given
        cases found with
        | none =>
            -- what is missing leads nowhere further down
            obtain ⟨more, whole⟩ := later.names_prefix
            refine ⟨reads, ?_⟩
            rw [← whole]
            exact (tree.lookup_none same.symm more).symm
        | some found =>
            have known : tree.lookup (view after.service)
                (dir ++ name).names = some found := by
              rw [reads.same]
              exact same.symm
            have stores := reads.good.reads_stored later.names_prefix known
            have sofar := reads.trans stores
            simp only [ensures_bind, ensures_store]
            apply (induction legible stores.good known).mono
            · intro value last further
              refine ⟨sofar.trans further.1, ?_⟩
              rw [further.2]
              exact congrArg (tree.lookup · path.names) sofar.same
            · intro last further
              exact sofar.trans further
      · intro after reads
        exact reads

/-- `search` finds what the path leads to. -/
theorem search_spec {path : Path} (isPath : IsPath path ∨ path = ['/'])
    (legible : ∀ name ∈ path.names, tree.Legible name)
    (good : Good tree view cacher) :
    Ensures (search query path)
      (fun found after => Reads tree view path.names cacher after ∧
        found = tree.lookup (view cacher.service) path.names)
      (Reads tree view path.names cacher) cacher := by
  obtain ⟨start, last, isStart, same, chain, reason⟩ :=
    climb_spec_path isPath cacher.cache
  rw [← same] at legible ⊢
  simp only [search, ensures_bind, ensures_gets]
  generalize climb cacher.cache (path.length + 1) path [] = climbed
    at chain reason ⊢
  obtain ⟨found, paths⟩ := climbed
  cases found with
  | some id =>
      have leads := good.sound reason
      rw [names_dirKey isStart] at leads
      exact queryDown_spec lawful chain legible good leads
  | none =>
      subst reason
      apply (await_root lawful last.names good).bind
      · intro id after given
        obtain ⟨reads, leads⟩ := given
        rw [← reads.same] at leads
        have stores : Reads tree view last.names after
            (after.stored ['/'] id) :=
          reads.good.reads_stored List.nil_prefix leads
        have sofar := reads.trans stores
        simp only [ensures_bind, ensures_store]
        apply (queryDown_spec lawful chain legible stores.good leads).mono
        · intro value final further
          refine ⟨sofar.trans further.1, ?_⟩
          rw [further.2]
          exact congrArg (tree.lookup · last.names) sofar.same
        · intro final further
          exact sofar.trans further
      · intro after reads
        exact reads

/-- `get` answers what the path leads to. -/
theorem get_spec {path : Path} (isPath : IsPath path ∨ path = ['/'])
    (legible : ∀ name ∈ path.names, tree.Legible name)
    (good : Good tree view cacher) :
    Ensures (get query path)
      (fun found after => Reads tree view path.names cacher after ∧
        found = tree.lookup (view cacher.service) path.names)
      (Reads tree view path.names cacher) cacher := by
  simp only [get, ensures_bind, ensures_cached]
  cases hit : cacher.cache path with
  | some id => exact answer_spec (.refl good) (good.sound hit).symm
  | none =>
      apply (search_spec lawful isPath legible good).bind
      · intro found after given
        exact answer_spec given.1 given.2
      · intro after reads
        exact reads

/-! ## Making a directory -/

omit [Preorder τ] lawful in
theorem parents_spec {dir : Path} (isDir : IsDir dir) {segments : List Path}
    (clean : ∀ segment ∈ segments, IsSegment segment) :
    Chain dir (parents dir segments)
      (dir ++ segments.flatMap (· ++ ['/'])) := by
  induction segments generalizing dir with
  | nil => simpa [parents] using Chain.done
  | cons segment segments induction =>
      have isSegment := clean segment List.mem_cons_self
      have rest := induction (isDir.child isSegment) fun other member =>
        clean other (List.mem_cons_of_mem segment member)
      have chain := Chain.step isDir (.dir isSegment) rest
      simpa [parents] using chain

theorem ensureChild_spec {dir name : Path} {id : ι} (isDir : IsDir dir)
    (isName : IsName name) (slash : endsWithSlash name = true)
    (legible : tree.Legible name) (onTheWay : (dir ++ name).names <+: names)
    (good : Good tree view cacher)
    (leads : tree.lookup (view cacher.service) dir.names = some id) :
    Ensures (ensureChild query id (dir ++ name))
      (fun value after => Grows tree view names cacher after ∧
        tree.lookup (view after.service) (dir ++ name).names = some value)
      (Grows tree view names cacher) cacher := by
  have stores : ∀ {after value}, Grows tree view names cacher after →
      tree.lookup (view after.service) (dir ++ name).names = some value →
      Grows tree view names cacher (after.stored (dir ++ name) value) :=
    fun grows known =>
      grows.trans (grows.good.reads_stored onTheWay known).grows
  simp only [ensureChild, ensures_bind]
  apply (await_query lawful names isDir isName good leads legible).mono
  · intro found after given
    obtain ⟨reads, same⟩ := given
    cases found with
    | some value =>
        have known : tree.lookup (view after.service) (dir ++ name).names =
            some value := by
          rw [reads.same]
          exact same.symm
        exact ⟨stores reads.grows known, known⟩
    | none =>
        rw [← reads.same] at same leads
        rw [names_append isDir isName] at same onTheWay stores ⊢
        simp only [getBasename_append isDir isName, ensures_bind,
          ensures_await, ensures_store, ensures_pure]
        apply (lawful.createDir_ensures reads.good.valid leads slash
          same.symm).mono
        · intro value s given
          have grows := reads.grows.trans
            (reads.good.grows_answered (given.1.mono onTheWay))
          exact ⟨stores grows given.2, given.2⟩
        · intro s adds
          exact reads.grows.trans
            (reads.good.grows_answered (adds.mono onTheWay))
  · intro after reads
    exact reads.grows

theorem ensureDown_spec {dir path : Path} {paths : List Path}
    (chain : Chain dir paths path)
    (slashes : ∀ parent ∈ paths, endsWithSlash parent = true)
    (legible : ∀ name ∈ path.names, tree.Legible name) {id : ι}
    (good : Good tree view cacher)
    (leads : tree.lookup (view cacher.service) dir.names = some id) :
    Ensures (ensureDown query id paths)
      (fun value after => Grows tree view path.names cacher after ∧
        tree.lookup (view after.service) path.names = some value)
      (Grows tree view path.names cacher) cacher := by
  induction chain generalizing id cacher with
  | done =>
      rw [ensureDown, ensures_pure]
      exact ⟨.refl good, leads⟩
  | @step dir name path rest isDir isName later induction =>
      have later' : ∀ parent ∈ rest, endsWithSlash parent = true :=
        fun parent member => slashes parent (List.mem_cons_of_mem _ member)
      simp only [ensureDown, ensures_bind, ensures_cached]
      cases hit : cacher.cache (dir ++ name) with
      | some value => exact induction later' legible good (good.sound hit)
      | none =>
          have slash : endsWithSlash name = true := by
            rw [← endsWithSlash_append dir isName.ne_nil]
            exact slashes _ List.mem_cons_self
          apply (ensureChild_spec lawful isDir isName slash
            (legible name (Chain.name_mem isDir isName later))
            later.names_prefix good leads).bind
          · intro value after given
            obtain ⟨grows, known⟩ := given
            apply (induction later' legible grows.good known).mono
            · intro last final further
              exact ⟨grows.trans further.1, further.2⟩
            · intro final further
              exact grows.trans further
          · intro after grows
            exact grows

/-- The directory that `ensure_dir` makes for a path. -/
def ensuredDir (path : Path) : Path :=
  (components path).flatMap (· ++ ['/'])

/-- `ensure_dir` makes the path lead to a directory, and answers its id. -/
theorem ensureDir_spec (path : Path)
    (legible : ∀ name ∈ (ensuredDir path).names, tree.Legible name)
    (good : Good tree view cacher) :
    Ensures (ensureDir query path)
      (fun value after =>
        Grows tree view (ensuredDir path).names cacher after ∧
        tree.lookup (view after.service) (ensuredDir path).names = some value)
      (Grows tree view (ensuredDir path).names cacher) cacher := by
  have clean : ∀ segment ∈ components path, IsSegment segment :=
    fun _ => isSegment_of_mem_components
  have chain := parents_spec .root clean
  have slashes := endsWithSlash_of_mem_parents [] (components path)
  simp only [ensureDir, ensures_bind, ensures_cached]
  cases hit : cacher.cache ['/'] with
  | some id =>
      have leads : tree.lookup (view cacher.service) (Path.names ['/']) =
          some id := good.sound hit
      exact ensureDown_spec lawful chain slashes legible good leads
  | none =>
      apply (await_root lawful (ensuredDir path).names good).bind
      · intro id after given
        obtain ⟨reads, leads⟩ := given
        rw [← reads.same] at leads
        apply (ensureDown_spec lawful chain slashes legible reads.good
          leads).mono
        · intro value final further
          exact ⟨reads.grows.trans further.1, further.2⟩
        · intro final further
          exact reads.grows.trans further
      · intro after reads
        exact reads.grows

end Lawful

end PathCacher

end OpenDal
