import OpenDal.PrefixTree
import OpenDal.Raw.PathWalk
import OpenDal.Services.WebdavLister

/-!
# Creating the missing parents of a path

Some services create a directory only in one that exists.  The WebDAV client
climbs from the path that it is going to create until it finds a directory, or
reaches `/`.  The client of Azure Files climbs from the path in the operator,
so that the root of the operator is the last directory that it looks at, and
one of its parents that is missing is never created.
-/

namespace OpenDal

open Path PrefixTree

/-! ## Services -/

/-- The directories of a service, and those that it has been asked to create,
as the names on the way to them. -/
structure DirStore where
  tree : List Path → Bool
  created : List (List Path)

inductive Creation where
  | created
  | alreadyExists
  | parentMissing
deriving DecidableEq

namespace DirStore

def add (store : DirStore) (dir : List Path) : DirStore where
  tree other := store.tree other || other == dir
  created := store.created ++ [dir]

/-- A directory is only created in one that exists. -/
def create (store : DirStore) (dir : List Path) : Creation × DirStore :=
  if store.tree dir then
    (.alreadyExists, { store with created := store.created ++ [dir] })
  else if store.tree dir.dropLast then
    (.created, store.add dir)
  else
    (.parentMissing, { store with created := store.created ++ [dir] })

end DirStore

/-- `errorCode` is the header `x-ms-error-code`, and `message` what the client
makes of the body. -/
structure HttpAnswer where
  status : Nat
  errorCode : Option String
  message : String

/-- `body` is what `deserialize_multistatus` makes of it. -/
structure PropfindAnswer extends HttpAnswer where
  body : Except Error (List PropfindResponse)

/-- How a WebDAV service answers about a directory that exists or does not, and
about one that it has or has not created. -/
structure WebdavServer where
  propfind : List Path → Bool → PropfindAnswer
  mkcol : List Path → Creation → HttpAnswer

structure AzfileServer where
  directoryProperties : List Path → Bool → HttpAnswer
  createDir : List Path → Creation → HttpAnswer

/-! ## Requests -/

def buildRootedAbsPath (root path : Path) : Path :=
  let p := root
  if path = ['/'] then p else p ++ path

/-- `StatusCode::is_success`. -/
def HttpAnswer.isSuccess (answer : HttpAnswer) : Bool :=
  200 ≤ answer.status && answer.status < 300

/-- `parse_error` of WebDAV. -/
def HttpAnswer.webdavError (answer : HttpAnswer) : Error :=
  if answer.status = 404 then
    .new .notFound answer.message
  else if answer.status = 403 then
    -- some services return it while the file is locked
    (Error.new .permissionDenied answer.message).setTemporary
  else if [423, 500, 502, 503, 504].contains answer.status then
    (Error.new .unexpected answer.message).setTemporary
  else
    .new .unexpected answer.message

/-- `parse_error` of Azure Files. -/
def HttpAnswer.azfileError (answer : HttpAnswer) : Error :=
  if answer.status = 404 then
    .new .notFound answer.message
  else if answer.status = 403 then
    .new .permissionDenied answer.message
  else if [412, 304].contains answer.status then
    .new .conditionNotMatch answer.message
  else if [500, 502, 503, 504].contains answer.status then
    (Error.new .unexpected answer.message).setTemporary
  else
    .new .unexpected answer.message

def WebdavFailure.isNotFound : WebdavFailure → Bool
  | .error err => err.kind == .notFound
  | .crash _ => false

/-- `for dir in dirs`, up to the first error. -/
def createEach {ε : Type} (create : Path → Program DirStore ε Unit) :
    List Path → Program DirStore ε Unit
  | [] => pure ()
  | dir :: dirs => do
      create dir
      createEach create dirs

/-! ### WebDAV -/

namespace WebdavServer

variable {D : Type} (rfc2822 : Text → Option D) (server : WebdavServer)

def readStat (answer : PropfindAnswer) :
    Except WebdavFailure (ObjectMetadata D) :=
  if !answer.isSuccess then
    .error (.error answer.webdavError)
  else
    match answer.body with
    | .error err => .error (.error err)
    | .ok [] =>
        .error (.error (.new .notFound
          "propfind response is empty, the resource is not exist"))
    | .ok (response :: _) => parsePropstat rfc2822 response.propstat

def webdavStatRootedAbsPath (store : DirStore) (path : Path) :
    Except WebdavFailure (ObjectMetadata D) :=
  let dir := components path
  readStat rfc2822 (server.propfind dir (store.tree dir))

def webdavMkcolRootedAbsPath (path : Path) :
    Program DirStore WebdavFailure Unit :=
  fun store =>
    let dir := components path
    let (creation, store) := store.create dir
    let answer := server.mkcol dir creation
    -- 405: the directory already exists
    if answer.status = 201 ∨ answer.status = 405 then
      (.ok (), store)
    else
      (.error (.error answer.webdavError), store)

/-- The loop of `webdav_mkcol`. -/
def climbMissing (store : DirStore) (path : Path) (dirs : List Path) :
    Except WebdavFailure (List Path) :=
  match webdavStatRootedAbsPath rfc2822 server store path with
  | .ok _ => .ok dirs
  | .error failure =>
      if failure.isNotFound then
        if _top : getParent path = ['/'] then
          .ok (path :: dirs)
        else
          climbMissing store (getParent path) (path :: dirs)
      else
        .error failure
termination_by path.length
decreasing_by exact length_getParent_lt_of_ne _top

def webdavMkcol (root path : Path) : Program DirStore WebdavFailure Unit :=
  fun store =>
    match climbMissing rfc2822 server store
        (buildRootedAbsPath root path) [] with
    | .ok dirs => createEach server.webdavMkcolRootedAbsPath dirs store
    | .error failure => (.error failure, store)

end WebdavServer

/-! ### Azure Files -/

/-- `p` and its parents up to `/`, in front of `dirs`; `p` itself is not one of
them. -/
def parentDirs (p : Path) (dirs : List Path) : List Path :=
  if _top : p = ['/'] then
    dirs
  else
    parentDirs (getParent p) (getParent p :: dirs)
termination_by if p = ['/'] then 0 else p.length + 1
decreasing_by
  rw [if_neg _top]
  split
  · omega
  · rename_i below
    have shorter := length_getParent_lt_of_ne below
    omega

namespace AzfileServer

variable (server : AzfileServer)

/-- Where the service finds what the client calls `path`. -/
def locate (root path : Path) : List Path :=
  components ((buildAbsPath root path).dropWhile (· == '/'))

def azfileGetDirectoryProperties (root : Path) (store : DirStore)
    (path : Path) : HttpAnswer :=
  let dir := components (buildAbsPath root path)
  server.directoryProperties dir (store.tree dir)

/-- One round of the last loop of `ensure_parent_dir_exists`. -/
def azfileCreateDir (root path : Path) : Program DirStore Error Unit :=
  fun store =>
    let dir := locate root path
    let (creation, store) := store.create dir
    let answer := server.createDir dir creation
    if answer.status = 201 then
      (.ok (), store)
    else if answer.errorCode.getD "" = "ResourceAlreadyExists" then
      (.ok (), store)
    else
      (.error answer.azfileError, store)

/-- The loop that counts how many directories exist, from the deepest. -/
def popDirCount (root : Path) (store : DirStore) : List Path → Nat → Nat
  | [], count => count
  | dir :: dirs, count =>
      if (server.azfileGetDirectoryProperties root store dir).status = 404 then
        popDirCount root store dirs (count - 1)
      else
        count

def ensureParentDirExists (root path : Path) : Program DirStore Error Unit :=
  fun store =>
    let dirs := parentDirs path []
    let count := server.popDirCount root store dirs.reverse dirs.length
    createEach (server.azfileCreateDir root) (dirs.drop count) store

end AzfileServer

/-! ## Directories and their parents -/

namespace Path

theorem cons_drop_normalizeRoot (v : Path) :
    normalizeRoot v = '/' :: (normalizeRoot v).drop 1 := by
  obtain ⟨root, same⟩ := Root.exists_path_eq_normalizeRoot v
  rw [same]
  rfl

theorem components_drop_normalizeRoot (v : Path) :
    components ((normalizeRoot v).drop 1) = components (normalizeRoot v) := by
  conv_rhs => rw [cons_drop_normalizeRoot v, components_slash_cons]

theorem components_buildAbsPath (root path : Path) :
    components (buildAbsPath (normalizeRoot root) path) =
      components (normalizeRoot root) ++ components path := by
  rw [buildAbsPath, ← components_drop_normalizeRoot]
  split
  · rename_i top
    rw [top]
    exact (List.append_nil _).symm
  · exact components_append (isDir_drop_normalizeRoot root) path

theorem getParent_rooted {dir name : Path} (isDir : IsDir dir)
    (isName : IsName name) :
    getParent ('/' :: (dir ++ name)) = '/' :: dir := by
  rcases isDir.eq_nil_or_slash with rfl | ⟨front, rfl⟩
  · exact getParent_slash [] isName
  · have moved : '/' :: (front ++ ['/'] ++ name) =
        '/' :: front ++ '/' :: name := by
      simp
    rw [moved, getParent_slash _ isName]
    rfl

end Path

/-! ## What is created -/

/-- The program creates what is missing of the way down to `dir`, each
directory once and after its parents, and nothing else. -/
def Makes {ε : Type} (program : Program DirStore ε Unit) (dir : List Path)
    (start : DirStore) : Prop :=
  ∃ after made,
    program start = (.ok (), after) ∧
    after.created = start.created ++ made ∧
    (∀ other, other ∈ made ↔ other <+: dir ∧ start.tree other = false) ∧
    (made.Pairwise fun parent child => parent <+: child ∧ parent ≠ child) ∧
    ∀ other, after.tree other = true ↔
      start.tree other = true ∨ other <+: dir

section Create

variable {ε : Type} {create : Path → Program DirStore ε Unit}
  {locate : Path → List Path} {start : DirStore}

/-- The program creates a directory in one that exists. -/
def Creates (create : Path → Program DirStore ε Unit)
    (locate : Path → List Path) : Prop :=
  ∀ path store, store.tree (locate path) = false →
    store.tree (locate path).dropLast = true →
    create path store = (.ok (), store.add (locate path))

theorem createEach_append {first second : List Path} {mid : DirStore}
    (created : createEach create first start = (.ok (), mid)) :
    createEach create (first ++ second) start =
      createEach create second mid := by
  induction first generalizing start with
  | nil =>
      cases created
      rfl
  | cons dir dirs induction =>
      rw [createEach] at created
      rw [List.cons_append, createEach]
      rcases outcome : create dir start with ⟨result, next⟩
      cases result with
      | error err =>
          rw [Program.bind_error outcome] at created
          cases created
      | ok value =>
          rw [Program.bind_ok outcome] at created ⊢
          exact induction created

theorem DirStore.tree_add {store : DirStore} {dir other : List Path} :
    (store.add dir).tree other = true ↔
      store.tree other = true ∨ other = dir := by
  simp [DirStore.add]

/-- The missing directories are created from the top.  By induction on the way
down, from its end. -/
theorem makes_missing (creates : Creates create locate)
    (closed : Closed start.tree) {dirs : List Path} {dir : List Path}
    (located : dirs.map locate = missing start.tree dir) :
    Makes (createEach create dirs) dir start := by
  suffices made : ∃ after,
      createEach create dirs start = (.ok (), after) ∧
      after.created = start.created ++ missing start.tree dir ∧
      ∀ other, after.tree other = true ↔
        start.tree other = true ∨ other <+: dir by
    obtain ⟨after, ran, created, tree⟩ := made
    exact ⟨after, _, ran, created, fun _ => mem_missing,
      pairwise_missing _ _, tree⟩
  induction dir using List.reverseRecOn generalizing dirs with
  | nil =>
      rw [missing_of_present closed closed.root, List.map_eq_nil_iff]
        at located
      subst located
      refine ⟨start, rfl, ?_, ?_⟩
      · rw [missing_of_present closed closed.root, List.append_nil]
      · intro other
        constructor
        · exact Or.inl
        · intro either
          rcases either with present | above
          · exact present
          · rw [List.prefix_nil.mp above]
            exact closed.root
  | append_singleton front name induction =>
      by_cases present : start.tree (front ++ [name]) = true
      · rw [missing_of_present closed present] at located ⊢
        rw [List.map_eq_nil_iff] at located
        subst located
        refine ⟨start, rfl, (List.append_nil _).symm, ?_⟩
        intro other
        constructor
        · exact Or.inl
        · intro either
          rcases either with known | above
          · exact known
          · exact closed.of_prefix above present
      · rw [Bool.not_eq_true] at present
        rw [missing_concat present] at located ⊢
        obtain ⟨upper, lower, rfl, above, last⟩ :=
          List.map_eq_append_iff.mp located
        obtain ⟨path, rfl, here⟩ := List.map_eq_singleton_iff.mp last
        obtain ⟨mid, ran, created, tree⟩ := induction above
        have new : mid.tree (locate path) = false := by
          rw [here, ← Bool.not_eq_true, tree]
          intro either
          rcases either with known | inside
          · rw [present] at known
            cases known
          · have longer := inside.length_le
            rw [List.length_append, List.length_singleton] at longer
            omega
        have parent : mid.tree (locate path).dropLast = true := by
          rw [here, List.dropLast_concat]
          exact (tree front).mpr (.inr (List.prefix_refl front))
        have step := creates path mid new parent
        refine ⟨mid.add (locate path), ?_, ?_, ?_⟩
        · rw [createEach_append ran, createEach, Program.bind_ok step]
          rfl
        · rw [DirStore.add, created, here, List.append_assoc]
        · intro other
          rw [DirStore.tree_add, tree, here, List.prefix_concat_iff]
          constructor
          · intro either
            rcases either with (known | inside) | same
            · exact .inl known
            · exact .inr (.inr inside)
            · exact .inr (.inl same)
          · intro either
            rcases either with known | same | inside
            · exact .inl (.inl known)
            · exact .inr same
            · exact .inl (.inr inside)

end Create

/-! ## `webdav_mkcol` -/

namespace WebdavServer

variable {D : Type} {rfc2822 : Text → Option D} {server : WebdavServer}

/-- The service says whether a directory exists, and that it has created one. -/
structure Answers (rfc2822 : Text → Option D) (server : WebdavServer) :
    Prop where
  present : ∀ dir, ∃ response others metadata,
    (server.propfind dir true).isSuccess = true ∧
    (server.propfind dir true).body = .ok (response :: others) ∧
    parsePropstat rfc2822 response.propstat = .ok metadata
  absent : ∀ dir, (server.propfind dir false).status = 404
  created : ∀ dir, (server.mkcol dir .created).status = 201

theorem Answers.stat_present (answers : Answers rfc2822 server)
    {store : DirStore} {path : Path}
    (present : store.tree (components path) = true) :
    ∃ metadata,
      webdavStatRootedAbsPath rfc2822 server store path = .ok metadata := by
  obtain ⟨response, others, metadata, success, body, parsed⟩ :=
    answers.present (components path)
  refine ⟨metadata, ?_⟩
  rw [webdavStatRootedAbsPath, present]
  simp only [readStat, success, body, parsed, Bool.not_true,
    Bool.false_eq_true, if_false]

theorem Answers.stat_absent (answers : Answers rfc2822 server)
    {store : DirStore} {path : Path}
    (absent : store.tree (components path) = false) :
    ∃ failure, failure.isNotFound = true ∧
      webdavStatRootedAbsPath rfc2822 server store path =
        .error failure := by
  have status := answers.absent (components path)
  have refused :
      (server.propfind (components path) false).isSuccess = false := by
    simp [HttpAnswer.isSuccess, status]
  refine ⟨.error (.new .notFound
    (server.propfind (components path) false).message), rfl, ?_⟩
  rw [webdavStatRootedAbsPath, absent]
  simp only [readStat, refused, Bool.not_false, if_true,
    HttpAnswer.webdavError, status]

theorem Answers.creates (answers : Answers rfc2822 server) :
    Creates server.webdavMkcolRootedAbsPath components := by
  intro path store absent parent
  simp only [webdavMkcolRootedAbsPath, DirStore.create, absent, parent,
    answers.created, Bool.false_eq_true, if_false, if_true, true_or]

/-- The loop finds what is missing of the way down to `path`. -/
def Climbs (rfc2822 : Text → Option D) (server : WebdavServer)
    (store : DirStore) (path : Path) : Prop :=
  ∀ dirs, ∃ found,
    climbMissing rfc2822 server store path dirs = .ok found ∧
    found.map components =
      missing store.tree (components path) ++ dirs.map components

theorem Answers.climbs_name (answers : Answers rfc2822 server)
    {store : DirStore} (closed : Closed store.tree) {dir name : Path}
    (isDir : IsDir dir) (isName : IsName name)
    (upper : Climbs rfc2822 server store ('/' :: dir)) :
    Climbs rfc2822 server store ('/' :: (dir ++ name)) := by
  intro dirs
  obtain ⟨segment, -, -, single⟩ := isName.exists_segment
  have split : components ('/' :: (dir ++ name)) =
      components dir ++ [segment] := by
    rw [components_slash_cons, components_append isDir, single]
  by_cases present :
      store.tree (components ('/' :: (dir ++ name))) = true
  · obtain ⟨metadata, found⟩ := answers.stat_present present
    refine ⟨dirs, ?_, ?_⟩
    · rw [climbMissing, found]
    · rw [missing_of_present closed present, List.nil_append]
  · rw [Bool.not_eq_true] at present
    obtain ⟨failure, isNotFound, refused⟩ := answers.stat_absent present
    have more : missing store.tree (components ('/' :: (dir ++ name))) =
        missing store.tree (components dir) ++
          [components ('/' :: (dir ++ name))] := by
      rw [split] at present ⊢
      exact missing_concat present
    rw [climbMissing, refused]
    simp only [isNotFound, if_true, getParent_rooted isDir isName, more]
    by_cases top : '/' :: dir = ['/']
    · have empty : dir = [] := (List.cons.inj top).2
      have none := missing_of_present closed closed.root
      refine ⟨_, dif_pos top, ?_⟩
      subst empty
      show _ = missing store.tree [] ++ _ ++ _
      rw [none]
      rfl
    · obtain ⟨found, climbed, listed⟩ :=
        upper (('/' :: (dir ++ name)) :: dirs)
      rw [dif_neg top]
      refine ⟨found, climbed, ?_⟩
      rw [listed, components_slash_cons dir, List.map_cons,
        List.append_assoc, List.singleton_append]

theorem Answers.climbs_dir (answers : Answers rfc2822 server)
    {store : DirStore} (closed : Closed store.tree) {dir : Path}
    (isDir : IsDir dir) : Climbs rfc2822 server store ('/' :: dir) := by
  induction isDir with
  | root =>
      intro dirs
      have top : store.tree (components ['/']) = true := closed.root
      obtain ⟨metadata, found⟩ := answers.stat_present top
      refine ⟨dirs, ?_, ?_⟩
      · rw [climbMissing, found]
      · have none := missing_of_present closed closed.root
        show _ = missing store.tree [] ++ _
        rw [none, List.nil_append]
  | child parent isSegment induction =>
      exact answers.climbs_name closed parent (.dir isSegment) induction

theorem Answers.climbs (answers : Answers rfc2822 server)
    {store : DirStore} (closed : Closed store.tree) {path : Path}
    (isPath : IsPath path) : Climbs rfc2822 server store ('/' :: path) := by
  cases isPath with
  | root => exact answers.climbs_dir closed .root
  | entry isDir isName =>
      exact answers.climbs_name closed isDir isName
        (answers.climbs_dir closed isDir)

theorem buildRootedAbsPath_normalizeRoot (root path : Path) :
    buildRootedAbsPath (normalizeRoot root) path =
      '/' :: buildAbsPath (normalizeRoot root) path := by
  rw [buildRootedAbsPath, buildAbsPath]
  conv_lhs => rw [cons_drop_normalizeRoot root]
  split
  · rfl
  · rfl

theorem Answers.makes (answers : Answers rfc2822 server)
    {start : DirStore} (closed : Closed start.tree) (root path : Path) :
    Makes
      (server.webdavMkcol rfc2822 (normalizeRoot root) (normalizePath path))
      (components (normalizeRoot root) ++ components (normalizePath path))
      start := by
  have isPath := isPath_buildAbsPath root path
  obtain ⟨found, climbed, listed⟩ := answers.climbs closed isPath []
  rw [components_slash_cons, components_buildAbsPath, List.map_nil,
    List.append_nil] at listed
  obtain ⟨after, made, ran, rest⟩ :=
    makes_missing answers.creates closed listed
  refine ⟨after, made, ?_, rest⟩
  rw [webdavMkcol, buildRootedAbsPath_normalizeRoot, climbed]
  exact ran

end WebdavServer

/-! ## `ensure_parent_dir_exists` -/

theorem components_parentDirs {dir : Path} (isDir : IsDir dir)
    (dirs : List Path) :
    (parentDirs (dirKey dir) (dirKey dir :: dirs)).map components =
      (components dir).inits ++ dirs.map components := by
  induction isDir generalizing dirs with
  | root =>
      rw [parentDirs, dif_pos dirKey_nil]
      rfl
  | @child dir segment parent isSegment induction =>
      have inner := append_name_ne_slash parent (.dir isSegment)
      have filled : dir ++ (segment ++ ['/']) ≠ [] := by simp
      have split := components_child parent isSegment
      rw [dirKey_of_ne_nil filled, parentDirs, dif_neg inner,
        getParent_append parent (.dir isSegment), induction, List.map_cons,
        split, inits_concat, List.append_assoc, List.singleton_append]

theorem components_parentDirs_entry {dir name : Path} (isDir : IsDir dir)
    (isName : IsName name) :
    (parentDirs (dir ++ name) []).map components =
      (components dir).inits := by
  have inner := append_name_ne_slash isDir isName
  rw [parentDirs, dif_neg inner, getParent_append isDir isName,
    components_parentDirs isDir, List.map_nil, List.append_nil]

namespace AzfileServer

variable {server : AzfileServer}

/-- The service says whether a directory exists, and what has become of a
request to create one. -/
structure Answers (server : AzfileServer) : Prop where
  properties : ∀ dir present,
    (server.directoryProperties dir present).status = 404 ↔ present = false
  created : ∀ dir, (server.createDir dir .created).status = 201
  refused : ∀ dir, (server.createDir dir .parentMissing).status ≠ 201 ∧
    (server.createDir dir .parentMissing).errorCode ≠
      some "ResourceAlreadyExists"

theorem locate_eq (root path : Path) :
    locate (normalizeRoot root) path =
      components (normalizeRoot root) ++ components path := by
  rw [locate, components_dropWhile_slash, components_buildAbsPath]

theorem Answers.properties_iff (answers : Answers server)
    (root : Path) (store : DirStore) (path : Path) :
    (server.azfileGetDirectoryProperties (normalizeRoot root) store
        path).status = 404 ↔
      store.tree (locate (normalizeRoot root) path) = false := by
  rw [azfileGetDirectoryProperties, locate, components_dropWhile_slash]
  exact answers.properties _ _

theorem Answers.creates (answers : Answers server) (root : Path) :
    Creates (server.azfileCreateDir root) (locate root) := by
  intro path store absent parent
  simp only [azfileCreateDir, DirStore.create, absent, parent,
    answers.created, Bool.false_eq_true, if_false, if_true]

theorem Answers.create_fails (answers : Answers server) {root path : Path}
    {store : DirStore} (absent : store.tree (locate root path) = false)
    (parent : store.tree (locate root path).dropLast = false) :
    ∃ err after,
      server.azfileCreateDir root path store = (.error err, after) := by
  obtain ⟨status, code⟩ := answers.refused (locate root path)
  have other : (server.createDir (locate root path)
      .parentMissing).errorCode.getD "" ≠ "ResourceAlreadyExists" := by
    rcases found : (server.createDir (locate root path)
      .parentMissing).errorCode with _ | text
    · decide
    · rw [found] at code
      intro same
      exact code (congrArg some same)
  simp only [azfileCreateDir, DirStore.create, absent, parent, status, other,
    Bool.false_eq_true, if_false]
  exact ⟨_, _, rfl⟩

/-- As many directories are left out as there are, if all parents of one that
exists do. -/
theorem Answers.popDirCount_eq (answers : Answers server) (root : Path)
    {store : DirStore} {dirs : List Path}
    (above : dirs.Pairwise fun parent child =>
      store.tree (locate (normalizeRoot root) child) = true →
        store.tree (locate (normalizeRoot root) parent) = true) :
    server.popDirCount (normalizeRoot root) store dirs.reverse dirs.length =
      (dirs.filter fun dir =>
        store.tree (locate (normalizeRoot root) dir)).length := by
  induction dirs using List.reverseRecOn with
  | nil => rfl
  | append_singleton dirs dir induction =>
      rw [List.pairwise_append] at above
      obtain ⟨inner, -, upper⟩ := above
      rw [List.reverse_append, List.reverse_singleton, List.singleton_append,
        popDirCount]
      simp only [answers.properties_iff]
      by_cases present :
          store.tree (locate (normalizeRoot root) dir) = true
      · have all : ∀ other ∈ dirs ++ [dir],
            store.tree (locate (normalizeRoot root) other) = true := by
          intro other member
          rcases List.mem_append.mp member with earlier | last
          · exact upper other earlier dir List.mem_cons_self present
          · rw [List.mem_singleton.mp last]
            exact present
        rw [present, List.filter_eq_self.mpr all]
        rfl
      · rw [Bool.not_eq_true] at present
        rw [if_pos present, List.length_append, List.length_singleton,
          Nat.add_sub_cancel, induction inner, List.filter_append,
          List.filter_singleton, present, cond_false, List.append_nil]

theorem Answers.dirs_located (answers : Answers server) (root : Path)
    {start : DirStore} (closed : Closed start.tree) {dir name : Path}
    (isDir : IsDir dir) (isName : IsName name) :
    ∃ dirs,
      server.ensureParentDirExists (normalizeRoot root) (dir ++ name) start =
        createEach (server.azfileCreateDir (normalizeRoot root)) dirs
          start ∧
      dirs.map (locate (normalizeRoot root)) =
        ((components dir).inits.map
          (components (normalizeRoot root) ++ ·)).filter
            fun below => !start.tree below := by
  have listed : (parentDirs (dir ++ name) []).map
      (locate (normalizeRoot root)) =
      (components dir).inits.map (components (normalizeRoot root) ++ ·) := by
    rw [← components_parentDirs_entry isDir isName, List.map_map]
    exact List.map_congr_left fun path _ => locate_eq root path
  have above : (parentDirs (dir ++ name) []).Pairwise fun parent child =>
      start.tree (locate (normalizeRoot root) child) = true →
        start.tree (locate (normalizeRoot root) parent) = true := by
    have ordered := pairwise_inits (components dir)
    rw [← components_parentDirs_entry isDir isName, List.pairwise_map]
      at ordered
    apply ordered.imp
    intro parent child related present
    rw [locate_eq] at present ⊢
    exact closed.of_prefix
      ((List.prefix_append_right_inj _).mpr related.1) present
  refine ⟨_, rfl, ?_⟩
  have counted : ((parentDirs (dir ++ name) []).filter fun other =>
      start.tree (locate (normalizeRoot root) other)).length =
      (((components dir).inits.map
        (components (normalizeRoot root) ++ ·)).filter start.tree).length := by
    rw [← listed, List.filter_map, List.length_map]
    rfl
  rw [answers.popDirCount_eq root above, counted, List.map_drop, listed]
  exact drop_inits closed _ _

/-- If the directory above the root is missing, so is the root, and it is the
first one to be created. -/
theorem Answers.first_fails (answers : Answers server) {root : List Path}
    {locateRoot : Path} {start : DirStore} (closed : Closed start.tree)
    (orphan : start.tree root.dropLast = false) {dir : List Path}
    {dirs : List Path}
    (located : dirs.map (locate locateRoot) =
      (dir.inits.map (root ++ ·)).filter fun below => !start.tree below) :
    ∃ err after, createEach (server.azfileCreateDir locateRoot) dirs start =
      (.error err, after) := by
  have above : root.dropLast <+: root := List.dropLast_prefix _
  have all : ∀ below ∈ dir.inits.map (root ++ ·),
      (!start.tree below) = true := by
    intro below member
    obtain ⟨rest, _, rfl⟩ := List.mem_map.mp member
    rw [closed.absent (above.trans (List.prefix_append _ rest)) orphan]
    rfl
  have first : dir.inits = [] :: dir.inits.tail := by
    cases dir with
    | nil => rfl
    | cons segment front => rfl
  rw [List.filter_eq_self.mpr all, first, List.map_cons, List.append_nil]
    at located
  obtain ⟨deepest, others, rfl, here, -⟩ := List.map_eq_cons_iff.mp located
  have absent := closed.absent above orphan
  rw [← here] at absent orphan
  obtain ⟨err, after, failed⟩ := answers.create_fails absent orphan
  refine ⟨err, after, ?_⟩
  rw [createEach, Program.bind_error failed]

/-- All parents of the path are created if and only if the parent of the root
exists. -/
theorem Answers.makes_iff (answers : Answers server) {start : DirStore}
    (closed : Closed start.tree) (root path : Path) :
    Makes
        (server.ensureParentDirExists (normalizeRoot root)
          (normalizePath path))
        (components (normalizeRoot root) ++
          components (normalizePath path)).dropLast start ↔
      start.tree (components (normalizeRoot root)).dropLast = true := by
  rcases normalizePath_cases path with top | ⟨dir, name, isDir, isName, split⟩
  · -- nothing is asked for
    rw [top]
    have idle : server.ensureParentDirExists (normalizeRoot root) ['/']
        start = (.ok (), start) := by
      rw [ensureParentDirExists, parentDirs, dif_pos rfl]
      rfl
    have same : components (normalizeRoot root) ++ components ['/'] =
        components (normalizeRoot root) :=
      List.append_nil _
    rw [same]
    constructor
    · intro makes
      obtain ⟨after, made, ran, -, -, -, tree⟩ := makes
      rw [idle] at ran
      cases ran
      exact (tree _).mpr (.inr (List.prefix_refl _))
    · intro parent
      have nothing := missing_of_present closed parent
      have located : ([] : List Path).map (locate (normalizeRoot root)) =
          missing start.tree (components (normalizeRoot root)).dropLast :=
        nothing.symm
      obtain ⟨after, made, ran, rest⟩ :=
        makes_missing (answers.creates _) closed located
      refine ⟨after, made, ?_, rest⟩
      rw [idle]
      exact ran
  · rw [split]
    obtain ⟨segment, -, -, single⟩ := isName.exists_segment
    have inner : (components (normalizeRoot root) ++
        components (dir ++ name)).dropLast =
        components (normalizeRoot root) ++ components dir := by
      rw [components_append isDir, single, ← List.append_assoc,
        List.dropLast_concat]
    obtain ⟨dirs, ran, located⟩ :=
      answers.dirs_located root closed isDir isName
    rw [inner]
    constructor
    · intro makes
      by_contra orphan
      rw [Bool.not_eq_true] at orphan
      obtain ⟨err, after, failed⟩ :=
        answers.first_fails closed orphan located
      obtain ⟨final, made, ended, -⟩ := makes
      rw [ran, failed] at ended
      cases ended
    · intro parent
      rw [← missing_append closed parent] at located
      obtain ⟨after, made, ended, rest⟩ :=
        makes_missing (answers.creates _) closed located
      refine ⟨after, made, ?_, rest⟩
      rw [ran]
      exact ended

end AzfileServer

/-! ## Both services -/

/-- `webdav_mkcol` creates all missing directories, and
`ensure_parent_dir_exists` creates those below the parent of the root. -/
theorem missing_parents_iff {D : Type} {rfc2822 : Text → Option D}
    {webdav : WebdavServer} {azfile : AzfileServer}
    (webdavAnswers : webdav.Answers rfc2822)
    (azfileAnswers : azfile.Answers) {start : DirStore}
    (closed : Closed start.tree) (root path : Path) :
    Makes
      (webdav.webdavMkcol rfc2822 (normalizeRoot root) (normalizePath path))
      (components (normalizeRoot root) ++ components (normalizePath path))
      start ∧
    (Makes
        (azfile.ensureParentDirExists (normalizeRoot root)
          (normalizePath path))
        (components (normalizeRoot root) ++
          components (normalizePath path)).dropLast start ↔
      start.tree (components (normalizeRoot root)).dropLast = true) := by
  constructor
  · exact webdavAnswers.makes closed root path
  · exact azfileAnswers.makes_iff closed root path

/-- A WebDAV service with the documented status codes. -/
def documentedWebdav : WebdavServer where
  propfind _ present :=
    if present then
      ⟨⟨207, none, ""⟩, .ok [⟨[], ⟨['H', ' ', '2', '0', '0', ' ', 'O', 'K'],
        ⟨[], none, none, none, true⟩⟩⟩]⟩
    else
      ⟨⟨404, none, ""⟩, .ok []⟩
  mkcol _ creation :=
    match creation with
    | .created => ⟨201, none, ""⟩
    | .alreadyExists => ⟨405, none, ""⟩
    | .parentMissing => ⟨409, none, ""⟩

def documentedAzfile : AzfileServer where
  directoryProperties _ present :=
    if present then ⟨200, none, ""⟩ else ⟨404, some "ResourceNotFound", ""⟩
  createDir _ creation :=
    match creation with
    | .created => ⟨201, none, ""⟩
    | .alreadyExists => ⟨409, some "ResourceAlreadyExists", ""⟩
    | .parentMissing => ⟨404, some "ParentNotFound", ""⟩

theorem documentedWebdav_answers :
    documentedWebdav.Answers (some : Text → Option Text) where
  present _ := ⟨_, _, _, rfl, rfl, rfl⟩
  absent _ := rfl
  created _ := rfl

theorem documentedAzfile_answers : documentedAzfile.Answers where
  properties dir present := by
    cases present with
    | true => simp [documentedAzfile]
    | false => simp [documentedAzfile]
  created _ := rfl
  refused dir := by simp [documentedAzfile]

/-- The directories on the way down to `dir`, `dir` included. -/
def storeUpTo (dir : List Path) : DirStore where
  tree other := other.isPrefixOf dir
  created := []

theorem closed_storeUpTo (dir : List Path) : Closed (storeUpTo dir).tree where
  root := by simp [storeUpTo]
  parent above name present := by
    simp only [storeUpTo, List.isPrefixOf_iff_prefix] at present ⊢
    exact (List.prefix_append above [name]).trans present

/-- The root is `/x/y/`, and there is no `/x/`. -/
theorem root_without_parent :
    documentedAzfile.Answers ∧ Closed (storeUpTo []).tree ∧
      ¬ Makes
        (documentedAzfile.ensureParentDirExists ['/', 'x', '/', 'y', '/']
          ['a'])
        [['x'], ['y']] (storeUpTo []) := by
  refine ⟨documentedAzfile_answers, closed_storeUpTo [], ?_⟩
  intro makes
  have parent := (documentedAzfile_answers.makes_iff (closed_storeUpTo [])
    ['x', '/', 'y'] ['a']).mp makes
  cases parent

/-- There is `/x/`, and `/x/y/` is created in it. -/
theorem missing_parents_iff_root :
    Makes
      (documentedWebdav.webdavMkcol (some : Text → Option Text)
        ['/', 'x', '/', 'y', '/'] ['a', '/'])
      [['x'], ['y'], ['a']] (storeUpTo [['x']]) ∧
    Makes
      (documentedAzfile.ensureParentDirExists ['/', 'x', '/', 'y', '/']
        ['a', '/', 'b'])
      [['x'], ['y'], ['a']] (storeUpTo [['x']]) := by
  constructor
  · exact (missing_parents_iff documentedWebdav_answers
      documentedAzfile_answers (closed_storeUpTo [['x']])
      ['x', '/', 'y'] ['a', '/']).1
  · exact (missing_parents_iff documentedWebdav_answers
      documentedAzfile_answers (closed_storeUpTo [['x']])
      ['x', '/', 'y'] ['a', '/', 'b']).2.mpr (by decide)

end OpenDal
