import OpenDal.Raw.LookupRuns
import OpenDal.Services.GdriveCache

/-!
# A rename into a trashed target

A rename on Google Drive trashes what is at the target before it looks the
source up.  What was in the target is gone then, and not found any more, unless
it is still cached; and a source that is served from the cache has lost its
directory as soon as that is evicted.
-/

namespace OpenDal

open Path Program

def GdriveFailure.IsError : GdriveFailure → Prop
  | .error _ => True
  | .panic _ => False

namespace GdriveBackend

open PathCacher Gdrive

variable {α : Type} {service : DriveService} {core : GdriveCore}
  {path : Path} {names : List Path} {kind : DriveRequest}
  {effect : Drive → Option (α × Drive)}

/-! ## Requests that are answered -/

/-- Every name of the path is accepted in a query, and read as it is
written. -/
def Readable (service : DriveService) (path : Path) : Prop :=
  ∀ segment ∈ components path,
    service.readName (escapeName segment) = some segment ∧
    service.readName (escapeName (segment ++ ['/'])) =
      some (segment ++ ['/'])

theorem Readable.legible (readable : Readable service path) :
    Legible service path := by
  intro segment member
  obtain ⟨file, folder⟩ := readable segment member
  constructor
  · intro read found
    exact Option.some.inj (found.symm.trans file)
  · intro read found
    exact Option.some.inj (found.symm.trans folder)

theorem Readable.reads (readable : Readable service path)
    (isPath : IsPath path) : ∀ name ∈ path.names,
    service.readName (escapeName name) = some name := by
  intro name member
  obtain ⟨segment, found, rfl | rfl⟩ := isPath.names_mem_components member
  · exact (readable name found).1
  · exact (readable segment found).2

/-- The drive answers all requests. -/
def Calm (core : GdriveCore) : Prop :=
  core.service.replies = fun _ => []

theorem components_getParent (isPath : IsPath path) :
    components (getParent path) ⊆ components path := by
  cases isPath with
  | root => exact List.Subset.refl _
  | @entry dir name isDir isName =>
      rw [getParent_append isDir isName, components_dirKey,
        components_append isDir]
      exact List.subset_append_left _ _

theorem Readable.parent (readable : Readable service path)
    (isPath : IsPath path) : Readable service (getParent path) :=
  fun segment member => readable segment (components_getParent isPath member)

theorem request_calm {gdrive : Gdrive} {value : α} {drive : Drive}
    (calm : gdrive.replies = fun _ => [])
    (accepted : effect gdrive.drive = some (value, drive)) :
    request kind effect gdrive = (.ok value, ⟨drive, fun _ => []⟩) := by
  have replies : Function.update (fun _ => []) kind [] =
      fun _ : DriveRequest => ([] : List DriveReply) :=
    Function.update_eq_self kind _
  simp only [request, calm, accepted, List.headD_nil, List.tail_nil,
    replies]

theorem await_calm {value : α} {drive : Drive} (calm : Calm core)
    (accepted : effect core.service.drive = some (value, drive)) :
    await (request kind effect) core =
      (.ok value, core.answered ⟨drive, fun _ => []⟩) := by
  unfold await
  rw [request_calm calm accepted]

theorem await_query_calm {name : Path} (id : FileId) (calm : Calm core)
    (read : service.readName (escapeName name) = some name) :
    await (query service id name) core =
      (.ok (search id name core.service.drive),
        core.answered ⟨core.service.drive, fun _ => []⟩) := by
  unfold query
  apply await_calm calm
  rw [read]

theorem keeps_calm
    (readable : ∀ name ∈ names,
      service.readName (escapeName name) = some name) :
    Keeps (pathQuery service) names Calm (fun _ => False) where
  root calm := calm
  asked := by
    intro core id name member calm
    show Ensures (await (query service id name)) _ _ core
    unfold Ensures
    rw [await_query_calm id calm (readable name member)]
    rfl
  stored _ _ calm := calm
  noted _ calm := calm

theorem keeps_drive (service : DriveService) (drive : Drive) :
    Keeps (pathQuery service) names (fun core => core.service.drive = drive)
      (fun core => core.service.drive = drive) where
  root same := same
  asked := by
    intro core id name member same
    show Ensures (await (query service id name)) _ _ core
    rw [ensures_await]
    unfold query
    apply ensures_request
    · intro found changed outcome
      split at outcome
      · cases outcome
      · cases outcome
        exact same
    · exact same
    · intro _ found changed outcome
      split at outcome
      · cases outcome
      · cases outcome
        exact same
  stored _ _ same := same
  noted _ same := same

theorem get_calm (isPath : IsPath path) (readable : Readable service path)
    (calm : Calm core) :
    ∃ found after, get (pathQuery service) path core = (.ok found, after) ∧
      Calm after :=
  ((keeps_calm (readable.reads isPath)).get (.inl isPath) calm).ends

/-! ## Panics -/

theorem raises_request :
    Raises GdriveFailure.IsError (request kind effect) := by
  intro gdrive e after failed
  simp only [request] at failed
  split at failed
  · cases failed
    trivial
  · cases failed
    trivial
  · cases failed
  · cases failed
    trivial

theorem raises_pathQuery (service : DriveService) :
    QueryRaises (pathQuery service) GdriveFailure.IsError where
  root := raises_pure
  asked id name := by
    show Raises _ (query service id name)
    exact raises_request
  created id name := by
    show Raises _ (Gdrive.createDir id name)
    exact raises_request

theorem raises_trashPath (path : Path) :
    Raises GdriveFailure.IsError (trashPath service path) := by
  apply (raises_get (raises_pathQuery service) path).bind
  intro found
  cases found with
  | none => exact raises_pure
  | some id =>
      refine Raises.bind (raises_await raises_request) ?_
      intro _
      exact raises_modify

theorem raises_getOrFail (path message : Path) :
    Raises GdriveFailure.IsError (getOrFail service path message) := by
  apply (raises_get (raises_pathQuery service) path).bind
  intro found
  cases found with
  | none => exact raises_fail trivial
  | some id => exact raises_pure

theorem raises_insert (path : Path) (id : FileId) :
    Raises GdriveFailure.IsError
      (PathCacher.insert path id : Program GdriveCore GdriveFailure Unit) := by
  refine Raises.bind (raises_cached path) ?_
  intro hit
  cases hit with
  | some _ => exact raises_pure
  | none => exact raises_modify

theorem get_of_getOrFail {message : Path} {id : FileId}
    {after : GdriveCore}
    (ended : getOrFail service path message core = (.ok id, after)) :
    get (pathQuery service) path core = (.ok (some id), after) := by
  obtain ⟨found, asked, gotten, rest⟩ := bind_eq_ok ended
  cases found with
  | none => cases rest
  | some other =>
      cases rest
      exact gotten

/-- The expectation fails when the source was found, and its parent was
not. -/
theorem panic_of_rename {root source target : Path} {message : String}
    {after : GdriveCore}
    (panics : rename service root source target core =
      (.error (.panic message), after)) :
    ∃ cleared found asked id,
      trashPath service (buildAbsPath root target) core =
        (.ok (), cleared) ∧
      get (pathQuery service) (buildAbsPath root source) cleared =
        (.ok (some id), found) ∧
      get (pathQuery service) (getParent (buildAbsPath root source)) found =
        (.ok none, asked) := by
  have lookups := raises_get (raises_pathQuery service)
  rcases bind_eq_error panics with early | ⟨_, cleared, trashed, later⟩
  · exact (raises_trashPath _ _ _ _ early).elim
  rcases bind_eq_error later with early | ⟨movedId, moved, _, late⟩
  · rcases bind_eq_error early with first | ⟨id, found, gotten, rest⟩
    · exact (raises_getOrFail _ _ _ _ _ first).elim
    rcases bind_eq_error rest with first | ⟨parent, asked, gotParent, rest⟩
    · exact (lookups _ _ _ _ first).elim
    cases parent with
    | none =>
        exact ⟨cleared, found, asked, id, trashed, get_of_getOrFail gotten,
          gotParent⟩
    | some _ =>
        have sends : ∀ parentId, Raises GdriveFailure.IsError
            (await (patchMetadata service id
              (getBasename (buildAbsPath root target)) parentId) :
              Program GdriveCore GdriveFailure FileId) :=
          fun _ => raises_await raises_request
        have raises := (raises_ensureDir (raises_pathQuery service)
          (getParent (buildAbsPath root target))).bind sends
        exact (raises _ _ _ rest).elim
  · have removes : Raises GdriveFailure.IsError
        (remove (buildAbsPath root source) :
          Program GdriveCore GdriveFailure Unit) := raises_modify
    have raises := removes.bind fun _ =>
      raises_insert (buildAbsPath root target) movedId
    exact (raises _ _ _ late).elim

/-! ## A trashed target -/

section Trashed

variable {drive : Drive} {n : Nat} {target : Path}

/-- The target was trashed and forgotten.  The cache is right but for what was
in the target. -/
structure Cleared (drive : Drive) (n : Nat) (target : Path)
    (core : GdriveCore) : Prop where
  valid : drive.Valid
  place : drive.At target.names (.file n)
  trashed : core.service.drive = drive.trash n
  sound : ∀ {key id}, core.cache key = some id →
    drive.walk key.names = some id
  forgotten : core.cache target = none

/-- Not in a path. -/
def Outside (path key : Path) : Prop :=
  ¬ path.names <+: key.names

instance (path key : Path) : Decidable (Outside path key) :=
  inferInstanceAs (Decidable (¬ path.names <+: key.names))

/-- The cacher without what it has cached in a path. -/
def without (path : Path) (core : GdriveCore) : GdriveCore :=
  ⟨core.service,
    fun key => if Outside path key then core.cache key else none,
    core.evictions, []⟩

theorem agree_without (path : Path) (core : GdriveCore) :
    Agree (Outside path) core (without path core) where
  service := rfl
  evictions := rfl
  cache outside := (if_pos outside).symm

theorem closed_outside (path : Path) :
    ∀ {key}, IsPath key → Outside path key → Outside path key.getParent :=
  fun isPath outside above => outside (above.trans isPath.names_getParent)

theorem Cleared.good (cleared : Cleared drive n target core) :
    Good (driveTree service) view (without target core) := by
  have valid' := Drive.valid_trash cleared.valid n
  have same : (view (without target core).service).drive =
      drive.trash n := cleared.trashed
  refine ⟨?_, ?_, fun _ member => nomatch member⟩
  · show (view (without target core).service).drive.Valid
    rw [same]
    exact valid'
  · intro key id hit
    show (view (without target core).service).drive.walk key.names = some id
    rw [same]
    simp only [without] at hit
    split at hit
    · rename_i outside
      have before := (Drive.walk_eq_some_iff cleared.valid).mp
        (cleared.sound hit)
      exact (Drive.walk_eq_some_iff valid').mpr
        (Drive.at_trash cleared.valid cleared.place before outside)
    · cases hit

theorem search_trashed (valid : drive.Valid)
    (place : drive.At target.names (.file n)) {id : FileId}
    {front : List Path} (at' : drive.At front id)
    (below : target.names <+: front) (name : Path) :
    search id name (drive.trash n) = none := by
  rw [search_eq_child (Drive.valid_trash valid n)]
  cases isChild : (drive.trash n).child id name with
  | none => rfl
  | some child =>
      obtain ⟨m, file, rfl, found, rfl, rfl, live⟩ :=
        (Drive.child_eq_some_iff (Drive.valid_trash valid n)).mp isChild
      obtain ⟨before, apart⟩ := Drive.getElem?_of_trash found live
      have inside := (Drive.isBelow_iff valid place
        (.child at' before live)).mpr
          (below.trans (List.prefix_append _ _))
      rw [inside] at apart
      cases apart

theorem Cleared.names_ne_nil (cleared : Cleared drive n target core) :
    target.names ≠ [] := by
  intro empty
  have place := cleared.place
  rw [empty] at place
  cases place.unique cleared.valid .root

theorem Cleared.query_inside (cleared : Cleared drive n target core)
    {dir : List Path} {id : FileId} (place : drive.At dir id)
    (inside : target.names <+: dir) (name : Path) :
    Ensures (await (query service id name)) (fun found _ => found = none)
      (fun _ => True) core := by
  rw [ensures_await]
  unfold query
  apply ensures_request
  · intro found changed outcome
    split at outcome
    · cases outcome
    · rename_i read isRead
      cases outcome
      rw [cleared.trashed]
      exact search_trashed cleared.valid cleared.place place inside read
  · trivial
  · intro _ _ _ _
    trivial

theorem Cleared.get_below (cleared : Cleared drive n target core)
    (isPath : IsPath path) (legible : Legible service path)
    (below : target.names <+: path.names) (free : core.cache path = none) :
    Ensures (get (pathQuery service) path) (fun found _ => found = none)
      (fun _ => True) core := by
  have lawful := lawful_pathQuery service
  have valid' := Drive.valid_trash cleared.valid n
  have missing : ∀ {way : List Path}, target.names <+: way →
      (drive.trash n).walk way = none := by
    intro way longer
    have gone := Drive.walk_trash cleared.valid cleared.place
    obtain ⟨more, rfl⟩ := longer
    exact (driveTree service).lookup_none
      (v := ⟨drive.trash n, [], []⟩) gone more
  obtain ⟨start, last, isStart, same, chain, reason⟩ :=
    climb_spec_path (.inl isPath) core.cache
  have legibleLast := legible.names isPath
  have downwards : ∀ {id paths} {after : GdriveCore},
      after.service.drive = drive.trash n → Chain start paths last →
      (drive.trash n).walk start.names = some id →
      Ensures (queryDown (pathQuery service) id paths)
        (fun found _ => found = none) (fun _ => True) after := by
    intro id paths after trashed chain leads
    rw [← trashed] at leads valid'
    rw [← same] at legibleLast below
    apply (queryDown_exact lawful chain legibleLast valid' leads).mono
    · intro found _ given
      rw [given]
      show after.service.drive.walk last.names = none
      rw [trashed]
      exact missing below
    · intro _ _
      trivial
  simp only [PathCacher.get, ensures_bind, ensures_cached, free,
    PathCacher.search, ensures_gets]
  generalize climb core.cache (path.length + 1) path [] = climbed
    at chain reason ⊢
  obtain ⟨found, paths⟩ := climbed
  cases found with
  | none =>
      have isRoot : start = [] := reason
      subst isRoot
      exact downwards cleared.trashed chain rfl
  | some id =>
      by_cases inside : target.names <+: start.names
      · -- the way starts in the trashed target
        have before := cleared.sound reason
        rw [names_dirKey isStart] at before
        have at' := (Drive.walk_eq_some_iff cleared.valid).mp before
        cases chain with
        | done =>
            -- then the path itself is cached
            rw [← names_dirKey isStart] at same
            cases isPath with
            | root =>
                exact (cleared.names_ne_nil (List.prefix_nil.mp below)).elim
            | entry isDir isName =>
                rw [eq_of_names_eq isDir isName same, free] at reason
                cases reason
        | @step _ name _ rest _ isName later =>
            have asked : Ensures (await (query service id name))
                (fun found _ => found = none) (fun _ => True) core :=
              cleared.query_inside at' inside name
            have down : Ensures (queryDown (pathQuery service) id
                ((start ++ name) :: rest))
                (fun found _ => found = none) (fun _ => True) core := by
              rw [queryDown, getBasename_append isStart isName]
              apply asked.bind
              · intro found after given
                subst given
                rfl
              · intro _ _
                trivial
            exact down
      · have outside : Outside target (dirKey start) := by
          unfold Outside
          rwa [names_dirKey isStart]
        have held : (without target core).cache (dirKey start) =
            some id := (if_pos outside).trans reason
        have good : Good (driveTree service) view (without target core) :=
          cleared.good
        have leads : core.service.drive.walk (dirKey start).names =
            some id := good.sound held
        rw [names_dirKey isStart, cleared.trashed] at leads
        exact downwards cleared.trashed chain leads

theorem gdriveTrash_ends (id : FileId) :
    Ensures (await (gdriveTrash id))
      (fun _ after => ∃ n replies, id = .file n ∧
        after = core.answered ⟨core.service.drive.trash n, replies⟩)
      (fun _ => True) core := by
  rw [ensures_await]
  unfold gdriveTrash
  apply ensures_request
  · intro value changed outcome
    cases id with
    | root => cases outcome
    | file n =>
        cases outcome
        exact ⟨n, _, rfl, rfl⟩
  · trivial
  · intro _ _ _ _
    trivial

/-- When trashing ends there was nothing, or a file has been cleared away. -/
theorem trashPath_ends (isTarget : IsPath target)
    (legible : Legible service target)
    (good : Good (driveTree service) view core) {after : GdriveCore}
    (ended : trashPath service target core = (.ok (), after)) :
    (core.service.drive.walk target.names = none ∧
      Reads (driveTree service) view target.names core after) ∨
    ∃ n, core.service.drive.walk target.names = some (.file n) ∧
      Cleared core.service.drive n target after ∧
      ∀ {key}, (after.cache key).isSome →
        (core.cache key).isSome ∨ key.names <+: target.names := by
  obtain ⟨found, asked, gotten, rest⟩ := bind_eq_ok ended
  obtain ⟨reads, same⟩ := (get_ensures isTarget legible good).of_ok gotten
  have sameDrive : asked.service.drive = core.service.drive :=
    congrArg DriveView.drive reads.same
  cases found with
  | none =>
      cases rest
      exact .inl ⟨same.symm, reads⟩
  | some id =>
      obtain ⟨_, trashed, sent, removal⟩ := bind_eq_ok rest
      obtain ⟨n, replies, rfl, rfl⟩ := (gdriveTrash_ends id).of_ok sent
      cases removal
      refine .inr ⟨n, same.symm, ?_, ?_⟩
      · constructor
        · exact good.valid
        · exact (Drive.walk_eq_some_iff good.valid).mp same.symm
        · exact congrArg (Drive.trash · n) sameDrive
        · intro key id hit
          have held := cache_answered (cache_removed hit).2
          rw [← sameDrive]
          exact reads.good.sound held
        · simp [removed]
      · intro key held
        obtain ⟨id, hit⟩ := Option.isSome_iff_exists.mp held
        have cached := cache_answered (cache_removed hit).2
        exact reads.keys (Option.isSome_iff_exists.mpr ⟨id, cached⟩)

end Trashed

/-! ## When the expectation holds -/

section Expected

variable {source target : Path} {drive : Drive} {n : Nat}
  {cleared found asked : GdriveCore} {id : FileId}

theorem parent_found (isSource : IsPath source)
    (legible : Legible service source)
    (good : Good (driveTree service) view cleared)
    (gotten : get (pathQuery service) source cleared = (.ok (some id), found))
    (missing : get (pathQuery service) (getParent source) found =
      (.ok none, asked)) : False := by
  obtain ⟨reads, leads⟩ := (get_ensures isSource legible good).of_ok gotten
  have parentLegible : ∀ name ∈ (getParent source).names,
      service.Legible name := fun name member =>
    legible.names isSource name (isSource.names_getParent.subset member)
  have gone := ((get_spec (lawful_pathQuery service) isSource.getParent
    parentLegible reads.good).of_ok missing).2
  rw [reads.same] at gone
  have nothing := lookup_eq_none_further gone.symm
    isSource.names_getParent
  have leads' : (driveTree service).lookup (view cleared.service)
      source.names = some id := leads.symm
  rw [nothing] at leads'
  cases leads'

theorem Cleared.parent_found (cleared' : Cleared drive n target cleared)
    (isSource : IsPath source) (legible : Legible service source)
    (outside : Outside target source)
    (gotten : get (pathQuery service) source cleared = (.ok (some id), found))
    (missing : get (pathQuery service) (getParent source) found =
      (.ok none, asked)) : False := by
  have closed := @closed_outside target
  have finds : Alike (Agree (Outside target))
      (get (pathQuery service) source) :=
    alike_get closed (.inl isSource) outside
  have finds' : Alike (Agree (Outside target))
      (get (pathQuery service) (getParent source)) :=
    alike_get closed isSource.getParent (closed isSource outside)
  obtain ⟨found', gotten', agree⟩ :=
    finds.of_eq (agree_without target cleared) gotten
  obtain ⟨asked', missing', _⟩ := finds'.of_eq agree missing
  exact GdriveBackend.parent_found isSource legible cleared'.good gotten'
    missing'

/-- The expectation holds unless the source is cached in a target that is
trashed. -/
theorem not_panic {root source target : Path} {message : String}
    {after : GdriveCore} (good : Good (driveTree service) view core)
    (isSource : IsPath (buildAbsPath root source))
    (isTarget : IsPath (buildAbsPath root target))
    (legibleSource : Legible service (buildAbsPath root source))
    (legibleTarget : Legible service (buildAbsPath root target))
    (distinct : buildAbsPath root source ≠ buildAbsPath root target)
    (safe : ∀ n, core.service.drive.walk (buildAbsPath root target).names =
        some (.file n) →
      (buildAbsPath root target).names <+: (buildAbsPath root source).names →
      core.cache (buildAbsPath root source) = none)
    (panics : rename service root source target core =
      (.error (.panic message), after)) : False := by
  obtain ⟨cleared, found, asked, id, trashed, gotten, missing⟩ :=
    panic_of_rename panics
  generalize buildAbsPath root source = source at *
  generalize buildAbsPath root target = target at *
  rcases trashPath_ends isTarget legibleTarget good trashed with
    ⟨_, reads⟩ | ⟨n, leads, isCleared, keys⟩
  · exact parent_found isSource legibleSource reads.good gotten missing
  · by_cases below : target.names <+: source.names
    · have free : cleared.cache source = none := by
        by_contra held
        rcases keys (Option.isSome_iff_ne_none.mpr held) with
          before | onTheWay
        · rw [safe n leads below] at before
          cases before
        · have same := onTheWay.eq_of_length_le below.length_le
          cases isTarget with
          | root => exact isCleared.names_ne_nil rfl
          | entry isDir isName =>
              exact distinct (eq_of_names_eq isDir isName same)
      have nothing := (isCleared.get_below isSource legibleSource below
        free).of_ok gotten
      cases nothing
    · exact isCleared.parent_found isSource legibleSource below gotten
        missing

/-- What is in a file is not the root, and neither is its directory, which is
in the file or is the file itself. -/
theorem parent_below (isSource : IsPath source)
    (filled : target.names ≠ []) (below : target.names <+: source.names)
    (other : target.names ≠ source.names) :
    IsPath (getParent source) ∧ target.names <+: (getParent source).names := by
  cases isSource with
  | root => exact (filled (List.prefix_nil.mp below)).elim
  | @entry dir name isDir isName =>
      have shorter : target.names <+: dir.names := by
        rw [names_append isDir isName] at below other
        rcases List.prefix_concat_iff.mp below with same | shorter
        · exact (other same).elim
        · exact shorter
      have inner : dir ≠ [] := by
        intro empty
        rw [empty] at shorter
        exact filled (List.prefix_nil.mp shorter)
      rw [getParent_append isDir isName, dirKey_of_ne_nil inner]
      exact ⟨isDir.isPath, shorter⟩

theorem rename_panics {root source target : Path}
    (trashed : trashPath service (buildAbsPath root target) core =
      (.ok (), cleared))
    (gotten : get (pathQuery service) (buildAbsPath root source) cleared =
      (.ok (some id), found))
    (missing : get (pathQuery service) (getParent (buildAbsPath root source))
      found = (.ok none, asked)) :
    rename service root source target core =
      (.error (.panic "old parent must exist"), asked) := by
  unfold rename
  rw [bind_ok trashed]
  apply bind_error
  unfold gdrivePatchMetadataRequest
  have sourceId : getOrFail service (buildAbsPath root source)
      "source path not found: ".toList cleared = (.ok id, found) :=
    bind_ok gotten
  rw [bind_ok sourceId, bind_ok missing]
  rfl

theorem trashPath_calm
    (gotten : get (pathQuery service) target core =
      (.ok (some (.file n)), found)) (calm : Calm found) :
    trashPath service target core = (.ok (), removed target
      (found.answered ⟨found.service.drive.trash n, fun _ => []⟩)) := by
  have sent : await (gdriveTrash (.file n)) found = (.ok (),
      found.answered ⟨found.service.drive.trash n, fun _ => []⟩) :=
    await_calm calm rfl
  unfold trashPath
  rw [bind_ok gotten]
  show (await (gdriveTrash (.file n)) >>= fun _ => remove target) found = _
  rw [bind_ok sent]
  rfl

theorem ne_getParent (isSource : IsPath source) (filled : source.names ≠ []) :
    source ≠ getParent source := by
  intro same
  cases isSource with
  | root => exact filled rfl
  | entry isDir isName =>
      have names := congrArg names same
      rw [getParent_append isDir isName, names_dirKey isDir,
        names_append isDir isName] at names
      simp at names

/-- A lookup keeps what is cached, apart from the key that is evicted. -/
theorem held_of_get (isTarget : IsPath target) {key : Path}
    (cached : (core.cache source).isSome)
    (evicted : core.evictions = [[key]]) (other : source ≠ key)
    (gotten : get (pathQuery service) target core =
      (.ok (some (.file n)), found)) : Held source found := by
  have start : Held source core := by
    refine ⟨cached, ?_⟩
    intro keys member
    rw [evicted, List.mem_singleton] at member
    rw [member, List.mem_singleton]
    exact other
  exact (keeps_held.get (.inl isTarget) start).of_ok gotten

/-- The key that is evicted during the lookup of a target above it is not in
the cache when the target has been trashed. -/
theorem uncached_of_get (isTarget : IsPath target)
    (filled : target.names ≠ []) {key : Path}
    (below : target.names <+: key.names) (evicted : core.evictions = [[key]])
    (gotten : get (pathQuery service) target core =
      (.ok (some (.file n)), found)) (later : Gdrive) :
    (removed target (found.answered later)).cache key = none := by
  by_cases same : key = target
  · simp [removed, same]
  · have outside : ¬ key.names <+: target.names := by
      intro above
      have equal := above.eq_of_length_le below.length_le
      cases isTarget with
      | root => exact filled rfl
      | entry isDir isName => exact same (eq_of_names_eq isDir isName equal)
    have start : Gone key core := by
      refine .inr ?_
      rw [evicted]
      exact List.mem_singleton_self _
    have gone := ((keeps_gone outside).get (.inl isTarget) start).of_ok gotten
    simp only [removed, Function.update_of_ne same]
    exact gone.uncached _

/-- A source that is cached in a target has lost its directory, once the
target is trashed and the directory evicted. -/
theorem loses_parent (good : Good (driveTree service) view core)
    (isSource : IsPath source) (isTarget : IsPath target)
    (readableSource : Readable service source)
    (readableTarget : Readable service target) (distinct : source ≠ target)
    (leads : core.service.drive.walk target.names = some (.file n))
    (below : target.names <+: source.names)
    (cached : (core.cache source).isSome) (calm : Calm core)
    (evicted : core.evictions = [[getParent source]]) :
    ∃ cleared found asked id,
      trashPath service target core = (.ok (), cleared) ∧
      get (pathQuery service) source cleared = (.ok (some id), found) ∧
      get (pathQuery service) (getParent source) found =
        (.ok none, asked) := by
  have place := (Drive.walk_eq_some_iff good.valid).mp leads
  have filled : target.names ≠ [] := by
    intro empty
    rw [empty] at place
    cases place.unique good.valid .root
  have other : target.names ≠ source.names := by
    intro same
    cases isTarget with
    | root => exact filled rfl
    | entry isDir isName =>
        exact distinct (eq_of_names_eq isDir isName same.symm)
  obtain ⟨isParent, parentBelow⟩ :=
    parent_below isSource filled below other
  have childOfParent : source ≠ getParent source := by
    apply ne_getParent isSource
    intro empty
    rw [empty] at below
    exact filled (List.prefix_nil.mp below)
  -- the target is looked up and trashed
  obtain ⟨found, asked, gotten, calm'⟩ :=
    get_calm isTarget readableTarget calm
  obtain ⟨_, isFound⟩ :=
    (get_ensures isTarget readableTarget.legible good).of_ok gotten
  rw [leads] at isFound
  subst isFound
  have trashed := trashPath_calm gotten calm'
  generalize isAfter : removed target
    (asked.answered ⟨asked.service.drive.trash n, fun _ => []⟩) = after
    at trashed
  have held : Held source asked :=
    held_of_get isTarget cached evicted childOfParent gotten
  have stillCached : (after.cache source).isSome := by
    rw [← isAfter]
    simp only [removed, Function.update_of_ne distinct]
    exact (held.answered _).cached
  have parentGone : after.cache (getParent source) = none := by
    rw [← isAfter]
    exact uncached_of_get isTarget filled parentBelow evicted gotten _
  have isCleared : Cleared core.service.drive n target after := by
    rcases trashPath_ends isTarget readableTarget.legible good trashed with
      ⟨missing, _⟩ | ⟨m, leads', isCleared, _⟩
    · rw [leads] at missing
      cases missing
    · rw [leads] at leads'
      cases leads'
      exact isCleared
  -- the source is served from the cache, its directory is not
  obtain ⟨id, hit⟩ := Option.isSome_iff_exists.mp stillCached
  have served : get (pathQuery service) source after = (.ok (some id),
      { after with
        served := ⟨source, some id, after.service⟩ :: after.served }) :=
    get_of_cached hit
  have calmAfter : Calm { after with
      served := ⟨source, some id, after.service⟩ :: after.served } := by
    rw [← isAfter]
    rfl
  have isCleared' : Cleared core.service.drive n target
      { after with
        served := ⟨source, some id, after.service⟩ :: after.served } :=
    ⟨isCleared.valid, isCleared.place, isCleared.trashed, isCleared.sound,
      isCleared.forgotten⟩
  have readableParent := readableSource.parent isSource
  obtain ⟨answer, last, askedParent, _⟩ :=
    get_calm isParent readableParent calmAfter
  have missing := (isCleared'.get_below isParent readableParent.legible
    parentBelow parentGone).of_ok askedParent
  subst missing
  exact ⟨after, _, last, id, trashed, served, askedParent⟩

end Expected

end GdriveBackend

end OpenDal
