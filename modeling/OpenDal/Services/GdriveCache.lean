import OpenDal.Automaton
import OpenDal.Raw.CachedPaths
import OpenDal.Services.DriveChanges
import OpenDal.Services.Gdrive

/-!
# The path cache of the Google Drive backend

The cache answers with live files as long as no operation changes what the
cached paths lead to.  A folder that is trashed or moved takes everything in it
along, and the backend only forgets the path of the folder itself.  So every
operation is safe when nothing below such a folder is cached.
-/

namespace OpenDal

open Path Program

/-! ## The drive as a tree of names -/

/-- The drive, and the replies to the requests that change a file. -/
structure DriveView where
  drive : Drive
  trash : List DriveReply
  patch : List DriveReply

instance : Preorder DriveView where
  le left right := left.drive ≤ right.drive ∧ left.trash = right.trash ∧
    left.patch = right.patch
  le_refl view := ⟨le_refl view.drive, rfl, rfl⟩
  le_trans _ _ _ first second :=
    ⟨le_trans first.1 second.1, first.2.1.trans second.2.1,
      first.2.2.trans second.2.2⟩

def Gdrive.view (gdrive : Gdrive) : DriveView :=
  ⟨gdrive.drive, gdrive.replies .trash, gdrive.replies .patch⟩

/-- A search query for the name is read as one for that name, if it is
accepted. -/
def DriveService.Legible (service : DriveService) (name : Path) : Prop :=
  ∀ read, service.readName (Gdrive.escapeName name) = some read → read = name

def driveTree (service : DriveService) : NameTree DriveView FileId where
  lookup view := view.drive.walk
  Valid view := view.drive.Valid
  Legible := service.Legible
  lookup_mono := by
    intro before after names id valid valid' grown found
    rw [Drive.walk_eq_some_iff valid] at found
    exact (Drive.walk_eq_some_iff valid').mpr (found.mono grown.1)
  lookup_none := by
    intro view names missing more
    simp only [Drive.walk, List.foldlM_append] at missing ⊢
    rw [missing]
    rfl

namespace Gdrive

variable {α : Type} {service : DriveService}

theorem ensures_request {kind : DriveRequest}
    {effect : Drive → Option (α × Drive)} {post : α → Gdrive → Prop}
    {fails : Gdrive → Prop} {gdrive : Gdrive}
    (done : ∀ {value drive}, effect gdrive.drive = some (value, drive) →
      post value ⟨drive, Function.update gdrive.replies kind
        (gdrive.replies kind).tail⟩)
    (refused : fails ⟨gdrive.drive, Function.update gdrive.replies kind
      (gdrive.replies kind).tail⟩)
    (lost : (∃ reply ∈ gdrive.replies kind, reply.isLost = true) →
      ∀ {value drive}, effect gdrive.drive = some (value, drive) →
        fails ⟨drive, Function.update gdrive.replies kind
          (gdrive.replies kind).tail⟩) :
    Ensures (request kind effect) post fails gdrive := by
  unfold Ensures request
  cases taken : (gdrive.replies kind).headD .done with
  | refused err => simpa only [taken] using refused
  | done =>
      cases outcome : effect gdrive.drive with
      | none => simpa only [taken, outcome] using refused
      | some result => simpa only [taken, outcome] using done outcome
  | lost err =>
      cases outcome : effect gdrive.drive with
      | none => simpa only [taken, outcome] using refused
      | some result =>
          have member : ∃ reply ∈ gdrive.replies kind,
              reply.isLost = true := by
            cases replies : gdrive.replies kind with
            | nil =>
                rw [replies] at taken
                cases taken
            | cons first rest =>
                rw [replies] at taken
                exact ⟨first, List.mem_cons_self, by
                  rw [show first = .lost err from taken]; rfl⟩
          simpa only [taken, outcome] using lost member outcome

/-- In a valid drive, files of one name in one folder need no further
distinction. -/
theorem search_eq_child {drive : Drive} (valid : drive.Valid)
    (parentId : FileId) (name : Path) :
    search parentId name drive = drive.child parentId name := by
  cases found : drive.child parentId name with
  | none =>
      rw [Drive.child, Option.map_eq_none_iff, List.findIdx?_eq_none_iff]
        at found
      rw [search, Option.map_eq_none_iff, List.findIdx?_eq_none_iff]
      intro file member
      rw [found file member, Bool.false_and]
  | some id =>
      obtain ⟨n, index, rfl⟩ := Option.map_eq_some_iff.mp found
      obtain ⟨inside, holds, first⟩ :=
        List.findIdx?_eq_some_iff_getElem.mp index
      refine Option.map_eq_some_iff.mpr ⟨n, ?_, rfl⟩
      refine List.findIdx?_eq_some_iff_getElem.mpr ⟨inside, ?_, ?_⟩
      · rw [holds, Bool.true_and]
        simp only [Bool.and_eq_true, beq_iff_eq, Bool.not_eq_true'] at holds
        by_cases slash : endsWithSlash name = true
        · have folder := valid.folders (List.getElem?_eq_getElem inside)
            holds.2 (by rw [holds.1.2, slash])
          simp [folder]
        · simp [slash]
      · intro m before
        have earlier := first m before
        rw [Bool.not_eq_true] at earlier
        rw [earlier, Bool.false_and]
        exact Bool.false_ne_true

theorem adds_create {drive : Drive} {front : List Path} {file : GdriveFile}
    (valid : drive.Valid) (at' : drive.At front file.parent)
    (missing : drive.walk (front ++ [file.name]) = none)
    (isFolder : file.name.endsWithSlash = true → file.folder = true)
    (trash patch : List DriveReply) :
    (driveTree service).Adds (front ++ [file.name]) ⟨drive, trash, patch⟩
      ⟨drive.create file, trash, patch⟩ := by
  have noChild := Drive.child_eq_none_of_walk valid at' missing
  have valid' := Drive.valid_create valid at' noChild isFolder
  refine ⟨valid', ⟨Drive.le_create file, rfl, rfl⟩, ?_⟩
  intro found id lookup
  rcases Drive.at_of_at_create valid at' noChild isFolder
    ((Drive.walk_eq_some_iff valid').mp lookup) with earlier | rfl
  · exact .inl ((Drive.walk_eq_some_iff valid).mpr earlier)
  · exact .inr (List.prefix_refl _)

theorem lawful_pathQuery (service : DriveService) :
    (pathQuery service).Lawful (driveTree service) view where
  root_ensures := by
    intro gdrive
    exact ⟨rfl, rfl⟩
  query_ensures := by
    intro gdrive dir id name valid leads legible
    show Ensures (query service id name) _ _ gdrive
    unfold query
    apply ensures_request
    · intro value drive outcome
      split at outcome
      · cases outcome
      · rename_i read isRead
        cases outcome
        refine ⟨rfl, ?_⟩
        have same := legible read isRead
        subst same
        have walked : gdrive.drive.walk dir = some id := leads
        show search id read gdrive.drive = gdrive.drive.walk (dir ++ [read])
        rw [Drive.walk_concat, walked]
        exact search_eq_child valid id read
    · rfl
    · intro _ value drive outcome
      split at outcome
      · cases outcome
      · cases outcome
        rfl
  createDir_ensures := by
    intro gdrive dir id name valid leads slash missing
    let file : GdriveFile := ⟨name, id, true, false⟩
    have at' : gdrive.drive.At dir file.parent :=
      (Drive.walk_eq_some_iff valid).mp leads
    have absent : gdrive.drive.walk (dir ++ [file.name]) = none := missing
    have adds : (driveTree service).Adds (dir ++ [name]) (view gdrive)
        ⟨gdrive.drive.create file, gdrive.replies .trash,
          gdrive.replies .patch⟩ :=
      adds_create valid at' absent (fun _ => rfl) _ _
    show Ensures (createDir id name) _ _ gdrive
    unfold createDir
    apply ensures_request
    · intro value drive outcome
      cases outcome
      refine ⟨adds, ?_⟩
      exact (Drive.walk_eq_some_iff adds.valid).mpr
        (Drive.at_create at' rfl)
    · exact ⟨valid, le_refl _, fun found => .inl found⟩
    · intro _ value drive outcome
      cases outcome
      exact adds

end Gdrive

/-! ## Operations that keep every path -/

namespace GdriveBackend

open PathCacher Gdrive

variable {service : DriveService} {core : GdriveCore} {path : Path}

/-- Every name of the path is read as it is written. -/
def Legible (service : DriveService) (path : Path) : Prop :=
  ∀ segment ∈ components path,
    service.Legible segment ∧ service.Legible (segment ++ ['/'])

theorem Legible.names (legible : Legible service path)
    (isPath : IsPath path) : ∀ name ∈ path.names, service.Legible name := by
  intro name member
  obtain ⟨segment, found, rfl | rfl⟩ := isPath.names_mem_components member
  · exact (legible name found).1
  · exact (legible segment found).2

theorem Legible.ensuredDir (legible : Legible service path) :
    ∀ name ∈ (ensuredDir path).names, service.Legible name := by
  have clean : ∀ segment ∈ components path, IsSegment segment :=
    fun _ => isSegment_of_mem_components
  have isDir : IsDir (PathCacher.ensuredDir path) :=
    isDir_flatMap .root clean
  intro name member
  obtain ⟨segment, found, rfl⟩ := names_mem_components isDir member
  rw [PathCacher.ensuredDir, components_flatMap clean] at found
  exact (legible segment found).2

theorem ensuredDir_getParent {dir name : Path} (isDir : IsDir dir)
    (isName : IsName name) : ensuredDir (getParent (dir ++ name)) = dir := by
  rw [ensuredDir, getParent_append isDir isName, components_dirKey,
    flatMap_components isDir]

theorem Legible.dir {dir name : Path} (isDir : IsDir dir)
    (isName : IsName name) (legible : Legible service (dir ++ name)) :
    ∀ name ∈ dir.names, service.Legible name := by
  intro other member
  apply legible.names (.entry isDir isName)
  exact (isDir_prefix_names isDir isName).subset member

theorem get_ensures (isPath : IsPath path) (legible : Legible service path)
    (good : Good (driveTree service) view core) :
    Ensures (get (pathQuery service) path)
      (fun found after => Reads (driveTree service) view path.names core after ∧
        found = core.service.drive.walk path.names)
      (Reads (driveTree service) view path.names core) core :=
  get_spec (lawful_pathQuery service) (.inl isPath) (legible.names isPath)
    good

theorem good_answered (good : Good (driveTree service) view core)
    (replies : DriveRequest → List DriveReply) :
    Good (driveTree service) view
      (core.answered ⟨core.service.drive, replies⟩) := by
  refine ⟨good.valid, ?_, good.exact⟩
  intro key id hit
  exact good.sound (cache_answered hit)

theorem await_unchanged {α : Type} {kind : DriveRequest} (value : α)
    (good : Good (driveTree service) view core) :
    Ensures (await (request kind fun drive => some (value, drive)))
      (fun _ => Good (driveTree service) view)
      (Good (driveTree service) view) core := by
  rw [ensures_await]
  apply ensures_request
  · intro found drive outcome
    cases outcome
    exact good_answered good _
  · exact good_answered good _
  · intro _ found drive outcome
    cases outcome
    exact good_answered good _

theorem insert_ensures {id : FileId}
    (good : Good (driveTree service) view core)
    (leads : core.service.drive.walk path.names = some id) :
    Ensures (PathCacher.insert path id :
        Program GdriveCore GdriveFailure Unit)
      (fun _ => Good (driveTree service) view)
      (Good (driveTree service) view) core := by
  simp only [PathCacher.insert, ensures_bind, ensures_cached]
  cases hit : core.cache path with
  | some _ => exact good
  | none => exact (good.reads_stored (List.prefix_refl _) leads).good

theorem createDir_ensures (root : Path)
    (legible : Legible service (buildAbsPath root path))
    (good : Good (driveTree service) view core) :
    Ensures (createDir service root path)
      (fun _ => Good (driveTree service) view)
      (Good (driveTree service) view) core := by
  apply (ensureDir_spec (lawful_pathQuery service) (buildAbsPath root path)
    legible.ensuredDir good).bind
  · intro id after given
    exact given.1.good
  · intro after grows
    exact grows.good

theorem getOrFail_ensures (isPath : IsPath path)
    (legible : Legible service path) (message : Path)
    (good : Good (driveTree service) view core) :
    Ensures (getOrFail service path message)
      (fun id after => Reads (driveTree service) view path.names core after ∧
        core.service.drive.walk path.names = some id)
      (Good (driveTree service) view) core := by
  apply (get_ensures isPath legible good).bind
  · intro found after given
    cases found with
    | some id => exact ⟨given.1, given.2.symm⟩
    | none => exact given.1.good
  · intro after reads
    exact reads.good

theorem stat_ensures {root : Path} (isPath : IsPath (buildAbsPath root path))
    (legible : Legible service (buildAbsPath root path))
    (good : Good (driveTree service) view core) :
    Ensures (stat service root path) (fun _ => Good (driveTree service) view)
      (Good (driveTree service) view) core := by
  apply (getOrFail_ensures isPath legible _ good).bind
  · intro id after given
    exact await_unchanged () given.1.good
  · intro after kept
    exact kept

theorem exists_of_walk_eq_none (isPath : IsPath path) {drive : Drive}
    (missing : drive.walk path.names = none) :
    ∃ dir name, IsDir dir ∧ IsName name ∧ path = dir ++ name := by
  cases isPath with
  | root => cases missing
  | entry isDir isName => exact ⟨_, _, isDir, isName, rfl⟩

/-- After its directory was made, a path that led nowhere still leads
nowhere. -/
theorem walk_eq_none_of_grows {dir name : Path} {before after : GdriveCore}
    (isDir : IsDir dir) (isName : IsName name)
    (grows : Grows (driveTree service) view dir.names before after)
    (missing : before.service.drive.walk (dir ++ name).names = none) :
    after.service.drive.walk (dir.names ++ [name]) = none := by
  rw [names_append isDir isName] at missing
  cases found : after.service.drive.walk (dir.names ++ [name]) with
  | none => rfl
  | some id =>
      rcases grows.adds.only found with earlier | onTheWay
      · have walked : before.service.drive.walk (dir.names ++ [name]) =
            some id := earlier
        rw [missing] at walked
        cases walked
      · have longer := onTheWay.length_le
        rw [List.length_append, List.length_singleton] at longer
        omega

theorem ensureParent_ensures {dir name : Path} (isDir : IsDir dir)
    (isName : IsName name) (legible : Legible service (dir ++ name))
    (good : Good (driveTree service) view core) :
    Ensures (ensureDir (pathQuery service) (getParent (dir ++ name)))
      (fun value after => Grows (driveTree service) view dir.names core after ∧
        after.service.drive.walk dir.names = some value)
      (Grows (driveTree service) view dir.names core) core := by
  have same := ensuredDir_getParent isDir isName
  have dirLegible : ∀ other ∈ (ensuredDir (getParent (dir ++ name))).names,
      service.Legible other := by
    rw [same]
    exact legible.dir isDir isName
  have made := ensureDir_spec (lawful_pathQuery service)
    (getParent (dir ++ name)) dirLegible good
  rwa [same] at made

theorem uploadSimple_ensures {dir name : Path} {parent : FileId}
    (isDir : IsDir dir) (isName : IsName name)
    (isFile : endsWithSlash name = false)
    (good : Good (driveTree service) view core)
    (leads : core.service.drive.walk dir.names = some parent)
    (missing : core.service.drive.walk (dir.names ++ [name]) = none) :
    Ensures (await (uploadSimple parent name))
      (fun id after => Good (driveTree service) view after ∧
        after.service.drive.walk (dir ++ name).names = some id)
      (Good (driveTree service) view) core := by
  let file : GdriveFile := ⟨name, parent, false, false⟩
  have at' : core.service.drive.At dir.names file.parent :=
    (Drive.walk_eq_some_iff good.valid).mp leads
  have absent : core.service.drive.walk (dir.names ++ [file.name]) = none :=
    missing
  have noFolder : endsWithSlash file.name = true → file.folder = true := by
    intro slash
    rw [show endsWithSlash file.name = false from isFile] at slash
    cases slash
  have adds : (driveTree service).Adds (dir.names ++ [name])
      core.service.view
      ⟨core.service.drive.create file, core.service.replies .trash,
        core.service.replies .patch⟩ :=
    adds_create good.valid at' absent noFolder _ _
  have keeps : Good (driveTree service) view (core.answered
      ⟨core.service.drive.create file, Function.update core.service.replies
        .upload (core.service.replies .upload).tail⟩) :=
    (good.grows_answered adds).good
  rw [ensures_await]
  unfold uploadSimple
  apply ensures_request
  · intro id drive outcome
    cases outcome
    refine ⟨keeps, ?_⟩
    rw [names_append isDir isName]
    exact (Drive.walk_eq_some_iff keeps.valid).mpr (Drive.at_create at' rfl)
  · exact good_answered good _
  · intro _ id drive outcome
    cases outcome
    exact keeps

theorem write_ensures {root : Path}
    (isPath : IsPath (buildAbsPath root path))
    (legible : Legible service (buildAbsPath root path))
    (isFile : endsWithSlash (buildAbsPath root path) = true →
      core.service.drive.walk (buildAbsPath root path).names ≠ none)
    (good : Good (driveTree service) view core) :
    Ensures (write service root path) (fun _ => Good (driveTree service) view)
      (Good (driveTree service) view) core := by
  show Ensures (get (pathQuery service) (buildAbsPath root path) >>=
    writeOnce service (buildAbsPath root path)) _ _ core
  generalize buildAbsPath root path = abs at isPath legible isFile ⊢
  apply (get_ensures isPath legible good).bind
  · intro found opened given
    obtain ⟨reads, same⟩ := given
    cases found with
    | some id => exact await_unchanged () reads.good
    | none =>
        obtain ⟨dir, name, isDir, isName, rfl⟩ :=
          exists_of_walk_eq_none isPath same.symm
        have noSlash : endsWithSlash name = false := by
          rw [← endsWithSlash_append dir isName.ne_nil]
          by_contra slash
          exact isFile (by simpa using slash) same.symm
        have missing : opened.service.drive.walk (dir ++ name).names =
            none := by
          rw [show opened.service.drive = core.service.drive from
            congrArg DriveView.drive reads.same]
          exact same.symm
        unfold writeOnce
        apply (ensureParent_ensures isDir isName legible reads.good).bind
        · intro parent after given
          obtain ⟨grows, leads⟩ := given
          have absent := walk_eq_none_of_grows isDir isName grows missing
          rw [getBasename_append isDir isName]
          apply (uploadSimple_ensures isDir isName noSlash grows.good leads
            absent).bind
          · intro id last written
            exact insert_ensures written.1 written.2
          · intro last kept
            exact kept
        · intro after grows
          exact grows.good
  · intro after reads
    exact reads.good

/-! ## Trashing a path -/

/-- If the path is that of a directory, no path below it is cached. -/
def NothingBelow (cache : Path → Option FileId) (path : Path) : Prop :=
  endsWithSlash path = true →
    ∀ key, path <+: key → key ≠ path → cache key = none

theorem NothingBelow.apart {cache : Path → Option FileId} {dir name : Path}
    (nothing : NothingBelow cache (dir ++ name)) (isDir : IsDir dir)
    (isName : IsName name) {key : Path} (held : (cache key).isSome)
    (other : key ≠ dir ++ name) : ¬ (dir ++ name).names <+: key.names := by
  intro below
  rcases eq_or_prefix_of_names_prefix isDir isName below with
    same | ⟨slash, longer⟩
  · exact other same
  · rw [nothing slash key longer other] at held
    cases held

/-- The path is forgotten and leads nowhere any more. -/
structure Trashed (service : DriveService) (path : Path)
    (before after : GdriveCore) : Prop where
  good : Good (driveTree service) view after
  missing : after.service.drive.walk path.names = none
  drive : after.service.drive = before.service.drive ∨
    ∃ n, after.service.drive = before.service.drive.trash n
  patch : after.service.replies .patch = before.service.replies .patch
  keys : ∀ {key}, (after.cache key).isSome →
    (before.cache key).isSome ∨ key.names <+: path.names

theorem cache_removed {σ ι : Type} {cacher : PathCacher σ ι} {key : Path}
    {id : ι} (hit : (cacher.removed path).cache key = some id) :
    key ≠ path ∧ cacher.cache key = some id := by
  simp only [removed, Function.update_apply] at hit
  split at hit
  · cases hit
  · rename_i other
    exact ⟨other, hit⟩

/-- Trashing keeps a cache right that holds nothing below the path. -/
theorem good_trash {dir name : Path} {n : Nat}
    (good : Good (driveTree service) view core)
    (leads : core.service.drive.walk (dir ++ name).names = some (.file n))
    (apart : ∀ {key}, (core.cache key).isSome → key ≠ dir ++ name →
      ¬ (dir ++ name).names <+: key.names)
    (replies : DriveRequest → List DriveReply) :
    Good (driveTree service) view (removed (dir ++ name)
      (core.answered ⟨core.service.drive.trash n, replies⟩)) := by
  have valid := good.valid
  have at' := (Drive.walk_eq_some_iff valid).mp leads
  have valid' := Drive.valid_trash valid n
  refine ⟨valid', ?_, good.exact⟩
  intro key id hit
  obtain ⟨other, held⟩ := cache_removed hit
  have cached := cache_answered held
  have outside := apart (Option.isSome_iff_exists.mpr ⟨id, cached⟩) other
  have before := (Drive.walk_eq_some_iff valid).mp (good.sound cached)
  exact (Drive.walk_eq_some_iff valid').mpr
    (Drive.at_trash valid at' before outside)

theorem trashPath_ensures (isPath : IsPath path)
    (legible : Legible service path)
    (nothing : NothingBelow core.cache path)
    (answered : ∀ reply ∈ core.service.replies .trash, reply.isLost = false)
    (good : Good (driveTree service) view core) :
    Ensures (trashPath service path) (fun _ => Trashed service path core)
      (Good (driveTree service) view) core := by
  apply (get_ensures isPath legible good).bind
  · intro found after given
    obtain ⟨reads, same⟩ := given
    have sameDrive : after.service.drive = core.service.drive :=
      congrArg DriveView.drive reads.same
    have samePatch : after.service.replies .patch =
        core.service.replies .patch := congrArg DriveView.patch reads.same
    have sameTrash : after.service.replies .trash =
        core.service.replies .trash := congrArg DriveView.trash reads.same
    cases found with
    | none =>
        refine ⟨reads.good, ?_, .inl sameDrive, samePatch, reads.keys⟩
        rw [sameDrive]
        exact same.symm
    | some id =>
        simp only [ensures_bind, ensures_await]
        unfold gdriveTrash
        apply ensures_request
        · intro value drive outcome
          cases id with
          | root => cases outcome
          | file n =>
              cases outcome
              cases isPath with
              | root => cases same
              | @entry dir name isDir isName =>
                  have leads : after.service.drive.walk (dir ++ name).names =
                      some (.file n) := by
                    rw [sameDrive]
                    exact same.symm
                  have apart : ∀ {key}, (after.cache key).isSome →
                      key ≠ dir ++ name →
                      ¬ (dir ++ name).names <+: key.names := by
                    intro key held other below
                    rcases reads.keys held with earlier | onTheWay
                    · exact nothing.apart isDir isName earlier other below
                    · exact other (eq_of_names_eq isDir isName
                        (onTheWay.eq_of_length_le below.length_le))
                  have at' :=
                    (Drive.walk_eq_some_iff reads.good.valid).mp leads
                  refine ⟨good_trash reads.good leads apart _, ?_,
                    .inr ⟨n, ?_⟩, ?_, ?_⟩
                  · exact Drive.walk_trash reads.good.valid at'
                  · exact congrArg (Drive.trash · n) sameDrive
                  · exact samePatch
                  · intro key held
                    obtain ⟨id, hit⟩ := Option.isSome_iff_exists.mp held
                    have cached := cache_answered (cache_removed hit).2
                    exact reads.keys
                      (Option.isSome_iff_exists.mpr ⟨id, cached⟩)
        · exact good_answered reads.good _
        · intro lost value drive outcome
          obtain ⟨reply, member, isLost⟩ := lost
          rw [sameTrash] at member
          rw [answered reply member] at isLost
          cases isLost
  · intro after reads
    exact reads.good

theorem deleteOnce_ensures {root : Path}
    (isPath : IsPath (buildAbsPath root path))
    (legible : Legible service (buildAbsPath root path))
    (nothing : NothingBelow core.cache (buildAbsPath root path))
    (answered : ∀ reply ∈ core.service.replies .trash, reply.isLost = false)
    (good : Good (driveTree service) view core) :
    Ensures (deleteOnce service root path)
      (fun _ => Good (driveTree service) view)
      (Good (driveTree service) view) core := by
  apply (trashPath_ensures isPath legible nothing answered good).mono
  · intro _ after trashed
    exact trashed.good
  · intro after kept
    exact kept

/-! ## Renaming a path -/

theorem good_move {source : Path} {front : List Path} {name : Path}
    {n : Nat} {parent : FileId}
    (good : Good (driveTree service) view core)
    (sourceAt : core.service.drive.At source.names (.file n))
    (targetAt : core.service.drive.At front parent)
    (missing : core.service.drive.walk (front ++ [name]) = none)
    (isFolder : endsWithSlash name = true →
      ∀ {file}, core.service.drive.files[n]? = some file →
        file.folder = true)
    (apart : ∀ {key}, (core.cache key).isSome → key ≠ source →
      ¬ source.names <+: key.names)
    (replies : DriveRequest → List DriveReply) :
    Good (driveTree service) view (removed source
      (core.answered ⟨core.service.drive.move n name parent, replies⟩)) := by
  have valid := good.valid
  have noChild := Drive.child_eq_none_of_walk valid targetAt missing
  have valid' := Drive.valid_move valid targetAt noChild isFolder
  refine ⟨valid', ?_, good.exact⟩
  intro key id hit
  obtain ⟨other, held⟩ := cache_removed hit
  have cached := cache_answered held
  have outside := apart (Option.isSome_iff_exists.mpr ⟨id, cached⟩) other
  have before := (Drive.walk_eq_some_iff valid).mp (good.sound cached)
  exact (Drive.walk_eq_some_iff valid').mpr
    (Drive.at_move sourceAt name parent before outside)

/-- What the drive makes of the parents: they are honoured, or the file stays
in its folder, where it is to stay. -/
theorem patched_spec {source dir name : Path} {id parent answer : FileId}
    {drive changed : Drive} (valid : drive.Valid) (isSource : IsPath source)
    (isDir : IsDir dir) (isName : IsName name)
    (place : service.bodyParents = true ∨
      getParent source = getParent (dir ++ name))
    (sourceAt : drive.At source.names id)
    (targetAt : drive.At dir.names parent)
    (outcome : patched service id name parent drive =
      some (answer, changed)) :
    ∃ n, id = .file n ∧ answer = .file n ∧
      changed = drive.move n name parent ∧ ¬ source.names <+: dir.names := by
  cases id with
  | root => cases outcome
  | file n =>
      obtain ⟨front, file, split, found, live, above⟩ := sourceAt.file_inv
      simp only [patched, found] at outcome
      by_cases honoured : service.bodyParents = true
      · simp only [honoured, if_true] at outcome
        by_cases below : drive.isBelow n parent = true
        · simp [below] at outcome
        · simp only [below, Bool.false_eq_true, if_false] at outcome
          cases outcome
          refine ⟨n, rfl, rfl, rfl, ?_⟩
          intro inside
          exact below ((Drive.isBelow_iff valid sourceAt targetAt).mpr inside)
      · simp only [honoured, Bool.false_eq_true, if_false] at outcome
        cases outcome
        have sameParent := place.resolve_left honoured
        cases isSource with
        | root =>
            have empty := congrArg List.length split
            simp [names, pieces] at empty
        | @entry sourceDir sourceName isSourceDir isSourceName =>
            rw [getParent_append isSourceDir isSourceName,
              getParent_append isDir isName] at sameParent
            have sameNames : sourceDir.names = dir.names := by
              rw [← names_dirKey isSourceDir, sameParent, names_dirKey isDir]
            rw [names_append isSourceDir isSourceName, sameNames] at split ⊢
            obtain ⟨rfl, _⟩ := List.concat_inj.mp (by simpa using split)
            refine ⟨n, rfl, rfl, ?_, ?_⟩
            · rw [above.unique valid targetAt]
            · intro inside
              have longer := inside.length_le
              rw [List.length_append, List.length_singleton] at longer
              omega

theorem patchMetadata_ensures {source dir name : Path} {id parent : FileId}
    (isSource : IsPath source) (isDir : IsDir dir) (isName : IsName name)
    (place : service.bodyParents = true ∨
      getParent source = getParent (dir ++ name))
    (good : Good (driveTree service) view core)
    (sourceLeads : core.service.drive.walk source.names = some id)
    (targetLeads : core.service.drive.walk dir.names = some parent)
    (missing : core.service.drive.walk (dir.names ++ [name]) = none)
    (isFolder : endsWithSlash name = true → ∀ {n file}, id = .file n →
      core.service.drive.files[n]? = some file → file.folder = true)
    (apart : ¬ source.names <+: dir.names → ∀ {key},
      (core.cache key).isSome → key ≠ source → ¬ source.names <+: key.names)
    (answered : ∀ reply ∈ core.service.replies .patch,
      reply.isLost = false) :
    Ensures (await (patchMetadata service id name parent))
      (fun moved after =>
        Good (driveTree service) view (removed source after) ∧
        (removed source after).service.drive.walk (dir ++ name).names =
          some moved)
      (Good (driveTree service) view) core := by
  have valid := good.valid
  have sourceAt := (Drive.walk_eq_some_iff valid).mp sourceLeads
  have targetAt := (Drive.walk_eq_some_iff valid).mp targetLeads
  rw [ensures_await]
  unfold patchMetadata
  apply ensures_request
  · intro moved drive outcome
    obtain ⟨n, rfl, rfl, rfl, outside⟩ := patched_spec valid isSource isDir
      isName place sourceAt targetAt outcome
    have kept := good_move good sourceAt targetAt missing
      (fun slash => isFolder slash rfl) (apart outside)
      (Function.update core.service.replies .patch
        (core.service.replies .patch).tail)
    refine ⟨kept, ?_⟩
    rw [names_append isDir isName]
    exact (Drive.walk_eq_some_iff kept.valid).mpr
      (Drive.at_move_self sourceAt targetAt outside name)
  · exact good_answered good _
  · intro lost moved drive outcome
    obtain ⟨reply, member, isLost⟩ := lost
    rw [answered reply member] at isLost
    cases isLost

/-- What a file was before a path was trashed and others were created. -/
theorem file_of_trashed {target source : Path} {n : Nat}
    {file : GdriveFile} {before middle after : GdriveCore}
    (good : Good (driveTree service) view before)
    (trashed : Trashed service target before middle)
    (grown : middle.service.drive ≤ after.service.drive)
    (leads : middle.service.drive.walk source.names = some (.file n))
    (found : after.service.drive.files[n]? = some file) :
    before.service.drive.walk source.names = some (.file n) ∧
      before.service.drive.files[n]? = some file := by
  have at' : middle.service.drive.At source.names (.file n) :=
    (Drive.walk_eq_some_iff trashed.good.valid).mp leads
  obtain ⟨_, file', _, found', live, _⟩ := at'.file_inv
  have same : file' = file := by
    obtain ⟨rest, whole⟩ := grown
    rw [← whole, List.getElem?_append_left at'.lt_length, found'] at found
    exact Option.some.inj found
  subst same
  rcases trashed.drive with unchanged | ⟨m, changed⟩
  · rw [unchanged] at leads found'
    exact ⟨leads, found'⟩
  · rw [changed] at at' found'
    exact ⟨(Drive.walk_eq_some_iff good.valid).mpr (Drive.at_of_at_trash at'),
      (Drive.getElem?_of_trash found' live).1⟩

/-- No path is cached below the source, also none of those that a rename asks
for on its way. -/
theorem apart_of_rename {source dir name key : Path}
    (isSource : IsPath source) (isDir : IsDir dir) (isName : IsName name)
    (nothing : NothingBelow core.cache source)
    (outside : ¬ source.names <+: dir.names)
    (differs : source.names ≠ dir.names ++ [name])
    (held : (core.cache key).isSome ∨ key.names <+: (dir ++ name).names ∨
      key.names <+: source.names ∨ key.names <+: dir.names)
    (other : key ≠ source) : ¬ source.names <+: key.names := by
  intro below
  cases isSource with
  | root => exact outside List.nil_prefix
  | entry isSourceDir isSourceName =>
      rcases held with earlier | toTarget | toSource | toDir
      · exact nothing.apart isSourceDir isSourceName earlier other below
      · have toTarget := below.trans toTarget
        rw [names_append isDir isName] at toTarget
        rcases List.prefix_concat_iff.mp toTarget with same | shorter
        · exact differs same
        · exact outside shorter
      · exact other (eq_of_names_eq isSourceDir isSourceName
          (toSource.eq_of_length_le below.length_le))
      · exact outside (below.trans toDir)

theorem patchRequest_ensures {source dir name : Path}
    {cleared : GdriveCore} (isSource : IsPath source) (isDir : IsDir dir)
    (isName : IsName name) (legibleSource : Legible service source)
    (legibleTarget : Legible service (dir ++ name))
    (nothing : NothingBelow core.cache source)
    (isFolder : endsWithSlash (dir ++ name) = true →
      ∀ {n file}, core.service.drive.walk source.names = some (.file n) →
        core.service.drive.files[n]? = some file → file.folder = true)
    (place : service.bodyParents = true ∨
      getParent source = getParent (dir ++ name))
    (answered : ∀ reply ∈ core.service.replies .patch,
      reply.isLost = false)
    (good : Good (driveTree service) view core)
    (trashed : Trashed service (dir ++ name) core cleared) :
    Ensures (gdrivePatchMetadataRequest service source (dir ++ name))
      (fun moved after =>
        Good (driveTree service) view (removed source after) ∧
        (removed source after).service.drive.walk (dir ++ name).names =
          some moved)
      (Good (driveTree service) view) cleared := by
  apply (getOrFail_ensures isSource legibleSource _ trashed.good).bind
  · intro id found given
    obtain ⟨reads, leads⟩ := given
    have parentLegible : ∀ other ∈ (getParent source).names,
        service.Legible other := fun other member =>
      legibleSource.names isSource other
        (isSource.names_getParent.subset member)
    apply (get_spec (lawful_pathQuery service) isSource.getParent
      parentLegible reads.good).bind
    · intro sourceParent asked given
      have sofar := reads.trans (given.1.mono isSource.names_getParent)
      have sameDrive : asked.service.drive = cleared.service.drive :=
        congrArg DriveView.drive sofar.same
      cases sourceParent with
      | none => exact sofar.good
      | some _ =>
          apply (ensureParent_ensures isDir isName legibleTarget
            sofar.good).bind
          · intro parent made given
            obtain ⟨grows, parentLeads⟩ := given
            rw [getBasename_append isDir isName]
            have missing : made.service.drive.walk (dir.names ++ [name]) =
                none := by
              apply walk_eq_none_of_grows isDir isName grows
              rw [sameDrive]
              exact trashed.missing
            have grown : cleared.service.drive ≤ made.service.drive := by
              rw [← sameDrive]
              exact grows.adds.le.1
            have sourceLeads : made.service.drive.walk source.names =
                some id := by
              have at' := (Drive.walk_eq_some_iff trashed.good.valid).mp leads
              exact (Drive.walk_eq_some_iff grows.good.valid).mpr
                (at'.mono grown)
            have patch : made.service.replies .patch =
                core.service.replies .patch := by
              rw [← trashed.patch]
              exact grows.adds.le.2.2.symm.trans
                (congrArg DriveView.patch sofar.same)
            apply patchMetadata_ensures isSource isDir isName place grows.good
              sourceLeads parentLeads missing
            · intro slash n file isFile inMade
              subst isFile
              obtain ⟨before, inCore⟩ :=
                file_of_trashed good trashed grown leads inMade
              rw [endsWithSlash_append dir isName.ne_nil] at isFolder
              exact isFolder slash before inCore
            · intro outside key held other
              apply apart_of_rename isSource isDir isName nothing outside _ _
                other
              · intro same
                rw [same, missing] at sourceLeads
                cases sourceLeads
              · rcases grows.keys held with inAsked | onTheWay
                · rcases sofar.keys inAsked with inCleared | onTheWay
                  · exact (trashed.keys inCleared).imp (fun given => given) (.inl ·)
                  · exact .inr (.inr (.inl onTheWay))
                · exact .inr (.inr (.inr onTheWay))
            · rw [patch]
              exact answered
          · intro after grows
            exact grows.good
    · intro after reads
      exact reads.good
  · intro after kept
    exact kept

theorem rename_ensures {source target root : Path}
    (isSource : IsPath (buildAbsPath root source))
    (isTarget : IsPath (buildAbsPath root target))
    (legibleSource : Legible service (buildAbsPath root source))
    (legibleTarget : Legible service (buildAbsPath root target))
    (nothingSource : NothingBelow core.cache (buildAbsPath root source))
    (nothingTarget : NothingBelow core.cache (buildAbsPath root target))
    (isFolder : endsWithSlash (buildAbsPath root target) = true →
      ∀ {n file}, core.service.drive.walk (buildAbsPath root source).names =
        some (.file n) → core.service.drive.files[n]? = some file →
        file.folder = true)
    (place : service.bodyParents = true ∨
      getParent (buildAbsPath root source) =
        getParent (buildAbsPath root target))
    (trashAnswered : ∀ reply ∈ core.service.replies .trash,
      reply.isLost = false)
    (patchAnswered : ∀ reply ∈ core.service.replies .patch,
      reply.isLost = false)
    (good : Good (driveTree service) view core) :
    Ensures (rename service root source target)
      (fun _ => Good (driveTree service) view)
      (Good (driveTree service) view) core := by
  unfold rename
  generalize buildAbsPath root source = source at *
  generalize buildAbsPath root target = target at *
  apply (trashPath_ensures isTarget legibleTarget nothingTarget trashAnswered
    good).bind
  · intro _ cleared trashed
    obtain ⟨dir, name, isDir, isName, rfl⟩ :=
      exists_of_walk_eq_none isTarget trashed.missing
    have moves := patchRequest_ensures isSource isDir isName legibleSource
      legibleTarget nothingSource isFolder place patchAnswered good trashed
    apply moves.bind
    · intro id after moved
      exact insert_ensures moved.1 moved.2
    · intro after kept
      exact kept
  · intro after kept
    exact kept

end GdriveBackend

/-! ## Whole runs -/

open PathCacher GdriveBackend

/-- The path of the service for a path of the user. -/
def absPath (root path : Path) : Path :=
  buildAbsPath (normalizeRoot root) (normalizePath path)

/-- The operation changes what no cached path leads to.  Its names are read as
they are written, a name with a `/` is only given to a folder, and nothing
below a path that is trashed or moved is cached. -/
def GdriveOp.Careful (service : DriveService) (root : Path)
    (core : GdriveCore) (replies : DriveRequest → List DriveReply) :
    GdriveOp → Prop
  | .createDir path | .stat path => Legible service (absPath root path)
  | .write path => Legible service (absPath root path) ∧
      (endsWithSlash (absPath root path) = true →
        core.service.drive.walk (absPath root path).names ≠ none)
  | .delete path => Legible service (absPath root path) ∧
      NothingBelow core.cache (absPath root path) ∧
      ∀ reply ∈ replies .trash, reply.isLost = false
  | .rename source target => Legible service (absPath root source) ∧
      Legible service (absPath root target) ∧
      NothingBelow core.cache (absPath root source) ∧
      NothingBelow core.cache (absPath root target) ∧
      (endsWithSlash (absPath root target) = true → ∀ n file,
        core.service.drive.walk (absPath root source).names =
          some (.file n) →
        core.service.drive.files[n]? = some file → file.folder = true) ∧
      (service.bodyParents = true ∨
        getParent (absPath root source) = getParent (absPath root target)) ∧
      (∀ reply ∈ replies .trash, reply.isLost = false) ∧
      ∀ reply ∈ replies .patch, reply.isLost = false

def GdriveEvent.Careful (service : DriveService) (root : Path)
    (core : GdriveCore) : GdriveEvent → Prop
  | .evict _ => True
  | .issue op replies _ => op.Careful service root core replies

variable {service : DriveService} {root : Path}

theorem GdriveOp.program_ensures {core : GdriveCore} {op : GdriveOp}
    (careful : op.Careful service root core core.service.replies)
    (good : Good (driveTree service) Gdrive.view core) :
    Ensures (op.program service root)
      (fun _ => Good (driveTree service) Gdrive.view)
      (Good (driveTree service) Gdrive.view) core := by
  have isPath := isPath_buildAbsPath root
  cases op with
  | createDir path => exact createDir_ensures _ careful good
  | stat path => exact stat_ensures (isPath path) careful good
  | write path => exact write_ensures (isPath path) careful.1 careful.2 good
  | delete path =>
      obtain ⟨legible, nothing, answered⟩ := careful
      exact deleteOnce_ensures (isPath path) legible nothing answered good
  | rename source target =>
      obtain ⟨legibleSource, legibleTarget, nothingSource, nothingTarget,
        isFolder, place, trashAnswered, patchAnswered⟩ := careful
      exact rename_ensures (isPath source) (isPath target) legibleSource
        legibleTarget nothingSource nothingTarget
        (fun slash {n file} => isFolder slash n file) place trashAnswered
        patchAnswered good

theorem GdriveCore.step_good {core after : GdriveCore} {event : GdriveEvent}
    (good : Good (driveTree service) Gdrive.view core)
    (careful : event.Careful service root core)
    (stepped : GdriveCore.step service root core event = some after) :
    Good (driveTree service) Gdrive.view after := by
  cases event with
  | evict keys =>
      cases stepped
      exact good.evict keys
  | issue op replies evictions =>
      cases stepped
      have ready : Good (driveTree service) Gdrive.view
          { core with
            service := ⟨core.service.drive, replies⟩
            evictions := evictions } :=
        ⟨good.valid, good.sound, good.exact⟩
      have same : op.Careful service root
          { core with
            service := ⟨core.service.drive, replies⟩
            evictions := evictions } replies := by
        cases op <;> exact careful
      exact (GdriveOp.program_ensures same ready).final

/-- In a run of careful operations, `get` always answers with the live file
that the path leads to, and with none only if there is none. -/
theorem path_cache_serves_live {drive : Drive} {events : List GdriveEvent}
    {finish : GdriveCore} (valid : drive.Valid)
    (careful : Automaton.Along (GdriveCore.step service root)
      (GdriveEvent.Careful service root) (GdriveCore.new drive) events)
    (ran : Automaton.run (GdriveCore.step service root)
      (GdriveCore.new drive) events = some finish) :
    ∀ served ∈ finish.served,
      served.found = served.service.drive.walk served.path.names := by
  have start : Good (driveTree service) Gdrive.view (GdriveCore.new drive) :=
    .new valid
  have good := Automaton.run_invariant_along
    (fun good careful stepped => GdriveCore.step_good good careful stepped)
    start careful ran
  exact good.exact

/-- A quoted text as it is documented: a quote and a backslash are escaped
with a backslash. -/
def readQuoted : Path → Option Path
  | [] => some []
  | ['\\'] => none
  | '\\' :: c :: rest =>
      if c = '\'' ∨ c = '\\' then (readQuoted rest).map (c :: ·) else none
  | c :: rest =>
      if c = '\'' then none else (readQuoted rest).map (c :: ·)

/-- The service as it is documented. -/
def documentedService : DriveService :=
  ⟨false, readQuoted⟩

/-- Issue an operation that goes well. -/
def GdriveEvent.plain (op : GdriveOp) : GdriveEvent :=
  .issue op (fun _ => []) []

theorem readQuoted_escapeName {name : Path} (plain : '\\' ∉ name) :
    readQuoted (Gdrive.escapeName name) = some name := by
  induction name with
  | nil => rfl
  | cons c rest induction =>
      have other : c ≠ '\\' := by
        intro same
        exact plain (by simp [same])
      have later := induction fun member =>
        plain (List.mem_cons_of_mem c member)
      have split : Gdrive.escapeName (c :: rest) =
          (if c = '\'' then ['\\', '\''] else [c]) ++
            Gdrive.escapeName rest := by
        simp [Gdrive.escapeName]
      rw [split]
      by_cases quote : c = '\''
      · simp [quote, readQuoted, later]
      · simp [quote, readQuoted, later, other]

theorem legible_of_no_backslash {name : Path} (plain : '\\' ∉ name) :
    documentedService.Legible name := by
  intro read found
  exact Option.some.inj (found.symm.trans (readQuoted_escapeName plain))

theorem valid_empty : Drive.Valid ⟨[]⟩ where
  distinct := fun found => nomatch found
  folders := fun found => nomatch found
  parents := fun found => nomatch found

/-- A file is written, deleted and asked for. -/
def plainRun : List GdriveEvent :=
  [.plain (.write "a/f".toList), .plain (.delete "a/f".toList),
    .plain (.stat "a/f".toList)]

theorem path_cache_serves_live_plain :
    ∃ finish, Automaton.run (GdriveCore.step documentedService ['/'])
      (GdriveCore.new ⟨[]⟩) plainRun = some finish ∧
      finish.served.map (·.found) = [none, some (.file 1), none] ∧
      ∀ served ∈ finish.served,
        served.found = served.service.drive.walk served.path.names := by
  have answers : (Automaton.run (GdriveCore.step documentedService ['/'])
      (GdriveCore.new ⟨[]⟩) plainRun).map
        (fun core => core.served.map (·.found)) =
      some [none, some (.file 1), none] := by
    decide +kernel
  obtain ⟨finish, ran, found⟩ := Option.map_eq_some_iff.mp answers
  have legible : Legible documentedService (absPath ['/'] "a/f".toList) := by
    have split : components (absPath ['/'] "a/f".toList) = [['a'], ['f']] := by
      decide +kernel
    intro segment member
    rw [split] at member
    have plain : '\\' ∉ segment ++ ['/'] := by
      rcases List.mem_pair.mp member with rfl | rfl
      · decide
      · decide
    exact ⟨legible_of_no_backslash fun inside =>
      plain (List.mem_append_left _ inside), legible_of_no_backslash plain⟩
  have isFile : endsWithSlash (absPath ['/'] "a/f".toList) ≠ true := by
    decide +kernel
  refine ⟨finish, ran, found, path_cache_serves_live valid_empty ?_ ran⟩
  apply Automaton.along_of_mem
  intro event member core
  simp only [plainRun, List.mem_cons, List.not_mem_nil, or_false] at member
  rcases member with rfl | rfl | rfl
  · exact ⟨legible, fun slash => absurd slash isFile⟩
  · exact ⟨legible, fun slash => absurd slash isFile, fun _ reply => nomatch reply⟩
  · exact legible

/-- A file is written in a directory, and the directory is deleted. -/
def staleRun : List GdriveEvent :=
  [.plain (.write "a/f".toList), .plain (.delete "a/".toList),
    .plain (.stat "a/f".toList)]

/-- The file is still found, although it is trashed. -/
theorem path_cache_serves_live_fails :
    ¬ ∀ (service : DriveService) (root : Path) (drive : Drive)
      (events : List GdriveEvent) (finish : GdriveCore), drive.Valid →
      Automaton.run (GdriveCore.step service root) (GdriveCore.new drive)
        events = some finish →
      ∀ served ∈ finish.served,
        served.found = served.service.drive.walk served.path.names := by
  intro always
  have stale : (Automaton.run (GdriveCore.step documentedService ['/'])
      (GdriveCore.new ⟨[]⟩) staleRun).map
        (fun core => core.served.all fun served =>
          served.found == served.service.drive.walk served.path.names) =
      some false := by
    decide +kernel
  obtain ⟨finish, ran, inexact⟩ := Option.map_eq_some_iff.mp stale
  have exact := always _ _ _ _ finish valid_empty ran
  have all : (finish.served.all fun served =>
      served.found == served.service.drive.walk served.path.names) =
      true := by
    rw [List.all_eq_true]
    intro served member
    rw [beq_iff_eq]
    exact exact served member
  rw [inexact] at all
  cases all

end OpenDal
