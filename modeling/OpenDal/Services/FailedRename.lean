import OpenDal.Services.GdriveRename

/-!
# A failed rename on Google Drive

A rename without a source fails, and leaves the drive as it was unless there
was something at the target: that is trashed first.
-/

namespace OpenDal

open Path Program

namespace GdriveBackend

open PathCacher Gdrive

variable {service : DriveService} {core : GdriveCore}
  {path source target : Path}

theorem get_quiet (isPath : IsPath path) (readable : Readable service path)
    (good : Good (driveTree service) view core) (calm : Calm core)
    (still : core.evictions = []) :
    ∃ after, get (pathQuery service) path core =
        (.ok (core.service.drive.walk path.names), after) ∧
      Reads (driveTree service) view path.names core after ∧
      Calm after ∧ after.evictions = [] ∧
      ∀ key, (core.cache key).isSome → (after.cache key).isSome := by
  obtain ⟨found, after, gotten, calm'⟩ := get_calm isPath readable calm
  obtain ⟨reads, same⟩ :=
    (get_ensures isPath readable.legible good).of_ok gotten
  subst same
  refine ⟨after, gotten, reads, calm', ?_, ?_⟩
  · exact (keeps_still.get (.inl isPath) still).of_ok gotten
  · intro key cached
    have held : Held key core := by
      refine ⟨cached, ?_⟩
      intro keys member
      rw [still] at member
      cases member
    exact ((keeps_held.get (.inl isPath) held).of_ok gotten).cached

/-- The rename fails because nothing was found, the drive is as it was and no
entry of the cache is lost. -/
structure Misses (core : GdriveCore)
    (outcome : Except GdriveFailure Unit × GdriveCore) : Prop where
  error : ∃ err : Error, outcome.1 = .error (.error err) ∧
    err.kind = .notFound
  drive : outcome.2.service.drive = core.service.drive
  kept : ∀ {key id}, core.cache key = some id →
    outcome.2.cache key = some id

theorem rename_missing {root source target : Path}
    (isSource : IsPath (buildAbsPath root source))
    (isTarget : IsPath (buildAbsPath root target))
    (readableSource : Readable service (buildAbsPath root source))
    (readableTarget : Readable service (buildAbsPath root target))
    (good : Good (driveTree service) view core) (calm : Calm core)
    (still : core.evictions = [])
    (noSource : core.service.drive.walk (buildAbsPath root source).names =
      none)
    (noTarget : core.service.drive.walk (buildAbsPath root target).names =
      none) :
    ∃ cleared after,
      get (pathQuery service) (buildAbsPath root target) core =
        (.ok none, cleared) ∧
      Reads (driveTree service) view (buildAbsPath root target).names core
        cleared ∧
      cleared.evictions = [] ∧
      get (pathQuery service) (buildAbsPath root source) cleared =
        (.ok none, after) ∧
      (rename service root source target core).2 = after ∧
      Misses core (rename service root source target core) := by
  obtain ⟨cleared, gotTarget, readsTarget, calm', still', kept⟩ :=
    get_quiet isTarget readableTarget good calm still
  obtain ⟨after, gotSource, readsSource, _, _, kept'⟩ :=
    get_quiet isSource readableSource readsTarget.good calm' still'
  have sameDrive : cleared.service.drive = core.service.drive :=
    congrArg DriveView.drive readsTarget.same
  have sameDrive' : after.service.drive = cleared.service.drive :=
    congrArg DriveView.drive readsSource.same
  rw [noTarget] at gotTarget
  rw [sameDrive, noSource] at gotSource
  have trashed : trashPath service (buildAbsPath root target) core =
      (.ok (), cleared) := bind_ok gotTarget
  have failed : getOrFail service (buildAbsPath root source)
      "source path not found: ".toList cleared =
      (.error (.error (.new .notFound (String.ofList
        ("source path not found: ".toList ++ buildAbsPath root source)))),
        after) := bind_ok gotSource
  have renamed : rename service root source target core =
      (.error (.error (.new .notFound (String.ofList
        ("source path not found: ".toList ++ buildAbsPath root source)))),
        after) := by
    unfold rename
    rw [bind_ok trashed]
    apply bind_error
    exact bind_error failed
  refine ⟨cleared, after, gotTarget, readsTarget, still', gotSource, ?_, ?_⟩
  · rw [renamed]
  · rw [renamed]
    refine ⟨⟨_, rfl, rfl⟩, sameDrive'.trans sameDrive, ?_⟩
    intro key id hit
    obtain ⟨other, held⟩ := Option.isSome_iff_exists.mp
      (kept' key (kept key (Option.isSome_iff_exists.mpr ⟨id, hit⟩)))
    have before := good.sound hit
    have later := readsSource.good.sound held
    rw [readsSource.same, readsTarget.same, before] at later
    cases later
    exact held

theorem rename_root {root source target : Path} {cleared : GdriveCore}
    (gotten : get (pathQuery service) (buildAbsPath root target) core =
      (.ok (some .root), cleared)) (calm : Calm cleared) :
    (rename service root source target core).1 =
      .error (.error unacceptable) := by
  have refused : (await (gdriveTrash .root) cleared).1 =
      .error (.error unacceptable) := by
    unfold await gdriveTrash request
    rw [show cleared.service.replies = fun _ => [] from calm]
    rfl
  rcases failed : await (gdriveTrash .root) cleared with ⟨result, after⟩
  rw [failed] at refused
  have isError : result = .error (.error unacceptable) := refused
  subst isError
  have trashed : trashPath service (buildAbsPath root target) core =
      (.error (.error unacceptable), after) := by
    unfold trashPath
    rw [bind_ok gotten]
    exact bind_error failed
  unfold rename
  rw [bind_error trashed]

theorem Cleared.get_missing {drive : Drive} {n : Nat} {cleared : GdriveCore}
    (isCleared : Cleared drive n target cleared) (isSource : IsPath source)
    (legible : Legible service source)
    (noSource : drive.walk source.names = none) :
    Ensures (get (pathQuery service) source) (fun found _ => found = none)
      (fun _ => True) cleared := by
  have free : cleared.cache source = none := by
    cases hit : cleared.cache source with
    | none => rfl
    | some id =>
        rw [isCleared.sound hit] at noSource
        cases noSource
  by_cases below : target.names <+: source.names
  · exact isCleared.get_below isSource legible below free
  · have closed := @closed_outside target
    have finds : Alike (Agree (Outside target))
        (get (pathQuery service) source) :=
      alike_get closed (.inl isSource) below
    apply finds.ensures (agree_without target cleared)
    apply (get_ensures isSource legible isCleared.good).mono
    · intro found _ given
      rw [given.2]
      show cleared.service.drive.walk source.names = none
      rw [isCleared.trashed]
      cases again : (drive.trash n).walk source.names with
      | none => rfl
      | some id =>
          have valid' := Drive.valid_trash isCleared.valid n
          have before := Drive.at_of_at_trash
            ((Drive.walk_eq_some_iff valid').mp again)
          rw [(Drive.walk_eq_some_iff isCleared.valid).mpr before] at noSource
          cases noSource
    · intro _ _
      trivial

/-- What was at the target stays trashed when the source is missing. -/
theorem rename_leaves_trashed {root source target : Path} {n : Nat}
    {cleared : GdriveCore} {drive : Drive}
    (isSource : IsPath (buildAbsPath root source))
    (legible : Legible service (buildAbsPath root source))
    (trashed : trashPath service (buildAbsPath root target) core =
      (.ok (), cleared))
    (isCleared : Cleared drive n (buildAbsPath root target) cleared)
    (noSource : drive.walk (buildAbsPath root source).names = none) :
    (rename service root source target core).2.service.drive =
      drive.trash n := by
  have nothing := isCleared.get_missing isSource legible noSource
  have same : (get (pathQuery service) (buildAbsPath root source)
      cleared).2.service.drive = drive.trash n :=
    ((keeps_drive service (drive.trash n)).get (.inl isSource)
      isCleared.trashed).final
  rcases outcome : get (pathQuery service) (buildAbsPath root source)
    cleared with ⟨result, after⟩
  rw [outcome] at same
  have failed : ∃ e, getOrFail service (buildAbsPath root source)
      "source path not found: ".toList cleared = (.error e, after) := by
    cases result with
    | error e => exact ⟨e, bind_error outcome⟩
    | ok found =>
        have missing := nothing.of_ok outcome
        subst missing
        exact ⟨_, bind_ok outcome⟩
  obtain ⟨e, failed⟩ := failed
  have patched : gdrivePatchMetadataRequest service
      (buildAbsPath root source) (buildAbsPath root target) cleared =
      (.error e, after) := bind_error failed
  unfold rename
  rw [bind_ok trashed, bind_error patched]
  exact same

/-- A rename without a source leaves the drive alone exactly when there is
nothing at the target. -/
theorem misses_iff {root source target : Path}
    (isSource : IsPath (buildAbsPath root source))
    (isTarget : IsPath (buildAbsPath root target))
    (readableSource : Readable service (buildAbsPath root source))
    (readableTarget : Readable service (buildAbsPath root target))
    (good : Good (driveTree service) view core) (calm : Calm core)
    (still : core.evictions = [])
    (noSource : core.service.drive.walk (buildAbsPath root source).names =
      none) :
    Misses core (rename service root source target core) ↔
      core.service.drive.walk (buildAbsPath root target).names = none := by
  constructor
  · intro misses
    obtain ⟨found, gotten, _, calm', _, _⟩ :=
      get_quiet isTarget readableTarget good calm still
    cases leads : core.service.drive.walk (buildAbsPath root target).names with
    | none => rfl
    | some id =>
        rw [leads] at gotten
        cases id with
        | root =>
            obtain ⟨err, failed, kind⟩ := misses.error
            rw [rename_root gotten calm'] at failed
            cases failed
            cases kind
        | file n =>
            have trashed := trashPath_calm gotten calm'
            rcases trashPath_ends isTarget readableTarget.legible good
              trashed with ⟨missing, _⟩ | ⟨m, _, isCleared, _⟩
            · rw [leads] at missing
              cases missing
            · have left := rename_leaves_trashed isSource
                readableSource.legible trashed isCleared noSource
              have gone := Drive.walk_trash isCleared.valid isCleared.place
              rw [← left, misses.drive, leads] at gone
              cases gone
  · intro noTarget
    obtain ⟨_, _, _, _, _, _, _, misses⟩ := rename_missing isSource isTarget
      readableSource readableTarget good calm still noSource noTarget
    exact misses

/-- The cache is left alone as well exactly when both lookups start where
their ways end. -/
theorem unchanged_iff {root source target : Path}
    (isSource : IsPath (buildAbsPath root source))
    (isTarget : IsPath (buildAbsPath root target))
    (readableSource : Readable service (buildAbsPath root source))
    (readableTarget : Readable service (buildAbsPath root target))
    (good : Good (driveTree service) view core) (calm : Calm core)
    (still : core.evictions = [])
    (noSource : core.service.drive.walk (buildAbsPath root source).names =
      none)
    (noTarget : core.service.drive.walk (buildAbsPath root target).names =
      none) :
    (rename service root source target core).2.cache = core.cache ↔
      EndCached (driveTree service) view core (buildAbsPath root target) ∧
      EndCached (driveTree service) view core (buildAbsPath root source) := by
  obtain ⟨cleared, after, gotTarget, reads, still', gotSource, same, _⟩ :=
    rename_missing isSource isTarget readableSource readableTarget good calm
      still noSource noTarget
  have lawful := lawful_pathQuery service
  have legibleSource := readableSource.legible.names isSource
  have legibleTarget := readableTarget.legible.names isTarget
  have first := get_cache_eq_iff lawful isTarget legibleTarget good still
    gotTarget
  have second := get_cache_eq_iff lawful isSource legibleSource reads.good
    still' gotSource
  have carried : cleared.cache = core.cache →
      (EndCached (driveTree service) view cleared
        (buildAbsPath root source) ↔
      EndCached (driveTree service) view core (buildAbsPath root source)) := by
    intro unchanged
    unfold EndCached
    rw [unchanged, reads.same]
  rw [same]
  constructor
  · intro unchanged
    have firstUnchanged : cleared.cache = core.cache := by
      by_contra changed
      have elsewhere : ¬ EndCached (driveTree service) view core
          (buildAbsPath root target) := fun ends => changed (first.mpr ends)
      obtain ⟨key, free, held⟩ := (get_of_not_endCached lawful isTarget
        legibleTarget good still noTarget elsewhere).of_ok gotTarget
      have kept : Held key cleared := by
        refine ⟨held, ?_⟩
        intro keys member
        rw [still'] at member
        cases member
      have later := ((keeps_held.get (.inl isSource) kept).of_ok
        gotSource).cached
      rw [unchanged, free] at later
      cases later
    have secondUnchanged := unchanged.trans firstUnchanged.symm
    exact ⟨first.mp firstUnchanged,
      (carried firstUnchanged).mp (second.mp secondUnchanged)⟩
  · intro given
    obtain ⟨endTarget, endSource⟩ := given
    have firstUnchanged := first.mpr endTarget
    have secondUnchanged := second.mpr
      ((carried firstUnchanged).mpr endSource)
    exact secondUnchanged.trans firstUnchanged

end GdriveBackend

/-! ## The property of a rename -/

open PathCacher GdriveBackend

/-- The backend before requests with these replies, and with what is evicted
during them. -/
def GdriveCore.facing (core : GdriveCore)
    (replies : DriveRequest → List DriveReply)
    (evictions : List (List Path)) : GdriveCore :=
  { core with
    service := ⟨core.service.drive, replies⟩
    evictions := evictions }

/-- The outcome of a rename, with the replies to its requests and with what is
evicted during them. -/
def renamed (service : DriveService) (root source target : Path)
    (core : GdriveCore) (replies : DriveRequest → List DriveReply)
    (evictions : List (List Path)) : Except GdriveFailure Unit × GdriveCore :=
  (GdriveOp.rename source target).program service root
    (core.facing replies evictions)

/-- The rename when all its requests are answered and nothing is evicted. -/
def renamedQuietly (service : DriveService) (root source target : Path)
    (core : GdriveCore) : Except GdriveFailure Unit × GdriveCore :=
  renamed service root source target core (fun _ => []) []

/-- Without a source, nothing is found and nothing changes; and whatever is
answered and evicted, no expectation is violated. -/
structure RenameSafe (service : DriveService) (root source target : Path)
    (core : GdriveCore) : Prop where
  missing : core.service.drive.walk (absPath root source).names = none →
    Misses core (renamedQuietly service root source target core) ∧
    (renamedQuietly service root source target core).2.cache = core.cache
  expected : ∀ replies evictions message,
    (renamed service root source target core replies evictions).1 ≠
      .error (.panic message)

variable {service : DriveService} {root source target : Path}
  {core : GdriveCore}

theorem Good.facing (good : Good (driveTree service) Gdrive.view core)
    (replies : DriveRequest → List DriveReply)
    (evictions : List (List Path)) :
    Good (driveTree service) Gdrive.view (core.facing replies evictions) :=
  ⟨good.valid, good.sound, good.exact⟩

theorem misses_facing {replies : DriveRequest → List DriveReply}
    {evictions : List (List Path)}
    {outcome : Except GdriveFailure Unit × GdriveCore} :
    Misses (core.facing replies evictions) outcome ↔ Misses core outcome := by
  constructor
  · intro misses
    exact ⟨misses.error, misses.drive, misses.kept⟩
  · intro misses
    exact ⟨misses.error, misses.drive, misses.kept⟩

/-- A rename is safe exactly when, without a source, there is nothing at the
target and both lookups start where their ways end, and when the source is not
cached in a file that is at the target.  What the lookups learn apart, nothing
at the target is enough. -/
theorem rename_safe_iff (service : DriveService) (root source target : Path)
    (core : GdriveCore)
    (good : Good (driveTree service) Gdrive.view core)
    (readableSource : Readable service (absPath root source))
    (readableTarget : Readable service (absPath root target))
    (distinct : absPath root source ≠ absPath root target) :
    (RenameSafe service root source target core ↔
      (core.service.drive.walk (absPath root source).names = none →
        core.service.drive.walk (absPath root target).names = none ∧
        EndCached (driveTree service) Gdrive.view core
          (absPath root target) ∧
        EndCached (driveTree service) Gdrive.view core
          (absPath root source)) ∧
      ∀ n, core.service.drive.walk (absPath root target).names =
          some (.file n) →
        (absPath root target).names <+: (absPath root source).names →
        core.cache (absPath root source) = none) ∧
    (core.service.drive.walk (absPath root source).names = none →
      (Misses core (renamedQuietly service root source target core) ↔
        core.service.drive.walk (absPath root target).names = none)) := by
  have isSource := isPath_buildAbsPath root source
  have isTarget := isPath_buildAbsPath root target
  have quiet := Good.facing good (fun _ => []) []
  have misses : core.service.drive.walk (absPath root source).names = none →
      (Misses core (renamedQuietly service root source target core) ↔
        core.service.drive.walk (absPath root target).names = none) := by
    intro noSource
    apply misses_facing.symm.trans
    exact misses_iff isSource isTarget readableSource readableTarget quiet
      rfl rfl noSource
  have unchanged := fun noSource noTarget =>
    unchanged_iff isSource isTarget readableSource readableTarget quiet
      rfl rfl noSource noTarget
  refine ⟨?_, misses⟩
  constructor
  · intro safe
    constructor
    · intro noSource
      obtain ⟨missed, same⟩ := safe.missing noSource
      have noTarget := (misses noSource).mp missed
      exact ⟨noTarget, (unchanged noSource noTarget).mp same⟩
    · intro n leads below
      by_contra held
      have cached := Option.isSome_iff_ne_none.mpr held
      have facing := Good.facing good (fun _ => [])
        [[getParent (absPath root source)]]
      obtain ⟨cleared, found, asked, id, trashed, gotten, lost⟩ :=
        loses_parent facing isSource isTarget readableSource readableTarget
          distinct leads below cached rfl rfl
      have panics := rename_panics trashed gotten lost
      exact safe.expected _ _ _ (congrArg Prod.fst panics)
  · intro given
    obtain ⟨missing, apart⟩ := given
    constructor
    · intro noSource
      obtain ⟨noTarget, ends⟩ := missing noSource
      exact ⟨(misses noSource).mpr noTarget,
        (unchanged noSource noTarget).mpr ends⟩
    · intro replies evictions message panics
      have facing := Good.facing good replies evictions
      exact not_panic facing isSource isTarget readableSource.legible
        readableTarget.legible distinct apart (Prod.ext panics rfl)

/-! ## A drive with one file -/

theorem valid_single {name : Path} (isFile : endsWithSlash name = false) :
    Drive.Valid ⟨[⟨name, .root, false, false⟩]⟩ := by
  let file : GdriveFile := ⟨name, .root, false, false⟩
  show (Drive.create ⟨[]⟩ file).Valid
  apply Drive.valid_create valid_empty .root rfl
  intro slash
  rw [isFile] at slash
  cases slash

theorem readable_of_no_backslash {path : Path}
    (plain : ∀ segment ∈ components path, '\\' ∉ segment) :
    Readable documentedService path := by
  intro segment member
  have clean := plain segment member
  refine ⟨readQuoted_escapeName clean, readQuoted_escapeName ?_⟩
  intro inside
  rcases List.mem_append.mp inside with inSegment | last
  · exact clean inSegment
  · cases List.mem_singleton.mp last

/-- The file `y`, with the root in the cache. -/
def fileDrive : GdriveCore :=
  stored ['/'] .root (GdriveCore.new ⟨[⟨['y'], .root, false, false⟩]⟩)

theorem good_fileDrive :
    Good (driveTree documentedService) Gdrive.view fileDrive := by
  have start : Good (driveTree documentedService) Gdrive.view
      (GdriveCore.new ⟨[⟨['y'], .root, false, false⟩]⟩) :=
    .new (valid_single rfl)
  have reads : Reads (driveTree documentedService) Gdrive.view []
      (GdriveCore.new ⟨[⟨['y'], .root, false, false⟩]⟩) fileDrive :=
    start.reads_stored List.nil_prefix rfl
  exact reads.good

theorem components_letter :
    ∀ c ∈ ['x', 'y', 'z'], absPath ['/'] [c] = [c] ∧
      components [c] = [[c]] := by
  intro c letter
  simp only [List.mem_cons, List.not_mem_nil, or_false] at letter
  rcases letter with rfl | rfl | rfl
  · exact ⟨by decide +kernel, by decide +kernel⟩
  · exact ⟨by decide +kernel, by decide +kernel⟩
  · exact ⟨by decide +kernel, by decide +kernel⟩

theorem readable_letter {c : Char} (letter : c ∈ ['x', 'y', 'z']) :
    Readable documentedService (absPath ['/'] [c]) := by
  obtain ⟨same, single⟩ := components_letter c letter
  apply readable_of_no_backslash
  rw [same, single]
  intro segment member
  rw [List.mem_singleton.mp member]
  simp only [List.mem_singleton]
  intro backslash
  subst backslash
  simp at letter

/-- `x` is renamed to `z`, and neither is there. -/
theorem rename_safe_iff_missing :
    RenameSafe documentedService ['/'] ['x'] ['z'] fileDrive := by
  have absX : absPath ['/'] ['x'] = ['x'] := by decide +kernel
  have absZ : absPath ['/'] ['z'] = ['z'] := by decide +kernel
  have endCached : ∀ c ∈ ['x', 'z'],
      EndCached (driveTree documentedService) Gdrive.view fileDrive [c] := by
    intro c letter
    refine ⟨[], [c], .root, .file ⟨by simp, ?_⟩, List.prefix_refl _, rfl, ?_⟩
    · intro slash
      rw [List.mem_singleton.mp slash |>.symm] at letter
      simp at letter
    · rcases List.mem_pair.mp letter with rfl | rfl
      · rfl
      · rfl
  have iff := (rename_safe_iff documentedService ['/'] ['x'] ['z'] fileDrive
    good_fileDrive (readable_letter (by simp)) (readable_letter (by simp))
    (by decide +kernel)).1
  rw [absX, absZ] at iff
  apply iff.mpr
  constructor
  · intro _
    exact ⟨rfl, endCached 'z' (by simp), endCached 'x' (by simp)⟩
  · intro n leads
    cases leads

/-- `x` is renamed to `y`: it is not found, and `y` is trashed. -/
theorem rename_safe_fails :
    ¬ ∀ (service : DriveService) (root source target : Path)
      (core : GdriveCore), Good (driveTree service) Gdrive.view core →
      Readable service (absPath root source) →
      Readable service (absPath root target) →
      absPath root source ≠ absPath root target →
      RenameSafe service root source target core := by
  intro always
  have safe := always documentedService ['/'] ['x'] ['y'] fileDrive
    good_fileDrive (readable_letter (by simp)) (readable_letter (by simp))
    (by decide +kernel)
  have trashed : (renamedQuietly documentedService ['/'] ['x'] ['y']
      fileDrive).2.service.drive.files =
        [⟨['y'], .root, false, true⟩] := by
    decide +kernel
  have missing : fileDrive.service.drive.walk (absPath ['/'] ['x']).names =
      none := by
    decide +kernel
  have same := (safe.missing missing).1.drive
  rw [same] at trashed
  cases trashed

end OpenDal
