import OpenDal.Raw.PathCache
import OpenDal.Services.Drive
import OpenDal.Types.Error

/-!
# The Google Drive backend

The backend finds its files through the path cacher.  A request either takes
effect and is answered, or it is refused and changes nothing, or it takes
effect and the answer is lost, which the backend cannot tell from a refusal.

The contents of files, listing and copying are left out.
-/

namespace OpenDal

open Path

inductive DriveRequest where
  | query
  | createDir
  | trash
  | patch
  | upload
  | fetch
deriving DecidableEq

inductive DriveReply where
  | done
  | refused (err : Error)
  | lost (err : Error)
deriving DecidableEq

def DriveReply.isLost : DriveReply → Bool
  | .lost _ => true
  | _ => false

inductive GdriveFailure where
  | error (err : Error)
  | panic (message : String)
deriving DecidableEq

/-- How the service reads a request where its documentation leaves room. -/
structure DriveService where
  /-- Whether the parents that a `PATCH` names in its body are honoured.  They
  are documented as parameters of the query. -/
  bodyParents : Bool
  /-- The name that a quoted text in a search query stands for, if the query
  is accepted. -/
  readName : Path → Option Path

/-- The drive, and how it will answer the next requests of each kind. -/
structure Gdrive where
  drive : Drive
  replies : DriveRequest → List DriveReply

namespace Gdrive

variable {α : Type}

/-- The error of a request that the drive never accepts. -/
def unacceptable : Error :=
  .new .unexpected "the drive does not accept the request"

/-- Send a request; `effect` is `none` when the drive does not accept it. -/
def request (kind : DriveRequest) (effect : Drive → Option (α × Drive)) :
    Program Gdrive GdriveFailure α :=
  fun gdrive =>
    let reply := (gdrive.replies kind).headD .done
    let replies := Function.update gdrive.replies kind
      (gdrive.replies kind).tail
    match reply, effect gdrive.drive with
    | .refused err, _ => (.error (.error err), ⟨gdrive.drive, replies⟩)
    | _, none => (.error (.error unacceptable), ⟨gdrive.drive, replies⟩)
    | .done, some (value, drive) => (.ok value, ⟨drive, replies⟩)
    | .lost err, some (_, drive) => (.error (.error err), ⟨drive, replies⟩)

/-! ## `GdrivePathQuery` -/

/-- `name.replace('\'', "\\'")`. -/
def escapeName (name : Path) : Path :=
  name.flatMap fun c => if c = '\'' then ['\\', '\''] else [c]

variable (service : DriveService)

/-- The first of the files that match a search query. -/
def search (parentId : FileId) (name : Path) (drive : Drive) :
    Option FileId :=
  (drive.files.findIdx? fun file =>
    file.parent == parentId && file.name == name && !file.trashed &&
      (!endsWithSlash name || file.folder)).map .file

def query (parentId : FileId) (name : Path) :
    Program Gdrive GdriveFailure (Option FileId) :=
  request .query fun drive =>
    match service.readName (escapeName name) with
    | none => none
    | some read => some (search parentId read drive, drive)

def createDir (parentId : FileId) (name : Path) :
    Program Gdrive GdriveFailure FileId :=
  request .createDir fun drive =>
    some (.file drive.files.length,
      drive.create ⟨name, parentId, true, false⟩)

def pathQuery : PathQuery Gdrive GdriveFailure FileId where
  root := pure .root
  query := query service
  createDir := createDir

/-! ## `GdriveCore` -/

/-- Get metadata or content of a file. -/
def fetch (_fileId : FileId) : Program Gdrive GdriveFailure Unit :=
  request .fetch fun drive => some ((), drive)

/-- Trash a file, which is not possible for the root. -/
def gdriveTrash (fileId : FileId) : Program Gdrive GdriveFailure Unit :=
  request .trash fun drive =>
    match fileId with
    | .root => none
    | .file n => some ((), drive.trash n)

/-- Change name and parents of a file, which is answered with its id.  A
folder is not moved into itself. -/
def patched (fileId : FileId) (name : Path) (addParent : FileId)
    (drive : Drive) : Option (FileId × Drive) :=
  match fileId with
  | .root => none
  | .file n =>
      match drive.files[n]? with
      | none => none
      | some file =>
          if service.bodyParents then
            if drive.isBelow n addParent then none
            else some (.file n, drive.move n name addParent)
          else
            some (.file n, drive.move n name file.parent)

def patchMetadata (fileId : FileId) (name : Path) (addParent : FileId) :
    Program Gdrive GdriveFailure FileId :=
  request .patch (patched service fileId name addParent)

/-- Create a file with the content. -/
def uploadSimple (parent : FileId) (name : Path) :
    Program Gdrive GdriveFailure FileId :=
  request .upload fun drive =>
    some (.file drive.files.length,
      drive.create ⟨name, parent, false, false⟩)

/-- Overwrite the file with the content. -/
def uploadOverwriteSimple (_fileId : FileId) :
    Program Gdrive GdriveFailure Unit :=
  request .upload fun drive => some ((), drive)

end Gdrive

/-! ## `GdriveBackend` -/

abbrev GdriveCore := PathCacher Gdrive FileId

namespace GdriveBackend

open PathCacher Gdrive

variable (service : DriveService) (root : Path)

/-- Get the id of a path, or fail. -/
def getOrFail (path message : Path) :
    Program GdriveCore GdriveFailure FileId := do
  match ← get (pathQuery service) path with
  | some id => pure id
  | none =>
      let err := Error.new .notFound (String.ofList (message ++ path))
      Program.fail (.error err)

def gdrivePatchMetadataRequest (source target : Path) :
    Program GdriveCore GdriveFailure FileId := do
  let sourceFileId ← getOrFail service source
    "source path not found: ".toList
  match ← get (pathQuery service) (getParent source) with
  | none => Program.fail (.panic "old parent must exist")
  | some _ => do
      let targetParentId ←
        ensureDir (pathQuery service) (getParent target)
      await (patchMetadata service sourceFileId (getBasename target)
        targetParentId)

def createDir (path : Path) : Program GdriveCore GdriveFailure Unit := do
  let _ ← ensureDir (pathQuery service) (buildAbsPath root path)
  pure ()

/-- `stat` and `read`. -/
def stat (path : Path) : Program GdriveCore GdriveFailure Unit := do
  let fileId ← getOrFail service (buildAbsPath root path)
    "path not found: ".toList
  await (fetch fileId)

/-- `GdriveWriter::write_once`. -/
def writeOnce (path : Path) (fileId : Option FileId) :
    Program GdriveCore GdriveFailure Unit := do
  match fileId with
  | some fileId => await (uploadOverwriteSimple fileId)
  | none => do
      let parent ← ensureDir (pathQuery service) (getParent path)
      let id ← await (uploadSimple parent (getBasename path))
      insert path id

/-- Open a writer and write to it. -/
def write (path : Path) : Program GdriveCore GdriveFailure Unit := do
  let path := buildAbsPath root path
  let fileId ← get (pathQuery service) path
  writeOnce service path fileId

/-- Trash what a path leads to, and forget the path. -/
def trashPath (path : Path) : Program GdriveCore GdriveFailure Unit := do
  match ← get (pathQuery service) path with
  | none => pure ()
  | some id => do
      await (gdriveTrash id)
      remove path

/-- `GdriveDeleter::delete_once`. -/
def deleteOnce (path : Path) : Program GdriveCore GdriveFailure Unit :=
  trashPath service (buildAbsPath root path)

def rename (source target : Path) : Program GdriveCore GdriveFailure Unit := do
  let source := buildAbsPath root source
  let target := buildAbsPath root target
  -- rename will overwrite `to`, delete it if exist
  trashPath service target
  let id ← gdrivePatchMetadataRequest service source target
  remove source
  insert target id

end GdriveBackend

/-! ## Runs -/

inductive GdriveOp where
  | createDir (path : Path)
  | stat (path : Path)
  | write (path : Path)
  | delete (path : Path)
  | rename (source target : Path)

/-- The backend gets the paths of the user normalized, and a normalized
root. -/
def GdriveOp.program (service : DriveService) (root : Path) :
    GdriveOp → Program GdriveCore GdriveFailure Unit
  | .createDir path =>
      GdriveBackend.createDir service (normalizeRoot root)
        (normalizePath path)
  | .stat path =>
      GdriveBackend.stat service (normalizeRoot root) (normalizePath path)
  | .write path =>
      GdriveBackend.write service (normalizeRoot root) (normalizePath path)
  | .delete path =>
      GdriveBackend.deleteOnce service (normalizeRoot root)
        (normalizePath path)
  | .rename source target =>
      GdriveBackend.rename service (normalizeRoot root)
        (normalizePath source) (normalizePath target)

/-- What happens to a backend: entries of its cache are evicted, or an
operation is issued, with the replies to its requests and with what is evicted
during them. -/
inductive GdriveEvent where
  | evict (keys : List Path)
  | issue (op : GdriveOp) (replies : DriveRequest → List DriveReply)
      (evictions : List (List Path))

def GdriveCore.step (service : DriveService) (root : Path)
    (core : GdriveCore) : GdriveEvent → Option GdriveCore
  | .evict keys => some (core.evict keys)
  | .issue op replies evictions =>
      some ((op.program service root)
        { core with
          service := ⟨core.service.drive, replies⟩
          evictions := evictions }).2

/-- A backend for a drive, with nothing in its cache. -/
def GdriveCore.new (drive : Drive) : GdriveCore :=
  PathCacher.new ⟨drive, fun _ => []⟩

end OpenDal
