import OpenDal.Raw.Root
import OpenDal.Types.Deleter

/-!
# Batch deletion of objects: `S3Deleter` and `OssDeleter`

A batch is sent to the server in one XML request and the server answers with
one XML document.  The model leaves the XML out: a request is the list of the
objects that it names, and an answer is the two lists that it holds.  The
server decides about every object by itself.

Neither deleter looks at the versions in the answer.  `OssDeleter` does not
send them either.
-/

namespace OpenDal

open Path

/-- `DeleteObjectsRequestObject`; a request of `OssDeleter` has no versions. -/
structure RequestObject where
  key : Path
  versionId : Option String
deriving DecidableEq, Repr

/-- What the server has to say about an object that it has not deleted. -/
structure ObjectError where
  object : RequestObject
  code : String
  message : String
deriving DecidableEq

/-- The answer of the server, with the versions that it reports. -/
structure DeleteReply where
  deleted : List RequestObject
  error : List ObjectError

/-- The server decides about each of the objects, and answers in some
order. -/
structure Answers (verdict : RequestObject → Option (String × String))
    (request : List RequestObject) (reply : DeleteReply) : Prop where
  deleted : reply.deleted.Perm
    (request.filter fun object => (verdict object).isNone)
  error : reply.error.Perm (request.filterMap fun object =>
    (verdict object).map fun (code, message) => ⟨object, code, message⟩)

/-- An answer in the order of the request. -/
def answer (verdict : RequestObject → Option (String × String))
    (request : List RequestObject) : DeleteReply where
  deleted := request.filter fun object => (verdict object).isNone
  error := request.filterMap fun object =>
    (verdict object).map fun (code, message) => ⟨object, code, message⟩

theorem answers_answer (verdict : RequestObject → Option (String × String))
    (request : List RequestObject) :
    Answers verdict request (answer verdict request) :=
  ⟨.refl _, .refl _⟩

/-! ## `S3Deleter` -/

/-- Returns the `Error kind` of this code and whether the error is
retryable. -/
def parseS3ErrorCode (code : String) : Option (ErrorKind × Bool) :=
  if code = "NoSuchBucket" then some (.configInvalid, false)
  else if code = "RequestTimeout" then some (.unexpected, true)
  else if code = "InternalError" then some (.unexpected, true)
  else if code = "OperationAborted" then some (.unexpected, true)
  else if code = "SlowDown" then some (.rateLimited, true)
  else if code = "ServiceUnavailable" then some (.unexpected, true)
  else none

/-- The text of the error, which is that of its `Debug` implementation. -/
def debugText (err : ObjectError) : String :=
  "DeleteObjectsResultError \x7b code: " ++ err.code.quote ++ ", key: " ++
    (String.ofList err.object.key).quote ++ ", message: " ++
    err.message.quote ++ " \x7d"

def parseDeleteObjectsResultError (err : ObjectError) : Error :=
  let (kind, retryable) :=
    (parseS3ErrorCode err.code).getD (.unexpected, false)
  let error := Error.new kind (debugText err)
  if retryable then error.setTemporary else error

structure S3Core where
  root : Root
  /-- The outcome of `s3_delete_object`; 204 and 404 are successes. -/
  deleteObject : RequestObject → Except Error Unit
  /-- The server, or the error of a request that it has not answered with
  200. -/
  deleteObjects : List RequestObject → Except Error DeleteReply

namespace S3Core

def object (core : S3Core) (pair : Path × OpDelete) : RequestObject :=
  ⟨buildAbsPath core.root.path pair.1, pair.2.version⟩

/-- The request of `s3_delete_objects`. -/
def deleteObjectsRequest (core : S3Core) (batch : List (Path × OpDelete)) :
    List RequestObject :=
  batch.map core.object

end S3Core

structure S3Deleter where
  core : S3Core

namespace S3Deleter

def deleteOnce (deleter : S3Deleter) (path : Path) (args : OpDelete) :
    Except Error Unit :=
  -- this would delete the bucket, do not perform
  if deleter.core.root.path = ['/'] ∧ path = ['/'] then
    .ok ()
  else
    deleter.core.deleteObject (deleter.core.object (path, args))

/-- `delete_batch` once the server has answered; `none` is the panic of
`result.error.remove(0)`. -/
def report (deleter : S3Deleter) (result : DeleteReply) :
    Option (Except Error BatchDeleteResult) :=
  let root := deleter.core.root.path
  -- if no object is deleted, return directly
  if result.deleted.isEmpty then
    match result.error with
    | [] => none
    | err :: _ => some (.error (parseDeleteObjectsResultError err))
  else
    some (.ok
      { succeeded := result.deleted.map fun i =>
          (buildRelPath root i.key, OpDelete.new)
        failed := result.error.map fun i =>
          (buildRelPath root i.object.key, OpDelete.new,
            parseDeleteObjectsResultError i) })

def deleteBatch (deleter : S3Deleter) (batch : List (Path × OpDelete)) :
    Option (Except Error BatchDeleteResult) :=
  match deleter.core.deleteObjects
      (deleter.core.deleteObjectsRequest batch) with
  | .error err => some (.error err)
  | .ok result => deleter.report result

end S3Deleter

/-! ## `OssDeleter` -/

structure OssCore where
  root : Root
  deleteObject : RequestObject → Except Error Unit
  deleteObjects : List RequestObject → Except Error DeleteReply

namespace OssCore

/-- The request of `oss_delete_objects`. -/
def deleteObjectsRequest (core : OssCore) (paths : List Path) :
    List RequestObject :=
  paths.map fun path => ⟨buildAbsPath core.root.path path, none⟩

end OssCore

structure OssDeleter where
  core : OssCore

namespace OssDeleter

def unknownError : Error :=
  .new .unexpected "oss delete this key failed for reason we don't know"

def deleteOnce (deleter : OssDeleter) (path : Path) (args : OpDelete) :
    Except Error Unit :=
  deleter.core.deleteObject
    ⟨buildAbsPath deleter.core.root.path path, args.version⟩

/-- `delete_batch` once the server has answered.  OSS does not return failed
keys, so they are what is left of the set `keys`; `none` is the overflow of
`keys.len() - result.deleted.len()`. -/
def report (deleter : OssDeleter) (keys : List Path) (result : DeleteReply) :
    Option (Except Error BatchDeleteResult) :=
  let root := deleter.core.root.path
  if result.deleted.isEmpty then
    some (.error unknownError)
  else if keys.length < result.deleted.length then
    none
  else
    let paths := result.deleted.map fun i => buildRelPath root i.key
    some (.ok
      { succeeded := paths.map fun path => (path, OpDelete.new)
        failed := (keys.diff paths).map fun path =>
          (path, OpDelete.new, unknownError) })

def deleteBatch (deleter : OssDeleter) (batch : List (Path × OpDelete)) :
    Option (Except Error BatchDeleteResult) :=
  let paths := batch.map Prod.fst
  -- the set of the paths
  let keys := paths.dedup
  match deleter.core.deleteObjects
      (deleter.core.deleteObjectsRequest paths) with
  | .error err => some (.error err)
  | .ok result => deleter.report keys result

end OssDeleter

/-! ## The deleters in a `BatchDeleter` -/

/-- A call that panics does not return.  Its result does not matter, since
what is asked below rules it out. -/
def orPanicked (outcome : Option (Except Error BatchDeleteResult)) :
    Except Error BatchDeleteResult :=
  outcome.getD (.error (.new .unexpected "panicked"))

instance : BatchDelete S3Deleter where
  deleteOnce deleter path args := (deleter.deleteOnce path args, deleter)
  deleteBatch deleter batch := (orPanicked (deleter.deleteBatch batch), deleter)

instance : BatchDelete OssDeleter where
  deleteOnce deleter path args := (deleter.deleteOnce path args, deleter)
  deleteBatch deleter batch := (orPanicked (deleter.deleteBatch batch), deleter)

end OpenDal
