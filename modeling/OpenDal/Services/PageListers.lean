import Mathlib.Algebra.GroupWithZero.Nat
import OpenDal.Raw.FlatLister
import OpenDal.Raw.PageList
import OpenDal.Raw.Root
import OpenDal.Types.Entry

/-!
# The page listers of S3, GCS and Google Drive

`next_page` sends a request that depends on the token of the page context, and
turns the reply into entries.  A request is the list of its parameters, which
the server decodes as they were given; a parameter that is not written into
the URL is `none`.  A reply is the decoded body, or the error of sending the
request, of a status other than success or of a body that cannot be decoded:
the same error for the lister.

`DateTime::parse_from_rfc3339` is a parameter, `rfc3339`, and `debug` says
whether the assertions of a debug build are there.
-/

namespace OpenDal

open Path

/-! ## Entries with their metadata -/

/-- The metadata that listers set. -/
structure ObjectMetadata (D : Type) where
  mode : EntryMode
  isCurrent : Option Bool
  isDeleted : Bool
  version : Option Text
  contentLength : Option Nat
  lastModified : Option D
  etag : Option Text
  contentMd5 : Option Text
  contentType : Option Text
deriving DecidableEq

variable {D : Type}

def ObjectMetadata.new (mode : EntryMode) : ObjectMetadata D :=
  { mode
    isCurrent := none
    isDeleted := false
    version := none
    contentLength := none
    lastModified := none
    etag := none
    contentMd5 := none
    contentType := none }

structure ObjectEntry (D : Type) where
  path : Path
  metadata : ObjectMetadata D
deriving DecidableEq

/-- The path of an entry: the empty path is `/`. -/
def slashIfEmpty (path : Path) : Path :=
  if path.isEmpty then ['/'] else path

/-- `Entry::with`, which asserts that the mode matches the path. -/
def ObjectEntry.new (debug : Bool) (path : Path)
    (metadata : ObjectMetadata D) : Except Panic (ObjectEntry D) :=
  let path := slashIfEmpty path
  if debug && (metadata.mode == .dir) != endsWithSlash path then
    .error .assertion
  else
    .ok { path, metadata }

def EntryMode.fromPath (path : Path) : EntryMode :=
  if endsWithSlash path then .dir else .file

theorem endsWithSlash_slashIfEmpty (path : Path) :
    endsWithSlash (slashIfEmpty path) = true ↔
      path = [] ∨ endsWithSlash path = true := by
  cases path with
  | nil => simp [slashIfEmpty, endsWithSlash]
  | cons c path => simp [slashIfEmpty]

theorem slashIfEmpty_idem (path : Path) :
    slashIfEmpty (slashIfEmpty path) = slashIfEmpty path := by
  cases path <;> rfl

theorem ObjectEntry.new_eq_ok_iff {debug : Bool} {path : Path}
    {metadata : ObjectMetadata D} {entry : ObjectEntry D} :
    ObjectEntry.new debug path metadata = .ok entry ↔
      entry = ⟨slashIfEmpty path, metadata⟩ ∧
        (debug = true → (metadata.mode = .dir ↔
          endsWithSlash (slashIfEmpty path) = true)) := by
  rw [ObjectEntry.new]
  by_cases fits : metadata.mode = .dir ↔
      endsWithSlash (slashIfEmpty path) = true
  · have same : ((metadata.mode == .dir) !=
        endsWithSlash (slashIfEmpty path)) = false := by
      rw [bne_eq_false_iff_eq, Bool.eq_iff_iff, beq_iff_eq]
      exact fits
    simp only [same, Bool.and_false, Bool.false_eq_true, if_false, fits,
      Except.ok.injEq, implies_true, and_true]
    exact eq_comm
  · have other : ((metadata.mode == .dir) !=
        endsWithSlash (slashIfEmpty path)) = true := by
      rw [bne_iff_ne, ne_eq, Bool.eq_iff_iff, beq_iff_eq]
      exact fits
    cases debug with
    | true =>
        simp only [other, Bool.and_true, if_true, reduceCtorEq, false_iff,
          not_and]
        exact fun _ same => fits (same trivial)
    | false =>
        simp only [Bool.false_and, Bool.false_eq_true, if_false,
          Except.ok.injEq, false_implies, and_true]
        exact eq_comm

theorem ObjectEntry.new_fromPath {path : Path} {metadata : ObjectMetadata D}
    (mode : metadata.mode = .fromPath (slashIfEmpty path)) (debug : Bool) :
    ObjectEntry.new debug path metadata =
      .ok ⟨slashIfEmpty path, metadata⟩ := by
  refine ObjectEntry.new_eq_ok_iff.mpr ⟨rfl, fun _ => ?_⟩
  rw [mode, EntryMode.fromPath]
  split <;> simp_all

/-- The path of an entry: that of the key below the root. -/
def relativePath (debug : Bool) (root : Root) (key : Path) :
    Except Panic Path :=
  (relPath debug root.path key).map slashIfEmpty

theorem slashIfEmpty_of_relativePath {debug : Bool} {root : Root}
    {key path : Path} (placed : relativePath debug root key = .ok path) :
    slashIfEmpty path = path := by
  rw [relativePath] at placed
  cases rooted : relPath debug root.path key with
  | error panic =>
      rw [rooted] at placed
      cases placed
  | ok rel =>
      rw [rooted] at placed
      cases placed
      exact slashIfEmpty_idem rel

/-- The entry of a common prefix. -/
def dirEntry (debug : Bool) (root : Root) (key : Path) :
    Except Panic (ObjectEntry D) := do
  let rel ← relPath debug root.path key
  ObjectEntry.new debug rel (.new .dir)

def parseDatetimeFromRfc3339 (rfc3339 : Text → Option D) (s : Text) :
    Except Error D :=
  match rfc3339 s with
  | some value => .ok value
  | none => .error (.new .unexpected "parse datetime from rfc3339 failed")

/-- `trim_matches('"')`. -/
def trimQuotes (text : Text) : Text :=
  (text.dropWhile (· == '"')).rdropWhile (· == '"')

/-- `set_etag` and `set_content_md5` of an optional etag. -/
def ObjectMetadata.withEtag (metadata : ObjectMetadata D)
    (etag : Option Text) : ObjectMetadata D :=
  match etag with
  | some etag => { metadata with etag := etag, contentMd5 := trimQuotes etag }
  | none => metadata

theorem ObjectMetadata.mode_withEtag (metadata : ObjectMetadata D)
    (etag : Option Text) : (metadata.withEtag etag).mode = metadata.mode := by
  cases etag <;> rfl

/-- A parameter that is written into the URL unless it is empty. -/
def given (text : Text) : Option Text :=
  if text.isEmpty then none else some text

/-- `OpList`, as far as the services use it. -/
structure ListOptions extends OpList where
  limit : Option Nat
  startAfter : Option Path
  versions : Bool
  deleted : Bool

/-! ## S3 -/

structure ListObjectsRequest where
  keyPrefix : Option Path
  delimiter : Option Text
  maxKeys : Option Nat
  startAfter : Option Path
  continuationToken : Option Text
deriving DecidableEq

structure ListObjectsOutputContent where
  key : Path
  size : Nat
  lastModified : Text
  etag : Option Text
deriving DecidableEq

structure ListObjectsOutput where
  isTruncated : Option Bool
  nextContinuationToken : Option Text
  commonPrefixes : List Path
  contents : List ListObjectsOutputContent
deriving DecidableEq

structure S3Lister where
  root : Root
  path : Path
  args : ListOptions
  delimiter : Text
  absStartAfter : Option Path

namespace S3Lister

def new (root : Root) (path : Path) (args : ListOptions) : S3Lister :=
  { root
    path
    args
    delimiter := if args.recursive then [] else ['/']
    absStartAfter := args.startAfter.map (buildAbsPath root.path) }

/-- `s3_list_objects`. -/
def request (self : S3Lister) (ctx : PageContext (ObjectEntry D)) :
    ListObjectsRequest :=
  { keyPrefix := given (buildAbsPath self.root.path self.path)
    delimiter := given self.delimiter
    maxKeys := self.args.limit
    -- only for the first page
    startAfter := if ctx.token.isEmpty then self.absStartAfter else none
    continuationToken := given ctx.token }

/-- Whether this is the last page, as far as it can be told. -/
def isDone (output : ListObjectsOutput) : Bool :=
  match output.isTruncated with
  | some isTruncated => !isTruncated
  | none =>
      match output.nextContinuationToken with
      | some token => token.isEmpty
      | none => output.commonPrefixes.isEmpty && output.contents.isEmpty

def objectEntry (debug : Bool) (path : Path)
    (object : ListObjectsOutputContent) (lastModified : D) :
    Except Panic (ObjectEntry D) :=
  let metadata : ObjectMetadata D := .new (.fromPath path)
  let metadata := { metadata with isCurrent := some true }
  ObjectEntry.new debug path { metadata.withEtag object.etag with
    contentLength := some object.size
    lastModified := some lastModified }

theorem objectEntry_isOk (debug : Bool) {path : Path}
    (object : ListObjectsOutputContent) (lastModified : D)
    (whole : slashIfEmpty path = path) :
    ∃ entry, objectEntry debug path object lastModified = .ok entry ∧
      entry.path = path := by
  refine ⟨_, ObjectEntry.new_fromPath ?_ debug, whole⟩
  rw [whole]
  exact ObjectMetadata.mode_withEtag _ _

def entry (debug : Bool) (rfc3339 : Text → Option D) (self : S3Lister)
    (object : ListObjectsOutputContent) :
    Except Panic (Except Error (Option (ObjectEntry D))) := do
  let path ← relativePath debug self.root object.key
  match parseDatetimeFromRfc3339 rfc3339 object.lastModified with
  | .error err => pure (.error err)
  | .ok value => do
      let entry ← objectEntry debug path object value
      pure (.ok (some entry))

def receive (debug : Bool) (rfc3339 : Text → Option D) (self : S3Lister)
    (ctx : PageContext (ObjectEntry D)) :
    Except Error ListObjectsOutput →
      Except Panic (Except Error Unit × PageContext (ObjectEntry D))
  | .error err => .ok (.error err, ctx)
  | .ok output => do
      let dirs ← output.commonPrefixes.mapM (dirEntry debug self.root)
      PageContext.pushAll (self.entry debug rfc3339) output.contents
        { done := isDone output
          token := output.nextContinuationToken.getD []
          entries := ctx.entries ++ dirs }

def pages (debug : Bool) (rfc3339 : Text → Option D) (self : S3Lister) :
    PageList ListObjectsRequest (Except Error ListObjectsOutput)
      (ObjectEntry D) where
  request := self.request
  receive := self.receive debug rfc3339

end S3Lister

/-! ## Object versions of S3 -/

structure ListObjectVersionsRequest where
  keyPrefix : Option Path
  delimiter : Option Text
  maxKeys : Option Nat
  keyMarker : Option Path
  versionIdMarker : Option Text
deriving DecidableEq

structure ListObjectVersionsOutputVersion where
  key : Path
  versionId : Text
  isLatest : Bool
  size : Nat
  lastModified : Text
  etag : Option Text
deriving DecidableEq

structure ListObjectVersionsOutputDeleteMarker where
  key : Path
  versionId : Text
  isLatest : Bool
  lastModified : Text
deriving DecidableEq

structure ListObjectVersionsOutput where
  isTruncated : Option Bool
  nextKeyMarker : Option Path
  nextVersionIdMarker : Option Text
  commonPrefixes : List Path
  version : List ListObjectVersionsOutputVersion
  deleteMarker : List ListObjectVersionsOutputDeleteMarker
deriving DecidableEq

/-- `str::rsplit_once(" ")`: at the last space. -/
def rsplitOnceSpace (text : Text) : Option (Text × Text) :=
  let behind := text.rtakeWhile (· != ' ')
  match text.rdropWhile (· != ' ') with
  | [] => none
  | before => some (before.dropLast, behind)

structure S3ObjectVersionsLister where
  root : Root
  keyPrefix : Path
  args : ListOptions
  delimiter : Text
  absStartAfter : Option Path

namespace S3ObjectVersionsLister

def new (root : Root) (path : Path) (args : ListOptions) :
    S3ObjectVersionsLister :=
  { root
    keyPrefix := path
    args
    delimiter := if args.recursive then [] else ['/']
    absStartAfter := args.startAfter.map (buildAbsPath root.path) }

/-- The markers that the token stands for. -/
def markers (self : S3ObjectVersionsLister) (token : Text) : Path × Text :=
  match rsplitOnceSpace token with
  | some data => data
  | none =>
      match self.absStartAfter with
      | some startAfter => (startAfter, [])
      | none => ([], [])

/-- `s3_list_object_versions`. -/
def request (self : S3ObjectVersionsLister)
    (ctx : PageContext (ObjectEntry D)) : ListObjectVersionsRequest :=
  let (keyMarker, versionIdMarker) := self.markers ctx.token
  { keyPrefix := given (buildAbsPath self.root.path self.keyPrefix)
    delimiter := given self.delimiter
    maxKeys := self.args.limit
    keyMarker := given keyMarker
    versionIdMarker := given versionIdMarker }

def isDone (output : ListObjectVersionsOutput) : Bool :=
  match output.isTruncated with
  | some isTruncated => !isTruncated
  | none => false

def token (output : ListObjectVersionsOutput) : Text :=
  output.nextKeyMarker.getD [] ++ ' ' :: output.nextVersionIdMarker.getD []

def versionEntry (debug : Bool) (path : Path)
    (object : ListObjectVersionsOutputVersion) (lastModified : D) :
    Except Panic (ObjectEntry D) :=
  let metadata : ObjectMetadata D := .new (.fromPath path)
  let metadata := { metadata with
    version := some object.versionId
    isCurrent := some object.isLatest
    contentLength := some object.size
    lastModified := some lastModified }
  ObjectEntry.new debug path (metadata.withEtag object.etag)

def version (debug : Bool) (rfc3339 : Text → Option D)
    (self : S3ObjectVersionsLister)
    (object : ListObjectVersionsOutputVersion) :
    Except Panic (Except Error (Option (ObjectEntry D))) :=
  -- only the latest version unless versions have been asked for
  if !(self.args.versions || object.isLatest) then
    pure (.ok none)
  else do
    let path ← relativePath debug self.root object.key
    match parseDatetimeFromRfc3339 rfc3339 object.lastModified with
    | .error err => pure (.error err)
    | .ok value => do
        let entry ← versionEntry debug path object value
        pure (.ok (some entry))

def deleteMarkerEntry (debug : Bool) (path : Path)
    (object : ListObjectVersionsOutputDeleteMarker) (lastModified : D) :
    Except Panic (ObjectEntry D) :=
  let metadata : ObjectMetadata D := .new .file
  ObjectEntry.new debug path { metadata with
    version := some object.versionId
    isDeleted := true
    isCurrent := some object.isLatest
    lastModified := some lastModified }

def deleteMarker (debug : Bool) (rfc3339 : Text → Option D)
    (self : S3ObjectVersionsLister)
    (object : ListObjectVersionsOutputDeleteMarker) :
    Except Panic (Except Error (Option (ObjectEntry D))) := do
  let path ← relativePath debug self.root object.key
  match parseDatetimeFromRfc3339 rfc3339 object.lastModified with
  | .error err => pure (.error err)
  | .ok value => do
      let entry ← deleteMarkerEntry debug path object value
      pure (.ok (some entry))

def receive (debug : Bool) (rfc3339 : Text → Option D)
    (self : S3ObjectVersionsLister) (ctx : PageContext (ObjectEntry D)) :
    Except Error ListObjectVersionsOutput →
      Except Panic (Except Error Unit × PageContext (ObjectEntry D))
  | .error err => .ok (.error err, ctx)
  | .ok output => do
      let dirs ← output.commonPrefixes.mapM (dirEntry debug self.root)
      let ctx := { done := isDone output
                   token := token output
                   entries := ctx.entries ++ dirs }
      match ← PageContext.pushAll (self.version debug rfc3339)
          output.version ctx with
      | (.error err, ctx) => pure (.error err, ctx)
      | (.ok (), ctx) =>
          if self.args.deleted then
            PageContext.pushAll (self.deleteMarker debug rfc3339)
              output.deleteMarker ctx
          else
            pure (.ok (), ctx)

def pages (debug : Bool) (rfc3339 : Text → Option D)
    (self : S3ObjectVersionsLister) :
    PageList ListObjectVersionsRequest (Except Error ListObjectVersionsOutput)
      (ObjectEntry D) where
  request := self.request
  receive := self.receive debug rfc3339

end S3ObjectVersionsLister

/-! ## GCS -/

structure GcsListRequest where
  keyPrefix : Path
  delimiter : Option Text
  maxResults : Option Nat
  startOffset : Option Path
  pageToken : Option Text
deriving DecidableEq

structure ListResponseItem where
  name : Path
  size : Text
  etag : Text
  md5Hash : Text
  updated : Text
  contentType : Text
deriving DecidableEq

structure ListResponse where
  nextPageToken : Option Text
  prefixes : List Path
  items : List ListResponseItem
deriving DecidableEq

/-- `str::parse::<u64>`. -/
def parseU64 (text : Text) : Option Nat :=
  let digits := if text.head? = some '+' then text.tail else text
  if digits.isEmpty || !digits.all Char.isDigit then
    none
  else
    let value := digits.foldl (fun value c => value * 10 + (c.toNat - 48)) 0
    if value < 2 ^ 64 then some value else none

structure GcsLister where
  root : Root
  path : Path
  delimiter : Text
  limit : Option Nat
  startAfter : Option Path

namespace GcsLister

def new (root : Root) (path : Path) (recursive : Bool) (limit : Option Nat)
    (startAfter : Option Path) : GcsLister :=
  { root
    path
    delimiter := if recursive then [] else ['/']
    limit
    startAfter }

/-- `gcs_list_objects`. -/
def request (self : GcsLister) (ctx : PageContext (ObjectEntry D)) :
    GcsListRequest :=
  { keyPrefix := buildAbsPath self.root.path self.path
    delimiter := given self.delimiter
    maxResults := self.limit
    startOffset :=
      (if ctx.token.isEmpty then self.startAfter else none).map
        (buildAbsPath self.root.path)
    pageToken := given ctx.token }

def objectEntry (debug : Bool) (path : Path) (object : ListResponseItem)
    (size : Nat) (lastModified : D) : Except Panic (ObjectEntry D) :=
  let metadata : ObjectMetadata D := .new (.fromPath path)
  ObjectEntry.new debug path { metadata with
    contentMd5 := some object.md5Hash
    etag := some object.etag
    contentLength := some size
    contentType := given object.contentType
    lastModified := some lastModified }

theorem objectEntry_isOk (debug : Bool) {path : Path}
    (object : ListResponseItem) (size : Nat) (lastModified : D)
    (whole : slashIfEmpty path = path) :
    ∃ entry, objectEntry debug path object size lastModified = .ok entry := by
  refine ⟨_, ObjectEntry.new_fromPath ?_ debug⟩
  rw [whole]
  rfl

def entry (debug : Bool) (rfc3339 : Text → Option D) (self : GcsLister)
    (object : ListResponseItem) :
    Except Panic (Except Error (Option (ObjectEntry D))) := do
  let path ← relativePath debug self.root object.name
  -- the start itself is left out
  if self.startAfter = some path then
    pure (.ok none)
  else
    match parseU64 object.size with
    | none => pure (.error (.new .unexpected "parse u64 from list response"))
    | some size =>
        match parseDatetimeFromRfc3339 rfc3339 object.updated with
        | .error err => pure (.error err)
        | .ok value => do
            let entry ← objectEntry debug path object size value
            pure (.ok (some entry))

def receive (debug : Bool) (rfc3339 : Text → Option D) (self : GcsLister)
    (ctx : PageContext (ObjectEntry D)) :
    Except Error ListResponse →
      Except Panic (Except Error Unit × PageContext (ObjectEntry D))
  | .error err => .ok (.error err, ctx)
  | .ok output => do
      let ctx :=
        match output.nextPageToken with
        | some token => { ctx with token }
        | none => { ctx with done := true }
      let dirs ← output.prefixes.mapM (dirEntry debug self.root)
      PageContext.pushAll (self.entry debug rfc3339) output.items
        { ctx with entries := ctx.entries ++ dirs }

def pages (debug : Bool) (rfc3339 : Text → Option D) (self : GcsLister) :
    PageList GcsListRequest (Except Error ListResponse) (ObjectEntry D) where
  request := self.request
  receive := self.receive debug rfc3339

end GcsLister

/-! ## Google Drive -/

/-- The path cache finds the id of the path, and the files in it are asked
for. -/
structure GdriveListRequest where
  path : Path
  pageSize : Nat
  pageToken : Option Text
deriving DecidableEq

structure GdriveListFile where
  mimeType : Text
  id : Text
  name : Path
deriving DecidableEq

structure GdriveFileList where
  files : List GdriveListFile
  nextPageToken : Option Text
deriving DecidableEq

/-- How the lookup of the path and the request turn out. -/
inductive GdriveReply where
  | lookupFailed (err : Error)
  | noSuchPath
  /-- The request failed or had another status than 200. -/
  | failed (err : Error)
  /-- The body of a directory that does not exist. -/
  | emptyBody
  | undecodable (err : Error)
  | files (decodedResponse : GdriveFileList)
deriving DecidableEq

structure GdriveLister where
  path : Path
  root : Root

namespace GdriveLister

def new (path : Path) (root : Root) : GdriveLister :=
  { path
    root }

def request (self : GdriveLister) (ctx : PageContext (ObjectEntry D)) :
    GdriveListRequest :=
  { path := self.path
    pageSize := 100
    pageToken := given ctx.token }

/-- The files are also entered into the path cache, which is not a part of the
page context. -/
def fileEntry (debug : Bool) (self : GdriveLister) (file : GdriveListFile) :
    Except Panic (ObjectEntry D) :=
  if file.mimeType = "application/vnd.google-apps.folder".toList then do
    let name :=
      if endsWithSlash file.name then file.name else file.name ++ ['/']
    let rel ← relPath debug self.root.path (self.path ++ name)
    ObjectEntry.new debug rel (.new .dir)
  else do
    let rel ← relPath debug self.root.path (self.path ++ file.name)
    ObjectEntry.new debug rel (.new .file)

/-- The first page has the directory itself; it is pushed before the body is
decoded. -/
def withDirectory (debug : Bool) (self : GdriveLister)
    (ctx : PageContext (ObjectEntry D)) :
    Except Panic (PageContext (ObjectEntry D)) :=
  if ctx.token.isEmpty && !ctx.done then
    (dirEntry debug self.root self.path).map ctx.push
  else
    .ok ctx

def receive (debug : Bool) (self : GdriveLister)
    (ctx : PageContext (ObjectEntry D)) :
    GdriveReply →
      Except Panic (Except Error Unit × PageContext (ObjectEntry D))
  | .lookupFailed err => .ok (.error err, ctx)
  | .noSuchPath => .ok (.ok (), { ctx with done := true })
  | .failed err => .ok (.error err, ctx)
  | .emptyBody => .ok (.ok (), { ctx with done := true })
  | .undecodable err => do
      let ctx ← self.withDirectory debug ctx
      pure (.error err, ctx)
  | .files decodedResponse => do
      let ctx ← self.withDirectory debug ctx
      let ctx :=
        match decodedResponse.nextPageToken with
        | some token => { ctx with token }
        | none => { ctx with done := true }
      let files ← decodedResponse.files.mapM (self.fileEntry debug)
      pure (.ok (), { ctx with entries := ctx.entries ++ files })

def pages (debug : Bool) (self : GdriveLister) :
    PageList GdriveListRequest GdriveReply (ObjectEntry D) where
  request := self.request
  receive := self.receive debug

end GdriveLister

end OpenDal
