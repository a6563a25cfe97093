import OpenDal.PercentEncoding
import OpenDal.Raw.MixedPart
import OpenDal.Raw.Root

/-!
# Requests to GCS

Every request names an object in its URL.  The functions of `GcsCore` put the
root before the path and encode the result, except for
`gcs_initiate_multipart_upload`, which encodes nothing.  `GcsWriter` encodes
the path before it calls two of them: that one, and
`gcs_insert_object_request`, which encodes it again.

`GcsCore::sign` signs every request before it is sent, unless it is anonymous.
To do so `reqsign` takes the query apart and writes its fields back decoded,
which undoes one encoding of the `name` of an upload.

The model of a request is its method and its URL without the endpoint, which
is the same for all requests.  Headers and bodies do not name an object and
are left out.  Whether the `http` crate takes a URL, and what `reqsign` makes
of a query, are parameters.
-/

namespace OpenDal

open Path PercentEncoding

/-! ## `percent_encode_path` -/

/-- The characters outside of `PATH_ENCODE_SET`; 39 is the apostrophe. -/
def inPath (c : Char) : Bool :=
  c.isAlphanum || c == '/' || c == '-' || c == '_' || c == '.' || c == '!' ||
    c == '~' || c == '*' || c.toNat == 39 || c == '(' || c == ')'

def percentEncodePath (path : Path) : Path :=
  encode inPath path

/-! ## URLs -/

inductive Method where
  | get
  | put
  | post
  | delete
deriving DecidableEq, Repr

structure Request where
  method : Method
  path : Text
  query : Text
deriving DecidableEq, Repr

/-- The end of the path of a URL. -/
def endsPath (c : Char) : Bool :=
  c == '?' || c == '#'

/-- `Request::builder().uri(url).body(..)`: the path ends with the first `?`
or `#`, and the query with the first `#`. -/
def buildRequest (accepts : Text → Bool) (method : Method) (url : Text) :
    Option Request :=
  if accepts url then
    let rest := url.dropWhile fun c => !endsPath c
    let query :=
      if rest.head? = some '?' then rest.tail.takeWhile (· != '#') else []
    some ⟨method, url.takeWhile fun c => !endsPath c, query⟩
  else
    none

/-- The name of a bucket.  It has only letters, digits, `-`, `_` and `.`, so it
does not end a path. -/
structure Bucket where
  name : Text
  plain : ∀ c ∈ name, endsPath c = false

/-! ## Signing -/

/-- The fields of a query. -/
def queryText (write : Text → Text) (fields : List (Text × Text)) : Text :=
  ['&'].intercalate (fields.map fun field => field.1 ++ '=' :: write field.2)

/-- A key of letters and something behind it. -/
def IsField (field : Text × Text) : Prop :=
  field.1 ≠ [] ∧ (∀ c ∈ field.1, c.isAlpha = true) ∧ field.2 ≠ []

/-- Nothing, or one more field. -/
def StartsField (text : Text) : Prop :=
  ∀ c, text.head? = some c → c = '&'

/-- The signer of `reqsign`.  It puts the token into a header; of the URL it
takes the query apart into its fields, which decodes them, and writes them
back as they are. -/
structure GoogleSigner where
  signQuery : Text → Text
  writesDecoded : ∀ fields more, fields ≠ [] →
    (∀ field ∈ fields, IsField field) → StartsField more →
    ∃ others, StartsField others ∧
      signQuery (queryText percentEncodePath fields ++ more) =
        queryText id fields ++ others

/-! ## `GcsCore` -/

/-- The fields of an `OpWrite` that the URL depends on. -/
structure OpWrite where
  contentType : Option Text
  cacheControl : Option Text
  userMetadata : Option (List (Text × Text))
  ifNotExists : Bool
deriving DecidableEq, Repr

structure GcsCore where
  root : Root
  bucket : Bucket
  signer : GoogleSigner
  /-- The token, or none for requests that are anonymous. -/
  loadToken : Except Error (Option Text)
  defaultStorageClass : Option Text
  predefinedAcl : Option Text
  /-- The URLs that the `http` crate accepts. -/
  accepts : Text → Bool

namespace GcsCore

/-- The URL of a request with the query that the signer wrote. -/
def signedUrl (core : GcsCore) (request : Request) : Text :=
  let query := core.signer.signQuery request.query
  request.path ++ if query.isEmpty then [] else '?' :: query

def sign (core : GcsCore) (request : Request) : Option Request :=
  match core.loadToken with
  | .error _ => none
  | .ok none => some request
  | .ok (some _) =>
      buildRequest core.accepts request.method (core.signedUrl request)

/-- The request for a URL, signed. -/
def signedRequest (core : GcsCore) (method : Method) (url : Text) :
    Option Request :=
  (buildRequest core.accepts method url).bind core.sign

/-- The route of an object in the JSON API. -/
def objectRoute (core : GcsCore) : Text :=
  "/storage/v1/b/".toList ++ core.bucket.name ++ "/o/".toList

/-- What stands between the two objects of a copy. -/
def copyRoute (core : GcsCore) : Text :=
  "/copyTo/b/".toList ++ core.bucket.name ++ "/o/".toList

def uploadRoute (core : GcsCore) : Text :=
  "/upload/storage/v1/b/".toList ++ core.bucket.name ++ "/o".toList

/-- The route of an object in the XML API. -/
def xmlRoute (core : GcsCore) : Text :=
  '/' :: core.bucket.name ++ ['/']

def getObjectRequest (core : GcsCore) (path : Path) : Option Request :=
  let p := buildAbsPath core.root.path path
  buildRequest core.accepts .get
    (core.objectRoute ++ percentEncodePath p ++ '?' :: "alt=media".toList)

def getObject (core : GcsCore) (path : Path) : Option Request :=
  (core.getObjectRequest path).bind core.sign

def headObjectRequest (core : GcsCore) (path : Path) : Option Request :=
  let p := buildAbsPath core.root.path path
  buildRequest core.accepts .get (core.objectRoute ++ percentEncodePath p)

def getObjectMetadata (core : GcsCore) (path : Path) : Option Request :=
  (core.headObjectRequest path).bind core.sign

def deleteObjectRequest (core : GcsCore) (path : Path) : Option Request :=
  let p := buildAbsPath core.root.path path
  buildRequest core.accepts .delete (core.objectRoute ++ percentEncodePath p)

def deleteObject (core : GcsCore) (path : Path) : Option Request :=
  (core.deleteObjectRequest path).bind core.sign

def copyObject (core : GcsCore) (source target : Path) : Option Request :=
  let source := buildAbsPath core.root.path source
  let dest := buildAbsPath core.root.path target
  core.signedRequest .post
    (core.objectRoute ++ percentEncodePath source ++ core.copyRoute ++
      percentEncodePath dest)

/-- `InsertRequestMetadata::is_empty`. -/
def metadataIsEmpty (core : GcsCore) (op : OpWrite) : Bool :=
  op.contentType.isNone && core.defaultStorageClass.isNone &&
    op.cacheControl.isNone && op.userMetadata.isNone

/-- What follows the name in the URL of an upload. -/
def insertConditions (core : GcsCore) (op : OpWrite) : Text :=
  (match core.predefinedAcl with
    | some acl => '&' :: "predefinedAcl=".toList ++ acl
    | none => []) ++
  -- makes the operation conditional on whether the object exists
  (if op.ifNotExists then '&' :: "ifGenerationMatch=0".toList else [])

def uploadType (core : GcsCore) (op : OpWrite) : Text :=
  if core.metadataIsEmpty op then "media".toList else "multipart".toList

def insertObjectUrl (core : GcsCore) (path : Path) (op : OpWrite) : Text :=
  let p := buildAbsPath core.root.path path
  core.uploadRoute ++ '?' :: ("uploadType=".toList ++ core.uploadType op ++
    '&' :: ("name=".toList ++ percentEncodePath p ++ core.insertConditions op))

def insertObjectRequest (core : GcsCore) (path : Path) (op : OpWrite) :
    Option Request :=
  buildRequest core.accepts .post (core.insertObjectUrl path op)

def initiateMultipartUploadUrl (core : GcsCore) (path : Path) : Text :=
  core.xmlRoute ++ buildAbsPath core.root.path path ++ '?' :: "uploads".toList

def initiateMultipartUpload (core : GcsCore) (path : Path) : Option Request :=
  core.signedRequest .post (core.initiateMultipartUploadUrl path)

def uploadPart (core : GcsCore) (path : Path) (uploadId : Text)
    (partNumber : Nat) : Option Request :=
  let p := buildAbsPath core.root.path path
  core.signedRequest .put
    (core.xmlRoute ++ percentEncodePath p ++
      '?' :: ("partNumber=".toList ++ partNumber.repr.toList ++
        "&uploadId=".toList ++ percentEncodePath uploadId))

def completeMultipartUpload (core : GcsCore) (path : Path) (uploadId : Text) :
    Option Request :=
  let p := buildAbsPath core.root.path path
  core.signedRequest .post
    (core.xmlRoute ++ percentEncodePath p ++
      '?' :: ("uploadId=".toList ++ percentEncodePath uploadId))

def abortMultipartUpload (core : GcsCore) (path : Path) (uploadId : Text) :
    Option Request :=
  let p := buildAbsPath core.root.path path
  core.signedRequest .delete
    (core.xmlRoute ++ percentEncodePath p ++
      '?' :: ("uploadId=".toList ++ percentEncodePath uploadId))

end GcsCore

/-! ## `GcsWriter` -/

structure GcsWriter where
  core : GcsCore
  path : Path
  op : OpWrite

namespace GcsWriter

def writeOnce (writer : GcsWriter) : Option Request :=
  (writer.core.insertObjectRequest (percentEncodePath writer.path)
    writer.op).bind writer.core.sign

def initiatePart (writer : GcsWriter) : Option Request :=
  writer.core.initiateMultipartUpload (percentEncodePath writer.path)

def writePart (writer : GcsWriter) (uploadId : Text) (partNumber : Nat) :
    Option Request :=
  -- GCS requires that part numbers are between 1 and 10000
  writer.core.uploadPart writer.path uploadId (partNumber + 1)

def completePart (writer : GcsWriter) (uploadId : Text) : Option Request :=
  writer.core.completeMultipartUpload writer.path uploadId

def abortPart (writer : GcsWriter) (uploadId : Text) : Option Request :=
  writer.core.abortMultipartUpload writer.path uploadId

end GcsWriter

/-! ## The names that a server reads -/

namespace GcsCore

/-- The bytes of the name that a path stands for. -/
def objectName (core : GcsCore) (path : Path) : List UInt8 :=
  utf8 (buildAbsPath core.root.path path)

end GcsCore

/-- The name behind a route, decoded once. -/
def nameBehind (route : Text) (request : Request) : Option (List UInt8) :=
  if route.isPrefixOf request.path then
    some (decode (request.path.drop route.length))
  else
    none

/-- The value of a key of a query, decoded once. -/
def queryValue (key : Text) (request : Request) : Option (List UInt8) :=
  (request.query.splitOn '&').findSome? fun piece =>
    if (key ++ ['=']).isPrefixOf piece then
      some (decode (piece.drop (key.length + 1)))
    else
      none

/-- The names of a copy.  Where the route occurs in a name too, there is more
than one way to read the path, and the server has to choose. -/
def Copies (core : GcsCore) (request : Request)
    (source target : List UInt8) : Prop :=
  ∃ first second, request.path =
      core.objectRoute ++ first ++ core.copyRoute ++ second ∧
    decode first = source ∧ decode second = target

/-- All requests that are sent for a path are about one object. -/
structure AddressesOne (core : GcsCore) (path : Path) : Prop where
  get : ∀ request, core.getObject path = some request →
    nameBehind core.objectRoute request = some (core.objectName path)
  stat : ∀ request, core.getObjectMetadata path = some request →
    nameBehind core.objectRoute request = some (core.objectName path)
  delete : ∀ request, core.deleteObject path = some request →
    nameBehind core.objectRoute request = some (core.objectName path)
  copySource : ∀ target request, core.copyObject path target = some request →
    Copies core request (core.objectName path) (core.objectName target)
  copyTarget : ∀ source request, core.copyObject source path = some request →
    Copies core request (core.objectName source) (core.objectName path)
  writeOnce : ∀ op request, GcsWriter.writeOnce ⟨core, path, op⟩ = some request →
    queryValue "name".toList request = some (core.objectName path)
  initiatePart : ∀ op request,
    GcsWriter.initiatePart ⟨core, path, op⟩ = some request →
    nameBehind core.xmlRoute request = some (core.objectName path)
  writePart : ∀ op uploadId partNumber request,
    GcsWriter.writePart ⟨core, path, op⟩ uploadId partNumber = some request →
    nameBehind core.xmlRoute request = some (core.objectName path)
  completePart : ∀ op uploadId request,
    GcsWriter.completePart ⟨core, path, op⟩ uploadId = some request →
    nameBehind core.xmlRoute request = some (core.objectName path)
  abortPart : ∀ op uploadId request,
    GcsWriter.abortPart ⟨core, path, op⟩ uploadId = some request →
    nameBehind core.xmlRoute request = some (core.objectName path)

/-! ## Reading requests -/

section Reading

variable {accepts : Text → Bool} {method : Method} {request : Request}
  {front rest : Text} {core : GcsCore} {path : Path}

theorem buildRequest_eq (plain : ∀ c ∈ front, endsPath c = false)
    (ended : ∀ c, rest.head? = some c → endsPath c = true)
    (built : buildRequest accepts method (front ++ rest) = some request) :
    request.path = front ∧ request.query =
      if rest.head? = some '?' then rest.tail.takeWhile (· != '#') else [] := by
  have stays : ∀ c ∈ front, (!endsPath c) = true := by
    intro c member
    simp [plain c member]
  have stops : rest.takeWhile (fun c => !endsPath c) = [] ∧
      rest.dropWhile (fun c => !endsPath c) = rest := by
    cases rest with
    | nil => exact ⟨rfl, rfl⟩
    | cons c rest =>
        have stop : (!endsPath c) = false := by simp [ended c rfl]
        exact ⟨List.takeWhile_cons_of_neg (by simp [stop]),
          List.dropWhile_cons_of_neg (by simp [stop])⟩
  unfold buildRequest at built
  rw [List.takeWhile_append_of_pos stays, List.dropWhile_append_of_pos stays,
    stops.1, stops.2, List.append_nil] at built
  split at built
  · simp only [Option.some.injEq] at built
    rw [← built]
    exact ⟨rfl, rfl⟩
  · cases built

theorem escapes_percent : inPath '%' = false := by
  decide

theorem not_mem_percentEncodePath {c : Char}
    (foreign : inPath c = false ∧ c ≠ '%' ∧
      ∀ value < 16, c ≠ hexDigit value) :
    c ∉ percentEncodePath path := by
  intro member
  rcases mem_encode member with safe | percent | ⟨value, small, digit⟩
  · rw [foreign.1] at safe
    cases safe
  · exact foreign.2.1 percent
  · exact foreign.2.2 value small digit

theorem question_not_mem : '?' ∉ percentEncodePath path :=
  not_mem_percentEncodePath (by decide)

theorem hash_not_mem : '#' ∉ percentEncodePath path :=
  not_mem_percentEncodePath (by decide)

theorem ampersand_not_mem : '&' ∉ percentEncodePath path :=
  not_mem_percentEncodePath (by decide)

theorem endsPath_eq_false {text : Text} (noQuestion : '?' ∉ text)
    (noHash : '#' ∉ text) : ∀ c ∈ text, endsPath c = false := by
  intro c member
  have first : c ≠ '?' := fun same => noQuestion (same ▸ member)
  have second : c ≠ '#' := fun same => noHash (same ▸ member)
  simp [endsPath, first, second]

theorem plain_percentEncodePath (path : Path) :
    ∀ c ∈ percentEncodePath path, endsPath c = false :=
  endsPath_eq_false question_not_mem hash_not_mem

theorem plain_append {left right : Text}
    (first : ∀ c ∈ left, endsPath c = false)
    (second : ∀ c ∈ right, endsPath c = false) :
    ∀ c ∈ left ++ right, endsPath c = false := by
  intro c member
  rcases List.mem_append.mp member with inLeft | inRight
  · exact first c inLeft
  · exact second c inRight

theorem plain_of_all {text : Text}
    (all : (text.all fun c => !endsPath c) = true) :
    ∀ c ∈ text, endsPath c = false := by
  simpa using all

theorem plain_objectRoute (core : GcsCore) :
    ∀ c ∈ core.objectRoute, endsPath c = false :=
  plain_append (plain_append (plain_of_all (by decide)) core.bucket.plain)
    (plain_of_all (by decide))

theorem plain_copyRoute (core : GcsCore) :
    ∀ c ∈ core.copyRoute, endsPath c = false :=
  plain_append (plain_append (plain_of_all (by decide)) core.bucket.plain)
    (plain_of_all (by decide))

theorem plain_uploadRoute (core : GcsCore) :
    ∀ c ∈ core.uploadRoute, endsPath c = false :=
  plain_append (plain_append (plain_of_all (by decide)) core.bucket.plain)
    (plain_of_all (by decide))

theorem plain_xmlRoute (core : GcsCore) :
    ∀ c ∈ core.xmlRoute, endsPath c = false := by
  have slash : ∀ c ∈ ['/'], endsPath c = false := plain_of_all (by decide)
  have bucket := plain_append slash core.bucket.plain
  exact plain_append bucket slash

theorem nameBehind_eq {route name : Text}
    (shape : request.path = route ++ name) :
    nameBehind route request = some (decode name) := by
  have starts : route.isPrefixOf request.path = true := by
    rw [List.isPrefixOf_iff_prefix, shape]
    exact List.prefix_append route name
  rw [nameBehind, if_pos starts, shape, List.drop_left]

theorem nameBehind_percentEncodePath {route : Text} {name : Path}
    (shape : request.path = route ++ percentEncodePath name) :
    nameBehind route request = some (utf8 name) := by
  rw [nameBehind_eq shape, percentEncodePath, decode_encode escapes_percent]

/-! ### What is sent -/

theorem path_buildRequest {url : Text}
    (built : buildRequest accepts method url = some request) :
    request.path = url.takeWhile fun c => !endsPath c := by
  unfold buildRequest at built
  split at built
  · simp only [Option.some.injEq] at built
    rw [← built]
  · cases built

theorem plain_takeWhile {ends : Char → Bool} (text : Text) :
    ∀ c ∈ text.takeWhile fun c => !ends c, ends c = false := by
  intro c member
  simpa using List.mem_takeWhile_imp member

theorem takeWhile_append_ended {ends : Char → Bool} {text : Text}
    (ended : ∀ c, rest.head? = some c → ends c = true) :
    ((text ++ rest).takeWhile fun c => !ends c) =
      text.takeWhile fun c => !ends c := by
  induction text with
  | nil =>
      cases rest with
      | nil => rfl
      | cons c rest => simp [ended c rfl]
  | cons c text induction =>
      rw [List.cons_append, List.takeWhile_cons, List.takeWhile_cons,
        induction]

theorem takeWhile_plain {ends : Char → Bool} {text : Text}
    (plain : ∀ c ∈ text, ends c = false) :
    (text.takeWhile fun c => !ends c) = text := by
  rw [List.takeWhile_eq_self_iff]
  intro c member
  simp [plain c member]

theorem signedUrl_ended (core : GcsCore) (request : Request) :
    ∃ rest, core.signedUrl request = request.path ++ rest ∧
      ∀ c, rest.head? = some c → endsPath c = true := by
  refine ⟨_, rfl, ?_⟩
  intro c found
  split at found
  · cases found
  · cases found
    rfl

theorem signedUrl_of_written {text : Text} (nonempty : text ≠ [])
    (written : core.signer.signQuery request.query = text) :
    core.signedUrl request = request.path ++ '?' :: text := by
  have some : text.isEmpty = false := List.isEmpty_eq_false_iff.mpr nonempty
  simp only [GcsCore.signedUrl, written, some, Bool.false_eq_true, if_false]

theorem sign_of_token {token : Text}
    (loaded : core.loadToken = .ok (some token)) :
    core.sign request =
      buildRequest core.accepts request.method (core.signedUrl request) := by
  rw [GcsCore.sign, loaded]

theorem path_sign {sent : Request}
    (plain : ∀ c ∈ request.path, endsPath c = false)
    (signed : core.sign request = some sent) : sent.path = request.path := by
  unfold GcsCore.sign at signed
  cases token : core.loadToken with
  | error err =>
      rw [token] at signed
      cases signed
  | ok token' =>
      rw [token] at signed
      cases token' with
      | none =>
          cases signed
          rfl
      | some text =>
          obtain ⟨rest, shape, ended⟩ := signedUrl_ended core request
          rw [path_buildRequest signed, shape, takeWhile_append_ended ended,
            takeWhile_plain plain]

theorem path_signedRequest {url : Text}
    (sent : core.signedRequest method url = some request) :
    request.path = url.takeWhile fun c => !endsPath c := by
  obtain ⟨unsigned, built, signed⟩ := Option.bind_eq_some_iff.mp sent
  have path := path_buildRequest built
  rw [path_sign (path ▸ plain_takeWhile url) signed, path]

theorem nameBehind_signedRequest {route : Text} {name : Path}
    (plain : ∀ c ∈ route, endsPath c = false)
    (ended : ∀ c, rest.head? = some c → endsPath c = true)
    (sent : core.signedRequest method
      (route ++ percentEncodePath name ++ rest) = some request) :
    nameBehind route request = some (utf8 name) := by
  apply nameBehind_percentEncodePath
  rw [path_signedRequest sent, takeWhile_append_ended ended]
  exact takeWhile_plain (plain_append plain (plain_percentEncodePath name))

theorem copies_copyObject {source target : Path}
    (sent : core.copyObject source target = some request) :
    Copies core request (core.objectName source) (core.objectName target) := by
  have path := path_signedRequest sent
  rw [takeWhile_plain (plain_append (plain_append (plain_append
    (plain_objectRoute core) (plain_percentEncodePath _))
    (plain_copyRoute core)) (plain_percentEncodePath _))] at path
  exact ⟨_, _, path, decode_encode escapes_percent,
    decode_encode escapes_percent⟩

/-! ### The `name` of an upload -/

theorem splitOn_eq_cons (text : Text) :
    ∃ others, text.splitOn '&' =
      (text.takeWhile fun c => c != '&') :: others := by
  induction text with
  | nil => exact ⟨[], rfl⟩
  | cons c text induction =>
      obtain ⟨others, pieces⟩ := induction
      rw [List.splitOn_cons_eq_if_modifyHead, pieces]
      by_cases separator : c = '&'
      · refine ⟨(text.takeWhile fun c => c != '&') :: others, ?_⟩
        simp [separator]
      · refine ⟨others, ?_⟩
        simp [separator]

/-- The value behind the second key, which ends at the next `&`. -/
theorem queryValue_takeWhile {key first value : Text}
    (noSeparator : '&' ∉ first)
    (other : (key ++ ['=']).isPrefixOf first = false)
    (plainKey : '&' ∉ key ++ ['='])
    (shape : request.query = first ++ '&' :: (key ++ ['='] ++ value)) :
    queryValue key request =
      some (decode (value.takeWhile fun c => c != '&')) := by
  have stays : ∀ c ∈ key ++ ['='], (c != '&') = true := by
    intro c member
    rw [bne_iff_ne]
    intro same
    exact plainKey (same ▸ member)
  obtain ⟨others, pieces⟩ := splitOn_eq_cons (key ++ ['='] ++ value)
  rw [List.takeWhile_append_of_pos stays] at pieces
  have found : (key ++ ['=']).isPrefixOf (key ++ ['='] ++
      value.takeWhile fun c => c != '&') = true := by
    rw [List.isPrefixOf_iff_prefix]
    exact List.prefix_append _ _
  rw [queryValue, shape,
    List.splitOn_append_cons_self_of_not_mem noSeparator, pieces,
    List.findSome?_cons, other, if_neg Bool.false_ne_true,
    List.findSome?_cons, if_pos found, List.drop_left' (by simp)]

theorem queryValue_second {key first value more : Text}
    (noSeparator : '&' ∉ first)
    (other : (key ++ ['=']).isPrefixOf first = false)
    (single : '&' ∉ key ++ ['='] ++ value)
    (next : StartsField more)
    (shape : request.query =
      first ++ '&' :: (key ++ ['='] ++ value ++ more)) :
    queryValue key request = some (decode value) := by
  rw [List.mem_append, not_or] at single
  rw [List.append_assoc _ value] at shape
  have ended : ∀ c, more.head? = some c → (c == '&') = true := by
    intro c found
    simp [next c found]
  have plain : ∀ c ∈ value, (c == '&') = false := by
    intro c member
    rw [beq_eq_false_iff_ne]
    intro same
    exact single.2 (same ▸ member)
  have whole : ((value ++ more).takeWhile fun c => c != '&') = value :=
    (takeWhile_append_ended ended).trans (takeWhile_plain plain)
  rw [queryValue_takeWhile noSeparator other single.1 shape, whole]

theorem uploadType_plain (core : GcsCore) (op : OpWrite) :
    '&' ∉ core.uploadType op ∧ '#' ∉ core.uploadType op := by
  rw [GcsCore.uploadType]
  split
  · decide
  · decide

theorem head_insertConditions {op : OpWrite} {c : Char}
    (found : (core.insertConditions op).head? = some c) : c = '&' := by
  unfold GcsCore.insertConditions at found
  split at found
  · rw [List.cons_append, List.cons_append, List.head?_cons,
      Option.some.injEq] at found
    exact found.symm
  · split at found
    · rw [List.nil_append, List.head?_cons, Option.some.injEq] at found
      exact found.symm
    · cases found

theorem head_takeWhile {text : Text} {c : Char} {keep : Char → Bool}
    (found : (text.takeWhile keep).head? = some c) : text.head? = some c := by
  cases text with
  | nil => cases found
  | cons first text =>
      rw [List.takeWhile_cons] at found
      split at found
      · exact found
      · cases found

/-- What the query of an upload starts with. -/
def uploadFields (core : GcsCore) (path : Path) (op : OpWrite) :
    List (Text × Text) :=
  [("uploadType".toList, core.uploadType op),
    ("name".toList, buildAbsPath core.root.path path)]

theorem queryText_uploadFields (core : GcsCore) (write : Text → Text)
    (path : Path) (op : OpWrite) (more : Text) :
    queryText write (uploadFields core path op) ++ more =
      "uploadType=".toList ++ write (core.uploadType op) ++
        '&' :: ("name".toList ++ ['='] ++
          (write (buildAbsPath core.root.path path) ++ more)) := by
  simp [queryText, uploadFields]

theorem percentEncodePath_uploadType (core : GcsCore) (op : OpWrite) :
    percentEncodePath (core.uploadType op) = core.uploadType op := by
  rw [GcsCore.uploadType]
  split
  · decide
  · decide

theorem query_insertObjectRequest {op : OpWrite}
    (built : core.insertObjectRequest path op = some request) :
    ∃ more, StartsField more ∧ request.query =
      queryText percentEncodePath (uploadFields core path op) ++ more := by
  have query := (buildRequest_eq (plain_uploadRoute core)
    (fun c found => by cases found; rfl) built).2
  obtain ⟨-, noHash⟩ := uploadType_plain core op
  have known : ∀ c ∈ "uploadType=".toList ++ core.uploadType op ++
      '&' :: ("name=".toList ++
        percentEncodePath (buildAbsPath core.root.path path)),
      (c != '#') = true := by
    intro c member
    rw [bne_iff_ne]
    intro same
    subst same
    rw [List.mem_append, List.mem_append, List.mem_cons,
      List.mem_append] at member
    rcases member with (key | kind) | separator | key | name
    · exact absurd key (by decide)
    · exact noHash kind
    · exact absurd separator (by decide)
    · exact absurd key (by decide)
    · exact hash_not_mem name
  have grouped : "uploadType=".toList ++ core.uploadType op ++
      '&' :: ("name=".toList ++
        percentEncodePath (buildAbsPath core.root.path path) ++
        core.insertConditions op) =
      ("uploadType=".toList ++ core.uploadType op ++
        '&' :: ("name=".toList ++
          percentEncodePath (buildAbsPath core.root.path path))) ++
        core.insertConditions op := by
    simp only [List.append_assoc, List.cons_append]
  rw [List.head?_cons, if_pos rfl, List.tail_cons, grouped,
    List.takeWhile_append_of_pos known] at query
  refine ⟨(core.insertConditions op).takeWhile (· != '#'), ?_, ?_⟩
  · intro c found
    exact head_insertConditions (head_takeWhile found)
  · rw [query, queryText_uploadFields, percentEncodePath_uploadType]
    simp

theorem queryValue_insertObjectRequest {op : OpWrite}
    (built : core.insertObjectRequest path op = some request) :
    queryValue "name".toList request = some (core.objectName path) := by
  obtain ⟨more, next, query⟩ := query_insertObjectRequest built
  obtain ⟨noSeparator, -⟩ := uploadType_plain core op
  rw [queryText_uploadFields, percentEncodePath_uploadType] at query
  have first : '&' ∉ "uploadType=".toList ++ core.uploadType op := by
    rw [List.mem_append, not_or]
    exact ⟨by decide, noSeparator⟩
  have single : '&' ∉ "name".toList ++ ['='] ++
      percentEncodePath (buildAbsPath core.root.path path) := by
    rw [List.mem_append, not_or]
    exact ⟨by decide, ampersand_not_mem⟩
  rw [queryValue_second first rfl single next
    (by rw [query, List.append_assoc _ _ more]), percentEncodePath,
    decode_encode escapes_percent]
  rfl

/-- The end of a value in a query. -/
def endsValue (c : Char) : Bool :=
  c == '&' || c == '#'

/-- The signer decodes the name, and what is read of it ends where it looks
like the end of a value. -/
theorem queryValue_signed {op : OpWrite} {sent : Request} {token : Text}
    (filled : buildAbsPath core.root.path path ≠ [])
    (built : core.insertObjectRequest path op = some request)
    (loaded : core.loadToken = .ok (some token))
    (signed : core.sign request = some sent) :
    queryValue "name".toList sent =
      some (decode ((buildAbsPath core.root.path path).takeWhile
        fun c => !endsValue c)) := by
  obtain ⟨more, next, query⟩ := query_insertObjectRequest built
  have fields : ∀ field ∈ uploadFields core path op, IsField field := by
    intro field member
    simp only [uploadFields, List.mem_cons, List.not_mem_nil,
      or_false] at member
    have firstKey : "uploadType".toList ≠ [] := by decide
    have firstLetters : "uploadType".toList.all Char.isAlpha = true := rfl
    have secondKey : "name".toList ≠ [] := by decide
    have secondLetters : "name".toList.all Char.isAlpha = true := rfl
    rcases member with rfl | rfl
    · refine ⟨firstKey, List.all_eq_true.mp firstLetters, ?_⟩
      simp only [GcsCore.uploadType]
      split
      · decide
      · decide
    · exact ⟨secondKey, List.all_eq_true.mp secondLetters, filled⟩
  obtain ⟨others, follow, written⟩ := core.signer.writesDecoded
    (uploadFields core path op) more (by simp [uploadFields]) fields next
  rw [← query, queryText_uploadFields, id, id] at written
  rw [sign_of_token loaded, signedUrl_of_written (by simp) written] at signed
  have plain := path_buildRequest built ▸ plain_takeWhile
    (core.insertObjectUrl path op)
  have read := (buildRequest_eq plain
    (fun c found => by cases found; rfl) signed).2
  obtain ⟨noSeparator, noHash⟩ := uploadType_plain core op
  have known : ∀ c ∈ "uploadType=".toList ++ core.uploadType op ++
      '&' :: ("name".toList ++ ['=']), (c != '#') = true := by
    intro c member
    rw [bne_iff_ne]
    intro same
    subst same
    rw [List.mem_append, List.mem_append, List.mem_cons] at member
    rcases member with (key | kind) | separator | key
    · exact absurd key (by decide)
    · exact noHash kind
    · exact absurd separator (by decide)
    · exact absurd key (by decide)
  have grouped : "uploadType=".toList ++ core.uploadType op ++
      '&' :: ("name".toList ++ ['='] ++
        (buildAbsPath core.root.path path ++ others)) =
      "uploadType=".toList ++ core.uploadType op ++
        '&' :: ("name".toList ++ ['=']) ++
        (buildAbsPath core.root.path path ++ others) := by
    simp only [List.append_assoc, List.cons_append]
  rw [List.head?_cons, if_pos rfl, List.tail_cons, grouped,
    List.takeWhile_append_of_pos known, List.append_assoc,
    List.cons_append] at read
  have first : '&' ∉ "uploadType=".toList ++ core.uploadType op := by
    rw [List.mem_append, not_or]
    exact ⟨by decide, noSeparator⟩
  have ended : ∀ c, others.head? = some c → endsValue c = true := by
    intro c found
    rw [follow c found]
    rfl
  have both : (fun c => decide ((c != '&') = true ∧ (c != '#') = true)) =
      fun c => !endsValue c := by
    funext c
    simp only [endsValue, bne, Bool.decide_and, Bool.decide_eq_true,
      Bool.not_or]
  rw [queryValue_takeWhile first rfl (by decide) read,
    List.takeWhile_takeWhile]
  simp only [both]
  rw [takeWhile_append_ended ended]

/-! ### The name of an initiated upload -/

/-- A root that is read as it is written: nothing of it ends the text it stands
in, and it has no `%` with two digits behind it. -/
def Root.IsLiteral (ends : Char → Bool) (root : Root) : Prop :=
  (∀ c ∈ root.inner, ends c = false) ∧ decode root.inner = utf8 root.inner

/-- The root is decoded by itself, since it ends with `/`. -/
theorem decode_inner_append (root : Root) (text : Text) :
    decode (root.inner ++ text) = decode root.inner ++ decode text := by
  rcases root.closed with empty | closed
  · rw [empty]
    rfl
  · obtain ⟨front, shape⟩ := endsWithSlash_iff.mp closed
    have slash : hexValue '/' = none := by decide
    have whole := decode_append_cons slash front text
    have alone := decode_append_cons slash front []
    rw [shape, alone, List.append_assoc, List.singleton_append, whole,
      decode_cons_of_ne (by decide), decode_cons_of_ne (by decide)]
    simp [decode]

theorem percentEncodePath_ne_slash (below : path ≠ ['/']) :
    percentEncodePath path ≠ ['/'] := by
  intro same
  cases path with
  | nil => cases same
  | cons c rest =>
      have positive := utf8EncodeChar_pos c
      have slash : (utf8 ['/']).length = 1 := by decide
      have short : (utf8 (encode inPath (c :: rest))).length ≤
          (utf8 (c :: rest)).length := by
        rw [percentEncodePath] at same
        rw [same, slash, utf8_cons, List.length_append]
        omega
      have whole := encode_eq_of_length_le short
      rw [percentEncodePath, whole] at same
      exact below same

theorem percentEncodePath_ne_nil (filled : path ≠ []) :
    percentEncodePath path ≠ [] := by
  intro same
  have decoded : decode (percentEncodePath path) = utf8 path :=
    decode_encode escapes_percent
  cases path with
  | nil => exact filled rfl
  | cons c rest =>
      have positive := utf8EncodeChar_pos c
      rw [same, utf8_cons] at decoded
      simp [decode] at decoded

theorem plain_value (path : Path) :
    ∀ c ∈ percentEncodePath path, endsValue c = false := by
  intro c member
  have first : c ≠ '&' := fun same => ampersand_not_mem (same ▸ member)
  have second : c ≠ '#' := fun same => hash_not_mem (same ▸ member)
  simp [endsValue, first, second]

theorem buildAbsPath_percentEncodePath (root : Root) (below : path ≠ ['/']) :
    buildAbsPath root.path (percentEncodePath path) =
      root.inner ++ percentEncodePath path :=
  root.buildAbsPath_of_ne (percentEncodePath_ne_slash below)

theorem objectName_eq (below : path ≠ ['/']) :
    core.objectName path = utf8 (core.root.inner ++ path) := by
  rw [GcsCore.objectName, core.root.buildAbsPath_of_ne below]

theorem exists_first_end {ends : Char → Bool} {text : Text}
    (dirty : ¬ ∀ c ∈ text, ends c = false) :
    ∃ before c after, text = before ++ c :: after ∧ ends c = true ∧
      ∀ c ∈ before, ends c = false := by
  have found : (text.find? ends).isSome = true := by
    rw [List.find?_isSome]
    by_contra none
    apply dirty
    intro c member
    rw [← Bool.not_eq_true]
    intro ended
    exact none ⟨c, member, ended⟩
  obtain ⟨c, first⟩ := Option.isSome_iff_exists.mp found
  obtain ⟨ended, before, after, shape, early⟩ :=
    List.find?_eq_some_iff_append.mp first
  refine ⟨before, c, after, shape, ended, ?_⟩
  intro other member
  simpa using early other member

/-- Of a name whose root was not encoded the right object is read, up to what
looks like its end, if and only if the root stands for itself. -/
theorem decode_takeWhile_iff {ends : Char → Bool} (root : Root)
    (plain : ∀ c ∈ percentEncodePath path, ends c = false) :
    decode ((root.inner ++ percentEncodePath path).takeWhile
        fun c => !ends c) = utf8 (root.inner ++ path) ↔
      root.IsLiteral ends := by
  by_cases clean : ∀ c ∈ root.inner, ends c = false
  · have whole : ∀ c ∈ root.inner ++ percentEncodePath path,
        ends c = false := by
      intro c member
      rcases List.mem_append.mp member with inRoot | inPath
      · exact clean c inRoot
      · exact plain c inPath
    rw [takeWhile_plain whole, decode_inner_append, percentEncodePath,
      decode_encode escapes_percent, utf8_append, List.append_left_inj]
    constructor
    · intro literal
      exact ⟨clean, literal⟩
    · intro literal
      exact literal.2
  · refine iff_of_false ?_ (fun literal => clean literal.1)
    -- the name is cut off within the root
    obtain ⟨before, c, after, shape, ended, early⟩ := exists_first_end clean
    have cut : ((root.inner ++ percentEncodePath path).takeWhile
        fun c => !ends c) = before := by
      rw [shape, List.append_assoc, takeWhile_append_ended]
      · exact takeWhile_plain early
      · intro first found
        cases found
        exact ended
    intro same
    have sizes := congrArg List.length same
    have bound := length_decode_le before
    have positive := utf8EncodeChar_pos c
    rw [cut, shape, utf8_append, utf8_append, utf8_cons] at sizes
    simp only [List.length_append] at sizes
    omega

theorem takeWhile_route {route : Text}
    (plain : ∀ c ∈ route, endsPath c = false) :
    ((route ++ rest).takeWhile fun c => !endsPath c) =
      route ++ rest.takeWhile fun c => !endsPath c := by
  apply List.takeWhile_append_of_pos
  intro c member
  simp [plain c member]

/-- The name of an upload that is initiated is not encoded behind the root. -/
theorem nameBehind_initiateMultipartUpload (below : path ≠ ['/'])
    (sent : core.initiateMultipartUpload (percentEncodePath path) =
      some request) :
    nameBehind core.xmlRoute request = some (core.objectName path) ↔
      core.root.IsLiteral endsPath := by
  have found := path_signedRequest sent
  rw [GcsCore.initiateMultipartUploadUrl, List.append_assoc,
    takeWhile_route (plain_xmlRoute core),
    takeWhile_append_ended (fun c found => by cases found; rfl),
    buildAbsPath_percentEncodePath core.root below] at found
  rw [nameBehind_eq found, Option.some.injEq, objectName_eq below,
    decode_takeWhile_iff core.root (plain_percentEncodePath path)]

/-- A path that is encoded twice keeps its name only if there is nothing to
encode. -/
theorem objectName_percentEncodePath (below : path ≠ ['/']) :
    core.objectName (percentEncodePath path) = core.objectName path ↔
      percentEncodePath path = path := by
  constructor
  · intro same
    rw [objectName_eq below, objectName_eq (percentEncodePath_ne_slash below),
      utf8_append, utf8_append, List.append_right_inj] at same
    apply encode_eq_of_length_le
    exact Nat.le_of_eq (congrArg List.length same)
  · intro same
    rw [same]

end Reading

/-! ## One object for all requests -/

namespace GcsCore

/-- Without a token requests are sent as they are. -/
def Anonymous (core : GcsCore) : Prop :=
  core.loadToken = .ok none

/-- The URL is accepted, and once more when it is signed. -/
def Sends (core : GcsCore) (url : Text) : Prop :=
  ∃ request, core.signedRequest .post url = some request

end GcsCore

section Addresses

variable {core : GcsCore} {path : Path} {request : Request}

/-- What the name of an upload in one request depends on. -/
theorem queryValue_writeOnce {op : OpWrite} (filled : path ≠ [])
    (below : path ≠ ['/'])
    (sent : GcsWriter.writeOnce ⟨core, path, op⟩ = some request) :
    queryValue "name".toList request = some (core.objectName path) ↔
      (core.Anonymous → percentEncodePath path = path) ∧
      (¬ core.Anonymous → core.root.IsLiteral endsValue) := by
  obtain ⟨unsigned, built, signed⟩ := Option.bind_eq_some_iff.mp sent
  cases loaded : core.loadToken with
  | error err =>
      rw [GcsCore.sign, loaded] at signed
      cases signed
  | ok token =>
      cases token with
      | none =>
          rw [GcsCore.sign, loaded] at signed
          cases signed
          rw [queryValue_insertObjectRequest built, Option.some.injEq,
            objectName_percentEncodePath below]
          constructor
          · intro same
            exact ⟨fun _ => same, fun signing => absurd loaded signing⟩
          · intro condition
            exact condition.1 loaded
      | some token =>
          have encoded := buildAbsPath_percentEncodePath core.root below
          have nonempty : buildAbsPath core.root.path
              (percentEncodePath path) ≠ [] := by
            rw [encoded]
            exact List.append_ne_nil_of_right_ne_nil _
              (percentEncodePath_ne_nil filled)
          have signing : ¬ core.Anonymous := by
            rw [GcsCore.Anonymous, loaded]
            intro same
            cases same
          rw [queryValue_signed nonempty built loaded signed, encoded,
            Option.some.injEq, objectName_eq below,
            decode_takeWhile_iff core.root (plain_value path)]
          constructor
          · intro literal
            exact ⟨fun none => absurd none signing, fun _ => literal⟩
          · intro condition
            exact condition.2 signing

end Addresses

/-- All requests that are sent for a path name one object under two conditions
at most.  For an upload in one request, if there is one, the path has nothing
to encode when it is anonymous, and the root stands for itself in a query when
it is signed.  For an upload that is initiated the root stands for itself in a
path. -/
theorem requests_address_one (core : GcsCore) {path : Path}
    (filled : path ≠ []) (below : path ≠ ['/']) :
    AddressesOne core path ↔
      ((∃ op, core.Sends
          (core.insertObjectUrl (percentEncodePath path) op)) →
        (core.Anonymous → percentEncodePath path = path) ∧
        (¬ core.Anonymous → core.root.IsLiteral endsValue)) ∧
      (core.Sends (core.initiateMultipartUploadUrl
          (percentEncodePath path)) →
        core.root.IsLiteral endsPath) := by
  constructor
  · intro addresses
    constructor
    · intro accepted
      obtain ⟨op, request, sent⟩ := accepted
      exact (queryValue_writeOnce filled below sent).mp
        (addresses.writeOnce op request sent)
    · intro accepted
      obtain ⟨request, sent⟩ := accepted
      have name := addresses.initiatePart ⟨none, none, none, false⟩ request sent
      exact (nameBehind_initiateMultipartUpload below sent).mp name
  · intro condition
    have query : ∀ rest : Text, ∀ c, ('?' :: rest).head? = some c →
        endsPath c = true := by
      intro rest c found
      cases found
      rfl
    have nothing : ∀ c, ([] : Text).head? = some c → endsPath c = true := by
      intro c found
      cases found
    have object := plain_objectRoute core
    have xml := plain_xmlRoute core
    refine
      { get := ?_
        stat := ?_
        delete := ?_
        copySource := fun _ _ => copies_copyObject
        copyTarget := fun _ _ => copies_copyObject
        writeOnce := ?_
        initiatePart := ?_
        writePart := ?_
        completePart := ?_
        abortPart := ?_ }
    · intro request sent
      exact nameBehind_signedRequest object (query _) sent
    · intro request sent
      exact nameBehind_signedRequest object nothing
        (by rw [List.append_nil]; exact sent)
    · intro request sent
      exact nameBehind_signedRequest object nothing
        (by rw [List.append_nil]; exact sent)
    · intro op request sent
      exact (queryValue_writeOnce filled below sent).mpr
        (condition.1 ⟨op, request, sent⟩)
    · intro op request sent
      exact (nameBehind_initiateMultipartUpload below sent).mpr
        (condition.2 ⟨request, sent⟩)
    · intro op uploadId partNumber request sent
      exact nameBehind_signedRequest xml (query _) sent
    · intro op uploadId request sent
      exact nameBehind_signedRequest xml (query _) sent
    · intro op uploadId request sent
      exact nameBehind_signedRequest xml (query _) sent

/-! ## A signer -/

/-- One side of a field, as `form_urlencoded` reads it. -/
def formDecode (text : Text) : Text :=
  let bytes := decode (text.map fun c => if c = '+' then ' ' else c)
  (bytes.toByteArray.utf8Decode?.map Array.toList).getD []

def formField (field : Text) : Text :=
  let key := formDecode (field.takeWhile (· != '='))
  let value := formDecode (field.dropWhile (· != '=')).tail
  if value.isEmpty then key else key ++ '=' :: value

/-- The query that `reqsign` writes back. -/
def formQuery (query : Text) : Text :=
  ['&'].intercalate
    (((query.splitOn '&').filter fun field => !field.isEmpty).map formField)

theorem utf8Decode_utf8 (text : Text) :
    ((utf8 text).toByteArray.utf8Decode?.map Array.toList).getD [] = text := by
  have whole : (utf8 text).toByteArray = text.utf8Encode := rfl
  simp [whole]

theorem map_plus {text : Text} (plain : '+' ∉ text) :
    (text.map fun c => if c = '+' then ' ' else c) = text := by
  have each : ∀ c ∈ text, (if c = '+' then ' ' else c) = c := by
    intro c member
    have different : c ≠ '+' := fun same => plain (same ▸ member)
    rw [if_neg different]
  rw [List.map_congr_left each, List.map_id']

theorem formDecode_plain {text : Text} (noPlus : '+' ∉ text)
    (noPercent : '%' ∉ text) : formDecode text = text := by
  simp only [formDecode, map_plus noPlus, decode_of_not_mem noPercent]
  exact utf8Decode_utf8 text

theorem formDecode_percentEncodePath (text : Text) :
    formDecode (percentEncodePath text) = text := by
  have noPlus : '+' ∉ percentEncodePath text :=
    not_mem_percentEncodePath (by decide)
  simp only [formDecode, map_plus noPlus]
  rw [percentEncodePath, decode_encode escapes_percent]
  exact utf8Decode_utf8 text

theorem not_mem_of_isAlpha {key : Text} {c : Char}
    (letters : ∀ c ∈ key, c.isAlpha = true) (other : c.isAlpha = false) :
    c ∉ key := by
  intro member
  rw [letters c member] at other
  cases other

theorem equals_not_mem {key : Text}
    (letters : ∀ c ∈ key, c.isAlpha = true) :
    ∀ c ∈ key, (c != '=') = true := by
  intro c member
  rw [bne_iff_ne]
  intro same
  exact not_mem_of_isAlpha letters (by decide) (same ▸ member)

theorem formField_encoded {field : Text × Text} (isField : IsField field) :
    formField (field.1 ++ '=' :: percentEncodePath field.2) =
      field.1 ++ '=' :: field.2 := by
  have letters := isField.2.1
  have key : (field.1 ++ '=' :: percentEncodePath field.2).takeWhile
        (fun c => c != '=') =
      field.1 ++ ('=' :: percentEncodePath field.2).takeWhile
        fun c => c != '=' :=
    List.takeWhile_append_of_pos (equals_not_mem letters)
  have value : (field.1 ++ '=' :: percentEncodePath field.2).dropWhile
        (fun c => c != '=') =
      ('=' :: percentEncodePath field.2).dropWhile fun c => c != '=' :=
    List.dropWhile_append_of_pos (equals_not_mem letters)
  have plainKey : formDecode field.1 = field.1 :=
    formDecode_plain (not_mem_of_isAlpha letters (by decide))
      (not_mem_of_isAlpha letters (by decide))
  have nonempty : field.2.isEmpty = false := by
    rw [List.isEmpty_eq_false_iff]
    exact isField.2.2
  rw [List.takeWhile_cons_of_neg (by decide), List.append_nil] at key
  rw [List.dropWhile_cons_of_neg (by decide)] at value
  simp only [formField, key, value, List.tail_cons, plainKey,
    formDecode_percentEncodePath, nonempty, Bool.false_eq_true, if_false]

theorem ampersand_not_mem_field {field : Text × Text}
    (isField : IsField field) :
    '&' ∉ field.1 ++ '=' :: percentEncodePath field.2 := by
  rw [List.mem_append, List.mem_cons, not_or, not_or]
  exact ⟨not_mem_of_isAlpha isField.2.1 (by decide), by decide,
    ampersand_not_mem⟩

theorem intercalate_fields (left right : List Text) (some : left ≠ []) :
    ∃ others, StartsField others ∧
      ['&'].intercalate (left ++ right) = ['&'].intercalate left ++ others := by
  induction left with
  | nil => exact absurd rfl some
  | cons field left induction =>
      cases left with
      | nil =>
          cases right with
          | nil =>
              refine ⟨[], ?_, by rw [List.append_nil, List.append_nil]⟩
              intro c found
              cases found
          | cons next right =>
              refine ⟨'&' :: ['&'].intercalate (next :: right), ?_, ?_⟩
              · intro c found
                cases found
                rfl
              · simp [List.intercalate_cons_cons]
      | cons second left =>
          obtain ⟨others, follow, joined⟩ := induction (by simp)
          refine ⟨others, follow, ?_⟩
          rw [List.cons_append, List.cons_append, List.intercalate_cons_cons,
            List.intercalate_cons_cons, ← List.cons_append, joined]
          simp only [List.append_assoc]

theorem splitOn_queryText {fields : List (Text × Text)} {more : Text}
    (some : fields ≠ []) (isField : ∀ field ∈ fields, IsField field)
    (next : StartsField more) :
    ∃ others, (queryText percentEncodePath fields ++ more).splitOn '&' =
      (fields.map fun field => field.1 ++ '=' :: percentEncodePath field.2) ++
        others := by
  have separate : ∀ piece ∈ fields.map fun field =>
      field.1 ++ '=' :: percentEncodePath field.2, '&' ∉ piece := by
    intro piece member
    obtain ⟨field, inside, same⟩ := List.mem_map.mp member
    rw [← same]
    exact ampersand_not_mem_field (isField field inside)
  have whole : (queryText percentEncodePath fields).splitOn '&' = _ :=
    List.splitOn_intercalate '&' separate (by simpa using some)
  cases more with
  | nil => exact ⟨[], by rw [List.append_nil, whole, List.append_nil]⟩
  | cons c more =>
      rw [next c rfl, List.splitOn_append_cons_self, whole]
      exact ⟨_, rfl⟩

theorem formQuery_writesDecoded (fields : List (Text × Text)) (more : Text)
    (some : fields ≠ []) (isField : ∀ field ∈ fields, IsField field)
    (next : StartsField more) :
    ∃ others, StartsField others ∧
      formQuery (queryText percentEncodePath fields ++ more) =
        queryText id fields ++ others := by
  obtain ⟨pieces, found⟩ := splitOn_queryText some isField next
  have kept : ∀ piece ∈ fields.map fun field =>
      field.1 ++ '=' :: percentEncodePath field.2,
      (!piece.isEmpty) = true := by
    intro piece member
    obtain ⟨field, -, same⟩ := List.mem_map.mp member
    rw [← same]
    simp
  have written : (fields.map fun field =>
      field.1 ++ '=' :: percentEncodePath field.2).map formField =
      fields.map fun field => field.1 ++ '=' :: id field.2 := by
    rw [List.map_map]
    apply List.map_congr_left
    intro field member
    exact formField_encoded (isField field member)
  rw [formQuery, found, List.filter_append, List.filter_eq_self.mpr kept,
    List.map_append, written]
  exact intercalate_fields _ _ (by simpa using some)

def formSigner : GoogleSigner :=
  ⟨formQuery, formQuery_writesDecoded⟩

/-- A bucket at a root, for which every URL without blanks is accepted and
every request is signed. -/
def signedCore (root : Root) : GcsCore where
  root
  bucket := ⟨"b".toList, plain_of_all (by decide)⟩
  signer := formSigner
  loadToken := .ok (some "token".toList)
  defaultStorageClass := none
  predefinedAcl := none
  accepts url := !url.contains ' '

theorem signQuery_signedCore (root : Root) (query : Text) :
    (signedCore root).signer.signQuery query = formQuery query := rfl

theorem signedCore_not_anonymous (root : Root) :
    ¬ (signedCore root).Anonymous := by
  intro same
  cases same

/-- At the root `/` the object `a b` is written and read under its name. -/
theorem requests_address_one_signed :
    AddressesOne (signedCore .slash) "a b".toList := by
  have literal : ∀ ends, Root.slash.IsLiteral ends :=
    fun _ => ⟨fun _ member => (List.not_mem_nil member).elim, rfl⟩
  refine (requests_address_one (signedCore .slash) (by decide)
    (by decide)).mpr ⟨fun _ => ⟨?_, fun _ => literal _⟩, fun _ => literal _⟩
  intro anonymous
  exact absurd anonymous (signedCore_not_anonymous .slash)

/-- The root `/a%20b/`. -/
def percentRoot : Root :=
  ⟨"a%20b/".toList, .inr (by decide), by decide⟩

theorem formQuery_uploads : formQuery "uploads".toList = "uploads".toList := by
  have plain : formDecode "uploads".toList = "uploads".toList :=
    formDecode_plain (by decide) (by decide)
  have nothing : formDecode [] = [] := formDecode_plain (by simp) (by simp)
  have key : "uploads".toList.takeWhile (· != '=') = "uploads".toList := by
    decide
  have value : ("uploads".toList.dropWhile (· != '=')).tail = [] := by decide
  have field : formField "uploads".toList = "uploads".toList := by
    simp only [formField, key, value, plain, nothing]
    rfl
  have pieces : (("uploads".toList.splitOn '&').filter
      fun field => !field.isEmpty) = ["uploads".toList] := by decide
  rw [formQuery, pieces, List.map_singleton, field, List.intercalate_singleton]

/-- The upload of the object `a%20b/f` is initiated for `a b/f`. -/
theorem requests_address_one_fails :
    ¬ AddressesOne (signedCore percentRoot) "f".toList := by
  intro addresses
  have built : buildRequest (signedCore percentRoot).accepts .post
      ((signedCore percentRoot).initiateMultipartUploadUrl
        (percentEncodePath "f".toList)) =
      some ⟨.post, "/b/a%20b/f".toList, "uploads".toList⟩ := by
    decide
  have written := (signQuery_signedCore percentRoot "uploads".toList).trans
    formQuery_uploads
  have url : (signedCore percentRoot).signedUrl
      ⟨.post, "/b/a%20b/f".toList, "uploads".toList⟩ =
      "/b/a%20b/f".toList ++ '?' :: "uploads".toList :=
    signedUrl_of_written (by decide) written
  have accepted : buildRequest (signedCore percentRoot).accepts .post
      ("/b/a%20b/f".toList ++ '?' :: "uploads".toList) =
      some ⟨.post, "/b/a%20b/f".toList, "uploads".toList⟩ := by
    decide
  have signed : (signedCore percentRoot).sign
      ⟨.post, "/b/a%20b/f".toList, "uploads".toList⟩ =
      some ⟨.post, "/b/a%20b/f".toList, "uploads".toList⟩ := by
    rw [sign_of_token rfl, url]
    exact accepted
  have sent : (signedCore percentRoot).initiateMultipartUpload
      (percentEncodePath "f".toList) =
      some ⟨.post, "/b/a%20b/f".toList, "uploads".toList⟩ := by
    rw [GcsCore.initiateMultipartUpload, GcsCore.signedRequest, built,
      Option.bind_some, signed]
  have name := addresses.initiatePart ⟨none, none, none, false⟩ _ sent
  rw [nameBehind_initiateMultipartUpload (by decide) sent] at name
  exact absurd name.2 (by decide)

end OpenDal
