import Mathlib.Logic.Function.Basic
import OpenDal.Program
import OpenDal.Raw.Root
import OpenDal.Types.BufferSequence
import OpenDal.Types.Error

/-!
# The WebHDFS writer

A block is a file in the directory for atomic writes.  To complete a write, the
blocks are concatenated to the first one, which takes the place of the target.

A request takes effect, or it is refused and changes nothing.  As in WebHDFS, a
deletion of a missing file and a rename that is not possible are answered with
`200 OK`.  The texts of the requests and appending are left out.
-/

namespace OpenDal

open Path

/-! ## Uuids -/

structure Uuid where
  bytes : Vector UInt8 16
deriving DecidableEq

namespace Uuid

def lowerHex (bytes : List UInt8) : Path :=
  bytes.flatMap fun byte =>
    [Nat.digitChar (byte.toNat / 16), Nat.digitChar (byte.toNat % 16)]

/-- The hyphenated text. -/
def text (id : Uuid) : Path :=
  let bytes := id.bytes.toList
  lowerHex (bytes.take 4) ++ '-' :: lowerHex ((bytes.drop 4).take 2) ++
    '-' :: lowerHex ((bytes.drop 6).take 2) ++
    '-' :: lowerHex ((bytes.drop 8).take 2) ++
    '-' :: lowerHex (bytes.drop 10)

instance : ToString Uuid where
  toString id := String.ofList id.text

theorem length_lowerHex (bytes : List UInt8) :
    (lowerHex bytes).length = 2 * bytes.length := by
  induction bytes with
  | nil => rfl
  | cons byte bytes induction =>
      simp only [lowerHex, List.flatMap_cons, List.length_append,
        List.length_cons, List.length_nil] at induction ⊢
      omega

theorem length_text (id : Uuid) : id.text.length = 36 := by
  have sixteen : id.bytes.toList.length = 16 := by simp
  simp only [text, List.length_append, List.length_cons, length_lowerHex,
    List.length_take, List.length_drop, sixteen]
  omega

theorem digitChar_injective : ∀ left < 16, ∀ right < 16,
    Nat.digitChar left = Nat.digitChar right → left = right := by
  decide

theorem lowerHex_injective {left right : List UInt8}
    (same : lowerHex left = lowerHex right) : left = right := by
  induction left generalizing right with
  | nil =>
      cases right with
      | nil => rfl
      | cons byte right => cases same
  | cons byte left induction =>
      cases right with
      | nil => cases same
      | cons other right =>
          simp only [lowerHex, List.flatMap_cons, List.cons_append,
            List.nil_append, List.cons.injEq] at same
          obtain ⟨high, low, rest⟩ := same
          have highs := digitChar_injective _
            (by have := byte.toNat_lt; omega) _
            (by have := other.toNat_lt; omega) high
          have lows := digitChar_injective _ (Nat.mod_lt _ (by decide)) _
            (Nat.mod_lt _ (by decide)) low
          have bytes : byte.toNat = other.toNat := by omega
          rw [UInt8.toNat_inj.mp bytes, induction rest]

theorem digitChar_ne_hyphen : ∀ value < 16,
    (Nat.digitChar value != '-') = true := by
  decide

theorem filter_lowerHex (bytes : List UInt8) :
    (lowerHex bytes).filter (· != '-') = lowerHex bytes := by
  rw [List.filter_eq_self]
  intro c member
  obtain ⟨byte, _, digit⟩ := List.mem_flatMap.mp member
  rcases List.mem_pair.mp digit with rfl | rfl
  · exact digitChar_ne_hyphen _ (by have := byte.toNat_lt; omega)
  · exact digitChar_ne_hyphen _ (Nat.mod_lt _ (by decide))

theorem filter_text (id : Uuid) :
    id.text.filter (· != '-') = lowerHex id.bytes.toList := by
  have parts : ∀ bytes : List UInt8,
      bytes.take 4 ++ ((bytes.drop 4).take 2 ++ ((bytes.drop 6).take 2 ++
        ((bytes.drop 8).take 2 ++ bytes.drop 10))) = bytes := by
    intro bytes
    have tail : ∀ start count, (bytes.drop start).take count ++
        bytes.drop (start + count) = bytes.drop start := by
      intro start count
      rw [← List.drop_drop, List.take_append_drop]
    rw [tail 8 2, tail 6 2, tail 4 2, List.take_append_drop]
  have split := congrArg lowerHex (parts id.bytes.toList)
  simp only [lowerHex, List.flatMap_append] at split
  simp only [text, List.filter_append, List.filter_cons, filter_lowerHex,
    bne_self_eq_false, Bool.false_eq_true, if_false, List.append_assoc]
  exact split

theorem text_injective {left right : Uuid} (same : left.text = right.text) :
    left = right := by
  have digits := congrArg (List.filter (· != '-')) same
  rw [filter_text, filter_text] at digits
  have bytes := Vector.toList_inj.mp (lowerHex_injective digits)
  cases left
  cases right
  exact congrArg Uuid.mk bytes

/-- The uuid with the bytes 0 to 14 all zero. -/
def ofLast (last : UInt8) : Uuid :=
  ⟨(Vector.replicate 15 0).push last⟩

end Uuid

/-! ## The service -/

inductive WebhdfsRequest where
  /-- The first step of `CREATE`, which answers with a location. -/
  | create (path : Path)
  /-- The body that is sent to the location. -/
  | upload (path : Path) (body : Bytes)
  | concat (path : Path) (sources : List Path)
  | delete (path : Path)
  | rename (source destination : Path)
deriving DecidableEq

inductive WebhdfsOperation where
  | create
  | upload
  | concat
  | delete
  | rename
deriving DecidableEq

def WebhdfsRequest.operation : WebhdfsRequest → WebhdfsOperation
  | .create _ => .create
  | .upload _ _ => .upload
  | .concat _ _ => .concat
  | .delete _ => .delete
  | .rename _ _ => .rename

abbrev HdfsFiles : Type := Path → Option Bytes

/-- The files after the request; `none` when it is not possible, and is not
answered with `200 OK` either. -/
def WebhdfsRequest.effect (files : HdfsFiles) : WebhdfsRequest → Option HdfsFiles
  | .create _ => some files
  | .upload path body => some (Function.update files path (some body))
  | .concat path sources => do
      let front ← files path
      let back ← sources.mapM files
      some (Function.update
        (fun other => if sources.contains other then none else files other)
        path (some (front ++ back.flatten)))
  | .delete path => some (Function.update files path none)
  | .rename source destination =>
      match files source, files destination with
      | some moved, none => some (Function.update
          (Function.update files source none) destination (some moved))
      | _, _ => some files

structure WebhdfsResponse where
  status : Nat
  body : String
deriving DecidableEq

/-- How a request is answered: the service does what it is asked, or it refuses
to, or there is no answer. -/
inductive WebhdfsAnswer where
  | served
  | refused (response : WebhdfsResponse)
      (failed : response.status ≠ 200 ∧ response.status ≠ 201)
  | unanswered (err : Error)

/-- The service, and how it will answer the next requests of each kind. -/
structure Webhdfs where
  files : HdfsFiles
  answers : WebhdfsOperation → List WebhdfsAnswer
  /-- The requests that have taken effect. -/
  accepted : List WebhdfsRequest

namespace Webhdfs

def notFound : WebhdfsResponse :=
  ⟨404, "FileNotFoundException"⟩

/-- How the request will be answered. -/
def nextAnswer (service : Webhdfs) (request : WebhdfsRequest) :
    WebhdfsAnswer :=
  (service.answers request.operation).headD .served

/-- The service when it has answered the request, but has not done it. -/
def answered (service : Webhdfs) (request : WebhdfsRequest) : Webhdfs :=
  { service with
    answers := Function.update service.answers request.operation
      (service.answers request.operation).tail }

/-- The service when it has done the request too. -/
def performed (service : Webhdfs) (request : WebhdfsRequest)
    (files : HdfsFiles) : Webhdfs :=
  { service.answered request with
    files
    accepted := service.accepted ++ [request] }

/-- `HttpClient::send`. -/
def send (request : WebhdfsRequest) :
    Program Webhdfs Error WebhdfsResponse :=
  fun service =>
    match service.nextAnswer request, request.effect service.files with
    | .refused response _, _ => (.ok response, service.answered request)
    | .unanswered err, _ => (.error err, service.answered request)
    | .served, none => (.ok notFound, service.answered request)
    | .served, some files =>
        (.ok ⟨200, ""⟩, service.performed request files)

end Webhdfs

/-- `message` is read off the body, and the context of the error is left
out. -/
def parseWebhdfsError (response : WebhdfsResponse) : Error :=
  let (kind, retryable) : ErrorKind × Bool :=
    match response.status with
    | 404 => (.notFound, false)
    | 401 | 403 => (.permissionDenied, false)
    | 400 => (.unexpected, false)
    | 500 | 502 | 503 | 504 => (.unexpected, true)
    | _ => (.unexpected, false)
  let err := Error.new kind response.body
  if retryable then err.setTemporary else err

/-- `StatusCode::CREATED | StatusCode::OK`. -/
def createdOrOk (status : Nat) : Bool :=
  status == 201 || status == 200

/-- `StatusCode::OK`. -/
def onlyOk (status : Nat) : Bool :=
  status == 200

namespace Webhdfs

/-- Send a request; an answer with a status that is not accepted is an
error. -/
def call (request : WebhdfsRequest) (accepts : Nat → Bool) :
    Program Webhdfs Error Unit :=
  fun service => match send request service with
    | (.ok response, later) =>
        if accepts response.status then (.ok (), later)
        else (.error (parseWebhdfsError response), later)
    | (.error err, later) => (.error err, later)

variable {request : WebhdfsRequest} {accepts : Nat → Bool}
  {service : Webhdfs}

/-- No success is a status that stands for a failure. -/
structure Successes (accepts : Nat → Bool) : Prop where
  ok : accepts 200 = true
  others : ∀ status, status ≠ 200 ∧ status ≠ 201 → accepts status = false

theorem successes_createdOrOk : Successes createdOrOk := by
  constructor
  · rfl
  · intro status failed
    simp [createdOrOk, failed.1, failed.2]

theorem successes_onlyOk : Successes onlyOk := by
  constructor
  · rfl
  · intro status failed
    simp [onlyOk, failed.1]

theorem call_served {files : HdfsFiles} (successes : Successes accepts)
    (served : service.nextAnswer request = .served)
    (possible : request.effect service.files = some files) :
    call request accepts service =
      (.ok (), service.performed request files) := by
  simp [call, send, served, possible, successes.ok]

theorem call_impossible (successes : Successes accepts)
    (served : service.nextAnswer request = .served)
    (impossible : request.effect service.files = none) :
    call request accepts service =
      (.error (parseWebhdfsError notFound), service.answered request) := by
  have refused : accepts notFound.status = false :=
    successes.others _ (by decide)
  simp [call, send, served, impossible, refused]

theorem call_refused (successes : Successes accepts)
    {response : WebhdfsResponse}
    {failed : response.status ≠ 200 ∧ response.status ≠ 201}
    (refused : service.nextAnswer request =
      .refused response failed) :
    call request accepts service =
      (.error (parseWebhdfsError response), service.answered request) := by
  have unaccepted : accepts response.status = false :=
    successes.others _ failed
  simp [call, send, refused, unaccepted]

theorem call_unanswered {err : Error}
    (unanswered : service.nextAnswer request =
      .unanswered err) :
    call request accepts service =
      (.error err, service.answered request) := by
  simp [call, send, unanswered]

/-- A request is done and recorded, or it fails and changes nothing. -/
theorem call_cases (successes : Successes accepts) (request : WebhdfsRequest)
    (service : Webhdfs) :
    (∃ files, request.effect service.files = some files ∧
      call request accepts service =
        (.ok (), service.performed request files)) ∨
      ∃ err, call request accepts service =
        (.error err, service.answered request) := by
  cases answer : service.nextAnswer request with
  | served =>
      cases effect : request.effect service.files with
      | none => exact .inr ⟨_, call_impossible successes answer effect⟩
      | some files =>
          exact .inl ⟨files, rfl, call_served successes answer effect⟩
  | refused response failed =>
      exact .inr ⟨_, call_refused successes answer⟩
  | unanswered err => exact .inr ⟨err, call_unanswered answer⟩

theorem emits_call (successes : Successes accepts)
    (request : WebhdfsRequest) :
    Program.Emits accepted [request] (call request accepts) := by
  intro service
  rcases call_cases successes request service with
    ⟨files, _, done⟩ | ⟨err, failed⟩
  · rw [done]
    exact ⟨[request], rfl, List.prefix_refl _, fun _ _ => rfl⟩
  · rw [failed]
    refine ⟨[], (List.append_nil _).symm, List.nil_prefix, ?_⟩
    intro value ended
    cases ended

end Webhdfs

/-! ## The backend -/

structure WebhdfsBackend where
  root : Path
  atomicWriteDir : Option Path
deriving DecidableEq

namespace WebhdfsBackend

variable (backend : WebhdfsBackend)

/-- The file that a request is about. -/
def file (path : Path) : Path :=
  '/' :: buildAbsPath backend.root path

def createRequest (path : Path) : WebhdfsRequest :=
  .create (backend.file path)

/-- The request that writes the body.  The location that the service answers
with stands for the file. -/
def createObjectRequest (path : Path) (body : Bytes) :
    Program Webhdfs Error WebhdfsRequest := do
  Webhdfs.call (backend.createRequest path) createdOrOk
  pure (.upload (backend.file path) body)

def concatRequest (path : Path) (sources : List Path) : WebhdfsRequest :=
  .concat (backend.file path) (sources.map backend.file)

def deleteRequest (path : Path) : WebhdfsRequest :=
  .delete (backend.file path)

def renameRequest (source destination : Path) : WebhdfsRequest :=
  .rename (backend.file source) (backend.file destination)

end WebhdfsBackend

/-! ## The writer -/

structure WebhdfsWriter where
  backend : WebhdfsBackend
  path : Path

namespace WebhdfsWriter

def unsupported : Error :=
  .new .unsupported "write multi is not supported when atomic is not set"

variable (writer : WebhdfsWriter)

def writeOnce (body : Buffer) : Program Webhdfs Error Unit := do
  let request ← writer.backend.createObjectRequest writer.path body.bytes
  Webhdfs.call request createdOrOk

def writeBlock (blockId : Uuid) (body : Buffer) :
    Program Webhdfs Error Unit :=
  match writer.backend.atomicWriteDir with
  | none => Program.fail unsupported
  | some atomicWriteDir => do
      let request ← writer.backend.createObjectRequest
        (atomicWriteDir ++ blockId.text) body.bytes
      Webhdfs.call request createdOrOk

/-- There is at least one block: `first` is `block_ids[0]`. -/
def completeBlock (first : Uuid) (others : List Uuid) :
    Program Webhdfs Error Unit :=
  match writer.backend.atomicWriteDir with
  | none => Program.fail unsupported
  | some atomicWriteDir => do
      let firstBlockId := atomicWriteDir ++ first.text
      if others ≠ [] then
        let sources := others.map fun blockId =>
          atomicWriteDir ++ blockId.text
        -- concat blocks
        Webhdfs.call (writer.backend.concatRequest firstBlockId sources)
          onlyOk
      -- delete the path file
      Webhdfs.call (writer.backend.deleteRequest writer.path) onlyOk
      -- rename concat file to path
      Webhdfs.call (writer.backend.renameRequest firstBlockId writer.path)
        onlyOk

def abortBlock : List Uuid → Program Webhdfs Error Unit
  | [] => pure ()
  | blockId :: blockIds => do
      Webhdfs.call (writer.backend.deleteRequest blockId.text) onlyOk
      abortBlock blockIds

end WebhdfsWriter

end OpenDal
