import Mathlib.Data.List.TakeWhile
import OpenDal.Raw.FormData

/-!
# Requests as parts of a batch

`MixedPart::from_request` takes a request apart and `format` writes it as the
text of a part: the headers of the part, an empty line, and then the request
as a message of HTTP/1.1.

The target is taken from the request with its query, is read as a URI, and is
written without the query.  Everything else is written as it was.
-/

namespace OpenDal

open MessageFraming Splitting

/-! ## Requests -/

structure HttpMethod where
  octets : Octets
  filled : octets ≠ []
  valid : octets.all (fun octet => 33 ≤ octet && octet ≠ 127) = true

/-- The versions and how `{:?}` writes them. -/
inductive Version where
  | http09
  | http10
  | http11
  | http2
  | http3
deriving DecidableEq, Repr

def Version.debug : Version → Octets
  | .http09 => octets "HTTP/0.9"
  | .http10 => octets "HTTP/1.0"
  | .http11 => octets "HTTP/1.1"
  | .http2 => octets "HTTP/2.0"
  | .http3 => octets "HTTP/3.0"

/-- No control, no blank and no `#`. -/
def isTargetOctet (octet : UInt8) : Bool :=
  33 ≤ octet && octet ≠ 35 && octet ≠ 127

/-- A path from the root, or `*`; the query is behind the first `?`. -/
def IsTarget (path : Octets) (query : Option Octets) : Prop :=
  (path.head? = some 47 ∨ path = octets "*" ∧ query = none) ∧
    63 ∉ path ∧ path.all isTargetOctet = true ∧
      (query.getD []).all isTargetOctet = true

instance (path : Octets) (query : Option Octets) :
    Decidable (IsTarget path query) :=
  inferInstanceAs (Decidable (_ ∧ _ ∧ _ ∧ _))

/-- `http::uri::PathAndQuery`. -/
structure PathAndQuery where
  path : Octets
  query : Option Octets
  valid : IsTarget path query
deriving DecidableEq

namespace PathAndQuery

/-- `PathAndQuery::from_static("/")`. -/
def slash : PathAndQuery where
  path := octets "/"
  query := none
  valid := by decide

def asStr (target : PathAndQuery) : Octets :=
  match target.query with
  | none => target.path
  | some query => target.path ++ octets "?" ++ query

/-- `Uri::from_str` of a text without a scheme and an authority.  A fragment
is dropped. -/
def fromStr (text : Octets) : Option PathAndQuery :=
  let (path, query) := readTarget (text.takeWhile (· ≠ 35))
  if valid : IsTarget path query then some ⟨path, query, valid⟩ else none

end PathAndQuery

structure HttpRequest where
  method : HttpMethod
  /-- `uri.path_and_query()`. -/
  pathAndQuery : Option PathAndQuery
  version : Version
  headers : HeaderFields
  body : Buffer

/-! ## Parts -/

/-- A `MixedPart` of a request; the status of a response is left out. -/
structure MixedRequest where
  partHeaders : HeaderFields
  version : Version
  headers : HeaderFields
  content : Buffer
  method : Option HttpMethod
  uri : Option PathAndQuery

namespace MixedRequest

def contentTransferEncoding : HeaderName where
  octets := octets "content-transfer-encoding"
  filled := by decide
  valid := by decide

def contentId : HeaderName where
  octets := octets "content-id"
  filled := by decide
  valid := by decide

/-- The headers of a new part. -/
def newPartHeaders : HeaderFields :=
  [(.contentType, ⟨octets "application/http", by decide⟩),
    (contentTransferEncoding, ⟨octets "binary", by decide⟩)]

/-- `none` is the panic of a URI that cannot be read. -/
def fromRequest (req : HttpRequest) : Option MixedRequest := do
  let uri ← PathAndQuery.fromStr (req.pathAndQuery.getD .slash).asStr
  some {
    partHeaders := newPartHeaders
    version := req.version
    headers := req.headers
    content := req.body
    method := some req.method
    uri := some uri }

/-- Azblob could not recognize header names like `content-type`. -/
def headerText (key : HeaderName) : Octets :=
  if key = .contentType then
    octets "Content-Type"
  else if key = contentId then
    octets "Content-ID"
  else if key = contentTransferEncoding then
    octets "Content-Transfer-Encoding"
  else
    key.octets

/-- `none` is the panic of a part without a method or a URI. -/
def format (part : MixedRequest) : Option Buffer := do
  let bs := part.partHeaders.flatMap fun header =>
    headerText header.1 ++ octets ": " ++ header.2.octets ++ octets "\r\n"
  let method ← part.method
  let uri ← part.uri
  -- the request line: `DELETE /container0/blob0 HTTP/1.1`
  let bs := bs ++ octets "\r\n" ++ method.octets ++ octets " " ++ uri.path ++
    octets " " ++ part.version.debug ++ octets "\r\n"
  let bs := bs ++ part.headers.flatMap fun header =>
    header.1.octets ++ octets ": " ++ header.2.octets ++ octets "\r\n"
  let bufs := [Buffer.fromBytes (bs ++ octets "\r\n")]
  let bufs :=
    if part.content.isEmpty then bufs
    else bufs ++ [part.content, Buffer.fromBytes (octets "\r\n")]
  some (Buffer.flatten bufs)

end MixedRequest

/-! ## The target -/

namespace PathAndQuery

theorem not_mem_of_invalid {text : Octets} {octet : UInt8}
    (valid : text.all isTargetOctet = true)
    (invalid : isTargetOctet octet = false) : octet ∉ text := by
  intro member
  have good := List.all_eq_true.mp valid octet member
  rw [invalid] at good
  cases good

theorem all_asStr (target : PathAndQuery) :
    target.asStr.all isTargetOctet = true := by
  obtain ⟨path, query, -, -, pathValid, queryValid⟩ := target
  cases query with
  | none => exact pathValid
  | some query =>
      have mark : (octets "?").all isTargetOctet = true := by decide
      simp only [Option.getD_some] at queryValid
      simp only [asStr, List.all_append, pathValid, mark, queryValid,
        Bool.and_true]

theorem fromStr_asStr (target : PathAndQuery) :
    fromStr target.asStr = some target := by
  have whole : target.asStr.takeWhile (· ≠ 35) = target.asStr := by
    rw [List.takeWhile_eq_self_iff]
    intro octet member
    rw [decide_eq_true_eq]
    rintro rfl
    exact not_mem_of_invalid target.all_asStr (by decide) member
  have parts : readTarget target.asStr = (target.path, target.query) := by
    obtain ⟨path, query, valid⟩ := target
    cases query with
    | none => exact readTarget_path valid.2.1
    | some query => exact readTarget_query valid.2.1 query
  rw [fromStr, whole, parts]
  exact dif_pos target.valid

end PathAndQuery

/-! ## The text of a part -/

namespace MixedRequest

variable {req : HttpRequest}

/-- The target that is written, and `/` for a request that has none. -/
def target (req : HttpRequest) : PathAndQuery :=
  req.pathAndQuery.getD .slash

/-- The header lines of the part. -/
def partLines : List Octets :=
  newPartHeaders.map fun header => fieldLine (headerText header.1) header.2

def headerLines (req : HttpRequest) : List Octets :=
  req.headers.map fun header => fieldLine header.1.octets header.2

/-- What stands behind the headers of the request. -/
def contentText (req : HttpRequest) : Octets :=
  if req.body.isEmpty then [] else req.body.bytes ++ crlf

theorem format_fromRequest (req : HttpRequest) : ∃ part buffer,
    fromRequest req = some part ∧ part.format = some buffer ∧
      buffer.bytes = head partLines ++
        (head (requestLine req.method.octets (target req).path
          req.version.debug :: headerLines req) ++ contentText req) := by
  have uri : PathAndQuery.fromStr (req.pathAndQuery.getD .slash).asStr =
      some (target req) := PathAndQuery.fromStr_asStr _
  have made : fromRequest req = some ⟨newPartHeaders, req.version,
      req.headers, req.body, some req.method, some (target req)⟩ := by
    rw [fromRequest, uri]
    rfl
  refine ⟨_, _, made, rfl, ?_⟩
  have blank : octets " " = [32] := by decide
  have content : contentText req =
      (if req.body.isEmpty then [] else
        [req.body, Buffer.fromBytes crlf]).flatMap Buffer.bytes := by
    rw [contentText]
    split
    · rfl
    · simp
  rw [content]
  cases req.body.isEmpty with
  | true =>
      simp [head, octets_crlf, blank, partLines, headerLines, requestLine,
        fieldLine, List.flatMap_map]
  | false =>
      simp [head, octets_crlf, blank, partLines, headerLines, requestLine,
        fieldLine, List.flatMap_map]

/-! ## Reading the text -/

/-- The text of a part as a message; it has no query. -/
theorem readRequest_format (req : HttpRequest) : ∃ part buffer text,
    fromRequest req = some part ∧ part.format = some buffer ∧
      readHead buffer.bytes = some (partLines, text) ∧
      readRequest text = some ⟨req.method.octets, (target req).path, none,
        req.version.debug, headerLines req, contentText req⟩ := by
  obtain ⟨part, buffer, made, written, bytes⟩ := format_fromRequest req
  obtain ⟨-, noMark, pathValid, -⟩ := (target req).valid
  have pathWord : ∀ octet, isTargetOctet octet = false →
      octet ∉ (target req).path := by
    intro octet invalid
    exact PathAndQuery.not_mem_of_invalid pathValid invalid
  have methodWord : ∀ octet, octet < 33 → octet ∉ req.method.octets := by
    intro octet small member
    have valid := List.all_eq_true.mp req.method.valid octet member
    simp only [Bool.and_eq_true, decide_eq_true_eq] at valid
    exact UInt8.not_lt.mpr valid.1 small
  have versionLine : 13 ∉ req.version.debug := by
    cases req.version <;> decide
  have isFirst : IsLine (requestLine req.method.octets (target req).path
      req.version.debug) := by
    constructor
    · simp [requestLine]
    · simp [requestLine, methodWord 13 (by decide), versionLine,
        pathWord 13 (by decide)]
  have isLine : ∀ line ∈ headerLines req, IsLine line := by
    intro line member
    obtain ⟨header, -, rfl⟩ := List.mem_map.mp member
    exact isLine_fieldLine header.1.oneLine header.2
  have isPartLine : ∀ line ∈ partLines, IsLine line := by
    intro line member
    obtain ⟨header, known, rfl⟩ := List.mem_map.mp member
    apply isLine_fieldLine
    rcases List.mem_pair.mp known with rfl | rfl
    · decide
    · decide
  refine ⟨part, buffer, head (requestLine req.method.octets
    (target req).path req.version.debug :: headerLines req) ++
      contentText req, made, written, ?_, ?_⟩
  · rw [bytes]
    exact readHead_head _ isPartLine
  · rw [readRequest_head _ (methodWord 32 (by decide))
      (pathWord 32 (by decide)) isFirst isLine, readTarget_path noMark]

/-- The text behind the head of the part is a message with everything that
the request has. -/
def Survives (req : HttpRequest) : Prop :=
  ∃ part buffer lines text message, fromRequest req = some part ∧
    part.format = some buffer ∧ readHead buffer.bytes = some (lines, text) ∧
    readRequest text = some message ∧
    message.method = req.method.octets ∧
    (message.path, message.query) =
      ((target req).path, (target req).query) ∧
    message.version = octets "HTTP/1.1" ∧
    message.lines = headerLines req ∧
    (message.body = req.body.bytes ∨ message.body = req.body.bytes ++ crlf)

theorem query_eq_none {req : HttpRequest} (survives : Survives req) :
    (target req).query = none := by
  obtain ⟨part, buffer, text, made, written, headed, message⟩ :=
    readRequest_format req
  obtain ⟨part', buffer', lines, text', message', made', written', headed',
    message'', -, targets, -⟩ := survives
  rw [made] at made'
  cases made'
  rw [written] at written'
  cases written'
  rw [headed] at headed'
  cases headed'
  rw [message] at message''
  cases message''
  exact (Prod.mk.inj targets).2.symm

/-- A request of HTTP/1.1 survives exactly when its target has no query. -/
theorem survives_iff {req : HttpRequest} (version : req.version = .http11) :
    Survives req ↔ (target req).query = none := by
  constructor
  · exact query_eq_none
  · intro noQuery
    obtain ⟨part, buffer, text, made, written, headed, message⟩ :=
      readRequest_format req
    refine ⟨part, buffer, _, text, _, made, written, headed, message, rfl,
      ?_, ?_, rfl, ?_⟩
    · rw [noQuery]
    · rw [version]
      rfl
    · show contentText req = _ ∨ contentText req = _
      rw [contentText]
      split
      · next empty =>
          apply Or.inl
          rw [(Buffer.isEmpty_iff _).mp empty]
      · exact Or.inr rfl

/-- `DELETE` of this target. -/
def deleteOf (target : PathAndQuery) : HttpRequest where
  method := ⟨octets "DELETE", by decide, by decide⟩
  pathAndQuery := some target
  version := .http11
  headers := [(.contentLength, HeaderValue.ofNat 0)]
  body := Buffer.new

theorem survives_iff_delete :
    Survives (deleteOf ⟨octets "/c/b", none, by decide⟩) :=
  (survives_iff rfl).mpr rfl

/-- The version of the object that is to be deleted is lost. -/
theorem not_survives_versioned :
    ¬ Survives (deleteOf
      ⟨octets "/c/b", some (octets "versionid=1"), by decide⟩) := by
  intro survives
  cases query_eq_none survives

end MixedRequest

end OpenDal
