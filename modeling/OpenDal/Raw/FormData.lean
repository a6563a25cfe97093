import OpenDal.MessageFraming
import OpenDal.Types.BufferSequence
import OpenDal.Types.Error

/-!
# `multipart/form-data` requests

`Multipart` puts the texts of its parts together, each behind the boundary,
and `apply` makes a request of them.  The buffers of the parts are not copied:
the body is the sequence of all of their chunks, and the `Content-Length` is
what that sequence has counted.

A decoder takes the parts out again as long as the boundary is neither the
beginning of a header line nor somewhere in a content.
-/

namespace OpenDal

open MessageFraming

/-- The octets of a text of ASCII. -/
def octets (text : String) : Octets :=
  text.toList.map fun c => UInt8.ofNat c.toNat

/-! ## Headers -/

/-- The characters of a name, in lower case. -/
def isNameOctet (octet : UInt8) : Bool :=
  (97 ≤ octet && octet ≤ 122) || (48 ≤ octet && octet ≤ 57) ||
    octet ∈ octets "!#$%&'*+-.^_|~" || octet = 96

/-- What is visible or above ASCII, and the tab. -/
def isValueOctet (octet : UInt8) : Bool :=
  (32 ≤ octet && octet ≠ 127) || octet = 9

structure HeaderName where
  octets : Octets
  filled : octets ≠ []
  valid : octets.all isNameOctet = true
deriving DecidableEq

structure HeaderValue where
  octets : Octets
  valid : octets.all isValueOctet = true
deriving DecidableEq

namespace HeaderName

def contentDisposition : HeaderName where
  octets := OpenDal.octets "content-disposition"
  filled := by decide
  valid := by decide

def contentType : HeaderName where
  octets := OpenDal.octets "content-type"
  filled := by decide
  valid := by decide

def contentLength : HeaderName where
  octets := OpenDal.octets "content-length"
  filled := by decide
  valid := by decide

end HeaderName

namespace HeaderValue

/-- `HeaderValue::from_str`. -/
def parse (octets : Octets) : Option HeaderValue :=
  if valid : octets.all isValueOctet = true then some ⟨octets, valid⟩ else none

theorem isValueOctet_digit {c : Char} (digit : c.isDigit = true) :
    isValueOctet (UInt8.ofNat c.toNat) = true := by
  have bounds : 48 ≤ c.toNat ∧ c.toNat ≤ 57 := by
    simp only [Char.isDigit, Bool.and_eq_true, decide_eq_true_eq,
      ge_iff_le, UInt32.le_iff_toNat_le] at digit
    exact digit
  have small : ∀ code ≤ 57, 48 ≤ code →
      isValueOctet (UInt8.ofNat code) = true := by
    decide
  exact small c.toNat bounds.2 bounds.1

/-- The digits of a number. -/
def ofNat (n : Nat) : HeaderValue where
  octets := (Nat.toDigits 10 n).map fun c => UInt8.ofNat c.toNat
  valid := by
    rw [List.all_eq_true]
    intro octet member
    obtain ⟨c, known, rfl⟩ := List.mem_map.mp member
    exact isValueOctet_digit
      (Nat.isDigit_of_mem_toDigits (by decide) (by decide) known)

end HeaderValue

abbrev HeaderFields := List (HeaderName × HeaderValue)

/-- `HeaderMap::insert` of a map with one value for each name. -/
def HeaderFields.insert (headers : HeaderFields) (key : HeaderName)
    (value : HeaderValue) : HeaderFields :=
  if headers.any fun header => header.1 = key then
    headers.map fun header => if header.1 = key then (key, value) else header
  else
    headers ++ [(key, value)]

/-- The name is written as it is given. -/
def fieldLine (name : Octets) (value : HeaderValue) : Octets :=
  name ++ octets ": " ++ value.octets

/-! ## Parts -/

/-- The trait `Part`; `parse` is in `OpenDal.Raw.MixedPart`. -/
class Part (T : Type) where
  type : String
  format : T → Buffer

structure FormDataPart where
  headers : HeaderFields
  content : Buffer

namespace FormDataPart

/-- `none` is the panic of a name that is not percent encoded. -/
def new (name : Octets) : Option FormDataPart :=
  (HeaderValue.parse (octets "form-data; name=\"" ++ name ++ octets "\"")).map
    fun value => ⟨[(.contentDisposition, value)], Buffer.new⟩

def header (part : FormDataPart) (key : HeaderName) (value : HeaderValue) :
    FormDataPart :=
  { part with headers := part.headers.insert key value }

def withContent (part : FormDataPart) (content : Buffer) : FormDataPart :=
  { part with content }

/-- Seafile could not recognize header names like `content-disposition`. -/
def headerText (key : HeaderName) : Octets :=
  if key = .contentDisposition then
    octets "Content-Disposition"
  else
    key.octets

/-- The header lines as they are written. -/
def lines (part : FormDataPart) : List Octets :=
  part.headers.map fun header => fieldLine (headerText header.1) header.2

def format (part : FormDataPart) : Buffer :=
  let bs := part.headers.flatMap fun header =>
    headerText header.1 ++ octets ": " ++ header.2.octets ++ octets "\r\n"
  let bufs := [Buffer.fromBytes (bs ++ octets "\r\n"), part.content,
    Buffer.fromBytes (octets "\r\n")]
  Buffer.flatten bufs

instance : Part FormDataPart where
  type := "form-data"
  format := format

end FormDataPart

/-! ## The body and the request -/

structure Multipart (T : Type) where
  boundary : Octets
  parts : List T

/-- `http::request::Builder`; `none` is a builder that has failed. -/
abbrev RequestBuilder := Option HeaderFields

def RequestBuilder.header (builder : RequestBuilder) (key : HeaderName)
    (value : Option HeaderValue) : RequestBuilder := do
  let headers ← builder
  let value ← value
  some (headers ++ [(key, value)])

structure BuiltRequest where
  headers : HeaderFields
  body : Buffer

def RequestBuilder.body (builder : RequestBuilder) (body : Buffer) :
    Except Error BuiltRequest :=
  match builder with
  | some headers => .ok ⟨headers, body⟩
  | none => .error newRequestBuildError

namespace Multipart

variable {T : Type} [Part T]

def build (multipart : Multipart T) : Buffer :=
  let prePart := Buffer.fromBytes
    (octets "--" ++ multipart.boundary ++ octets "\r\n")
  let bufs := multipart.parts.flatMap fun part =>
    [prePart, Part.format part]
  let finalPart := Buffer.fromBytes
    (octets "--" ++ multipart.boundary ++ octets "--" ++ octets "\r\n")
  Buffer.flatten (bufs ++ [finalPart])

def contentType (multipart : Multipart T) : Octets :=
  octets "multipart/" ++ octets (Part.type T) ++ octets "; boundary=" ++
    multipart.boundary

def apply (multipart : Multipart T) (builder : RequestBuilder) :
    Except Error BuiltRequest :=
  let buf := multipart.build
  let contentLength := buf.len
  let builder := builder.header .contentType
    (HeaderValue.parse multipart.contentType)
  let builder := builder.header .contentLength
    (some (HeaderValue.ofNat contentLength))
  builder.body buf

end Multipart

/-! ## What is written -/

theorem octets_crlf : octets "\r\n" = crlf := by
  decide

theorem octets_dashes : octets "--" = dashes := by
  decide

namespace FormDataPart

theorem bytes_format (part : FormDataPart) :
    part.format.bytes = head part.lines ++ part.content.bytes ++ crlf := by
  simp [format, octets_crlf, head, lines, fieldLine, List.flatMap_map]

/-- The part as a decoder has to find it. -/
def entity (part : FormDataPart) : Entity :=
  ⟨part.lines, part.content.bytes⟩

end FormDataPart

theorem Multipart.bytes_build (multipart : Multipart FormDataPart) :
    multipart.build.bytes = encode multipart.boundary
      (multipart.parts.map FormDataPart.entity) := by
  simp [build, Part.format, encode, FormDataPart.bytes_format, octets_crlf,
    octets_dashes, FormDataPart.entity, Entity.text, dashBoundary,
    List.flatMap_map, List.flatMap_assoc]

/-! ## Lines -/

theorem HeaderName.oneLine (key : HeaderName) : 13 ∉ key.octets := by
  intro member
  have valid := List.all_eq_true.mp key.valid 13 member
  revert valid
  decide

theorem HeaderValue.oneLine (value : HeaderValue) : 13 ∉ value.octets := by
  intro member
  have valid := List.all_eq_true.mp value.valid 13 member
  revert valid
  decide

theorem isLine_fieldLine {name : Octets} (oneLine : 13 ∉ name)
    (value : HeaderValue) : IsLine (fieldLine name value) := by
  have colon : octets ": " ≠ [] ∧ 13 ∉ octets ": " := by decide
  constructor
  · simp [fieldLine, colon.1]
  · simp [fieldLine, oneLine, colon.2, value.oneLine]

namespace FormDataPart

theorem oneLine_headerText (key : HeaderName) : 13 ∉ headerText key := by
  rw [headerText]
  split
  · decide
  · exact key.oneLine

/-- A part that has the boundary neither at the beginning of a header line nor
in its content. -/
structure Apart (boundary : Octets) (part : FormDataPart) : Prop where
  lines : ∀ line ∈ part.lines, ¬ dashBoundary boundary <+: line
  content : ¬ dashBoundary boundary <:+: part.content.bytes

theorem Apart.fits {boundary : Octets} {part : FormDataPart}
    (apart : part.Apart boundary) : part.entity.Fits boundary := by
  constructor
  · intro line member
    obtain ⟨header, -, rfl⟩ := List.mem_map.mp member
    exact isLine_fieldLine (oneLine_headerText header.1) header.2
  · exact apart.lines
  · intro inside
    apply apart.content
    obtain ⟨front, back, whole⟩ := inside
    -- what is left of the content behind the two octets in front of it
    refine ⟨(front ++ crlf).drop 2, back, ?_⟩
    have content := congrArg (List.drop 2) whole
    have enough : 2 ≤ (front ++ crlf).length := by simp [crlf]
    rw [delimiter, ← List.append_assoc, List.append_assoc,
      List.drop_append_of_le_length enough] at content
    rw [List.append_assoc, content]
    rfl

end FormDataPart

/-! ## The round trip -/

theorem Multipart.apply_eq_ok {multipart : Multipart FormDataPart}
    {builder : RequestBuilder} {request : BuiltRequest}
    (applied : multipart.apply builder = .ok request) :
    ∃ headers value, builder = some headers ∧
      HeaderValue.parse multipart.contentType = some value ∧
      request = ⟨headers ++ [(.contentType, value)] ++
        [(.contentLength, .ofNat multipart.build.len)], multipart.build⟩ := by
  cases builder with
  | none => cases applied
  | some headers =>
      cases parsed : HeaderValue.parse multipart.contentType with
      | none =>
          simp only [apply, parsed] at applied
          cases applied
      | some value =>
          simp only [apply, parsed] at applied
          cases applied
          exact ⟨headers, value, rfl, rfl, rfl⟩

theorem HeaderValue.parse_eq_some {text : Octets} {value : HeaderValue}
    (parsed : parse text = some value) : value.octets = text := by
  rw [parse] at parsed
  split at parsed
  · cases parsed
    rfl
  · cases parsed

theorem Multipart.oneLine_boundary {multipart : Multipart FormDataPart}
    {value : HeaderValue}
    (parsed : HeaderValue.parse multipart.contentType = some value) :
    13 ∉ multipart.boundary := by
  intro member
  apply value.oneLine
  rw [HeaderValue.parse_eq_some parsed]
  exact List.mem_append_right _ member

/-- A decoder finds the parts of a request as they were put in, and the
`Content-Length` is the length of the body. -/
theorem Multipart.decode_apply {multipart : Multipart FormDataPart}
    {builder : RequestBuilder} {request : BuiltRequest}
    (applied : multipart.apply builder = .ok request)
    (apart : ∀ part ∈ multipart.parts, part.Apart multipart.boundary) :
    decode multipart.boundary request.body.bytes =
      some (multipart.parts.map FormDataPart.entity) ∧
    ∃ headers value, builder = some headers ∧
      value.octets = octets "multipart/form-data; boundary=" ++
        multipart.boundary ∧
      request.headers = headers ++ [(.contentType, value),
        (.contentLength, .ofNat request.body.bytes.length)] := by
  obtain ⟨headers, value, rfl, parsed, rfl⟩ := apply_eq_ok applied
  constructor
  · rw [bytes_build]
    apply decode_encode (oneLine_boundary parsed)
    intro entity member
    obtain ⟨part, known, rfl⟩ := List.mem_map.mp member
    exact (apart part known).fits
  · refine ⟨headers, value, rfl, HeaderValue.parse_eq_some parsed, ?_⟩
    rw [Buffer.length_bytes, List.append_assoc]
    rfl

/-- The field `f`. -/
def fieldOf (headers : HeaderFields) (content : Buffer) : FormDataPart where
  headers := (.contentDisposition,
    ⟨octets "form-data; name=\"f\"", by decide⟩) :: headers
  content

/-- An empty content, and one in chunks that ends with a line break. -/
def twoFields : Multipart FormDataPart where
  boundary := octets "b"
  parts := [fieldOf [] Buffer.new,
    fieldOf [] (Buffer.fromIterBytes [[45, 45], [], [13, 10]])]

theorem decode_apply_twoFields : ∃ request,
    twoFields.apply (some []) = .ok request ∧
      decode twoFields.boundary request.body.bytes =
        some (twoFields.parts.map FormDataPart.entity) := by
  have applied : ∃ request, twoFields.apply (some []) = .ok request :=
    ⟨_, rfl⟩
  obtain ⟨request, applied⟩ := applied
  refine ⟨request, applied, (Multipart.decode_apply applied ?_).1⟩
  intro part member
  rcases List.mem_pair.mp member with rfl | rfl
  · exact ⟨by decide, by decide⟩
  · exact ⟨by decide, by decide⟩

/-- The boundary `x:` is in no name, but the line of the header `--x` begins
with it. -/
def dashedName : Multipart FormDataPart where
  boundary := octets "x:"
  parts := [fieldOf [(⟨octets "--x", by decide, by decide⟩,
    ⟨octets "v", by decide⟩)] Buffer.new]

theorem not_decode_apply_dashedName :
    ¬ ∀ (multipart : Multipart FormDataPart) (builder : RequestBuilder)
      (request : BuiltRequest), multipart.apply builder = .ok request →
      (multipart.boundary ≠ [] ∧ 13 ∉ multipart.boundary ∧
        10 ∉ multipart.boundary) →
      (∀ part ∈ multipart.parts,
        (∀ header ∈ part.headers,
          ¬ dashBoundary multipart.boundary <:+: header.1.octets) ∧
        ¬ dashBoundary multipart.boundary <:+: part.content.bytes) →
      decode multipart.boundary request.body.bytes =
        some (multipart.parts.map FormDataPart.entity) := by
  intro decodes
  have applied : dashedName.apply (some []) =
      .ok ⟨_, dashedName.build⟩ := rfl
  have decoded := decodes _ _ _ applied (by decide) (by decide)
  rw [Multipart.bytes_build] at decoded
  revert decoded
  decide

end OpenDal
