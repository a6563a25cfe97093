import OpenDal.Raw.Path
import OpenDal.Splitting
import OpenDal.Types.Error

/-!
# `multipart/mixed` replies

A batch is answered with one text that holds a response for each request.
`Multipart::parse` takes it apart at the boundary and `MixedPart::parse` reads
one response.  A status line that cannot be read counts as 200.

A `SubResponse` is what a server answers to one request.  The replies below
are the texts that `multipart/mixed` prescribes for a list of them, and they
are read back as they were sent.
-/

namespace OpenDal

open Splitting

abbrev Text := List Char

namespace Text

/-- `str::lines`. -/
def linesGo (line : Text) : Text → List Text
  | [] => if line.isEmpty then [] else [line.reverse]
  | c :: text =>
      if c = '\n' then
        (if line.head? = some '\r' then line.tail else line).reverse ::
          linesGo [] text
      else
        linesGo (c :: line) text

def lines (text : Text) : List Text :=
  linesGo [] text

/-- `str::split_whitespace`. -/
def splitWhitespace (text : Text) : List Text :=
  (text.splitOnP Path.isWhitespace).filter fun word => !word.isEmpty

/-- `str::parse::<u16>`. -/
def parseU16 (text : Text) : Option Nat :=
  let digits := if text.head? = some '+' then text.tail else text
  if digits.isEmpty || !digits.all Char.isDigit then
    none
  else
    let value := digits.foldl (fun value c => 10 * value + (c.toNat - 48)) 0
    if value < 65536 then some value else none

def crlf : Text :=
  ['\r', '\n']

/-- The empty line between headers and content. -/
def blank : Text :=
  ['\r', '\n', '\r', '\n']

def colon : Text :=
  [':', ' ']

end Text

open Text

/-! ## Headers -/

/-- The names and values that `HeaderName` and `HeaderValue` accept. -/
structure HeaderGrammar where
  name : Text → Bool
  value : Text → Bool

abbrev HeaderMap := List (Text × Text)

namespace HeaderMap

/-- `HeaderMap::insert`; names are kept in lower case. -/
def insert (headers : HeaderMap) (header : Text × Text) : HeaderMap :=
  let name := header.1.map Char.toLower
  headers.filter (fun other => other.1 != name) ++ [(name, header.2)]

def get (headers : HeaderMap) (name : Text) : Option Text :=
  (headers.find? fun header => header.1 == name).map Prod.snd

end HeaderMap

/-- The loop over the lines of a header block; other lines are skipped. -/
def parseHeaders (grammar : HeaderGrammar) (headers : HeaderMap) :
    List Text → Except Error HeaderMap
  | [] => .ok headers
  | line :: lines =>
      match splitOnce colon line with
      | none => parseHeaders grammar headers lines
      | some (name, value) =>
          if !grammar.name name then
            .error (.new .unexpected
              "multipart response contains invalid part header name")
          else if !grammar.value value then
            .error (.new .unexpected
              "multipart response contains invalid part header value")
          else
            parseHeaders grammar (headers.insert (name, value)) lines

/-! ## Parts -/

structure Response where
  status : Nat
  headers : HeaderMap
  body : Text

/-- A part of a reply; the fields of a request are left out. -/
structure MixedPart where
  partHeaders : HeaderMap
  headers : HeaderMap
  content : Text
  statusCode : Nat

namespace MixedPart

def intoResponse (part : MixedPart) : Response :=
  ⟨part.statusCode, part.headers, part.content⟩

def parse (grammar : HeaderGrammar) (s : Text) : Except Error MixedPart := do
  let (partHeadersContent, httpResponse) := (splitOnce blank s).getD (s, [])
  let partHeaders ← parseHeaders grammar [] (lines partHeadersContent)
  let parts := split blank httpResponse
  let headersContent := parts.headD []
  let bodyContent := parts[1]?.getD []
  let statusLine := (lines headersContent).headD []
  let statusCode :=
    (parseU16 ((splitWhitespace statusLine)[1]?.getD [])).getD 200
  let headers ← parseHeaders grammar [] ((lines headersContent).drop 1)
  -- `StatusCode::from_u16`
  if 100 ≤ statusCode ∧ statusCode < 1000 then
    .ok ⟨partHeaders, headers, bodyContent, statusCode⟩
  else
    .error (.new .unexpected "multipart response contains invalid status code")

end MixedPart

namespace Multipart

def delimiter (boundary : Text) : Text :=
  '-' :: '-' :: boundary

/-- The pieces that are parts: the first one is empty, the last one starts
with `--`. -/
def isPart (piece : Text) : Bool :=
  !piece.isEmpty && !(['-', '-'].isPrefixOf piece)

/-- `Multipart::<MixedPart>::parse`. -/
def parse (grammar : HeaderGrammar) (boundary s : Text) :
    Except Error (List MixedPart) :=
  ((split (delimiter boundary) s).filter isPart).mapM (MixedPart.parse grammar)

end Multipart

/-- `parse_multipart_boundary`. -/
def parseMultipartBoundary (headers : HeaderMap) : Option Text :=
  (headers.get "content-type".toList).bind fun value =>
    (split "boundary=".toList value)[1]?

/-! ## What a server sends -/

/-- A line of a header block. -/
def headerLine (header : Text × Text) : Text :=
  header.1 ++ colon ++ header.2

/-- A header that can be sent and read. -/
structure IsHeader (grammar : HeaderGrammar) (header : Text × Text) :
    Prop where
  name : grammar.name header.1 = true
  value : grammar.value header.2 = true
  filled : header.1 ≠ []
  plain : ':' ∉ header.1
  oneLine : '\r' ∉ headerLine header ∧ '\n' ∉ headerLine header

/-- The response to one request. -/
structure SubResponse where
  contentId : Nat
  partHeaders : List (Text × Text)
  statusCode : Nat
  reason : Text
  headers : List (Text × Text)
  content : Text

namespace SubResponse

/-- The digits of a status code. -/
def statusText (code : Nat) : Text :=
  [Nat.digitChar (code / 100), Nat.digitChar (code / 10 % 10),
    Nat.digitChar (code % 10)]

def version : Text :=
  ['H', 'T', 'T', 'P', '/', '1', '.', '1']

def statusLine (part : SubResponse) : Text :=
  version ++ ' ' :: (statusText part.statusCode ++
    ' ' :: part.reason)

/-- Every line of a block follows a line break. -/
def block (headers : List (Text × Text)) : Text :=
  headers.flatMap fun header => crlf ++ headerLine header

def text (part : SubResponse) : Text :=
  block part.partHeaders ++ blank ++ (part.statusLine ++ block part.headers ++
    blank ++ (part.content ++ crlf))

/-- A response that can stand in a reply with this boundary. -/
structure IsPart (grammar : HeaderGrammar) (boundary : Text)
    (part : SubResponse) : Prop where
  echoes : ("Content-ID".toList, (Nat.repr part.contentId).toList) ∈
    part.partHeaders
  partHeaders : ∀ header ∈ part.partHeaders, IsHeader grammar header
  headers : ∀ header ∈ part.headers, IsHeader grammar header
  status : 100 ≤ part.statusCode ∧ part.statusCode < 1000
  oneLine : '\r' ∉ part.reason ∧ '\n' ∉ part.reason
  apart : ¬ Multipart.delimiter boundary <:+: part.text

/-- What is read of a response.  Its content ends where the next empty line
is. -/
def toMixedPart (part : SubResponse) : MixedPart where
  partHeaders := part.partHeaders.foldl HeaderMap.insert []
  headers := part.headers.foldl HeaderMap.insert []
  content := (split blank (part.content ++ crlf)).headD []
  statusCode := part.statusCode

end SubResponse

/-- A boundary that can be announced and found. -/
structure IsBoundary (boundary : Text) : Prop where
  filled : boundary ≠ []
  oneLine : '\r' ∉ boundary ∧ '\n' ∉ boundary
  plain : Avoids "boundary=".toList [] boundary

/-- A reply with these parts. -/
def replyText (boundary : Text) (parts : List SubResponse) : Text :=
  parts.flatMap (fun part => Multipart.delimiter boundary ++ part.text) ++
    Multipart.delimiter boundary ++ ['-', '-', '\r', '\n']

/-! ## Reading lines -/

namespace Text

theorem linesGo_append {line text : Text} (before : Text)
    (oneLine : '\n' ∉ line) :
    linesGo before (line ++ crlf ++ text) =
      (before.reverse ++ line) :: lines text := by
  induction line generalizing before with
  | nil => simp [linesGo, crlf, lines]
  | cons c line induction =>
      rw [List.mem_cons, not_or] at oneLine
      have other : c ≠ '\n' := Ne.symm oneLine.1
      simp only [List.cons_append, linesGo, other, if_false,
        induction (c :: before) oneLine.2]
      simp

theorem lines_append {line text : Text} (oneLine : '\n' ∉ line) :
    lines (line ++ crlf ++ text) = line :: lines text := by
  rw [lines, linesGo_append [] oneLine]
  rfl

theorem linesGo_eq {line : Text} (before : Text) (oneLine : '\n' ∉ line)
    (filled : before ≠ [] ∨ line ≠ []) :
    linesGo before line = [before.reverse ++ line] := by
  induction line generalizing before with
  | nil =>
      have notEmpty : before.isEmpty = false := by
        simpa using filled
      simp [linesGo, notEmpty]
  | cons c line induction =>
      rw [List.mem_cons, not_or] at oneLine
      have other : c ≠ '\n' := Ne.symm oneLine.1
      simp only [linesGo, other, if_false,
        induction (c :: before) oneLine.2 (.inl (List.cons_ne_nil _ _))]
      simp

theorem lines_eq {line : Text} (oneLine : '\n' ∉ line) (filled : line ≠ []) :
    lines line = [line] := by
  rw [lines, linesGo_eq [] oneLine (.inr filled)]
  rfl

end Text

namespace SubResponse

variable {grammar : HeaderGrammar} {headers : List (Text × Text)}

theorem headerLine_ne_nil (header : Text × Text) : headerLine header ≠ [] := by
  simp [headerLine, colon]

theorem lines_block {first : Text} (filled : first ≠ [] ∨ headers ≠ [])
    (oneLine : '\n' ∉ first)
    (isHeader : ∀ header ∈ headers, IsHeader grammar header) :
    lines (first ++ block headers) = first :: headers.map headerLine := by
  induction headers generalizing first with
  | nil =>
      have notEmpty : first ≠ [] := by simpa using filled
      simpa [block] using lines_eq oneLine notEmpty
  | cons header headers induction =>
      have step : first ++ block (header :: headers) =
          first ++ crlf ++ (headerLine header ++ block headers) := by
        simp [block]
      rw [step, lines_append oneLine, induction
        (.inl (headerLine_ne_nil header))
        (isHeader header List.mem_cons_self).oneLine.2
        (fun other member => isHeader other (List.mem_cons_of_mem _ member))]
      rfl

theorem parseHeaders_map (found : HeaderMap)
    (isHeader : ∀ header ∈ headers, IsHeader grammar header) :
    parseHeaders grammar found (headers.map headerLine) =
      .ok (headers.foldl HeaderMap.insert found) := by
  induction headers generalizing found with
  | nil => rfl
  | cons header headers induction =>
      have valid := isHeader header List.mem_cons_self
      have apart : splitOnce colon (headerLine header) =
          some (header.1, header.2) :=
        splitOnce_append (List.cons_ne_nil _ _) (avoids_of_not_mem valid.plain)
      simp only [List.map_cons, parseHeaders, apart, valid.name, valid.value,
        Bool.not_true, Bool.false_eq_true, if_false, List.foldl_cons]
      exact induction _ fun other member =>
        isHeader other (List.mem_cons_of_mem _ member)

/-! ## Reading a part -/

theorem avoids_block {follow : Text}
    (isHeader : ∀ header ∈ headers, IsHeader grammar header) :
    Avoids blank follow (block headers) := by
  induction headers with
  | nil => trivial
  | cons header headers induction =>
      have valid := isHeader header List.mem_cons_self
      have step : block (header :: headers) =
          '\r' :: ('\n' :: headerLine header ++ block headers) := by
        simp [block, crlf]
      rw [step]
      refine ⟨?_, ?_⟩
      · -- a line break is followed by the first character of a line
        intro starts
        obtain ⟨c, line, shape⟩ :=
          List.exists_cons_of_ne_nil (headerLine_ne_nil header)
        rw [shape] at starts
        simp only [blank, List.cons_append, List.cons_prefix_cons] at starts
        apply valid.oneLine.1
        rw [shape, ← starts.2.2.1]
        exact List.mem_cons_self
      · rw [avoids_append]
        refine ⟨avoids_of_not_mem ?_, induction fun other member =>
          isHeader other (List.mem_cons_of_mem _ member)⟩
        rw [List.mem_cons, not_or]
        exact ⟨by decide, valid.oneLine.1⟩

/-! ### The status -/

theorem digitChar_facts : ∀ digit < 10,
    (Nat.digitChar digit).isDigit = true ∧
    (Nat.digitChar digit).toNat - 48 = digit ∧
    Path.isWhitespace (Nat.digitChar digit) = false ∧
    Nat.digitChar digit ≠ '+' ∧ Nat.digitChar digit ≠ '\r' ∧
    Nat.digitChar digit ≠ '\n' := by
  decide

theorem parseU16_statusText {code : Nat} (status : 100 ≤ code ∧ code < 1000) :
    parseU16 (statusText code) = some code := by
  obtain ⟨first, firstValue, -, sign, -⟩ :=
    digitChar_facts (code / 100) (by omega)
  obtain ⟨second, secondValue, -⟩ :=
    digitChar_facts (code / 10 % 10) (by omega)
  obtain ⟨third, thirdValue, -⟩ := digitChar_facts (code % 10) (by omega)
  have unsigned : (statusText code).head? ≠ some '+' := by
    simp [statusText, sign]
  have value : (statusText code).foldl
      (fun value c => 10 * value + (c.toNat - 48)) 0 = code := by
    simp only [statusText, List.foldl_cons, List.foldl_nil, firstValue,
      secondValue, thirdValue]
    omega
  have digits : (statusText code).all Char.isDigit = true := by
    simp [statusText, first, second, third]
  have notEmpty : (statusText code).isEmpty = false := rfl
  have small : code < 65536 := by omega
  simp only [parseU16, unsigned, if_false, notEmpty, digits, value, small,
    Bool.not_true, Bool.or_false, Bool.false_eq_true, if_true]

theorem splitWhitespace_statusLine {part : SubResponse}
    (status : 100 ≤ part.statusCode ∧ part.statusCode < 1000) :
    (splitWhitespace part.statusLine)[1]? =
      some (statusText part.statusCode) := by
  obtain ⟨-, -, first, -⟩ :=
    digitChar_facts (part.statusCode / 100) (by omega)
  obtain ⟨-, -, second, -⟩ :=
    digitChar_facts (part.statusCode / 10 % 10) (by omega)
  obtain ⟨-, -, third, -⟩ := digitChar_facts (part.statusCode % 10) (by omega)
  have noBlank : ∀ c ∈ version, Path.isWhitespace c = false := by
    have all : (version.all fun c => !Path.isWhitespace c) = true := by decide
    simpa using all
  have code : ∀ c ∈ statusText part.statusCode,
      Path.isWhitespace c = false := by
    simp [statusText, first, second, third]
  rw [splitWhitespace, statusLine,
    List.splitOnP_append_cons_of_forall_mem noBlank ' ' (by decide),
    List.splitOnP_append_cons_of_forall_mem code ' ' (by decide),
    List.filter_cons_of_pos (by decide), List.filter_cons_of_pos rfl]
  rfl

theorem statusLine_oneLine {part : SubResponse}
    (status : 100 ≤ part.statusCode ∧ part.statusCode < 1000)
    (oneLine : '\r' ∉ part.reason ∧ '\n' ∉ part.reason) :
    '\r' ∉ part.statusLine ∧ '\n' ∉ part.statusLine := by
  obtain ⟨-, -, -, -, first⟩ :=
    digitChar_facts (part.statusCode / 100) (by omega)
  obtain ⟨-, -, -, -, second⟩ :=
    digitChar_facts (part.statusCode / 10 % 10) (by omega)
  obtain ⟨-, -, -, -, third⟩ :=
    digitChar_facts (part.statusCode % 10) (by omega)
  constructor
  · simp [statusLine, version, statusText, oneLine.1, first.1.symm, second.1.symm,
      third.1.symm]
  · simp [statusLine, version, statusText, oneLine.2, first.2.symm, second.2.symm,
      third.2.symm]

/-! ### The whole part -/

theorem parse_text {boundary : Text} {part : SubResponse}
    (isPart : part.IsPart grammar boundary) :
    MixedPart.parse grammar part.text = .ok part.toMixedPart := by
  have filled : blank ≠ [] := List.cons_ne_nil _ _
  have outer : splitOnce blank part.text = some (block part.partHeaders,
      part.statusLine ++ block part.headers ++ blank ++
        (part.content ++ crlf)) :=
    splitOnce_append filled (avoids_block isPart.partHeaders)
  have oneLine := statusLine_oneLine isPart.status isPart.oneLine
  have inner : split blank (part.statusLine ++ block part.headers ++ blank ++
      (part.content ++ crlf)) = (part.statusLine ++ block part.headers) ::
        split blank (part.content ++ crlf) := by
    apply split_append filled
    rw [avoids_append]
    exact ⟨avoids_of_not_mem oneLine.1, avoids_block isPart.headers⟩
  have partLines : lines (block part.partHeaders) =
      [] :: part.partHeaders.map headerLine :=
    lines_block (.inr (List.ne_nil_of_mem isPart.echoes)) List.not_mem_nil
      isPart.partHeaders
  have responseLines : lines (part.statusLine ++ block part.headers) =
      part.statusLine :: part.headers.map headerLine :=
    lines_block (.inl (by simp [statusLine, version])) oneLine.2 isPart.headers
  have noName : splitOnce colon ([] : Text) = none := rfl
  simp only [MixedPart.parse, outer, Option.getD_some, partLines, parseHeaders,
    noName, parseHeaders_map _ isPart.partHeaders, inner, List.headD_cons,
    responseLines, List.drop_one, List.tail_cons,
    parseHeaders_map _ isPart.headers, splitWhitespace_statusLine isPart.status,
    parseU16_statusText isPart.status, List.getElem?_cons_succ]
  simp only [bind, Except.bind, isPart.status, and_self, if_true]
  rw [toMixedPart, List.headD_eq_head?_getD, List.head?_eq_getElem?]

/-! ## Reading a reply -/

variable {boundary : Text} {parts : List SubResponse}

theorem isPart_text (part : SubResponse) :
    Multipart.isPart part.text = true := by
  have first : part.text.head? = some '\r' := by
    cases headers : part.partHeaders with
    | nil => simp [text, headers, block, blank]
    | cons header others => simp [text, headers, block, crlf]
  obtain ⟨rest, shape⟩ := List.head?_eq_some_iff.mp first
  rw [shape]
  rfl

theorem delimiter_ne_nil (boundary : Text) :
    Multipart.delimiter boundary ≠ [] :=
  List.cons_ne_nil _ _

theorem newline_not_mem_delimiter (isBoundary : IsBoundary boundary) :
    '\n' ∉ Multipart.delimiter boundary := by
  simp [Multipart.delimiter, isBoundary.oneLine.2]

/-- The boundary does not start in a part, since a part ends with a line
break. -/
theorem avoids_text {follow : Text} {part : SubResponse}
    (isBoundary : IsBoundary boundary)
    (isPart : part.IsPart grammar boundary) :
    Avoids (Multipart.delimiter boundary) follow part.text := by
  have ends : part.text = (block part.partHeaders ++ blank ++
      (part.statusLine ++ block part.headers ++ blank ++
        (part.content ++ ['\r']))) ++ ['\n'] := by
    simp [text, crlf]
  have apart := isPart.apart
  rw [ends] at apart ⊢
  exact avoids_of_last_not_mem (newline_not_mem_delimiter isBoundary) apart

/-- Neither does it start in the end of a reply. -/
theorem avoids_end {follow : Text} (isBoundary : IsBoundary boundary) :
    Avoids (Multipart.delimiter boundary) follow ['-', '-', '\r', '\n'] := by
  obtain ⟨c, rest, rfl⟩ := List.exists_cons_of_ne_nil isBoundary.filled
  have other : c ≠ '\r' := by
    intro same
    apply isBoundary.oneLine.1
    rw [same]
    exact List.mem_cons_self
  simp [Avoids, Multipart.delimiter, other]

theorem split_replyText (isBoundary : IsBoundary boundary)
    (isPart : ∀ part ∈ parts, part.IsPart grammar boundary) :
    split (Multipart.delimiter boundary) (replyText boundary parts) =
      [] :: (parts.map text ++ [['-', '-', '\r', '\n']]) := by
  have shape : replyText boundary parts =
      [] ++ (parts.map text ++ [['-', '-', '\r', '\n']]).flatMap
        (Multipart.delimiter boundary ++ ·) := by
    simp [replyText, List.flatMap_map]
  rw [shape]
  apply split_join (delimiter_ne_nil boundary)
  intro piece member
  rw [List.mem_cons, List.mem_append, List.mem_map, List.mem_singleton]
    at member
  rcases member with rfl | ⟨part, member, rfl⟩ | rfl
  · trivial
  · exact avoids_text isBoundary (isPart part member)
  · exact avoids_end isBoundary

theorem mapM_parse (isPart : ∀ part ∈ parts, part.IsPart grammar boundary) :
    (parts.map text).mapM (MixedPart.parse grammar) =
      .ok (parts.map toMixedPart) := by
  induction parts with
  | nil => rfl
  | cons part parts induction =>
      rw [List.map_cons, List.mapM_cons,
        parse_text (isPart part List.mem_cons_self),
        induction fun other member =>
          isPart other (List.mem_cons_of_mem _ member)]
      rfl

theorem parse_replyText (isBoundary : IsBoundary boundary)
    (isPart : ∀ part ∈ parts, part.IsPart grammar boundary) :
    Multipart.parse grammar boundary (replyText boundary parts) =
      .ok (parts.map toMixedPart) := by
  have pieces : (parts.map text).filter Multipart.isPart = parts.map text := by
    rw [List.filter_eq_self]
    intro piece member
    obtain ⟨part, -, rfl⟩ := List.mem_map.mp member
    exact part.isPart_text
  have ending : Multipart.isPart ['-', '-', '\r', '\n'] = false := rfl
  have start : Multipart.isPart [] = false := rfl
  rw [Multipart.parse, split_replyText isBoundary isPart, List.filter_cons,
    start, List.filter_append, pieces, List.filter_cons, ending]
  simpa using mapM_parse isPart

end SubResponse

theorem parseMultipartBoundary_eq {boundary : Text}
    (isBoundary : IsBoundary boundary) {headers : HeaderMap}
    (announced : headers.get "content-type".toList =
      some ("multipart/mixed; ".toList ++ "boundary=".toList ++ boundary)) :
    parseMultipartBoundary headers = some boundary := by
  have avoids : Avoids "boundary=".toList ("boundary=".toList ++ boundary)
      "multipart/mixed; ".toList := by
    have absent : 'b' ∉ "multipart/mixed; ".toList := by decide
    exact avoids_of_not_mem absent
  rw [parseMultipartBoundary, announced, Option.bind_some,
    split_append (by decide) avoids, split_of_avoids isBoundary.plain]
  rfl

end OpenDal
