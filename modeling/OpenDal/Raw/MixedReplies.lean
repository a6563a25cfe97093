import Mathlib.Data.List.Forall2
import OpenDal.Raw.MixedPart

/-!
# What `Multipart::parse` keeps of a reply

A reply may have a text in front of its first boundary and one behind its last
one, and the line break in front of a boundary belongs to it.  The parser
knows neither: it takes every piece between two boundaries for a part, with
the line break at its end, and the content of a part only up to the next empty
line.  So a response never comes back with the body that it had.
-/

namespace OpenDal

open Splitting Text

/-! ## Replies -/

/-- A response that can be sent with this boundary.  The boundary may be in
its headers and its content, as long as no line begins with it. -/
structure SubResponse.IsMessage (grammar : HeaderGrammar) (boundary : Text)
    (part : SubResponse) : Prop where
  partHeaders : ∀ header ∈ part.partHeaders, IsHeader grammar header
  headers : ∀ header ∈ part.headers, IsHeader grammar header
  distinct : (part.headers.map fun header =>
    header.1.map Char.toLower).Nodup
  status : 100 ≤ part.statusCode ∧ part.statusCode < 1000
  oneLine : '\r' ∉ part.reason ∧ '\n' ∉ part.reason
  plain : ¬ Multipart.delimiter boundary <:+:
    SubResponse.block part.partHeaders ++ blank ++ part.statusLine

/-- What stands in front of the first boundary. -/
def opening (preamble : Option Text) : Text :=
  match preamble with
  | none => []
  | some preamble => preamble ++ crlf

/-- What stands behind the last boundary. -/
def closing (epilogue : Option Text) : Text :=
  match epilogue with
  | none => ['-', '-']
  | some epilogue => ['-', '-'] ++ crlf ++ epilogue

/-- A reply with these parts between a preamble and an epilogue. -/
def mixedText (boundary : Text) (preamble epilogue : Option Text)
    (parts : List SubResponse) : Text :=
  opening preamble ++
    parts.flatMap (fun part => Multipart.delimiter boundary ++ part.text) ++
    Multipart.delimiter boundary ++ closing epilogue

/-- The response is the one that was sent. -/
structure SubResponse.Answers (part : SubResponse) (response : Response) :
    Prop where
  status : response.status = part.statusCode
  headers : ∀ name, response.headers.get name =
    (part.headers.find? fun header =>
      header.1.map Char.toLower == name).map Prod.snd
  body : response.body = part.content

/-- Every response comes back, and nothing else does. -/
def ParsedCompletely (grammar : HeaderGrammar) (boundary s : Text)
    (parts : List SubResponse) : Prop :=
  ∃ results, Multipart.parse grammar boundary s = .ok results ∧
    List.Forall₂ (fun part (result : MixedPart) =>
      part.Answers result.intoResponse) parts results

/-! ## Headers that are read -/

theorem HeaderMap.get_insert {headers : HeaderMap} {header : Text × Text}
    {name value : Text}
    (found : (headers.insert header).get name = some value) :
    (header.1.map Char.toLower = name ∧ header.2 = value) ∨
      headers.get name = some value := by
  simp only [get, insert, List.find?_append, Option.map_eq_some_iff] at found
  obtain ⟨entry, chosen, rfl⟩ := found
  cases kept : (headers.filter fun other =>
      other.1 != header.1.map Char.toLower).find? (·.1 == name) with
  | none =>
      rw [kept, Option.none_or] at chosen
      have last := List.mem_singleton.mp (List.mem_of_find?_eq_some chosen)
      have named := List.find?_some chosen
      rw [last, beq_iff_eq] at named
      rw [last]
      exact Or.inl ⟨named, rfl⟩
  | some other =>
      rw [kept, Option.some_or, Option.some.injEq] at chosen
      subst chosen
      -- the header that is found is not one of the removed ones
      have named := List.find?_some kept
      have stays := (List.mem_filter.mp (List.mem_of_find?_eq_some kept)).2
      rw [beq_iff_eq] at named
      rw [named, bne_iff_ne] at stays
      have alike : ∀ item : Text × Text,
          (item.1 != header.1.map Char.toLower && item.1 == name) =
            (item.1 == name) := by
        intro item
        by_cases same : item.1 = name
        · simp [same, stays]
        · simp [same]
      rw [List.find?_filter] at kept
      simp only [Bool.decide_and, Bool.decide_eq_true, alike] at kept
      apply Or.inr
      rw [get, kept]
      rfl

theorem exists_line_of_get {grammar : HeaderGrammar} {lines : List Text}
    {found headers : HeaderMap} {name value : Text}
    (parsed : parseHeaders grammar found lines = .ok headers)
    (got : headers.get name = some value) :
    found.get name = some value ∨ ∃ line ∈ lines, ∃ key,
      splitOnce colon line = some (key, value) ∧
        key.map Char.toLower = name := by
  induction lines generalizing found with
  | nil =>
      cases parsed
      exact Or.inl got
  | cons line lines induction =>
      have later : ∀ {found}, parseHeaders grammar found lines = .ok headers →
          found.get name = some value ∨ ∃ other ∈ line :: lines, ∃ key,
            splitOnce colon other = some (key, value) ∧
              key.map Char.toLower = name := by
        intro found parsed
        rcases induction parsed with before | ⟨other, member, spec⟩
        · exact Or.inl before
        · exact Or.inr ⟨other, List.mem_cons_of_mem line member, spec⟩
      rw [parseHeaders] at parsed
      split at parsed
      · exact later parsed
      · next key text apart =>
          split at parsed
          · cases parsed
          · split at parsed
            · cases parsed
            · rcases later parsed with inserted | behind
              · rcases HeaderMap.get_insert inserted with ⟨same, rfl⟩ | before
                · exact Or.inr ⟨line, List.mem_cons_self, key, apart, same⟩
                · exact Or.inl before
              · exact Or.inr behind

/-! ## Where a boundary can be -/

namespace SubResponse

variable {grammar : HeaderGrammar} {boundary : Text} {part : SubResponse}

theorem not_mem_delimiter {c : Char} (dash : c ≠ '-')
    (absent : c ∉ boundary) : c ∉ Multipart.delimiter boundary := by
  simp [Multipart.delimiter, dash, absent]

/-- A boundary behind the status line is in a line of the headers or in the
content. -/
theorem cut_cases {headers : List (Text × Text)} {tail front more : Text}
    (oneLine : '\r' ∉ boundary ∧ '\n' ∉ boundary)
    (whole : block headers ++ blank ++ tail =
      front ++ Multipart.delimiter boundary ++ more) :
    (∃ earlier header later line, headers = earlier ++ header :: later ∧
      front = block earlier ++ crlf ++ line ∧ line <+: headerLine header ∧
      line.length < (headerLine header).length) ∨
    ∃ rest, front = block headers ++ blank ++ rest ∧
      tail = rest ++ Multipart.delimiter boundary ++ more := by
  have noReturn : '\r' ∉ Multipart.delimiter boundary :=
    not_mem_delimiter (by decide) oneLine.1
  have noNewline : '\n' ∉ Multipart.delimiter boundary :=
    not_mem_delimiter (by decide) oneLine.2
  -- no boundary within a line break
  have noBreak : ∀ {text start behind : Text}, '-' ∉ text →
      text ≠ start ++ Multipart.delimiter boundary ++ behind := by
    intro text start behind plain same
    apply plain
    rw [same]
    simp [Multipart.delimiter]
  induction headers generalizing front with
  | nil =>
      have shape : ['\r', '\n', '\r'] ++ '\n' :: tail =
          front ++ Multipart.delimiter boundary ++ more := whole
      rcases append_cases_of_foreign noNewline shape with
        ⟨behind, inside⟩ | ⟨rest, rfl, rfl⟩
      · exact absurd inside (noBreak (by decide))
      · exact Or.inr ⟨rest, rfl, rfl⟩
  | cons header headers induction =>
      have shape : ['\r'] ++ '\n' :: (headerLine header ++
          (block headers ++ blank ++ tail)) =
            front ++ Multipart.delimiter boundary ++ more := by
        rw [← whole]
        simp [block, crlf]
      rcases append_cases_of_foreign noNewline shape with
        ⟨behind, inside⟩ | ⟨rest, rfl, line⟩
      · exact absurd inside (noBreak (by decide))
      · obtain ⟨below, breaks⟩ : ∃ below,
            block headers ++ blank ++ tail = '\r' :: below := by
          cases headers with
          | nil => exact ⟨_, rfl⟩
          | cons next headers => exact ⟨_, rfl⟩
        rw [breaks] at line
        rcases append_cases_of_foreign noReturn line with
          ⟨behind, cut⟩ | ⟨rest, rfl, later⟩
        · apply Or.inl
          refine ⟨[], header, headers, rest, rfl, rfl, ?_, ?_⟩
          · rw [cut, List.append_assoc]
            exact List.prefix_append _ _
          · rw [cut]
            simp [Multipart.delimiter]
        · have inner : block headers ++ blank ++ tail =
              '\r' :: rest ++ Multipart.delimiter boundary ++ more := by
            rw [breaks, later]
            rfl
          rcases induction inner with
            ⟨earlier, other, others, text, rfl, same, starts, short⟩ |
              ⟨content, same, rfl⟩
          · apply Or.inl
            refine ⟨header :: earlier, other, others, text, rfl, ?_, starts,
              short⟩
            rw [same]
            simp [block, crlf]
          · apply Or.inr
            refine ⟨content, ?_, rfl⟩
            rw [same]
            simp [block, crlf]

/-! ## What is read of the first piece -/

/-- The head of a response is what stands in front of the first empty line
behind the headers of the part. -/
theorem parse_eq_ok {front response : Text} {result : MixedPart}
    (avoids : Avoids blank (blank ++ response) front)
    (parsed : MixedPart.parse grammar (front ++ blank ++ response) =
      .ok result) :
    result.content = (split blank response)[1]?.getD [] ∧
      parseHeaders grammar [] ((lines ((split blank response).headD [])).drop
        1) = .ok result.headers := by
  have outer : splitOnce blank (front ++ blank ++ response) =
      some (front, response) :=
    splitOnce_append (List.cons_ne_nil _ _) avoids
  simp only [MixedPart.parse, outer, Option.getD_some] at parsed
  cases partHeaders : parseHeaders grammar [] (lines front) with
  | error err =>
      rw [partHeaders] at parsed
      cases parsed
  | ok partHeaders' =>
      rw [partHeaders] at parsed
      cases headers : parseHeaders grammar []
          ((lines ((split blank response).headD [])).drop 1) with
      | error err =>
          simp only [headers] at parsed
          cases parsed
      | ok headers' =>
          simp only [headers, bind, Except.bind] at parsed
          split at parsed
          · cases parsed
            exact ⟨rfl, rfl⟩
          · cases parsed

theorem blank_ne_nil : blank ≠ [] :=
  List.cons_ne_nil _ _

theorem head_split_length (text : Text) :
    ((split blank text).headD []).length ≤ text.length := by
  obtain ⟨piece, pieces, whole, rfl | ⟨more, rfl⟩⟩ :=
    exists_split_cons blank_ne_nil text
  · rw [whole]
    exact le_refl _
  · rw [whole]
    simp

/-- The line break in front of a boundary is taken for content, or the
content ends before it. -/
theorem head_split_ne (content : Text) :
    (split blank (content ++ crlf)).headD [] ≠ content := by
  obtain ⟨piece, pieces, whole, rfl | ⟨more, cut⟩⟩ :=
    exists_split_cons blank_ne_nil (content ++ crlf)
  · rw [whole]
    simp [crlf]
  · rw [whole]
    rintro rfl
    rw [List.headD_cons, List.append_assoc] at cut
    have short := congrArg List.length (List.append_cancel_left cut)
    simp [crlf, blank] at short

theorem content_parse {tail : Text} {result : MixedPart}
    (isMessage : part.IsMessage grammar boundary)
    (parsed : MixedPart.parse grammar (block part.partHeaders ++ blank ++
      (part.statusLine ++ block part.headers ++ blank ++ tail)) =
        .ok result) :
    result.content = (split blank tail).headD [] := by
  have oneLine := statusLine_oneLine isMessage.status isMessage.oneLine
  have inner : split blank (part.statusLine ++ block part.headers ++ blank ++
      tail) = (part.statusLine ++ block part.headers) :: split blank tail := by
    apply split_append blank_ne_nil
    rw [avoids_append]
    exact ⟨avoids_of_not_mem oneLine.1, avoids_block isMessage.headers⟩
  have content := (parse_eq_ok (avoids_block isMessage.partHeaders) parsed).1
  rw [inner] at content
  rw [content, List.headD_eq_head?_getD, List.head?_eq_getElem?]
  rfl

theorem lines_block_append {first : Text} {headers : List (Text × Text)}
    (oneLine : '\n' ∉ first)
    (isHeader : ∀ header ∈ headers, IsHeader grammar header) (rest : Text) :
    lines (first ++ block headers ++ crlf ++ rest) =
      first :: (headers.map headerLine ++ lines rest) := by
  induction headers generalizing first with
  | nil =>
      rw [block, List.flatMap_nil, List.append_nil, lines_append oneLine]
      rfl
  | cons header headers induction =>
      obtain ⟨valid, later⟩ := List.forall_mem_cons.mp isHeader
      have shape : first ++ block (header :: headers) ++ crlf ++ rest =
          first ++ crlf ++ (headerLine header ++ block headers ++ crlf ++
            rest) := by simp [block]
      rw [shape, lines_append oneLine, induction valid.oneLine.2 later]
      rfl

theorem eq_of_mem_lines {line other : Text} (oneLine : '\n' ∉ line)
    (member : other ∈ lines line) : other = line := by
  by_cases empty : line = []
  · rw [empty] at member
    cases member
  · rw [lines_eq oneLine empty] at member
    exact List.mem_singleton.mp member

/-- A header is not read from a part of its line. -/
theorem headers_ne_of_cut {earlier later : List (Text × Text)}
    {header : Text × Text} {line : Text} {result : MixedPart}
    (isMessage : part.IsMessage grammar boundary)
    (split_ : part.headers = earlier ++ header :: later)
    (starts : line <+: headerLine header)
    (short : line.length < (headerLine header).length)
    (parsed : MixedPart.parse grammar (block part.partHeaders ++ blank ++
      (part.statusLine ++ block earlier ++ crlf ++ line)) = .ok result) :
    result.headers.get (header.1.map Char.toLower) ≠ some header.2 := by
  have oneLine := statusLine_oneLine isMessage.status isMessage.oneLine
  have known : ∀ other ∈ earlier ++ header :: later,
      IsHeader grammar other := by
    rw [← split_]
    exact isMessage.headers
  have before : ∀ other ∈ earlier, IsHeader grammar other := by
    intro other member
    exact known other (List.mem_append_left _ member)
  have valid := known header (by simp)
  have noReturn : '\r' ∉ line := fun member =>
    valid.oneLine.1 (starts.subset member)
  have noNewline : '\n' ∉ line := fun member =>
    valid.oneLine.2 (starts.subset member)
  -- there is no empty line, so all of it is the head
  have whole : split blank (part.statusLine ++ block earlier ++ crlf ++
      line) = [part.statusLine ++ block earlier ++ crlf ++ line] := by
    apply split_of_avoids
    rw [List.append_assoc, avoids_append, avoids_append]
    refine ⟨⟨avoids_of_not_mem oneLine.1, avoids_block before⟩, ?_⟩
    refine ⟨?_, ?_, avoids_of_not_mem noReturn⟩
    · intro begins
      have next : blank <+: '\r' :: '\n' :: (line ++ []) := begins
      rw [List.append_nil] at next
      simp only [blank, List.cons_prefix_cons, true_and] at next
      exact noReturn (next.subset List.mem_cons_self)
    · intro begins
      obtain ⟨more, same⟩ := begins
      cases same
  have headers := (parse_eq_ok (avoids_block isMessage.partHeaders) parsed).2
  rw [whole, List.headD_cons, lines_block_append oneLine.2 before line,
    List.drop_one, List.tail_cons] at headers
  intro got
  rcases exists_line_of_get headers got with nothing |
    ⟨other, member, key, apart, same⟩
  · cases nothing
  · rcases List.mem_append.mp member with inner | last
    · -- another header has another name
      obtain ⟨entry, among, rfl⟩ := List.mem_map.mp inner
      have own : splitOnce colon (headerLine entry) =
          some (entry.1, entry.2) :=
        splitOnce_append (List.cons_ne_nil _ _)
          (avoids_of_not_mem (before entry among).plain)
      rw [own, Option.some.injEq, Prod.mk.injEq] at apart
      rw [← apart.1] at same
      have distinct := isMessage.distinct
      rw [split_, List.map_append, List.map_cons] at distinct
      apply (List.nodup_append.mp distinct).2.2 _
        (List.mem_map_of_mem among) _ List.mem_cons_self
      exact same
    · -- the line is too short for the name and the value
      rw [eq_of_mem_lines noNewline last] at apart
      have parts := congrArg List.length (eq_of_splitOnce apart)
      have names := congrArg List.length same
      simp only [headerLine, List.length_append, List.length_map] at *
      omega

theorem find?_header {headers earlier later : List (Text × Text)}
    {header : Text × Text}
    (distinct : (headers.map fun header =>
      header.1.map Char.toLower).Nodup)
    (among : headers = earlier ++ header :: later) :
    (headers.find? fun other => other.1.map Char.toLower ==
      header.1.map Char.toLower) = some header := by
  subst among
  rw [List.map_append, List.map_cons] at distinct
  have others : (earlier.find? fun other => other.1.map Char.toLower ==
      header.1.map Char.toLower) = none := by
    rw [List.find?_eq_none]
    intro other member same
    rw [beq_iff_eq] at same
    exact (List.nodup_append.mp distinct).2.2 _ (List.mem_map_of_mem member)
      _ List.mem_cons_self same
  rw [List.find?_append, others, Option.none_or]
  exact List.find?_cons_of_pos (beq_self_eq_true _)

/-- The first piece of a response is not read as the response. -/
theorem not_answers_of_first_piece {piece : Text} {pieces : List Text}
    {result : MixedPart}
    (oneLine : '\r' ∉ boundary ∧ '\n' ∉ boundary)
    (isMessage : part.IsMessage grammar boundary)
    (first : split (Multipart.delimiter boundary) part.text =
      piece :: pieces)
    (parsed : MixedPart.parse grammar piece = .ok result) :
    ¬ part.Answers result.intoResponse := by
  intro answers
  obtain ⟨front, others, same, cut⟩ :=
    exists_split_cons (delimiter_ne_nil boundary) part.text
  rw [first, List.cons.injEq] at same
  obtain ⟨rfl, rfl⟩ := same
  rcases cut with rfl | ⟨more, cut⟩
  · -- the whole text, with the line break of the boundary
    have body : result.content = part.content := answers.body
    rw [content_parse isMessage parsed] at body
    exact head_split_ne part.content body
  · have noReturn : '\r' ∉ Multipart.delimiter boundary :=
      not_mem_delimiter (by decide) oneLine.1
    obtain ⟨below, breaks⟩ : ∃ below, block part.headers ++ blank ++
        (part.content ++ crlf) = '\r' :: below := by
      cases part.headers with
      | nil => exact ⟨_, rfl⟩
      | cons next headers => exact ⟨_, rfl⟩
    have shape : part.text = block part.partHeaders ++ blank ++
        part.statusLine ++ '\r' :: below := by
      rw [← breaks]
      simp [text]
    rw [shape] at cut
    rcases append_cases_of_foreign noReturn cut with
      ⟨tail, inside⟩ | ⟨rest, rfl, later⟩
    · apply isMessage.plain
      rw [inside]
      exact List.infix_append _ _ _
    · have inner : block part.headers ++ blank ++ (part.content ++ crlf) =
          '\r' :: rest ++ Multipart.delimiter boundary ++ more := by
        rw [breaks, later]
        rfl
      rcases cut_cases oneLine inner with
        ⟨earlier, header, others, line, among, same, starts, short⟩ |
          ⟨content, same, behind⟩
      · -- in a header
        have text : block part.partHeaders ++ blank ++ part.statusLine ++
            '\r' :: rest = block part.partHeaders ++ blank ++
              (part.statusLine ++ block earlier ++ crlf ++ line) := by
          rw [same]
          simp only [List.append_assoc]
        rw [text] at parsed
        apply headers_ne_of_cut isMessage among starts short parsed
        have got := answers.headers (header.1.map Char.toLower)
        rw [find?_header isMessage.distinct among] at got
        exact got
      · -- in the content
        have text : block part.partHeaders ++ blank ++ part.statusLine ++
            '\r' :: rest = block part.partHeaders ++ blank ++
              (part.statusLine ++ block part.headers ++ blank ++
                content) := by
          rw [same]
          simp only [List.append_assoc]
        rw [text] at parsed
        have body : result.content = part.content := answers.body
        rw [content_parse isMessage parsed] at body
        have shorter := head_split_length content
        rw [body] at shorter
        have ends : part.content ++ '\r' :: ['\n'] =
            content ++ Multipart.delimiter boundary ++ more := behind
        rcases append_cases_of_foreign noReturn ends with
          ⟨tail, longer⟩ | ⟨tail, -, inside⟩
        · have length := congrArg List.length longer
          simp only [Multipart.delimiter, List.length_append,
            List.length_cons] at length
          omega
        · have dash : '-' ∈ ['\n'] := by
            rw [inside]
            simp [Multipart.delimiter]
          revert dash
          simp

/-! ## The pieces of a reply -/

theorem exists_first_piece (boundary : Text) (part : SubResponse) :
    ∃ piece pieces,
    split (Multipart.delimiter boundary) part.text = piece :: pieces ∧
      Multipart.isPart piece = true := by
  obtain ⟨rest, shape⟩ : ∃ rest, part.text = '\r' :: rest := by
    cases headers : part.partHeaders with
    | nil => exact ⟨_, by rw [text, headers]; rfl⟩
    | cons header others => exact ⟨_, by rw [text, headers]; rfl⟩
  obtain ⟨piece, pieces, whole, rfl | ⟨more, cut⟩⟩ :=
    exists_split_cons (delimiter_ne_nil boundary) part.text
  · exact ⟨part.text, pieces, whole, part.isPart_text⟩
  · refine ⟨piece, pieces, whole, ?_⟩
    rw [shape] at cut
    cases piece with
    | nil => cases cut
    | cons c piece =>
        cases cut
        rfl

theorem last_of_text (oneLine : '\r' ∉ boundary ∧ '\n' ∉ boundary)
    (part : SubResponse) : ∀ last ∈ part.text.getLast?,
      last ∉ Multipart.delimiter boundary := by
  have ends : part.text.getLast? = some '\n' := by
    simp [text, crlf, List.getLast?_append]
  intro last isLast
  rw [ends] at isLast
  cases isLast
  exact not_mem_delimiter (by decide) oneLine.2

theorem last_of_opening (oneLine : '\r' ∉ boundary ∧ '\n' ∉ boundary)
    (preamble : Option Text) : ∀ last ∈ (opening preamble).getLast?,
      last ∉ Multipart.delimiter boundary := by
  intro last isLast
  cases preamble with
  | none => cases isLast
  | some preamble =>
      have ends : (opening (some preamble)).getLast? = some '\n' := by
        simp [opening, crlf, List.getLast?_append]
      rw [ends] at isLast
      cases isLast
      exact not_mem_delimiter (by decide) oneLine.2

/-- The preamble, the responses and the epilogue are split on their own. -/
theorem split_mixedText (oneLine : '\r' ∉ boundary ∧ '\n' ∉ boundary)
    (preamble epilogue : Option Text) (parts : List SubResponse) :
    split (Multipart.delimiter boundary)
        (mixedText boundary preamble epilogue parts) =
      split (Multipart.delimiter boundary) (opening preamble) ++
        (parts.flatMap fun part =>
          split (Multipart.delimiter boundary) part.text) ++
        split (Multipart.delimiter boundary) (closing epilogue) := by
  have filled := delimiter_ne_nil boundary
  have rest : ∀ first : Text,
      (∀ last ∈ first.getLast?, last ∉ Multipart.delimiter boundary) →
      split (Multipart.delimiter boundary) (first ++
        parts.flatMap (fun part => Multipart.delimiter boundary ++
          part.text) ++ Multipart.delimiter boundary ++ closing epilogue) =
        split (Multipart.delimiter boundary) first ++
          (parts.flatMap fun part =>
            split (Multipart.delimiter boundary) part.text) ++
          split (Multipart.delimiter boundary) (closing epilogue) := by
    induction parts with
    | nil =>
        intro first foreign
        rw [List.flatMap_nil, List.flatMap_nil, List.append_nil,
          List.append_nil]
        exact split_append_split filled foreign _
    | cons part parts induction =>
        intro first foreign
        have shape : first ++ (part :: parts).flatMap (fun part =>
            Multipart.delimiter boundary ++ part.text) ++
              Multipart.delimiter boundary ++ closing epilogue =
            first ++ Multipart.delimiter boundary ++ (part.text ++
              parts.flatMap (fun part => Multipart.delimiter boundary ++
                part.text) ++ Multipart.delimiter boundary ++
                  closing epilogue) := by
          simp [List.flatMap_cons]
        rw [shape, split_append_split filled foreign,
          induction part.text (last_of_text oneLine part)]
        simp [List.flatMap_cons]
  exact rest (opening preamble) (last_of_opening oneLine preamble)

theorem length_le_length_parts (boundary : Text) (parts : List SubResponse) :
    parts.length ≤ ((parts.flatMap fun part =>
      split (Multipart.delimiter boundary) part.text).filter
        Multipart.isPart).length := by
  induction parts with
  | nil => exact Nat.zero_le _
  | cons part parts induction =>
      obtain ⟨piece, pieces, whole, counts⟩ := exists_first_piece boundary part
      rw [List.flatMap_cons, whole, List.filter_append,
        List.filter_cons_of_pos counts]
      simp only [List.length_append, List.length_cons]
      omega

end SubResponse

theorem forall₂_of_mapM {α β : Type} {f : α → Except Error β}
    {items : List α} {results : List β} (mapped : items.mapM f = .ok results) :
    List.Forall₂ (fun item result => f item = .ok result) items results := by
  induction items generalizing results with
  | nil =>
      cases mapped
      exact .nil
  | cons item items induction =>
      rw [List.mapM_cons] at mapped
      cases first : f item with
      | error err =>
          rw [first] at mapped
          cases mapped
      | ok result =>
          cases rest : items.mapM f with
          | error err =>
              rw [first, rest] at mapped
              cases mapped
          | ok others =>
              rw [first, rest] at mapped
              cases mapped
              exact .cons first (induction rest)

open SubResponse

/-- A reply is read completely exactly when there is nothing to be read: it
has no response, and no piece of the preamble or of the epilogue is taken for
one. -/
theorem parsedCompletely_iff {grammar : HeaderGrammar} {boundary : Text}
    {parts : List SubResponse} (preamble epilogue : Option Text)
    (oneLine : '\r' ∉ boundary ∧ '\n' ∉ boundary)
    (isMessage : ∀ part ∈ parts, part.IsMessage grammar boundary) :
    ParsedCompletely grammar boundary
        (mixedText boundary preamble epilogue parts) parts ↔
      parts = [] ∧
        ∀ piece ∈ split (Multipart.delimiter boundary) (opening preamble) ++
          split (Multipart.delimiter boundary) (closing epilogue),
          Multipart.isPart piece = false := by
  have pieces := split_mixedText oneLine preamble epilogue parts
  constructor
  · rintro ⟨results, parsed, answered⟩
    rw [Multipart.parse, pieces, List.filter_append, List.filter_append]
      at parsed
    have read := forall₂_of_mapM parsed
    have counted := read.length_eq.trans answered.length_eq.symm
    cases parts with
    | nil =>
        refine ⟨rfl, ?_⟩
        rw [List.flatMap_nil, List.filter_nil, List.append_nil,
          ← List.filter_append] at counted
        have none_ := List.filter_eq_nil_iff.mp
          (List.eq_nil_of_length_eq_zero counted)
        intro piece member
        exact Bool.eq_false_iff.mpr (none_ piece member)
    | cons part parts =>
        obtain ⟨piece, others, whole, counts⟩ :=
          exists_first_piece boundary part
        obtain ⟨isFirst, -⟩ := List.forall_mem_cons.mp isMessage
        have later := length_le_length_parts boundary parts
        rw [List.flatMap_cons, whole, List.filter_append,
          List.filter_cons_of_pos counts] at read counted
        simp only [List.length_append, List.length_cons] at counted
        have noPreamble : (split (Multipart.delimiter boundary)
            (opening preamble)).filter Multipart.isPart = [] := by
          apply List.eq_nil_of_length_eq_zero
          omega
        rw [noPreamble] at read
        cases answered with
        | cons answers _ =>
            cases read with
            | cons first _ =>
                exact absurd answers
                  (not_answers_of_first_piece oneLine isFirst whole first)
  · rintro ⟨rfl, noPart⟩
    refine ⟨[], ?_, .nil⟩
    have nothing := List.filter_eq_nil_iff.mpr fun piece member =>
      Bool.eq_false_iff.mp (noPart piece member)
    rw [Multipart.parse, pieces, List.flatMap_nil, List.append_nil, nothing]
    rfl

/-- A grammar that accepts every name and every value. -/
def anyHeader : HeaderGrammar where
  name _ := true
  value _ := true

/-- `200 OK` with a content of three characters. -/
def abcResponse : SubResponse where
  contentId := 0
  partHeaders := [("Content-Type".toList, "application/http".toList)]
  statusCode := 200
  reason := ['O', 'K']
  headers := []
  content := ['a', 'b', 'c']

theorem isMessage_abcResponse : abcResponse.IsMessage anyHeader ['b'] := by
  constructor
  · intro header member
    rw [List.mem_singleton.mp member]
    exact ⟨rfl, rfl, by decide, by decide, by decide⟩
  · intro header member
    cases member
  · exact List.nodup_nil
  · decide
  · decide
  · decide

theorem parsedCompletely_iff_abc :
    ¬ ParsedCompletely anyHeader ['b']
      (mixedText ['b'] none (some []) [abcResponse]) [abcResponse] := by
  intro complete
  have empty := (parsedCompletely_iff none (some []) (by decide) (by
    intro part member
    rw [List.mem_singleton.mp member]
    exact isMessage_abcResponse)).mp complete
  cases empty.1

/-- The body `abc` comes back with a line break at its end. -/
theorem not_parsedCompletely_abc :
    abcResponse.IsMessage anyHeader ['b'] ∧
      ¬ ParsedCompletely anyHeader ['b']
        (mixedText ['b'] none none [abcResponse]) [abcResponse] := by
  refine ⟨isMessage_abcResponse, ?_⟩
  rintro ⟨results, parsed, answered⟩
  have computed : Multipart.parse anyHeader ['b']
      (mixedText ['b'] none none [abcResponse]) =
        .ok [⟨[("content-type".toList, "application/http".toList)], [],
          ['a', 'b', 'c', '\r', '\n'], 200⟩] := by
    rfl
  rw [computed] at parsed
  cases parsed
  cases answered with
  | cons answers _ => cases answers.body

end OpenDal
