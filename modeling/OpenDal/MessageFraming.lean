import OpenDal.Splitting

/-!
# Framed messages

Messages of the Internet are framed by line breaks.  A head is a number of
lines and an empty one, and what stands behind it is the content.  The body of
a multipart message holds entities, each behind a line that begins with `--`
and the boundary, and ends with a line that has another `--` behind them.  The
line break in front of such a line belongs to it and not to the entity.

What is put together in this way is taken apart again as long as no line of a
head begins like such a line and none begins in a content.

A request is a head whose first line has the method, the target and the
version, and a body.
-/

namespace MessageFraming

open Splitting

abbrev Octets : Type := List UInt8

def crlf : Octets :=
  [13, 10]

def blank : Octets :=
  [13, 10, 13, 10]

def dashes : Octets :=
  [45, 45]

/-! ## Heads -/

/-- A line of a head. -/
structure IsLine (line : Octets) : Prop where
  filled : line ≠ []
  oneLine : 13 ∉ line

def head (lines : List Octets) : Octets :=
  lines.flatMap (· ++ crlf) ++ crlf

/-- The lines up to the empty one, and what stands behind it. -/
def readHead (text : Octets) : Option (List Octets × Octets) :=
  (splitOnce blank (crlf ++ text)).map fun (front, rest) =>
    ((split crlf front).drop 1, rest)

/-- A line break in front of the head, and it is every line that has one in
front of it. -/
theorem crlf_append_head (lines : List Octets) :
    crlf ++ head lines = lines.flatMap (crlf ++ ·) ++ blank := by
  induction lines with
  | nil => rfl
  | cons line lines induction =>
      rw [head] at induction
      rw [head, List.flatMap_cons, List.flatMap_cons, List.append_assoc,
        List.append_assoc, List.append_assoc, ← induction]
      simp only [List.append_assoc]

theorem avoids_crlf {text follow : Octets} (oneLine : 13 ∉ text) :
    Avoids crlf follow text :=
  avoids_of_not_mem oneLine

theorem avoids_blank {lines : List Octets} {follow : Octets}
    (isLine : ∀ line ∈ lines, IsLine line) :
    Avoids blank follow (lines.flatMap (crlf ++ ·)) := by
  induction lines with
  | nil => trivial
  | cons line lines induction =>
      obtain ⟨⟨filled, oneLine⟩, later⟩ := List.forall_mem_cons.mp isLine
      have shape : (line :: lines).flatMap (crlf ++ ·) =
          13 :: ((10 :: line) ++ lines.flatMap (crlf ++ ·)) := rfl
      rw [shape]
      refine ⟨?_, ?_⟩
      · -- a line break is followed by the first octet of a line
        intro starts
        obtain ⟨octet, rest, rfl⟩ := List.exists_cons_of_ne_nil filled
        simp only [blank, List.cons_append, List.cons_prefix_cons] at starts
        apply oneLine
        rw [← starts.2.2.1]
        exact List.mem_cons_self
      · rw [avoids_append]
        refine ⟨avoids_of_not_mem ?_, induction later⟩
        rw [List.mem_cons, not_or]
        exact ⟨by decide, oneLine⟩

theorem readHead_head {lines : List Octets} (rest : Octets)
    (isLine : ∀ line ∈ lines, IsLine line) :
    readHead (head lines ++ rest) = some (lines, rest) := by
  have apart : splitOnce blank (crlf ++ (head lines ++ rest)) =
      some (lines.flatMap (crlf ++ ·), rest) := by
    rw [← List.append_assoc, crlf_append_head]
    exact splitOnce_append (by decide) (avoids_blank isLine)
  have whole : split crlf (lines.flatMap (crlf ++ ·)) = [] :: lines := by
    apply @split_join _ _ crlf (by decide) [] lines
    intro line member
    rcases List.mem_cons.mp member with rfl | member
    · trivial
    · exact avoids_crlf (isLine line member).oneLine
  rw [readHead, apart]
  show some ((split crlf (lines.flatMap (crlf ++ ·))).drop 1, rest) = _
  rw [whole]
  rfl

/-! ## Multipart bodies -/

/-- The lines of a head, and a content. -/
structure Entity where
  lines : List Octets
  content : Octets
deriving DecidableEq, Repr

def Entity.text (entity : Entity) : Octets :=
  head entity.lines ++ entity.content

def dashBoundary (boundary : Octets) : Octets :=
  dashes ++ boundary

def delimiter (boundary : Octets) : Octets :=
  crlf ++ dashBoundary boundary

def encode (boundary : Octets) (entities : List Entity) : Octets :=
  entities.flatMap (fun entity =>
    dashBoundary boundary ++ crlf ++ entity.text ++ crlf) ++
      dashBoundary boundary ++ dashes ++ crlf

/-- The entities behind the delimiters, up to the one that closes the body.
What stands behind a delimiter on its line is skipped. -/
def decodePieces : List Octets → Option (List Entity)
  | [] => none
  | piece :: pieces =>
      if dashes.isPrefixOf piece then
        some []
      else do
        let (_, text) ← splitOnce crlf piece
        let (lines, content) ← readHead text
        let entities ← decodePieces pieces
        some (⟨lines, content⟩ :: entities)

/-- What stands in front of the first delimiter is skipped. -/
def decode (boundary body : Octets) : Option (List Entity) :=
  decodePieces ((split (delimiter boundary) (crlf ++ body)).drop 1)

/-- An entity that can stand in a body with this boundary. -/
structure Entity.Fits (boundary : Octets) (entity : Entity) : Prop where
  isLine : ∀ line ∈ entity.lines, IsLine line
  apart : ∀ line ∈ entity.lines, ¬ dashBoundary boundary <+: line
  content : ¬ delimiter boundary <:+: crlf ++ entity.content

variable {boundary : Octets} {entity : Entity} {entities : List Entity}

theorem thirteen_not_mem_dashBoundary (oneLine : 13 ∉ boundary) :
    13 ∉ dashBoundary boundary := by
  simp [dashBoundary, dashes, oneLine]

theorem avoids_delimiter {lines : List Octets} {follow : Octets}
    (oneLine : 13 ∉ boundary) (isLine : ∀ line ∈ lines, IsLine line)
    (apart : ∀ line ∈ lines, ¬ dashBoundary boundary <+: line) :
    Avoids (delimiter boundary) (13 :: follow)
      (lines.flatMap (crlf ++ ·)) := by
  induction lines with
  | nil => trivial
  | cons line lines induction =>
      obtain ⟨isFirst, isLater⟩ := List.forall_mem_cons.mp isLine
      obtain ⟨first, later⟩ := List.forall_mem_cons.mp apart
      have breaks : ∃ more,
          lines.flatMap (crlf ++ ·) ++ 13 :: follow = 13 :: more := by
        cases lines with
        | nil => exact ⟨follow, rfl⟩
        | cons next lines => exact ⟨_, rfl⟩
      have shape : (line :: lines).flatMap (crlf ++ ·) =
          13 :: ((10 :: line) ++ lines.flatMap (crlf ++ ·)) := rfl
      rw [shape]
      refine ⟨?_, ?_⟩
      · intro starts
        obtain ⟨more, next⟩ := breaks
        apply first
        apply isPrefix_of_foreign (thirteen_not_mem_dashBoundary oneLine)
        rw [List.append_assoc, next] at starts
        simp only [delimiter, crlf, List.cons_append, List.nil_append,
          List.cons_prefix_cons, true_and] at starts
        exact starts
      · rw [avoids_append]
        refine ⟨avoids_of_not_mem ?_, induction isLater later⟩
        rw [List.mem_cons, not_or]
        exact ⟨by decide, isFirst.oneLine⟩

/-- No delimiter starts in an entity, nor in the line break in front of
it. -/
theorem Entity.Fits.avoids (oneLine : 13 ∉ boundary)
    (fits : entity.Fits boundary) :
    Avoids (delimiter boundary) (delimiter boundary ++ [])
      (crlf ++ entity.text) := by
  have shape : crlf ++ entity.text =
      entity.lines.flatMap (crlf ++ ·) ++
        (crlf ++ (crlf ++ entity.content)) := by
    rw [Entity.text, ← List.append_assoc, crlf_append_head]
    simp [blank, crlf]
  have foreign : 13 ∉ 10 :: dashBoundary boundary := by
    rw [List.mem_cons, not_or]
    exact ⟨by decide, thirteen_not_mem_dashBoundary oneLine⟩
  rw [shape, avoids_append]
  constructor
  · exact avoids_delimiter oneLine fits.isLine fits.apart
  · rw [avoids_append]
    constructor
    · -- the empty line is followed by a line break
      refine ⟨?_, ?_, trivial⟩
      · intro starts
        simp [delimiter, dashBoundary, dashes, crlf] at starts
      · intro starts
        simp [delimiter, crlf] at starts
    · exact avoids_self foreign fits.content

theorem crlf_append_encode (boundary : Octets) (entities : List Entity) :
    crlf ++ encode boundary entities =
      (entities.map (fun entity => crlf ++ entity.text) ++
        [dashes ++ crlf]).flatMap (delimiter boundary ++ ·) := by
  induction entities with
  | nil => simp [encode, delimiter]
  | cons entity entities induction =>
      have step : crlf ++ encode boundary (entity :: entities) =
          delimiter boundary ++ (crlf ++ entity.text) ++
            (crlf ++ encode boundary entities) := by
        simp [encode, delimiter]
      rw [step, induction]
      rfl

theorem decodePieces_map (rest : List Octets)
    (fits : ∀ entity ∈ entities, entity.Fits boundary) :
    decodePieces (entities.map (fun entity => crlf ++ entity.text) ++
      (dashes ++ crlf) :: rest) = some entities := by
  induction entities with
  | nil => rfl
  | cons entity entities induction =>
      obtain ⟨first, later⟩ := List.forall_mem_cons.mp fits
      have opens : dashes.isPrefixOf (crlf ++ entity.text) = false := rfl
      have line : splitOnce crlf (crlf ++ entity.text) =
          some ([], entity.text) := by
        have opening : Avoids crlf (crlf ++ entity.text) [] := trivial
        exact splitOnce_append (by decide) opening
      have readText : readHead entity.text =
          some (entity.lines, entity.content) :=
        readHead_head entity.content first.isLine
      rw [List.map_cons, List.cons_append, decodePieces, opens]
      simp only [Bool.false_eq_true, if_false, line, readText,
        induction later, Option.bind_eq_bind, Option.bind_some]

theorem decode_encode (oneLine : 13 ∉ boundary)
    (fits : ∀ entity ∈ entities, entity.Fits boundary) :
    decode boundary (encode boundary entities) = some entities := by
  have pieces : split (delimiter boundary)
      (crlf ++ encode boundary entities) =
        [] :: (entities.map (fun entity => crlf ++ entity.text) ++
          [dashes ++ crlf]) := by
    rw [crlf_append_encode]
    apply @split_join _ _ _ (by simp [delimiter, crlf]) []
    intro piece member
    rcases List.mem_cons.mp member with rfl | member
    · trivial
    · rcases List.mem_append.mp member with inner | last
      · obtain ⟨entity, known, rfl⟩ := List.mem_map.mp inner
        exact (fits entity known).avoids oneLine
      · rw [List.mem_singleton.mp last]
        simp [Avoids, delimiter, dashBoundary, dashes, crlf]
  rw [decode, pieces, List.drop_one, List.tail_cons]
  exact decodePieces_map [] fits

/-! ## Requests -/

/-- A request as its text says it. -/
structure RequestMessage where
  method : Octets
  path : Octets
  query : Option Octets
  version : Octets
  lines : List Octets
  body : Octets
deriving DecidableEq, Repr

def requestLine (method target version : Octets) : Octets :=
  method ++ [32] ++ (target ++ [32] ++ version)

/-- The path and the query of a target. -/
def readTarget (target : Octets) : Octets × Option Octets :=
  match splitOnce [63] target with
  | none => (target, none)
  | some (path, query) => (path, some query)

/-- A request line, a head and the body. -/
def readRequest (text : Octets) : Option RequestMessage := do
  let (lines, body) ← readHead text
  let first ← lines.head?
  let (method, rest) ← splitOnce [32] first
  let (target, version) ← splitOnce [32] rest
  let (path, query) := readTarget target
  some ⟨method, path, query, version, lines.tail, body⟩

theorem readRequest_head {method target version : Octets}
    {lines : List Octets} (body : Octets) (word : 32 ∉ method)
    (targetWord : 32 ∉ target)
    (isFirst : IsLine (requestLine method target version))
    (isLine : ∀ line ∈ lines, IsLine line) :
    readRequest (head (requestLine method target version :: lines) ++ body) =
      some ⟨method, (readTarget target).1, (readTarget target).2, version,
        lines, body⟩ := by
  have whole := readHead_head body (List.forall_mem_cons.mpr
    ⟨isFirst, isLine⟩)
  have first : splitOnce [32] (requestLine method target version) =
      some (method, target ++ [32] ++ version) :=
    splitOnce_append (List.cons_ne_nil _ _) (avoids_of_not_mem word)
  have second : splitOnce [32] (target ++ [32] ++ version) =
      some (target, version) :=
    splitOnce_append (List.cons_ne_nil _ _) (avoids_of_not_mem targetWord)
  rw [readRequest, whole]
  simp only [Option.bind_eq_bind, Option.bind_some, List.head?_cons, first,
    second, List.tail_cons]

theorem readTarget_path {path : Octets} (noMark : 63 ∉ path) :
    readTarget path = (path, none) := by
  rw [readTarget, splitOnce_of_avoids (avoids_of_not_mem noMark)]

theorem readTarget_query {path : Octets} (noMark : 63 ∉ path)
    (query : Octets) : readTarget (path ++ [63] ++ query) =
      (path, some query) := by
  rw [readTarget, splitOnce_append (List.cons_ne_nil _ _)
    (avoids_of_not_mem noMark)]

end MessageFraming
