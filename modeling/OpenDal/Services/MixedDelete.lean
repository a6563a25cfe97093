import OpenDal.Raw.MixedPart
import OpenDal.Raw.Root
import OpenDal.Types.Deleter

/-!
# Batch deletion by position: `AzblobDeleter` and `GcsDeleter`

Both send a batch as one `multipart/mixed` request, in which the part of the
path at position `i` carries `i` as its `Content-ID`.  The parts of a reply
carry these ids as well, but neither deleter reads them: the first part is
taken for the first path, and so on.

`AzblobDeleter` refuses a reply with another number of parts; `GcsDeleter`
does not count them.

What counts is what `Multipart::parse` finds.  These are the parts of the
reply if there is nothing before the first of them and the boundary is
announced as it is; text before it is found as one more part, and behind a
boundary in quotes nothing is found.
-/

namespace OpenDal

open Path

/-- The part of a request that deletes one object. -/
structure RequestPart where
  contentId : Nat
  key : Path
deriving DecidableEq, Repr

/-- The parts of `azblob_batch_delete` and `gcs_delete_objects`. -/
def requestParts (root : Root) (paths : List Path) : List RequestPart :=
  paths.zipIdx.map fun (path, idx) => ⟨idx, buildAbsPath root.path path⟩

/-- What `parse_error` makes of a kind and a text. -/
def statusError (kind : ErrorKind) (retryable : Bool) (message : String)
    (context : List (String × String)) : Error :=
  let err : Error := { Error.new kind message with context }
  if retryable then err.setTemporary else err

/-- The loop over the parts; `none` is the panic of `paths[i]`. -/
def pairParts (deletes : Nat → Bool) (parseError : Response → Error)
    (paths : List Path) :
    Nat → List MixedPart → BatchDeleteResult → Option BatchDeleteResult
  | _, [], result => some result
  | i, part :: parts, result =>
      let resp := part.intoResponse
      match paths[i]? with
      | none => none
      | some path =>
          -- deleting not existing objects is ok
          if deletes resp.status then
            pairParts deletes parseError paths (i + 1) parts
              { result with
                succeeded := result.succeeded ++ [(path, OpDelete.new)] }
          else
            pairParts deletes parseError paths (i + 1) parts
              { result with
                failed := result.failed ++
                  [(path, OpDelete.new, parseError resp)] }

/-- The end of `delete_batch`; `none` is the panic of
`batched_result.failed.remove(0)`. -/
def conclude (result : BatchDeleteResult) :
    Option (Except Error BatchDeleteResult) :=
  -- if no object is deleted, return directly
  if result.succeeded.isEmpty then
    match result.failed with
    | [] => none
    | (_, _, err) :: _ => some (.error err)
  else
    some (.ok result)

/-! ## `AzblobDeleter` -/

structure AzblobCore where
  root : Root
  /-- The server, or the error of a request that was not answered. -/
  send : List RequestPart → Except Error Response
  /-- The headers that can be parsed. -/
  grammar : HeaderGrammar
  /-- The message and the context of an error, which are read from the body
  and the headers. -/
  describe : Response → String × List (String × String)

namespace AzblobCore

def parseError (core : AzblobCore) (resp : Response) : Error :=
  let (kind, retryable) :=
    if resp.status = 404 then (ErrorKind.notFound, false)
    else if resp.status = 403 then (.permissionDenied, false)
    else if resp.status = 412 ∨ resp.status = 304 ∨ resp.status = 409 then
      (.conditionNotMatch, false)
    else if resp.status = 500 ∨ resp.status = 502 ∨ resp.status = 503 ∨
        resp.status = 504 then
      (.unexpected, true)
    else (.unexpected, false)
  let (message, context) := core.describe resp
  statusError kind retryable message context

end AzblobCore

structure AzblobDeleter where
  core : AzblobCore

namespace AzblobDeleter

/-- `StatusCode::ACCEPTED` or `StatusCode::NOT_FOUND`. -/
def deletes (status : Nat) : Bool :=
  status == 202 || status == 404

def deleteBatch (deleter : AzblobDeleter) (batch : List (Path × OpDelete)) :
    Option (Except Error BatchDeleteResult) :=
  let core := deleter.core
  let paths := batch.map Prod.fst
  match core.send (requestParts core.root paths) with
  | .error err => some (.error err)
  | .ok resp =>
      -- check response status
      if resp.status ≠ 202 then
        some (.error (core.parseError resp))
      else
        match parseMultipartBoundary resp.headers with
        | none => some (.error (.new .unexpected
            "invalid response: no boundary provided in header"))
        | some boundary =>
            match Multipart.parse core.grammar boundary resp.body with
            | .error err => some (.error err)
            | .ok parts =>
                if paths.length ≠ parts.length then
                  some (.error (.new .unexpected
                    "invalid batch response, paths and response parts don't match"))
                else
                  (pairParts deletes core.parseError paths 0 parts
                    ⟨[], []⟩).bind conclude

end AzblobDeleter

/-! ## `GcsDeleter` -/

structure GcsDeleteCore where
  root : Root
  send : List RequestPart → Except Error Response
  grammar : HeaderGrammar
  describe : Response → String × List (String × String)

namespace GcsDeleteCore

def parseError (core : GcsDeleteCore) (resp : Response) : Error :=
  let (kind, retryable) :=
    if resp.status = 404 then (ErrorKind.notFound, false)
    else if resp.status = 403 then (.permissionDenied, false)
    else if resp.status = 412 ∨ resp.status = 304 then
      (.conditionNotMatch, false)
    else if resp.status = 429 then (.rateLimited, true)
    else if resp.status = 500 ∨ resp.status = 502 ∨ resp.status = 503 ∨
        resp.status = 504 then
      (.unexpected, true)
    else (.unexpected, false)
  let (message, context) := core.describe resp
  statusError kind retryable message context

end GcsDeleteCore

structure GcsDeleter where
  core : GcsDeleteCore

/-- `StatusCode::is_success`. -/
def isSuccess (status : Nat) : Bool :=
  200 ≤ status && status < 300

namespace GcsDeleter

/-- A success or `StatusCode::NOT_FOUND`. -/
def deletes (status : Nat) : Bool :=
  isSuccess status || status == 404

def deleteBatch (deleter : GcsDeleter) (batch : List (Path × OpDelete)) :
    Option (Except Error BatchDeleteResult) :=
  let core := deleter.core
  let paths := batch.map Prod.fst
  match core.send (requestParts core.root paths) with
  | .error err => some (.error err)
  | .ok resp =>
      if resp.status ≠ 200 then
        some (.error (core.parseError resp))
      else
        match parseMultipartBoundary resp.headers with
        | none => some (.error (.new .unexpected
            "gcs batch delete response content type is empty"))
        | some boundary =>
            match Multipart.parse core.grammar boundary resp.body with
            | .error err => some (.error err)
            | .ok parts =>
                (pairParts deletes core.parseError paths 0 parts
                  ⟨[], []⟩).bind conclude

end GcsDeleter

/-! ## Replies -/

/-- A reply whose parts echo the ids of the request, in any number and
order. -/
structure Replies (grammar : HeaderGrammar) (status : Nat)
    (parts : List SubResponse) (resp : Response) : Prop where
  status : resp.status = status
  body : ∃ boundary, IsBoundary boundary ∧
    resp.headers.get "content-type".toList =
      some ("multipart/mixed; ".toList ++ "boundary=".toList ++ boundary) ∧
    (∀ part ∈ parts, part.IsPart grammar boundary) ∧
    resp.body = replyText boundary parts

theorem parse_reply {grammar : HeaderGrammar} {status : Nat}
    {parts : List SubResponse} {resp : Response}
    (replies : Replies grammar status parts resp) :
    ∃ boundary, parseMultipartBoundary resp.headers = some boundary ∧
      Multipart.parse grammar boundary resp.body =
        .ok (parts.map SubResponse.toMixedPart) := by
  obtain ⟨boundary, isBoundary, announced, isPart, body⟩ := replies.body
  refine ⟨boundary, parseMultipartBoundary_eq isBoundary announced, ?_⟩
  rw [body]
  exact SubResponse.parse_replyText isBoundary isPart

/-- The parts that `delete_batch` finds in a reply, if it does not return an
error before. -/
def foundParts (grammar : HeaderGrammar) (status : Nat) (resp : Response) :
    Option (List MixedPart) :=
  if resp.status ≠ status then
    none
  else
    (parseMultipartBoundary resp.headers).bind fun boundary =>
      (Multipart.parse grammar boundary resp.body).toOption

theorem foundParts_of_replies {grammar : HeaderGrammar} {status : Nat}
    {parts : List SubResponse} {resp : Response}
    (replies : Replies grammar status parts resp) :
    foundParts grammar status resp =
      some (parts.map SubResponse.toMixedPart) := by
  obtain ⟨boundary, announced, parsed⟩ := parse_reply replies
  have accepted : ¬ resp.status ≠ status := by simp [replies.status]
  rw [foundParts, if_neg accepted, announced, Option.bind_some, parsed]
  rfl

/-- What is asked of a batch deletion: it does not panic, a path that
succeeded has a part of its own that says so, and every path is reported once
unless there is an error. -/
structure Attributed (paths : List Path) (parts : List SubResponse)
    (outcome : Option (Except Error BatchDeleteResult)) : Prop where
  returns : outcome ≠ none
  succeeded : ∀ result, outcome = some (.ok result) →
    ∀ pair ∈ result.succeeded, ∃ i, paths[i]? = some pair.1 ∧
      ∃ part ∈ parts, part.contentId = i ∧
        (isSuccess part.statusCode = true ∨ part.statusCode = 404)
  reported : ∀ result, outcome = some (.ok result) →
    (result.succeeded.map Prod.fst ++ result.failed.map Prod.fst).Perm paths

/-- Every path that is taken for deleted, because of what is found at its
position, has a part with its id that says so. -/
def Corresponds (deletes : Nat → Bool) (paths : List Path)
    (found : List MixedPart) (parts : List SubResponse) : Prop :=
  ∀ pair ∈ paths.zip found, deletes pair.2.statusCode = true →
    ∃ i, paths[i]? = some pair.1 ∧ ∃ part ∈ parts, part.contentId = i ∧
      (isSuccess part.statusCode = true ∨ part.statusCode = 404)

/-! ## What the loop returns -/

section Pairing

variable {deletes : Nat → Bool} {parseError : Response → Error}
  {paths : List Path} {found : List MixedPart} {parts : List SubResponse}

/-- The paths that are taken for deleted. -/
def succeededPairs (deletes : Nat → Bool) (pairs : List (Path × MixedPart)) :
    List (Path × OpDelete) :=
  (pairs.filter fun (_, part) => deletes part.statusCode).map
    fun (path, _) => (path, OpDelete.new)

def failedPairs (deletes : Nat → Bool) (parseError : Response → Error)
    (pairs : List (Path × MixedPart)) : List (Path × OpDelete × Error) :=
  (pairs.filter fun (_, part) => !deletes part.statusCode).map
    fun (path, part) => (path, OpDelete.new, parseError part.intoResponse)

/-- Too many parts are a panic. -/
theorem pairParts_eq (mixed : List MixedPart) (i : Nat)
    (result : BatchDeleteResult) (start : i ≤ paths.length) :
    pairParts deletes parseError paths i mixed result =
      if i + mixed.length ≤ paths.length then
        some
          { succeeded := result.succeeded ++
              succeededPairs deletes ((paths.drop i).zip mixed)
            failed := result.failed ++
              failedPairs deletes parseError ((paths.drop i).zip mixed) }
      else
        none := by
  induction mixed generalizing i result with
  | nil => simp [pairParts, succeededPairs, failedPairs, start]
  | cons part mixed induction =>
      by_cases inside : i < paths.length
      · have found : paths[i]? = some paths[i] := List.getElem?_eq_getElem inside
        have step : paths.drop i = paths[i] :: paths.drop (i + 1) :=
          List.drop_eq_getElem_cons inside
        have count : i + (part :: mixed).length = i + 1 + mixed.length := by
          rw [List.length_cons]
          omega
        rw [count, step, List.zip_cons_cons]
        by_cases deleted : deletes part.statusCode = true
        · simp only [pairParts, found, MixedPart.intoResponse, deleted, if_true]
          rw [induction _ _ inside]
          simp [succeededPairs, failedPairs, deleted]
        · rw [Bool.not_eq_true] at deleted
          simp only [pairParts, found, MixedPart.intoResponse, deleted,
            Bool.false_eq_true, if_false]
          rw [induction _ _ inside]
          simp [succeededPairs, failedPairs, deleted, MixedPart.intoResponse]
      · have missing : paths[i]? = none := List.getElem?_eq_none (by omega)
        have tooMany : ¬ i + (part :: mixed).length ≤ paths.length := by
          rw [List.length_cons]
          omega
        rw [if_neg tooMany]
        simp only [pairParts, missing]

theorem reported_pairs (deletes : Nat → Bool)
    (parseError : Response → Error) (pairs : List (Path × MixedPart)) :
    ((succeededPairs deletes pairs).map Prod.fst ++
      (failedPairs deletes parseError pairs).map Prod.fst).Perm
      (pairs.map Prod.fst) := by
  have whole := (List.filter_append_perm
    (fun pair : Path × MixedPart => deletes pair.2.statusCode) pairs).map
    Prod.fst
  rw [List.map_append] at whole
  simpa [succeededPairs, failedPairs, Function.comp_def] using whole

/-- The loop over the parts of a reply, and what follows it. -/
def pairReply (deletes : Nat → Bool) (parseError : Response → Error)
    (paths : List Path) (found : List MixedPart) :
    Option (Except Error BatchDeleteResult) :=
  (pairParts deletes parseError paths 0 found ⟨[], []⟩).bind conclude

theorem pairReply_eq :
    pairReply deletes parseError paths found =
      if found.length ≤ paths.length then
        conclude
          { succeeded := succeededPairs deletes (paths.zip found)
            failed := failedPairs deletes parseError (paths.zip found) }
      else
        none := by
  rw [pairReply, pairParts_eq _ 0 _ (Nat.zero_le _)]
  simp only [Nat.zero_add, List.drop_zero, List.nil_append]
  split
  · rfl
  · rfl

theorem reported_iff (fits : found.length ≤ paths.length) :
    ((succeededPairs deletes (paths.zip found)).map Prod.fst ++
      (failedPairs deletes parseError (paths.zip found)).map Prod.fst).Perm
      paths ↔ found.length = paths.length := by
  have pairs := reported_pairs deletes parseError (paths.zip found)
  constructor
  · intro permuted
    have size := (pairs.symm.trans permuted).length_eq
    rw [List.length_map, List.length_zip] at size
    omega
  · intro same
    rw [List.map_fst_zip (by omega)] at pairs
    exact pairs

theorem succeeded_iff :
    (∀ pair ∈ succeededPairs deletes (paths.zip found),
      ∃ i, paths[i]? = some pair.1 ∧ ∃ part ∈ parts, part.contentId = i ∧
        (isSuccess part.statusCode = true ∨ part.statusCode = 404)) ↔
      Corresponds deletes paths found parts := by
  constructor
  · intro backed pair member deleted
    exact backed (pair.1, OpDelete.new) (List.mem_map.mpr
      ⟨pair, List.mem_filter.mpr ⟨member, deleted⟩, rfl⟩)
  · intro corresponds pair member
    obtain ⟨⟨path, mixed⟩, chosen, rfl⟩ := List.mem_map.mp member
    obtain ⟨zipped, deleted⟩ := List.mem_filter.mp chosen
    exact corresponds (path, mixed) zipped deleted

theorem succeededPairs_eq_nil_iff :
    succeededPairs deletes (paths.zip found) = [] ↔
      ∀ pair ∈ paths.zip found, deletes pair.2.statusCode = false := by
  rw [succeededPairs, List.map_eq_nil_iff, List.filter_eq_nil_iff]
  simp

theorem attributed_pairReply_iff :
    Attributed paths parts (pairReply deletes parseError paths found) ↔
      found ≠ [] ∧ found.length ≤ paths.length ∧
        ((∀ pair ∈ paths.zip found, deletes pair.2.statusCode = false) ∨
          found.length = paths.length ∧
            Corresponds deletes paths found parts) := by
  rw [pairReply_eq]
  by_cases fits : found.length ≤ paths.length
  · rw [if_pos fits]
    by_cases nothing :
        ∀ pair ∈ paths.zip found, deletes pair.2.statusCode = false
    · have empty := succeededPairs_eq_nil_iff.mpr nothing
      rw [conclude, empty]
      simp only [List.isEmpty_nil, if_true]
      cases failures : failedPairs deletes parseError
          (paths.zip found) with
      | nil =>
          -- without parts there is no failure either
          have size := (reported_pairs deletes parseError
            (paths.zip found)).length_eq
          rw [empty, failures] at size
          simp only [List.map_nil, List.append_nil, List.length_nil,
            List.length_map, List.length_zip] at size
          have none : found = [] := by
            rw [← List.length_eq_zero_iff]
            omega
          refine iff_of_false (fun attributed => attributed.returns rfl) ?_
          intro condition
          exact condition.1 none
      | cons failure others =>
          have some : found ≠ [] := by
            intro none
            simp [none, failedPairs] at failures
          refine iff_of_true ⟨?_, ?_, ?_⟩ ⟨some, fits, .inl nothing⟩
          · intro panics
            cases panics
          · intro result returned
            cases returned
          · intro result returned
            cases returned
    · have filled := mt succeededPairs_eq_nil_iff.mp nothing
      have notEmpty : (succeededPairs deletes
          (paths.zip found)).isEmpty = false := by
        simp [filled]
      have some : found ≠ [] := by
        intro none
        apply nothing
        intro pair member
        simp [none] at member
      rw [conclude, notEmpty]
      simp only [Bool.false_eq_true, if_false]
      constructor
      · intro attributed
        have backed := attributed.succeeded _ rfl
        have reported := attributed.reported _ rfl
        exact ⟨some, fits, .inr ⟨(reported_iff fits).mp reported,
          succeeded_iff.mp backed⟩⟩
      · intro condition
        rcases condition.2.2 with none | ⟨size, corresponds⟩
        · exact absurd none nothing
        · refine ⟨?_, ?_, ?_⟩
          · intro panics
            cases panics
          · intro result returned
            cases returned
            exact succeeded_iff.mpr corresponds
          · intro result returned
            cases returned
            exact (reported_iff fits).mpr size
  · rw [if_neg fits]
    refine iff_of_false (fun attributed => attributed.returns rfl) ?_
    intro condition
    exact fits condition.2.1

end Pairing

/-! ## Both services -/

section Services

variable {batch : List (Path × OpDelete)} {parts : List SubResponse}
  {resp : Response}

theorem attributed_error (paths : List Path) (parts : List SubResponse)
    (err : Error) : Attributed paths parts (some (.error err)) where
  returns := fun panics => nomatch panics
  succeeded := fun _ returned => nomatch returned
  reported := fun _ returned => nomatch returned

theorem azblob_deleteBatch_cases {deleter : AzblobDeleter}
    (sent : deleter.core.send
      (requestParts deleter.core.root (batch.map Prod.fst)) = .ok resp) :
    (foundParts deleter.core.grammar 202 resp = none ∧
      ∃ err, deleter.deleteBatch batch = some (.error err)) ∨
    ∃ found, foundParts deleter.core.grammar 202 resp = some found ∧
      deleter.deleteBatch batch =
        if batch.length ≠ found.length then
          some (.error (.new .unexpected
            "invalid batch response, paths and response parts don't match"))
        else
          pairReply AzblobDeleter.deletes deleter.core.parseError
            (batch.map Prod.fst) found := by
  simp only [AzblobDeleter.deleteBatch, sent, foundParts, List.length_map]
  by_cases refused : resp.status ≠ 202
  · simp only [refused, ne_eq, not_false_eq_true, if_true]
    exact .inl ⟨trivial, _, rfl⟩
  · simp only [refused, if_false]
    cases parseMultipartBoundary resp.headers with
    | none => exact .inl ⟨rfl, _, rfl⟩
    | some boundary =>
        simp only [Option.bind_some]
        cases Multipart.parse deleter.core.grammar boundary resp.body with
        | error err => exact .inl ⟨rfl, err, rfl⟩
        | ok found => exact .inr ⟨found, rfl, rfl⟩

theorem gcs_deleteBatch_cases {deleter : GcsDeleter}
    (sent : deleter.core.send
      (requestParts deleter.core.root (batch.map Prod.fst)) = .ok resp) :
    (foundParts deleter.core.grammar 200 resp = none ∧
      ∃ err, deleter.deleteBatch batch = some (.error err)) ∨
    ∃ found, foundParts deleter.core.grammar 200 resp = some found ∧
      deleter.deleteBatch batch =
        pairReply GcsDeleter.deletes deleter.core.parseError
          (batch.map Prod.fst) found := by
  simp only [GcsDeleter.deleteBatch, sent, foundParts]
  by_cases refused : resp.status ≠ 200
  · simp only [refused, ne_eq, not_false_eq_true, if_true]
    exact .inl ⟨trivial, _, rfl⟩
  · simp only [refused, if_false]
    cases parseMultipartBoundary resp.headers with
    | none => exact .inl ⟨rfl, _, rfl⟩
    | some boundary =>
        simp only [Option.bind_some]
        cases Multipart.parse deleter.core.grammar boundary resp.body with
        | error err => exact .inl ⟨rfl, err, rfl⟩
        | ok found => exact .inr ⟨found, rfl, rfl⟩

theorem corresponds_of_nothing {deletes : Nat → Bool} {paths : List Path}
    {found : List MixedPart}
    (nothing : ∀ pair ∈ paths.zip found, deletes pair.2.statusCode = false) :
    Corresponds deletes paths found parts := by
  intro pair member deleted
  rw [nothing pair member] at deleted
  cases deleted

theorem azblob_attributed_iff {deleter : AzblobDeleter}
    (sent : deleter.core.send
      (requestParts deleter.core.root (batch.map Prod.fst)) = .ok resp) :
    Attributed (batch.map Prod.fst) parts (deleter.deleteBatch batch) ↔
      ∀ found, foundParts deleter.core.grammar 202 resp = some found →
        found.length ≠ batch.length ∨
          found ≠ [] ∧
            Corresponds AzblobDeleter.deletes (batch.map Prod.fst) found
              parts := by
  rcases azblob_deleteBatch_cases sent with
    ⟨refused, err, failed⟩ | ⟨found, accepted, ended⟩
  · rw [failed, refused]
    exact iff_of_true (attributed_error _ _ err) fun _ same => nomatch same
  · rw [ended, accepted]
    simp only [Option.some.injEq, forall_eq']
    by_cases size : batch.length = found.length
    · have counted : ¬ batch.length ≠ found.length := by simp [size]
      rw [if_neg counted, attributed_pairReply_iff]
      simp only [List.length_map, size, ne_eq, not_true, false_or,
        Nat.le_refl, true_and]
      constructor
      · intro condition
        refine ⟨condition.1, ?_⟩
        rcases condition.2 with nothing | corresponds
        · exact corresponds_of_nothing nothing
        · exact corresponds
      · intro condition
        exact ⟨condition.1, .inr condition.2⟩
    · rw [if_pos size]
      exact iff_of_true (attributed_error _ _ _) (.inl (Ne.symm size))

theorem gcs_attributed_iff {deleter : GcsDeleter}
    (sent : deleter.core.send
      (requestParts deleter.core.root (batch.map Prod.fst)) = .ok resp) :
    Attributed (batch.map Prod.fst) parts (deleter.deleteBatch batch) ↔
      ∀ found, foundParts deleter.core.grammar 200 resp = some found →
        found ≠ [] ∧
          (found.length < batch.length ∧
              (∀ pair ∈ (batch.map Prod.fst).zip found,
                GcsDeleter.deletes pair.2.statusCode = false) ∨
            found.length = batch.length ∧
              Corresponds GcsDeleter.deletes (batch.map Prod.fst) found
                parts) := by
  rcases gcs_deleteBatch_cases sent with
    ⟨refused, err, failed⟩ | ⟨found, accepted, ended⟩
  · rw [failed, refused]
    exact iff_of_true (attributed_error _ _ err) fun _ same => nomatch same
  · rw [ended, accepted, attributed_pairReply_iff]
    simp only [Option.some.injEq, forall_eq', List.length_map]
    constructor
    · intro condition
      refine ⟨condition.1, ?_⟩
      rcases condition.2.2 with nothing | whole
      · rcases Nat.lt_or_eq_of_le condition.2.1 with fewer | size
        · exact .inl ⟨fewer, nothing⟩
        · exact .inr ⟨size, corresponds_of_nothing nothing⟩
      · exact .inr whole
    · intro condition
      rcases condition.2 with ⟨fewer, nothing⟩ | whole
      · exact ⟨condition.1, Nat.le_of_lt fewer, .inl nothing⟩
      · exact ⟨condition.1, Nat.le_of_eq whole.1, .inr whole⟩

end Services

/-- Letters and `-` in names, visible characters in values. -/
def visible : HeaderGrammar where
  name text := text.all fun c => c.isAlpha || c == '-'
  value text := text.all fun c => 32 ≤ c.toNat && c.toNat < 127

/-- A part with nothing but its id and a status. -/
def bare (contentId statusCode : Nat) : SubResponse where
  contentId
  partHeaders := [("Content-ID".toList, (Nat.repr contentId).toList)]
  statusCode
  reason := []
  headers := []
  content := []

def twoPaths : List (Path × OpDelete) :=
  [("a".toList, .new), ("b".toList, .new)]

/-- A reply with the boundary `_`. -/
def replyOf (parts : List SubResponse) : Response where
  status := 200
  headers := [("content-type".toList,
    "multipart/mixed; ".toList ++ "boundary=".toList ++ ['_'])]
  body := replyText ['_'] parts

/-- A server that answers every batch with these parts. -/
def answering (parts : List SubResponse) : GcsDeleter :=
  ⟨.slash, fun _ => .ok (replyOf parts), visible, fun _ => ("", [])⟩

theorem isBoundary_underscore : IsBoundary ['_'] where
  filled := by decide
  oneLine := by decide
  plain := ⟨by decide, trivial⟩

theorem isPart_bare {contentId statusCode : Nat}
    (header : IsHeader visible
      ("Content-ID".toList, (Nat.repr contentId).toList))
    (status : 100 ≤ statusCode ∧ statusCode < 1000)
    (apart : '_' ∉ (bare contentId statusCode).text) :
    (bare contentId statusCode).IsPart visible ['_'] where
  echoes := List.mem_singleton.mpr rfl
  partHeaders := by
    intro other member
    rw [List.mem_singleton.mp member]
    exact header
  headers := by
    intro other member
    cases member
  status := status
  oneLine := by simp [bare]
  apart := by
    intro inside
    exact apart (inside.subset (by decide))

theorem replies_replyOf {parts : List SubResponse}
    (isPart : ∀ part ∈ parts, part.IsPart visible ['_']) :
    Replies visible 200 parts (replyOf parts) where
  status := rfl
  body := ⟨['_'], isBoundary_underscore, rfl, isPart, rfl⟩

theorem isHeader_zero :
    IsHeader visible ("Content-ID".toList, (Nat.repr 0).toList) := by
  refine ⟨?_, ?_, ?_, ?_, ?_⟩ <;> decide

theorem isHeader_one :
    IsHeader visible ("Content-ID".toList, (Nat.repr 1).toList) := by
  refine ⟨?_, ?_, ?_, ?_, ?_⟩ <;> decide

/-- Both parts in the order of the request. -/
def inOrder : List SubResponse :=
  [bare 0 204, bare 1 403]

theorem replies_inOrder : Replies visible 200 inOrder (replyOf inOrder) := by
  apply replies_replyOf
  intro part member
  simp only [inOrder, List.mem_cons, List.not_mem_nil, or_false] at member
  rcases member with rfl | rfl
  · exact isPart_bare isHeader_zero (by decide) (by decide)
  · exact isPart_bare isHeader_one (by decide) (by decide)

/-- The object of the second path was deleted, that of the first one was
not. -/
def swapped : List SubResponse :=
  [bare 1 204, bare 0 403]

theorem replies_swapped : Replies visible 200 swapped (replyOf swapped) := by
  apply replies_replyOf
  intro part member
  simp only [swapped, List.mem_cons, List.not_mem_nil, or_false] at member
  rcases member with rfl | rfl
  · exact isPart_bare isHeader_one (by decide) (by decide)
  · exact isPart_bare isHeader_zero (by decide) (by decide)

end OpenDal
