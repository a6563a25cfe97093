import OpenDal.PercentEncoding
import OpenDal.Program
import OpenDal.Raw.RootedPath
import OpenDal.Services.PageListers

/-!
# Listing a WebDAV directory

`next_page` turns every response of a multistatus into an entry.  A response
ends the page with an error if its status is 400 or more, or if its date cannot
be parsed.  What it must not have is a status line of fewer than three words,
a status or a length that is no number, and a path that does not reach as far
as the root: the first three are unwrapped, and the last one is cut there.  A
debug build also asserts that a path ends with `/` if and only if it is that of
a collection.

`quick_xml` and `DateTime::parse_from_rfc2822` are parameters.  The paths that
`build_rel_path` is called with are recorded besides the page context.
-/

namespace OpenDal

open Path PercentEncoding TextSlice

/-! ## Strings -/

/-- `str::splitn`. -/
def splitn : Nat → Char → Text → List Text
  | 0, _, _ => []
  | 1, _, text => [text]
  | count + 2, separator, text =>
      match text.dropWhile (· != separator) with
      | [] => [text]
      | _ :: rest =>
          text.takeWhile (· != separator) :: splitn (count + 1) separator rest

/-- `str::strip_prefix`. -/
def stripPrefix (start text : Text) : Option Text :=
  if start.isPrefixOf text then some (text.drop start.length) else none

/-- If the input is not valid UTF-8, return the input. -/
def percentDecodePath (path : Path) : Path :=
  match String.fromUTF8? ⟨(decode path).toArray⟩ with
  | some text => text.toList
  | none => path

/-! ## Multistatus -/

/-- `collection` says that the resource type is `Collection`. -/
structure WebdavProp where
  getlastmodified : Text
  getetag : Option Text
  getcontentlength : Option Text
  getcontenttype : Option Text
  collection : Bool

structure Propstat where
  status : Text
  prop : WebdavProp

structure PropfindResponse where
  href : Path
  propstat : Propstat

inductive WebdavFailure where
  | error (err : Error)
  | crash (crash : Panic)
deriving DecidableEq

def WebdavProp.mode (prop : WebdavProp) : EntryMode :=
  if prop.collection then .dir else .file

/-- The first three words of the status line; the text may have blanks. -/
def checkStatus (status : Text) : Except WebdavFailure Unit :=
  match splitn 3 ' ' status with
  | [_, code, text] =>
      match Text.parseU16 code with
      | none => .error (.crash .unwrap)
      | some code =>
          if 400 ≤ code then
            .error (.error (.new .unexpected
              ("propfind response is unexpected: " ++ toString code ++ " " ++
                String.ofList text)))
          else
            .ok ()
  | _ => .error (.crash .slice)

def readLength : Option Text → Except WebdavFailure (Option Nat)
  | none => .ok none
  | some v =>
      match parseU64 v with
      | none => .error (.crash .unwrap)
      | some length => .ok (some length)

variable {D : Type} (rfc2822 : Text → Option D)

def parseDatetimeFromRfc2822 (s : Text) : Except WebdavFailure D :=
  match rfc2822 s with
  | some value => .ok value
  | none =>
      .error (.error (.new .unexpected "parse datetime from rfc2822 failed"))

def parsePropstat (propstat : Propstat) :
    Except WebdavFailure (ObjectMetadata D) := do
  checkStatus propstat.status
  let contentLength ← readLength propstat.prop.getcontentlength
  let lastModified ←
    parseDatetimeFromRfc2822 rfc2822 propstat.prop.getlastmodified
  pure { (ObjectMetadata.new propstat.prop.mode : ObjectMetadata D) with
    contentLength
    contentType := propstat.prop.getcontenttype
    etag := propstat.prop.getetag
    lastModified := some lastModified }

/-! ## `WebdavLister` -/

structure WebdavCore where
  serverPath : Path
  root : Root

structure WebdavLister where
  core : WebdavCore
  path : Path

/-- `body` is what `deserialize_multistatus` makes of it, and `refusal` what
`parse_error` makes of the reply. -/
structure WebdavReply where
  status : Nat
  jfrogVersion : Option Text
  body : Except Error (List PropfindResponse)
  refusal : Error

/-- The page context, and what `build_rel_path` was called with. -/
structure WebdavListing (D : Type) where
  ctx : PageContext (ObjectEntry D)
  relPaths : List Path

namespace WebdavListing

def record (listing : WebdavListing D) (path : Path) : WebdavListing D :=
  { listing with relPaths := listing.relPaths ++ [path] }

def push (listing : WebdavListing D) (entry : ObjectEntry D) :
    WebdavListing D :=
  { listing with ctx := listing.ctx.push entry }

def finish (listing : WebdavListing D) : WebdavListing D :=
  { listing with ctx := { listing.ctx with done := true } }

end WebdavListing

namespace WebdavLister

/-- The path of a response: without the path of the server, with a `/` at the
end if it is a directory, and decoded. -/
def decodedPath (core : WebdavCore) (res : PropfindResponse) : Path :=
  let path := (stripPrefix core.serverPath res.href).getD res.href
  let path :=
    if !endsWithSlash path && res.propstat.prop.mode == .dir then
      path ++ ['/']
    else
      path
  percentDecodePath path

/-- Call `build_rel_path`. -/
def callRelPath (debug : Bool) (root path : Path) :
    Program (WebdavListing D) WebdavFailure Path :=
  fun listing =>
    match relPath debug root path with
    | .ok rel => (.ok rel, listing.record path)
    | .error crash => (.error (.crash crash), listing.record path)

/-- One turn of the loop. -/
def listResponse (core : WebdavCore) (debug jfrog : Bool)
    (res : PropfindResponse) : Program (WebdavListing D) WebdavFailure Unit :=
  match parsePropstat rfc2822 res.propstat with
  | .error failure => Program.fail failure
  | .ok metadata =>
      let decoded := decodedPath core res
      -- ignore the root path itself
      if core.root.path = decoded then
        pure ()
      else do
        let rel ← callRelPath debug core.root.path decoded
        -- a virtual checksum file is listed, but cannot be stated
        if jfrog && metadata.contentType ==
            some "application/x-checksum".toList then
          pure ()
        else
          match ObjectEntry.new debug rel metadata with
          | .ok entry => Program.modify (fun listing => listing.push entry)
          | .error crash => Program.fail (.crash crash)

def listResponses (core : WebdavCore) (debug jfrog : Bool) :
    List PropfindResponse → Program (WebdavListing D) WebdavFailure Unit
  | [] => pure ()
  | res :: rest => do
      listResponse rfc2822 core debug jfrog res
      listResponses core debug jfrog rest

def isJfrogArtifactory (reply : WebdavReply) : Bool :=
  match reply.jfrogVersion with
  | some v => "Artifactory".toList.isPrefixOf v
  | none => false

def nextPage (lister : WebdavLister) (debug : Bool) (reply : WebdavReply) :
    Program (WebdavListing D) WebdavFailure Unit :=
  if 200 ≤ reply.status ∧ reply.status < 300 then
    match reply.body with
    | .error err => Program.fail (.error err)
    | .ok responses => do
        listResponses rfc2822 lister.core debug (isJfrogArtifactory reply)
          responses
        Program.modify WebdavListing.finish
  else if reply.status = 404 ∧ endsWithSlash lister.path then
    Program.modify WebdavListing.finish
  else
    Program.fail (.error reply.refusal)

end WebdavLister

/-! ## What can go wrong -/

/-- The status of a status line of three words. -/
def statusCode (status : Text) : Option Nat :=
  match splitn 3 ' ' status with
  | [_, code, _] => Text.parseU16 code
  | _ => none

/-- The status line has a status, and the length of what the server has found
is a number. -/
def Propstat.WellFormed (propstat : Propstat) : Prop :=
  ∃ code, statusCode propstat.status = some code ∧
    (code < 400 → ∀ v, propstat.prop.getcontentlength = some v →
      parseU64 v ≠ none)

/-- The properties are answered with an error. -/
def Propstat.Refused (propstat : Propstat) : Prop :=
  ∃ code, statusCode propstat.status = some code ∧
    (400 ≤ code ∨ rfc2822 propstat.prop.getlastmodified = none)

theorem checkStatus_cases (status : Text) :
    (statusCode status = none ∧
      ∃ crash, checkStatus status = .error (.crash crash)) ∨
    (∃ code, statusCode status = some code ∧ 400 ≤ code ∧
      ∃ err, checkStatus status = .error (.error err)) ∨
    (∃ code, statusCode status = some code ∧ code < 400 ∧
      checkStatus status = .ok ()) := by
  unfold statusCode checkStatus
  split
  · next first code text words =>
      cases parsed : Text.parseU16 code with
      | none => exact .inl ⟨rfl, _, rfl⟩
      | some value =>
          by_cases large : 400 ≤ value
          · refine .inr (.inl ⟨value, rfl, large, ?_⟩)
            simp only [large, if_true]
            exact ⟨_, rfl⟩
          · refine .inr (.inr ⟨value, rfl, Nat.lt_of_not_le large, ?_⟩)
            simp only [large, if_false]
  · exact .inl ⟨rfl, _, rfl⟩

/-- What `parse_propstat` returns, with the condition for it. -/
inductive PropstatOutcome (propstat : Propstat) :
    Except WebdavFailure (ObjectMetadata D) → Prop where
  | crash {crash : Panic} :
      ¬ propstat.WellFormed → PropstatOutcome propstat (.error (.crash crash))
  | refused {err : Error} :
      propstat.WellFormed → propstat.Refused rfc2822 →
      PropstatOutcome propstat (.error (.error err))
  | parsed {metadata : ObjectMetadata D} :
      propstat.WellFormed → ¬ propstat.Refused rfc2822 →
      metadata.mode = propstat.prop.mode →
      metadata.contentType = propstat.prop.getcontenttype →
      PropstatOutcome propstat (.ok metadata)

theorem parsePropstat_outcome (propstat : Propstat) :
    PropstatOutcome rfc2822 propstat (parsePropstat rfc2822 propstat) := by
  unfold parsePropstat
  rcases checkStatus_cases propstat.status with ⟨unknown, crash, checked⟩ |
    ⟨code, known, large, err, checked⟩ | ⟨code, known, small, checked⟩
  · rw [checked]
    apply PropstatOutcome.crash
    intro wellFormed
    obtain ⟨code, known, -⟩ := wellFormed
    rw [unknown] at known
    cases known
  · rw [checked]
    apply PropstatOutcome.refused
    · refine ⟨code, known, ?_⟩
      intro small
      exact absurd large (Nat.not_le_of_lt small)
    · exact ⟨code, known, .inl large⟩
  · rw [checked]
    have unique : ∀ other, statusCode propstat.status = some other →
        other = code := by
      intro other found
      exact Option.some.inj (found.symm.trans known)
    have dated : rfc2822 propstat.prop.getlastmodified ≠ none →
        ¬ propstat.Refused rfc2822 := by
      intro readable refused
      obtain ⟨other, found, large | unreadable⟩ := refused
      · rw [unique other found] at large
        omega
      · exact readable unreadable
    have finish : ∀ contentLength, propstat.WellFormed →
        PropstatOutcome rfc2822 propstat
          (do
            let lastModified ←
              parseDatetimeFromRfc2822 rfc2822 propstat.prop.getlastmodified
            pure { (ObjectMetadata.new propstat.prop.mode :
                ObjectMetadata D) with
              contentLength
              contentType := propstat.prop.getcontenttype
              etag := propstat.prop.getetag
              lastModified := some lastModified }) := by
      intro contentLength wellFormed
      unfold parseDatetimeFromRfc2822
      cases date : rfc2822 propstat.prop.getlastmodified with
      | none => exact .refused wellFormed ⟨code, known, .inr date⟩
      | some value =>
          refine .parsed wellFormed (dated ?_) rfl rfl
          rw [date]
          exact Option.some_ne_none value
    unfold readLength
    cases length : propstat.prop.getcontentlength with
    | none =>
        apply finish none
        refine ⟨code, known, ?_⟩
        intro _ v given
        rw [length] at given
        cases given
    | some v =>
        cases parsed : parseU64 v with
        | none =>
            simp only [parsed]
            apply PropstatOutcome.crash
            intro wellFormed
            obtain ⟨other, found, numeric⟩ := wellFormed
            rw [unique other found] at numeric
            exact numeric small v length parsed
        | some value =>
            simp only [parsed]
            apply finish (some value)
            refine ⟨code, known, ?_⟩
            intro _ given same
            rw [length] at same
            rw [← Option.some.inj same, parsed]
            exact Option.some_ne_none value

/-- The path starts with what is cut off, as far as this is asserted, and can
be cut there. -/
structure Cuts (debug : Bool) (start : Path) (skipped : Nat) (path : Path) :
    Prop where
  asserted : debug = true → start <+: path
  boundary : ∃ before, before <+: path ∧ byteLength before = skipped

theorem cutFrom_cases (debug : Bool) (start : Path) (skipped : Nat)
    (path : Path) :
    ((∃ crash, cutFrom debug start skipped path = .error crash) ∧
      ¬ Cuts debug start skipped path) ∨
    ((∃ rest, cutFrom debug start skipped path = .ok rest) ∧
      Cuts debug start skipped path) := by
  unfold cutFrom
  split
  · next asserted =>
      rw [Bool.and_eq_true, Bool.not_eq_true'] at asserted
      refine .inl ⟨⟨_, rfl⟩, ?_⟩
      intro cuts
      have found := List.isPrefixOf_iff_prefix.mpr (cuts.asserted asserted.1)
      rw [asserted.2] at found
      cases found
  · next asserted =>
      split
      · next rest cut =>
          refine .inr ⟨⟨_, rfl⟩, ?_, ?_⟩
          · intro enabled
            rw [enabled, Bool.true_and, Bool.not_eq_true', Bool.not_eq_false]
              at asserted
            exact List.isPrefixOf_iff_prefix.mp asserted
          · by_contra nowhere
            rw [(sliceFrom_eq_none_iff skipped path).mpr nowhere] at cut
            cases cut
      · next cut =>
          refine .inl ⟨⟨_, rfl⟩, ?_⟩
          intro cuts
          exact (sliceFrom_eq_none_iff skipped path).mp cut cuts.boundary

/-- The path is as long as the root, and `build_rel_path` can cut it. -/
structure Inside (debug : Bool) (root path : Path) : Prop where
  long : byteLength root ≤ byteLength path
  cuts : if startsWithSlash path then
      Cuts debug root (byteLength root) path
    else
      Cuts debug (root.drop 1) (byteLength root - 1) path

theorem relPath_cases (debug : Bool) {root path : Path} (other : root ≠ path) :
    ((∃ crash, relPath debug root path = .error crash) ∧
      ¬ Inside debug root path) ∨
    ((∃ rel, relPath debug root path = .ok rel) ∧
      (byteLength root ≤ byteLength path → Inside debug root path)) := by
  have distinct : ¬ (debug && root == path) = true := by
    simp [other]
  rw [relPath, if_neg distinct]
  by_cases starts : startsWithSlash path = true
  · rw [if_pos starts]
    rcases cutFrom_cases debug root (byteLength root) path with
      ⟨crashed, wrong⟩ | ⟨ended, cuts⟩
    · refine .inl ⟨crashed, ?_⟩
      intro inside
      have right := inside.cuts
      rw [if_pos starts] at right
      exact wrong right
    · refine .inr ⟨ended, ?_⟩
      intro long
      refine ⟨long, ?_⟩
      rw [if_pos starts]
      exact cuts
  · rw [if_neg starts]
    rcases cutFrom_cases debug (root.drop 1) (byteLength root - 1) path with
      ⟨crashed, wrong⟩ | ⟨ended, cuts⟩
    · refine .inl ⟨crashed, ?_⟩
      intro inside
      have right := inside.cuts
      rw [if_neg starts] at right
      exact wrong right
    · refine .inr ⟨ended, ?_⟩
      intro long
      refine ⟨long, ?_⟩
      rw [if_neg starts]
      exact cuts

/-- What is left of a path that is longer than the root ends like it. -/
theorem endsWithSlash_of_relPath {root : Root} {path rel : Path}
    (other : root.path ≠ path) (cut : relPath true root.path path = .ok rel)
    (long : byteLength root.path ≤ byteLength path) :
    endsWithSlash (slashIfEmpty rel) = endsWithSlash path := by
  have distinct : (root.path == path) = false := beq_eq_false_iff_ne.mpr other
  have positive : 0 < byteLength root.path := by
    rw [Root.path, byteLength_cons]
    exact Nat.add_pos_left ('/').utf8Size_pos _
  obtain ⟨before, split, filled⟩ : ∃ before, path = before ++ rel ∧
      rel ≠ [] := by
    simp only [relPath, Bool.true_and, distinct, Bool.false_eq_true,
      if_false] at cut
    split at cut
    · obtain ⟨starts, sliced⟩ := cutFrom_eq_ok_iff.mp cut
      obtain ⟨before, split, reach⟩ := sliceFrom_eq_some_iff.mp sliced
      refine ⟨before, split, ?_⟩
      rintro rfl
      obtain ⟨behind, whole⟩ := List.isPrefixOf_iff_prefix.mp starts
      have none : byteLength behind = 0 := by
        have same := congrArg byteLength (whole.trans split)
        rw [byteLength_append, byteLength_append, byteLength_nil] at same
        omega
      rw [byteLength_eq_zero.mp none, List.append_nil] at whole
      exact other whole
    · obtain ⟨-, sliced⟩ := cutFrom_eq_ok_iff.mp cut
      obtain ⟨before, split, reach⟩ := sliceFrom_eq_some_iff.mp sliced
      refine ⟨before, split, ?_⟩
      rintro rfl
      rw [split, List.append_nil] at long
      omega
  rw [split, Bool.eq_iff_iff, endsWithSlash_slashIfEmpty]
  simp [endsWithSlash, filled]

namespace WebdavLister

/-- A virtual checksum file. -/
def Skipped (jfrog : Bool) (res : PropfindResponse) : Prop :=
  jfrog = true ∧
    res.propstat.prop.getcontenttype = some "application/x-checksum".toList

/-- The properties are well formed, and the path that is found for them lies
inside of the root or is the root.  Where this is asserted, the path of what is
listed ends with `/` exactly if it is a collection. -/
def Harmless (core : WebdavCore) (debug jfrog : Bool)
    (res : PropfindResponse) : Prop :=
  res.propstat.WellFormed ∧
    (¬ res.propstat.Refused rfc2822 →
      core.root.path ≠ decodedPath core res →
      Inside debug core.root.path (decodedPath core res) ∧
        (debug = true → ¬ Skipped jfrog res →
          (res.propstat.prop.mode = .dir ↔
            endsWithSlash (decodedPath core res) = true)))

/-- No panic, and no path that is shorter than the root. -/
def Graceful (root : Path)
    (ended : Except WebdavFailure Unit × WebdavListing D) : Prop :=
  (∀ crash, ended.1 ≠ .error (.crash crash)) ∧
    ∀ path ∈ ended.2.relPaths, byteLength root ≤ byteLength path

variable {core : WebdavCore} {debug jfrog : Bool} {res : PropfindResponse}

/-- What one turn of the loop does, with the condition for it. -/
inductive ResponseOutcome (core : WebdavCore) (debug jfrog : Bool)
    (res : PropfindResponse) (listing : WebdavListing D) :
    Except WebdavFailure Unit × WebdavListing D → Prop where
  | crash {crash : Panic} {later : WebdavListing D} :
      ¬ Harmless rfc2822 core debug jfrog res →
      ResponseOutcome core debug jfrog res listing (.error (.crash crash), later)
  | refused {err : Error} :
      Harmless rfc2822 core debug jfrog res → res.propstat.Refused rfc2822 →
      ResponseOutcome core debug jfrog res listing (.error (.error err), listing)
  | listed {paths : List Path} {later : WebdavListing D} :
      ¬ res.propstat.Refused rfc2822 →
      later.relPaths = listing.relPaths ++ paths →
      (Harmless rfc2822 core debug jfrog res ↔
        ∀ path ∈ paths, byteLength core.root.path ≤ byteLength path) →
      ResponseOutcome core debug jfrog res listing (.ok (), later)

theorem listResponse_outcome (core : WebdavCore) (debug jfrog : Bool)
    (res : PropfindResponse) (listing : WebdavListing D) :
    ResponseOutcome rfc2822 core debug jfrog res listing
      (listResponse rfc2822 core debug jfrog res listing) := by
  have outcome := parsePropstat_outcome rfc2822 res.propstat
  unfold listResponse
  generalize parsePropstat rfc2822 res.propstat = parsed at outcome
  cases outcome with
  | crash malformed =>
      apply ResponseOutcome.crash
      intro harmless
      exact malformed harmless.1
  | refused wellFormed refused =>
      apply ResponseOutcome.refused _ refused
      exact ⟨wellFormed, fun listed => absurd refused listed⟩
  | @parsed metadata wellFormed listed mode contentType =>
      simp only
      by_cases same : core.root.path = decodedPath core res
      · rw [if_pos same]
        refine .listed listed (List.append_nil _).symm ?_
        constructor
        · intro _ path member
          cases member
        · intro _
          exact ⟨wellFormed, fun _ other => absurd same other⟩
      · rw [if_neg same]
        have step : (callRelPath debug core.root.path (decodedPath core res) >>=
            fun rel =>
              if jfrog && metadata.contentType ==
                  some "application/x-checksum".toList then
                pure ()
              else
                match ObjectEntry.new debug rel metadata with
                | .ok entry =>
                    Program.modify (fun listing => listing.push entry)
                | .error crash => Program.fail (.crash crash)) listing =
            Program.andThen (callRelPath debug core.root.path
              (decodedPath core res)) _ listing := rfl
        rw [step, Program.andThen, callRelPath]
        rcases relPath_cases debug same with
          ⟨⟨crash, crashed⟩, outside⟩ | ⟨⟨rel, ended⟩, inside⟩
        · rw [crashed]
          apply ResponseOutcome.crash
          intro harmless
          exact outside (harmless.2 listed same).1
        · rw [ended]
          -- What is left to ask of the response when it can be cut.
          have exact : (byteLength core.root.path ≤
                byteLength (decodedPath core res) →
              debug = true → ¬ Skipped jfrog res →
                (res.propstat.prop.mode = .dir ↔
                  endsWithSlash (decodedPath core res) = true)) →
              (Harmless rfc2822 core debug jfrog res ↔
                ∀ path ∈ [decodedPath core res],
                  byteLength core.root.path ≤ byteLength path) := by
            intro matched
            rw [List.forall_mem_singleton]
            constructor
            · intro harmless
              exact (harmless.2 listed same).1.long
            · intro long
              exact ⟨wellFormed, fun _ _ => ⟨inside long, matched long⟩⟩
          have skips : (jfrog && metadata.contentType ==
              some "application/x-checksum".toList) = true ↔
                Skipped jfrog res := by
            rw [Bool.and_eq_true, beq_iff_eq, contentType, Skipped]
          have ends : debug = true → byteLength core.root.path ≤
              byteLength (decodedPath core res) →
              endsWithSlash (slashIfEmpty rel) =
                endsWithSlash (decodedPath core res) := by
            intro asserts long
            rw [asserts] at ended
            exact endsWithSlash_of_relPath same ended long
          simp only
          split
          · next skipped =>
              apply ResponseOutcome.listed listed rfl
              exact exact fun _ _ kept => absurd (skips.mp skipped) kept
          · next kept =>
              cases made : ObjectEntry.new debug rel metadata with
              | ok entry =>
                  obtain ⟨-, asserted⟩ := ObjectEntry.new_eq_ok_iff.mp made
                  apply ResponseOutcome.listed listed rfl
                  apply exact
                  intro long asserts _
                  have matched := asserted asserts
                  rwa [mode, ends asserts long] at matched
              | error crash =>
                  apply ResponseOutcome.crash
                  intro harmless
                  obtain ⟨inside, matched⟩ := harmless.2 listed same
                  have fits : ObjectEntry.new debug rel metadata =
                      .ok ⟨slashIfEmpty rel, metadata⟩ := by
                    refine ObjectEntry.new_eq_ok_iff.mpr
                      ⟨rfl, fun asserts => ?_⟩
                    rw [mode, ends asserts inside.long]
                    exact matched asserts fun skipped =>
                      kept (skips.mpr skipped)
                  rw [made] at fits
                  cases fits

/-- The responses up to the first that is refused are harmless. -/
def AllHarmless (core : WebdavCore) (debug jfrog : Bool)
    (responses : List PropfindResponse) : Prop :=
  ∀ before res after, responses = before ++ res :: after →
    (∀ earlier ∈ before, ¬ earlier.propstat.Refused rfc2822) →
    Harmless rfc2822 core debug jfrog res

theorem allHarmless_cons {responses : List PropfindResponse} :
    AllHarmless rfc2822 core debug jfrog (res :: responses) ↔
      Harmless rfc2822 core debug jfrog res ∧
        (¬ res.propstat.Refused rfc2822 →
          AllHarmless rfc2822 core debug jfrog responses) := by
  constructor
  · intro all
    constructor
    · exact all [] res responses rfl (fun _ member => nomatch member)
    · intro listed before other after split earlier
      apply all (res :: before) other after
      · rw [split, List.cons_append]
      · intro first member
        rcases List.mem_cons.mp member with rfl | later
        · exact listed
        · exact earlier first later
  · intro all before other after split earlier
    cases before with
    | nil =>
        obtain ⟨rfl, -⟩ := List.cons.inj split
        exact all.1
    | cons first before =>
        obtain ⟨rfl, tail⟩ := List.cons.inj split
        apply all.2 (earlier res List.mem_cons_self) before other after tail
        intro later member
        exact earlier later (List.mem_cons_of_mem res member)

theorem listResponses_records (core : WebdavCore) (debug jfrog : Bool)
    (responses : List PropfindResponse) (listing : WebdavListing D) :
    (∃ crash, (listResponses rfc2822 core debug jfrog responses listing).1 =
      .error (.crash crash)) ∨
    listing.relPaths <+:
      (listResponses rfc2822 core debug jfrog responses listing).2.relPaths := by
  induction responses generalizing listing with
  | nil => exact .inr List.prefix_rfl
  | cons res responses induction =>
      have outcome :=
        listResponse_outcome rfc2822 core debug jfrog res listing
      have step : listResponses rfc2822 core debug jfrog (res :: responses)
          listing = Program.andThen (listResponse rfc2822 core debug jfrog res)
            (fun _ => listResponses rfc2822 core debug jfrog responses)
            listing := rfl
      rw [step, Program.andThen]
      generalize listResponse rfc2822 core debug jfrog res listing = ended
        at outcome
      cases outcome with
      | @crash crash later harmful => exact .inl ⟨crash, rfl⟩
      | refused harmless refused => exact .inr List.prefix_rfl
      | @listed paths later listed recorded same =>
          rcases induction later with crashed | kept
          · exact .inl crashed
          · right
            apply List.IsPrefix.trans _ kept
            rw [recorded]
            exact List.prefix_append _ _

theorem listResponses_graceful (core : WebdavCore) (debug jfrog : Bool)
    (responses : List PropfindResponse) {listing : WebdavListing D}
    (long : ∀ path ∈ listing.relPaths,
      byteLength core.root.path ≤ byteLength path) :
    Graceful core.root.path
        (listResponses rfc2822 core debug jfrog responses listing) ↔
      AllHarmless rfc2822 core debug jfrog responses := by
  induction responses generalizing listing with
  | nil =>
      constructor
      · intro _ before res after split
        simp at split
      · intro _
        refine ⟨?_, long⟩
        intro crash same
        cases same
  | cons res responses induction =>
      have records :=
        listResponses_records rfc2822 core debug jfrog responses
      have outcome :=
        listResponse_outcome rfc2822 core debug jfrog res listing
      have step : listResponses rfc2822 core debug jfrog (res :: responses)
          listing = Program.andThen (listResponse rfc2822 core debug jfrog res)
            (fun _ => listResponses rfc2822 core debug jfrog responses)
            listing := rfl
      rw [step, Program.andThen, allHarmless_cons]
      generalize listResponse rfc2822 core debug jfrog res listing = ended
        at outcome
      cases outcome with
      | @crash crash later harmful =>
          constructor
          · intro graceful
            exact absurd rfl (graceful.1 crash)
          · intro harmless
            exact absurd harmless.1 harmful
      | refused harmless refused =>
          constructor
          · intro _
            exact ⟨harmless, fun listed => absurd refused listed⟩
          · intro _
            refine ⟨?_, long⟩
            intro crash same
            cases same
      | @listed paths later listed recorded same =>
          have longer : (∀ path ∈ paths,
              byteLength core.root.path ≤ byteLength path) →
              ∀ path ∈ later.relPaths,
                byteLength core.root.path ≤ byteLength path := by
            intro more path member
            rw [recorded] at member
            rcases List.mem_append.mp member with old | new
            · exact long path old
            · exact more path new
          constructor
          · intro graceful
            have more : ∀ path ∈ paths,
                byteLength core.root.path ≤ byteLength path := by
              intro path member
              rcases records later with ⟨crash, crashed⟩ | kept
              · exact absurd crashed (graceful.1 crash)
              · apply graceful.2 path
                apply kept.subset
                rw [recorded]
                exact List.mem_append_right _ member
            exact ⟨same.mpr more,
              fun _ => (induction (longer more)).mp graceful⟩
          · intro harmless
            exact (induction (longer (same.mp harmless.1))).mpr
              (harmless.2 listed)

theorem nextPage_graceful (lister : WebdavLister) (debug : Bool)
    (reply : WebdavReply) (ctx : PageContext (ObjectEntry D)) :
    Graceful lister.core.root.path
        (nextPage rfc2822 lister debug reply ⟨ctx, []⟩) ↔
      (200 ≤ reply.status ∧ reply.status < 300 →
        ∀ responses, reply.body = .ok responses →
          AllHarmless rfc2822 lister.core debug (isJfrogArtifactory reply)
            responses) := by
  have fails : ∀ err : Error, Graceful lister.core.root.path
      ((Program.fail (.error err) :
        Program (WebdavListing D) WebdavFailure Unit) ⟨ctx, []⟩) := by
    intro err
    constructor
    · intro crash same
      cases same
    · intro path member
      cases member
  unfold nextPage
  by_cases success : 200 ≤ reply.status ∧ reply.status < 300
  · rw [if_pos success]
    cases decoded : reply.body with
    | error err =>
        constructor
        · intro _ _ responses same
          cases same
        · intro _
          exact fails err
    | ok responses =>
        have empty : ∀ path ∈ (WebdavListing.mk ctx []).relPaths,
            byteLength lister.core.root.path ≤ byteLength path := by
          intro path member
          cases member
        have loop := listResponses_graceful rfc2822 lister.core debug
          (isJfrogArtifactory reply) responses empty
        have finished : Graceful lister.core.root.path
            ((listResponses rfc2822 lister.core debug (isJfrogArtifactory reply)
              responses >>= fun _ => Program.modify WebdavListing.finish)
                ⟨ctx, []⟩) ↔
            Graceful lister.core.root.path
              (listResponses rfc2822 lister.core debug
                (isJfrogArtifactory reply) responses ⟨ctx, []⟩) := by
          show Graceful lister.core.root.path (Program.andThen _ _ _) ↔ _
          rw [Program.andThen]
          rcases listResponses rfc2822 lister.core debug
            (isJfrogArtifactory reply) responses ⟨ctx, []⟩ with
            ⟨failure | _, listing⟩
          · exact Iff.rfl
          · constructor
            · intro graceful
              refine ⟨?_, graceful.2⟩
              intro crash same
              cases same
            · intro graceful
              refine ⟨?_, graceful.2⟩
              intro crash same
              cases same
        constructor
        · intro graceful _ others same
          rw [← Except.ok.inj same]
          exact loop.mp (finished.mp graceful)
        · intro all
          exact finished.mpr (loop.mpr (all success responses rfl))
  · rw [if_neg success]
    constructor
    · intro _ other
      exact absurd other success
    · intro _
      split
      · constructor
        · intro crash same
          cases same
        · intro path member
          cases member
      · exact fails reply.refusal

end WebdavLister

open WebdavLister

/-- A reply crashes the client exactly if a response that is worked on has no
status, a length that is no number, or a path that is not inside of the root,
or one that a debug build finds unlike its collection or file. -/
theorem webdav_graceful_iff (rfc2822 : Text → Option D) :
    (∀ propstat : Propstat,
      (∀ crash, parsePropstat rfc2822 propstat ≠ .error (.crash crash)) ↔
        propstat.WellFormed) ∧
    (∀ (lister : WebdavLister) (debug : Bool) (reply : WebdavReply)
      (ctx : PageContext (ObjectEntry D)),
      Graceful lister.core.root.path
          (nextPage rfc2822 lister debug reply ⟨ctx, []⟩) ↔
        (200 ≤ reply.status ∧ reply.status < 300 →
          ∀ responses, reply.body = .ok responses →
            AllHarmless rfc2822 lister.core debug (isJfrogArtifactory reply)
              responses)) := by
  constructor
  · intro propstat
    have outcome := parsePropstat_outcome rfc2822 propstat
    generalize parsePropstat rfc2822 propstat = parsed at outcome
    cases outcome with
    | crash malformed =>
        constructor
        · intro never
          exact absurd rfl (never _)
        · intro wellFormed
          exact absurd wellFormed malformed
    | refused wellFormed refused =>
        constructor
        · intro _
          exact wellFormed
        · intro _ crash same
          cases same
    | parsed wellFormed listed =>
        constructor
        · intro _
          exact wellFormed
        · intro _ crash same
          cases same
  · exact nextPage_graceful rfc2822

/-- A status line without a reason phrase. -/
def phraseless : Propstat where
  status := "HTTP/1.1 200".toList
  prop := ⟨[], none, none, none, false⟩

theorem webdav_crashes_phraseless :
    ¬ ∀ (rfc2822 : Text → Option Nat) (lister : WebdavLister) (debug : Bool)
      (reply : WebdavReply) (ctx : PageContext (ObjectEntry Nat)),
      Graceful lister.core.root.path
        (nextPage rfc2822 lister debug reply ⟨ctx, []⟩) := by
  intro always
  have graceful := always (fun _ => some 0) ⟨⟨[], Root.slash⟩, ['/']⟩ false
    ⟨207, none, .ok [⟨"/a".toList, phraseless⟩], .new .unexpected ""⟩ .new
  exact graceful.1 .slice rfl

end OpenDal
