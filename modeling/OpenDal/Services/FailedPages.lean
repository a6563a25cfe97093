import OpenDal.Services.PageListers

/-!
# Pages that fail half way

`S3Lister` and `GcsLister` set the token and whether the list is done before
they turn the items into entries, and an item that cannot be turned into one
ends the page with an error.  `GdriveLister` pushes the directory before it
decodes the body.  What has been set and pushed stays, and the next call goes
on from there.

A page that fails earlier changes nothing, and then the call can be repeated:
the entries are those of a listing without failures.  A page with a key that
`build_rel_path` cannot cut ends in a panic, unless it has failed before.
-/

namespace OpenDal

open Path

/-! ## Clean failures -/

/-- The condition is the exact one for a page to leave the context alone when
it fails; and as long as every reply meets it, the results that are not errors
are those of a server that answers every request in the end. -/
def FailsCleanly {Request Reply E : Type} (pages : PageList Request Reply E)
    (condition : PageContext E → Reply → Prop) : Prop :=
  (∀ ctx reply, ctx.entries = [] →
    (PageLister.Keeps pages ctx reply ↔ condition ctx reply)) ∧
  ∀ (σ : Type) (serve : σ → Request → Reply × σ) (server : σ)
    (answer : Request → Reply) (results : List (Except Error (Option E))),
    PageLister.Calls pages serve (fun ctx reply => condition ctx reply ∧
        PageLister.Succeeds pages answer ctx reply) server .new results →
      PageLister.Calls pages (PageLister.steady answer) (fun _ _ => True) ()
        .new (results.filter fun result => result.isOk)

/-- The second half follows from the first. -/
theorem failsCleanly_of_keeps {Request Reply E : Type}
    {pages : PageList Request Reply E}
    {condition : PageContext E → Reply → Prop}
    (exact' : ∀ ctx reply, ctx.entries = [] →
      (PageLister.Keeps pages ctx reply ↔ condition ctx reply)) :
    FailsCleanly pages condition := by
  refine ⟨exact', ?_⟩
  intro σ serve server answer results calls
  apply calls.steady
  intro ctx reply nothing given
  exact ⟨(exact' ctx reply nothing).mpr given.1, given.2⟩

namespace PageContext

variable {E α : Type} {make : α → Except Panic (Except Error (Option E))}

/-- A page that sets the fields of the context to `start` and makes entries of
its items leaves the context alone, when it fails, if no item fails or if
nothing has happened before the first one does. -/
theorem pushAll_keeps_iff (items : List α) {ctx start : PageContext E}
    (nothing : ctx.entries = []) :
    (∀ err later, pushAll make items start = .ok (.error err, later) →
        later = ctx) ↔
      ¬ Fails make items ∨ FailsFirst make items ∧ start = ctx := by
  constructor
  · intro keeps
    by_cases fails : Fails make items
    · right
      obtain ⟨err, later, pushed⟩ := (pushAll_fails_iff items start).mpr fails
      cases keeps err later pushed
      obtain ⟨done, token, begins⟩ := pushAll_fields pushed
      rw [nothing, List.prefix_nil] at begins
      have same : start = ctx := by
        obtain ⟨done', token', entries'⟩ := start
        obtain ⟨done'', token'', entries''⟩ := ctx
        simp_all
      refine ⟨?_, same⟩
      rw [← pushAll_failsFirst_iff items start]
      exact ⟨err, same ▸ pushed⟩
    · exact .inl fails
  · intro condition err later pushed
    rcases condition with passes | ⟨fails, rfl⟩
    · exact absurd ((pushAll_fails_iff items start).mp ⟨err, later, pushed⟩)
        passes
    · obtain ⟨first, failed⟩ :=
        (pushAll_failsFirst_iff items start).mpr fails
      cases pushed.symm.trans failed
      rfl

end PageContext

/-! ## Keys that have a place below the root -/

variable {D : Type}

/-- `build_rel_path` does not panic. -/
def Rooted (debug : Bool) (root : Root) (key : Path) : Prop :=
  ∃ rel, relPath debug root.path key = .ok rel

/-- Neither does the entry of a directory. -/
def RootedDir (debug : Bool) (root : Root) (key : Path) : Prop :=
  ∃ rel, relPath debug root.path key = .ok rel ∧
    (debug = true → rel = [] ∨ endsWithSlash rel = true)

theorem relativePath_isOk_iff {debug : Bool} {root : Root} {key : Path} :
    (∃ path, relativePath debug root key = .ok path) ↔
      Rooted debug root key := by
  rw [relativePath, Rooted]
  cases relPath debug root.path key <;> simp [Except.map]

theorem dirEntry_isOk_iff {debug : Bool} {root : Root} {key : Path} :
    (∃ entry : ObjectEntry D, dirEntry debug root key = .ok entry) ↔
      RootedDir debug root key := by
  rw [dirEntry, RootedDir]
  cases rooted : relPath debug root.path key with
  | error panic => simp [bind, Except.bind]
  | ok rel =>
      have fits : ∀ entry : ObjectEntry D,
          ObjectEntry.new debug rel (.new .dir) = .ok entry ↔
            entry = ⟨slashIfEmpty rel, .new .dir⟩ ∧
              (debug = true → rel = [] ∨ endsWithSlash rel = true) := by
        intro entry
        rw [ObjectEntry.new_eq_ok_iff, ← endsWithSlash_slashIfEmpty]
        simp [ObjectMetadata.new]
      simp [bind, Except.bind, fits]

theorem mapM_isOk_iff {α E : Type} {make : α → Except Panic E}
    {items : List α} :
    (∃ made, items.mapM make = .ok made) ↔
      ∀ item ∈ items, ∃ entry, make item = .ok entry := by
  induction items with
  | nil => simp [pure, Except.pure]
  | cons item items induction =>
      rw [List.forall_mem_cons, ← induction, List.mapM_cons]
      cases first : make item with
      | error panic => simp [bind, Except.bind]
      | ok entry =>
          cases List.mapM make items <;>
            simp [bind, Except.bind, pure, Except.pure]

theorem mapM_eq_nil {α E : Type} {make : α → Except Panic E}
    {items : List α} {made : List E} (mapped : items.mapM make = .ok made) :
    made = [] ↔ items = [] := by
  cases items with
  | nil =>
      cases mapped
      simp
  | cons item items =>
      rw [List.mapM_cons] at mapped
      cases first : make item with
      | error panic => simp [first, bind, Except.bind] at mapped
      | ok entry =>
          rw [first] at mapped
          cases rest : List.mapM make items with
          | error panic => simp [rest, bind, Except.bind] at mapped
          | ok entries =>
              simp only [rest, bind, Except.bind, pure, Except.pure,
                Except.ok.injEq] at mapped
              simp [← mapped]

theorem mapM_pushAll_keeps_iff {α β E : Type} {dir : β → Except Panic E}
    {make : α → Except Panic (Except Error (Option E))} {dirs : List β}
    {items : List α} {done : Bool} {token : Text} {ctx : PageContext E}
    (nothing : ctx.entries = []) :
    (∀ err later, (do
        let entries ← dirs.mapM dir
        PageContext.pushAll make items
          { done, token, entries := ctx.entries ++ entries }) =
          .ok (.error err, later) → later = ctx) ↔
      ((∀ key ∈ dirs, ∃ entry, dir key = .ok entry) →
        ¬ PageContext.Fails make items) ∨
      PageContext.FailsFirst make items ∧ dirs = [] ∧ done = ctx.done ∧
        token = ctx.token := by
  rw [← mapM_isOk_iff]
  cases mapped : dirs.mapM dir with
  | error panic => simp [bind, Except.bind]
  | ok entries =>
      have empty := mapM_eq_nil mapped
      refine (PageContext.pushAll_keeps_iff items nothing).trans ?_
      obtain ⟨done', token', entries'⟩ := ctx
      cases nothing
      simp only [Except.ok.injEq, exists_eq', true_implies,
        PageContext.mk.injEq, List.nil_append, ← empty]
      tauto

/-! ## S3 -/

namespace S3Lister

/-- No time that is reached is one that cannot be parsed, where a key without
a place below the root is the end; or the first object has such a time, and
the page has no common prefixes and says nothing new about the token and the
end. -/
def Condition (debug : Bool) (rfc3339 : Text → Option D) (self : S3Lister)
    (ctx : PageContext (ObjectEntry D)) :
    Except Error ListObjectsOutput → Prop
  | .error _ => True
  | .ok output =>
      ((∀ key ∈ output.commonPrefixes, RootedDir debug self.root key) →
        ∀ before object after, output.contents = before ++ object :: after →
          (∀ other ∈ before, Rooted debug self.root other.key ∧
            (rfc3339 other.lastModified).isSome = true) →
          Rooted debug self.root object.key →
          (rfc3339 object.lastModified).isSome = true) ∨
        (∃ object rest, output.contents = object :: rest ∧
            Rooted debug self.root object.key ∧
            ¬ (rfc3339 object.lastModified).isSome = true) ∧
          output.commonPrefixes = [] ∧ isDone output = ctx.done ∧
          output.nextContinuationToken.getD [] = ctx.token

variable {debug : Bool} {rfc3339 : Text → Option D} {self : S3Lister}
  {object : ListObjectsOutputContent}

/-- A key without a place, an object without a time, and an entry. -/
theorem entry_cases (debug : Bool) (rfc3339 : Text → Option D)
    (self : S3Lister) (object : ListObjectsOutputContent) :
    (¬ Rooted debug self.root object.key ∧
      ∃ panic, self.entry debug rfc3339 object = .error panic) ∨
    (Rooted debug self.root object.key ∧
      rfc3339 object.lastModified = none ∧
      ∃ err, self.entry debug rfc3339 object = .ok (.error err)) ∨
    (Rooted debug self.root object.key ∧
      (rfc3339 object.lastModified).isSome = true ∧
      ∃ entry, self.entry debug rfc3339 object = .ok (.ok (some entry))) := by
  rw [← relativePath_isOk_iff]
  unfold entry parseDatetimeFromRfc3339
  cases placed : relativePath debug self.root object.key with
  | error panic => simp [bind, Except.bind]
  | ok path =>
      cases dated : rfc3339 object.lastModified with
      | none => simp [bind, Except.bind, pure, Except.pure]
      | some value =>
          obtain ⟨entry, made, _⟩ :=
            objectEntry_isOk debug object value
              (slashIfEmpty_of_relativePath placed)
          simp [bind, Except.bind, pure, Except.pure, made]

theorem entry_made_iff :
    (∃ made, self.entry debug rfc3339 object = .ok (.ok made)) ↔
      Rooted debug self.root object.key ∧
        (rfc3339 object.lastModified).isSome = true := by
  rcases entry_cases debug rfc3339 self object with
    ⟨outside, panic, made⟩ | ⟨inside, undated, err, made⟩ |
      ⟨inside, dated, entry, made⟩
  · simp [made, outside]
  · simp [made, undated]
  · simp [made, inside, dated]

theorem entry_failed_iff :
    (∃ err, self.entry debug rfc3339 object = .ok (.error err)) ↔
      Rooted debug self.root object.key ∧
        ¬ (rfc3339 object.lastModified).isSome = true := by
  rcases entry_cases debug rfc3339 self object with
    ⟨outside, panic, made⟩ | ⟨inside, undated, err, made⟩ |
      ⟨inside, dated, entry, made⟩
  · simp [made, outside]
  · simp [made, inside, undated]
  · simp [made, dated]

theorem failsFirst_iff {contents : List ListObjectsOutputContent} :
    PageContext.FailsFirst (self.entry debug rfc3339) contents ↔
      ∃ object rest, contents = object :: rest ∧
        Rooted debug self.root object.key ∧
        ¬ (rfc3339 object.lastModified).isSome = true := by
  constructor
  · intro fails
    obtain ⟨skipped, object, rest, rfl, passed, failed⟩ := fails
    cases skipped with
    | nil => exact ⟨object, rest, rfl, entry_failed_iff.mp failed⟩
    | cons other skipped =>
        have none := passed other List.mem_cons_self
        rcases entry_cases debug rfc3339 self other with
          ⟨_, panic, made⟩ | ⟨_, _, err, made⟩ | ⟨_, _, entry, made⟩
        · cases none.symm.trans made
        · cases none.symm.trans made
        · cases none.symm.trans made
  · intro first
    obtain ⟨object, rest, rfl, failed⟩ := first
    exact ⟨[], object, rest, rfl, by simp, entry_failed_iff.mpr failed⟩

theorem keeps_iff (debug : Bool) (rfc3339 : Text → Option D)
    (self : S3Lister) (ctx : PageContext (ObjectEntry D))
    (reply : Except Error ListObjectsOutput) (nothing : ctx.entries = []) :
    PageLister.Keeps (self.pages debug rfc3339) ctx reply ↔
      self.Condition debug rfc3339 ctx reply := by
  cases reply with
  | error err =>
      simp only [Condition, iff_true]
      intro err' later received
      cases received
      rfl
  | ok output =>
      refine (mapM_pushAll_keeps_iff nothing).trans ?_
      simp only [dirEntry_isOk_iff, PageContext.Fails, entry_made_iff,
        entry_failed_iff, failsFirst_iff, Condition, not_exists, not_and,
        not_not]

end S3Lister

/-! ## GCS -/

namespace GcsLister

/-- The item is the start itself. -/
def IsStart (debug : Bool) (self : GcsLister) (object : ListResponseItem) :
    Prop :=
  ∃ path, relativePath debug self.root object.name = .ok path ∧
    self.startAfter = some path

/-- The item is the start itself, or its size and its time can be parsed. -/
def Readable (debug : Bool) (rfc3339 : Text → Option D) (self : GcsLister)
    (object : ListResponseItem) : Prop :=
  self.IsStart debug object ∨
    (parseU64 object.size).isSome = true ∧
      (rfc3339 object.updated).isSome = true

/-- What a page says about the token and the end is what the context says. -/
def Repeats (ctx : PageContext (ObjectEntry D)) (output : ListResponse) :
    Prop :=
  match output.nextPageToken with
  | some token => token = ctx.token
  | none => ctx.done = true

/-- All items that are reached are readable; or the first one that is not the
start itself is not readable, and the page has no prefixes and says nothing new
about the token and the end. -/
def Condition (debug : Bool) (rfc3339 : Text → Option D) (self : GcsLister)
    (ctx : PageContext (ObjectEntry D)) : Except Error ListResponse → Prop
  | .error _ => True
  | .ok output =>
      ((∀ key ∈ output.prefixes, RootedDir debug self.root key) →
        ∀ before object after, output.items = before ++ object :: after →
          (∀ other ∈ before, Rooted debug self.root other.name ∧
            self.Readable debug rfc3339 other) →
          Rooted debug self.root object.name →
          self.Readable debug rfc3339 object) ∨
        (∃ skipped object rest, output.items = skipped ++ object :: rest ∧
            (∀ other ∈ skipped, self.IsStart debug other) ∧
            Rooted debug self.root object.name ∧
            ¬ self.Readable debug rfc3339 object) ∧
          output.prefixes = [] ∧ Repeats ctx output

variable {debug : Bool} {rfc3339 : Text → Option D} {self : GcsLister}
  {object : ListResponseItem}

/-- An item without a place, the start, one that is not readable, and an
entry. -/
theorem entry_cases (debug : Bool) (rfc3339 : Text → Option D)
    (self : GcsLister) (object : ListResponseItem) :
    (¬ Rooted debug self.root object.name ∧ ¬ self.IsStart debug object ∧
      ∃ panic, self.entry debug rfc3339 object = .error panic) ∨
    (Rooted debug self.root object.name ∧ self.IsStart debug object ∧
      self.entry debug rfc3339 object = .ok (.ok none)) ∨
    (Rooted debug self.root object.name ∧
      ¬ self.Readable debug rfc3339 object ∧
      ∃ err, self.entry debug rfc3339 object = .ok (.error err)) ∨
    (Rooted debug self.root object.name ∧ ¬ self.IsStart debug object ∧
      self.Readable debug rfc3339 object ∧
      ∃ entry, self.entry debug rfc3339 object = .ok (.ok (some entry))) := by
  rw [← relativePath_isOk_iff]
  unfold entry Readable IsStart parseDatetimeFromRfc3339
  cases placed : relativePath debug self.root object.name with
  | error panic => simp [bind, Except.bind]
  | ok path =>
      by_cases start : self.startAfter = some path
      · simp [bind, Except.bind, pure, Except.pure, start]
      · cases sized : parseU64 object.size with
        | none => simp [bind, Except.bind, pure, Except.pure, start]
        | some size =>
            cases dated : rfc3339 object.updated with
            | none => simp [bind, Except.bind, pure, Except.pure, start]
            | some value =>
                obtain ⟨entry, made⟩ := objectEntry_isOk debug object size
                  value (slashIfEmpty_of_relativePath placed)
                simp [bind, Except.bind, pure, Except.pure, start, made]

theorem entry_made_iff :
    (∃ made, self.entry debug rfc3339 object = .ok (.ok made)) ↔
      Rooted debug self.root object.name ∧
        self.Readable debug rfc3339 object := by
  rcases entry_cases debug rfc3339 self object with
    ⟨outside, _, panic, made⟩ | ⟨inside, start, made⟩ |
      ⟨inside, unreadable, err, made⟩ | ⟨inside, _, readable, entry, made⟩
  · simp [made, outside]
  · simp [made, inside, Readable, start]
  · simp [made, unreadable]
  · simp [made, inside, readable]

theorem entry_failed_iff :
    (∃ err, self.entry debug rfc3339 object = .ok (.error err)) ↔
      Rooted debug self.root object.name ∧
        ¬ self.Readable debug rfc3339 object := by
  rcases entry_cases debug rfc3339 self object with
    ⟨outside, _, panic, made⟩ | ⟨inside, start, made⟩ |
      ⟨inside, unreadable, err, made⟩ | ⟨inside, _, readable, entry, made⟩
  · simp [made, outside]
  · simp [made, Readable, start]
  · simp [made, inside, unreadable]
  · simp [made, readable]

theorem entry_none_iff :
    self.entry debug rfc3339 object = .ok (.ok none) ↔
      self.IsStart debug object := by
  rcases entry_cases debug rfc3339 self object with
    ⟨outside, other, panic, made⟩ | ⟨inside, start, made⟩ |
      ⟨inside, unreadable, err, made⟩ | ⟨inside, other, _, entry, made⟩
  · simp [made, other]
  · simp [made, start]
  · have other : ¬ self.IsStart debug object := fun start =>
      unreadable (.inl start)
    simp [made, other]
  · simp [made, other]

theorem keeps_iff (debug : Bool) (rfc3339 : Text → Option D)
    (self : GcsLister) (ctx : PageContext (ObjectEntry D))
    (reply : Except Error ListResponse) (nothing : ctx.entries = []) :
    PageLister.Keeps (self.pages debug rfc3339) ctx reply ↔
      self.Condition debug rfc3339 ctx reply := by
  cases reply with
  | error err =>
      simp only [Condition, iff_true]
      intro err' later received
      cases received
      rfl
  | ok output =>
      simp only [PageLister.Keeps, Condition, Repeats]
      cases further : output.nextPageToken with
      | none =>
          have received :
              (self.pages debug rfc3339).receive ctx (.ok output) = (do
                let dirs ← output.prefixes.mapM (dirEntry debug self.root)
                PageContext.pushAll (self.entry debug rfc3339) output.items
                  { done := true
                    token := ctx.token
                    entries := ctx.entries ++ dirs }) := by
            simp only [pages, receive, further]
          rw [received]
          refine (mapM_pushAll_keeps_iff nothing).trans ?_
          simp only [dirEntry_isOk_iff, PageContext.Fails,
            PageContext.FailsFirst, entry_made_iff, entry_failed_iff,
            entry_none_iff, not_exists, not_and, not_not, and_true,
            Bool.true_eq]
      | some next =>
          have received :
              (self.pages debug rfc3339).receive ctx (.ok output) = (do
                let dirs ← output.prefixes.mapM (dirEntry debug self.root)
                PageContext.pushAll (self.entry debug rfc3339) output.items
                  { done := ctx.done
                    token := next
                    entries := ctx.entries ++ dirs }) := by
            simp only [pages, receive, further]
          rw [received]
          refine (mapM_pushAll_keeps_iff nothing).trans ?_
          simp only [dirEntry_isOk_iff, PageContext.Fails,
            PageContext.FailsFirst, entry_made_iff, entry_failed_iff,
            entry_none_iff, not_exists, not_and, not_not, true_and]

end GcsLister

/-! ## Google Drive -/

namespace GdriveLister

/-- Only a body that cannot be decoded is harmful, and only the first one, and
where the directory has a place below the root. -/
def Condition (debug : Bool) (self : GdriveLister)
    (ctx : PageContext (ObjectEntry D)) : GdriveReply → Prop
  | .undecodable _ => ctx.token = [] ∧ ctx.done = false →
      ¬ RootedDir debug self.root self.path
  | _ => True

theorem keeps_iff (debug : Bool) (self : GdriveLister)
    (ctx : PageContext (ObjectEntry D)) (reply : GdriveReply) :
    PageLister.Keeps (self.pages debug) ctx reply ↔
      self.Condition debug ctx reply := by
  unfold PageLister.Keeps
  cases reply with
  | lookupFailed err | failed err =>
      simp only [Condition, iff_true]
      intro err' later received
      cases received
      rfl
  | noSuchPath | emptyBody =>
      simp only [Condition, iff_true]
      intro err' later received
      cases received
  | files response =>
      simp only [Condition, iff_true]
      intro err' later received
      simp only [pages, receive, bind, Except.bind] at received
      split at received
      · cases received
      · split at received <;> cases received
  | undecodable err =>
      have first : (ctx.token.isEmpty && !ctx.done) = true ↔
          ctx.token = [] ∧ ctx.done = false := by simp
      simp only [pages, receive, withDirectory, Condition, ← first]
      by_cases new : (ctx.token.isEmpty && !ctx.done) = true
      · rw [if_pos new, ← dirEntry_isOk_iff (D := D)]
        cases made : (dirEntry debug self.root self.path :
            Except Panic (ObjectEntry D)) with
        | error panic => simp [Except.map, bind, Except.bind, new]
        | ok entry =>
            have longer : ctx.push entry ≠ ctx := by
              intro same
              have lengths := congrArg (fun ctx => ctx.entries.length) same
              simp [PageContext.push] at lengths
            simp [Except.map, bind, Except.bind, pure, Except.pure, new,
              longer]
      · rw [if_neg new]
        simp only [new, bind, Except.bind, pure, Except.pure, false_implies,
          iff_true, Bool.false_eq_true]
        intro err' later received
        cases received
        rfl

end GdriveLister

/-- When a failed page changes nothing, in a build with assertions or
without. -/
theorem failed_page_iff (debug : Bool) (rfc3339 : Text → Option D) :
    (∀ s3 : S3Lister,
      FailsCleanly (s3.pages debug rfc3339) (s3.Condition debug rfc3339)) ∧
    (∀ gcs : GcsLister,
      FailsCleanly (gcs.pages debug rfc3339)
        (gcs.Condition debug rfc3339)) ∧
    (∀ gdrive : GdriveLister,
      FailsCleanly (gdrive.pages debug : PageList _ _ (ObjectEntry D))
        (gdrive.Condition debug)) := by
  refine ⟨?_, ?_, ?_⟩
  · intro s3
    exact failsCleanly_of_keeps (s3.keeps_iff debug rfc3339)
  · intro gcs
    exact failsCleanly_of_keeps (gcs.keeps_iff debug rfc3339)
  · intro gdrive
    exact failsCleanly_of_keeps fun ctx reply _ =>
      gdrive.keeps_iff debug ctx reply

/-- Only `now` is a time. -/
def onlyNow (text : Text) : Option Unit :=
  if text = "now".toList then some () else none

def flatS3Lister : S3Lister :=
  .new .slash ['/'] ⟨⟨true⟩, none, none, false, false⟩

/-- The only page of a list with two objects; the time of the second is as
given. -/
def pageOfTwo (lastModified : Text) : Except Error ListObjectsOutput :=
  .ok
    { isTruncated := some false
      nextContinuationToken := none
      commonPrefixes := []
      contents :=
        [⟨['a'], 1, "now".toList, none⟩, ⟨['b'], 1, lastModified, none⟩] }

def flatEntry (path : Path) : ObjectEntry Unit :=
  { path
    metadata := { (ObjectMetadata.new .file : ObjectMetadata Unit) with
      isCurrent := some true
      contentLength := some 1
      lastModified := some () } }

/-- The first page fails at its second object.  Then the list goes on with the
first one and ends; without the failure it has both. -/
theorem failed_page_fails_lastModified :
    ¬ PageLister.Keeps (flatS3Lister.pages true onlyNow) .new
        (pageOfTwo "later".toList) ∧
    ∃ err a b,
      PageLister.Calls (flatS3Lister.pages true onlyNow)
        (fun (failed : Bool) _ =>
          (if failed then pageOfTwo "now".toList
            else pageOfTwo "later".toList, true))
        (fun _ _ => True) false .new
        [.error err, .ok (some a), .ok none] ∧
      PageLister.Calls (flatS3Lister.pages true onlyNow)
        (PageLister.steady fun _ => pageOfTwo "now".toList)
        (fun _ _ => True) () .new
        [.ok (some a), .ok (some b), .ok none] := by
  have failed : (flatS3Lister.pages true onlyNow).receive .new
      (pageOfTwo "later".toList) =
      .ok (.error (.new .unexpected "parse datetime from rfc3339 failed"),
        ⟨true, [], [flatEntry ['a']]⟩) := by decide
  have received : (flatS3Lister.pages true onlyNow).receive .new
      (pageOfTwo "now".toList) =
      .ok (.ok (), ⟨true, [], [flatEntry ['a'], flatEntry ['b']]⟩) := by
    decide
  constructor
  · intro keeps
    cases keeps _ _ failed
  · refine ⟨.new .unexpected "parse datetime from rfc3339 failed",
      flatEntry ['a'], flatEntry ['b'], ?_, ?_⟩
    · have first : PageLister.next (flatS3Lister.pages true onlyNow)
          (fun (failed : Bool) _ =>
            (if failed then pageOfTwo "now".toList
              else pageOfTwo "later".toList, true)) 1 false .new =
          some (.error (.new .unexpected "parse datetime from rfc3339 failed"),
            ⟨true, [], [flatEntry ['a']]⟩, true) := by
        simp only [PageLister.next, PageContext.new, Bool.false_eq_true,
          if_false]
        rw [show (⟨false, [], []⟩ : PageContext (ObjectEntry Unit)) = .new
          from rfl, failed]
      refine .cons first (fun _ _ => trivial) ?_
      exact .pop (.ended rfl rfl)
    · have answered : PageLister.steady (fun _ => pageOfTwo "now".toList) ()
          ((flatS3Lister.pages true onlyNow).request .new) =
          (pageOfTwo "now".toList, ()) := rfl
      refine .receive (List.cons_ne_nil _ _) rfl rfl answered received
        trivial ?_
      exact .pop (.ended rfl rfl)

end OpenDal
