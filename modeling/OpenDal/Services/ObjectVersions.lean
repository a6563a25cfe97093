import Mathlib.Data.Char
import Mathlib.Data.List.Lex
import OpenDal.Services.PageListers

/-!
# Listing the versions of objects

The server keeps versions and delete markers in one order.  It answers a
request with those behind the markers of the request, at least one if there is
one, and with the markers of the last of them if there are more.

The lister packs the two markers into one token.  The last space of the token
is the one between them, because a version id has no space.

An entry stands for the key that its path has below the root.  That is not the
key it was made of where `build_rel_path` takes a `/` for that of the root, or
where the path is `/`, which is the root itself.
-/

namespace OpenDal

open Path TextSlice

/-! ## The token -/

theorem rsplitOnceSpace_append (before : Text) {behind : Text}
    (spaceless : ' ' ∉ behind) :
    rsplitOnceSpace (before ++ ' ' :: behind) = some (before, behind) := by
  have reversed : (before ++ ' ' :: behind).reverse =
      behind.reverse ++ ' ' :: before.reverse := by simp
  have plain : ∀ c ∈ behind.reverse, (c != ' ') = true := by
    intro c member
    rw [bne_iff_ne]
    intro space
    subst space
    exact spaceless (List.mem_reverse.mp member)
  have dropped : (before ++ ' ' :: behind).rdropWhile (· != ' ') =
      before ++ [' '] := by
    rw [List.rdropWhile, reversed, List.dropWhile_append_of_pos plain]
    simp
  have taken : (before ++ ' ' :: behind).rtakeWhile (· != ' ') = behind := by
    rw [List.rtakeWhile, reversed, List.takeWhile_append_of_pos plain]
    simp
  unfold rsplitOnceSpace
  rw [dropped, taken]
  cases before with
  | nil => rfl
  | cons c rest =>
      show some ((c :: rest ++ [' ']).dropLast, behind) = _
      rw [List.dropLast_concat]

theorem getD_given (text : Text) : (given text).getD [] = text := by
  cases text <;> rfl

/-! ## The server -/

inductive StoredObject where
  | version (object : ListObjectVersionsOutputVersion)
  | deleteMarker (object : ListObjectVersionsOutputDeleteMarker)
deriving DecidableEq

namespace StoredObject

def key : StoredObject → Path
  | .version object => object.key
  | .deleteMarker object => object.key

def versionId : StoredObject → Text
  | .version object => object.versionId
  | .deleteMarker object => object.versionId

def lastModified : StoredObject → Text
  | .version object => object.lastModified
  | .deleteMarker object => object.lastModified

def pair (object : StoredObject) : Path × Text :=
  (object.key, object.versionId)

def version? : StoredObject → Option ListObjectVersionsOutputVersion
  | .version object => some object
  | .deleteMarker _ => none

def deleteMarker? :
    StoredObject → Option ListObjectVersionsOutputDeleteMarker
  | .version _ => none
  | .deleteMarker object => some object

end StoredObject

/-- The objects of a bucket in the order of their keys.  A key is not
empty. -/
structure VersionStore where
  objects : List StoredObject
  sorted : objects.Pairwise fun object later => object.key ≤ later.key
  distinct : (objects.map StoredObject.pair).Nodup
  named : ∀ object ∈ objects, object.key ≠ []
  spaceless : ∀ object ∈ objects, ' ' ∉ object.versionId

/-- The objects behind the markers: behind the pair, or those with a greater
key when no object is the pair. -/
def following (key : Path) (versionId : Text) (objects : List StoredObject) :
    List StoredObject :=
  if objects.any fun object => object.pair == (key, versionId) then
    (objects.dropWhile fun object => object.pair != (key, versionId)).drop 1
  else
    objects.filter fun object => key < object.key

namespace VersionStore

/-- The objects under the prefix of a request. -/
def under (store : VersionStore) (keyPrefix : Option Path) :
    List StoredObject :=
  store.objects.filter fun object =>
    (keyPrefix.getD []).isPrefixOf object.key

/-- What is left for a request to return. -/
def after (store : VersionStore) (request : ListObjectVersionsRequest) :
    List StoredObject :=
  following (request.keyMarker.getD []) (request.versionIdMarker.getD [])
    (store.under request.keyPrefix)

/-- The reply shows these objects. -/
structure Holds (page : List StoredObject)
    (output : ListObjectVersionsOutput) : Prop where
  flat : output.commonPrefixes = []
  version : output.version = page.filterMap StoredObject.version?
  deleteMarker :
    output.deleteMarker = page.filterMap StoredObject.deleteMarker?

/-- A reply to a request without a delimiter.  The version id marker may be
missing where the key marker says enough. -/
inductive Replies (store : VersionStore)
    (request : ListObjectVersionsRequest)
    (output : ListObjectVersionsOutput) : Prop where
  | last (holds : Holds (store.after request) output)
      (ended : output.isTruncated = some false)
  | truncated {page rest : List StoredObject} {object : StoredObject}
      (remaining : store.after request = page ++ object :: rest)
      (holds : Holds (page ++ [object]) output)
      (more : output.isTruncated = some true)
      (keyMarker : output.nextKeyMarker = some object.key)
      (versionIdMarker :
        output.nextVersionIdMarker = some object.versionId ∨
          output.nextVersionIdMarker = none ∧
            following object.key [] (store.under request.keyPrefix) = rest)

end VersionStore

/-! ## What is behind the markers -/

theorem following_pair {objects passed rest : List StoredObject}
    {object : StoredObject} (distinct : (objects.map StoredObject.pair).Nodup)
    (split : objects = passed ++ object :: rest) :
    following object.key object.versionId objects = rest := by
  have present : (objects.any fun other =>
      other.pair == (object.key, object.versionId)) = true := by
    rw [List.any_eq_true]
    exact ⟨object, by simp [split], beq_self_eq_true _⟩
  have before : ∀ other ∈ passed,
      (other.pair != (object.key, object.versionId)) = true := by
    intro other member
    rw [bne_iff_ne]
    intro same
    rw [split, List.map_append, List.map_cons, List.nodup_append] at distinct
    exact distinct.2.2 other.pair (List.mem_map_of_mem member) object.pair
      List.mem_cons_self same
  have self : (object.pair != (object.key, object.versionId)) = false :=
    bne_self_eq_false _
  rw [following, if_pos present, split,
    List.dropWhile_append_of_pos before, List.dropWhile_cons, self]
  rfl

theorem filter_greater_suffix {objects : List StoredObject}
    (sorted : objects.Pairwise fun object later => object.key ≤ later.key)
    (key : Path) :
    (objects.filter fun object => key < object.key) <:+ objects := by
  induction sorted with
  | nil => exact List.suffix_rfl
  | @cons object objects least sorted induction =>
      by_cases greater : key < object.key
      · have whole : ((object :: objects).filter fun object =>
            key < object.key) = object :: objects := by
          rw [List.filter_eq_self]
          intro other member
          rcases List.mem_cons.mp member with rfl | later
          · exact decide_eq_true greater
          · exact decide_eq_true (lt_of_lt_of_le greater (least other later))
        rw [whole]
      · rw [List.filter_cons_of_neg (by simpa using greater)]
        exact induction.trans (List.suffix_cons object objects)

theorem following_suffix {objects : List StoredObject}
    (sorted : objects.Pairwise fun object later => object.key ≤ later.key)
    (key : Path) (versionId : Text) :
    following key versionId objects <:+ objects := by
  unfold following
  split
  · exact (List.drop_suffix _ _).trans (List.dropWhile_suffix _)
  · exact filter_greater_suffix sorted key

theorem following_nothing {objects : List StoredObject}
    (named : ∀ object ∈ objects, object.key ≠ []) :
    following [] [] objects = objects := by
  have absent : ¬ (objects.any fun object => object.pair == ([], [])) =
      true := by
    rw [List.any_eq_true]
    intro present
    obtain ⟨object, member, same⟩ := present
    exact named object member (congrArg Prod.fst (beq_iff_eq.mp same))
  rw [following, if_neg absent, List.filter_eq_self]
  intro object member
  have filled := named object member
  cases key : object.key with
  | nil => exact absurd key filled
  | cons c rest => simp

namespace VersionStore

variable (store : VersionStore) (keyPrefix : Option Path)

theorem under_sublist : (store.under keyPrefix).Sublist store.objects :=
  List.filter_sublist

theorem under_sorted : (store.under keyPrefix).Pairwise
    fun object later => object.key ≤ later.key :=
  store.sorted.sublist (store.under_sublist keyPrefix)

theorem under_distinct :
    ((store.under keyPrefix).map StoredObject.pair).Nodup :=
  store.distinct.sublist ((store.under_sublist keyPrefix).map _)

theorem under_named :
    ∀ object ∈ store.under keyPrefix, object.key ≠ [] :=
  fun object member =>
    store.named object ((store.under_sublist keyPrefix).subset member)

theorem after_suffix (request : ListObjectVersionsRequest) :
    store.after request <:+ store.under request.keyPrefix :=
  following_suffix (store.under_sorted request.keyPrefix) _ _

variable {store} {request : ListObjectVersionsRequest}
  {output : ListObjectVersionsOutput}

theorem mem_of_mem_after {object : StoredObject}
    (member : object ∈ store.after request) : object ∈ store.objects :=
  (store.under_sublist _).subset ((store.after_suffix request).subset member)

theorem Replies.spaceless (replies : store.Replies request output)
    (more : output.isTruncated = some true) :
    ' ' ∉ output.nextVersionIdMarker.getD [] := by
  cases replies with
  | last holds ended =>
      rw [ended] at more
      cases more
  | @truncated page rest object remaining holds _ keyMarker
      versionIdMarker =>
      rcases versionIdMarker with same | ⟨missing, -⟩
      · rw [same]
        apply store.spaceless object
        apply mem_of_mem_after
        rw [remaining]
        simp
      · rw [missing]
        exact List.not_mem_nil

theorem following_markers {page rest : List StoredObject}
    {object : StoredObject}
    (remaining : store.after request = page ++ object :: rest)
    (keyMarker : output.nextKeyMarker = some object.key)
    (versionIdMarker :
      output.nextVersionIdMarker = some object.versionId ∨
        output.nextVersionIdMarker = none ∧
          following object.key [] (store.under request.keyPrefix) = rest) :
    following (output.nextKeyMarker.getD [])
      (output.nextVersionIdMarker.getD []) (store.under request.keyPrefix) =
      rest := by
  obtain ⟨passed, split⟩ := store.after_suffix request
  rw [remaining, ← List.append_assoc] at split
  rw [keyMarker]
  rcases versionIdMarker with same | ⟨missing, enough⟩
  · rw [same]
    exact following_pair (store.under_distinct _) split.symm
  · rw [missing]
    exact enough

end VersionStore

/-! ## Keys and their entries -/

/-- The key is the one that the path of its entry stands for. -/
def Addressable (root : Root) (key : Path) : Prop :=
  startsWithSlash key = false ∧ key ≠ root.inner ++ ['/']

theorem Root.inner_prefix_buildAbsPath (root : Root) (path : Path) :
    root.inner <+: buildAbsPath root.path path := by
  have dropped : root.path.drop 1 = root.inner := rfl
  rw [buildAbsPath, dropped]
  split
  · exact List.prefix_rfl
  · exact List.prefix_append _ _

theorem buildAbsPath_slashIfEmpty (root : Root) (rel : Path) :
    buildAbsPath root.path (slashIfEmpty rel) =
      if rel = ['/'] then root.inner else root.inner ++ rel := by
  have dropped : root.path.drop 1 = root.inner := rfl
  cases rel with
  | nil => simp [slashIfEmpty, buildAbsPath, dropped]
  | cons c rest => simp [slashIfEmpty, buildAbsPath, dropped]

/-- What is below a root with a name starts like the name. -/
theorem Root.inner_eq_nil_of_startsWithSlash {root : Root} {key : Path}
    (below : root.inner <+: key) (absolute : startsWithSlash key = true) :
    root.inner = [] := by
  by_contra filled
  obtain ⟨rel, rfl⟩ := below
  rw [startsWithSlash_append filled, root.relative] at absolute
  cases absolute

theorem relativePath_inner {root : Root} {rel : Path}
    (relative : startsWithSlash (root.inner ++ rel) = false) (debug : Bool) :
    relativePath debug root (root.inner ++ rel) = .ok (slashIfEmpty rel) := by
  rw [relativePath, root.relPath_inner relative]
  rfl

theorem addressable_of_relativePath {debug : Bool} {root : Root}
    {key path : Path} (below : root.inner <+: key) (filled : key ≠ [])
    (placed : relativePath debug root key = .ok path)
    (back : buildAbsPath root.path path = key) : Addressable root key := by
  cases absolute : startsWithSlash key with
  | false =>
      refine ⟨absolute, ?_⟩
      rintro rfl
      rw [relativePath_inner absolute] at placed
      cases placed
      simp [buildAbsPath_slashIfEmpty] at back
  | true =>
      have bare := Root.inner_eq_nil_of_startsWithSlash below absolute
      obtain ⟨rest, rfl⟩ := List.head?_eq_some_iff.mp (beq_iff_eq.mp absolute)
      have cut : relPath debug root.path ('/' :: rest) = .ok rest := by
        rw [relativePath] at placed
        have sliced : sliceFrom (byteLength root.path) ('/' :: rest) =
            some rest := by
          rw [Root.path, bare]
          exact sliceFrom_append ['/'] rest
        rw [relPath, if_pos absolute, cutFrom, sliced] at placed ⊢
        split at placed
        · cases placed
        · split at placed
          · cases placed
          · next unequal prefixed => rw [if_neg unequal, if_neg prefixed]
      rw [relativePath, cut] at placed
      cases placed
      rw [buildAbsPath_slashIfEmpty, bare] at back
      split at back
      · cases back
      · exact absurd (congrArg List.length back) (by simp)

theorem relativePath_of_addressable {root : Root} {key : Path}
    (below : root.inner <+: key) (addressable : Addressable root key)
    (debug : Bool) :
    ∃ rel, key = root.inner ++ rel ∧
      relativePath debug root key = .ok (slashIfEmpty rel) ∧
      buildAbsPath root.path (slashIfEmpty rel) = key := by
  obtain ⟨rel, rfl⟩ := below
  refine ⟨rel, rfl, relativePath_inner addressable.1 debug, ?_⟩
  have proper : rel ≠ ['/'] := fun slash => addressable.2 (by rw [slash])
  rw [buildAbsPath_slashIfEmpty, if_neg proper]

theorem Root.endsWithSlash_key (root : Root) {rel : Path}
    (filled : root.inner ++ rel ≠ []) :
    endsWithSlash (root.inner ++ rel) = endsWithSlash (slashIfEmpty rel) := by
  rw [Bool.eq_iff_iff, endsWithSlash_slashIfEmpty]
  by_cases empty : rel = []
  · subst empty
    rw [List.append_nil] at filled ⊢
    simpa using root.closed.resolve_left filled
  · simp [endsWithSlash, empty]

/-! ## One page -/

namespace S3ObjectVersionsLister

variable {D : Type} {debug : Bool} {rfc3339 : Text → Option D}
  {self : S3ObjectVersionsLister} {date : Text → D}

/-- The delete markers of a page, if they have been asked for. -/
def shownMarkers (self : S3ObjectVersionsLister)
    (page : List StoredObject) : List ListObjectVersionsOutputDeleteMarker :=
  if self.args.deleted then
    page.filterMap StoredObject.deleteMarker?
  else []

/-- The pair that an entry stands for. -/
def listedPair (self : S3ObjectVersionsLister) (entry : ObjectEntry D) :
    Path × Option Text :=
  (buildAbsPath self.root.path entry.path, entry.metadata.version)

/-- The entries stand for the objects: the versions in their order, and the
delete markers in their order if they have been asked for. -/
structure Shows (lister : S3ObjectVersionsLister)
    (objects : List StoredObject) (entries : List (ObjectEntry D)) :
    Prop where
  versions :
    (entries.filter fun entry => !entry.metadata.isDeleted).map
        lister.listedPair =
      (objects.filterMap StoredObject.version?).map fun object =>
        (object.key, some object.versionId)
  deleteMarkers :
    (entries.filter fun entry => entry.metadata.isDeleted).map
        lister.listedPair =
      (lister.shownMarkers objects).map fun object =>
        (object.key, some object.versionId)

/-- The object has an entry that stands for it.  Entries of delete markers are
files, which a debug build asserts of their paths. -/
def Fits (self : S3ObjectVersionsLister) (debug : Bool) :
    StoredObject → Prop
  | .version object => Addressable self.root object.key
  | .deleteMarker object =>
      self.args.deleted = true →
        Addressable self.root object.key ∧
          (debug = true → endsWithSlash object.key = false)

/-- What an item comes to: an entry, which stands for the item exactly if the
item is good, or a panic if it is not. -/
def Comes (self : S3ObjectVersionsLister) (pair : Path × Option Text)
    (deleted : Bool) (good : Prop)
    (result : Except Panic (Except Error (Option (ObjectEntry D)))) : Prop :=
  (∃ panic, result = .error panic ∧ ¬ good) ∨
    ∃ entry, result = .ok (.ok (some entry)) ∧
      entry.metadata.isDeleted = deleted ∧
      (self.listedPair entry = pair ↔ good)

theorem versionEntry_isOk (debug : Bool) {path : Path}
    (object : ListObjectVersionsOutputVersion) (lastModified : D)
    (whole : slashIfEmpty path = path) :
    ∃ entry, versionEntry debug path object lastModified = .ok entry ∧
      entry.path = path ∧ entry.metadata.version = some object.versionId ∧
      entry.metadata.isDeleted = false := by
  refine ⟨_, ObjectEntry.new_fromPath ?_ debug, whole, ?_, ?_⟩
  · rw [whole]
    exact ObjectMetadata.mode_withEtag _ _
  · cases object.etag <;> rfl
  · cases object.etag <;> rfl

theorem version_comes (debug : Bool) (versions : self.args.versions = true)
    {object : ListObjectVersionsOutputVersion}
    (dated : rfc3339 object.lastModified = some (date object.lastModified))
    (below : self.root.inner <+: object.key) (filled : object.key ≠ []) :
    self.Comes (object.key, some object.versionId) false
      (Addressable self.root object.key)
      (self.version debug rfc3339 object) := by
  simp only [S3ObjectVersionsLister.version, versions, Bool.true_or,
    Bool.not_true, Bool.false_eq_true, if_false, parseDatetimeFromRfc3339,
    dated]
  cases placed : relativePath debug self.root object.key with
  | error panic =>
      refine .inl ⟨panic, rfl, fun addressable => ?_⟩
      obtain ⟨rel, -, found, -⟩ :=
        relativePath_of_addressable below addressable debug
      rw [placed] at found
      cases found
  | ok path =>
      obtain ⟨entry, made, same, versionId, kept⟩ :=
        versionEntry_isOk debug object (date object.lastModified)
          (slashIfEmpty_of_relativePath placed)
      refine .inr ⟨entry, ?_, kept, ?_⟩
      · show versionEntry debug path object _ >>= _ = _
        rw [made]
        rfl
      · rw [listedPair, same, versionId, Prod.mk.injEq]
        constructor
        · intro back
          exact addressable_of_relativePath below filled placed back.1
        · intro addressable
          obtain ⟨rel, -, found, back⟩ :=
            relativePath_of_addressable below addressable debug
          rw [placed] at found
          cases found
          exact ⟨back, rfl⟩

theorem deleteMarker_comes (debug : Bool)
    {object : ListObjectVersionsOutputDeleteMarker}
    (dated : rfc3339 object.lastModified = some (date object.lastModified))
    (below : self.root.inner <+: object.key) (filled : object.key ≠ []) :
    self.Comes (object.key, some object.versionId) true
      (Addressable self.root object.key ∧
        (debug = true → endsWithSlash object.key = false))
      (self.deleteMarker debug rfc3339 object) := by
  simp only [S3ObjectVersionsLister.deleteMarker, parseDatetimeFromRfc3339,
    dated]
  cases placed : relativePath debug self.root object.key with
  | error panic =>
      refine .inl ⟨panic, rfl, fun good => ?_⟩
      obtain ⟨rel, -, found, -⟩ :=
        relativePath_of_addressable below good.1 debug
      rw [placed] at found
      cases found
  | ok path =>
      have whole := slashIfEmpty_of_relativePath placed
      -- The path of an addressable key ends like the key.
      have ends : Addressable self.root object.key →
          endsWithSlash object.key = endsWithSlash path ∧
            buildAbsPath self.root.path path = object.key := by
        intro addressable
        obtain ⟨rel, same, found, back⟩ :=
          relativePath_of_addressable below addressable debug
        rw [placed] at found
        cases found
        refine ⟨?_, back⟩
        rw [same] at filled ⊢
        exact self.root.endsWithSlash_key filled
      show self.Comes _ _ _
        (deleteMarkerEntry debug path object _ >>= fun entry =>
          pure (.ok (some entry)))
      cases made : deleteMarkerEntry debug path object
          (date object.lastModified) with
      | error panic =>
          refine .inl ⟨panic, rfl, fun good => ?_⟩
          have file : endsWithSlash path = false ∨ debug = false := by
            cases debug with
            | false => exact .inr rfl
            | true => exact .inl ((ends good.1).1 ▸ good.2 rfl)
          rw [deleteMarkerEntry, ObjectEntry.new, whole] at made
          rcases file with file | release
          · simp [file, ObjectMetadata.new] at made
          · simp [release] at made
      | ok entry =>
          obtain ⟨rfl, asserted⟩ := ObjectEntry.new_eq_ok_iff.mp made
          refine .inr ⟨_, rfl, rfl, ?_⟩
          rw [listedPair, whole, Prod.mk.injEq]
          constructor
          · intro back
            have addressable :=
              addressable_of_relativePath below filled placed back.1
            refine ⟨addressable, fun asserts => ?_⟩
            have file := asserted asserts
            rw [whole] at file
            rw [(ends addressable).1]
            simpa [ObjectMetadata.new] using file
          · intro good
            exact ⟨(ends good.1).2, rfl⟩

theorem pushAll_comes {α : Type} {pair : α → Path × Option Text}
    {deleted : Bool} {good : α → Prop}
    {make : α → Except Panic (Except Error (Option (ObjectEntry D)))}
    {items : List α}
    (comes : ∀ item ∈ items,
      self.Comes (pair item) deleted (good item) (make item))
    (ctx : PageContext (ObjectEntry D)) :
    (∃ panic, PageContext.pushAll make items ctx = .error panic ∧
        ∃ item ∈ items, ¬ good item) ∨
      ∃ made, PageContext.pushAll make items ctx =
          .ok (.ok (), { ctx with entries := ctx.entries ++ made }) ∧
        made.length = items.length ∧
        (∀ entry ∈ made, entry.metadata.isDeleted = deleted) ∧
        (made.map self.listedPair = items.map pair ↔
          ∀ item ∈ items, good item) := by
  induction items generalizing ctx with
  | nil => exact .inr ⟨[], by simp [PageContext.pushAll]⟩
  | cons item items induction =>
      rw [PageContext.pushAll]
      rcases comes item List.mem_cons_self with
        ⟨panic, made, bad⟩ | ⟨entry, made, kind, stands⟩
      · rw [made]
        exact .inl ⟨panic, rfl, item, List.mem_cons_self, bad⟩
      · rw [made]
        have rest := induction
          (fun other member => comes other (List.mem_cons_of_mem item member))
          (ctx.push entry)
        rcases rest with ⟨panic, pushed, other, member, bad⟩ |
          ⟨more, pushed, long, kinds, others⟩
        · exact .inl ⟨panic, pushed, other, List.mem_cons_of_mem item member,
            bad⟩
        · refine .inr ⟨entry :: more, pushed.trans ?_, ?_, ?_, ?_⟩
          · simp [PageContext.push]
          · simp [long]
          · exact List.forall_mem_cons.mpr ⟨kind, kinds⟩
          · rw [List.map_cons, List.map_cons, List.cons.injEq, stands, others,
              List.forall_mem_cons]

/-- The entries that the two loops make of a page. -/
structure Made (lister : S3ObjectVersionsLister) (debug : Bool)
    (page : List StoredObject) (made : List (ObjectEntry D)) : Prop where
  versions : (made.filter fun entry => !entry.metadata.isDeleted).length =
    (page.filterMap StoredObject.version?).length
  deleteMarkers : (made.filter fun entry => entry.metadata.isDeleted).length =
    (lister.shownMarkers page).length
  shows_iff :
    lister.Shows page made ↔ ∀ object ∈ page, lister.Fits debug object

theorem forall_fits_iff {page : List StoredObject} :
    (∀ object ∈ page, self.Fits debug object) ↔
      (∀ object ∈ page.filterMap StoredObject.version?,
        Addressable self.root object.key) ∧
      ∀ object ∈ self.shownMarkers page,
        Addressable self.root object.key ∧
          (debug = true → endsWithSlash object.key = false) := by
  constructor
  · intro fits
    constructor
    · intro object member
      obtain ⟨stored, inside, shown⟩ := List.mem_filterMap.mp member
      cases stored with
      | version => cases shown; exact fits _ inside
      | deleteMarker => cases shown
    · intro object member
      rw [shownMarkers] at member
      split at member
      · next deleted =>
          obtain ⟨stored, inside, shown⟩ := List.mem_filterMap.mp member
          cases stored with
          | version => cases shown
          | deleteMarker => cases shown; exact fits _ inside deleted
      · cases member
  · intro fits object member
    cases object with
    | version object =>
        exact fits.1 object (List.mem_filterMap.mpr ⟨_, member, rfl⟩)
    | deleteMarker object =>
        intro deleted
        apply fits.2 object
        rw [shownMarkers, if_pos deleted]
        exact List.mem_filterMap.mpr ⟨_, member, rfl⟩

theorem filter_of_kind {made : List (ObjectEntry D)} {deleted : Bool}
    (kinds : ∀ entry ∈ made, entry.metadata.isDeleted = deleted) :
    made.filter (fun entry => entry.metadata.isDeleted == deleted) = made ∧
      made.filter (fun entry => entry.metadata.isDeleted == !deleted) =
        [] := by
  constructor
  · rw [List.filter_eq_self]
    intro entry member
    simp [kinds entry member]
  · rw [List.filter_eq_nil_iff]
    intro entry member
    simp [kinds entry member]

theorem made_append {page : List StoredObject}
    {versions deleteMarkers : List (ObjectEntry D)}
    (first : versions.length =
      (page.filterMap StoredObject.version?).length)
    (kept : ∀ entry ∈ versions, entry.metadata.isDeleted = false)
    (firstStands : versions.map self.listedPair =
        (page.filterMap StoredObject.version?).map (fun object =>
          (object.key, some object.versionId)) ↔
      ∀ object ∈ page.filterMap StoredObject.version?,
        Addressable self.root object.key)
    (second : deleteMarkers.length = (self.shownMarkers page).length)
    (deleted : ∀ entry ∈ deleteMarkers, entry.metadata.isDeleted = true)
    (secondStands : deleteMarkers.map self.listedPair =
        (self.shownMarkers page).map (fun object =>
          (object.key, some object.versionId)) ↔
      ∀ object ∈ self.shownMarkers page,
        Addressable self.root object.key ∧
          (debug = true → endsWithSlash object.key = false)) :
    self.Made debug page (versions ++ deleteMarkers) := by
  have keptOnly : (versions ++ deleteMarkers).filter
      (fun entry => !entry.metadata.isDeleted) = versions := by
    rw [List.filter_append]
    have all := filter_of_kind kept
    have none := filter_of_kind deleted
    simp only [beq_true, beq_false, Bool.not_true] at all none
    rw [all.1, none.2, List.append_nil]
  have deletedOnly : (versions ++ deleteMarkers).filter
      (fun entry => entry.metadata.isDeleted) = deleteMarkers := by
    rw [List.filter_append]
    have none := filter_of_kind kept
    have all := filter_of_kind deleted
    simp only [beq_true, beq_false, Bool.not_false] at all none
    rw [all.1, none.2, List.nil_append]
  constructor
  · rw [keptOnly, first]
  · rw [deletedOnly, second]
  · rw [forall_fits_iff, ← firstStands, ← secondStands]
    constructor
    · intro shows
      exact ⟨keptOnly ▸ shows.versions, deletedOnly ▸ shows.deleteMarkers⟩
    · intro stands
      exact ⟨keptOnly.symm ▸ stands.1, deletedOnly.symm ▸ stands.2⟩

/-- A page whose times can be parsed is received as a whole, or an object of
it does not fit. -/
theorem receive_page (debug : Bool) (versions : self.args.versions = true)
    {page : List StoredObject} {output : ListObjectVersionsOutput}
    (holds : VersionStore.Holds page output)
    (dated : ∀ object ∈ page,
      rfc3339 object.lastModified = some (date object.lastModified))
    (below : ∀ object ∈ page, self.root.inner <+: object.key)
    (named : ∀ object ∈ page, object.key ≠ [])
    (ctx : PageContext (ObjectEntry D)) :
    (∃ panic, self.receive debug rfc3339 ctx (.ok output) = .error panic ∧
        ∃ object ∈ page, ¬ self.Fits debug object) ∨
      ∃ made, self.receive debug rfc3339 ctx (.ok output) = .ok (.ok (),
          { done := isDone output
            token := token output
            entries := ctx.entries ++ made }) ∧
        self.Made debug page made := by
  have version : ∀ object ∈ page.filterMap StoredObject.version?,
      self.Comes (object.key, some object.versionId) false
        (Addressable self.root object.key)
        (self.version debug rfc3339 object) := by
    intro object member
    obtain ⟨stored, inside, shown⟩ := List.mem_filterMap.mp member
    cases stored with
    | version =>
        cases shown
        exact version_comes debug versions (dated _ inside) (below _ inside)
          (named _ inside)
    | deleteMarker => cases shown
  have deleteMarker : ∀ object ∈ page.filterMap StoredObject.deleteMarker?,
      self.Comes (object.key, some object.versionId) true
        (Addressable self.root object.key ∧
          (debug = true → endsWithSlash object.key = false))
        (self.deleteMarker debug rfc3339 object) := by
    intro object member
    obtain ⟨stored, inside, shown⟩ := List.mem_filterMap.mp member
    cases stored with
    | version => cases shown
    | deleteMarker =>
        cases shown
        exact deleteMarker_comes debug (dated _ inside) (below _ inside)
          (named _ inside)
  have shown : ∀ object ∈ self.shownMarkers page,
      self.Comes (object.key, some object.versionId) true
        (Addressable self.root object.key ∧
          (debug = true → endsWithSlash object.key = false))
        (self.deleteMarker debug rfc3339 object) := by
    intro object member
    rw [shownMarkers] at member
    split at member
    · exact deleteMarker object member
    · cases member
  let start : PageContext (ObjectEntry D) :=
    ⟨isDone output, token output, ctx.entries⟩
  have panicked : ∀ panic,
      PageContext.pushAll (self.version debug rfc3339)
          (page.filterMap StoredObject.version?) start = .error panic →
      self.receive debug rfc3339 ctx (.ok output) = .error panic := by
    intro panic pushed
    rw [receive, holds.flat, holds.version]
    simp only [List.mapM_nil, pure_bind, List.append_nil]
    rw [pushed]
    rfl
  have received : ∀ middle,
      PageContext.pushAll (self.version debug rfc3339)
          (page.filterMap StoredObject.version?) start =
        .ok (.ok (), middle) →
      self.receive debug rfc3339 ctx (.ok output) =
        PageContext.pushAll (self.deleteMarker debug rfc3339)
          (self.shownMarkers page) middle := by
    intro middle pushed
    rw [receive, holds.flat, holds.version, holds.deleteMarker]
    simp only [List.mapM_nil, pure_bind, List.append_nil]
    rw [pushed, shownMarkers]
    split <;> rfl
  rcases pushAll_comes version start with
    ⟨panic, pushed, object, member, bad⟩ |
      ⟨first, pushed, long, kept, stands⟩
  · refine .inl ⟨panic, ?_, ?_⟩
    · exact panicked panic pushed
    · by_contra! fits
      exact bad ((forall_fits_iff.mp fits).1 object member)
  · rcases pushAll_comes shown
        { start with entries := start.entries ++ first } with
      ⟨panic, ended, object, member, bad⟩ |
        ⟨second, ended, longer, removed, stand⟩
    · refine .inl ⟨panic, ?_, ?_⟩
      · rw [received _ pushed]
        exact ended
      · by_contra! fits
        exact bad ((forall_fits_iff.mp fits).2 object member)
    · refine .inr ⟨first ++ second, ?_,
        made_append long kept stands longer removed stand⟩
      rw [received _ pushed, ← List.append_assoc]
      exact ended

theorem markers_token (self : S3ObjectVersionsLister)
    {output : ListObjectVersionsOutput}
    (spaceless : ' ' ∉ output.nextVersionIdMarker.getD []) :
    self.markers (token output) =
      (output.nextKeyMarker.getD [], output.nextVersionIdMarker.getD []) := by
  unfold markers token
  rw [rsplitOnceSpace_append _ spaceless]

theorem token_of_receive {output : ListObjectVersionsOutput}
    {ctx later : PageContext (ObjectEntry D)} {outcome : Except Error Unit}
    (received : self.receive debug rfc3339 ctx (.ok output) =
      .ok (outcome, later)) : later.token = token output := by
  rw [receive] at received
  obtain ⟨dirs, -, received⟩ := Panic.bind_eq_ok_iff.mp received
  obtain ⟨⟨first, middle⟩, pushed, received⟩ :=
    Panic.bind_eq_ok_iff.mp received
  have kept := (PageContext.pushAll_fields pushed).2.1
  cases first with
  | error err =>
      cases received
      exact kept
  | ok =>
      simp only at received
      split at received
      · exact ((PageContext.pushAll_fields received).2.1).trans kept
      · cases received
        exact kept

theorem Made.shows_append_iff {page others : List StoredObject}
    {made more : List (ObjectEntry D)} (of : self.Made debug page made) :
    self.Shows (page ++ others) (made ++ more) ↔
      self.Shows page made ∧ self.Shows others more := by
  have markers : self.shownMarkers (page ++ others) =
      self.shownMarkers page ++ self.shownMarkers others := by
    unfold shownMarkers
    split
    · rw [List.filterMap_append]
    · rfl
  constructor
  · intro shows
    have versions := shows.versions
    rw [List.filter_append, List.filterMap_append, List.map_append,
      List.map_append] at versions
    have deleteMarkers := shows.deleteMarkers
    rw [List.filter_append, markers, List.map_append,
      List.map_append] at deleteMarkers
    obtain ⟨first, later⟩ := List.append_inj versions (by
      rw [List.length_map, List.length_map, of.versions])
    obtain ⟨second, last⟩ := List.append_inj deleteMarkers (by
      rw [List.length_map, List.length_map, of.deleteMarkers])
    exact ⟨⟨first, second⟩, ⟨later, last⟩⟩
  · intro both
    obtain ⟨first, second⟩ := both
    constructor
    · rw [List.filter_append, List.filterMap_append, List.map_append,
        List.map_append, first.versions, second.versions]
    · rw [List.filter_append, markers, List.map_append, List.map_append,
        first.deleteMarkers, second.deleteMarkers]

/-- Only versions, when delete markers have not been asked for. -/
theorem Shows.eq_versions {objects : List StoredObject}
    {entries : List (ObjectEntry D)} (shows : self.Shows objects entries)
    (undeleted : self.args.deleted = false) :
    entries.map self.listedPair =
      (objects.filterMap StoredObject.version?).map fun object =>
        (object.key, some object.versionId) := by
  have nothing : entries.filter (fun entry => entry.metadata.isDeleted) =
      [] := by
    have none := shows.deleteMarkers
    simpa [shownMarkers, undeleted] using none
  have whole : entries.filter (fun entry => !entry.metadata.isDeleted) =
      entries := by
    rw [List.filter_eq_self]
    intro entry member
    have kept := List.filter_eq_nil_iff.mp nothing entry member
    simpa using kept
  rw [← shows.versions, whole]

/-! ## All pages -/

/-- The next request is one for exactly what a page has left. -/
theorem after_token {store : VersionStore} {output : ListObjectVersionsOutput}
    {ctx : PageContext (ObjectEntry D)} {page rest : List StoredObject}
    {object : StoredObject} (replies : store.Replies (self.request ctx) output)
    (more : output.isTruncated = some true)
    (remaining : store.after (self.request ctx) = page ++ object :: rest)
    (keyMarker : output.nextKeyMarker = some object.key)
    (versionIdMarker :
      output.nextVersionIdMarker = some object.versionId ∨
        output.nextVersionIdMarker = none ∧
          following object.key []
            (store.under (self.request ctx).keyPrefix) = rest)
    (entries : List (ObjectEntry D)) :
    store.after (self.request ⟨isDone output, token output, entries⟩) =
      rest := by
  rw [VersionStore.after, request, self.markers_token (replies.spaceless more)]
  simp only [getD_given]
  exact VersionStore.following_markers remaining keyMarker versionIdMarker

/-- A page, and what the calls behind it return. -/
theorem yields_page_iff (debug : Bool) {answer : ListObjectVersionsRequest →
      Except Error ListObjectVersionsOutput}
    {ctx : PageContext (ObjectEntry D)} {output : ListObjectVersionsOutput}
    {page : List StoredObject} (others : List StoredObject)
    (nothing : ctx.entries = []) (unfinished : ctx.done = false)
    (answered : answer (self.request ctx) = .ok output)
    (versions : self.args.versions = true)
    (holds : VersionStore.Holds page output)
    (dated : ∀ object ∈ page,
      rfc3339 object.lastModified = some (date object.lastModified))
    (below : ∀ object ∈ page, self.root.inner <+: object.key)
    (named : ∀ object ∈ page, object.key ≠ []) :
    (∃ entries, PageLister.Yields (self.pages debug rfc3339)
        (PageLister.steady answer) () ctx entries ∧
        self.Shows (page ++ others) entries) ↔
      (∀ object ∈ page, self.Fits debug object) ∧
        ∃ entries, PageLister.Yields (self.pages debug rfc3339)
          (PageLister.steady answer) ()
          ⟨isDone output, token output, []⟩ entries ∧
          self.Shows others entries := by
  have polled : PageLister.steady answer ()
      ((self.pages debug rfc3339).request ctx) = (.ok output, ()) := by
    show (answer (self.request ctx), ()) = _
    rw [answered]
  rcases receive_page debug versions holds dated below named ctx with
    ⟨panic, panicked, object, member, bad⟩ | ⟨made, received, of⟩
  · constructor
    · intro found
      obtain ⟨entries, yields, -⟩ := found
      exact absurd yields (PageLister.not_yields_panicked nothing unfinished
        polled panicked)
    · intro found
      exact absurd (found.1 object member) bad
  · have yields_iff : ∀ entries,
        PageLister.Yields (self.pages debug rfc3339)
            (PageLister.steady answer) () ctx entries ↔
          ∃ rest, entries = made ++ rest ∧
            PageLister.Yields (self.pages debug rfc3339)
              (PageLister.steady answer) ()
              ⟨isDone output, token output, []⟩ rest := by
      intro entries
      rw [PageLister.yields_received nothing unfinished polled received,
        nothing, List.nil_append, PageLister.yields_pop]
    rw [← of.shows_iff]
    constructor
    · intro found
      obtain ⟨entries, yields, shows⟩ := found
      obtain ⟨rest, rfl, later⟩ := (yields_iff entries).mp yields
      obtain ⟨first, others⟩ := of.shows_append_iff.mp shows
      exact ⟨first, rest, later, others⟩
    · intro found
      obtain ⟨first, rest, later, others⟩ := found
      exact ⟨made ++ rest, (yields_iff _).mpr ⟨rest, rfl, later⟩,
        of.shows_append_iff.mpr ⟨first, others⟩⟩

/-- The calls return entries that stand for all that is left, and then the
end, exactly if each of it fits. -/
theorem drains_iff (debug : Bool) (versions : self.args.versions = true)
    (recursive : self.delimiter = []) {store : VersionStore}
    {answer : ListObjectVersionsRequest →
      Except Error ListObjectVersionsOutput}
    (serves : ∀ request, request.delimiter = none →
      ∃ output, answer request = .ok output ∧ store.Replies request output)
    (dated : ∀ object ∈ store.objects,
      rfc3339 object.lastModified = some (date object.lastModified))
    {ctx : PageContext (ObjectEntry D)} (nothing : ctx.entries = [])
    (unfinished : ctx.done = false) :
    (∃ entries, PageLister.Yields (self.pages debug rfc3339)
        (PageLister.steady answer) () ctx entries ∧
        self.Shows (store.after (self.request ctx)) entries) ↔
      ∀ object ∈ store.after (self.request ctx), self.Fits debug object := by
  -- Every page leaves fewer objects, whatever its size is.
  induction measured : (store.after (self.request ctx)).length
    using Nat.strong_induction_on generalizing ctx with
  | _ measure induction =>
      subst measured
      have undelimited : (self.request ctx).delimiter = none := by
        show given self.delimiter = none
        rw [recursive]
        rfl
      obtain ⟨output, answered, replies⟩ := serves _ undelimited
      have below : ∀ object ∈ store.after (self.request ctx),
          self.root.inner <+: object.key := by
        intro object member
        have inside := (store.after_suffix _).subset member
        have starts := (List.mem_filter.mp inside).2
        rw [List.isPrefixOf_iff_prefix] at starts
        simp only [request, getD_given] at starts
        exact (self.root.inner_prefix_buildAbsPath _).trans starts
      have parsed : ∀ object ∈ store.after (self.request ctx),
          rfc3339 object.lastModified =
            some (date object.lastModified) := by
        intro object member
        exact dated object (VersionStore.mem_of_mem_after member)
      have named : ∀ object ∈ store.after (self.request ctx),
          object.key ≠ [] := by
        intro object member
        exact store.named object (VersionStore.mem_of_mem_after member)
      have replied := replies
      cases replies with
      | last holds ended =>
          have finished : isDone output = true := by simp [isDone, ended]
          have page := yields_page_iff debug [] nothing unfinished answered
            versions holds parsed below named
          rw [List.append_nil] at page
          rw [page, and_iff_left_iff_imp]
          intro _
          refine ⟨[], ?_, by constructor <;> simp [shownMarkers]⟩
          exact (PageLister.yields_ended rfl finished).mpr rfl
      | @truncated page rest object remaining holds more keyMarker
          versionIdMarker =>
          have whole : store.after (self.request ctx) =
              (page ++ [object]) ++ rest := by
            rw [remaining]
            simp
          have inside : ∀ other ∈ page ++ [object],
              other ∈ store.after (self.request ctx) :=
            fun other member => whole ▸ List.mem_append_left rest member
          let later : PageContext (ObjectEntry D) :=
            ⟨isDone output, token output, []⟩
          have left : store.after (self.request later) = rest :=
            self.after_token replied more remaining keyMarker versionIdMarker []
          have fewer : (store.after (self.request later)).length <
              (store.after (self.request ctx)).length := by
            rw [left, whole]
            simp
            omega
          have running : later.done = false := by
            simp [later, isDone, more]
          have rests := induction _ fewer rfl running rfl
          rw [left] at rests
          rw [whole, yields_page_iff debug rest nothing unfinished answered
              versions holds (fun other member => parsed other (inside other member))
              (fun other member => below other (inside other member))
              (fun other member => named other (inside other member)),
            rests]
          exact List.forall_mem_append.symm

end S3ObjectVersionsLister

/-! ## Pages of a size -/

/-- A server with pages of a size, which gives both markers. -/
def VersionStore.answer (store : VersionStore) (size : Nat)
    (request : ListObjectVersionsRequest) :
    Except Error ListObjectVersionsOutput :=
  let remaining := store.after request
  let page := remaining.take size
  let more := decide (size < remaining.length)
  .ok
    { isTruncated := some more
      nextKeyMarker :=
        if more then page.getLast?.map StoredObject.key else none
      nextVersionIdMarker :=
        if more then page.getLast?.map StoredObject.versionId else none
      commonPrefixes := []
      version := page.filterMap StoredObject.version?
      deleteMarker := page.filterMap StoredObject.deleteMarker? }

theorem VersionStore.replies_answer (store : VersionStore) {size : Nat}
    (positive : 1 ≤ size) (request : ListObjectVersionsRequest) :
    ∃ output, store.answer size request = .ok output ∧
      store.Replies request output := by
  refine ⟨_, rfl, ?_⟩
  by_cases more : size < (store.after request).length
  · obtain ⟨before, rfl⟩ := Nat.exists_eq_add_of_le' positive
    have inside : before < (store.after request).length := by omega
    have page : (store.after request).take (before + 1) =
        (store.after request).take before ++ [(store.after request)[before]] :=
      List.take_succ_eq_append_getElem inside
    have last : ((store.after request).take (before + 1)).getLast? =
        some (store.after request)[before] := by
      rw [page, List.getLast?_concat]
    have whole : store.after request =
        (store.after request).take before ++
          (store.after request)[before] ::
            (store.after request).drop (before + 1) := by
      rw [← List.drop_eq_getElem_cons inside, List.take_append_drop]
    apply Replies.truncated whole
    · exact ⟨rfl, by rw [page], by rw [page]⟩
    · simp [more]
    · simp only [more, decide_true, if_true, last, Option.map_some]
    · left
      simp only [more, decide_true, if_true, last, Option.map_some]
  · have whole : (store.after request).take size = store.after request :=
      List.take_of_length_le (by omega)
    apply Replies.last
    · exact ⟨rfl, by rw [whole], by rw [whole]⟩
    · simp [more]

/-- Two versions of a key with a space and a delete marker, below a root. -/
def spacedStore : VersionStore where
  objects :=
    [.version ⟨"r/a b".toList, "2".toList, true, 7, "now".toList, none⟩,
      .version ⟨"r/a b".toList, "1".toList, false, 5, "now".toList, none⟩,
      .deleteMarker ⟨"r/c".toList, "1".toList, true, "now".toList⟩]
  sorted := by decide
  distinct := by decide
  named := by decide
  spaceless := by decide

/-- Two objects whose keys differ by a leading `/`. -/
def slashedStore : VersionStore where
  objects :=
    [.version ⟨"/a".toList, "1".toList, true, 7, "now".toList, none⟩,
      .version ⟨"a".toList, "1".toList, true, 5, "now".toList, none⟩]
  sorted := by decide
  distinct := by decide
  named := by decide
  spaceless := by decide

end OpenDal
