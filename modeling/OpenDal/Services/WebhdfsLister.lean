import OpenDal.Raw.PathNames
import OpenDal.Services.GcsRequests
import OpenDal.Services.PageListers

/-!
# Listing a WebHDFS directory in pages

The service returns the children of a directory that come after a name, and
says how many remain.  The lister asks for the next page with the name of the
last child, which it puts into the query of the URL as it is.  The service
decodes the query, so that what it reads may be another name.

The directory itself is the first entry of the last page.
-/

namespace OpenDal

open Path PercentEncoding

/-! ## Messages -/

inductive FileStatusType where
  | directory
  | file
deriving DecidableEq, Repr

structure FileStatus where
  length : Nat
  modificationTime : Int
  pathSuffix : Text
  ty : FileStatusType
deriving DecidableEq

structure DirectoryListing where
  fileStatus : List FileStatus
  remainingEntries : Nat

/-- `refusal` is what `parse_error` makes of the reply, and the others are what
the body holds, if it has the fields of the message. -/
structure WebhdfsListReply where
  status : Nat
  fileStatuses : Option (List FileStatus)
  directoryListing : Option DirectoryListing
  refusal : Error

def newJsonDeserializeError : Error :=
  .new .unexpected "deserialize json"

namespace WebhdfsListReply

def readStatuses (reply : WebhdfsListReply) :
    Except Error (List FileStatus) :=
  match reply.fileStatuses with
  | some statuses => .ok statuses
  | none => .error newJsonDeserializeError

/-- The number of the remaining entries is a `u32`. -/
def readListing (reply : WebhdfsListReply) : Except Error DirectoryListing :=
  match reply.directoryListing with
  | some listing =>
      if listing.remainingEntries < UInt32.size then
        .ok listing
      else
        .error newJsonDeserializeError
  | none => .error newJsonDeserializeError

end WebhdfsListReply

/-! ## Requests -/

/-- What `list` reads of the backend.  `accepts` says whether the `http` crate
takes a URL, which is modelled without the endpoint. -/
structure WebhdfsListBackend where
  root : Path
  auth : Option Text
  disableListBatch : Bool
  accepts : Text → Bool

namespace WebhdfsListBackend

def route (backend : WebhdfsListBackend) (path : Path) : Text :=
  let p := buildAbsPath backend.root path
  "/webhdfs/v1/".toList ++ percentEncodePath p

def authQuery (backend : WebhdfsListBackend) : Text :=
  match backend.auth with
  | some auth => '&' :: auth
  | none => []

def webhdfsListStatusRequest (backend : WebhdfsListBackend) (path : Path) :
    Option Request :=
  buildRequest backend.accepts .get
    (backend.route path ++ '?' :: "op=LISTSTATUS".toList ++
      backend.authQuery)

def webhdfsListStatusBatchRequest (backend : WebhdfsListBackend)
    (path : Path) (startAfter : Text) : Option Request :=
  let url := backend.route path ++ '?' :: "op=LISTSTATUS_BATCH".toList
  let url :=
    if startAfter.isEmpty then
      url
    else
      url ++ '&' :: "startAfter=".toList ++ startAfter
  buildRequest backend.accepts .get (url ++ backend.authQuery)

end WebhdfsListBackend

/-! ## `WebhdfsLister` -/

/-- `trim_end_matches('/')`. -/
def trimEndSlashes (path : Path) : Path :=
  path.rdropWhile (· == '/')

structure WebhdfsLister where
  backend : WebhdfsListBackend
  path : Path

namespace WebhdfsListBackend

/-- `list`, when `args` is not recursive. -/
def list (backend : WebhdfsListBackend) (path : Path) : WebhdfsLister :=
  let path := trimEndSlashes path
  ⟨backend, path⟩

end WebhdfsListBackend

namespace WebhdfsLister

variable {D : Type} (debug : Bool)
  (fromTimestampMillis : Int → Except Error D)

/-- One round of the loop over the page. -/
def child (lister : WebhdfsLister) (status : FileStatus) :
    Except Panic (Except Error (Option (ObjectEntry D))) :=
  let path :=
    if lister.path.isEmpty then
      status.pathSuffix
    else
      lister.path ++ '/' :: status.pathSuffix
  match status.ty with
  | .directory => do
      let entry ← ObjectEntry.new debug (path ++ ['/']) (.new .dir)
      pure (.ok (some entry))
  | .file =>
      match fromTimestampMillis status.modificationTime with
      | .error err => pure (.error err)
      | .ok lastModified => do
          let entry ← ObjectEntry.new debug (trimEndSlashes path)
            { (ObjectMetadata.new .file : ObjectMetadata D) with
              contentLength := some status.length
              lastModified := some lastModified }
          pure (.ok (some entry))

def request (lister : WebhdfsLister) (ctx : PageContext (ObjectEntry D)) :
    Option Request :=
  if lister.backend.disableListBatch then
    lister.backend.webhdfsListStatusRequest lister.path
  else
    lister.backend.webhdfsListStatusBatchRequest lister.path ctx.token

/-- What `next_page` does with the reply; the error is one of the request. -/
def receive (lister : WebhdfsLister) (ctx : PageContext (ObjectEntry D)) :
    Except Error WebhdfsListReply →
      Except Panic (Except Error Unit × PageContext (ObjectEntry D))
  | .error err => .ok (.error err, ctx)
  | .ok reply =>
      if reply.status = 200 then
        if lister.backend.disableListBatch then do
          let itself ←
            ObjectEntry.new debug (lister.path ++ ['/']) (.new .dir)
          let ctx := { ctx with done := true }.push itself
          match reply.readStatuses with
          | .error err => pure (.error err, ctx)
          | .ok statuses =>
              ctx.pushAll (lister.child debug fromTimestampMillis) statuses
        else
          match reply.readListing with
          | .error err => .ok (.error err, ctx)
          | .ok listing => do
              let ctx ←
                if listing.remainingEntries = 0 then do
                  let itself ←
                    ObjectEntry.new debug (lister.path ++ ['/']) (.new .dir)
                  pure { ctx.push itself with done := true }
                else
                  match listing.fileStatus.getLast? with
                  | some last => pure { ctx with token := last.pathSuffix }
                  | none => pure ctx
              ctx.pushAll (lister.child debug fromTimestampMillis)
                listing.fileStatus
      else if reply.status = 404 then
        .ok (.ok (), { ctx with done := true })
      else
        .ok (.error reply.refusal, ctx)

def pages (lister : WebhdfsLister) :
    PageList (Option Request) (Except Error WebhdfsListReply)
      (ObjectEntry D) where
  request := lister.request
  receive := lister.receive debug fromTimestampMillis

end WebhdfsLister

/-! ## The service -/

/-- The order in which a service returns names. -/
structure NameOrder where
  before : List UInt8 → List UInt8 → Bool
  irrefl : ∀ name, before name name = false
  trans : ∀ {first second third}, before first second = true →
    before second third = true → before first third = true

structure HdfsDirectory (order : NameOrder) where
  children : List FileStatus
  named : ∀ child ∈ children, IsSegment child.pathSuffix
  sorted : children.Pairwise fun child later =>
    order.before (utf8 child.pathSuffix) (utf8 later.pathSuffix) = true

namespace HdfsDirectory

variable {order : NameOrder} (dir : HdfsDirectory order)

/-- The children after a name. -/
def after : Option (List UInt8) → List FileStatus
  | none => dir.children
  | some start => dir.children.filter fun child =>
      order.before start (utf8 child.pathSuffix)

/-- The token after so many children. -/
def token : Nat → Text
  | 0 => []
  | count + 1 => (dir.children[count]?.map FileStatus.pathSuffix).getD []

/-- What a request is answered with, in batches of a size.  The value of
`startAfter` is decoded once. -/
def answer (size : Nat) :
    Option Request → Except Error WebhdfsListReply
  | none => .error newRequestBuildError
  | some request =>
      let remaining := dir.after (queryValue "startAfter".toList request)
      .ok
        { status := 200
          fileStatuses := some dir.children
          directoryListing :=
            some ⟨remaining.take size, remaining.length - size⟩
          refusal := .new .unexpected "" }

theorem after_suffix (start : Option (List UInt8)) :
    dir.after start <:+ dir.children := by
  cases start with
  | none => exact List.suffix_rfl
  | some start =>
      rw [after]
      have sorted := dir.sorted
      generalize dir.children = children at sorted ⊢
      induction children with
      | nil => exact List.suffix_rfl
      | cons child children induction =>
          obtain ⟨least, sorted⟩ := List.pairwise_cons.mp sorted
          by_cases greater :
              order.before start (utf8 child.pathSuffix) = true
          · rw [List.filter_eq_self.mpr]
            intro other member
            rcases List.mem_cons.mp member with rfl | later
            · exact greater
            · exact order.trans greater (least other later)
          · rw [List.filter_cons_of_neg (by simpa using greater)]
            exact (induction sorted).trans (List.suffix_cons child children)

theorem exists_drop (start : Option (List UInt8)) :
    ∃ count, count ≤ dir.children.length ∧
      dir.after start = dir.children.drop count := by
  obtain ⟨passed, split⟩ := dir.after_suffix start
  refine ⟨passed.length, ?_, ?_⟩
  · rw [← split, List.length_append]
    omega
  · rw [← split, List.drop_left]

end HdfsDirectory

/-! ## One page -/

namespace WebhdfsLister

variable {D : Type} {debug : Bool}
  {fromTimestampMillis : Int → Except Error D} {date : Int → D}
  {order : NameOrder} {dir : HdfsDirectory order} {lister : WebhdfsLister}
  {size : Nat}

def childPath (lister : WebhdfsLister) (status : FileStatus) : Path :=
  if lister.path.isEmpty then
    status.pathSuffix
  else
    lister.path ++ '/' :: status.pathSuffix

/-- The entry of the directory. -/
def itself (lister : WebhdfsLister) : ObjectEntry D :=
  ⟨lister.path ++ ['/'], .new .dir⟩

/-- The entry of a child. -/
def entry (lister : WebhdfsLister) (date : Int → D) (status : FileStatus) :
    ObjectEntry D :=
  match status.ty with
  | .directory => ⟨lister.childPath status ++ ['/'], .new .dir⟩
  | .file => ⟨lister.childPath status,
      { (ObjectMetadata.new .file : ObjectMetadata D) with
        contentLength := some status.length
        lastModified := some (date status.modificationTime) }⟩

theorem endsWithSlash_concat (path : Path) :
    endsWithSlash (path ++ ['/']) = true :=
  endsWithSlash_iff.mpr ⟨path, rfl⟩

theorem new_dir (debug : Bool) (path : Path) :
    ObjectEntry.new debug (path ++ ['/'])
      (.new .dir : ObjectMetadata D) =
      .ok ⟨path ++ ['/'], .new .dir⟩ := by
  have whole : slashIfEmpty (path ++ ['/']) = path ++ ['/'] := by
    simp [slashIfEmpty]
  refine ObjectEntry.new_eq_ok_iff.mpr ⟨by rw [whole], fun _ => ?_⟩
  rw [whole, endsWithSlash_concat]
  exact iff_of_true rfl rfl

theorem trimEndSlashes_append (front : Path) {segment : Path}
    (isSegment : IsSegment segment) :
    trimEndSlashes (front ++ segment) = front ++ segment := by
  rcases List.eq_nil_or_concat segment with empty | ⟨stem, c, rfl⟩
  · exact absurd empty isSegment.1
  · have other : c ≠ '/' := by
      intro same
      apply isSegment.2
      simp [same]
    rw [List.concat_eq_append, ← List.append_assoc, trimEndSlashes]
    exact List.rdropWhile_concat_neg _ _ _ (by simpa using other)

theorem trimEndSlashes_childPath {status : FileStatus}
    (isSegment : IsSegment status.pathSuffix) :
    trimEndSlashes (lister.childPath status) = lister.childPath status := by
  rw [childPath]
  split
  · exact trimEndSlashes_append [] isSegment
  · rw [← List.singleton_append, ← List.append_assoc]
    exact trimEndSlashes_append _ isSegment

theorem endsWithSlash_childPath {status : FileStatus}
    (isSegment : IsSegment status.pathSuffix) :
    lister.childPath status ≠ [] ∧
      endsWithSlash (lister.childPath status) = false := by
  have stops : endsWithSlash status.pathSuffix = false := by
    by_contra ends
    rw [Bool.not_eq_false] at ends
    obtain ⟨stem, same⟩ := endsWithSlash_iff.mp ends
    apply isSegment.2
    simp [same]
  rw [childPath]
  split
  · exact ⟨isSegment.1, stops⟩
  · refine ⟨by simp, ?_⟩
    rw [← stops, Bool.eq_iff_iff]
    rcases List.eq_nil_or_concat status.pathSuffix with empty | ⟨stem, c, same⟩
    · exact absurd empty isSegment.1
    · simp [endsWithSlash, same, List.getLast?_cons]

theorem child_eq (debug : Bool) {status : FileStatus}
    (isSegment : IsSegment status.pathSuffix)
    (dated : fromTimestampMillis status.modificationTime =
      .ok (date status.modificationTime)) :
    lister.child debug fromTimestampMillis status =
      .ok (.ok (some (lister.entry date status))) := by
  have trimmed : trimEndSlashes (lister.childPath status) =
      lister.childPath status :=
    trimEndSlashes_childPath isSegment
  obtain ⟨filled, stops⟩ := lister.endsWithSlash_childPath isSegment
  have whole : slashIfEmpty (lister.childPath status) =
      lister.childPath status := by
    simp [slashIfEmpty, filled]
  unfold child entry
  cases status.ty with
  | directory =>
      show ObjectEntry.new debug (lister.childPath status ++ ['/']) _ >>=
        _ = _
      rw [new_dir]
      rfl
  | file =>
      have made : ObjectEntry.new debug (lister.childPath status)
          { (ObjectMetadata.new .file : ObjectMetadata D) with
            contentLength := some status.length
            lastModified := some (date status.modificationTime) } =
          .ok ⟨lister.childPath status,
            { (ObjectMetadata.new .file : ObjectMetadata D) with
              contentLength := some status.length
              lastModified := some (date status.modificationTime) }⟩ := by
        refine ObjectEntry.new_eq_ok_iff.mpr ⟨by rw [whole], fun _ => ?_⟩
        rw [whole, stops]
        simp [ObjectMetadata.new]
      simp only [dated]
      show ObjectEntry.new debug (trimEndSlashes (lister.childPath status)) _
        >>= _ = _
      rw [trimmed, made]
      rfl

theorem receive_page (batch : lister.backend.disableListBatch = false)
    {page : List FileStatus} {remaining : Nat}
    {statuses : Option (List FileStatus)} {refusal : Error}
    (made : ∀ status ∈ page, lister.child debug fromTimestampMillis status =
      .ok (.ok (some (lister.entry date status))))
    (small : remaining < UInt32.size) (token : Text) :
    lister.receive debug fromTimestampMillis ⟨false, token, []⟩
        (.ok ⟨200, statuses, some ⟨page, remaining⟩, refusal⟩) =
      .ok (.ok (),
        if remaining = 0 then
          ⟨true, token, lister.itself :: page.map (lister.entry date)⟩
        else
          ⟨false, (page.getLast?.map FileStatus.pathSuffix).getD token,
            page.map (lister.entry date)⟩) := by
  have mapped : page.filterMap
      (fun status => some (lister.entry date status)) =
      page.map (lister.entry date) :=
    congrFun List.filterMap_eq_map page
  simp only [receive, batch, WebhdfsListReply.readListing, small, new_dir,
    PageContext.pushAll_ok made, mapped, if_true, Bool.false_eq_true,
    if_false]
  by_cases last : remaining = 0
  · simp [last, PageContext.push, itself, bind, Except.bind, pure,
      Except.pure]
  · cases page.getLast? with
    | none => simp [last, bind, Except.bind, pure, Except.pure]
    | some status => simp [last, bind, Except.bind, pure, Except.pure]

/-! ## What follows a token -/

/-- What the service returns of the directory for a token, or nothing if there
is no such request. -/
def behind (lister : WebhdfsLister) (dir : HdfsDirectory order)
    (token : Text) : Option (List FileStatus) :=
  (lister.backend.webhdfsListStatusBatchRequest lister.path token).map
    fun request => dir.after (queryValue "startAfter".toList request)

/-- The entries that follow a token, and then the end. -/
def YieldsBehind (debug : Bool)
    (fromTimestampMillis : Int → Except Error D) (lister : WebhdfsLister)
    (dir : HdfsDirectory order) (size : Nat)
    (token : Text) (entries : List (ObjectEntry D)) : Prop :=
  PageLister.Yields (lister.pages debug fromTimestampMillis)
    (PageLister.steady (dir.answer size)) () ⟨false, token, []⟩ entries

/-- All children can be made into entries. -/
def Dated (fromTimestampMillis : Int → Except Error D) (date : Int → D)
    (dir : HdfsDirectory order) : Prop :=
  ∀ child ∈ dir.children, fromTimestampMillis child.modificationTime =
    .ok (date child.modificationTime)

variable {token : Text} {entries : List (ObjectEntry D)}
  {rest : List FileStatus}

theorem request_eq (batch : lister.backend.disableListBatch = false) :
    (lister.pages debug fromTimestampMillis).request ⟨false, token, []⟩ =
      lister.backend.webhdfsListStatusBatchRequest lister.path token := by
  simp [pages, request, batch]

theorem not_yields_of_none
    (batch : lister.backend.disableListBatch = false)
    (unbuilt : lister.behind dir token = none) :
    ¬ lister.YieldsBehind debug fromTimestampMillis dir size token entries := by
  rw [behind, Option.map_eq_none_iff] at unbuilt
  have refused : PageLister.steady (dir.answer size) ()
      ((lister.pages debug fromTimestampMillis).request ⟨false, token, []⟩) =
      (.error newRequestBuildError, ()) := by
    rw [request_eq batch, unbuilt]
    rfl
  exact PageLister.not_yields_failed rfl rfl refused rfl

theorem steady_answer (batch : lister.backend.disableListBatch = false)
    (found : lister.behind dir token = some rest) :
    PageLister.steady (dir.answer size) ()
        ((lister.pages debug fromTimestampMillis).request ⟨false, token, []⟩) =
      (.ok ⟨200, some dir.children,
        some ⟨rest.take size, rest.length - size⟩, .new .unexpected ""⟩,
        ()) := by
  obtain ⟨request, built, rfl⟩ := Option.map_eq_some_iff.mp found
  rw [request_eq batch, built]
  rfl

theorem mem_of_behind (found : lister.behind dir token = some rest) :
    ∀ child ∈ rest, child ∈ dir.children := by
  obtain ⟨request, -, rfl⟩ := Option.map_eq_some_iff.mp found
  exact (dir.after_suffix _).subset

theorem yields_page (batch : lister.backend.disableListBatch = false)
    (dated : Dated fromTimestampMillis date dir)
    (found : lister.behind dir token = some rest)
    (small : rest.length - size < UInt32.size) :
    lister.YieldsBehind debug fromTimestampMillis dir size token entries ↔
      PageLister.Yields (lister.pages debug fromTimestampMillis)
        (PageLister.steady (dir.answer size)) ()
        (if rest.length - size = 0 then
          ⟨true, token,
            lister.itself :: (rest.take size).map (lister.entry date)⟩
        else
          ⟨false, ((rest.take size).getLast?.map
              FileStatus.pathSuffix).getD token,
            (rest.take size).map (lister.entry date)⟩) entries := by
  have made : ∀ child ∈ rest.take size,
      lister.child debug fromTimestampMillis child =
        .ok (.ok (some (lister.entry date child))) := by
    intro child member
    have inside := mem_of_behind found child (List.mem_of_mem_take member)
    exact child_eq debug (dir.named child inside) (dated child inside)
  exact PageLister.yields_received rfl rfl (steady_answer batch found)
    (receive_page batch made small token)

theorem yields_last (batch : lister.backend.disableListBatch = false)
    (dated : Dated fromTimestampMillis date dir)
    (found : lister.behind dir token = some rest)
    (fits : rest.length ≤ size) :
    lister.YieldsBehind debug fromTimestampMillis dir size token entries ↔
      entries = lister.itself :: rest.map (lister.entry date) := by
  have none : rest.length - size = 0 := by omega
  have small : rest.length - size < UInt32.size := by
    rw [none]
    decide
  rw [yields_page batch dated found small, if_pos none,
    List.take_of_length_le fits, PageLister.yields_pop]
  constructor
  · intro shape
    obtain ⟨more, rfl, yields⟩ := shape
    rw [PageLister.yields_ended rfl rfl] at yields
    rw [yields, List.append_nil]
  · intro same
    refine ⟨[], ?_, ?_⟩
    · rw [same, List.append_nil]
    · exact (PageLister.yields_ended rfl rfl).mpr rfl

theorem yields_more (batch : lister.backend.disableListBatch = false)
    (dated : Dated fromTimestampMillis date dir)
    (found : lister.behind dir token = some rest)
    (positive : 1 ≤ size) (longer : size < rest.length)
    (inside : size - 1 < rest.length)
    (small : rest.length - size < UInt32.size) :
    lister.YieldsBehind debug fromTimestampMillis dir size token entries ↔
      ∃ more,
        entries = (rest.take size).map (lister.entry date) ++ more ∧
        lister.YieldsBehind debug fromTimestampMillis dir size
          rest[size - 1].pathSuffix more := by
  have remains : rest.length - size ≠ 0 := by omega
  have last : (rest.take size).getLast? = rest[size - 1]? := by
    rw [List.getLast?_take, if_neg (by omega),
      List.getElem?_eq_getElem (by omega), Option.some_or]
  rw [yields_page batch dated found small, if_neg remains, last,
    List.getElem?_eq_getElem (by omega), PageLister.yields_pop]
  rfl

/-- More children remain than a `u32` can say. -/
theorem not_yields_of_many
    (batch : lister.backend.disableListBatch = false)
    (found : lister.behind dir token = some rest)
    (many : ¬ rest.length - size < UInt32.size) :
    ¬ lister.YieldsBehind debug fromTimestampMillis dir size token entries := by
  have failed : lister.receive debug fromTimestampMillis ⟨false, token, []⟩
      (.ok ⟨200, some dir.children,
        some ⟨rest.take size, rest.length - size⟩, .new .unexpected ""⟩) =
      .ok (.error newJsonDeserializeError, ⟨false, token, []⟩) := by
    simp only [receive, batch, WebhdfsListReply.readListing, many, if_true,
      Bool.false_eq_true, if_false]
  exact PageLister.not_yields_failed rfl rfl (steady_answer batch found)
    failed

/-! ## All pages -/

/-- The service goes on after so many children. -/
def ContinuesAfter (lister : WebhdfsLister) (dir : HdfsDirectory order)
    (count : Nat) : Prop :=
  lister.behind dir (dir.token count) = some (dir.children.drop count)

instance (lister : WebhdfsLister) (dir : HdfsDirectory order)
    (count : Nat) : Decidable (lister.ContinuesAfter dir count) :=
  inferInstanceAs (Decidable (_ = _))

theorem token_add {count size : Nat} (positive : 1 ≤ size)
    (inside : size - 1 < (dir.children.drop count).length) :
    ((dir.children.drop count)[size - 1]).pathSuffix =
      dir.token (count + size) := by
  have place : count + size = count + (size - 1) + 1 := by omega
  have found : dir.children[count + (size - 1)]? =
      some (dir.children.drop count)[size - 1] := by
    rw [← List.getElem?_drop, List.getElem?_eq_getElem inside]
  rw [place, HdfsDirectory.token, found]
  rfl

/-- If the service goes on in the right place at the end of every page, all
children that are left become entries, and there is no other run. -/
theorem yields_all (batch : lister.backend.disableListBatch = false)
    (dated : Dated fromTimestampMillis date dir) (positive : 1 ≤ size)
    {count : Nat} (inside : count ≤ dir.children.length)
    (small : dir.children.length - count - size < UInt32.size)
    (right : ∀ later, count < later → later < dir.children.length →
      (later - count) % size = 0 → lister.ContinuesAfter dir later)
    (found : lister.behind dir token = some (dir.children.drop count)) :
    ∃ listed,
      listed.Perm (lister.itself ::
        (dir.children.drop count).map (lister.entry date)) ∧
      ∀ entries,
        lister.YieldsBehind debug fromTimestampMillis dir size token entries ↔
          entries = listed := by
  -- by induction on the number of children that are left
  induction left : dir.children.length - count using Nat.strong_induction_on
    generalizing count token with
  | _ left induction =>
      subst left
      have long := List.length_drop (l := dir.children) (i := count)
      by_cases fits : dir.children.length - count ≤ size
      · refine ⟨_, List.Perm.refl _, ?_⟩
        intro entries
        exact yields_last batch dated found (by omega)
      · have next : lister.ContinuesAfter dir (count + size) := by
          apply right
          · omega
          · omega
          · rw [Nat.add_sub_cancel_left, Nat.mod_self]
        obtain ⟨listed, perm, unique⟩ :=
          induction (dir.children.length - (count + size)) (by omega)
            (by omega) (by omega)
            (fun later above below multiple => by
              apply right later (by omega) below
              have moved : later - count = later - (count + size) + size := by
                omega
              rw [moved, Nat.add_mod_right, multiple])
            next rfl
        have split : (dir.children.drop count).take size ++
            dir.children.drop (count + size) = dir.children.drop count := by
          rw [← List.drop_drop, List.take_append_drop]
        refine ⟨((dir.children.drop count).take size).map
          (lister.entry date) ++ listed, ?_, ?_⟩
        · conv_rhs => rw [← split, List.map_append]
          exact (perm.append_left _).trans List.perm_middle
        · intro entries
          rw [yields_more batch dated found positive (by omega) (by omega)
              (by omega), token_add positive (by omega)]
          constructor
          · intro shape
            obtain ⟨more, rfl, yields⟩ := shape
            rw [(unique more).mp yields]
          · intro same
            exact ⟨listed, same, (unique listed).mpr rfl⟩

/-! ## Different entries -/

theorem components_childPath {status : FileStatus}
    (isSegment : IsSegment status.pathSuffix) :
    components (lister.childPath status) =
      components lister.path ++ [status.pathSuffix] := by
  rw [childPath]
  split
  · rename_i empty
    rw [List.isEmpty_iff.mp empty, components_segment isSegment]
    rfl
  · rw [components_append_cons, components_segment isSegment]

theorem components_entry {status : FileStatus}
    (isSegment : IsSegment status.pathSuffix) :
    components (lister.entry date status).path =
      components lister.path ++ [status.pathSuffix] := by
  rw [entry]
  cases status.ty with
  | directory =>
      rw [components_append_slash, components_childPath isSegment]
  | file => exact components_childPath isSegment

theorem components_itself :
    components (lister.itself : ObjectEntry D).path =
      components lister.path := by
  rw [itself, components_append_slash]

theorem nodup_names (dir : HdfsDirectory order) :
    (dir.children.map FileStatus.pathSuffix).Nodup := by
  rw [List.Nodup, List.pairwise_map]
  apply dir.sorted.imp
  intro child later smaller same
  rw [same, order.irrefl] at smaller
  cases smaller

theorem nodup_entries (dir : HdfsDirectory order) :
    (lister.itself :: dir.children.map (lister.entry date)).Nodup := by
  apply List.Nodup.of_map fun entry => components entry.path
  rw [List.map_cons, List.map_map, components_itself, List.nodup_cons]
  have paths : dir.children.map
      ((fun entry => components entry.path) ∘ lister.entry date) =
      (dir.children.map FileStatus.pathSuffix).map
        fun name => components lister.path ++ [name] := by
    rw [List.map_map]
    exact List.map_congr_left fun child member =>
      components_entry (dir.named child member)
  rw [paths]
  constructor
  · intro member
    obtain ⟨name, -, same⟩ := List.mem_map.mp member
    have longer := congrArg List.length same
    rw [List.length_append, List.length_singleton] at longer
    omega
  · apply (nodup_names dir).map
    intro left right same
    simpa using same

/-! ## Every directory -/

/-- The lister returns the directory and its children, each of them once, and
then the end. -/
def Lists (debug : Bool) (fromTimestampMillis : Int → Except Error D)
    (date : Int → D) (lister : WebhdfsLister) (dir : HdfsDirectory order)
    (size : Nat) : Prop :=
  ∃ entries,
    PageLister.Yields (lister.pages debug fromTimestampMillis)
      (PageLister.steady (dir.answer size)) () .new entries ∧
    entries.Perm (lister.itself :: dir.children.map (lister.entry date))

/-- It is enough that the service goes on in the right place after every page
but the last one. -/
theorem lists_of_continues
    (batch : lister.backend.disableListBatch = false)
    (dated : Dated fromTimestampMillis date dir) (positive : 1 ≤ size)
    (small : dir.children.length - size < UInt32.size)
    (first : lister.ContinuesAfter dir 0)
    (right : ∀ count, 0 < count → count < dir.children.length →
      count % size = 0 → lister.ContinuesAfter dir count) :
    Lists debug fromTimestampMillis date lister dir size := by
  obtain ⟨listed, perm, unique⟩ :=
    yields_all batch dated positive (Nat.zero_le _) small
      (fun later above below multiple => right later above below multiple)
      first
  exact ⟨listed, (unique listed).mpr rfl, perm⟩

/-- After a page of `count` children the service goes on in the right place,
if it does so after every longer one. -/
theorem continues_of_lists
    (batch : lister.backend.disableListBatch = false)
    (dated : Dated fromTimestampMillis date dir) {count : Nat}
    (positive : 0 < count) (inside : count < dir.children.length)
    (bound : dir.children.length ≤ UInt32.size)
    (first : lister.ContinuesAfter dir 0)
    (right : ∀ later, count < later → later < dir.children.length →
      lister.ContinuesAfter dir later)
    (lists : Lists debug fromTimestampMillis date lister dir count) :
    lister.ContinuesAfter dir count := by
  have whole : (dir.children.drop 0).length = dir.children.length := by
    rw [List.drop_zero]
  obtain ⟨entries, yields, perm⟩ := lists
  obtain ⟨more, rfl, later⟩ := (yields_more batch dated first positive
    (by omega) (by omega) (by omega)).mp yields
  rw [token_add positive (by omega), Nat.zero_add] at later
  rw [List.drop_zero] at perm
  have total := perm.length_eq
  simp only [List.length_append, List.length_map, List.length_take,
    List.length_cons] at total
  rcases found : lister.behind dir (dir.token count) with _ | rest
  · exact absurd later (not_yields_of_none batch found)
  · obtain ⟨request, -, after⟩ := Option.map_eq_some_iff.mp found
    obtain ⟨start, within, dropped⟩ :=
      dir.exists_drop (queryValue "startAfter".toList request)
    rw [after] at dropped
    have long := List.length_drop (l := dir.children) (i := start)
    rw [← dropped] at long
    rcases Nat.lt_trichotomy start count with earlier | same | skipped
    · -- a child that has been returned is returned again
      by_cases fits : rest.length ≤ count
      · have listed := (yields_last batch dated found fits).mp later
        rw [listed, List.length_cons, List.length_map] at total
        omega
      · obtain ⟨others, rfl, -⟩ := (yields_more batch dated found positive
          (by omega) (by omega) (by omega)).mp later
        have distinct := perm.nodup_iff.mpr (nodup_entries dir)
        rw [List.nodup_append] at distinct
        have exists' : start < dir.children.length := by omega
        have here : dir.children[start] ∈ dir.children.take count :=
          List.mem_take_iff_getElem.mpr ⟨start, by omega, rfl⟩
        have again : dir.children[start] ∈ rest.take count := by
          rw [dropped, List.drop_eq_getElem_cons exists']
          obtain ⟨size, rfl⟩ := Nat.exists_eq_add_of_le' positive
          rw [List.take_succ_cons]
          exact List.mem_cons_self
        exact absurd rfl (distinct.2.2 _ (List.mem_map_of_mem here) _
          (List.mem_append_left _ (List.mem_map_of_mem again)))
    · rw [ContinuesAfter, found, dropped, same]
    · -- those in between are never returned
      rw [dropped] at found
      obtain ⟨listed, others, unique⟩ := yields_all batch dated positive
        within (by omega)
        (fun next above below _ => right next (by omega) below) found
      rw [(unique more).mp later, others.length_eq, List.length_cons,
        List.length_map, List.length_drop] at total
      omega

section Always

variable (always : ∀ size, 1 ≤ size →
  Lists debug fromTimestampMillis date lister dir size)

include always

/-- In one page everything has to be there. -/
theorem continues_first (batch : lister.backend.disableListBatch = false)
    (dated : Dated fromTimestampMillis date dir) :
    lister.ContinuesAfter dir 0 := by
  obtain ⟨entries, yields, perm⟩ :=
    always (dir.children.length + 1) (Nat.le_add_left 1 _)
  rcases found : lister.behind dir (dir.token 0) with _ | rest
  · exact absurd yields (not_yields_of_none batch found)
  · obtain ⟨request, -, after⟩ := Option.map_eq_some_iff.mp found
    obtain ⟨count, inside, dropped⟩ :=
      dir.exists_drop (queryValue "startAfter".toList request)
    rw [after] at dropped
    have long := List.length_drop (l := dir.children) (i := count)
    rw [← dropped] at long
    have listed := (yields_last batch dated found (by omega)).mp yields
    rw [listed] at perm
    have same := perm.length_eq
    simp only [List.length_cons, List.length_map] at same
    have zero : count = 0 ∨ dir.children.length = 0 := by omega
    rw [ContinuesAfter, found, dropped]
    rcases zero with none | empty
    · rw [none]
    · rw [List.length_eq_zero_iff.mp empty, List.drop_nil, List.drop_nil]

theorem length_le (batch : lister.backend.disableListBatch = false)
    (dated : Dated fromTimestampMillis date dir) :
    dir.children.length ≤ UInt32.size := by
  have first := continues_first always batch dated
  obtain ⟨entries, yields, -⟩ := always 1 (Nat.le_refl 1)
  by_contra longer
  have many : ¬ (dir.children.drop 0).length - 1 < UInt32.size := by
    rw [List.drop_zero]
    omega
  exact not_yields_of_many batch first many yields

theorem continues_always (batch : lister.backend.disableListBatch = false)
    (dated : Dated fromTimestampMillis date dir) {count : Nat}
    (inside : count = 0 ∨ count < dir.children.length) :
    lister.ContinuesAfter dir count := by
  induction left : dir.children.length - count using Nat.strong_induction_on
    generalizing count with
  | _ left induction =>
      subst left
      rcases Nat.eq_zero_or_pos count with none | positive
      · rw [none]
        exact continues_first always batch dated
      · have below : count < dir.children.length := by omega
        apply continues_of_lists batch dated positive below
          (length_le always batch dated) (continues_first always batch dated)
        · intro later above inside
          exact induction (dir.children.length - later) (by omega)
            (.inr inside) rfl
        · exact always count positive

end Always

/-- What is listed is complete for pages of every size if and only if the
service goes on in the right place after every child but the last, and for
pages of one size already if it does so after those pages.  The number of the
children must be one that the client can read. -/
theorem paged_listing_iff (debug : Bool) {backend : WebhdfsListBackend}
    (batch : backend.disableListBatch = false) (path : Path)
    (dated : Dated fromTimestampMillis date dir) :
    (∀ size, 1 ≤ size → dir.children.length - size < UInt32.size →
      (backend.list path).ContinuesAfter dir 0 →
      (∀ count, 0 < count → count < dir.children.length →
        count % size = 0 → (backend.list path).ContinuesAfter dir count) →
      Lists debug fromTimestampMillis date (backend.list path) dir size) ∧
    ((∀ size, 1 ≤ size →
        Lists debug fromTimestampMillis date (backend.list path) dir size) ↔
      dir.children.length ≤ UInt32.size ∧
        ∀ count, count = 0 ∨ count < dir.children.length →
          (backend.list path).ContinuesAfter dir count) := by
  constructor
  · intro size positive small first right
    exact lists_of_continues batch dated positive small first right
  · constructor
    · intro always
      refine ⟨length_le always batch dated, ?_⟩
      intro count inside
      exact continues_always always batch dated inside
    · intro condition size positive
      obtain ⟨bound, right⟩ := condition
      have size32 : 0 < UInt32.size := by decide
      apply lists_of_continues batch dated positive (by omega)
        (right 0 (.inl rfl))
      intro count _ inside _
      exact right count (.inr inside)

end WebhdfsLister

/-! ## Two files -/

/-- Names are in the order of their bytes. -/
def byBytes : NameOrder where
  before left right := decide (left.map UInt8.toNat < right.map UInt8.toNat)
  irrefl name := by simp
  trans smaller greater := by
    rw [decide_eq_true_eq] at smaller greater ⊢
    exact List.lt_trans smaller greater

def emptyFile (name : Text) : FileStatus :=
  ⟨0, 0, name, .file⟩

section TwoFiles

variable {first second : Text}

theorem named_emptyFiles (firstName : IsSegment first)
    (secondName : IsSegment second) :
    ∀ child ∈ [emptyFile first, emptyFile second],
      IsSegment child.pathSuffix := by
  intro child member
  rcases List.mem_cons.mp member with rfl | later
  · exact firstName
  · rw [List.mem_singleton.mp later]
    exact secondName

theorem sorted_emptyFiles
    (smaller : byBytes.before (utf8 first) (utf8 second) = true) :
    [emptyFile first, emptyFile second].Pairwise fun child later =>
      byBytes.before (utf8 child.pathSuffix) (utf8 later.pathSuffix) =
        true := by
  rw [List.pairwise_pair]
  exact smaller

def twoFiles (first second : Text) (firstName : IsSegment first)
    (secondName : IsSegment second)
    (smaller : byBytes.before (utf8 first) (utf8 second) = true) :
    HdfsDirectory byBytes where
  children := [emptyFile first, emptyFile second]
  named := named_emptyFiles firstName secondName
  sorted := sorted_emptyFiles smaller

end TwoFiles

/-- A backend with the root `/`.  All URLs that it makes of printable
characters are taken. -/
def slashBackend : WebhdfsListBackend where
  root := ['/']
  auth := none
  disableListBatch := false
  accepts url := url.all fun c => 33 ≤ c.toNat && c.toNat ≤ 126

def ampersandDirectory : HdfsDirectory byBytes :=
  twoFiles ['a', '&', 'b'] ['c'] ⟨by decide, by decide⟩
    ⟨by decide, by decide⟩ (by decide)

/-- The name `a&b` is read as `a`, so that the first page comes again. -/
theorem ampersand_is_listed_again :
    ¬ WebhdfsLister.Lists false (fun millis => .ok millis) id
      (slashBackend.list ['d', '/']) ampersandDirectory 1 := by
  intro lists
  have first : (slashBackend.list ['d', '/']).ContinuesAfter
      ampersandDirectory 0 := by
    decide
  have second : ¬ (slashBackend.list ['d', '/']).ContinuesAfter
      ampersandDirectory 1 := by
    decide
  apply second
  apply WebhdfsLister.continues_of_lists rfl (fun _ _ => rfl) (by decide)
    (by decide) (by decide) first _ lists
  intro later above below
  have two : ampersandDirectory.children.length = 2 := rfl
  omega

def plainDirectory : HdfsDirectory byBytes :=
  twoFiles ['a'] ['b'] ⟨by decide, by decide⟩ ⟨by decide, by decide⟩
    (by decide)

/-- The names `a` and `b` are read as they are. -/
theorem paged_listing_iff_plain :
    WebhdfsLister.Lists true (fun millis => .ok millis) id
      (slashBackend.list ['d', '/']) plainDirectory 1 := by
  have dated : WebhdfsLister.Dated (fun millis => .ok millis) id
      plainDirectory :=
    fun _ _ => rfl
  have right : ∀ count,
      count = 0 ∨ count < plainDirectory.children.length →
        (slashBackend.list ['d', '/']).ContinuesAfter plainDirectory
          count := by
    intro count inside
    have two : plainDirectory.children.length = 2 := rfl
    have cases : count = 0 ∨ count = 1 := by omega
    rcases cases with rfl | rfl
    · decide
    · decide
  apply (WebhdfsLister.paged_listing_iff true rfl ['d', '/'] dated).2.mpr
  · exact ⟨by decide, right⟩
  · exact Nat.le_refl 1

end OpenDal
