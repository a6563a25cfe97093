import OpenDal.Layers.CompleteReader
import OpenDal.Types.BlockingRead
import OpenDal.Types.UnboundedRead

/-!
# Reading one version, asynchronously and blocking

`Reader::read` and `BlockingReader::read` of a range with an end read the same
bytes.  Without an end, the asynchronous reader sends a request without a
size, and the service reads the addressed version to its end.  The blocking
reader asks for the length first, and it asks without the version: the length
is that of the latest version.
-/

namespace OpenDal

variable {R B : Type} [Read R] [Read B]

/-! ## The complete layer -/

/-- The accessor with its readers counted. -/
def CompleteAccessor.accessor (inner : Accessor R) :
    Accessor (CompleteReader R) where
  read := CompleteAccessor.read inner
  stat := inner.stat

theorem CompleteReader.yields {r : R} {bytes : Bytes}
    (yields : Read.Yields r bytes) {size : Option Nat} {read : Nat}
    (expected : ∀ n, size = some n → n = read + bytes.length) :
    Read.Yields (CompleteReader.mk r size read) bytes := by
  induction yields generalizing read with
  | @done r later buf answered empty =>
      have passed : (CompleteReader.mk r size read).check = .ok () := by
        unfold CompleteReader.check
        cases size with
        | none => rfl
        | some n => simp [expected n rfl]
      have step := read_end answered empty size read
      rw [passed] at step
      exact .done step empty
  | @more r later buf rest answered nonempty yields induction =>
      refine .more (read_piece answered nonempty size read) nonempty
        (induction ?_)
      intro n known
      rw [expected n known, List.length_append, Buffer.length_bytes]
      omega

/-! ## Versions -/

/-- The contents of the versions; `none` is the latest one. -/
abbrev Versions := String → Option String → Option Bytes

/-- The service has these versions: it knows their lengths and answers every
request for a part of one. -/
structure HasVersions (inner : Accessor R) (content : Versions) : Prop where
  sized : ∀ {path version bytes}, content path version = some bytes →
    bytes.length < 2 ^ 64
  stat : ∀ {path version bytes}, content path version = some bytes →
    inner.stat path ⟨version⟩ = .ok bytes.length
  missing : ∀ {path version}, content path version = none →
    ∃ err, inner.stat path ⟨version⟩ = .error err
  read : ∀ {path version bytes}, content path version = some bytes →
    ∀ {offset size}, offset + size ≤ bytes.length →
    ∃ r, inner.read path ⟨⟨offset, some size⟩, version⟩ = .ok r ∧
      Read.Yields r ((bytes.drop offset).take size)
  readOpen : ∀ {path version bytes}, content path version = some bytes →
    ∀ {offset}, offset ≤ bytes.length →
    ∃ r, inner.read path ⟨⟨offset, none⟩, version⟩ = .ok r ∧
      Read.Yields r (bytes.drop offset)

/-- The context of a read through the complete layer. -/
def versionContext (inner : Accessor R) (path : String) (args : OpRead)
    (options : OpReader) : ReadContext (CompleteReader R) :=
  .new (CompleteAccessor.accessor inner) path args options

variable {content : Versions} {path : String} {args : OpRead}
  {bytes : Bytes}

theorem HasVersions.serves {inner : Accessor R}
    (versions : HasVersions inner content)
    (addressed : content path args.version = some bytes)
    (options : OpReader) :
    (versionContext inner path args options).Serves Read.Yields bytes := by
  intro offset size within
  obtain ⟨r, opened, yields⟩ := versions.read addressed within
  refine ⟨.new r (some size), ?_, ?_⟩
  · show (inner.read path ⟨⟨offset, some size⟩, args.version⟩).map _ = _
    rw [opened]
    rfl
  · apply CompleteReader.yields yields
    intro n same
    cases same
    simp
    omega

theorem HasVersions.collects_open {inner : Accessor R}
    (versions : HasVersions inner content)
    (addressed : content path args.version = some bytes)
    (options : OpReader) {offset : Nat} (within : offset ≤ bytes.length) :
    (BufferStream.idle (.one (.new (versionContext inner path args options)
      ⟨offset, none⟩))).Collects (bytes.drop offset) := by
  obtain ⟨r, opened, yields⟩ := versions.readOpen addressed within
  have complete : (versionContext inner path args options).acc.read path
      (args.withRange ⟨offset, none⟩) = .ok (CompleteReader.new r none) := by
    show (inner.read path ⟨⟨offset, none⟩, args.version⟩).map _ = _
    rw [opened]
    rfl
  apply BufferStream.collects_open complete
  apply CompleteReader.yields yields
  intro n same
  cases same

/-! ## Ranges -/

/-- The range goes from `start` to `stop` in a content of this length, and
lies inside of it. -/
structure Selects (range : RangeBounds) (length start stop : Nat) :
    Prop where
  first : range.startBound.first = some start
  behind : ∃ last, range.endBound.behind = some last ∧
    stop = last.getD length
  ordered : start ≤ stop
  inside : stop ≤ length

/-- Both readers return, and they return the same bytes. -/
def Agrees (ctx : ReadContext R) (self : BlockingReader B)
    (range : RangeBounds) : Prop :=
  ∃ stream bytes fuel buf later,
    Reader.intoStream ctx range = some (.ok stream) ∧
    stream.Collects bytes ∧
    self.read range fuel = some (.ok buf, later) ∧ buf.bytes = bytes

/-- The readers agree on one range after the other.  The blocking reader may
remember something from one read to the next. -/
def ReadsAgree (ctx : ReadContext R) :
    BlockingReader B → List RangeBounds → Prop
  | _, [] => True
  | self, range :: ranges => Agrees ctx self range ∧
      ∀ fuel result later, self.read range fuel = some (result, later) →
        ReadsAgree ctx later ranges

/-! ## The blocking reader -/

namespace BlockingReader

/-- The reader has not asked for a length, or it knows that of the latest
version. -/
structure Remembers (content : Versions) (ctx : ReadContext B)
    (reader : BlockingReader B) : Prop where
  context : reader.ctx = ctx
  length : reader.size.load = none ∨
    ∃ latest, content ctx.path none = some latest ∧
      reader.size.load = some latest.length

theorem load_store (size : AtomicContentLength) (value : Nat) :
    (size.store value).load = none ∨ (size.store value).load = some value := by
  unfold AtomicContentLength.store AtomicContentLength.load
  split
  · exact .inl rfl
  · exact .inr rfl

theorem Remembers.asks {inner : Accessor B}
    (versions : HasVersions inner content) {options : OpReader}
    {self : BlockingReader (CompleteReader B)}
    (remembers : self.Remembers content
      (versionContext inner path args options)) :
    (∃ later latest, content path none = some latest ∧
        self.contentLength = (.ok latest.length, later) ∧
        later.Remembers content (versionContext inner path args options)) ∨
      (∃ err, content path none = none ∧
        self.contentLength = (.error err, self)) := by
  unfold BlockingReader.contentLength
  rcases remembers.length with unknown | ⟨latest, current, known⟩
  · rw [unknown]
    have asked : self.ctx.acc.stat self.ctx.path ⟨none⟩ =
        inner.stat path ⟨none⟩ := by
      rw [remembers.context]
      rfl
    simp only [asked]
    cases current : content path none with
    | none =>
        obtain ⟨err, failed⟩ := versions.missing current
        rw [failed]
        exact .inr ⟨err, rfl, rfl⟩
    | some latest =>
        rw [versions.stat current]
        refine .inl ⟨_, latest, rfl, rfl, remembers.context, ?_⟩
        rcases load_store self.size latest.length with unknown | known
        · exact .inl unknown
        · exact .inr ⟨latest, current, known⟩
  · rw [known]
    exact .inl ⟨self, latest, current, rfl, remembers⟩

/-- Reading from `start` to `stop` inside of the addressed version. -/
theorem collect_version {inner : Accessor B}
    (versions : HasVersions inner content)
    (addressed : content path args.version = some bytes)
    {options : OpReader} {start stop : Nat} (ordered : start ≤ stop)
    (inside : stop ≤ bytes.length) :
    ∃ iter fuel buf,
      BufferIterator.new (versionContext inner path args options)
        ⟨.included start, .excluded stop⟩ = some iter ∧
      collect fuel [] iter = some (.ok buf) ∧
      buf.bytes = (bytes.drop start).take (stop - start) := by
  have reaches : start + (stop - start) = stop := Nat.add_sub_cancel' ordered
  have serves := versions.serves addressed options
  have range := BytesRange.fromBounds_exclusive start (stop - start)
  have stands : (BufferIterator.mk (.new
      (versionContext inner path args options)
      ⟨start, some (stop - start)⟩)).inner.toStreaming.Stands
        (Cursor.ofContent (CompleteReader B) bytes)
        (versionContext inner path args options) (start + (stop - start))
        start :=
    StreamingReader.stands_new _ _ start (stop - start)
  rw [reaches] at range stands
  obtain ⟨fuel, result, collected, blames, right⟩ :=
    collect_settles [] (Cursor.finite_ofContent bytes) (serves.opens inside)
      stands
  cases result with
  | error err => exact absurd (blames err rfl) (serves.not_blamed inside)
  | ok buf =>
      obtain ⟨others, piece, length, same⟩ := right buf rfl
      refine ⟨_, fuel, buf, ?_, collected, ?_⟩
      · simp [BufferIterator.new, range]
      · have size : stop - start = others.length := by omega
        rw [same, List.flatMap_nil, List.nil_append, size]
        exact List.prefix_iff_eq_take.mp piece

theorem collect_length {inner : Accessor B} {options : OpReader}
    {start stop fuel : Nat} {iter : BufferIterator (CompleteReader B)}
    {buf : Buffer}
    (built : BufferIterator.new (versionContext inner path args options)
      ⟨.included start, .excluded stop⟩ = some iter)
    (collected : collect fuel [] iter = some (.ok buf)) :
    start + buf.len = stop := by
  obtain ⟨range, parsed, same⟩ := Option.bind_eq_some_iff.mp built
  cases same
  have ordered : start ≤ stop := by
    by_contra inverted
    simp [BytesRange.fromBounds, BytesRange.startOf, checkedSub,
      inverted] at parsed
  obtain ⟨size, rfl⟩ := Nat.exists_eq_add_of_le ordered
  rw [BytesRange.fromBounds_exclusive] at parsed
  cases parsed
  have stands := StreamingReader.stands_new (CompleteReader.cursor B)
    (versionContext inner path args options) start size
  have opens : (CompleteReader.cursor B).Opens
      (versionContext inner path args options) (start + size) :=
    CompleteReader.opens rfl _
  have counted := collect_exact opens stands collected
  simpa using counted

/-- Where the blocking reader stops: at the end of the range, or at that of
the latest version. -/
def stopOf (content : Versions) (path : String) (last : Option Nat) :
    Option Nat :=
  last.or ((content path none).map List.length)

theorem Remembers.parses {inner : Accessor B}
    (versions : HasVersions inner content) {options : OpReader}
    {self : BlockingReader (CompleteReader B)}
    (remembers : self.Remembers content
      (versionContext inner path args options))
    {range : RangeBounds} {start : Nat} {last : Option Nat}
    (first : range.startBound.first = some start)
    (behind : range.endBound.behind = some last) :
    ∃ later : BlockingReader (CompleteReader B),
      later.Remembers content (versionContext inner path args options) ∧
      ((∃ stop, stopOf content path last = some stop ∧
          self.parseRange range = some (.ok (start, stop), later)) ∨
        (∃ err, stopOf content path last = none ∧
          self.parseRange range = some (.error err, later))) := by
  unfold BlockingReader.parseRange
  cases last with
  | some stop =>
      refine ⟨self, remembers, .inl ⟨stop, rfl, ?_⟩⟩
      simp [first, behind]
  | none =>
      rcases remembers.asks versions with
        ⟨later, latest, current, asked, kept⟩ | ⟨err, current, asked⟩
      · refine ⟨later, kept, .inl ⟨latest.length, ?_, ?_⟩⟩
        · simp [stopOf, current]
        · simp [first, behind, asked, Except.map]
      · refine ⟨self, remembers, .inr ⟨err, ?_, ?_⟩⟩
        · simp [stopOf, current]
        · simp [first, behind, asked, Except.map]

theorem read_of_parsed {self later : BlockingReader (CompleteReader B)}
    {range : RangeBounds} {start stop : Nat}
    (parsed : self.parseRange range = some (.ok (start, stop), later))
    (fuel : Nat) :
    self.read range fuel =
      (BufferIterator.new later.ctx ⟨.included start, .excluded stop⟩).bind
        fun iter => (collect fuel [] iter).map fun result =>
          (result, later) := by
  unfold BlockingReader.read intoIterator
  rw [parsed]
  cases built : BufferIterator.new later.ctx
      ⟨.included start, .excluded stop⟩ with
  | none => simp [built]
  | some iter => cases collected : collect fuel [] iter <;>
      simp [built, collected]

theorem read_of_failed {self later : BlockingReader (CompleteReader B)}
    {range : RangeBounds} {err : Error}
    (parsed : self.parseRange range = some (.error err, later))
    (fuel : Nat) : self.read range fuel = some (.error err, later) := by
  unfold BlockingReader.read intoIterator
  rw [parsed]
  rfl

theorem Remembers.read {inner : Accessor B}
    (versions : HasVersions inner content) {options : OpReader}
    {self later : BlockingReader (CompleteReader B)}
    (remembers : self.Remembers content
      (versionContext inner path args options))
    {range : RangeBounds} {start : Nat} {last : Option Nat}
    (first : range.startBound.first = some start)
    (behind : range.endBound.behind = some last)
    {fuel : Nat} {result : Except Error Buffer}
    (returned : self.read range fuel = some (result, later)) :
    later.Remembers content (versionContext inner path args options) := by
  obtain ⟨next, kept, parses⟩ := remembers.parses versions first behind
  rcases parses with ⟨stop, -, parsed⟩ | ⟨err, -, parsed⟩
  · rw [read_of_parsed parsed] at returned
    obtain ⟨iter, -, collected⟩ := Option.bind_eq_some_iff.mp returned
    obtain ⟨_, -, same⟩ := Option.map_eq_some_iff.mp collected
    cases same
    exact kept
  · rw [read_of_failed parsed] at returned
    cases returned
    exact kept

end BlockingReader

/-! ## Agreement -/

/-- The asynchronous reader returns the selected part of the addressed
version. -/
theorem HasVersions.collects {inner : Accessor R}
    (versions : HasVersions inner content)
    (addressed : content path args.version = some bytes)
    {options : OpReader} (plain : options.chunk = none)
    {range : RangeBounds} {start stop : Nat}
    (selects : Selects range bytes.length start stop) :
    ∃ stream, Reader.intoStream (versionContext inner path args options)
        range = some (.ok stream) ∧
      stream.Collects ((bytes.drop start).take (stop - start)) := by
  have once : (versionContext inner path args options).options.chunk.isSome =
      false := by
    show options.chunk.isSome = false
    rw [plain]
    rfl
  obtain ⟨last, behind, rfl⟩ := selects.behind
  cases last with
  | some stop =>
      have parsed : BytesRange.parse range =
          some ⟨start, some (stop - start)⟩ := by
        have ordered : start ≤ stop := selects.ordered
        simp [BytesRange.parse, selects.first, behind, checkedSub, ordered]
      refine ⟨.new (versionContext inner path args options) start
        (some (stop - start)), ?_, ?_⟩
      · simp [Reader.intoStream, once, parsed, BufferStream.new]
      · apply BufferStream.collects_new (versions.serves addressed options)
        have ordered : start ≤ stop := selects.ordered
        have inside : stop ≤ bytes.length := selects.inside
        omega
  | none =>
      have parsed : BytesRange.parse range = some ⟨start, none⟩ := by
        simp [BytesRange.parse, selects.first, behind]
      refine ⟨.idle (.one (.new (versionContext inner path args options)
        ⟨start, none⟩)), ?_, ?_⟩
      · simp [Reader.intoStream, once, parsed]
      · have whole : (bytes.drop start).take (bytes.length - start) =
            bytes.drop start := by
          apply List.take_of_length_le
          simp
        show BufferStream.Collects _
          ((bytes.drop start).take (bytes.length - start))
        rw [whole]
        exact versions.collects_open addressed options selects.ordered

/-- The readers agree on a range when the blocking one stops at its end. -/
theorem agrees_iff {inner : Accessor R} {blocking : Accessor B}
    (versions : HasVersions inner content)
    (same : HasVersions blocking content)
    (addressed : content path args.version = some bytes)
    {options : OpReader} (plain : options.chunk = none)
    {self : BlockingReader (CompleteReader B)}
    (remembers : self.Remembers content
      (versionContext blocking path args .new))
    {range : RangeBounds} {start stop : Nat} {last : Option Nat}
    (selects : Selects range bytes.length start stop)
    (behind : range.endBound.behind = some last) :
    Agrees (versionContext inner path args options) self range ↔
      BlockingReader.stopOf content path last = some stop := by
  obtain ⟨stream, created, collects⟩ :=
    versions.collects addressed plain selects
  obtain ⟨later, kept, parses⟩ :=
    remembers.parses same selects.first behind
  constructor
  · intro agrees
    obtain ⟨stream', read, fuel, buf, last', created', collects', returned,
      equal⟩ := agrees
    rw [created] at created'
    cases created'
    have unique := collects.unique collects'
    rcases parses with ⟨reached, stops, parsed⟩ | ⟨err, -, parsed⟩
    · rw [BlockingReader.read_of_parsed parsed] at returned
      obtain ⟨iter, built, collected⟩ := Option.bind_eq_some_iff.mp returned
      obtain ⟨result, gathered, pair⟩ := Option.map_eq_some_iff.mp collected
      cases pair
      rw [kept.context] at built
      have reaches := BlockingReader.collect_length built gathered
      have length : buf.len = stop - start := by
        rw [← Buffer.length_bytes, equal, ← unique]
        have inside := selects.inside
        simp
        omega
      have ordered := selects.ordered
      rw [stops]
      congr 1
      omega
    · rw [BlockingReader.read_of_failed parsed] at returned
      cases returned
  · intro stops
    rcases parses with ⟨reached, reaches, parsed⟩ | ⟨err, nowhere, -⟩
    · rw [stops] at reaches
      cases reaches
      obtain ⟨iter, fuel, buf, built, collected, equal⟩ :=
        BlockingReader.collect_version same addressed selects.ordered
          selects.inside
      refine ⟨stream, _, fuel, buf, later, created, collects, ?_, equal⟩
      rw [BlockingReader.read_of_parsed parsed, kept.context, built]
      simp [collected]
    · rw [stops] at nowhere
      cases nowhere

theorem stopOf_eq_iff {range : RangeBounds} {length start stop : Nat}
    {last : Option Nat} (selects : Selects range length start stop)
    (behind : range.endBound.behind = some last) :
    BlockingReader.stopOf content path last = some stop ↔
      (range.endBound = .unbounded →
        (content path none).map List.length = some length) := by
  obtain ⟨same, behind', rfl⟩ := selects.behind
  rw [behind] at behind'
  cases behind'
  cases bound : range.endBound with
  | unbounded =>
      rw [bound] at behind
      cases behind
      simp [BlockingReader.stopOf]
  | excluded value =>
      rw [bound] at behind
      cases behind
      simp [BlockingReader.stopOf]
  | included value =>
      rw [bound] at behind
      obtain ⟨stop, -, rfl⟩ := Option.map_eq_some_iff.mp behind
      simp [BlockingReader.stopOf]

theorem readsAgree_iff {inner : Accessor R} {blocking : Accessor B}
    (versions : HasVersions inner content)
    (same : HasVersions blocking content)
    (addressed : content path args.version = some bytes)
    {options : OpReader} (plain : options.chunk = none)
    {self : BlockingReader (CompleteReader B)}
    (remembers : self.Remembers content
      (versionContext blocking path args .new))
    {ranges : List RangeBounds}
    (inside : ∀ range ∈ ranges, ∃ start stop,
      Selects range bytes.length start stop) :
    ReadsAgree (versionContext inner path args options) self ranges ↔
      ∀ range ∈ ranges, range.endBound = .unbounded →
        (content path none).map List.length = some bytes.length := by
  -- The blocking reader changes from read to read, but all it remembers is
  -- the length of the latest version.
  induction ranges generalizing self with
  | nil => simp [ReadsAgree]
  | cons range ranges induction =>
      obtain ⟨start, stop, selects⟩ := inside range (by simp)
      obtain ⟨last, behind, -⟩ := selects.behind
      have head := (agrees_iff versions same addressed plain remembers
        selects behind).trans (stopOf_eq_iff selects behind)
      have tail : ∀ {fuel result later},
          self.read range fuel = some (result, later) →
          (ReadsAgree (versionContext inner path args options) later ranges ↔
            ∀ range ∈ ranges, range.endBound = .unbounded →
              (content path none).map List.length = some bytes.length) := by
        intro fuel result later returned
        apply induction
        · exact remembers.read same selects.first behind returned
        · intro range member
          exact inside range (by simp [member])
      rw [ReadsAgree, List.forall_mem_cons]
      constructor
      · intro both
        obtain ⟨agrees, rest⟩ := both
        refine ⟨head.mp agrees, ?_⟩
        obtain ⟨_, _, fuel, buf, later, _, _, returned, _⟩ := agrees
        exact (tail returned).mp (rest fuel _ later returned)
      · intro conditions
        refine ⟨head.mpr conditions.1, ?_⟩
        intro fuel result later returned
        exact (tail returned).mpr conditions.2

/-- Blocking and asynchronous readers agree on ranges inside of the addressed
version, over any number of reads, if and only if the latest version has the
length of the addressed one or every range has an end. -/
theorem readers_agree_iff (inner : Accessor R) (blocking : Accessor B)
    (versions : HasVersions inner content)
    (same : HasVersions blocking content)
    (addressed : content path args.version = some bytes)
    (options : OpReader) (plain : options.chunk = none)
    (ranges : List RangeBounds)
    (inside : ∀ range ∈ ranges, ∃ start stop,
      Selects range bytes.length start stop) :
    ReadsAgree (versionContext inner path args options)
        (.new (versionContext blocking path args .new)) ranges ↔
      ∀ range ∈ ranges, range.endBound = .unbounded →
        (content path none).map List.length = some bytes.length := by
  apply readsAgree_iff versions same addressed plain
  · exact ⟨rfl, .inl rfl⟩
  · exact inside

/-- A store that answers byte by byte. -/
def Versions.accessor (content : Versions) : Accessor ScriptedReader where
  read := fun path args =>
    match content path args.version with
    | none => .error (.new .notFound "no such version")
    | some bytes =>
        .ok (.bytewise ((bytes.drop args.range.offset).take
          (args.range.size.getD bytes.length)))
  stat := fun path args =>
    match content path args.version with
    | none => .error (.new .notFound "no such version")
    | some bytes => .ok bytes.length

theorem Versions.hasVersions {content : Versions}
    (sized : ∀ {path version bytes}, content path version = some bytes →
      bytes.length < 2 ^ 64) :
    HasVersions content.accessor content := by
  constructor
  · exact sized
  · intro path version bytes stored
    simp [Versions.accessor, stored]
  · intro path version missing
    refine ⟨.new .notFound "no such version", ?_⟩
    simp [Versions.accessor, missing]
  · intro path version bytes stored offset size within
    refine ⟨.bytewise ((bytes.drop offset).take size), ?_,
      Read.yields_bytewise _⟩
    simp [Versions.accessor, stored]
  · intro path version bytes stored offset within
    refine ⟨.bytewise (bytes.drop offset), ?_, Read.yields_bytewise _⟩
    have whole : (bytes.drop offset).take bytes.length =
        bytes.drop offset := by
      apply List.take_of_length_le
      simp
    simp [Versions.accessor, stored, whole]

/-- The file had three bytes and has one byte now. -/
def shortened : Versions := fun path version =>
  if path = "file" then
    match version with
    | none => some [4]
    | some "first" => some [1, 2, 3]
    | some _ => none
  else none

theorem shortened_sized {path : String} {version : Option String}
    {bytes : Bytes} (stored : shortened path version = some bytes) :
    bytes.length < 2 ^ 64 := by
  unfold shortened at stored
  split at stored
  · split at stored
    · cases stored
      decide
    · cases stored
      decide
    · cases stored
  · cases stored

/-- Reads of the first version, which is longer than the latest one. -/
theorem readers_agree_shortened :
    ReadsAgree
      (versionContext shortened.accessor "file" ⟨⟨0, none⟩, some "first"⟩
        .new)
      (.new (versionContext shortened.accessor "file"
        ⟨⟨0, none⟩, some "first"⟩ .new))
      [⟨.included 1, .excluded 3⟩, ⟨.excluded 0, .included 2⟩] := by
  have versions := Versions.hasVersions (@shortened_sized)
  apply (readers_agree_iff shortened.accessor shortened.accessor versions
    versions rfl .new rfl _ ?_).mpr
  · simp
  · intro range member
    simp only [List.mem_cons, List.not_mem_nil, or_false] at member
    rcases member with rfl | rfl
    · exact ⟨1, 3, rfl, ⟨some 3, rfl, rfl⟩, by decide, by decide⟩
    · exact ⟨1, 3, rfl, ⟨some 3, rfl, rfl⟩, by decide, by decide⟩

/-- Reading the first version to its end. -/
theorem readers_agree_fails_shortened :
    ¬ ReadsAgree
      (versionContext shortened.accessor "file" ⟨⟨0, none⟩, some "first"⟩
        .new)
      (.new (versionContext shortened.accessor "file"
        ⟨⟨0, none⟩, some "first"⟩ .new))
      [⟨.unbounded, .unbounded⟩] := by
  have versions := Versions.hasVersions (@shortened_sized)
  have addressed : shortened "file" (some "first") = some [1, 2, 3] := rfl
  intro agree
  have condition := (readsAgree_iff versions versions addressed rfl
    ⟨rfl, .inl rfl⟩ ?_).mp agree
  · have lengths := condition _ (List.mem_singleton_self _) rfl
    revert lengths
    decide
  · intro range member
    rw [List.mem_singleton] at member
    subst member
    exact ⟨0, 3, rfl, ⟨none, rfl, rfl⟩, by decide, by decide⟩

end OpenDal
