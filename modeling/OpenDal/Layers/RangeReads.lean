import OpenDal.Layers.FileReads

/-!
# Ranges given by users

Every operation that reads takes a `RangeBounds<u64>` and computes with its
bounds unchecked.  Adding one overflows at `u64::MAX`, and the subtraction
underflows when the range ends before it starts.  The end of a range without
one is the length of the file, which may lie before the start as well; only a
stream that is not read in chunks sends such a range to the service as it is.
Every other range is read correctly or fails.
-/

namespace OpenDal

/-! ## The bytes in a range -/

namespace RangeBounds

def start (range : RangeBounds) : Nat :=
  BytesRange.startOf range.startBound

/-- The position behind the last one in a file of this length. -/
def stop (range : RangeBounds) (length : Nat) : Nat :=
  match range.endBound with
  | .included value => value + 1
  | .excluded value => value
  | .unbounded => length

/-- The bytes of the file that lie in the range. -/
def within (range : RangeBounds) (content : Bytes) : Bytes :=
  (content.take (range.stop content.length)).drop range.start

/-- One can be added to an excluded start and to an included end. -/
def Fits (range : RangeBounds) : Prop :=
  (∀ value, range.startBound = .excluded value → value + 1 < 2 ^ 64) ∧
    ∀ value, range.endBound = .included value → value + 1 < 2 ^ 64

/-- The range ends behind its start, or nobody has to know where it ends. -/
def Regular (range : RangeBounds) (length : Nat) (unneeded : Prop) : Prop :=
  range.Fits ∧ (range.start ≤ range.stop length ∨
    range.endBound = .unbounded ∧ unneeded)

/-- What parsing the bounds can come to.  The service refuses to tell the
length if `refused`, and it is asked only for a range without an end. -/
inductive Parses (range : RangeBounds) (length : Nat) (refused : Prop) :
    Option (Except Error (Nat × Nat)) → Prop where
  | overflows (unfit : ¬ range.Fits) : Parses range length refused none
  | fails {err : Error} (fits : range.Fits)
      (endless : range.endBound = .unbounded) (failed : refused) :
      Parses range length refused (some (.error err))
  | parsed (fits : range.Fits)
      (told : range.endBound = .unbounded → ¬ refused) :
      Parses range length refused
        (some (.ok (range.start, range.stop length)))

variable {range : RangeBounds} {length : Nat} {refused : Prop}

theorem first_eq (fits : range.Fits) :
    range.startBound.first = some range.start := by
  unfold start
  cases bound : range.startBound with
  | included value => rfl
  | excluded value => exact if_pos (fits.1 value bound)
  | unbounded => rfl

theorem behind_eq (fits : range.Fits) (bounded : range.endBound ≠ .unbounded)
    (length : Nat) :
    range.endBound.behind = some (some (range.stop length)) := by
  unfold stop
  cases bound : range.endBound with
  | included value =>
      have added : checkedAdd value 1 = some (value + 1) :=
        if_pos (fits.2 value bound)
      simp [Bound.behind, added]
  | excluded value => rfl
  | unbounded => exact absurd bound bounded

theorem overflows_of_unfit (unfit : ¬ range.Fits) :
    range.startBound.first = none ∨ range.endBound.behind = none := by
  by_contra both
  rw [not_or] at both
  apply unfit
  constructor
  · intro value bound
    by_contra large
    apply both.1
    rw [bound]
    exact if_neg large
  · intro value bound
    by_contra large
    apply both.2
    have overflow : checkedAdd value 1 = none := if_neg large
    rw [bound, Bound.behind, overflow]
    rfl

theorem fromBounds_inverted {start stop : Nat} (inverted : ¬ start ≤ stop) :
    BytesRange.fromBounds ⟨.included start, .excluded stop⟩ = none := by
  have underflow : checkedSub stop start = none := if_neg inverted
  simp [BytesRange.fromBounds, BytesRange.startOf, underflow]

end RangeBounds

/-! ## Parsing -/

open RangeBounds (Parses)

variable {R B : Type} {range : RangeBounds} {length : Nat} {refused : Prop}

/-- The bounds are parsed, and the length is `asked` for if it is needed. -/
theorem RangeBounds.parses {asked : Except Error Nat}
    (tells : ∀ answer, asked = .ok answer → answer = length)
    (refuses : refused ↔ ∃ err, asked = .error err) :
    Parses range length refused
      (range.startBound.first.bind fun start =>
        range.endBound.behind.bind fun last =>
          match last with
          | some stop => some (.ok (start, stop))
          | none => some (asked.map fun stop => (start, stop))) := by
  by_cases fits : range.Fits
  · rw [first_eq fits]
    by_cases endless : range.endBound = .unbounded
    · have behind : range.endBound.behind = some none := by
        rw [endless]
        rfl
      have last : range.stop length = length := by
        rw [stop, endless]
      simp only [behind, Option.bind_some]
      cases answer : asked with
      | error err => exact .fails fits endless (refuses.mpr ⟨err, answer⟩)
      | ok told =>
          have same := (tells told answer).trans last.symm
          rw [same]
          apply Parses.parsed fits
          intro _ failed
          obtain ⟨err, failed⟩ := refuses.mp failed
          rw [answer] at failed
          cases failed
    · rw [behind_eq fits endless length]
      exact .parsed fits fun impossible => absurd impossible endless
  · rcases overflows_of_unfit fits with first | behind
    · rw [first]
      exact .overflows fits
    · rw [behind]
      cases range.startBound.first with
      | none => exact .overflows fits
      | some start => exact .overflows fits

theorem ReadContext.parses (ctx : ReadContext R)
    (tells : ∀ answer,
      ctx.acc.stat ctx.path ⟨ctx.args.version⟩ = .ok answer →
      answer = length) :
    Parses range length
      (∃ err, ctx.acc.stat ctx.path ⟨ctx.args.version⟩ = .error err)
      (ctx.parseRange range) :=
  RangeBounds.parses tells Iff.rfl

theorem BlockingReader.parses (self : BlockingReader B)
    (tells : ∀ answer, self.contentLength.1 = .ok answer → answer = length)
    (refuses : refused ↔ ∃ err, self.contentLength.1 = .error err) :
    Parses range length refused ((self.parseRange range).map Prod.fst) := by
  have parsed : Parses range length refused _ :=
    RangeBounds.parses tells refuses
  unfold BlockingReader.parseRange
  cases first : range.startBound.first with
  | none =>
      rw [first] at parsed
      exact parsed
  | some start =>
      rw [first] at parsed
      cases behind : range.endBound.behind with
      | none =>
          rw [behind] at parsed
          exact parsed
      | some last =>
          rw [behind] at parsed
          cases last with
          | some stop => exact parsed
          | none => exact parsed

/-- Something fails when an addition overflows, holds when the service refuses,
and otherwise says that the range does not end before it starts. -/
theorem RangeBounds.Parses.iff_regular {property : Prop}
    {outcome : Option (Except Error (Nat × Nat))}
    (parses : Parses range length refused outcome)
    (overflow : outcome = none → ¬ property)
    (refusal : ∀ err, outcome = some (.error err) → property)
    (success : outcome = some (.ok (range.start, range.stop length)) →
      (property ↔ range.start ≤ range.stop length)) :
    property ↔ range.Regular length refused := by
  cases parses with
  | overflows unfit =>
      constructor
      · intro impossible
        exact absurd impossible (overflow rfl)
      · intro regular
        exact absurd regular.1 unfit
  | @fails err fits endless failed =>
      constructor
      · intro _
        exact ⟨fits, .inr ⟨endless, failed⟩⟩
      · intro _
        exact refusal err rfl
  | parsed fits told =>
      rw [success rfl]
      constructor
      · intro ordered
        exact ⟨fits, .inl ordered⟩
      · intro regular
        apply regular.2.resolve_right
        intro unneeded
        exact told unneeded.1 unneeded.2

/-! ## Asynchronous readers -/

/-- `into_stream`, and `read` with it, returns, and what it returns delivers
the bytes of the file that lie in the range or fails. -/
def Reader.StreamDelivers [Read R] (ctx : ReadContext R) (range : RangeBounds)
    (content : Bytes) : Prop :=
  ∃ answer, Reader.intoStream ctx range = some answer ∧
    ∀ stream, answer = .ok stream →
      stream.Settles (Delivered (range.within content))

def Reader.FuturesDelivers [Read R] (ctx : ReadContext R)
    (range : RangeBounds) (content : Bytes) : Prop :=
  ∃ answer, Reader.intoFuturesAsyncRead ctx range = some answer ∧
    ∀ reader, answer = .ok reader → reader.Delivers (range.within content)

namespace RangeBounds

theorem parse_endless (fits : range.Fits)
    (endless : range.endBound = .unbounded) :
    BytesRange.parse range = some ⟨range.start, none⟩ := by
  unfold BytesRange.parse
  rw [first_eq fits, endless]
  rfl

theorem parse_bounded (fits : range.Fits)
    (bounded : range.endBound ≠ .unbounded) (length : Nat) :
    BytesRange.parse range =
      (checkedSub (range.stop length) range.start).map fun size =>
        ⟨range.start, some size⟩ := by
  unfold BytesRange.parse
  rw [first_eq fits, behind_eq fits bounded length]
  simp only [Option.bind_eq_bind, Option.bind_some]
  cases checkedSub (range.stop length) range.start with
  | none => rfl
  | some size => rfl

theorem parse_unfit (unfit : ¬ range.Fits) : BytesRange.parse range = none := by
  unfold BytesRange.parse
  rcases overflows_of_unfit unfit with first | behind
  · rw [first]
    rfl
  · rw [behind]
    cases range.startBound.first with
    | none => rfl
    | some start => rfl

theorem parse_exclusive (start stop : Nat) :
    BytesRange.parse ⟨.included start, .excluded stop⟩ =
      (checkedSub stop start).map fun size => ⟨start, some size⟩ := by
  apply parse_bounded
  · constructor
    · intro value impossible
      cases impossible
    · intro value impossible
      cases impossible
  · intro impossible
    cases impossible
  · exact 0

end RangeBounds

namespace HoldsFile

variable [Read R] {inner : Accessor R} {path : String} {content : Bytes}

theorem tells (file : HoldsFile inner path content) (args : OpRead)
    (options : OpReader) (answer : Nat)
    (asked : (versionContext inner path args options).acc.stat path
      ⟨args.version⟩ = .ok answer) : answer = content.length :=
  file.stat asked

theorem settles_range (file : HoldsFile inner path content) (args : OpRead)
    (options : OpReader) {start stop : Nat} (ordered : start ≤ stop) :
    (BufferStream.new (versionContext inner path args options) start
      (some (stop - start))).Settles
        (Delivered ((content.take stop).drop start)) := by
  have settles := file.settles args options start (stop - start)
  rw [Nat.add_sub_cancel' ordered] at settles
  exact settles

theorem parses (file : HoldsFile inner path content) (args : OpRead)
    (options : OpReader) (range : RangeBounds) :
    Parses range content.length
      (∃ err, inner.stat path ⟨args.version⟩ = .error err)
      ((versionContext inner path args options).parseRange range) :=
  (versionContext inner path args options).parses (file.tells args options)

theorem futures_iff (file : HoldsFile inner path content) (args : OpRead)
    (options : OpReader) (range : RangeBounds) :
    Reader.FuturesDelivers (versionContext inner path args options) range
        content ↔
      range.Regular content.length
        (∃ err, inner.stat path ⟨args.version⟩ = .error err) := by
  unfold Reader.FuturesDelivers Reader.intoFuturesAsyncRead
  apply (file.parses args options range).iff_regular
  · intro overflow delivers
    obtain ⟨answer, impossible, -⟩ := delivers
    rw [overflow] at impossible
    cases impossible
  · intro err failed
    rw [failed]
    refine ⟨.error err, rfl, ?_⟩
    intro reader impossible
    cases impossible
  · intro parsed
    rw [parsed]
    by_cases ordered : range.start ≤ range.stop content.length
    · obtain ⟨reader, created, delivers⟩ :=
        file.delivers_stream args options ordered
      refine iff_of_true ⟨.ok reader, ?_, ?_⟩ ordered
      · simp [created]
      · intro other same
        cases same
        exact delivers
    · refine iff_of_false ?_ ordered
      intro delivers
      obtain ⟨answer, impossible, -⟩ := delivers
      simp [SeekingReader.new, BufferSource.rebuild, checkedSub, ordered]
        at impossible

theorem stream_iff_chunked (file : HoldsFile inner path content)
    (args : OpRead) {options : OpReader} (chunked : options.chunk.isSome = true)
    (range : RangeBounds) :
    Reader.StreamDelivers (versionContext inner path args options) range
        content ↔
      range.Regular content.length
        (∃ err, inner.stat path ⟨args.version⟩ = .error err) := by
  have inChunks : (versionContext inner path args options).options.chunk.isSome
      = true := chunked
  unfold Reader.StreamDelivers Reader.intoStream
  simp only [inChunks, if_true]
  apply (file.parses args options range).iff_regular
  · intro overflow delivers
    obtain ⟨answer, impossible, -⟩ := delivers
    rw [overflow] at impossible
    cases impossible
  · intro err failed
    rw [failed]
    refine ⟨.error err, rfl, ?_⟩
    intro stream impossible
    cases impossible
  · intro parsed
    simp only [parsed, Option.bind_eq_bind, Option.bind_some,
      RangeBounds.parse_exclusive]
    by_cases ordered : range.start ≤ range.stop content.length
    · have subtracted : checkedSub (range.stop content.length) range.start =
          some (range.stop content.length - range.start) := if_pos ordered
      refine iff_of_true ⟨_, by rw [subtracted]; rfl, ?_⟩ ordered
      intro stream same
      cases same
      have settles := file.settles_range args options ordered
      simp only [BufferStream.new, inChunks, if_true] at settles
      exact settles
    · have underflow : checkedSub (range.stop content.length) range.start =
          none := if_neg ordered
      refine iff_of_false ?_ ordered
      intro delivers
      obtain ⟨answer, impossible, -⟩ := delivers
      rw [underflow] at impossible
      cases impossible

theorem stream_iff_plain (file : HoldsFile inner path content)
    (args : OpRead) {options : OpReader} (plain : options.chunk = none)
    (range : RangeBounds) :
    Reader.StreamDelivers (versionContext inner path args options) range
        content ↔
      range.Regular content.length True := by
  have atOnce : (versionContext inner path args options).options.chunk.isSome
      = false := by
    show options.chunk.isSome = false
    rw [plain]
    rfl
  unfold Reader.StreamDelivers Reader.intoStream
  simp only [atOnce, Bool.false_eq_true, if_false]
  by_cases fits : range.Fits
  · by_cases endless : range.endBound = .unbounded
    · rw [RangeBounds.parse_endless fits endless]
      refine iff_of_true ⟨_, rfl, ?_⟩ ⟨fits, .inr ⟨endless, trivial⟩⟩
      intro stream same
      cases same
      have whole : range.within content = content.drop range.start := by
        simp [RangeBounds.within, RangeBounds.stop, endless]
      rw [whole]
      exact file.settles_open args options range.start
    · rw [RangeBounds.parse_bounded fits endless content.length]
      by_cases ordered : range.start ≤ range.stop content.length
      · have subtracted : checkedSub (range.stop content.length) range.start =
            some (range.stop content.length - range.start) := if_pos ordered
        refine iff_of_true ⟨_, by rw [subtracted]; rfl, ?_⟩
          ⟨fits, .inl ordered⟩
        intro stream same
        cases same
        have settles := file.settles_range args options ordered
        simp only [BufferStream.new, atOnce, Bool.false_eq_true, if_false]
          at settles
        exact settles
      · have underflow : checkedSub (range.stop content.length) range.start =
            none := if_neg ordered
        apply iff_of_false
        · intro delivers
          obtain ⟨answer, impossible, -⟩ := delivers
          rw [underflow] at impossible
          cases impossible
        · intro regular
          rcases regular.2 with inOrder | ⟨open_, -⟩
          · exact ordered inOrder
          · exact endless open_
  · rw [RangeBounds.parse_unfit fits]
    apply iff_of_false
    · intro delivers
      obtain ⟨answer, impossible, -⟩ := delivers
      cases impossible
    · intro regular
      exact fits regular.1

theorem stream_iff (file : HoldsFile inner path content) (args : OpRead)
    (options : OpReader) (range : RangeBounds) :
    Reader.StreamDelivers (versionContext inner path args options) range
        content ↔
      range.Regular content.length (options.chunk = none ∨
        ∃ err, inner.stat path ⟨args.version⟩ = .error err) := by
  cases chunk : options.chunk with
  | none =>
      rw [file.stream_iff_plain args chunk range]
      simp
  | some size =>
      rw [file.stream_iff_chunked args (by rw [chunk]; rfl) range]
      simp

end HoldsFile

/-! ## Blocking readers -/

/-- The states of a reader between the calls of its user; all clones share the
length. -/
inductive BlockingReader.Reached [Read B] (ctx : ReadContext B) :
    BlockingReader B → Prop where
  | new : Reached ctx (.new ctx)
  | read {reader later : BlockingReader B} {range : RangeBounds} {fuel : Nat}
      {result : Except Error Buffer} (reached : Reached ctx reader)
      (returned : reader.read range fuel = some (result, later)) :
      Reached ctx later
  | intoStdRead {reader later : BlockingReader B} {range : RangeBounds}
      {answer : Except Error (StdReader B)} (reached : Reached ctx reader)
      (returned : reader.intoStdRead range = some (answer, later)) :
      Reached ctx later

def BlockingReader.ReadDelivers [Read B] (self : BlockingReader B)
    (range : RangeBounds) (content : Bytes) : Prop :=
  ∃ fuel result later, self.read range fuel = some (result, later) ∧
    Delivered (range.within content) result

def BlockingReader.StdDelivers [Read B] (self : BlockingReader B)
    (range : RangeBounds) (content : Bytes) : Prop :=
  ∃ answer later, self.intoStdRead range = some (answer, later) ∧
    ∀ reader, answer = .ok reader → reader.Delivers (range.within content)

namespace BlockingReader

/-- The reader has not asked for the length yet, or it knows it. -/
structure Knows (ctx : ReadContext B) (length : Nat)
    (reader : BlockingReader B) : Prop where
  context : reader.ctx = ctx
  cached : reader.size.load = none ∨ reader.size.load = some length

theorem parseRange_later {self later : BlockingReader B}
    {parsed : Except Error (Nat × Nat)}
    (returned : self.parseRange range = some (parsed, later)) :
    later = self ∨ later = self.contentLength.2 := by
  obtain ⟨start, -, rest⟩ := Option.bind_eq_some_iff.mp returned
  obtain ⟨last, -, same⟩ := Option.bind_eq_some_iff.mp rest
  cases last with
  | some stop =>
      cases same
      exact .inl rfl
  | none =>
      cases same
      exact .inr rfl

theorem intoStdRead_later [Read B] {self later : BlockingReader B}
    {answer : Except Error (StdReader B)}
    (returned : self.intoStdRead range = some (answer, later)) :
    ∃ parsed, self.parseRange range = some (parsed, later) := by
  obtain ⟨⟨parsed, next⟩, given, rest⟩ := Option.bind_eq_some_iff.mp returned
  cases parsed with
  | error err =>
      cases rest
      exact ⟨_, given⟩
  | ok bounds =>
      obtain ⟨reader, -, same⟩ := Option.bind_eq_some_iff.mp rest
      cases same
      exact ⟨_, given⟩

theorem read_later [Read B] {self later : BlockingReader B} {fuel : Nat}
    {result : Except Error Buffer}
    (returned : self.read range fuel = some (result, later)) :
    ∃ parsed, self.parseRange range = some (parsed, later) := by
  obtain ⟨⟨built, next⟩, iterating, rest⟩ :=
    Option.bind_eq_some_iff.mp returned
  obtain ⟨⟨parsed, other⟩, given, further⟩ :=
    Option.bind_eq_some_iff.mp iterating
  cases parsed with
  | error err =>
      cases further
      cases rest
      exact ⟨_, given⟩
  | ok bounds =>
      obtain ⟨iter, -, same⟩ := Option.bind_eq_some_iff.mp further
      cases same
      obtain ⟨collected, -, same⟩ := Option.bind_eq_some_iff.mp rest
      cases same
      exact ⟨_, given⟩

end BlockingReader

namespace HoldsFile

variable [Read B] {blocking : Accessor B} {path : String} {content : Bytes}
  {args : OpRead} {options : OpReader}
  {reader : BlockingReader (CompleteReader B)}

theorem knows_contentLength (file : HoldsFile blocking path content)
    (knows : reader.Knows (versionContext blocking path args options)
      content.length) :
    reader.contentLength.2.Knows (versionContext blocking path args options)
        content.length ∧
      (∀ answer, reader.contentLength.1 = .ok answer →
        answer = content.length) ∧
      ((∃ err, reader.contentLength.1 = .error err) ↔
        reader.size.load = none ∧
          ∃ err, blocking.stat path ⟨none⟩ = .error err) := by
  have asks : reader.ctx.acc.stat reader.ctx.path ⟨none⟩ =
      blocking.stat path ⟨none⟩ := by
    rw [knows.context]
    rfl
  unfold BlockingReader.contentLength
  rcases knows.cached with unknown | known
  · simp only [unknown, asks, true_and]
    cases asked : blocking.stat path ⟨none⟩ with
    | error err => exact ⟨knows, by simp, Iff.rfl⟩
    | ok size =>
        have told := file.stat asked
        refine ⟨⟨knows.context, ?_⟩, ?_, Iff.rfl⟩
        · rw [← told]
          exact BlockingReader.load_store reader.size size
        · intro answer same
          cases same
          exact told
  · simp only [known]
    refine ⟨knows, ?_, ?_⟩
    · intro answer same
      cases same
      rfl
    · simp

theorem knows (file : HoldsFile blocking path content)
    (reached : reader.Reached (versionContext blocking path args options)) :
    reader.Knows (versionContext blocking path args options)
      content.length := by
  have parsing : ∀ {reader later : BlockingReader (CompleteReader B)}
      {range parsed},
      reader.Knows (versionContext blocking path args options)
        content.length →
      reader.parseRange range = some (parsed, later) →
      later.Knows (versionContext blocking path args options)
        content.length := by
    intro reader later range parsed knows returned
    rcases BlockingReader.parseRange_later returned with same | same
    · rw [same]
      exact knows
    · rw [same]
      exact (file.knows_contentLength knows).1
  induction reached with
  | new => exact ⟨rfl, .inl rfl⟩
  | read reached returned knows =>
      obtain ⟨parsed, later⟩ := BlockingReader.read_later returned
      exact parsing knows later
  | intoStdRead reached returned knows =>
      obtain ⟨parsed, later⟩ := BlockingReader.intoStdRead_later returned
      exact parsing knows later

theorem parses_blocking (file : HoldsFile blocking path content)
    (reached : reader.Reached (versionContext blocking path args options))
    (range : RangeBounds) :
    Parses range content.length
        (reader.size.load = none ∧
          ∃ err, blocking.stat path ⟨none⟩ = .error err)
        ((reader.parseRange range).map Prod.fst) := by
  obtain ⟨-, tells, refuses⟩ := file.knows_contentLength (file.knows reached)
  exact reader.parses tells refuses.symm

theorem context_later (file : HoldsFile blocking path content)
    {later : BlockingReader (CompleteReader B)}
    (reached : reader.Reached (versionContext blocking path args options))
    {parsed : Except Error (Nat × Nat)}
    (returned : reader.parseRange range = some (parsed, later)) :
    later.ctx = versionContext blocking path args options := by
  have knows := file.knows reached
  rcases BlockingReader.parseRange_later returned with same | same
  · rw [same]
    exact knows.context
  · rw [same]
    exact (file.knows_contentLength knows).1.context

theorem read_iff (file : HoldsFile blocking path content)
    (reached : reader.Reached (versionContext blocking path args options))
    (range : RangeBounds) :
    reader.ReadDelivers range content ↔
      range.Regular content.length (reader.size.load = none ∧
        ∃ err, blocking.stat path ⟨none⟩ = .error err) := by
  unfold BlockingReader.ReadDelivers
  apply (file.parses_blocking reached range).iff_regular
  · intro overflow delivers
    obtain ⟨fuel, result, later, returned, -⟩ := delivers
    obtain ⟨parsed, given⟩ := BlockingReader.read_later returned
    rw [given] at overflow
    cases overflow
  · intro err failed
    obtain ⟨⟨parsed, later⟩, given, same⟩ := Option.map_eq_some_iff.mp failed
    cases same
    exact ⟨0, .error err, later, BlockingReader.read_of_failed given 0,
      trivial⟩
  · intro success
    obtain ⟨⟨parsed, later⟩, given, same⟩ := Option.map_eq_some_iff.mp success
    cases same
    have context := file.context_later reached given
    by_cases ordered : range.start ≤ range.stop content.length
    · have reaches : range.start + (range.stop content.length - range.start) =
          range.stop content.length := Nat.add_sub_cancel' ordered
      obtain ⟨fuel, result, collected, delivered⟩ :=
        file.collects args options range.start
          (range.stop content.length - range.start)
      have bounds := BytesRange.fromBounds_exclusive range.start
        (range.stop content.length - range.start)
      rw [reaches] at bounds delivered
      refine iff_of_true ⟨fuel, result, later, ?_, delivered⟩ ordered
      rw [BlockingReader.read_of_parsed given, context, BufferIterator.new,
        bounds]
      simp [collected]
    · refine iff_of_false ?_ ordered
      intro delivers
      obtain ⟨fuel, result, next, returned, -⟩ := delivers
      rw [BlockingReader.read_of_parsed given, BufferIterator.new,
        RangeBounds.fromBounds_inverted ordered] at returned
      cases returned

theorem std_iff (file : HoldsFile blocking path content)
    (reached : reader.Reached (versionContext blocking path args options))
    (range : RangeBounds) :
    reader.StdDelivers range content ↔
      range.Regular content.length (reader.size.load = none ∧
        ∃ err, blocking.stat path ⟨none⟩ = .error err) := by
  unfold BlockingReader.StdDelivers BlockingReader.intoStdRead
  apply (file.parses_blocking reached range).iff_regular
  · intro overflow delivers
    obtain ⟨answer, later, returned, -⟩ := delivers
    rw [Option.map_eq_none_iff] at overflow
    rw [overflow] at returned
    cases returned
  · intro err failed
    obtain ⟨⟨parsed, later⟩, given, same⟩ := Option.map_eq_some_iff.mp failed
    cases same
    rw [given]
    refine ⟨.error err, later, rfl, ?_⟩
    intro reader impossible
    cases impossible
  · intro success
    obtain ⟨⟨parsed, later⟩, given, same⟩ := Option.map_eq_some_iff.mp success
    cases same
    have context := file.context_later reached given
    rw [given]
    by_cases ordered : range.start ≤ range.stop content.length
    · obtain ⟨adapter, created, delivers⟩ :=
        file.delivers_iterator args options ordered
      refine iff_of_true ⟨.ok adapter, later, ?_, ?_⟩ ordered
      · simp [context, created]
      · intro other same
        cases same
        exact delivers
    · refine iff_of_false ?_ ordered
      intro delivers
      obtain ⟨answer, next, returned, -⟩ := delivers
      simp [SeekingReader.new, BufferSource.rebuild, BufferIterator.new,
        RangeBounds.fromBounds_inverted ordered] at returned

end HoldsFile

/-! ## All operations -/

/-- The operations refuse a range or deliver its bytes if and only if the range
is regular: nothing overflows, and it does not end before it starts.  Without
an end it ends with the file.  The end of such a range is not needed by a
stream that is not read in chunks, nor by an operation that cannot learn the
length. -/
theorem ranges_delivered_iff [Read R] [Read B] (inner : Accessor R)
    (blocking : Accessor B) (path : String) (content : Bytes)
    (file : HoldsFile inner path content)
    (blockingFile : HoldsFile blocking path content)
    (args blockingArgs : OpRead) (options blockingOptions : OpReader)
    (reader : BlockingReader (CompleteReader B))
    (reached : reader.Reached
      (versionContext blocking path blockingArgs blockingOptions))
    (range : RangeBounds) :
    (Reader.StreamDelivers (versionContext inner path args options) range
        content ↔
      range.Regular content.length (options.chunk = none ∨
        ∃ err, inner.stat path ⟨args.version⟩ = .error err)) ∧
    (Reader.FuturesDelivers (versionContext inner path args options) range
        content ↔
      range.Regular content.length
        (∃ err, inner.stat path ⟨args.version⟩ = .error err)) ∧
    (reader.ReadDelivers range content ↔
      range.Regular content.length (reader.size.load = none ∧
        ∃ err, blocking.stat path ⟨none⟩ = .error err)) ∧
    (reader.StdDelivers range content ↔
      range.Regular content.length (reader.size.load = none ∧
        ∃ err, blocking.stat path ⟨none⟩ = .error err)) := by
  refine ⟨?_, ?_, ?_, ?_⟩
  · exact file.stream_iff args options range
  · exact file.futures_iff args options range
  · exact blockingFile.read_iff reached range
  · exact blockingFile.std_iff reached range

theorem holdsFile_bytewise (path : String) (content : Bytes) :
    HoldsFile (bytewiseAccessor content) path content where
  stat := by
    intro version length asked
    cases asked
    rfl
  read := by
    intro range version r opened
    cases opened
    have selected : (content.drop range.offset).take
        (range.size.getD content.length) = range.select content := by
      unfold BytesRange.select
      cases range.size with
      | none =>
          apply List.take_of_length_le
          simp
      | some size => rfl
    rw [selected]
    exact (Read.yields_bytewise _).ends True

/-- Five bytes. -/
def fiveBytes (options : OpReader) :
    ReadContext (CompleteReader ScriptedReader) :=
  versionContext (bytewiseAccessor [1, 2, 3, 4, 5]) "file" ⟨⟨0, none⟩, none⟩
    options

theorem ranges_delivered_inside :
    Reader.StreamDelivers (fiveBytes .new) ⟨.excluded 0, .included 2⟩
        [1, 2, 3, 4, 5] ∧
      Reader.FuturesDelivers (fiveBytes .new) ⟨.excluded 0, .included 2⟩
        [1, 2, 3, 4, 5] ∧
      (BlockingReader.new (fiveBytes .new)).ReadDelivers
        ⟨.excluded 0, .included 2⟩ [1, 2, 3, 4, 5] ∧
      (BlockingReader.new (fiveBytes .new)).StdDelivers
        ⟨.excluded 0, .included 2⟩ [1, 2, 3, 4, 5] := by
  have file := holdsFile_bytewise "file" [1, 2, 3, 4, 5]
  have regular : ∀ unneeded,
      RangeBounds.Regular ⟨.excluded 0, .included 2⟩ 5 unneeded := by
    intro unneeded
    refine ⟨⟨?_, ?_⟩, .inl (by decide)⟩
    · intro value same
      cases same
      decide
    · intro value same
      cases same
      decide
  obtain ⟨stream, futures, read, std⟩ :=
    ranges_delivered_iff _ _ "file" [1, 2, 3, 4, 5] file file
      ⟨⟨0, none⟩, none⟩ ⟨⟨0, none⟩, none⟩ .new .new _ .new
      ⟨.excluded 0, .included 2⟩
  exact ⟨stream.mpr (regular _), futures.mpr (regular _),
    read.mpr (regular _), std.mpr (regular _)⟩

/-- An inverted range, an excluded `u64::MAX`, and two starts behind the end of
the file. -/
theorem ranges_delivered_fails :
    ¬ Reader.StreamDelivers (fiveBytes .new) ⟨.included 4, .excluded 2⟩
        [1, 2, 3, 4, 5] ∧
      ¬ Reader.FuturesDelivers (fiveBytes .new)
        ⟨.excluded (2 ^ 64 - 1), .unbounded⟩ [1, 2, 3, 4, 5] ∧
      ¬ (BlockingReader.new (fiveBytes .new)).ReadDelivers
        ⟨.included 7, .unbounded⟩ [1, 2, 3, 4, 5] ∧
      ¬ (BlockingReader.new (fiveBytes .new)).StdDelivers
        ⟨.included 7, .unbounded⟩ [1, 2, 3, 4, 5] := by
  have file := holdsFile_bytewise "file" [1, 2, 3, 4, 5]
  have behind : ¬ RangeBounds.Regular ⟨.included 7, .unbounded⟩ 5
      ((BlockingReader.new (fiveBytes .new)).size.load = none ∧
        ∃ err, (bytewiseAccessor [1, 2, 3, 4, 5]).stat "file" ⟨none⟩ =
          .error err) := by
    intro regular
    rcases regular.2 with ordered | ⟨-, -, err, failed⟩
    · revert ordered
      decide
    · cases failed
  refine ⟨?_, ?_, ?_, ?_⟩
  · intro delivers
    have regular := (file.stream_iff ⟨⟨0, none⟩, none⟩ .new
      ⟨.included 4, .excluded 2⟩).mp delivers
    rcases regular.2 with ordered | ⟨endless, -⟩
    · revert ordered
      decide
    · cases endless
  · intro delivers
    have regular := (file.futures_iff ⟨⟨0, none⟩, none⟩ .new
      ⟨.excluded (2 ^ 64 - 1), .unbounded⟩).mp delivers
    have small := regular.1.1 (2 ^ 64 - 1) rfl
    omega
  · intro delivers
    exact behind ((file.read_iff .new _).mp delivers)
  · intro delivers
    exact behind ((file.std_iff .new _).mp delivers)

end OpenDal
