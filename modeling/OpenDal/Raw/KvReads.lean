import OpenDal.Raw.RootedMap

/-!
# Reads of a key-value backend and the ends of a range

A range of the user is turned into a range of `usize` and handed to
`Buffer::slice`, which asserts that it lies inside the value.  The numbers here
are the machine words of the code: the end of a range is the sum of two `u64`,
and both ends are cut down to the width of `usize`.

The blocking variants have the same bodies; an adapter stands for the half of
its operations that a variant calls.
-/

namespace OpenDal

open Path

inductive UsizeWidth where
  | bits16
  | bits32
  | bits64
deriving DecidableEq, Repr

/-- What the compiled code depends on. -/
structure Target where
  width : UsizeWidth
  overflowChecks : Bool
deriving DecidableEq, Repr

namespace Target

/-- The number of values of `usize`. -/
def limit (target : Target) : Nat :=
  match target.width with
  | .bits16 => 65536
  | .bits32 => 4294967296
  | .bits64 => 18446744073709551616

/-- `value as usize`. -/
def asUsize (target : Target) (value : UInt64) : Nat :=
  value.toNat % target.limit

/-- The sum of two `u64`; `none` is the panic of an overflow check. -/
def add (target : Target) (left right : UInt64) : Option UInt64 :=
  let overflows : Bool := UInt64.size ≤ left.toNat + right.toNat
  if target.overflowChecks && overflows then none else some (left + right)

end Target

/-- A `BytesRange` in the words of the code. -/
structure WordRange where
  offset : UInt64
  size : Option UInt64
deriving DecidableEq

namespace WordRange

def bytesRange (range : WordRange) : BytesRange :=
  ⟨range.offset.toNat, range.size.map UInt64.toNat⟩

/-- `to_range_as_usize`. -/
def toRangeAsUsize (target : Target) (range : WordRange) :
    Option RangeBounds :=
  match range.size with
  | some size =>
      (target.add range.offset size).map fun stop =>
        { startBound := .included (target.asUsize range.offset)
          endBound := .excluded (target.asUsize stop) }
  | none =>
      some
        { startBound := .included (target.asUsize range.offset)
          endBound := .unbounded }

/-- The end of the range is no `u64`. -/
def Overflows (range : WordRange) : Prop :=
  UInt64.size ≤ range.offset.toNat + (range.size.map UInt64.toNat).getD 0

/-- The two ends, as far as `usize` keeps them, select what the range has of
the value.  Where `usize` has 64 bits this is a range inside the value; a
narrower `usize` may drop what is too much. -/
def Fits (target : Target) (range : WordRange) (length : Nat) : Prop :=
  match range.size with
  | none =>
      range.offset.toNat ≤ length ∨ target.asUsize range.offset = length
  | some size =>
      let stop := range.offset.toNat + size.toNat
      stop < UInt64.size ∧
        (stop ≤ length ∨
          (range.offset.toNat ≤ length ∧ stop % target.limit = length) ∨
          (length < range.offset.toNat ∧
            target.asUsize range.offset ≤ length ∧
            stop % target.limit = target.asUsize range.offset))

/-! ## The ends -/

theorem asUsize_of_lt {target : Target} {value : UInt64}
    (fits : value.toNat < target.limit) :
    target.asUsize value = value.toNat :=
  Nat.mod_eq_of_lt fits

theorem toNat_add_of_lt {left right : UInt64}
    (fits : left.toNat + right.toNat < UInt64.size) :
    (left + right).toNat = left.toNat + right.toNat := by
  rw [UInt64.toNat_add]
  exact Nat.mod_eq_of_lt fits

theorem add_of_lt {target : Target} {left right : UInt64}
    (fits : left.toNat + right.toNat < UInt64.size) :
    target.add left right = some (left + right) := by
  have checked : ¬UInt64.size ≤ left.toNat + right.toNat := by omega
  simp [Target.add, checked]

/-- `cut` and `stop'` are the ends that are left of `offset` and `stop`. -/
theorem distance_iff {offset stop cut stop' length : Nat}
    (kept : offset ≤ length → cut = offset)
    (stopKept : stop ≤ length → stop' = stop)
    (below : stop' ≤ stop) (ordered : offset ≤ stop) :
    (cut ≤ stop' ∧ stop' ≤ length ∧
        stop' - cut = min (stop - offset) (length - offset)) ↔
      stop ≤ length ∨ (offset ≤ length ∧ stop' = length) ∨
        (length < offset ∧ cut ≤ length ∧ stop' = cut) := by
  constructor
  · rintro ⟨cutOrdered, inside, distance⟩
    by_cases within : stop ≤ length
    · exact .inl within
    · by_cases start : offset ≤ length
      · have same := kept start
        refine .inr (.inl ⟨start, ?_⟩)
        omega
      · refine .inr (.inr ⟨by omega, by omega, ?_⟩)
        omega
  · rintro (within | ⟨start, all⟩ | ⟨behind, inside, none⟩)
    · have same := kept (by omega)
      have stopSame := stopKept within
      omega
    · have same := kept start
      omega
    · omega

end WordRange

/-- A part of the content is determined by its length. -/
theorem drop_take_eq_iff {content : Bytes} {offset size start stop : Nat}
    (inside : start ≤ stop ∧ stop ≤ content.length)
    (kept : offset ≤ content.length → start = offset) :
    (content.take stop).drop start = (content.drop offset).take size ↔
      stop - start = min size (content.length - offset) := by
  obtain ⟨ordered, bounded⟩ := inside
  constructor
  · intro same
    have lengths := congrArg List.length same
    simp only [List.length_drop, List.length_take] at lengths
    omega
  · intro distance
    by_cases within : offset ≤ content.length
    · have same := kept within
      subst same
      rw [List.drop_take, distance, ← List.length_drop, List.take_eq_take_iff]
      omega
    · have none : content.drop offset = [] :=
        List.drop_eq_nil_of_le (by omega)
      have cut : (content.take stop).drop start = [] := by
        apply List.drop_eq_nil_of_le
        rw [List.length_take]
        omega
      rw [none, cut, List.take_nil]

theorem Buffer.slice_eq_iff (buffer : Buffer) (range : RangeBounds)
    (bytes : Bytes) :
    (∃ part, buffer.inner.slice range = some part ∧ part.content = bytes) ↔
      Inner.Inside range buffer.len ∧
        (buffer.bytes.take (Inner.sliceEnd range buffer.len)).drop
          (Inner.sliceBegin range) = bytes := by
  constructor
  · rintro ⟨part, sliced, content⟩
    have inside : Inner.Inside range buffer.len := by
      by_contra outside
      have panicked : buffer.inner.slice range = none := if_neg outside
      rw [panicked] at sliced
      cases sliced
    obtain ⟨found, result, -, same⟩ :=
      Inner.slice_spec buffer.wellFormed inside
    rw [result] at sliced
    cases sliced
    exact ⟨inside, same.symm.trans content⟩
  · rintro ⟨inside, same⟩
    obtain ⟨found, result, -, content⟩ :=
      Inner.slice_spec buffer.wellFormed inside
    exact ⟨found, result, content.trans same⟩

namespace Kv

variable {S V : Type} [Adapter S V]

/-- `read` and `blocking_read`; `none` is a panic. -/
def readRange (target : Target) (service : Service S V) (root : Root) (kv : S)
    (path : Path) (range : WordRange) :
    Option (Except Error Buffer.Inner) × S :=
  let p := buildAbsPath root.path path
  match Adapter.get kv p with
  | (.error err, kv) => (some (.error err), kv)
  | (.ok (some bs), kv) =>
      let range := range.toRangeAsUsize target
      ((range.bind (service.value bs).inner.slice).map .ok, kv)
  | (.ok none, kv) => (some (.error notFound), kv)

/-- The adapter finds a value under the path. -/
def Finds (root : Root) (kv : S) (path : Path) (bs : V) : Prop :=
  (Adapter.get kv (buildAbsPath root.path path)).1 = .ok (some bs)

/-- The call returns the part of the value inside the range or an error, and
the conversion of the range, if it is made, does not overflow. -/
def ReadAnswers (target : Target) (service : Service S V) (root : Root)
    (kv : S) (path : Path) (range : WordRange) : Prop :=
  (∀ bs : V, Finds root kv path bs → ¬range.Overflows) ∧
    match (readRange target service root kv path range).1 with
    | none => False
    | some (.error _) => True
    | some (.ok part) =>
        ∃ bs : V, Finds root kv path bs ∧
          part.content = range.bytesRange.select (service.value bs).bytes

/-! ## What a read returns -/

variable {target : Target} {service : Service S V} {root : Root} {kv : S}
  {path : Path} {range : WordRange}

/-- The slice of the range is the part of the value inside it. -/
def Selects (target : Target) (range : WordRange) (buffer : Buffer) : Prop :=
  ∃ bounds part, range.toRangeAsUsize target = some bounds ∧
    buffer.inner.slice bounds = some part ∧
    part.content = range.bytesRange.select buffer.bytes

theorem readAnswers_iff_selects :
    ReadAnswers target service root kv path range ↔
      ∀ bs : V, Finds root kv path bs → ¬range.Overflows ∧
        Selects target range (service.value bs) := by
  cases answer : Adapter.get kv (buildAbsPath root.path path) with
  | mk result later =>
      simp only [ReadAnswers, readRange, Finds, answer]
      cases result with
      | error err => simp
      | ok found =>
          cases found with
          | none => simp
          | some bs =>
              simp only [Except.ok.injEq, Option.some.injEq, forall_eq',
                exists_eq_left']
              apply and_congr_right
              intro _
              unfold Selects
              cases bounds : range.toRangeAsUsize target with
              | none => simp
              | some ends =>
                  simp only [Option.bind_some]
                  cases sliced : (service.value bs).inner.slice ends with
                  | none => simp [sliced]
                  | some part => simp [sliced]

theorem selects_from_iff {offset : UInt64} {buffer : Buffer}
    (sized : buffer.len < target.limit) :
    Selects target ⟨offset, none⟩ buffer ↔
      WordRange.Fits target ⟨offset, none⟩ buffer.len := by
  have length := Buffer.length_bytes buffer
  have kept : offset.toNat ≤ buffer.bytes.length →
      target.asUsize offset = offset.toNat :=
    fun within => WordRange.asUsize_of_lt (by omega)
  have whole : (buffer.bytes.drop offset.toNat).take buffer.bytes.length =
      buffer.bytes.drop offset.toNat := by
    apply List.take_of_length_le
    rw [List.length_drop]
    omega
  unfold Selects
  simp only [WordRange.toRangeAsUsize, Option.some.injEq, exists_eq_left',
    WordRange.bytesRange, BytesRange.select, Option.map_none, WordRange.Fits,
    exists_and_left]
  rw [Buffer.slice_eq_iff]
  simp only [Buffer.Inner.Inside, Buffer.Inner.sliceBegin,
    Buffer.Inner.sliceEnd]
  constructor
  · rintro ⟨inside, same⟩
    have distance := (drop_take_eq_iff ⟨inside.1, by omega⟩ kept).mp
      (same.trans whole.symm)
    omega
  · intro fits
    have start : target.asUsize offset ≤ buffer.len := by
      rcases fits with within | all
      · rw [kept (by omega)]
        exact within
      · omega
    refine ⟨⟨start, le_refl _⟩, ?_⟩
    rw [← whole]
    apply (drop_take_eq_iff ⟨start, by omega⟩ kept).mpr
    by_cases within : offset.toNat ≤ buffer.bytes.length
    · have same := kept within
      omega
    · omega

theorem selects_sized_iff {offset size : UInt64} {buffer : Buffer}
    (sized : buffer.len < target.limit)
    (sum : offset.toNat + size.toNat < UInt64.size) :
    Selects target ⟨offset, some size⟩ buffer ↔
      WordRange.Fits target ⟨offset, some size⟩ buffer.len := by
  have length := Buffer.length_bytes buffer
  have stop : target.asUsize (offset + size) =
      (offset.toNat + size.toNat) % target.limit := by
    rw [Target.asUsize, WordRange.toNat_add_of_lt sum]
  have kept : offset.toNat ≤ buffer.bytes.length →
      target.asUsize offset = offset.toNat :=
    fun within => WordRange.asUsize_of_lt (by omega)
  have stopKept : offset.toNat + size.toNat ≤ buffer.len →
      (offset.toNat + size.toNat) % target.limit =
        offset.toNat + size.toNat :=
    fun within => Nat.mod_eq_of_lt (by omega)
  have distance := WordRange.distance_iff (by rwa [length] at kept) stopKept
    (Nat.mod_le _ target.limit) (Nat.le_add_right offset.toNat size.toNat)
  unfold Selects
  simp only [WordRange.toRangeAsUsize, WordRange.add_of_lt sum,
    Option.map_some, Option.some.injEq, exists_eq_left',
    WordRange.bytesRange, BytesRange.select, WordRange.Fits,
    exists_and_left, sum, true_and]
  rw [Buffer.slice_eq_iff, ← distance, Nat.add_sub_cancel_left]
  simp only [Buffer.Inner.Inside, Buffer.Inner.sliceBegin,
    Buffer.Inner.sliceEnd, stop, and_assoc]
  apply and_congr_right
  intro ordered
  apply and_congr_right
  intro bounded
  rw [drop_take_eq_iff ⟨ordered, by omega⟩ kept, length]

theorem selects_iff_fits {buffer : Buffer}
    (sized : buffer.len < target.limit) :
    (¬range.Overflows ∧ Selects target range buffer) ↔
      range.Fits target buffer.len := by
  obtain ⟨offset, size⟩ := range
  cases size with
  | none =>
      have small : ¬WordRange.Overflows ⟨offset, none⟩ := by
        have bound := offset.toNat_lt_size
        simp only [WordRange.Overflows, Option.map_none, Option.getD_none]
        omega
      rw [selects_from_iff sized]
      exact and_iff_right small
  | some size =>
      by_cases sum : offset.toNat + size.toNat < UInt64.size
      · have small : ¬WordRange.Overflows ⟨offset, some size⟩ := by
          simp only [WordRange.Overflows, Option.map_some, Option.getD_some]
          omega
        rw [selects_sized_iff sized sum]
        exact and_iff_right small
      · constructor
        · rintro ⟨small, _⟩
          simp only [WordRange.Overflows, Option.map_some,
            Option.getD_some] at small
          omega
        · intro fits
          exact absurd fits.1 sum

/-- A read returns the part of the value inside the range exactly when there
is no value to slice or the range fits into it. -/
theorem readAnswers_iff (target : Target) (service : Service S V) (root : Root)
    (kv : S) (path : Path) (range : WordRange)
    (sized : ∀ bs : V, Finds root kv path bs →
      (service.value bs).len < target.limit) :
    ReadAnswers target service root kv path range ↔
      ∀ bs : V, Finds root kv path bs →
        range.Fits target (service.value bs).len := by
  rw [readAnswers_iff_selects]
  apply forall_congr'
  intro bs
  apply forall_congr'
  intro found
  exact selects_iff_fits (sized bs found)

/-- `f`, with three bytes. -/
def threeBytes : ListMap Buffer :=
  ListMap.insert ⟨[], List.nodup_nil⟩ ['f'] (Buffer.fromBytes [1, 2, 3])

/-- Two of the bytes, with a narrow `usize`. -/
theorem readAnswers_iff_within :
    ReadAnswers ⟨.bits32, true⟩ (Kv.service (ListMap Buffer)) Root.slash
      threeBytes ['f'] ⟨1, some 2⟩ := by
  apply (readAnswers_iff _ _ _ _ _ _ _).mpr
  · rintro bs found
    cases found
    exact ⟨by decide, .inl (by decide)⟩
  · rintro bs found
    cases found
    decide

/-- A range that ends behind the value is a panic, also without overflow
checks. -/
theorem readAnswers_fails :
    ¬∀ (target : Target) (kv : ListMap Buffer) (range : WordRange),
      (∀ bs : Buffer, Finds Root.slash kv ['f'] bs → bs.len < target.limit) →
        ReadAnswers target (Kv.service (ListMap Buffer)) Root.slash kv ['f']
          range := by
  intro answers
  have answered := answers ⟨.bits64, false⟩ threeBytes ⟨2, some 2⟩ (by
    rintro bs found
    cases found
    decide)
  have panicked : (readRange ⟨.bits64, false⟩ (Kv.service (ListMap Buffer))
      Root.slash threeBytes ['f'] ⟨2, some 2⟩).1 = none := rfl
  unfold ReadAnswers at answered
  rw [panicked] at answered
  exact answered.2

end Kv

/-- Where `usize` has 64 bits the range has to lie inside the value. -/
theorem WordRange.fits_bits64 {target : Target} (wide : target.width = .bits64)
    (range : WordRange) {buffer : Buffer} (sized : buffer.len < target.limit) :
    range.Fits target buffer.len ↔ range.bytesRange.Within buffer.bytes := by
  obtain ⟨offset, size⟩ := range
  have limit : target.limit = UInt64.size := by
    rw [Target.limit, wide]
  have length := Buffer.length_bytes buffer
  have cut : target.asUsize offset = offset.toNat :=
    asUsize_of_lt (by rw [limit]; exact offset.toNat_lt_size)
  cases size with
  | none =>
      simp only [Fits, cut, bytesRange, BytesRange.Within, Option.map_none,
        Option.getD_none]
      rw [length]
      constructor
      · rintro (within | all)
        · exact within
        · exact le_of_eq all
      · exact .inl
  | some size =>
      simp only [Fits, cut, bytesRange, BytesRange.Within, Option.map_some,
        Option.getD_some]
      constructor
      · rintro ⟨sum, fits⟩
        rw [limit, Nat.mod_eq_of_lt sum] at fits
        omega
      · intro within
        exact ⟨by omega, .inl (by omega)⟩

/-- There the range as numbers is what is sliced, unless its end is no
`u64`. -/
theorem Kv.readRange_eq_read {S V : Type} [Adapter S V] {target : Target}
    (wide : target.width = .bits64) (service : Service S V) (root : Root)
    (kv : S) (path : Path) {range : WordRange} (small : ¬range.Overflows) :
    readRange target service root kv path range =
      read service root kv path range.bytesRange := by
  obtain ⟨offset, size⟩ := range
  have limit : target.limit = UInt64.size := by
    rw [Target.limit, wide]
  have kept (value : UInt64) : target.asUsize value = value.toNat :=
    WordRange.asUsize_of_lt (by rw [limit]; exact value.toNat_lt_size)
  have bounds : WordRange.toRangeAsUsize target ⟨offset, size⟩ =
      some (WordRange.bytesRange ⟨offset, size⟩).toRangeAsUsize := by
    cases size with
    | none =>
        simp only [WordRange.toRangeAsUsize, kept, WordRange.bytesRange,
          BytesRange.toRangeAsUsize, Option.map_none]
    | some size =>
        have sum : offset.toNat + size.toNat < UInt64.size := by
          simp only [WordRange.Overflows, Option.map_some, Option.getD_some]
            at small
          omega
        simp only [WordRange.toRangeAsUsize, WordRange.add_of_lt sum, kept,
          WordRange.toNat_add_of_lt sum, WordRange.bytesRange,
          BytesRange.toRangeAsUsize, Option.map_some]
  simp only [readRange, bounds, Option.bind_some]
  rfl

end OpenDal
