import OpenDal.DecimalText
import OpenDal.Layers.EmptyRequests
import OpenDal.Splitting

/-!
# Range headers

A `BytesRange` is written as the value of a `Range` header, whose end is the
last position, and is read from one.  What is read may be too much: numbers
with a `+`, and an end that lies before the start, from which a size below
zero is computed.
-/

namespace OpenDal

open DecimalText

/-- `u64::from_str`. -/
def u64FromStr (text : List Char) : Except ParseIntError Nat :=
  DecimalText.parse (2 ^ 64) text

/-! ## Numbers of headers -/

theorem positive_u64 : 0 < 2 ^ 64 := by decide

theorem not_mem_of_u64FromStr {text : List Char} {n : Nat}
    (read : u64FromStr text = .ok n) {c : Char} (other : c.isDigit = false)
    (notPlus : c ≠ '+') : c ∉ text := by
  intro member
  rcases mem_of_parse positive_u64 read member with digit | plus
  · rw [other] at digit
    cases digit
  · exact notPlus plus

theorem ne_nil_of_u64FromStr {text : List Char} {n : Nat}
    (read : u64FromStr text = .ok n) : text ≠ [] := by
  intro empty
  rw [empty] at read
  cases read

theorem u64FromStr_lt {text : List Char} {n : Nat}
    (read : u64FromStr text = .ok n) : n < 2 ^ 64 :=
  ((parse_eq_ok_iff positive_u64).mp read).1

/-- The errors of reading a header. -/
def headerError (operation message : String) (value : List Char) : Error :=
  { Error.new .unexpected message with operation }.withContext "value"
    (String.ofList value)

namespace BytesRange

def fromStrError (message : String) (value : List Char) : Error :=
  headerError "BytesRange::from_str" message value

/-- `FromStr for BytesRange`; `none` is the underflow or the overflow of
`end - start + 1`. -/
def fromStr (value : List Char) : Option (Except Error BytesRange) :=
  let invalid : Except Error BytesRange :=
    .error (fromStrError "header range is invalid" value)
  match value.dropPrefix? "bytes=".toList with
  | none => some invalid
  | some s =>
      if s.contains ',' then
        some invalid
      else
        match s.splitOn '-' with
        | [first, last] =>
            if last.isEmpty then
              match u64FromStr first with
              | .ok start => some (.ok ⟨start, none⟩)
              | .error _ => some invalid
            else if first.isEmpty then
              some (.error (fromStrError
                "header range with tailing is not supported" value))
            else
              match u64FromStr first with
              | .error _ => some invalid
              | .ok start =>
                  match u64FromStr last with
                  | .error _ => some invalid
                  | .ok stop =>
                      ((checkedSub stop start).bind (checkedAdd · 1)).map
                        fun size => .ok ⟨start, some size⟩
        | _ => some invalid

/-! ## What is read -/

/-- `bytes=<range-start>-` -/
theorem fromStr_open {first : List Char} {start : Nat}
    (read : u64FromStr first = .ok start) :
    fromStr ("bytes=".toList ++ (first ++ ['-'])) =
      some (.ok ⟨start, none⟩) := by
  have comma := not_mem_of_u64FromStr read (c := ',') rfl (by decide)
  have split : (first ++ ['-']).splitOn '-' = [first, []] := by
    rw [Splitting.splitOn_eq_pair_iff]
    exact ⟨rfl, not_mem_of_u64FromStr read rfl (by decide), by simp⟩
  rw [fromStr, Splitting.dropPrefix?_append]
  simp [comma, split, read]

/-- `bytes=<range-start>-<range-end>` -/
theorem fromStr_closed {first last : List Char} {start stop : Nat}
    (firstRead : u64FromStr first = .ok start)
    (lastRead : u64FromStr last = .ok stop) :
    fromStr ("bytes=".toList ++ (first ++ '-' :: last)) =
      ((checkedSub stop start).bind (checkedAdd · 1)).map
        fun size => .ok ⟨start, some size⟩ := by
  have comma : ',' ∉ first ++ '-' :: last := by
    have inFirst := not_mem_of_u64FromStr firstRead (c := ',') rfl (by decide)
    have inLast := not_mem_of_u64FromStr lastRead (c := ',') rfl (by decide)
    simp [inFirst, inLast]
  have split : (first ++ '-' :: last).splitOn '-' = [first, last] := by
    rw [Splitting.splitOn_eq_pair_iff]
    exact ⟨rfl, not_mem_of_u64FromStr firstRead rfl (by decide),
      not_mem_of_u64FromStr lastRead rfl (by decide)⟩
  have firstFilled := ne_nil_of_u64FromStr firstRead
  have lastFilled := ne_nil_of_u64FromStr lastRead
  rw [fromStr, Splitting.dropPrefix?_append]
  simp [comma, split, firstRead, lastRead, firstFilled, lastFilled]

/-- Everything else is refused. -/
theorem fromStr_cases (value : List Char) :
    (∃ err, fromStr value = some (.error err)) ∨
      ∃ first last start,
        value = "bytes=".toList ++ (first ++ '-' :: last) ∧
          u64FromStr first = .ok start ∧
          (last = [] ∨ ∃ stop, u64FromStr last = .ok stop) := by
  rw [fromStr]
  split
  · exact .inl ⟨_, rfl⟩
  · next s found =>
      split
      · exact .inl ⟨_, rfl⟩
      · split
        · next first last split =>
            have shape : value = "bytes=".toList ++ (first ++ '-' :: last) := by
              rw [Splitting.eq_of_dropPrefix? found,
                (Splitting.splitOn_eq_pair_iff.mp split).1]
            split
            · next empty =>
                split
                · next start read =>
                    exact .inr ⟨first, last, start, shape, read,
                      .inl (List.isEmpty_iff.mp empty)⟩
                · exact .inl ⟨_, rfl⟩
            · split
              · exact .inl ⟨_, rfl⟩
              · split
                · exact .inl ⟨_, rfl⟩
                · next start read =>
                    split
                    · exact .inl ⟨_, rfl⟩
                    · next stop lastRead =>
                        exact .inr ⟨first, last, start, shape, read,
                          .inr ⟨stop, lastRead⟩⟩
        · exact .inl ⟨_, rfl⟩

/-! ## The grammar -/

/-- The headers with one range of digits. -/
inductive RangeHeader : List Char → BytesRange → Prop where
  | fromStart {first : List Char} {start : Nat}
      (decimal : IsDecimal first start) (fits : start < 2 ^ 64) :
      RangeHeader ("bytes=".toList ++ (first ++ ['-'])) ⟨start, none⟩
  | closed {first last : List Char} {start stop : Nat}
      (firstDecimal : IsDecimal first start) (firstFits : start < 2 ^ 64)
      (lastDecimal : IsDecimal last stop) (lastFits : stop < 2 ^ 64)
      (ordered : start ≤ stop) (fits : stop - start + 1 < 2 ^ 64) :
      RangeHeader ("bytes=".toList ++ (first ++ '-' :: last))
        ⟨start, some (stop - start + 1)⟩

theorem fromStr_closed_of_le {first last : List Char} {start stop : Nat}
    (firstRead : u64FromStr first = .ok start)
    (lastRead : u64FromStr last = .ok stop)
    (ordered : start ≤ stop) (fits : stop - start + 1 < 2 ^ 64) :
    fromStr ("bytes=".toList ++ (first ++ '-' :: last)) =
      some (.ok ⟨start, some (stop - start + 1)⟩) := by
  rw [fromStr_closed firstRead lastRead, checkedSub, if_pos ordered,
    Option.bind_some, checkedAdd, if_pos fits]
  rfl

theorem fromStr_closed_eq_none {first last : List Char} {start stop : Nat}
    (firstRead : u64FromStr first = .ok start)
    (lastRead : u64FromStr last = .ok stop)
    (wrong : ¬ (start ≤ stop ∧ stop - start + 1 < 2 ^ 64)) :
    fromStr ("bytes=".toList ++ (first ++ '-' :: last)) = none := by
  rw [fromStr_closed firstRead lastRead, checkedSub]
  by_cases ordered : start ≤ stop
  · have large : ¬ stop - start + 1 < 2 ^ 64 :=
      fun fits => wrong ⟨ordered, fits⟩
    rw [if_pos ordered, Option.bind_some, checkedAdd, if_neg large]
    rfl
  · rw [if_neg ordered]
    rfl

/-- The headers of the grammar are read as what they denote. -/
theorem RangeHeader.fromStr_eq {value : List Char} {range : BytesRange}
    (header : RangeHeader value range) :
    fromStr value = some (.ok range) := by
  cases header with
  | fromStart decimal fits =>
      exact fromStr_open (parse_of_isDecimal decimal fits)
  | closed firstDecimal firstFits lastDecimal lastFits ordered fits =>
      exact fromStr_closed_of_le (parse_of_isDecimal firstDecimal firstFits)
        (parse_of_isDecimal lastDecimal lastFits) ordered fits

theorem dash_not_mem {digits : List Char} {n : Nat}
    (decimal : IsDecimal digits n) : '-' ∉ digits := by
  intro member
  have digit := decimal.digit '-' member
  cases digit

theorem RangeHeader.exists_parts {value : List Char} {range : BytesRange}
    (header : RangeHeader value range) :
    ∃ first last start,
      value = "bytes=".toList ++ (first ++ '-' :: last) ∧
        IsDecimal first start ∧
        (last = [] ∨ ∃ stop, IsDecimal last stop) := by
  cases header with
  | @fromStart first start decimal fits =>
      exact ⟨first, [], start, rfl, decimal, .inl rfl⟩
  | @closed first last start stop firstDecimal _ lastDecimal =>
      exact ⟨first, last, start, rfl, firstDecimal, .inr ⟨stop, lastDecimal⟩⟩

theorem RangeHeader.unsigned {first last : List Char} {range : BytesRange}
    (header : RangeHeader ("bytes=".toList ++ (first ++ '-' :: last)) range)
    (cleanFirst : '-' ∉ first) (cleanLast : '-' ∉ last) :
    first.head? ≠ some '+' ∧ last.head? ≠ some '+' := by
  obtain ⟨front, back, start, shape, decimal, more⟩ := header.exists_parts
  have split : (first ++ '-' :: last).splitOn '-' = [first, last] :=
    Splitting.splitOn_eq_pair_iff.mpr ⟨rfl, cleanFirst, cleanLast⟩
  have cleanBack : '-' ∉ back := by
    rcases more with empty | ⟨stop, lastDecimal⟩
    · simp [empty]
    · exact dash_not_mem lastDecimal
  have other : (front ++ '-' :: back).splitOn '-' = [front, back] :=
    Splitting.splitOn_eq_pair_iff.mpr ⟨rfl, dash_not_mem decimal, cleanBack⟩
  rw [← List.append_cancel_left shape, split] at other
  cases other
  refine ⟨decimal.head?_ne, ?_⟩
  rcases more with rfl | ⟨stop, lastDecimal⟩
  · simp
  · exact lastDecimal.head?_ne

/-- A header is read if and only if it is one of the grammar, and refused
otherwise. -/
structure AcceptsGrammar (value : List Char) : Prop where
  accepts : ∀ range, fromStr value = some (.ok range) ↔ RangeHeader value range
  refuses : (∀ range, ¬ RangeHeader value range) →
    ∃ err, fromStr value = some (.error err)

/-- The numbers that are read have no sign, and from them a size can be
computed. -/
def IsPlain (value : List Char) : Prop :=
  ∀ first last start,
    value = "bytes=".toList ++ (first ++ '-' :: last) →
    u64FromStr first = .ok start →
      (last = [] → first.head? ≠ some '+') ∧
        ∀ stop, u64FromStr last = .ok stop →
          first.head? ≠ some '+' ∧ last.head? ≠ some '+' ∧
            start ≤ stop ∧ stop - start + 1 < 2 ^ 64

theorem isPlain_of_acceptsGrammar {value : List Char}
    (accepting : AcceptsGrammar value) : IsPlain value := by
  intro first last start shape read
  have cleanFirst : '-' ∉ first :=
    not_mem_of_u64FromStr read rfl (by decide)
  constructor
  · intro empty
    subst empty
    have accepted := fromStr_open read
    rw [← shape, accepting.accepts, shape] at accepted
    exact (accepted.unsigned cleanFirst (by simp)).1
  · intro stop lastRead
    have cleanLast : '-' ∉ last :=
      not_mem_of_u64FromStr lastRead rfl (by decide)
    by_cases sized : start ≤ stop ∧ stop - start + 1 < 2 ^ 64
    · have accepted := fromStr_closed_of_le read lastRead sized.1 sized.2
      rw [← shape, accepting.accepts, shape] at accepted
      obtain ⟨plainFirst, plainLast⟩ := accepted.unsigned cleanFirst cleanLast
      exact ⟨plainFirst, plainLast, sized⟩
    · -- neither read nor refused
      have broken := fromStr_closed_eq_none read lastRead sized
      rw [← shape] at broken
      obtain ⟨err, refused⟩ := accepting.refuses fun range header => by
        have accepted := header.fromStr_eq
        rw [broken] at accepted
        cases accepted
      rw [broken] at refused
      cases refused

theorem acceptsGrammar_of_isPlain {value : List Char}
    (plain : IsPlain value) : AcceptsGrammar value := by
  rcases fromStr_cases value with
    ⟨err, refused⟩ | ⟨first, last, start, shape, read, more⟩
  · constructor
    · intro range
      constructor
      · intro accepted
        rw [refused] at accepted
        cases accepted
      · exact RangeHeader.fromStr_eq
    · exact fun _ => ⟨err, refused⟩
  · have fits := u64FromStr_lt read
    obtain ⟨fromStart, closed⟩ := plain first last start shape read
    -- the header is one of the grammar
    have isHeader : ∃ range, RangeHeader value range := by
      rcases more with empty | ⟨stop, lastRead⟩
      · have decimal := isDecimal_of_parse positive_u64 read
          (fromStart empty)
        rw [shape, empty]
        exact ⟨_, .fromStart decimal fits⟩
      · obtain ⟨plainFirst, plainLast, ordered, sized⟩ := closed stop lastRead
        have firstDecimal := isDecimal_of_parse positive_u64 read plainFirst
        have lastDecimal := isDecimal_of_parse positive_u64 lastRead plainLast
        rw [shape]
        exact ⟨_, .closed firstDecimal fits lastDecimal
          (u64FromStr_lt lastRead) ordered sized⟩
    obtain ⟨range, header⟩ := isHeader
    constructor
    · intro other
      constructor
      · intro accepted
        rw [header.fromStr_eq] at accepted
        cases accepted
        exact header
      · exact RangeHeader.fromStr_eq
    · exact fun none => absurd header (none range)

/-- `from_str` accepts its grammar exactly, unless a number has a sign or no
size can be computed. -/
theorem acceptsGrammar_iff (value : List Char) :
    AcceptsGrammar value ↔ IsPlain value :=
  ⟨isPlain_of_acceptsGrammar, acceptsGrammar_of_isPlain⟩

/-- The size of a range that ends before it starts is below zero. -/
theorem not_acceptsGrammar_backwards :
    ¬ AcceptsGrammar "bytes=5-3".toList := by
  intro accepting
  obtain ⟨-, closed⟩ := isPlain_of_acceptsGrammar accepting "5".toList
    "3".toList 5 rfl rfl
  exact absurd (closed 3 rfl).2.2.1 (by decide)

/-! ## There and back -/

/-- A range that is not empty and that ends within `u64`. -/
def IsProper (range : BytesRange) : Prop :=
  range.offset < 2 ^ 64 ∧
    ∀ size, range.size = some size →
      1 ≤ size ∧ range.offset + size < 2 ^ 64

/-- Something is left of the range behind its first `count` bytes. -/
def Exceeds (range : BytesRange) (count : Nat) : Prop :=
  match range.size with
  | some size => count < size
  | none => range.offset + count < 2 ^ 64

def RoundTrips (debug : Bool) (range : BytesRange) : Prop :=
  ∃ header, range.toHeader debug = some header ∧
    fromStr header = some (.ok range)

theorem roundTrips_of_isProper (debug : Bool) {range : BytesRange}
    (proper : range.IsProper) : range.RoundTrips debug := by
  obtain ⟨offset, size⟩ := range
  obtain ⟨offsetFits, sized⟩ := proper
  have firstRead : u64FromStr (toString offset).toList = .ok offset :=
    parse_toString offsetFits
  cases size with
  | none => exact ⟨_, rfl, fromStr_open firstRead⟩
  | some size =>
      obtain ⟨filled, fits⟩ := sized size rfl
      simp only at filled fits
      have lastFits : offset + size - 1 < 2 ^ 64 := by omega
      have lastRead : u64FromStr (toString (offset + size - 1)).toList =
          .ok (offset + size - 1) := parse_toString lastFits
      have last : lastPosition debug offset size =
          some (offset + size - 1) := by
        apply lastPosition_of_le filled
        cases debug with
        | true =>
            simp only [bound, if_true]
            omega
        | false =>
            simp only [bound, Bool.false_eq_true, if_false]
            omega
      have back : offset + size - 1 - offset + 1 = size := by omega
      have read := fromStr_closed_of_le firstRead lastRead (by omega)
        (by omega)
      rw [back] at read
      refine ⟨_, ?_, read⟩
      simp only [toHeader, display, last, Option.map_some]

theorem exists_advance {range : BytesRange} (proper : range.IsProper)
    {count : Nat} (exceeds : range.Exceeds count) :
    ∃ later, range.advance count = some later ∧ later.IsProper ∧
      ∀ content, later.select content =
        (range.select content).drop count := by
  obtain ⟨offset, size⟩ := range
  obtain ⟨offsetFits, sized⟩ := proper
  cases size with
  | none =>
      refine ⟨⟨offset + count, none⟩, rfl, ⟨exceeds, ?_⟩, ?_⟩
      · intro size same
        cases same
      · intro content
        simp only [select, List.drop_drop]
  | some size =>
      obtain ⟨filled, fits⟩ := sized size rfl
      have shorter : count < size := exceeds
      simp only at fits
      have rest : checkedSub size count = some (size - count) := by
        rw [checkedSub, if_pos (by omega)]
      refine ⟨⟨offset + count, some (size - count)⟩, ?_, ⟨?_, ?_⟩, ?_⟩
      · simp only [advance, rest, Option.map_some]
      · simp only
        omega
      · intro other same
        cases same
        simp only
        omega
      · intro content
        simp only [select, List.drop_take, List.drop_drop]

/-- The header of a range is read as the range, and advancing leaves a range
of the other bytes, whose header is read as well. -/
theorem roundTrips_and_advances (debug : Bool) {range : BytesRange}
    (proper : range.IsProper) :
    range.RoundTrips debug ∧
      ∀ count, range.Exceeds count →
        ∃ later, range.advance count = some later ∧
          (∀ content, later.select content =
            (range.select content).drop count) ∧
          later.RoundTrips debug := by
  refine ⟨roundTrips_of_isProper debug proper, ?_⟩
  intro count exceeds
  obtain ⟨later, advanced, laterProper, selects⟩ :=
    exists_advance proper exceeds
  exact ⟨later, advanced, selects, roundTrips_of_isProper debug laterProper⟩

theorem roundTrips_and_advances_closed :
    (BytesRange.mk 1024 (some 1024)).RoundTrips true ∧
      ∀ count, (BytesRange.mk 1024 (some 1024)).Exceeds count →
        ∃ later, (BytesRange.mk 1024 (some 1024)).advance count = some later ∧
          (∀ content, later.select content =
            ((BytesRange.mk 1024 (some 1024)).select content).drop count) ∧
          later.RoundTrips true :=
  roundTrips_and_advances true ⟨by decide, by
    intro size same
    cases same
    decide⟩

end BytesRange

end OpenDal
