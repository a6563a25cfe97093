import OpenDal.Raw.RangeHeaders

/-!
# Content ranges

A `BytesContentRange` is read from the `Content-Range` header of a response.
Any two numbers are read as a range, and the accessors compute with them
unchecked.
-/

namespace OpenDal

open DecimalText

/-- Start and end of the range, which belongs to it, and the size of the whole
content; `none` means unknown. -/
structure BytesContentRange where
  start : Option Nat
  stop : Option Nat
  size : Option Nat
deriving DecidableEq, Repr

namespace BytesContentRange

def default : BytesContentRange :=
  ⟨none, none, none⟩

def withRange (self : BytesContentRange) (start stop : Nat) :
    BytesContentRange :=
  { self with start := some start, stop := some stop }

def withSize (self : BytesContentRange) (size : Nat) : BytesContentRange :=
  { self with size := some size }

/-- The outer `none` is the underflow or the overflow of `end - start + 1`. -/
def len (self : BytesContentRange) : Option (Option Nat) :=
  match self.start, self.stop with
  | some start, some stop =>
      ((checkedSub stop start).bind (checkedAdd · 1)).map some
  | _, _ => some none

/-- The outer `none` is the overflow of `end + 1`. -/
def range (self : BytesContentRange) : Option (Option (Nat × Nat)) :=
  match self.start, self.stop with
  | some start, some stop =>
      (checkedAdd stop 1).map fun stop => some (start, stop)
  | _, _ => some none

/-- `Display`; `none` is the `unreachable!`. -/
def display (self : BytesContentRange) : Option (List Char) :=
  match self.start, self.stop, self.size with
  | some start, some stop, some size =>
      some ((toString start).toList ++ '-' ::
        ((toString stop).toList ++ '/' :: (toString size).toList))
  | some start, some stop, none =>
      some ((toString start).toList ++ '-' ::
        ((toString stop).toList ++ ['/', '*']))
  | none, none, some size => some ('*' :: '/' :: (toString size).toList)
  | _, _, _ => none

def toHeader (self : BytesContentRange) : Option (List Char) :=
  self.display.map ("bytes ".toList ++ ·)

def fromStrError (value : List Char) : Error :=
  headerError "BytesContentRange::from_str" "header content range is invalid"
    value

/-- `FromStr for BytesContentRange`. -/
def fromStr (value : List Char) : Except Error BytesContentRange :=
  let invalid : Except Error BytesContentRange := .error (fromStrError value)
  match value.dropPrefix? "bytes ".toList with
  | none => invalid
  | some s =>
      match s.dropPrefix? "*/".toList with
      | some size =>
          match u64FromStr size with
          | .error _ => invalid
          | .ok size => .ok (default.withSize size)
      | none =>
          match s.splitOn '/' with
          | [range, size] =>
              match range.splitOn '-' with
              | [first, last] =>
                  match u64FromStr first with
                  | .error _ => invalid
                  | .ok start =>
                      match u64FromStr last with
                      | .error _ => invalid
                      | .ok stop =>
                          let bcr := default.withRange start stop
                          if size ≠ ['*'] then
                            match u64FromStr size with
                            | .error _ => invalid
                            | .ok size => .ok (bcr.withSize size)
                          else
                            .ok bcr
              | _ => invalid
          | _ => invalid

/-! ## What is read -/

/-- The size behind the `/`, and `*` where it is not known. -/
inductive ReadsSize : List Char → Option Nat → Prop where
  | unknown : ReadsSize ['*'] none
  | known {text : List Char} {size : Nat}
      (read : u64FromStr text = .ok size) : ReadsSize text (some size)

theorem ReadsSize.slash_not_mem {text : List Char} {size : Option Nat}
    (reads : ReadsSize text size) : '/' ∉ text := by
  cases reads with
  | unknown => decide
  | known read => exact not_mem_of_u64FromStr read rfl (by decide)

theorem star_not_mem {text : List Char} {n : Nat}
    (read : u64FromStr text = .ok n) : '*' ∉ text :=
  not_mem_of_u64FromStr read rfl (by decide)

/-- `bytes */<size>` -/
theorem fromStr_size {text : List Char} {size : Nat}
    (read : u64FromStr text = .ok size) :
    fromStr ("bytes ".toList ++ ("*/".toList ++ text)) =
      .ok (default.withSize size) := by
  rw [fromStr, Splitting.dropPrefix?_append]
  simp only [Splitting.dropPrefix?_append, read]

/-- `bytes <range-start>-<range-end>/<size>` -/
theorem fromStr_range {first last rest : List Char} {start stop : Nat}
    {size : Option Nat} (firstRead : u64FromStr first = .ok start)
    (lastRead : u64FromStr last = .ok stop) (reads : ReadsSize rest size) :
    fromStr ("bytes ".toList ++ ((first ++ '-' :: last) ++ '/' :: rest)) =
      .ok ⟨some start, some stop, size⟩ := by
  have noStar : ((first ++ '-' :: last) ++ '/' :: rest).dropPrefix?
      "*/".toList = none := by
    obtain ⟨c, digits, rfl⟩ :=
      List.exists_cons_of_ne_nil (ne_nil_of_u64FromStr firstRead)
    have other : c ≠ '*' := by
      intro same
      exact star_not_mem firstRead (by simp [same])
    simp [List.dropPrefix?, other]
  have slashes : ((first ++ '-' :: last) ++ '/' :: rest).splitOn '/' =
      [first ++ '-' :: last, rest] := by
    rw [Splitting.splitOn_eq_pair_iff]
    have inFirst := not_mem_of_u64FromStr firstRead (c := '/') rfl (by decide)
    have inLast := not_mem_of_u64FromStr lastRead (c := '/') rfl (by decide)
    exact ⟨rfl, by simp [inFirst, inLast], reads.slash_not_mem⟩
  have dashes : (first ++ '-' :: last).splitOn '-' = [first, last] := by
    rw [Splitting.splitOn_eq_pair_iff]
    exact ⟨rfl, not_mem_of_u64FromStr firstRead rfl (by decide),
      not_mem_of_u64FromStr lastRead rfl (by decide)⟩
  rw [fromStr, Splitting.dropPrefix?_append]
  simp only [noStar, slashes, dashes, firstRead, lastRead]
  cases reads with
  | unknown => rfl
  | known read =>
      have known : rest ≠ ['*'] := by
        intro same
        exact star_not_mem read (by simp [same])
      rw [if_pos known, read]
      rfl

/-- The two kinds of headers that are read. -/
theorem fromStr_cases {value : List Char} {self : BytesContentRange}
    (parsed : fromStr value = .ok self) :
    (∃ text size, value = "bytes ".toList ++ ("*/".toList ++ text) ∧
        u64FromStr text = .ok size ∧ self = default.withSize size) ∨
      ∃ first last rest start stop size,
        value = "bytes ".toList ++ ((first ++ '-' :: last) ++ '/' :: rest) ∧
          u64FromStr first = .ok start ∧ u64FromStr last = .ok stop ∧
          ReadsSize rest size ∧ self = ⟨some start, some stop, size⟩ := by
  rw [fromStr] at parsed
  split at parsed
  · cases parsed
  · next s found =>
      rw [Splitting.eq_of_dropPrefix? found]
      split at parsed
      · next text sizeOnly =>
          rw [Splitting.eq_of_dropPrefix? sizeOnly]
          split at parsed
          · cases parsed
          · next size read =>
              cases parsed
              exact .inl ⟨text, size, rfl, read, rfl⟩
      · split at parsed
        · next range rest slashes =>
            rw [(Splitting.splitOn_eq_pair_iff.mp slashes).1]
            split at parsed
            · next first last dashes =>
                rw [(Splitting.splitOn_eq_pair_iff.mp dashes).1]
                split at parsed
                · cases parsed
                · next start firstRead =>
                    split at parsed
                    · cases parsed
                    · next stop lastRead =>
                        right
                        split at parsed
                        · split at parsed
                          · cases parsed
                          · next size read =>
                              cases parsed
                              exact ⟨first, last, rest, start, stop, some size,
                                rfl, firstRead, lastRead, .known read, rfl⟩
                        · next star =>
                            cases parsed
                            have same : rest = ['*'] := not_not.mp star
                            subst same
                            exact ⟨first, last, ['*'], start, stop, none, rfl,
                              firstRead, lastRead, .unknown, rfl⟩
            · cases parsed
        · cases parsed

/-! ## There and back -/

def RoundTrips (self : BytesContentRange) : Prop :=
  ∃ header, self.toHeader = some header ∧ fromStr header = .ok self

/-- A size, or a range with or without one. -/
inductive IsPrintable : BytesContentRange → Prop where
  | size {size : Nat} (fits : size < 2 ^ 64) :
      IsPrintable (default.withSize size)
  | range {start stop : Nat} {size : Option Nat} (startFits : start < 2 ^ 64)
      (stopFits : stop < 2 ^ 64) (sizeFits : ∀ n, size = some n → n < 2 ^ 64) :
      IsPrintable ⟨some start, some stop, size⟩

theorem IsPrintable.roundTrips {self : BytesContentRange}
    (printable : self.IsPrintable) : self.RoundTrips := by
  cases printable with
  | @size size fits => exact ⟨_, rfl, fromStr_size (parse_toString fits)⟩
  | @range start stop size startFits stopFits sizeFits =>
      have firstRead : u64FromStr (toString start).toList = .ok start :=
        parse_toString startFits
      have lastRead : u64FromStr (toString stop).toList = .ok stop :=
        parse_toString stopFits
      cases size with
      | none =>
          have read := fromStr_range firstRead lastRead .unknown
          rw [List.append_assoc] at read
          exact ⟨_, rfl, read⟩
      | some size =>
          have read := fromStr_range firstRead lastRead
            (.known (parse_toString (sizeFits size rfl)))
          rw [List.append_assoc] at read
          exact ⟨_, rfl, read⟩

theorem isPrintable_of_fromStr {value : List Char} {self : BytesContentRange}
    (parsed : fromStr value = .ok self) : self.IsPrintable := by
  rcases fromStr_cases parsed with ⟨text, size, -, read, rfl⟩ |
    ⟨first, last, rest, start, stop, size, -, firstRead, lastRead, reads, rfl⟩
  · exact .size (u64FromStr_lt read)
  · refine .range (u64FromStr_lt firstRead) (u64FromStr_lt lastRead) ?_
    intro n known
    subst known
    cases reads with
    | known read => exact u64FromStr_lt read

/-- What the setters build from the default, in any order. -/
inductive IsBuilt : BytesContentRange → Prop where
  | range {start stop : Nat} (ordered : start ≤ stop) (fits : stop < 2 ^ 64) :
      IsBuilt (default.withRange start stop)
  | size {size : Nat} (fits : size < 2 ^ 64) : IsBuilt (default.withSize size)
  | withRange {self : BytesContentRange} (built : IsBuilt self)
      {start stop : Nat} (ordered : start ≤ stop) (fits : stop < 2 ^ 64) :
      IsBuilt (self.withRange start stop)
  | withSize {self : BytesContentRange} (built : IsBuilt self) {size : Nat}
      (fits : size < 2 ^ 64) : IsBuilt (self.withSize size)

theorem IsBuilt.isPrintable {self : BytesContentRange} (built : self.IsBuilt) :
    self.IsPrintable := by
  induction built with
  | range ordered fits => exact .range (by omega) fits nofun
  | size fits => exact .size fits
  | withRange built ordered fits induction =>
      refine .range (by omega) fits ?_
      cases induction with
      | size sizeFits =>
          intro n same
          cases same
          exact sizeFits
      | range _ _ sizeFits => exact sizeFits
  | withSize built fits induction =>
      cases induction with
      | size _ => exact .size fits
      | range startFits stopFits _ =>
          refine .range startFits stopFits ?_
          intro n same
          cases same
          exact fits

/-! ## Computing with what is read -/

/-- The accessors return, and where the range is known the length is that of
the range and not zero. -/
def IsUsable (self : BytesContentRange) : Prop :=
  ∃ len range, self.len = some len ∧ self.range = some range ∧
    ∀ start stop, range = some (start, stop) →
      len = some (stop - start) ∧ 1 ≤ stop - start

/-- Whatever is read of the header is written back and can be used. -/
def ParsesSafely (value : List Char) : Prop :=
  ∀ self, fromStr value = .ok self → self.RoundTrips ∧ self.IsUsable

/-- A range that is read does not end before it starts, and its end is not
the greatest number. -/
def IsOrdered (value : List Char) : Prop :=
  ∀ first last rest start stop size,
    value = "bytes ".toList ++ ((first ++ '-' :: last) ++ '/' :: rest) →
    u64FromStr first = .ok start → u64FromStr last = .ok stop →
    ReadsSize rest size → start ≤ stop ∧ stop + 1 < 2 ^ 64

theorem isUsable_range_iff {start stop : Nat} {size : Option Nat} :
    IsUsable ⟨some start, some stop, size⟩ ↔
      start ≤ stop ∧ stop + 1 < 2 ^ 64 := by
  constructor
  · rintro ⟨len, range, computed, ended, -⟩
    simp only [BytesContentRange.len, checkedSub] at computed
    simp only [BytesContentRange.range, Option.map_eq_some_iff] at ended
    obtain ⟨behind, added, -⟩ := ended
    have fits : stop + 1 < 2 ^ 64 := by
      rw [← isSome_checkedAdd, added]
      rfl
    refine ⟨?_, fits⟩
    by_contra backwards
    rw [if_neg backwards] at computed
    cases computed
  · rintro ⟨ordered, fits⟩
    have small : stop - start + 1 < 2 ^ 64 := by omega
    refine ⟨some (stop - start + 1), some (start, stop + 1), ?_, ?_, ?_⟩
    · simp only [BytesContentRange.len, checkedSub, if_pos ordered,
        Option.bind_some, checkedAdd, if_pos small, Option.map_some]
    · simp only [BytesContentRange.range, checkedAdd, if_pos fits,
        Option.map_some]
    · intro first behind same
      cases same
      rw [Nat.sub_add_comm ordered]
      exact ⟨rfl, by omega⟩

theorem isUsable_size (size : Nat) : IsUsable (default.withSize size) :=
  ⟨none, none, rfl, rfl, nofun⟩

/-- What is read from a header is safe to use if and only if the range in it
is in order, and what the setters build is read back. -/
theorem parsesSafely_iff (value : List Char) :
    (ParsesSafely value ↔ IsOrdered value) ∧
      ∀ self, IsBuilt self → self.RoundTrips := by
  refine ⟨⟨?_, ?_⟩, fun self built => built.isPrintable.roundTrips⟩
  · intro safe first last rest start stop size shape firstRead lastRead reads
    have parsed := fromStr_range firstRead lastRead reads
    rw [← shape] at parsed
    exact isUsable_range_iff.mp (safe _ parsed).2
  · intro ordered self parsed
    refine ⟨(isPrintable_of_fromStr parsed).roundTrips, ?_⟩
    rcases fromStr_cases parsed with ⟨text, size, -, -, rfl⟩ |
      ⟨first, last, rest, start, stop, size, shape, firstRead, lastRead, reads,
        rfl⟩
    · exact isUsable_size size
    · exact isUsable_range_iff.mpr
        (ordered first last rest start stop size shape firstRead lastRead
          reads)

/-- The length of a range that ends before it starts is below zero. -/
theorem not_parsesSafely_backwards :
    ¬ ParsesSafely "bytes 5-3/10".toList := by
  intro safe
  have usable := (safe ⟨some 5, some 3, some 10⟩ rfl).2
  exact absurd (isUsable_range_iff.mp usable).1 (by decide)

end BytesContentRange

end OpenDal
