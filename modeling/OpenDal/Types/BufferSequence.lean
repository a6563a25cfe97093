import OpenDal.Types.Buffer

/-!
# A buffer is a byte sequence

Every raw operation refines the operation on byte sequences it is named
after: on a well-formed value it does not panic, it keeps the invariant, and
its effect on `content` is `drop`, `take`, or taking an item off the front.
The results on `Inner` are then packaged as total operations of `Buffer`.
-/

namespace OpenDal.Buffer

namespace Inner

open Segments

@[simp] theorem checkedSub_eq_some {left right : Nat} (le : right ≤ left) :
    checkedSub left right = some (left - right) := by
  simp [checkedSub, le]

theorem slice_inside {bytes : Bytes} {start count : Nat}
    (inside : start + count ≤ bytes.length) :
    Bytes.slice bytes start (start + count) =
      some ((bytes.drop start).take count) := by
  simp [Bytes.slice, inside]

/-! ## Constructors -/

theorem wellFormed_fromParts (parts : List Bytes) :
    (fromParts parts).WellFormed := by
  refine ⟨valid_start parts, ?_⟩
  simp [List.length_flatten]

@[simp] theorem content_fromParts (parts : List Bytes) :
    (fromParts parts).content = parts.flatten := by
  simp only [fromParts, content, suffix_zero_zero]
  exact List.take_of_length_le (by simp [List.length_flatten])

private theorem foldl_length (items : List Bytes) (start : Nat) :
    items.foldl (fun size item => size + item.length) start =
      start + (items.map List.length).sum := by
  induction items generalizing start with
  | nil => simp
  | cons item items induction =>
      simp only [List.foldl_cons, List.map_cons, List.sum_cons]
      rw [induction]
      omega

theorem fromIterBytes_eq_fromParts (items : List Bytes) :
    fromIterBytes items = fromParts items := by
  simp [fromIterBytes, fromParts, foldl_length]

/-! ## Length and truncation -/

theorem len_eq_length_content {buffer : Inner}
    (wellFormed : buffer.WellFormed) :
    buffer.len = buffer.content.length := by
  cases buffer with
  | contiguous bytes => rfl
  | nonContiguous parts size idx offset =>
      simp [len, content, Nat.min_eq_left wellFormed.2]

theorem wellFormed_truncate {buffer : Inner}
    (wellFormed : buffer.WellFormed) (newLen : Nat) :
    (buffer.truncate newLen).WellFormed := by
  cases buffer with
  | contiguous bytes => trivial
  | nonContiguous parts size idx offset =>
      exact ⟨wellFormed.1, Nat.le_trans (Nat.min_le_left _ _) wellFormed.2⟩

@[simp] theorem content_truncate (buffer : Inner) (newLen : Nat) :
    (buffer.truncate newLen).content = buffer.content.take newLen := by
  cases buffer with
  | contiguous bytes => rfl
  | nonContiguous parts size idx offset =>
      simp [truncate, content, List.take_take, Nat.min_comm]

/-! ## Advancing -/

theorem advanceLoop_spec
    {parts rest : List Bytes} {idx offset cnt : Nat}
    (located : parts.drop idx = rest)
    (valid : Valid parts idx offset)
    (enough : cnt ≤ (suffix parts idx offset).length) :
    ∃ newIdx newOffset,
      advanceLoop rest idx offset cnt = some (newIdx, newOffset) ∧
      Valid parts newIdx newOffset ∧
      suffix parts newIdx newOffset =
        (suffix parts idx offset).drop cnt := by
  induction rest generalizing idx offset cnt with
  | nil =>
      have past : parts.length ≤ idx := List.drop_eq_nil_iff.mp located
      rw [suffix_of_length_le past offset] at enough
      have none : cnt = 0 := by simpa using enough
      subst none
      exact ⟨idx, offset, by simp [advanceLoop], valid, by simp⟩
  | cons part rest induction =>
      cases cnt with
      | zero => exact ⟨idx, offset, by simp [advanceLoop], valid, by simp⟩
      | succ cnt =>
          have found : parts[idx]? = some part := by
            have head := congrArg List.head? located
            simpa using head
          have tail : parts.drop (idx + 1) = rest := by
            have split := drop_eq_cons_of_getElem? found
            rw [located] at split
            exact (List.cons.inj split).2.symm
          have inside : offset ≤ part.length := valid.offset_le found
          have split := suffix_eq_append found inside
          by_cases within : cnt + 1 < part.length - offset
          · refine ⟨idx, offset + (cnt + 1), ?_, ?_, ?_⟩
            · simp [advanceLoop, inside, within]
            · exact valid_inside found (by omega)
            · exact suffix_add parts idx offset (cnt + 1)
          · have crossed : cnt + 1 - (part.length - offset) ≤
                (suffix parts (idx + 1) 0).length := by
              rw [split, List.length_append, List.length_drop] at enough
              omega
            obtain ⟨newIdx, newOffset, result, newValid, newSuffix⟩ :=
              induction tail (valid_next found) crossed
            refine ⟨newIdx, newOffset, ?_, newValid, ?_⟩
            · simp [advanceLoop, inside, within, result]
            · have passed : (part.drop offset).length ≤ cnt + 1 := by
                rw [List.length_drop]
                omega
              rw [newSuffix, split, List.drop_append, List.length_drop,
                List.drop_eq_nil_of_le passed, List.nil_append]

theorem advance_spec {buffer : Inner} {cnt : Nat}
    (wellFormed : buffer.WellFormed) (enough : cnt ≤ buffer.len) :
    ∃ advanced, buffer.advance cnt = some advanced ∧
      advanced.WellFormed ∧
      advanced.content = buffer.content.drop cnt := by
  cases buffer with
  | contiguous bytes =>
      have bound : cnt ≤ bytes.length := enough
      exact ⟨.contiguous (bytes.drop cnt), by simp [advance, bound],
        trivial, rfl⟩
  | nonContiguous parts size idx offset =>
      obtain ⟨valid, covered⟩ := wellFormed
      have bound : cnt ≤ size := enough
      obtain ⟨newIdx, newOffset, result, newValid, newSuffix⟩ :=
        advanceLoop_spec rfl valid (Nat.le_trans bound covered)
      refine ⟨.nonContiguous parts (size - cnt) newIdx newOffset,
        by simp [advance, bound, result], ⟨newValid, ?_⟩, ?_⟩
      · rw [newSuffix, List.length_drop]
        omega
      · simp only [content, newSuffix]
        rw [List.take_drop, Nat.add_sub_cancel' bound]

theorem wellFormed_of_advance {buffer advanced : Inner} {cnt : Nat}
    (wellFormed : buffer.WellFormed)
    (success : buffer.advance cnt = some advanced) :
    advanced.WellFormed := by
  have enough : cnt ≤ buffer.len := by
    by_contra exceeds
    cases buffer <;> simp_all [advance, len]
  obtain ⟨result, equation, kept, _⟩ := advance_spec wellFormed enough
  cases equation.symm.trans success
  exact kept

/-! ## Slicing -/

/-- A range inside the buffer: the two assertions of `slice`. -/
def Inside (range : RangeBounds) (length : Nat) : Prop :=
  sliceBegin range ≤ sliceEnd range length ∧ sliceEnd range length ≤ length

theorem slice_spec {buffer : Inner} {range : RangeBounds}
    (wellFormed : buffer.WellFormed) (inside : Inside range buffer.len) :
    ∃ sliced, buffer.slice range = some sliced ∧ sliced.WellFormed ∧
      sliced.content =
        (buffer.content.take (sliceEnd range buffer.len)).drop
          (sliceBegin range) := by
  obtain ⟨ordered, bounded⟩ := inside
  by_cases empty : sliceEnd range buffer.len = sliceBegin range
  · refine ⟨new, ?_, trivial, ?_⟩
    · rw [slice, if_pos ⟨ordered, bounded⟩, if_pos empty]
    · rw [empty]
      simp [new, content]
  · have room : sliceBegin range ≤
        (buffer.truncate (sliceEnd range buffer.len)).len := by
      rw [len_eq_length_content (wellFormed_truncate wellFormed _),
        content_truncate, List.length_take,
        ← len_eq_length_content wellFormed]
      omega
    obtain ⟨sliced, result, slicedWellFormed, slicedContent⟩ :=
      advance_spec (wellFormed_truncate wellFormed _) room
    refine ⟨sliced, ?_, slicedWellFormed, ?_⟩
    · simp [slice, ordered, bounded, empty, result]
    · rw [slicedContent, content_truncate]

/-! ## Iteration -/

/-- While bytes remain, the cursor points at a part, and what `chunk` and
`next` cut out of that part lies inside it. -/
theorem exists_currentPart {parts : List Bytes} {size idx offset : Nat}
    (wellFormed : (nonContiguous parts size idx offset).WellFormed)
    (remains : size ≠ 0) :
    ∃ part, parts[idx]? = some part ∧ offset ≤ part.length ∧
      Bytes.slice part offset (offset + min (part.length - offset) size) =
        some ((part.drop offset).take (min (part.length - offset) size)) := by
  obtain ⟨valid, covered⟩ := wellFormed
  have nonempty : suffix parts idx offset ≠ [] := by
    intro empty
    simp only [empty, List.length_nil, Nat.le_zero] at covered
    exact remains covered
  obtain ⟨part, found⟩ := exists_part_of_suffix_ne_nil nonempty
  have inside : offset ≤ part.length := valid.offset_le found
  exact ⟨part, found, inside, slice_inside (by omega)⟩

/-- What one call of `next` does to a well-formed buffer. -/
inductive NextSpec (buffer : Inner) : Option Bytes × Inner → Prop where
  | finished (empty : buffer.content = []) : NextSpec buffer (none, buffer)
  | item {item : Bytes} {rest : Inner}
      (wellFormed : rest.WellFormed)
      (split : buffer.content = item ++ rest.content)
      (shorter : rest.iterFuel < buffer.iterFuel) :
      NextSpec buffer (some item, rest)

theorem next_spec {buffer : Inner} (wellFormed : buffer.WellFormed) :
    ∃ result, buffer.next = some result ∧ NextSpec buffer result := by
  cases buffer with
  | contiguous bytes =>
      by_cases empty : bytes = []
      · subst empty
        exact ⟨_, rfl, .finished rfl⟩
      · refine ⟨(some bytes, .contiguous []), by simp [next, empty], ?_⟩
        exact .item trivial (by simp [content]) (by simp [iterFuel, empty])
  | nonContiguous parts size idx offset =>
      obtain ⟨valid, covered⟩ := wellFormed
      by_cases drained : size = 0
      · subst drained
        exact ⟨_, by simp [next], .finished (by simp [content])⟩
      · obtain ⟨part, found, inside, sliced⟩ :=
          exists_currentPart ⟨valid, covered⟩ drained
        have split := suffix_eq_append found inside
        obtain ⟨bound, _⟩ := List.getElem?_eq_some_iff.mp found
        by_cases boundary :
            offset + min (part.length - offset) size = part.length
        · have whole : min (part.length - offset) size =
              part.length - offset := by omega
          refine ⟨(some (part.drop offset),
            .nonContiguous parts (size - (part.length - offset))
              (idx + 1) 0), ?_, ?_⟩
          · rw [whole, List.take_of_length_le (by simp),
              Nat.add_sub_cancel' inside] at sliced
            simp [next, drained, found, inside, whole, sliced]
          · refine .item ⟨valid_next found, ?_⟩ ?_ ?_
            · rw [split, List.length_append, List.length_drop] at covered
              omega
            · simp only [content]
              rw [split, List.take_append, List.length_drop,
                List.take_of_length_le (by simp only [List.length_drop]; omega)]
            · simp only [iterFuel, drained, if_false]
              split <;> omega
        · have partial_ : min (part.length - offset) size = size := by omega
          refine ⟨(some ((part.drop offset).take size),
            .nonContiguous parts 0 idx (offset + size)), ?_, ?_⟩
          · rw [partial_] at sliced boundary
            simp [next, drained, found, inside, partial_, sliced, boundary]
          · refine .item ⟨valid_inside found (by omega), Nat.zero_le _⟩ ?_ ?_
            · simp only [content, List.take_zero, List.append_nil]
              rw [split, List.take_append_of_le_length
                (by simp only [List.length_drop]; omega)]
            · simp only [iterFuel, drained, if_true, if_false]
              omega

/-- With enough fuel the iteration reaches its end; the items concatenate to
the content. -/
theorem iterateWith_spec {buffer : Inner} {fuel : Nat}
    (wellFormed : buffer.WellFormed)
    (enough : buffer.iterFuel ≤ fuel) :
    ∃ items, iterateWith fuel buffer = some items ∧
      items.flatten = buffer.content := by
  induction fuel generalizing buffer with
  | zero =>
      have positive : 0 < buffer.iterFuel := by
        cases buffer <;> simp only [iterFuel] <;> split <;> omega
      omega
  | succ fuel induction =>
      obtain ⟨result, called, spec⟩ := next_spec wellFormed
      cases spec with
      | finished empty =>
          exact ⟨[], by simp [iterateWith, called], by simp [empty]⟩
      | @item item rest restWellFormed split shorter =>
          obtain ⟨items, iterated, flattened⟩ :=
            induction restWellFormed (by omega)
          exact ⟨item :: items, by simp [iterateWith, called, iterated],
            by simp [flattened, split]⟩

theorem iterate_spec {buffer : Inner} (wellFormed : buffer.WellFormed) :
    ∃ items, buffer.iterate = some items ∧
      items.flatten = buffer.content :=
  iterateWith_spec wellFormed (Nat.le_refl _)

/-! ## Reachable buffers -/

/-- The buffers that the public constructors and operations can produce; a
clone of a buffer is the same value. -/
inductive Reachable : Inner → Prop where
  | fromVecU8 (bytes : List UInt8) : Reachable (fromVecU8 bytes)
  | fromBytes (bytes : Bytes) : Reachable (fromBytes bytes)
  | fromVecBytes (parts : List Bytes) : Reachable (fromVecBytes parts)
  | fromVecDequeBytes (parts : List Bytes) :
      Reachable (fromVecDequeBytes parts)
  | fromArcBytes (parts : List Bytes) : Reachable (fromArcBytes parts)
  | fromIterBytes (items : List Bytes) : Reachable (fromIterBytes items)
  | advance {buffer advanced : Inner} {cnt : Nat} :
      Reachable buffer → cnt ≤ buffer.len →
      buffer.advance cnt = some advanced → Reachable advanced
  | truncate {buffer : Inner} (newLen : Nat) :
      Reachable buffer → Reachable (buffer.truncate newLen)
  | slice {buffer sliced : Inner} {range : RangeBounds} :
      Reachable buffer → Inside range buffer.len →
      buffer.slice range = some sliced → Reachable sliced
  | next {buffer rest : Inner} {item : Option Bytes} :
      Reachable buffer → buffer.next = some (item, rest) → Reachable rest

theorem Reachable.wellFormed {buffer : Inner} (reachable : Reachable buffer) :
    buffer.WellFormed := by
  induction reachable with
  | fromVecU8 bytes => trivial
  | fromBytes bytes => trivial
  | fromVecBytes parts => exact wellFormed_fromParts parts
  | fromVecDequeBytes parts => exact wellFormed_fromParts parts
  | fromArcBytes parts => exact wellFormed_fromParts parts
  | fromIterBytes items =>
      rw [fromIterBytes_eq_fromParts]
      exact wellFormed_fromParts items
  | advance _ _ result wellFormed =>
      exact wellFormed_of_advance wellFormed result
  | truncate newLen _ wellFormed => exact wellFormed_truncate wellFormed newLen
  | slice _ inside result wellFormed =>
      obtain ⟨sliced, success, kept, _⟩ := slice_spec wellFormed inside
      cases success.symm.trans result
      exact kept
  | next _ result wellFormed =>
      obtain ⟨outcome, success, spec⟩ := next_spec wellFormed
      cases success.symm.trans result
      cases spec with
      | finished _ => exact wellFormed
      | item kept _ _ => exact kept

/-- Iterating a clone of the buffer ends and its items concatenate to
`bytes`. -/
def Yields (buffer : Inner) (bytes : Bytes) : Prop :=
  ∃ fuel items, iterateWith fuel buffer = some items ∧ items.flatten = bytes

theorem yields_content {buffer : Inner} (wellFormed : buffer.WellFormed) :
    Yields buffer buffer.content := by
  obtain ⟨items, iterated, flattened⟩ := iterate_spec wellFormed
  exact ⟨_, items, iterated, flattened⟩

/-- Every reachable buffer behaves as the byte sequence that iterating it
yields: no operation panics, and each one has the effect of its name. -/
theorem reachable_faithful {buffer : Inner} (reachable : Reachable buffer) :
    ∃ bytes, Yields buffer bytes ∧
      buffer.len = bytes.length ∧
      (∀ cnt, cnt ≤ buffer.len → ∃ advanced,
        buffer.advance cnt = some advanced ∧
        Yields advanced (bytes.drop cnt)) ∧
      (∀ newLen, Yields (buffer.truncate newLen)
        (bytes.take (min newLen buffer.len))) ∧
      (∀ range, Inside range buffer.len → ∃ sliced,
        buffer.slice range = some sliced ∧
        Yields sliced ((bytes.take (sliceEnd range buffer.len)).drop
          (sliceBegin range))) ∧
      (∃ item rest after, buffer.next = some (item, rest) ∧
        Yields rest after ∧
        match item with
        | none => bytes = [] ∧ after = []
        | some front => bytes = front ++ after) := by
  have wellFormed := reachable.wellFormed
  have length := len_eq_length_content wellFormed
  refine ⟨buffer.content, yields_content wellFormed, length, ?_, ?_, ?_, ?_⟩
  · intro cnt enough
    obtain ⟨advanced, success, kept, dropped⟩ :=
      advance_spec wellFormed enough
    exact ⟨advanced, success, dropped ▸ yields_content kept⟩
  · intro newLen
    have kept := yields_content (wellFormed_truncate wellFormed newLen)
    rw [content_truncate] at kept
    rw [length, ← List.take_take, List.take_length]
    exact kept
  · intro range inside
    obtain ⟨sliced, success, kept, cut⟩ := slice_spec wellFormed inside
    exact ⟨sliced, success, cut ▸ yields_content kept⟩
  · obtain ⟨outcome, success, spec⟩ := next_spec wellFormed
    cases spec with
    | finished empty =>
        exact ⟨none, buffer, [], success, empty ▸ yields_content wellFormed,
          empty, rfl⟩
    | @item front rest kept split _ =>
        exact ⟨some front, rest, rest.content, success,
          yields_content kept, split⟩

/-- The middle byte of a buffer with empty parts around it, after a
truncation that ends on a part boundary. -/
theorem reachable_faithful_emptyParts :
    ∃ bytes, Yields ((fromVecBytes [[], [1, 2], [], [3]]).truncate 2) bytes ∧
      bytes.length = 2 := by
  obtain ⟨bytes, yields, length, _⟩ :=
    reachable_faithful
      (.truncate 2 (.fromVecBytes [[], [1, 2], [], [3]]))
  exact ⟨bytes, yields, length.symm⟩

end Inner

/-! ## Operations on well-formed buffers -/

/-- `Buffer::new`. -/
def new : Buffer := ⟨.new, trivial⟩

def fromBytes (bytes : Bytes) : Buffer := ⟨.fromBytes bytes, trivial⟩

def fromVecBytes (parts : List Bytes) : Buffer :=
  ⟨.fromVecBytes parts, Inner.wellFormed_fromParts parts⟩

/-- `FromIterator<Bytes>`. -/
def fromIterBytes (items : List Bytes) : Buffer :=
  ⟨.fromIterBytes items, by
    rw [Inner.fromIterBytes_eq_fromParts]
    exact Inner.wellFormed_fromParts items⟩

def len (buffer : Buffer) : Nat := buffer.inner.len

def isEmpty (buffer : Buffer) : Bool := buffer.inner.isEmpty

/-- The byte sequence that a buffer stands for. -/
def bytes (buffer : Buffer) : Bytes := buffer.inner.content

def truncate (buffer : Buffer) (newLen : Nat) : Buffer :=
  ⟨buffer.inner.truncate newLen,
    Inner.wellFormed_truncate buffer.wellFormed newLen⟩

/-- `Buf::advance`; `none` is the failed assertion `cnt <= size`. -/
def advance (buffer : Buffer) (cnt : Nat) : Option Buffer :=
  match success : buffer.inner.advance cnt with
  | none => none
  | some advanced =>
      some ⟨advanced, Inner.wellFormed_of_advance buffer.wellFormed success⟩

/-- `into_iter().collect::<Vec<_>>()`. -/
def items (buffer : Buffer) : List Bytes := buffer.inner.iterate.getD []

/-- `bufs.into_iter().flatten().collect()`. -/
def flatten (buffers : List Buffer) : Buffer :=
  fromIterBytes (buffers.flatMap items)

@[simp] theorem length_bytes (buffer : Buffer) :
    buffer.bytes.length = buffer.len :=
  (Inner.len_eq_length_content buffer.wellFormed).symm

@[simp] theorem bytes_new : new.bytes = [] := rfl

@[simp] theorem bytes_fromBytes (bytes : Bytes) :
    (fromBytes bytes).bytes = bytes := rfl

@[simp] theorem len_fromBytes (bytes : Bytes) :
    (fromBytes bytes).len = bytes.length := rfl

@[simp] theorem bytes_fromIterBytes (items : List Bytes) :
    (fromIterBytes items).bytes = items.flatten := by
  simp [fromIterBytes, Buffer.bytes, Inner.fromIterBytes_eq_fromParts]

@[simp] theorem bytes_truncate (buffer : Buffer) (newLen : Nat) :
    (buffer.truncate newLen).bytes = buffer.bytes.take newLen :=
  Inner.content_truncate buffer.inner newLen

theorem len_truncate (buffer : Buffer) (newLen : Nat) :
    (buffer.truncate newLen).len = min newLen buffer.len := by
  rw [← length_bytes, bytes_truncate, List.length_take, length_bytes]

@[simp] theorem flatten_items (buffer : Buffer) :
    buffer.items.flatten = buffer.bytes := by
  obtain ⟨items, iterated, flattened⟩ := Inner.iterate_spec buffer.wellFormed
  simp [Buffer.items, iterated, flattened, Buffer.bytes]

@[simp] theorem bytes_flatten (buffers : List Buffer) :
    (flatten buffers).bytes = buffers.flatMap bytes := by
  rw [flatten, bytes_fromIterBytes]
  induction buffers with
  | nil => rfl
  | cons buf buffers induction =>
      simp [List.flatMap_cons, induction]

theorem isEmpty_iff (buffer : Buffer) :
    buffer.isEmpty = true ↔ buffer.bytes = [] := by
  rw [← List.length_eq_zero_iff, length_bytes]
  simp [Buffer.isEmpty, Inner.isEmpty, Buffer.len]

theorem isEmpty_eq_false {buffer : Buffer} (nonempty : buffer.bytes ≠ []) :
    buffer.isEmpty = false := by
  rw [← Bool.not_eq_true, isEmpty_iff]
  exact nonempty

theorem len_pos {buffer : Buffer} (nonempty : buffer.isEmpty = false) :
    0 < buffer.len := by
  rw [← length_bytes]
  apply List.length_pos_of_ne_nil
  intro empty
  rw [← isEmpty_iff, nonempty] at empty
  cases empty

theorem advance_spec {buffer : Buffer} {cnt : Nat}
    (enough : cnt ≤ buffer.len) :
    ∃ advanced, buffer.advance cnt = some advanced ∧
      advanced.bytes = buffer.bytes.drop cnt := by
  obtain ⟨advanced, success, kept, dropped⟩ :=
    Inner.advance_spec buffer.wellFormed enough
  refine ⟨⟨advanced, kept⟩, ?_, dropped⟩
  unfold Buffer.advance
  split
  · rename_i failure
    rw [success] at failure
    cases failure
  · rename_i result equation
    cases success.symm.trans equation
    rfl

end OpenDal.Buffer
