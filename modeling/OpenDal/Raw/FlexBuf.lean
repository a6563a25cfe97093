import OpenDal.Types.Buffer

/-!
# `FlexBuf`: a buffer that is filled, frozen and drained

Bytes are put into `buf` until it is full or frozen by hand.  The frozen bytes
are read and advanced from the front, and nothing can be put until they are
gone.
-/

namespace OpenDal

structure FlexBuf where
  cap : Nat
  len : Nat
  buf : Bytes
  frozen : Option Bytes
  counted : len = buf.length
  room : len < cap
  exclusive : frozen = none ∨ buf = []
  bounded : ∀ bs, frozen = some bs → 0 < bs.length ∧ bs.length ≤ cap

namespace FlexBuf

theorem positive (flex : FlexBuf) : 0 < flex.cap :=
  Nat.zero_lt_of_lt flex.room

theorem fits (flex : FlexBuf) : flex.buf.length < flex.cap :=
  flex.counted ▸ flex.room

/-- A buffer that is being filled. -/
def filling (cap : Nat) (buf : Bytes) (room : buf.length < cap) : FlexBuf where
  cap
  len := buf.length
  buf
  frozen := none
  counted := rfl
  room
  exclusive := .inl rfl
  bounded := by
    intro bs impossible
    cases impossible

/-- A buffer that has been frozen. -/
def freezing (cap : Nat) (bs : Bytes) (nonempty : 0 < bs.length)
    (fits : bs.length ≤ cap) : FlexBuf where
  cap
  len := 0
  buf := []
  frozen := some bs
  counted := rfl
  room := Nat.lt_of_lt_of_le nonempty fits
  exclusive := .inr rfl
  bounded := by
    intro other same
    cases same
    exact ⟨nonempty, fits⟩

def new (cap : Nat) (positive : 0 < cap) : FlexBuf :=
  filling cap [] positive

/-- Everything in the buffer, frozen or not. -/
def bytes (flex : FlexBuf) : Bytes :=
  flex.frozen.getD [] ++ flex.buf

/-- The number of bytes that were put; zero means that the buffer is
frozen. -/
def put (flex : FlexBuf) (bs : Bytes) : Nat × FlexBuf :=
  match flex.frozen with
  | some _ => (0, flex)
  | none =>
      let n := min (flex.cap - flex.len) bs.length
      let buf := flex.buf ++ bs.take n
      if full : flex.cap ≤ buf.length then
        (n, freezing flex.cap buf (Nat.lt_of_lt_of_le flex.positive full)
          (by
            have counted := flex.counted
            have room := flex.room
            simp only [buf, n, List.length_append, List.length_take]
            omega))
      else
        (n, filling flex.cap buf (Nat.not_le.mp full))

/-- Freeze the buffer whether it is full or not. -/
def freeze (flex : FlexBuf) : FlexBuf :=
  if empty : flex.len = 0 then
    flex
  else
    freezing flex.cap flex.buf
      (Nat.pos_of_ne_zero (flex.counted ▸ empty)) (Nat.le_of_lt flex.fits)

def get (flex : FlexBuf) : Option Bytes :=
  flex.frozen

/-- Drop the frozen bytes. -/
def clean (flex : FlexBuf) : FlexBuf :=
  filling flex.cap flex.buf flex.fits

/-- `none` is the panic of an advance without frozen bytes or beyond them. -/
def advance (flex : FlexBuf) (cnt : Nat) : Option FlexBuf :=
  match current : flex.frozen with
  | none => none
  | some bs =>
      if cnt ≤ bs.length then
        if nonempty : 0 < (bs.drop cnt).length then
          some (freezing flex.cap (bs.drop cnt) nonempty
            (Nat.le_trans (List.drop_sublist cnt bs).length_le
              (flex.bounded bs current).2))
        else
          some flex.clean
      else
        none

/-! ## What the operations do to the bytes -/

variable {flex : FlexBuf} {bs : Bytes}

@[simp] theorem bytes_new (cap : Nat) (positive : 0 < cap) :
    (new cap positive).bytes = [] := rfl

theorem get_eq_some (frozen : flex.get = some bs) :
    flex.bytes = bs ∧ 0 < bs.length ∧ bs.length ≤ flex.cap := by
  unfold get at frozen
  refine ⟨?_, flex.bounded bs frozen⟩
  rcases flex.exclusive with none | empty
  · cases none.symm.trans frozen
  · simp [bytes, frozen, empty]

theorem length_bytes_le (flex : FlexBuf) : flex.bytes.length ≤ flex.cap := by
  cases current : flex.frozen with
  | none => simpa [bytes, current] using Nat.le_of_lt flex.fits
  | some bs =>
      obtain ⟨whole, _, bounded⟩ := get_eq_some current
      rw [whole]
      exact bounded

theorem put_frozen (frozen : flex.get = some bs) (input : Bytes) :
    flex.put input = (0, flex) := by
  unfold get at frozen
  simp only [put, frozen]

theorem put_nil (flex : FlexBuf) : flex.put [] = (0, flex) := by
  cases current : flex.frozen with
  | some bs => exact put_frozen current []
  | none =>
      have room := flex.fits
      simp only [put, current, List.take_nil, List.append_nil,
        List.length_nil, Nat.min_zero, Nat.not_le.mpr room, dite_false,
        Prod.mk.injEq, true_and]
      obtain ⟨cap, len, buf, frozen, counted, _, _, _⟩ := flex
      obtain rfl : frozen = Option.none := current
      obtain rfl : len = buf.length := counted
      rfl

theorem put_filling (filling : flex.get = none) (nonempty : bs ≠ []) :
    ∃ n later, flex.put bs = (n, later) ∧ 0 < n ∧ n ≤ bs.length ∧
      later.bytes = flex.bytes ++ bs.take n ∧ later.cap = flex.cap := by
  unfold get at filling
  have positive := List.length_pos_iff.mpr nonempty
  have room := flex.room
  refine ⟨min (flex.cap - flex.len) bs.length, (flex.put bs).2,
    ?_, by omega, Nat.min_le_right _ _, ?_, ?_⟩
  · simp only [put, filling]
    split
    · rfl
    · rfl
  · simp only [put, filling]
    split
    · simp [bytes, freezing, filling]
    · simp [bytes, FlexBuf.filling, filling]
  · simp only [put, filling]
    split
    · rfl
    · rfl

@[simp] theorem cap_freeze (flex : FlexBuf) : flex.freeze.cap = flex.cap := by
  unfold freeze
  split
  · rfl
  · rfl

@[simp] theorem bytes_freeze (flex : FlexBuf) :
    flex.freeze.bytes = flex.bytes := by
  unfold freeze
  split
  · rfl
  · rename_i filled
    have unfrozen : flex.frozen = none := by
      rcases flex.exclusive with none | empty
      · exact none
      · rw [flex.counted, empty] at filled
        exact absurd rfl filled
    simp [bytes, freezing, unfrozen]

/-- After `freeze` only an empty buffer is not frozen. -/
theorem get_freeze_eq_none_iff : flex.freeze.get = none ↔ flex.bytes = [] := by
  constructor
  · intro unfrozen
    unfold freeze at unfrozen
    split at unfrozen
    · rename_i empty
      unfold get at unfrozen
      rw [flex.counted] at empty
      simp [bytes, unfrozen, List.length_eq_zero_iff.mp empty]
    · cases unfrozen
  · intro empty
    cases current : flex.freeze.get with
    | none => rfl
    | some bs =>
        obtain ⟨whole, filled, _⟩ := get_eq_some current
        rw [bytes_freeze, empty] at whole
        simp [← whole] at filled

theorem get_freeze_frozen (frozen : flex.get = some bs) :
    flex.freeze.get = some bs := by
  unfold get at frozen
  unfold freeze
  split
  · exact frozen
  · rename_i filled
    rcases flex.exclusive with none | empty
    · cases none.symm.trans frozen
    · rw [flex.counted, empty] at filled
      exact absurd rfl filled

theorem clean_frozen (frozen : flex.get = some bs) :
    flex.clean.bytes = [] ∧ flex.clean.get = none := by
  unfold get at frozen
  rcases flex.exclusive with none | empty
  · cases none.symm.trans frozen
  · simp [bytes, clean, filling, empty, get]

@[simp] theorem cap_clean (flex : FlexBuf) : flex.clean.cap = flex.cap := rfl

theorem advance_frozen (frozen : flex.get = some bs) {cnt : Nat}
    (within : cnt ≤ bs.length) :
    ∃ later, flex.advance cnt = some later ∧ later.cap = flex.cap ∧
      later.bytes = bs.drop cnt ∧
      later.get = if bs.drop cnt = [] then none else some (bs.drop cnt) := by
  unfold get at frozen
  unfold advance
  split
  · rename_i none
    cases none.symm.trans frozen
  · rename_i other current
    obtain rfl : other = bs := Option.some.inj (current.symm.trans frozen)
    rw [if_pos within]
    split
    · rename_i nonempty
      refine ⟨_, rfl, rfl, ?_, ?_⟩
      · simp [bytes, freezing]
      · rw [if_neg (List.length_pos_iff.mp nonempty)]
        rfl
    · rename_i empty
      have gone : other.drop cnt = [] := by
        rw [← List.length_eq_zero_iff]
        omega
      obtain ⟨emptied, unfrozen⟩ := clean_frozen frozen
      exact ⟨flex.clean, rfl, rfl, by rw [emptied, gone],
        by rw [unfrozen, if_pos gone]⟩

end FlexBuf

end OpenDal
