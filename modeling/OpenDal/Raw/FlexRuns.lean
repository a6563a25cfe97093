import OpenDal.Automaton
import OpenDal.Raw.FlexBuf

/-!
# Runs of a `FlexBuf`

The fields of a `FlexBuf` as the code keeps them, without their invariant, and
what the calls do to them.  Every state that is reached from the start is the
state of a `FlexBuf` with the invariant, so no call panics, and no byte is lost
or repeated on the way from `put` to `advance`.
-/

namespace OpenDal

open Automaton

structure RawFlexBuf where
  cap : Nat
  len : Nat
  buf : Bytes
  frozen : Option Bytes
deriving DecidableEq

namespace RawFlexBuf

def new (cap : Nat) : RawFlexBuf where
  cap
  len := 0
  buf := []
  frozen := none

/-- `none` is the underflow of `cap - len`. -/
def put (flex : RawFlexBuf) (bs : Bytes) : Option (Nat × RawFlexBuf) :=
  if flex.frozen.isSome then
    some (0, flex)
  else
    (checkedSub flex.cap flex.len).map fun room =>
      let n := min room bs.length
      let flex := { flex with
        buf := flex.buf ++ bs.take n
        len := flex.len + n }
      if flex.cap ≤ flex.len then
        (n, { flex with buf := [], len := 0, frozen := some flex.buf })
      else
        (n, flex)

def freeze (flex : RawFlexBuf) : RawFlexBuf :=
  if flex.len = 0 then
    flex
  else
    { flex with buf := [], len := 0, frozen := some flex.buf }

def get (flex : RawFlexBuf) : Option Bytes :=
  flex.frozen

def clean (flex : RawFlexBuf) : RawFlexBuf :=
  { flex with frozen := none }

/-- `none` is the failed assertion, the `unreachable!`, or the panic of
`Bytes::advance`. -/
def advance (flex : RawFlexBuf) (cnt : Nat) : Option RawFlexBuf :=
  if flex.len = 0 then
    match flex.frozen with
    | none => none
    | some bs =>
        if cnt ≤ bs.length then
          let flex := { flex with frozen := some (bs.drop cnt) }
          if (bs.drop cnt).isEmpty then some flex.clean else some flex
        else
          none
  else
    none

end RawFlexBuf

/-! ## The invariant -/

namespace FlexBuf

variable {flex : FlexBuf} {bs : Bytes}

def raw (flex : FlexBuf) : RawFlexBuf where
  cap := flex.cap
  len := flex.len
  buf := flex.buf
  frozen := flex.frozen

theorem len_eq_zero (frozen : flex.get = some bs) :
    flex.buf = [] ∧ flex.len = 0 := by
  rcases flex.exclusive with none | empty
  · cases none.symm.trans frozen
  · refine ⟨empty, ?_⟩
    rw [flex.counted, empty]
    rfl

theorem raw_put (flex : FlexBuf) (bs : Bytes) :
    flex.raw.put bs = some ((flex.put bs).1, (flex.put bs).2.raw) := by
  have counted := flex.counted
  have room := Nat.le_of_lt flex.room
  cases current : flex.frozen with
  | some frozen =>
      rw [put_frozen current]
      simp [RawFlexBuf.put, raw, current]
  | none =>
      have total : (flex.buf ++
          bs.take (min (flex.cap - flex.len) bs.length)).length =
            flex.len + min (flex.cap - flex.len) bs.length := by
        rw [List.length_append, List.length_take, ← counted]
        omega
      simp only [RawFlexBuf.put, raw, current, put, Option.isSome_none,
        Bool.false_eq_true, if_false, checkedSub, if_pos room, Option.map_some,
        total]
      split
      · simp [freezing]
      · simp [filling, total]

theorem raw_freeze (flex : FlexBuf) : flex.raw.freeze = flex.freeze.raw := by
  by_cases empty : flex.len = 0
  · have rawEmpty : flex.raw.len = 0 := empty
    rw [RawFlexBuf.freeze, if_pos rawEmpty, freeze, dif_pos empty]
  · have rawFilled : ¬ flex.raw.len = 0 := empty
    rw [RawFlexBuf.freeze, if_neg rawFilled, freeze, dif_neg empty]
    rfl

theorem raw_clean (flex : FlexBuf) : flex.raw.clean = flex.clean.raw := by
  rw [clean, RawFlexBuf.clean, raw, raw, filling]
  simp [flex.counted]

/-- What the fields are when frozen bytes are all that there is. -/
theorem raw_eq_of_bytes
    (shows : flex.get = if flex.bytes = [] then none else some flex.bytes) :
    flex.raw = ⟨flex.cap, 0, [], flex.get⟩ := by
  have noBuf : flex.buf = [] ∧ flex.len = 0 := by
    cases current : flex.get with
    | some bs => exact len_eq_zero current
    | none =>
        have empty : flex.bytes = [] := by
          by_contra filled
          rw [current, if_neg filled] at shows
          cases shows
        have unfrozen : flex.frozen = none := current
        have noBuf : flex.buf = [] := by
          simpa [bytes, unfrozen] using empty
        exact ⟨noBuf, by rw [flex.counted, noBuf]; rfl⟩
  rw [raw, noBuf.1, noBuf.2]
  rfl

theorem raw_advance (frozen : flex.get = some bs) {cnt : Nat}
    (within : cnt ≤ bs.length) :
    ∃ later, flex.advance cnt = some later ∧
      flex.raw.advance cnt = some later.raw := by
  obtain ⟨later, advanced, cap, rest, shows⟩ := advance_frozen frozen within
  obtain ⟨noBuf, len⟩ := len_eq_zero frozen
  have rawLen : flex.raw.len = 0 := len
  have rawFrozen : flex.raw.frozen = some bs := frozen
  rw [← rest] at shows
  refine ⟨later, advanced, ?_⟩
  rw [raw_eq_of_bytes shows, shows, rest, cap]
  simp only [RawFlexBuf.advance, if_pos rawLen, rawFrozen, if_pos within]
  by_cases gone : bs.drop cnt = []
  · rw [if_pos (List.isEmpty_iff.mpr gone), if_pos gone]
    simp [RawFlexBuf.clean, raw, len, noBuf]
  · rw [if_neg (by simpa using gone), if_neg gone]
    simp [raw, len, noBuf]

end FlexBuf

/-! ## Runs -/

inductive FlexOp where
  | put (bs : Bytes)
  | freeze
  | get
  | advance (cnt : Nat)
  | clean
deriving DecidableEq

/-- The buffer, the bytes that `put` has accepted, and those that were got and
advanced over. -/
structure FlexSession where
  flex : RawFlexBuf
  accepted : Bytes
  exposed : Bytes
deriving DecidableEq

namespace FlexSession

def new (cap : Nat) : FlexSession :=
  ⟨.new cap, [], []⟩

/-- No step is possible where a call panics. -/
def step (session : FlexSession) : FlexOp → Option FlexSession
  | .put bs =>
      (session.flex.put bs).map fun result =>
        { session with
          flex := result.2
          accepted := session.accepted ++ bs.take result.1 }
  | .freeze => some { session with flex := session.flex.freeze }
  | .get => some session
  | .advance cnt =>
      let bs := session.flex.get.getD []
      (session.flex.advance cnt).map fun flex =>
        { session with
          flex
          exposed := session.exposed ++ bs.take cnt }
  | .clean => some { session with flex := session.flex.clean }

/-- Only frozen bytes are advanced over, and the buffer is cleaned when there
are none. -/
def Allowed (session : FlexSession) : FlexOp → Prop
  | .advance cnt => ∃ bs ∈ session.flex.get, cnt ≤ bs.length
  | .clean => session.flex.get = none
  | _ => True

instance (session : FlexSession) (op : FlexOp) :
    Decidable (session.Allowed op) :=
  match op with
  | .advance cnt =>
      inferInstanceAs (Decidable (∃ bs ∈ session.flex.get, cnt ≤ bs.length))
  | .clean => inferInstanceAs (Decidable (_ = none))
  | .put _ | .freeze | .get => isTrue trivial

/-- The state is that of a `FlexBuf`, in which everything is that was accepted
and not exposed. -/
def Holds (cap : Nat) (session : FlexSession) : Prop :=
  ∃ flex : FlexBuf, session.flex = flex.raw ∧ flex.cap = cap ∧
    session.accepted = session.exposed ++ flex.bytes

theorem holds_new {cap : Nat} (positive : 0 < cap) : (new cap).Holds cap :=
  ⟨.new cap positive, rfl, rfl, rfl⟩

/-- What a buffer accepts is put behind what is in it. -/
theorem put_spec (flex : FlexBuf) (bs : Bytes) :
    ∃ (n : Nat) (later : FlexBuf),
      flex.raw.put bs = some (n, later.raw) ∧ n ≤ bs.length ∧
      later.bytes = flex.bytes ++ bs.take n ∧ later.cap = flex.cap ∧
      (n = 0 → bs ≠ [] → flex.get ≠ none) := by
  have raw := flex.raw_put bs
  cases current : flex.get with
  | some frozen =>
      rw [FlexBuf.put_frozen current] at raw
      exact ⟨0, flex, raw, Nat.zero_le _, by simp, rfl, by simp⟩
  | none =>
      by_cases filled : bs = []
      · subst filled
        rw [FlexBuf.put_nil] at raw
        exact ⟨0, flex, raw, Nat.le_refl _, by simp, rfl, by simp⟩
      · obtain ⟨n, later, same, positive, within, bytes, cap⟩ :=
          FlexBuf.put_filling current filled
        rw [same] at raw
        exact ⟨n, later, raw, within, bytes, cap, by omega⟩

theorem exists_step {cap : Nat} {session : FlexSession} {op : FlexOp}
    (holds : session.Holds cap) (allowed : session.Allowed op) :
    ∃ next, session.step op = some next ∧ next.Holds cap := by
  obtain ⟨flex, same, capacity, balance⟩ := holds
  cases op with
  | put bs =>
      obtain ⟨n, later, put, -, bytes, cap, -⟩ := put_spec flex bs
      refine ⟨_, by rw [step, same, put]; rfl, later, rfl,
        cap.trans capacity, ?_⟩
      rw [bytes, ← List.append_assoc, ← balance]
  | freeze =>
      refine ⟨_, rfl, flex.freeze, ?_, ?_, ?_⟩
      · rw [← FlexBuf.raw_freeze, same]
      · rw [FlexBuf.cap_freeze, capacity]
      · rw [FlexBuf.bytes_freeze, balance]
  | get => exact ⟨session, rfl, flex, same, capacity, balance⟩
  | advance cnt =>
      obtain ⟨bs, member, within⟩ := allowed
      rw [same] at member
      have frozen : flex.get = some bs := member
      have rawFrozen : flex.raw.get = some bs := member
      obtain ⟨later, advanced, raw⟩ := FlexBuf.raw_advance frozen within
      obtain ⟨other, again, cap, rest, -⟩ :=
        FlexBuf.advance_frozen frozen within
      cases advanced.symm.trans again
      refine ⟨_, by rw [step, same, raw]; rfl, later, rfl,
        cap.trans capacity, ?_⟩
      have whole := (FlexBuf.get_eq_some frozen).1
      simp only [rawFrozen, Option.getD_some]
      rw [rest, List.append_assoc, List.take_append_drop, ← whole, balance]
  | clean =>
      have unfrozen : flex.frozen = none := by
        have none := allowed
        rw [Allowed, same] at none
        exact none
      refine ⟨_, rfl, flex.clean, ?_, capacity, ?_⟩
      · rw [← FlexBuf.raw_clean, same]
      · rw [balance]
        simp [FlexBuf.bytes, FlexBuf.clean, FlexBuf.filling, unfrozen]

/-- Neither is a byte lost nor does one come twice.  What is frozen is what
`get` shows, and it comes next; what is behind it is in the buffer. -/
structure Keeps (cap : Nat) (session : FlexSession) : Prop where
  within : session.flex.len ≤ cap
  exclusive : session.flex.frozen ≠ none → session.flex.len = 0
  filled : session.flex.frozen ≠ some []
  shown : ∀ bs, session.flex.get = some bs →
    session.accepted = session.exposed ++ bs
  balance : session.accepted =
    session.exposed ++ (session.flex.frozen.getD [] ++ session.flex.buf)
  puts : ∀ bs, ∃ n later, session.flex.put bs = some (n, later) ∧
    n ≤ bs.length ∧
    later.frozen.getD [] ++ later.buf =
      session.flex.frozen.getD [] ++ session.flex.buf ++ bs.take n ∧
    (n = 0 → bs ≠ [] → session.flex.frozen ≠ none)

theorem Holds.keeps {cap : Nat} {session : FlexSession}
    (holds : session.Holds cap) : session.Keeps cap := by
  obtain ⟨flex, same, capacity, balance⟩ := holds
  obtain ⟨_, accepted, exposed⟩ := session
  subst same
  constructor
  · rw [← capacity]
    exact Nat.le_of_lt flex.room
  · intro frozen
    obtain ⟨bs, current⟩ := Option.ne_none_iff_exists'.mp frozen
    exact (FlexBuf.len_eq_zero current).2
  · intro empty
    have positive := (flex.bounded [] empty).1
    exact Nat.lt_irrefl 0 positive
  · intro bs current
    rw [balance, (FlexBuf.get_eq_some current).1]
  · exact balance
  · intro bs
    obtain ⟨n, later, put, within, bytes, -, zero⟩ := put_spec flex bs
    exact ⟨n, later.raw, put, within, bytes, zero⟩

/-- A buffer keeps all bytes in their order, whatever is done to it. -/
theorem run_keeps {cap : Nat} (positive : 1 ≤ cap) {ops : List FlexOp}
    (allowed : Along step Allowed (new cap) ops) :
    ∃ session, run step (new cap) ops = some session ∧
      session.Keeps cap := by
  obtain ⟨session, ran, holds⟩ :=
    run_total_along exists_step (holds_new positive) allowed
  exact ⟨session, ran, holds.keeps⟩

/-- Filled, drained in two steps, filled again and frozen by hand. -/
def fillsAndDrains : List FlexOp :=
  [.put [1, 2, 3, 4], .get, .put [5], .advance 1, .freeze, .advance 2, .clean,
    .put [4], .freeze]

theorem run_keeps_fillsAndDrains :
    ∃ session, run step (new 3) fillsAndDrains = some session ∧
      session.Keeps 3 :=
  run_keeps (by decide) (by decide)

end FlexSession

end OpenDal
