import Mathlib.Algebra.Order.Ring.Nat
import OpenDal.Program

/-!
# Byte streams

A connection to a peer, as the party on one side sees it.  What it writes is
collected; when it flushes, the peer's next answer arrives behind the bytes
that have not been read yet.  Reading more bytes than there are is the end of
the stream.

`Reads` says of a program that it takes a fixed number of bytes from the
stream and decodes them.  Programs that do so one after the other do so
together, so a record that is read field by field is one `Reads` fact.
-/

/-! ## Integers -/

namespace BigEndian

/-- The last `width` bytes of a number, the most significant one first. -/
def bytes : Nat → Nat → List UInt8
  | 0, _ => []
  | width + 1, n => UInt8.ofNat (n / 256 ^ width) :: bytes width n

def value : List UInt8 → Nat
  | [] => 0
  | byte :: rest => byte.toNat * 256 ^ rest.length + value rest

@[simp] theorem length_bytes (width n : Nat) :
    (bytes width n).length = width := by
  induction width with
  | zero => rfl
  | succ width induction => simp [bytes, induction]

theorem value_bytes (width n : Nat) :
    value (bytes width n) = n % 256 ^ width := by
  induction width with
  | zero => simp [bytes, value, Nat.mod_one]
  | succ width induction =>
      have digit : (UInt8.ofNat (n / 256 ^ width)).toNat =
          n / 256 ^ width % 256 := by simp
      rw [bytes, value, length_bytes, induction, digit, Nat.mod_pow_succ]
      rw [Nat.mul_comm, Nat.add_comm]

end BigEndian

/-! ## Streams -/

structure ByteStream where
  incoming : List UInt8
  outgoing : List UInt8
  answers : List (List UInt8)
deriving DecidableEq, Repr

namespace ByteStream

variable {ε α β : Type}

def write (bytes : List UInt8) : Program ByteStream ε Unit :=
  Program.modify fun s => { s with outgoing := s.outgoing ++ bytes }

/-- The request is on its way, and the peer answers it. -/
def flush : Program ByteStream ε Unit :=
  Program.modify fun s =>
    { s with
      incoming := s.incoming ++ s.answers.headD []
      answers := s.answers.tail }

/-- All of the bytes, or what there is and the end of the stream. -/
def readExact (eof : ε) (n : Nat) : Program ByteStream ε (List UInt8) :=
  fun s =>
    if n ≤ s.incoming.length then
      (.ok (s.incoming.take n), { s with incoming := s.incoming.drop n })
    else
      (.error eof, { s with incoming := [] })

/-- The program takes `n` bytes and decodes them. -/
structure Reads (eof : ε) (n : Nat) (program : Program ByteStream ε α)
    (decode : List UInt8 → α) : Prop where
  enough : ∀ s front rest, front.length = n → s.incoming = front ++ rest →
    program s = (.ok (decode front), { s with incoming := rest })
  short : ∀ s, s.incoming.length < n →
    program s = (.error eof, { s with incoming := [] })

theorem reads_readExact (eof : ε) (n : Nat) :
    Reads eof n (readExact eof n) id := by
  constructor
  · intro s front rest length incoming
    have fits : n ≤ s.incoming.length := by
      simp [incoming, length]
    simp only [readExact, if_pos fits, id]
    rw [incoming, List.take_left' length, List.drop_left' length]
  · intro s fewer
    simp only [readExact, if_neg (Nat.not_le.mpr fewer)]

theorem reads_pure (eof : ε) (value : α) :
    Reads eof 0 (pure value) fun _ => value := by
  constructor
  · intro s front rest length incoming
    obtain rfl := List.eq_nil_of_length_eq_zero length
    cases s
    cases incoming
    rfl
  · intro s fewer
    cases fewer

theorem bind_ok {program : Program ByteStream ε α}
    {next : α → Program ByteStream ε β} {s later : ByteStream} {value : α}
    (ran : program s = (.ok value, later)) :
    (program >>= next) s = next value later := by
  show Program.andThen program next s = _
  simp only [Program.andThen, ran]

theorem bind_error {program : Program ByteStream ε α}
    {next : α → Program ByteStream ε β} {s later : ByteStream} {e : ε}
    (ran : program s = (.error e, later)) :
    (program >>= next) s = (.error e, later) := by
  show Program.andThen program next s = _
  simp only [Program.andThen, ran]

theorem Reads.bind {eof : ε} {n m : Nat} {program : Program ByteStream ε α}
    {next : α → Program ByteStream ε β} {decode : List UInt8 → α}
    {decodeNext : α → List UInt8 → β}
    (first : Reads eof n program decode)
    (second : ∀ value, Reads eof m (next value) (decodeNext value)) :
    Reads eof (n + m) (program >>= next) fun front =>
      decodeNext (decode (front.take n)) (front.drop n) := by
  constructor
  · intro s front rest length incoming
    have split : s.incoming = front.take n ++ (front.drop n ++ rest) := by
      rw [← List.append_assoc, List.take_append_drop, incoming]
    have taken : (front.take n).length = n := by simp [length]
    have left : (front.drop n).length = m := by simp [length]
    rw [bind_ok (first.enough s _ _ taken split)]
    exact (second _).enough _ _ rest left rfl
  · intro s fewer
    by_cases header : s.incoming.length < n
    · exact bind_error (first.short s header)
    · have split := (List.take_append_drop n s.incoming).symm
      have taken : (s.incoming.take n).length = n := by
        simp
        omega
      rw [bind_ok (first.enough s _ _ taken split)]
      apply (second _).short
      simp
      omega

theorem Reads.map {eof : ε} {n : Nat} {program : Program ByteStream ε α}
    {decode : List UInt8 → α} (reads : Reads eof n program decode)
    (f : α → β) :
    Reads eof n (program >>= fun value => pure (f value)) fun front =>
      f (decode front) := by
  have whole := reads.bind fun value => reads_pure eof (f value)
  constructor
  · intro s front rest length incoming
    rw [whole.enough s front rest length incoming, ← length,
      List.take_length]
  · intro s fewer
    exact whole.short s fewer

/-! ## Writing nothing -/

/-- The program leaves what has been written as it is. -/
def Silent (program : Program ByteStream ε α) : Prop :=
  ∀ s, (program s).2.outgoing = s.outgoing

theorem silent_pure (value : α) :
    Silent (pure value : Program ByteStream ε α) :=
  fun _ => rfl

theorem silent_fail (e : ε) :
    Silent (Program.fail e : Program ByteStream ε α) :=
  fun _ => rfl

theorem silent_readExact (eof : ε) (n : Nat) : Silent (readExact eof n) := by
  intro s
  rw [readExact]
  split
  · rfl
  · rfl

theorem Silent.bind {program : Program ByteStream ε α}
    {next : α → Program ByteStream ε β} (first : Silent program)
    (second : ∀ value, Silent (next value)) : Silent (program >>= next) := by
  intro s
  have kept := first s
  rcases ran : program s with ⟨result, later⟩
  rw [ran] at kept
  cases result with
  | error e => rw [bind_error ran, kept]
  | ok value => rw [bind_ok ran, second value later, kept]

/-! ## Reading integers -/

/-- The integer of `width` bytes, made by `ofNat`. -/
def readInt (eof : ε) (width : Nat) (ofNat : Nat → α) :
    Program ByteStream ε α := do
  let bytes ← readExact eof width
  pure (ofNat (BigEndian.value bytes))

theorem reads_readInt (eof : ε) (width : Nat) (ofNat : Nat → α) :
    Reads eof width (readInt eof width ofNat) fun front =>
      ofNat (BigEndian.value front) :=
  (reads_readExact eof width).map fun bytes => ofNat (BigEndian.value bytes)

theorem silent_readInt (eof : ε) (width : Nat) (ofNat : Nat → α) :
    Silent (readInt eof width ofNat) :=
  (silent_readExact eof width).bind fun _ => silent_pure _

theorem readInt_bytes (eof : ε) {width : Nat} (ofNat : Nat → α)
    {s : ByteStream} {n : Nat} (fits : n < 256 ^ width) {rest : List UInt8}
    (incoming : s.incoming = BigEndian.bytes width n ++ rest) :
    readInt eof width ofNat s =
      (.ok (ofNat n), { s with incoming := rest }) := by
  have length := BigEndian.length_bytes width n
  rw [(reads_readInt eof width ofNat).enough s _ rest length incoming,
    BigEndian.value_bytes, Nat.mod_eq_of_lt fits]

def readUInt8 (eof : ε) : Program ByteStream ε UInt8 :=
  readInt eof 1 UInt8.ofNat

def readUInt16 (eof : ε) : Program ByteStream ε UInt16 :=
  readInt eof 2 UInt16.ofNat

def readUInt32 (eof : ε) : Program ByteStream ε UInt32 :=
  readInt eof 4 UInt32.ofNat

def readUInt64 (eof : ε) : Program ByteStream ε UInt64 :=
  readInt eof 8 UInt64.ofNat

theorem readUInt8_bytes (eof : ε) {s : ByteStream} {n : UInt8}
    {rest : List UInt8}
    (incoming : s.incoming = BigEndian.bytes 1 n.toNat ++ rest) :
    readUInt8 eof s = (.ok n, { s with incoming := rest }) := by
  rw [readUInt8, readInt_bytes eof _ n.toNat_lt incoming, UInt8.ofNat_toNat]

theorem readUInt16_bytes (eof : ε) {s : ByteStream} {n : UInt16}
    {rest : List UInt8}
    (incoming : s.incoming = BigEndian.bytes 2 n.toNat ++ rest) :
    readUInt16 eof s = (.ok n, { s with incoming := rest }) := by
  rw [readUInt16, readInt_bytes eof _ n.toNat_lt incoming,
    UInt16.ofNat_toNat]

theorem readUInt32_bytes (eof : ε) {s : ByteStream} {n : UInt32}
    {rest : List UInt8}
    (incoming : s.incoming = BigEndian.bytes 4 n.toNat ++ rest) :
    readUInt32 eof s = (.ok n, { s with incoming := rest }) := by
  rw [readUInt32, readInt_bytes eof _ n.toNat_lt incoming,
    UInt32.ofNat_toNat]

theorem readUInt64_bytes (eof : ε) {s : ByteStream} {n : UInt64}
    {rest : List UInt8}
    (incoming : s.incoming = BigEndian.bytes 8 n.toNat ++ rest) :
    readUInt64 eof s = (.ok n, { s with incoming := rest }) := by
  rw [readUInt64, readInt_bytes eof _ n.toNat_lt incoming,
    UInt64.ofNat_toNat]

end ByteStream
