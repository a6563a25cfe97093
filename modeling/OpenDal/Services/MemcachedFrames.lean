import OpenDal.Services.MemcachedSession

/-!
# Requests to memcached as frames

The server takes a request apart by the lengths in its header: the header, the
extras, the key, and what is left of the body is the value.  The connection
casts the lengths of the key and of the body to the width of their fields, and
then writes both as they are.  So a request is the frame it is meant to be as
long as its lengths fit, and never if they do not.
-/

namespace OpenDal.Memcached

/-! ## Taking a frame apart -/

namespace Frame

def extras (f : Frame) : List UInt8 :=
  f.body.take f.header.extrasLength.toNat

def key (f : Frame) : List UInt8 :=
  (f.body.drop f.header.extrasLength.toNat).take f.header.keyLength.toNat

def value (f : Frame) : List UInt8 :=
  (f.body.drop f.header.extrasLength.toNat).drop f.header.keyLength.toNat

/-- The frame in front of a text, by the lengths in its header, and what
stands behind it. -/
def decode (text : List UInt8) : Option (Frame × List UInt8) :=
  match PacketHeader.read ⟨text, [], []⟩ with
  | (.error _, _) => none
  | (.ok header, rest) =>
      let total := header.totalBodyLength.toNat
      if fits : header.keyLength.toNat + header.extrasLength.toNat ≤ total
      then
        if enough : total ≤ rest.incoming.length then
          some (⟨header, rest.incoming.take total, by simp [total, enough],
            fits⟩, rest.incoming.drop total)
        else
          none
      else
        none

theorem decode_eq_some_iff {h : PacketHeader} {body : List UInt8}
    {f : Frame} :
    decode (h.bytes ++ body) = some (f, []) ↔
      f.header = h ∧ f.body = body := by
  rw [decode, PacketHeader.read_bytes rfl]
  constructor
  · intro decoded
    simp only [Option.dite_none_right_eq_some, Option.some.injEq,
      Prod.mk.injEq] at decoded
    obtain ⟨fits, enough, rfl, nothing⟩ := decoded
    exact ⟨rfl, List.take_of_length_le (List.drop_eq_nil_iff.mp nothing)⟩
  · rintro ⟨rfl, rfl⟩
    have enough := le_of_eq f.size.symm
    have taken := List.take_of_length_le (le_of_eq f.size)
    have dropped := List.drop_of_length_le (le_of_eq f.size)
    simp only [f.fits, enough, taken, dropped, dite_true]

end Frame

/-! ## What an operation writes -/

theorem silent_parseResponse : ByteStream.Silent parseResponse := by
  have header : ByteStream.Silent PacketHeader.read :=
    (ByteStream.silent_readInt eof 1 UInt8.ofNat).bind fun _ =>
      (ByteStream.silent_readInt eof 1 UInt8.ofNat).bind fun _ =>
      (ByteStream.silent_readInt eof 2 UInt16.ofNat).bind fun _ =>
      (ByteStream.silent_readInt eof 1 UInt8.ofNat).bind fun _ =>
      (ByteStream.silent_readInt eof 1 UInt8.ofNat).bind fun _ =>
      (ByteStream.silent_readInt eof 2 UInt16.ofNat).bind fun _ =>
      (ByteStream.silent_readInt eof 4 UInt32.ofNat).bind fun _ =>
      (ByteStream.silent_readInt eof 4 UInt32.ofNat).bind fun _ =>
      (ByteStream.silent_readInt eof 8 UInt64.ofNat).bind fun _ =>
      ByteStream.silent_pure _
  apply header.bind
  intro header
  split
  · exact ByteStream.silent_fail _
  · apply (ByteStream.silent_readExact eof _).bind
    intro extras
    apply (ByteStream.silent_readExact eof _).bind
    intro key
    apply (ByteStream.silent_readExact eof _).bind
    intro value
    exact ByteStream.silent_pure _

theorem Requests.outgoing {α : Type} {program : Io α}
    {request : List UInt8} {next : Response → Io α}
    (requests : Requests program request next)
    (silent : ∀ response, ByteStream.Silent (next response))
    (s : TcpStream) :
    (program s).2.outgoing = s.outgoing ++ request := by
  rw [requests, silent_parseResponse.bind silent]
  rfl

/-- The operation fails and has written nothing, or what it writes is one
frame with this opcode, key and value and so many extras. -/
def FramedExactly {α : Type} (program : Io α) (opcode : Opcode)
    (extras : Nat) (key value : List UInt8) : Prop :=
  ∀ s, (∃ err, (program s).1 = .error err) ∧
      (program s).2.outgoing = s.outgoing ∨
    ∃ written f, (program s).2.outgoing = s.outgoing ++ written ∧
      Frame.decode written = some (f, []) ∧
      f.header.opcode = opcode.code ∧ f.extras.length = extras ∧
      f.key = key ∧ f.value = value

/-- A request is framed exactly when its header and its body are a frame of
this content. -/
theorem Requests.framedExactly_iff_frame {α : Type} {program : Io α}
    {h : PacketHeader} {body : List UInt8} {next : Response → Io α}
    (requests : Requests program (h.bytes ++ body) next)
    (silent : ∀ response, ByteStream.Silent (next response))
    (opcode : Opcode) (extras : Nat) (key value : List UInt8) :
    FramedExactly program opcode extras key value ↔
      ∃ f : Frame, f.header = h ∧ f.body = body ∧
        h.opcode = opcode.code ∧ f.extras.length = extras ∧
        f.key = key ∧ f.value = value := by
  have writes := requests.outgoing silent
  constructor
  · intro framed
    rcases framed ⟨[], [], []⟩ with ⟨_, nothing⟩ | ⟨written, f, appended,
      decoded, same, content⟩
    · have long := congrArg List.length nothing
      simp [writes] at long
    · rw [writes, List.nil_append, List.nil_append] at appended
      rw [← appended, Frame.decode_eq_some_iff] at decoded
      rw [decoded.1] at same
      exact ⟨f, decoded.1, decoded.2, same, content⟩
  · rintro ⟨f, header, rest, same, content⟩ s
    refine Or.inr ⟨h.bytes ++ body, f, writes s, ?_, ?_, content⟩
    · exact Frame.decode_eq_some_iff.mpr ⟨header, rest⟩
    · rw [header]
      exact same

/-! ## Lengths that fit -/

/-- The key and the whole body are not longer than their fields can say. -/
def LengthsFit (extras : Nat) (key value : List UInt8) : Prop :=
  key.length < UInt16.size ∧
    extras + key.length + value.length < UInt32.size

instance (extras : Nat) (key value : List UInt8) :
    Decidable (LengthsFit extras key value) :=
  inferInstanceAs (Decidable (_ ∧ _))

/-- A header with the lengths of a body as their casts give them. -/
structure Measures (h : PacketHeader) (extras key value : List UInt8) :
    Prop where
  keyLength : h.keyLength = .ofNat key.length
  extrasLength : h.extrasLength.toNat = extras.length
  totalBodyLength : h.totalBodyLength =
    .ofNat (extras.length + key.length + value.length)

theorem Measures.frame_iff {h : PacketHeader} {extras key value : List UInt8}
    (measures : Measures h extras key value) :
    (∃ f : Frame, f.header = h ∧ f.body = extras ++ (key ++ value) ∧
        f.extras.length = extras.length ∧ f.key = key ∧ f.value = value) ↔
      LengthsFit extras.length key value := by
  have keyLength : h.keyLength.toNat = key.length % UInt16.size := by
    rw [measures.keyLength]
    rfl
  have totalLength : h.totalBodyLength.toNat =
      (extras.length + key.length + value.length) % UInt32.size := by
    rw [measures.totalBodyLength]
    rfl
  have extrasLength := measures.extrasLength
  constructor
  · rintro ⟨f, rfl, body, -, keyed, -⟩
    constructor
    · -- a key that is longer is cut
      have cut := congrArg List.length keyed
      rw [Frame.key, List.length_take, keyLength] at cut
      have below := Nat.mod_lt key.length (show 0 < UInt16.size by decide)
      omega
    · -- the frame of a body that is longer ends before it does
      have size := f.size
      rw [body, totalLength] at size
      simp only [List.length_append] at size
      have below := Nat.mod_lt (extras.length + key.length + value.length)
        (show 0 < UInt32.size by decide)
      omega
  · rintro ⟨keyFits, bodyFits⟩
    rw [Nat.mod_eq_of_lt keyFits] at keyLength
    rw [Nat.mod_eq_of_lt bodyFits] at totalLength
    refine ⟨⟨h, extras ++ (key ++ value), ?_, ?_⟩, rfl, rfl, ?_, ?_, ?_⟩
    · rw [totalLength]
      simp only [List.length_append]
      omega
    · rw [totalLength, keyLength, extrasLength]
      omega
    · simp [Frame.extras, extrasLength]
    · simp [Frame.key, extrasLength, keyLength]
    · simp [Frame.value, extrasLength, keyLength]

/-- A request of a header, extras, a key and a value is framed exactly as long
as the lengths fit. -/
theorem Requests.framedExactly_iff_fit {α : Type} {program : Io α}
    {h : PacketHeader} {extras key value : List UInt8}
    {next : Response → Io α} {opcode : Opcode}
    (requests : Requests program
      (h.bytes ++ (extras ++ (key ++ value))) next)
    (silent : ∀ response, ByteStream.Silent (next response))
    (measures : Measures h extras key value)
    (same : h.opcode = opcode.code) :
    FramedExactly program opcode extras.length key value ↔
      LengthsFit extras.length key value := by
  rw [requests.framedExactly_iff_frame silent, ← measures.frame_iff]
  simp only [same, true_and]

/-! ## The operations -/

namespace Connection

theorem framedExactly_get (key : List UInt8) :
    FramedExactly (get key) .get 0 key [] ↔ LengthsFit 0 key [] := by
  apply @Requests.framedExactly_iff_fit _ _ _ [] key [] _ _
    (((requests_flush _).write key).header _)
  · intro response
    split
    · exact ByteStream.silent_pure _
    · exact ByteStream.silent_pure _
  · exact ⟨rfl, rfl, by simp⟩
  · rfl

theorem framedExactly_set (key val : List UInt8) (expiration : UInt32) :
    FramedExactly (set key val expiration) .set 8 key val ↔
      LengthsFit 8 key val := by
  have requests := (((((requests_flush fun _ => pure ()).write val).write
    key).write (BigEndian.bytes 4 expiration.toNat)).write
    (BigEndian.bytes 4 0)).header
      { magic := magicRequest
        opcode := Opcode.set.code
        keyLength := .ofNat key.length
        extrasLength := 8
        totalBodyLength := .ofNat (8 + key.length + val.length) }
  rw [← List.append_assoc (BigEndian.bytes 4 0), List.append_nil] at requests
  apply Requests.framedExactly_iff_fit requests
  · intro response
    exact ByteStream.silent_pure _
  · exact ⟨rfl, rfl, rfl⟩
  · rfl

theorem framedExactly_delete (key : List UInt8) :
    FramedExactly (delete key) .delete 0 key [] ↔ LengthsFit 0 key [] := by
  apply @Requests.framedExactly_iff_fit _ _ _ [] key [] _ _
    (((requests_flush _).write key).header _)
  · intro response
    exact ByteStream.silent_pure _
  · exact ⟨rfl, rfl, by simp⟩
  · rfl

/-- The three operations on a key frame their requests exactly as long as the
lengths fit. -/
theorem framedExactly_iff (key val : List UInt8) (expiration : UInt32) :
    (FramedExactly (get key) .get 0 key [] ↔ LengthsFit 0 key []) ∧
    (FramedExactly (set key val expiration) .set 8 key val ↔
      LengthsFit 8 key val) ∧
    (FramedExactly (delete key) .delete 0 key [] ↔ LengthsFit 0 key []) :=
  ⟨framedExactly_get key, framedExactly_set key val expiration,
    framedExactly_delete key⟩

/-- The length of a key of 65536 bytes is written as 0. -/
theorem not_framedExactly_get :
    ¬ FramedExactly (get (List.replicate 65536 97)) .get 0
      (List.replicate 65536 97) [] := by
  rw [framedExactly_get, LengthsFit, List.length_replicate]
  intro fits
  exact absurd fits.1 (by decide)

end Connection

end OpenDal.Memcached
