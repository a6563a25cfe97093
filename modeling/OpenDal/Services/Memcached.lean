import OpenDal.ByteStream
import OpenDal.Types.Error

/-!
# Connections to memcached

The binary protocol: a request is a header of 24 bytes and a body, and so is
the server's answer to it.  A connection comes from a pool and goes back to it
after each operation, whatever the operation returned, so what one operation
leaves unread is read by the next.

`parse_response` returns as soon as it has seen a status it does not know, and
leaves the body of that answer in the stream.  A connection stays in step with
the server exactly as long as no such answer has a body.
-/

namespace OpenDal.Memcached

/-- What an operation fails with: an I/O error as `new_std_io_error` makes it,
or an error of its own. -/
inductive Failure where
  | io (err : Error)
  | own (err : Error)
deriving DecidableEq, Repr

/-- `UnexpectedEof`. -/
def eof : Failure :=
  .io (Error.new .unexpected "unexpected end of file").setTemporary

abbrev TcpStream := ByteStream

abbrev Io := Program TcpStream Failure

def okStatus : UInt16 := 0x0

def keyNotFound : UInt16 := 0x1

/-- The opcodes of the requests. -/
inductive Opcode where
  | get
  | set
  | delete
  | version
  | startAuth
deriving DecidableEq, Repr

def Opcode.code : Opcode → UInt8
  | .get => 0x00
  | .set => 0x01
  | .delete => 0x04
  | .version => 0x0b
  | .startAuth => 0x21

/-- `Magic::Request`. -/
def magicRequest : UInt8 := 0x80

structure PacketHeader where
  magic : UInt8 := 0
  opcode : UInt8 := 0
  keyLength : UInt16 := 0
  extrasLength : UInt8 := 0
  dataType : UInt8 := 0
  vbucketIdOrStatus : UInt16 := 0
  totalBodyLength : UInt32 := 0
  opaqueField : UInt32 := 0
  cas : UInt64 := 0
deriving DecidableEq, Repr

namespace PacketHeader

def write (h : PacketHeader) : Io Unit := do
  ByteStream.write (BigEndian.bytes 1 h.magic.toNat)
  ByteStream.write (BigEndian.bytes 1 h.opcode.toNat)
  ByteStream.write (BigEndian.bytes 2 h.keyLength.toNat)
  ByteStream.write (BigEndian.bytes 1 h.extrasLength.toNat)
  ByteStream.write (BigEndian.bytes 1 h.dataType.toNat)
  ByteStream.write (BigEndian.bytes 2 h.vbucketIdOrStatus.toNat)
  ByteStream.write (BigEndian.bytes 4 h.totalBodyLength.toNat)
  ByteStream.write (BigEndian.bytes 4 h.opaqueField.toNat)
  ByteStream.write (BigEndian.bytes 8 h.cas.toNat)

def read : Io PacketHeader := do
  let magic ← ByteStream.readUInt8 eof
  let opcode ← ByteStream.readUInt8 eof
  let keyLength ← ByteStream.readUInt16 eof
  let extrasLength ← ByteStream.readUInt8 eof
  let dataType ← ByteStream.readUInt8 eof
  let vbucketIdOrStatus ← ByteStream.readUInt16 eof
  let totalBodyLength ← ByteStream.readUInt32 eof
  let opaqueField ← ByteStream.readUInt32 eof
  let cas ← ByteStream.readUInt64 eof
  pure { magic, opcode, keyLength, extrasLength, dataType, vbucketIdOrStatus,
         totalBodyLength, opaqueField, cas }

end PacketHeader

structure Response where
  header : PacketHeader
  key : List UInt8
  extras : List UInt8
  value : List UInt8
deriving DecidableEq, Repr

def unexpectedStatus (status : UInt16) : Failure :=
  .own ((Error.new .unexpected "unexpected status received").withContext
    "message" (toString status))

/-- The subtraction wraps around, as it does in a release build. -/
def PacketHeader.valueLength (h : PacketHeader) : UInt32 :=
  h.totalBodyLength - h.keyLength.toUInt32 - h.extrasLength.toUInt32

def parseResponse : Io Response := do
  let header ← PacketHeader.read
  if header.vbucketIdOrStatus ≠ okStatus ∧
      header.vbucketIdOrStatus ≠ keyNotFound then
    Program.fail (unexpectedStatus header.vbucketIdOrStatus)
  else
    let extras ← ByteStream.readExact eof header.extrasLength.toNat
    let key ← ByteStream.readExact eof header.keyLength.toNat
    let value ← ByteStream.readExact eof header.valueLength.toNat
    pure { header, key, extras, value }

/-! ## `Connection`

The buffer of the `BufReader` is never used: every operation works on the
stream below it. -/

namespace Connection

def auth (username password : List UInt8) : Io Unit := do
  let key := "PLAIN".toUTF8.toList
  PacketHeader.write
    { magic := magicRequest
      opcode := Opcode.startAuth.code
      keyLength := .ofNat key.length
      totalBodyLength :=
        .ofNat (key.length + username.length + password.length + 2) }
  ByteStream.write key
  ByteStream.write ([0] ++ username ++ [0] ++ password)
  ByteStream.flush
  let _ ← parseResponse
  pure ()

def version : Io String := do
  PacketHeader.write
    { magic := magicRequest, opcode := Opcode.version.code }
  ByteStream.flush
  let response ← parseResponse
  match String.fromUTF8? ⟨response.value.toArray⟩ with
  | some version => pure version
  | none =>
      Program.fail (.own (Error.new .unexpected "unexpected data received"))

/-- A key is given as its bytes. -/
def get (key : List UInt8) : Io (Option (List UInt8)) := do
  PacketHeader.write
    { magic := magicRequest
      opcode := Opcode.get.code
      keyLength := .ofNat key.length
      totalBodyLength := .ofNat key.length }
  ByteStream.write key
  ByteStream.flush
  let response ← parseResponse
  if response.header.vbucketIdOrStatus = 0x1 then
    pure none
  else
    pure (some response.value)

def set (key val : List UInt8) (expiration : UInt32) : Io Unit := do
  PacketHeader.write
    { magic := magicRequest
      opcode := Opcode.set.code
      keyLength := .ofNat key.length
      extrasLength := 8
      totalBodyLength := .ofNat (8 + key.length + val.length) }
  -- the flags and the expiration of `StoreExtras`
  ByteStream.write (BigEndian.bytes 4 0)
  ByteStream.write (BigEndian.bytes 4 expiration.toNat)
  ByteStream.write key
  ByteStream.write val
  ByteStream.flush
  let _ ← parseResponse
  pure ()

def delete (key : List UInt8) : Io Unit := do
  PacketHeader.write
    { magic := magicRequest
      opcode := Opcode.delete.code
      keyLength := .ofNat key.length
      totalBodyLength := .ofNat key.length }
  ByteStream.write key
  ByteStream.flush
  let _ ← parseResponse
  pure ()

end Connection

/-! ## Frames -/

/-- The encoding of the header. -/
def PacketHeader.bytes (h : PacketHeader) : List UInt8 :=
  BigEndian.bytes 1 h.magic.toNat ++ (BigEndian.bytes 1 h.opcode.toNat ++
    (BigEndian.bytes 2 h.keyLength.toNat ++
    (BigEndian.bytes 1 h.extrasLength.toNat ++
    (BigEndian.bytes 1 h.dataType.toNat ++
    (BigEndian.bytes 2 h.vbucketIdOrStatus.toNat ++
    (BigEndian.bytes 4 h.totalBodyLength.toNat ++
    (BigEndian.bytes 4 h.opaqueField.toNat ++
    BigEndian.bytes 8 h.cas.toNat)))))))

namespace PacketHeader

@[simp] theorem length_bytes (h : PacketHeader) : h.bytes.length = 24 := by
  simp [bytes]

theorem write_eq (h : PacketHeader) (s : TcpStream) :
    h.write s = (.ok (), { s with outgoing := s.outgoing ++ h.bytes }) := by
  simp only [bytes, ← List.append_assoc]
  rfl

theorem read_bytes {h : PacketHeader} {s : TcpStream} {rest : List UInt8}
    (incoming : s.incoming = h.bytes ++ rest) :
    read s = (.ok h, { s with incoming := rest }) := by
  simp only [bytes, List.append_assoc] at incoming
  unfold read
  rw [ByteStream.bind_ok (ByteStream.readUInt8_bytes eof incoming),
    ByteStream.bind_ok (ByteStream.readUInt8_bytes eof rfl),
    ByteStream.bind_ok (ByteStream.readUInt16_bytes eof rfl),
    ByteStream.bind_ok (ByteStream.readUInt8_bytes eof rfl),
    ByteStream.bind_ok (ByteStream.readUInt8_bytes eof rfl),
    ByteStream.bind_ok (ByteStream.readUInt16_bytes eof rfl),
    ByteStream.bind_ok (ByteStream.readUInt32_bytes eof rfl),
    ByteStream.bind_ok (ByteStream.readUInt32_bytes eof rfl),
    ByteStream.bind_ok (ByteStream.readUInt64_bytes eof rfl)]
  rfl

theorem reads_read : ∃ decode, ByteStream.Reads eof 24 read decode :=
  ⟨_, (ByteStream.reads_readInt eof 1 UInt8.ofNat).bind fun _ =>
    (ByteStream.reads_readInt eof 1 UInt8.ofNat).bind fun _ =>
    (ByteStream.reads_readInt eof 2 UInt16.ofNat).bind fun _ =>
    (ByteStream.reads_readInt eof 1 UInt8.ofNat).bind fun _ =>
    (ByteStream.reads_readInt eof 1 UInt8.ofNat).bind fun _ =>
    (ByteStream.reads_readInt eof 2 UInt16.ofNat).bind fun _ =>
    (ByteStream.reads_readInt eof 4 UInt32.ofNat).bind fun _ =>
    (ByteStream.reads_readInt eof 4 UInt32.ofNat).bind fun _ =>
    (ByteStream.reads_readInt eof 8 UInt64.ofNat).map fun _ => _⟩

end PacketHeader

/-- A frame whose lengths agree with each other and with its body. -/
structure Frame where
  header : PacketHeader
  body : List UInt8
  size : body.length = header.totalBodyLength.toNat
  fits : header.keyLength.toNat + header.extrasLength.toNat ≤
    header.totalBodyLength.toNat

namespace Frame

def bytes (f : Frame) : List UInt8 :=
  f.header.bytes ++ f.body

theorem length_bytes (f : Frame) :
    f.bytes.length = 24 + f.header.totalBodyLength.toNat := by
  simp [bytes, f.size]

end Frame

/-- The statuses after which the body is read. -/
def PacketHeader.Known (h : PacketHeader) : Prop :=
  h.vbucketIdOrStatus = okStatus ∨ h.vbucketIdOrStatus = keyNotFound

instance (h : PacketHeader) : Decidable h.Known :=
  inferInstanceAs (Decidable (_ ∨ _))

/-- The part of `parse_response` behind the check of the status. -/
def readBody (header : PacketHeader) : Io Response := do
  let extras ← ByteStream.readExact eof header.extrasLength.toNat
  let key ← ByteStream.readExact eof header.keyLength.toNat
  let value ← ByteStream.readExact eof header.valueLength.toNat
  pure { header, key, extras, value }

theorem parseResponse_known {h : PacketHeader} (known : h.Known)
    {s : TcpStream} {rest : List UInt8}
    (incoming : s.incoming = h.bytes ++ rest) :
    parseResponse s = readBody h { s with incoming := rest } := by
  have passes : ¬ (h.vbucketIdOrStatus ≠ okStatus ∧
      h.vbucketIdOrStatus ≠ keyNotFound) := by
    intro unknown
    rcases known with ok | missing
    · exact unknown.1 ok
    · exact unknown.2 missing
  unfold parseResponse
  rw [ByteStream.bind_ok (PacketHeader.read_bytes incoming), if_neg passes]
  rfl

/-- The body of an answer with another status stays in the stream. -/
theorem parseResponse_unknown {h : PacketHeader} (unknown : ¬ h.Known)
    {s : TcpStream} {rest : List UInt8}
    (incoming : s.incoming = h.bytes ++ rest) :
    parseResponse s = (.error (unexpectedStatus h.vbucketIdOrStatus),
      { s with incoming := rest }) := by
  have fails : h.vbucketIdOrStatus ≠ okStatus ∧
      h.vbucketIdOrStatus ≠ keyNotFound :=
    ⟨fun ok => unknown (.inl ok), fun missing => unknown (.inr missing)⟩
  unfold parseResponse
  rw [ByteStream.bind_ok (PacketHeader.read_bytes incoming), if_pos fails]
  rfl

theorem parseResponse_short {s : TcpStream}
    (short : s.incoming.length < 24) :
    parseResponse s = (.error eof, { s with incoming := [] }) := by
  obtain ⟨decode, reads⟩ := PacketHeader.reads_read
  exact ByteStream.bind_error (reads.short s short)

theorem Frame.valueLength_eq (f : Frame) :
    f.header.extrasLength.toNat + (f.header.keyLength.toNat +
      f.header.valueLength.toNat) = f.header.totalBodyLength.toNat := by
  have fits := f.fits
  have key : f.header.keyLength.toUInt32 ≤ f.header.totalBodyLength := by
    rw [UInt32.le_iff_toNat_le, UInt16.toNat_toUInt32]
    omega
  have extras : f.header.extrasLength.toUInt32 ≤
      f.header.totalBodyLength - f.header.keyLength.toUInt32 := by
    rw [UInt32.le_iff_toNat_le, UInt32.toNat_sub_of_le _ _ key,
      UInt16.toNat_toUInt32, UInt8.toNat_toUInt32]
    omega
  rw [PacketHeader.valueLength, UInt32.toNat_sub_of_le _ _ extras,
    UInt32.toNat_sub_of_le _ _ key, UInt16.toNat_toUInt32,
    UInt8.toNat_toUInt32]
  omega

theorem Frame.reads_body (f : Frame) : ∃ decode, ByteStream.Reads eof
    f.header.totalBodyLength.toNat (readBody f.header) decode := by
  rw [← f.valueLength_eq]
  exact ⟨_, (ByteStream.reads_readExact eof _).bind fun _ =>
    (ByteStream.reads_readExact eof _).bind fun _ =>
    (ByteStream.reads_readExact eof _).map fun _ => _⟩

end OpenDal.Memcached
