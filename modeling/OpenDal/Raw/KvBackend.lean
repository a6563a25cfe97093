import OpenDal.Raw.Delete
import OpenDal.Raw.HierarchyLister
import OpenDal.Raw.QueueBuf
import OpenDal.Raw.Root
import OpenDal.Types.ReadGenerator

/-!
# Key-value backends

`kv::Backend` and `typed_kv::Backend` keep files in an adapter that stores
values by key.  The value is the content for the first one; for the second one
it has metadata too.  What the two share is one definition with the
differences as a `Service`; the blocking variants have the same bodies and are
not repeated.

An operation goes on with the adapter that the previous one has left, so every
call returns it.
-/

namespace OpenDal

open Path

/-- The operations of `kv::Adapter` and of `typed_kv::Adapter`. -/
class Adapter (S : Type) (V : outParam Type) where
  get : S → Path → Except Error (Option V) × S
  set : S → Path → V → Except Error Unit × S
  delete : S → Path → Except Error Unit × S
  /-- All keys that start with this key. -/
  scan : S → Path → Except Error (List Path) × S

/-- The metadata that `stat` returns. -/
structure StatMetadata where
  mode : EntryMode
  contentLength : Nat
  cacheControl : Option String
  contentDisposition : Option String
  contentType : Option String
deriving DecidableEq, Repr

def StatMetadata.new (mode : EntryMode) : StatMetadata :=
  { mode
    contentLength := 0
    cacheControl := none
    contentDisposition := none
    contentType := none }

/-- The options of a write that a key-value backend looks at. -/
structure KvOpWrite where
  cacheControl : Option String
  contentDisposition : Option String
  contentType : Option String
deriving DecidableEq, Repr

/-- What differs between the two backends: what they make of a value, and
writing chunks to a key. -/
structure Service (S V : Type) where
  metadata : V → StatMetadata
  value : V → Buffer
  write : S → Path → KvOpWrite → List Buffer → Except Error Unit × S

namespace BytesRange

/-- `to_range_as_usize`. -/
def toRangeAsUsize (range : BytesRange) : RangeBounds where
  startBound := .included range.offset
  endBound := match range.size with
    | some size => .excluded (range.offset + size)
    | none => .unbounded

end BytesRange

/-! ## What both backends do -/

namespace Kv

variable {S V : Type} [Adapter S V]

def notFound : Error :=
  .new .notFound "kv doesn't have this path"

def stat (service : Service S V) (root : Root) (kv : S) (path : Path) :
    Except Error StatMetadata × S :=
  let p := buildAbsPath root.path path
  if p = buildAbsPath root.path [] then
    (.ok (.new .dir), kv)
  else
    match Adapter.get kv p with
    | (.error err, kv) => (.error err, kv)
    | (.ok (some bs), kv) => (.ok (service.metadata bs), kv)
    | (.ok none, kv) => (.error notFound, kv)

/-- `none` is the panic of a slice out of bounds. -/
def read (service : Service S V) (root : Root) (kv : S) (path : Path)
    (range : BytesRange) : Option (Except Error Buffer.Inner) × S :=
  let p := buildAbsPath root.path path
  match Adapter.get kv p with
  | (.error err, kv) => (some (.error err), kv)
  | (.ok (some bs), kv) =>
      (((service.value bs).inner.slice range.toRangeAsUsize).map .ok, kv)
  | (.ok none, kv) => (some (.error notFound), kv)

def write (service : Service S V) (root : Root) (kv : S) (path : Path)
    (op : KvOpWrite) (chunks : List Buffer) : Except Error Unit × S :=
  let p := buildAbsPath root.path path
  service.write kv p op chunks

/-- `KvDeleter`. -/
structure Deleter (S : Type) where
  kv : S
  root : Root

instance : OneShotDelete (Deleter S) where
  deleteOnce deleter path _ :=
    let p := buildAbsPath deleter.root.path path
    match Adapter.delete deleter.kv p with
    | (.error err, kv) => (.error err, { deleter with kv })
    | (.ok (), kv) => (.ok (), { deleter with kv })

/-- The deleter of a backend is given one path and then flushed. -/
def delete (root : Root) (kv : S) (path : Path) : Except Error Nat × S :=
  match (OneShotDeleter.new (Deleter.mk kv root)).delete path .new with
  | (.error err, deleter) => (.error err, deleter.inner.kv)
  | (.ok (), deleter) =>
      let (result, deleter) := deleter.flush
      (result, deleter.inner.kv)

/-- An entry of `KvLister`. -/
def listerEntry (root : Root) (v : Path) : Entry :=
  let mode := if endsWithSlash v then EntryMode.dir else .file
  let path := buildRelPath root.path v
  let path := if path.isEmpty then ['/'] else path
  ⟨path, .new mode⟩

/-- The listing is collected; `next` is called once more than there are
keys. -/
def list (root : Root) (kv : S) (path : Path) (recursive : Bool) :
    Except Error (Option (List Entry)) × S :=
  let p := buildAbsPath root.path path
  match Adapter.scan kv p with
  | (.error err, kv) => (.error err, kv)
  | (.ok res, kv) =>
      let lister := res.map (listerEntry root)
      let lister := HierarchyLister.new lister path recursive
      (.ok (lister.collect (res.length + 1)), kv)

/-! ## `kv::Backend` -/

/-- `kv::KvWriter`. -/
structure KvWriter where
  path : Path
  buffer : QueueBuf

namespace KvWriter

def new (path : Path) : KvWriter :=
  ⟨path, .new⟩

def write (writer : KvWriter) (bs : Buffer) : KvWriter :=
  { writer with buffer := writer.buffer.push bs }

def close {S : Type} [Adapter S Buffer] (writer : KvWriter) (kv : S) :
    Except Error Unit × S :=
  let buf := writer.buffer.collect
  Adapter.set kv writer.path buf

end KvWriter

/-- `kv::Backend`. -/
def service (S : Type) [Adapter S Buffer] : Service S Buffer where
  metadata bs := { StatMetadata.new .file with contentLength := bs.len }
  value bs := bs
  write kv p _ chunks := (chunks.foldl KvWriter.write (KvWriter.new p)).close kv

end Kv

/-! ## `typed_kv::Backend` -/

namespace TypedKv

structure Value where
  metadata : StatMetadata
  value : Buffer

/-- `typed_kv::KvWriter`. -/
structure KvWriter where
  path : Path
  op : KvOpWrite
  buf : Option QueueBuf
  value : Option Value

namespace KvWriter

def new (path : Path) (op : KvOpWrite) : KvWriter :=
  ⟨path, op, none, none⟩

def build (writer : KvWriter) : Value × KvWriter :=
  let value := (writer.buf.map QueueBuf.collect).getD Buffer.new
  let metadata : StatMetadata :=
    { mode := .file
      contentLength := value.len
      cacheControl := writer.op.cacheControl
      contentDisposition := writer.op.contentDisposition
      contentType := writer.op.contentType }
  (⟨metadata, value⟩, { writer with buf := none })

def write (writer : KvWriter) (bs : Buffer) : KvWriter :=
  let buf := writer.buf.getD QueueBuf.new
  { writer with buf := some (buf.push bs) }

def close {S : Type} [Adapter S Value] (writer : KvWriter) (kv : S) :
    Except Error Unit × KvWriter × S :=
  let (value, writer) := match writer.value with
    | some value => (value, writer)
    | none =>
        let (value, writer) := writer.build
        (value, { writer with value := some value })
  match Adapter.set kv writer.path value with
  | (.error err, kv) => (.error err, writer, kv)
  | (.ok (), kv) => (.ok (), writer, kv)

end KvWriter

/-- `typed_kv::Backend`. -/
def service (S : Type) [Adapter S Value] : Service S Value where
  metadata bs := bs.metadata
  value bs := bs.value
  write kv p op chunks :=
    let (result, _, kv) :=
      (chunks.foldl KvWriter.write (KvWriter.new p op)).close kv
    (result, kv)

end TypedKv

end OpenDal
