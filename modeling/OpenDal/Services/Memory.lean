import Mathlib.Data.List.Lex
import OpenDal.OrderedMap
import OpenDal.PercentEncoding
import OpenDal.Raw.RootedMap

/-!
# Memory

The adapter of the memory service keeps its values in a `BTreeMap`, which
orders strings by their bytes.  A scan walks from the prefix on and stops at
the first key that does not start with it.

The lock around the map is left out: a call of the adapter holds it from its
first line to its last one.
-/

namespace OpenDal

open PercentEncoding

/-! ## The order of keys -/

theorem Path.utf8_prefix_iff (start path : Path) :
    utf8 start <+: utf8 path ↔ start <+: path := by
  constructor
  · intro starts
    obtain ⟨rest, same⟩ := starts
    apply List.isPrefix_of_utf8Encode_append_eq_utf8Encode rest.toByteArray
    rw [List.utf8Encode, List.utf8Encode, ← List.toByteArray_append]
    exact congrArg List.toByteArray same
  · intro starts
    obtain ⟨rest, rfl⟩ := starts
    rw [utf8_append]
    exact List.prefix_append _ _

theorem Path.eq_of_utf8_eq {left right : Path}
    (same : utf8 left = utf8 right) : left = right := by
  have shorter : left <+: right := by
    rw [← utf8_prefix_iff, same]
  have longer : right <+: left := by
    rw [← utf8_prefix_iff, same]
  exact shorter.eq_of_length_le longer.length_le

/-- `Ord for str`: the bytes are compared. -/
def Path.Before (left right : Path) : Prop :=
  List.Lex (· < ·) (utf8 left) (utf8 right)

namespace Path.Before

instance : DecidableRel Path.Before :=
  fun left right =>
    inferInstanceAs (Decidable (List.Lex (· < ·) (utf8 left) (utf8 right)))

theorem irreflexive (path : Path) : ¬ path.Before path :=
  List.lex_irrefl UInt8.lt_irrefl _

theorem transitive {left middle right : Path} (first : left.Before middle)
    (second : middle.Before right) : left.Before right :=
  List.lex_trans UInt8.lt_trans first second

theorem total (left right : Path) :
    left.Before right ∨ left = right ∨ right.Before left := by
  have bytes : Std.Trichotomous fun left right : UInt8 => left < right :=
    ⟨fun left right notLess notGreater =>
      UInt8.le_antisymm (UInt8.not_lt.mp notGreater) (UInt8.not_lt.mp notLess)⟩
  by_cases less : left.Before right
  · exact .inl less
  · by_cases greater : right.Before left
    · exact .inr (.inr greater)
    · exact .inr (.inl (eq_of_utf8_eq
        ((List.Lex.trichotomous _).trichotomous _ _ less greater)))

end Path.Before

/-! ## The adapter -/

/-- `memory::Adapter`. -/
abbrev MemoryAdapter :=
  OrderedMap Path TypedKv.Value Path.Before

namespace MemoryAdapter

def blockingGet (kv : MemoryAdapter) (path : Path) : Option TypedKv.Value :=
  kv.find path

def blockingSet (kv : MemoryAdapter) (path : Path) (value : TypedKv.Value) :
    MemoryAdapter where
  items := OrderedMap.insertItem Path.Before path value kv.items
  sorted := OrderedMap.sorted_insertItem Path.Before
    Path.Before.transitive Path.Before.total kv.sorted

def blockingDelete (kv : MemoryAdapter) (path : Path) : MemoryAdapter :=
  kv.remove path

/-- The loop of `blocking_scan` over a range of the map. -/
def scanRange (path : Path) : List (Path × TypedKv.Value) → List Path →
    List Path
  | [], keys => keys
  | (key, _) :: range, keys =>
      if !path.isPrefixOf key then
        keys
      else
        scanRange path range (keys ++ [key])

def blockingScan (kv : MemoryAdapter) (path : Path) : List Path :=
  if path.isEmpty then
    kv.keys
  else
    scanRange path (kv.rangeFrom path) []

instance : Adapter MemoryAdapter TypedKv.Value where
  get kv path := (.ok (kv.blockingGet path), kv)
  set kv path value := (.ok (), kv.blockingSet path value)
  delete kv path := (.ok (), kv.blockingDelete path)
  scan kv path := (.ok (kv.blockingScan path), kv)

/-! ## Scans -/

theorem scanRange_eq (path : Path) (range : List (Path × TypedKv.Value))
    (keys : List Path) :
    scanRange path range keys =
      keys ++ (range.takeWhile fun item => path.isPrefixOf item.1).map
        Prod.fst := by
  induction range generalizing keys with
  | nil => simp [scanRange]
  | cons item range induction =>
      obtain ⟨key, value⟩ := item
      rw [scanRange, List.takeWhile_cons]
      by_cases starts : path.isPrefixOf key = true
      · simp [starts, induction]
      · simp [starts]

theorem blockingScan_eq_filter (kv : MemoryAdapter) (path : Path) :
    kv.blockingScan path = kv.keys.filter path.isPrefixOf := by
  rw [blockingScan]
  split
  · next empty =>
      rw [List.isEmpty_iff.mp empty]
      exact (List.filter_eq_self.mpr fun _ _ => rfl).symm
  · have starts : ∀ item : Path × TypedKv.Value,
        path.isPrefixOf item.1 = true ↔ utf8 path <+: utf8 item.1 := by
      intro item
      rw [List.isPrefixOf_iff_prefix, Path.utf8_prefix_iff]
    have stops := OrderedMap.takeWhile_rangeFrom UInt8.lt_irrefl starts
      kv.sorted
    have scanned := scanRange_eq path (kv.rangeFrom path) []
    rw [List.nil_append] at scanned
    rw [scanned, OrderedMap.keys, List.filter_map]
    exact congrArg (List.map Prod.fst) stops

theorem mem_blockingScan (kv : MemoryAdapter) (path key : Path) :
    key ∈ kv.blockingScan path ↔
      path <+: key ∧ (kv.blockingGet key).isSome = true := by
  rw [blockingScan_eq_filter, List.mem_filter, OrderedMap.mem_keys_iff,
    List.isPrefixOf_iff_prefix, and_comm]
  rfl

theorem nodup_blockingScan (kv : MemoryAdapter) (path : Path) :
    (kv.blockingScan path).Nodup := by
  rw [blockingScan_eq_filter]
  exact (kv.nodup_keys Path.Before.irreflexive).filter _

/-- `blocking_scan` returns the keys that start with the path, in ascending
order and none of them twice. -/
theorem blockingScan_exact (kv : MemoryAdapter) (path : Path) :
    kv.blockingScan path = kv.keys.filter path.isPrefixOf ∧
      (kv.blockingScan path).Pairwise Path.Before ∧
      (kv.blockingScan path).Nodup ∧
      ∀ key, key ∈ kv.blockingScan path ↔
        path <+: key ∧ (kv.blockingGet key).isSome = true := by
  have scanned := blockingScan_eq_filter kv path
  refine ⟨scanned, ?_, nodup_blockingScan kv path, mem_blockingScan kv path⟩
  rw [scanned]
  exact kv.sorted_keys.filter _

/-- The keys behind one with the greatest character are not missed. -/
example :
    let kv := ["aaa/".toList, "aab/".toList,
        "aab".toList ++ [Char.ofNat 0x10FFFF, '/'], "aac/".toList].foldl
      (fun kv path => MemoryAdapter.blockingSet kv path ⟨.new .dir, .new⟩)
      OrderedMap.empty
    kv.blockingScan "aab".toList =
      ["aab/".toList, "aab".toList ++ [Char.ofNat 0x10FFFF, '/']] := by
  decide

/-! ## The backend -/

def plain : PlainMap MemoryAdapter TypedKv.Value where
  contents := OrderedMap.find
  get kv path := ⟨kv, rfl, rfl⟩
  set kv path value :=
    ⟨kv.blockingSet path value, rfl,
      OrderedMap.lookup_insertItem path value kv.items⟩
  delete kv path :=
    ⟨kv.blockingDelete path, rfl, OrderedMap.find_remove kv path⟩
  scan kv path := by
    exact ⟨kv.blockingScan path, kv, rfl, rfl, nodup_blockingScan kv path,
      mem_blockingScan kv path⟩

/-- A new memory backend is a map from the paths below its root to files. -/
theorem behaves_as_rooted_map (root : Root) {calls : List KvCall}
    (ofFiles : ∀ call ∈ calls, call.OfFiles) :
    BehavesAsRootedMap (TypedKv.service (Watched MemoryAdapter)) root
      (stored root (plain.contents OrderedMap.empty)) OrderedMap.empty
      calls := by
  apply run_answers TypedKv.stores_service (holds_start plain ?_) ofFiles
  intro name known
  cases known

end MemoryAdapter

end OpenDal
