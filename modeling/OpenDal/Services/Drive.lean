import Mathlib.Data.List.Range
import Mathlib.Data.List.Perm.Subperm
import Mathlib.Order.Defs.PartialOrder
import OpenDal.Raw.PathNames

/-!
# A drive

What Google Drive keeps: files that know their parent, and not their path.  A
folder is a file too, and a file can have any name, also one that ends with
`/`.  Files are never removed.  They are trashed, and everything in a trashed
folder is trashed with it.

The id of a file is its place in the list of all files, so that a new file has
an id that was never used before.
-/

namespace OpenDal

inductive FileId where
  | root
  | file (index : Nat)
deriving DecidableEq, Repr

structure GdriveFile where
  name : Path
  parent : FileId
  /-- Whether the mime type is `application/vnd.google-apps.folder`. -/
  folder : Bool
  trashed : Bool
deriving DecidableEq, Repr

structure Drive where
  files : List GdriveFile

namespace Drive

/-- A drive grows by new files. -/
instance : Preorder Drive where
  le left right := left.files <+: right.files
  le_refl drive := List.prefix_refl drive.files
  le_trans _ _ _ first second := List.IsPrefix.trans first second

variable (drive : Drive)

/-- The first file with a name in a folder that is not trashed. -/
def child (parent : FileId) (name : Path) : Option FileId :=
  (drive.files.findIdx? fun file =>
    file.parent == parent && file.name == name && !file.trashed).map .file

/-- Walk names from the root. -/
def walk (names : List Path) : Option FileId :=
  names.foldlM drive.child .root

/-- A file and the folders that it is in. -/
def lineage : Nat → FileId → List Nat
  | 0, _ => []
  | _ + 1, .root => []
  | fuel + 1, .file n =>
      n :: match drive.files[n]? with
        | none => []
        | some file => lineage fuel file.parent

/-- Whether `id` is the file `n`, or somewhere in it. -/
def isBelow (n : Nat) (id : FileId) : Bool :=
  (drive.lineage drive.files.length id).contains n

def create (file : GdriveFile) : Drive :=
  ⟨drive.files ++ [file]⟩

def trash (n : Nat) : Drive :=
  ⟨drive.files.mapIdx fun i file =>
    if drive.isBelow n (.file i) then { file with trashed := true } else file⟩

/-- Change name and parent of a file. -/
def move (n : Nat) (name : Path) (parent : FileId) : Drive :=
  ⟨drive.files.modify n fun file => { file with name, parent }⟩

/-- A drive without two files of one name in one folder, as it comes about
when names are checked before they are used. -/
structure Valid : Prop where
  distinct : ∀ {m n : Nat} {file other : GdriveFile},
    drive.files[m]? = some file →
    drive.files[n]? = some other → file.trashed = false →
    other.trashed = false → file.parent = other.parent →
    file.name = other.name → m = n
  folders : ∀ {n : Nat} {file : GdriveFile},
    drive.files[n]? = some file → file.trashed = false →
    file.name.endsWithSlash = true → file.folder = true
  parents : ∀ {n : Nat} {file : GdriveFile} {m : Nat},
    drive.files[n]? = some file → file.parent = .file m → m < drive.files.length

/-- The file `id` is live, and the names lead to it. -/
inductive At : List Path → FileId → Prop where
  | root : At [] .root
  | child {names : List Path} {n : Nat} {file : GdriveFile}
      (above : At names file.parent) (found : drive.files[n]? = some file)
      (live : file.trashed = false) : At (names ++ [file.name]) (.file n)

variable {drive} {names front : List Path} {id parent : FileId} {n : Nat}

theorem At.file_inv (at' : drive.At names (.file n)) :
    ∃ front file, names = front ++ [file.name] ∧
      drive.files[n]? = some file ∧ file.trashed = false ∧
      drive.At front file.parent := by
  cases at' with
  | child above found live => exact ⟨_, _, rfl, found, live, above⟩

theorem At.lt_length (at' : drive.At names (.file n)) :
    n < drive.files.length := by
  obtain ⟨_, _, _, found, _⟩ := at'.file_inv
  exact (List.getElem?_eq_some_iff.mp found).1

theorem At.names_unique {other : List Path} (at' : drive.At names id)
    (again : drive.At other id) : names = other := by
  induction at' generalizing other with
  | root =>
      cases again with
      | root => rfl
  | @child names n file above found live induction =>
      obtain ⟨front, same, split, found', _, above'⟩ := again.file_inv
      rw [found] at found'
      cases found'
      rw [split, induction above']

theorem child_eq_some_iff (valid : drive.Valid) {name : Path} :
    drive.child parent name = some id ↔
      ∃ n file, id = .file n ∧ drive.files[n]? = some file ∧
        file.parent = parent ∧ file.name = name ∧ file.trashed = false := by
  constructor
  · intro found
    obtain ⟨n, index, rfl⟩ := Option.map_eq_some_iff.mp found
    obtain ⟨inside, holds, _⟩ := List.findIdx?_eq_some_iff_getElem.mp index
    simp only [Bool.and_eq_true, beq_iff_eq, Bool.not_eq_true'] at holds
    exact ⟨n, _, rfl, List.getElem?_eq_getElem inside, holds.1.1, holds.1.2,
      holds.2⟩
  · intro given
    obtain ⟨n, file, rfl, found, inParent, named, live⟩ := given
    obtain ⟨inside, rfl⟩ := List.getElem?_eq_some_iff.mp found
    refine Option.map_eq_some_iff.mpr ⟨n, ?_, rfl⟩
    refine List.findIdx?_eq_some_iff_getElem.mpr ⟨inside, ?_, ?_⟩
    · simp [inParent, named, live]
    · intro m before
      have smaller := Nat.lt_trans before inside
      simp only [Bool.and_eq_true, beq_iff_eq, Bool.not_eq_true']
      intro earlier
      have same := valid.distinct (List.getElem?_eq_getElem smaller) found
        earlier.2 live (earlier.1.1.trans inParent.symm)
        (earlier.1.2.trans named.symm)
      omega

theorem walk_concat (names : List Path) (name : Path) :
    drive.walk (names ++ [name]) =
      (drive.walk names).bind (drive.child · name) := by
  simp [walk, List.foldlM_append]

theorem walk_eq_some_iff (valid : drive.Valid) :
    drive.walk names = some id ↔ drive.At names id := by
  induction names using List.reverseRecOn generalizing id with
  | nil =>
      constructor
      · intro found
        cases found
        exact .root
      · intro at'
        generalize empty : ([] : List Path) = names at at'
        cases at' with
        | root => rfl
        | child above found live => simp at empty
  | append_singleton names name induction =>
      rw [walk_concat, Option.bind_eq_some_iff]
      constructor
      · intro given
        obtain ⟨parent, above, isChild⟩ := given
        obtain ⟨n, file, rfl, found, rfl, rfl, live⟩ :=
          (child_eq_some_iff valid).mp isChild
        exact .child (induction.mp above) found live
      · intro at'
        generalize whole : names ++ [name] = all at at'
        cases at' with
        | root => simp at whole
        | child above found live =>
            obtain ⟨rfl, rfl⟩ := List.concat_inj.mp (by simpa using whole)
            exact ⟨_, induction.mpr above, (child_eq_some_iff valid).mpr
              ⟨_, _, rfl, found, rfl, rfl, live⟩⟩

theorem At.unique (valid : drive.Valid) {other : FileId}
    (at' : drive.At names id) (again : drive.At names other) : id = other := by
  have first := (walk_eq_some_iff valid).mpr at'
  have second := (walk_eq_some_iff valid).mpr again
  exact Option.some.inj (first.symm.trans second)

/-! ## Being below a folder -/

theorem At.of_mem_lineage (at' : drive.At names id) {fuel m : Nat}
    (member : m ∈ drive.lineage fuel id) :
    ∃ front, front <+: names ∧ drive.At front (.file m) := by
  induction at' generalizing fuel with
  | root => cases fuel <;> simp [lineage] at member
  | @child names n file above found live induction =>
      cases fuel with
      | zero => simp [lineage] at member
      | succ fuel =>
          simp only [lineage, found, List.mem_cons] at member
          rcases member with rfl | higher
          · exact ⟨_, List.prefix_refl _, .child above found live⟩
          · obtain ⟨front, shorter, at'⟩ := induction higher
            exact ⟨front, shorter.trans (List.prefix_append _ _), at'⟩

theorem At.mem_lineage (valid : drive.Valid) {m : Nat}
    (upper : drive.At front (.file m)) (at' : drive.At names id)
    (shorter : front <+: names) {fuel : Nat}
    (enough : names.length ≤ fuel) : m ∈ drive.lineage fuel id := by
  induction at' generalizing fuel with
  | root =>
      rw [List.prefix_nil.mp shorter] at upper
      cases At.unique valid upper .root
  | @child names n file above found live induction =>
      rw [List.length_append, List.length_singleton] at enough
      obtain ⟨fuel, rfl⟩ := Nat.exists_eq_add_of_le enough
      rw [Nat.add_right_comm, lineage, found]
      rcases List.prefix_concat_iff.mp shorter with rfl | inFront
      · cases At.unique valid upper (.child above found live)
        exact List.mem_cons_self
      · exact List.mem_cons_of_mem _
          (induction inFront (Nat.le_add_right _ _))

theorem At.lineage_spec (at' : drive.At names id) {fuel : Nat}
    (enough : names.length ≤ fuel) :
    (drive.lineage fuel id).length = names.length ∧
      (drive.lineage fuel id).Nodup ∧
      ∀ m ∈ drive.lineage fuel id, m < drive.files.length := by
  induction at' generalizing fuel with
  | root => cases fuel <;> simp [lineage]
  | @child names n file above found live induction =>
      rw [List.length_append, List.length_singleton] at enough
      obtain ⟨fuel, rfl⟩ := Nat.exists_eq_add_of_le enough
      rw [Nat.add_right_comm, lineage, found]
      obtain ⟨length, nodup, bounded⟩ :=
        induction (Nat.le_add_right names.length fuel)
      refine ⟨by simp [length], List.nodup_cons.mpr ⟨?_, nodup⟩, ?_⟩
      · intro again
        -- the file would be in two places
        obtain ⟨front, shorter, higher⟩ := above.of_mem_lineage again
        have same := higher.names_unique (.child above found live)
        have longer := shorter.length_le
        rw [same, List.length_append, List.length_singleton] at longer
        omega
      · intro m member
        rcases List.mem_cons.mp member with rfl | higher
        · exact (List.getElem?_eq_some_iff.mp found).1
        · exact bounded m higher

theorem At.length_le (at' : drive.At names id) :
    names.length ≤ drive.files.length := by
  obtain ⟨length, nodup, bounded⟩ := at'.lineage_spec (Nat.le_refl _)
  have within : drive.lineage names.length id ⊆
      List.range drive.files.length :=
    fun m member => List.mem_range.mpr (bounded m member)
  have fits := (nodup.subperm within).length_le
  rwa [length, List.length_range] at fits

theorem isBelow_iff (valid : drive.Valid) (upper : drive.At front (.file n))
    (at' : drive.At names id) :
    drive.isBelow n id = true ↔ front <+: names := by
  rw [isBelow, List.contains_iff_mem]
  constructor
  · intro member
    obtain ⟨other, shorter, again⟩ := at'.of_mem_lineage member
    rwa [upper.names_unique again]
  · intro shorter
    exact upper.mem_lineage valid at' shorter at'.length_le

end Drive

end OpenDal
