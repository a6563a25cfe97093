import OpenDal.Services.Drive

/-!
# Changes of a drive

What the names lead to after a file was created, trashed or moved.  A change
of one file reaches every file below it, and no other one.
-/

namespace OpenDal

namespace Drive

variable {drive changed : Drive} {names front : List Path}
  {id parent : FileId} {n : Nat} {name : Path}

/-- What is not below the place of a change stays where it is, when nothing
else was changed. -/
theorem At.frame
    (kept : ∀ {m names}, drive.At names (.file m) → ¬ front <+: names →
      changed.files[m]? = drive.files[m]?)
    (at' : drive.At names id) (apart : ¬ front <+: names) :
    changed.At names id := by
  induction at' with
  | root => exact .root
  | @child names n file above found live induction =>
      have whole := At.child above found live
      have higher : ¬ front <+: names := fun below =>
        apart (below.trans (List.prefix_append _ _))
      exact .child (induction higher) ((kept whole apart).trans found) live

/-- Where no child is found, every file of that name is trashed. -/
theorem trashed_of_child_eq_none (valid : drive.Valid)
    (missing : drive.child parent name = none) {file : GdriveFile}
    (found : drive.files[n]? = some file) (inParent : file.parent = parent)
    (named : file.name = name) : file.trashed = true := by
  by_contra live
  have isChild : drive.child parent name = some (.file n) :=
    (child_eq_some_iff valid).mpr
      ⟨n, file, rfl, found, inParent, named, by simpa using live⟩
  rw [missing] at isChild
  cases isChild

theorem child_eq_none_of_walk (valid : drive.Valid)
    (at' : drive.At front parent)
    (missing : drive.walk (front ++ [name]) = none) :
    drive.child parent name = none := by
  rw [walk_concat, (walk_eq_some_iff valid).mpr at'] at missing
  exact missing

/-! ## A new file -/

theorem At.mono (grown : drive ≤ changed) (at' : drive.At names id) :
    changed.At names id := by
  induction at' with
  | root => exact .root
  | child above found live induction =>
      obtain ⟨rest, whole⟩ := grown
      have inside := (List.getElem?_eq_some_iff.mp found).1
      apply At.child induction _ live
      rw [← whole, List.getElem?_append_left inside, found]

theorem le_create (file : GdriveFile) : drive ≤ drive.create file :=
  List.prefix_append _ _

theorem getElem?_create {file other : GdriveFile}
    (found : (drive.create file).files[n]? = some other) :
    drive.files[n]? = some other ∨
      n = drive.files.length ∧ other = file := by
  simp only [create, List.getElem?_append] at found
  split at found
  · exact .inl found
  · rename_i past
    have single : n - drive.files.length = 0 := by
      by_contra later
      rw [List.getElem?_eq_none (by simp; omega)] at found
      cases found
    simp only [single, List.getElem?_cons_zero, Option.some.injEq] at found
    exact .inr ⟨by omega, found.symm⟩

theorem at_create {file : GdriveFile} (at' : drive.At front file.parent)
    (live : file.trashed = false) :
    (drive.create file).At (front ++ [file.name])
      (.file drive.files.length) := by
  apply At.child (at'.mono (le_create file)) _ live
  simp [create]

section Create

variable {file : GdriveFile} (valid : drive.Valid)
  (at' : drive.At front file.parent)
  (missing : drive.child file.parent file.name = none)
  (isFolder : file.name.endsWithSlash = true → file.folder = true)
include valid at' missing isFolder

theorem valid_create : (drive.create file).Valid where
  distinct := by
    intro m n left right first second liveLeft liveRight inParent named
    have dead := fun {k other} => @trashed_of_child_eq_none drive _ k _
      valid missing other
    rcases getElem?_create first with oldLeft | ⟨rfl, rfl⟩
    · rcases getElem?_create second with oldRight | ⟨rfl, rfl⟩
      · exact valid.distinct oldLeft oldRight liveLeft liveRight inParent
          named
      · rw [dead oldLeft inParent named] at liveLeft
        cases liveLeft
    · rcases getElem?_create second with oldRight | ⟨rfl, rfl⟩
      · rw [dead oldRight inParent.symm named.symm] at liveRight
        cases liveRight
      · rfl
  folders := by
    intro n other found live slash
    rcases getElem?_create found with found | ⟨_, rfl⟩
    · exact valid.folders found live slash
    · exact isFolder slash
  parents := by
    intro n other m found isFile
    rw [create, List.length_append]
    rcases getElem?_create found with found | ⟨_, rfl⟩
    · exact Nat.lt_of_lt_of_le (valid.parents found isFile)
        (Nat.le_add_right _ _)
    · rw [isFile] at at'
      exact Nat.lt_of_lt_of_le at'.lt_length (Nat.le_add_right _ _)

theorem at_of_at_create (after : (drive.create file).At names id) :
    drive.At names id ∨ names = front ++ [file.name] := by
  have valid' := valid_create valid at' missing isFolder
  induction after with
  | root => exact .inl .root
  | @child names n other above found live induction =>
      rcases getElem?_create found with found | ⟨rfl, rfl⟩
      · rcases induction with earlier | rfl
        · exact .inl (.child earlier found live)
        · -- nothing was in the new file
          obtain ⟨m, isFile⟩ : ∃ m, other.parent = .file m := by
            cases parent : other.parent with
            | root =>
                rw [parent] at above
                have empty := above.names_unique .root
                simp at empty
            | file m => exact ⟨m, rfl⟩
          have bound := valid.parents found isFile
          rw [isFile] at above
          obtain ⟨front', file', same, found', live', above'⟩ :=
            above.file_inv
          obtain ⟨rfl, named⟩ := List.concat_inj.mp (by simpa using same)
          rw [create, List.getElem?_append_left bound] at found'
          have inParent : file'.parent = file.parent :=
            above'.unique valid' (at'.mono (le_create file))
          rw [trashed_of_child_eq_none valid missing found' inParent
            named.symm] at live'
          cases live'
      · have same := above.names_unique (at'.mono (le_create _))
        exact .inr (by rw [same])

end Create

/-! ## A trashed file -/

theorem getElem?_trash (m : Nat) :
    (drive.trash n).files[m]? = (drive.files[m]?).map fun file =>
      if drive.isBelow n (.file m) then { file with trashed := true }
      else file := by
  simp [trash, List.getElem?_mapIdx]

theorem getElem?_of_trash {m : Nat} {file : GdriveFile}
    (found : (drive.trash n).files[m]? = some file)
    (live : file.trashed = false) :
    drive.files[m]? = some file ∧ drive.isBelow n (.file m) = false := by
  rw [getElem?_trash, Option.map_eq_some_iff] at found
  obtain ⟨before, found, rfl⟩ := found
  split at live
  · cases live
  · rename_i apart
    simpa [apart] using found

theorem at_of_at_trash (after : (drive.trash n).At names id) :
    drive.At names id := by
  induction after with
  | root => exact .root
  | child above found live induction =>
      exact .child induction (getElem?_of_trash found live).1 live

theorem valid_trash (valid : drive.Valid) (n : Nat) :
    (drive.trash n).Valid where
  distinct := by
    intro m k left right first second liveLeft liveRight inParent named
    exact valid.distinct (getElem?_of_trash first liveLeft).1
      (getElem?_of_trash second liveRight).1 liveLeft liveRight inParent named
  folders := by
    intro m file found live slash
    exact valid.folders (getElem?_of_trash found live).1 live slash
  parents := by
    intro m file k found isFile
    rw [getElem?_trash, Option.map_eq_some_iff] at found
    obtain ⟨before, found, rfl⟩ := found
    have parent : before.parent = .file k := by
      split at isFile
      · exact isFile
      · exact isFile
    simpa [trash] using valid.parents found parent

theorem at_trash (valid : drive.Valid) (trashed : drive.At front (.file n))
    (at' : drive.At names id) (apart : ¬ front <+: names) :
    (drive.trash n).At names id := by
  apply at'.frame _ apart
  intro m other at' apart
  have outside : drive.isBelow n (.file m) = false := by
    rw [Bool.eq_false_iff]
    intro below
    exact apart ((isBelow_iff valid trashed at').mp below)
  simp [getElem?_trash, outside]

theorem walk_trash (valid : drive.Valid) (trashed : drive.At front (.file n)) :
    (drive.trash n).walk front = none := by
  cases found : (drive.trash n).walk front with
  | none => rfl
  | some id =>
      have after := (walk_eq_some_iff (valid_trash valid n)).mp found
      have before := at_of_at_trash after
      cases before.unique valid trashed
      obtain ⟨_, _, _, found, live, _⟩ := after.file_inv
      have outside := (getElem?_of_trash found live).2
      rw [(isBelow_iff valid trashed trashed).mpr (List.prefix_refl _)]
        at outside
      cases outside

/-! ## A moved file -/

theorem getElem?_move_of_ne {m : Nat} (other : m ≠ n) :
    (drive.move n name parent).files[m]? = drive.files[m]? := by
  rw [move, List.getElem?_modify]
  simp [Ne.symm other]

theorem getElem?_move_self :
    (drive.move n name parent).files[n]? =
      (drive.files[n]?).map fun file => { file with name, parent } := by
  rw [move, List.getElem?_modify]
  simp

@[simp] theorem length_move :
    (drive.move n name parent).files.length = drive.files.length := by
  simp [move]

theorem at_move (source : drive.At names (.file n)) (name : Path)
    (parent : FileId) {other : List Path} (at' : drive.At other id)
    (outside : ¬ names <+: other) :
    (drive.move n name parent).At other id := by
  apply at'.frame _ outside
  intro m place at' outside
  apply getElem?_move_of_ne
  intro same
  subst same
  exact outside (source.names_unique at' ▸ List.prefix_refl _)

theorem at_move_self (source : drive.At names (.file n))
    (target : drive.At front parent) (apart : ¬ names <+: front)
    (name : Path) :
    (drive.move n name parent).At (front ++ [name]) (.file n) := by
  obtain ⟨_, file, _, found, live, _⟩ := source.file_inv
  have above : (drive.move n name parent).At front parent :=
    at_move source name parent target apart
  have moved : (drive.move n name parent).files[n]? =
      some { file with name, parent } := by
    rw [getElem?_move_self, found]
    rfl
  exact .child above moved live

theorem getElem?_of_move {m : Nat} {file : GdriveFile}
    (found : (drive.move n name parent).files[m]? = some file) :
    (m ≠ n ∧ drive.files[m]? = some file) ∨
      (m = n ∧ ∃ before, drive.files[n]? = some before ∧
        file = { before with name, parent }) := by
  by_cases same : m = n
  · subst same
    rw [getElem?_move_self, Option.map_eq_some_iff] at found
    obtain ⟨before, found, rfl⟩ := found
    exact .inr ⟨rfl, before, found, rfl⟩
  · rw [getElem?_move_of_ne same] at found
    exact .inl ⟨same, found⟩

theorem valid_move (valid : drive.Valid) (target : drive.At front parent)
    (missing : drive.child parent name = none)
    (isFolder : name.endsWithSlash = true →
      ∀ {file}, drive.files[n]? = some file → file.folder = true) :
    (drive.move n name parent).Valid where
  distinct := by
    intro m k left right first second liveLeft liveRight inParent named
    have dead := fun {k other} => @trashed_of_child_eq_none drive _ k _
      valid missing other
    rcases getElem?_of_move first with
      ⟨_, oldLeft⟩ | ⟨rfl, fileLeft, _, rfl⟩
    · rcases getElem?_of_move second with
        ⟨_, oldRight⟩ | ⟨rfl, fileRight, _, rfl⟩
      · exact valid.distinct oldLeft oldRight liveLeft liveRight inParent
          named
      · rw [dead oldLeft inParent named] at liveLeft
        cases liveLeft
    · rcases getElem?_of_move second with
        ⟨_, oldRight⟩ | ⟨rfl, fileRight, _, rfl⟩
      · rw [dead oldRight inParent.symm named.symm] at liveRight
        cases liveRight
      · rfl
  folders := by
    intro m file found live slash
    rcases getElem?_of_move found with ⟨_, old⟩ | ⟨rfl, before, old, rfl⟩
    · exact valid.folders old live slash
    · have folder : before.folder = true := isFolder slash old
      exact folder
  parents := by
    intro m file k found isFile
    rw [length_move]
    rcases getElem?_of_move found with ⟨_, old⟩ | ⟨rfl, before, old, rfl⟩
    · exact valid.parents old isFile
    · have moved : parent = .file k := isFile
      rw [moved] at target
      exact target.lt_length

end Drive

end OpenDal
