import OpenDal.Raw.FlatLister
import OpenDal.Automaton
import Mathlib.Algebra.BigOperators.Group.List.Basic
import Mathlib.Algebra.GroupWithZero.Nat

/-!
# The walk of `FlatLister`

The stack of listers is the recursive traversal, cut at a point: `Owes` says
which entries a state is going to return, in order, and how many rounds that
takes.  A round of the loop returns the first of them, or works towards it; a
failed `next` of a lister owes the same as before, and a failed `list` loses
the directory that was waiting.
-/

namespace OpenDal

namespace DirListing

variable (listed : DirListing)

/-- The rounds that a directory takes: one for each listed entry, one for the
directory itself and one to leave it. -/
def rounds (entry : Entry) : Nat :=
  if listed.tree.HasDir entry.path then
    (listed.listing entry.path).length + 2
  else
    0

def work (entries : List Entry) : Nat :=
  (entries.map listed.rounds).sum

variable {listed}

@[simp] theorem work_append (left right : List Entry) :
    listed.work (left ++ right) = listed.work left + listed.work right := by
  simp [work]

theorem work_singleton (entry : Entry) :
    listed.work [entry] = listed.rounds entry := by
  simp [work]

/-- The waiting entries of a directory, with all that is below them. -/
def pending (listed : DirListing) (dir : Path) (entries : List Entry) :
    List Entry :=
  (visited dir entries).flatMap listed.forest.postOrder

theorem pending_cons_itself {dir : Path} {entry : Entry}
    (itself : entry.isItself dir = true) (rest : List Entry) :
    listed.pending dir (entry :: rest) = listed.pending dir rest := by
  simp [pending, visited, itself]

theorem pending_cons {dir : Path} {entry : Entry}
    (other : entry.isItself dir = false) (rest : List Entry) :
    listed.pending dir (entry :: rest) =
      listed.forest.postOrder entry ++ listed.pending dir rest := by
  simp [pending, visited, other]

/-- The entries to be visited are directories of the tree, or files. -/
def Sound (listed : DirListing) (dir : Path) (entries : List Entry) : Prop :=
  ∀ entry ∈ visited dir entries,
    entry.metadata.mode = .dir ↔ listed.tree.HasDir entry.path

theorem sound_listing {dir : Path} (known : listed.tree.HasDir dir) :
    listed.Sound dir (listed.listing dir) := by
  intro entry visits
  have member : entry ∈ listed.tree.entries := by
    rw [(visited_listing known).mem_iff, DirTree.mem_children] at visits
    exact visits.1
  constructor
  · exact DirTree.hasDir_of_mem member
  · intro knownEntry
    exact (listed.tree.modes entry member).mpr knownEntry.2

theorem Sound.of_cons {dir : Path} {entry : Entry} {rest : List Entry}
    (sound : listed.Sound dir (entry :: rest)) : listed.Sound dir rest := by
  intro other member
  apply sound other
  rw [visited, List.mem_filter] at member ⊢
  exact ⟨List.mem_cons_of_mem _ member.1, member.2⟩

theorem Sound.head {dir : Path} {entry : Entry} {rest : List Entry}
    (sound : listed.Sound dir (entry :: rest))
    (other : entry.isItself dir = false) :
    entry.metadata.mode = .dir ↔ listed.tree.HasDir entry.path := by
  apply sound entry
  simp [visited, other]

end DirListing

/-! ## What a state owes -/

namespace FlatLister

variable {A L : Type} [Lister L] [ListAccess A L] {listed : DirListing}
  (service : ListingService A listed)

inductive FrameOwes : Option Entry × L → List Entry → Nat → Prop where
  | listing {de : Entry} {l : L} {rest : List Entry}
      (yields : service.yields l rest) (sound : listed.Sound de.path rest) :
      FrameOwes (some de, l) (listed.pending de.path rest ++ [de])
        (listed.work (listed.pending de.path rest) + (rest.length + 2))
  | closing {l : L} (yields : service.yields l []) : FrameOwes (none, l) [] 1

inductive StackOwes : List (Option Entry × L) → List Entry → Nat → Prop where
  | nil : StackOwes [] [] 0
  | cons {frame : Option Entry × L} {stack : List (Option Entry × L)}
      {top rest : List Entry} {topWork restWork : Nat}
      (first : FrameOwes service frame top topWork)
      (others : StackOwes stack rest restWork) :
      StackOwes (frame :: stack) (top ++ rest) (topWork + restWork)

/-- The state is going to return `owed` and takes at most `work` rounds. -/
inductive Owes (self : FlatLister A L) : List Entry → Nat → Prop where
  | active {owed : List Entry} {work : Nat} (idle : self.nextDir = none)
      (stack : StackOwes service self.activeLister owed work) :
      Owes self owed work
  | waiting {de : Entry} {owed : List Entry} {work : Nat}
      (next : self.nextDir = some de)
      (known : listed.tree.HasDir de.path)
      (stack : StackOwes service self.activeLister owed work) :
      Owes self (listed.forest.postOrder de ++ owed)
        (listed.work (listed.forest.postOrder de) + work)

/-- What a round can do, and the whole call when it has answered; the flag
says that no `list` has failed. -/
inductive Accounts (owed : List Entry) (work : Nat) :
    Bool → Turn → FlatLister A L → Prop where
  | proceeds {later : FlatLister A L} {less : Nat}
      (owes : Owes service later owed less) (fewer : less < work) :
      Accounts owed work true .proceed later
  | returns {later : FlatLister A L} {entry : Entry} {rest : List Entry}
      {less : Nat} (split : owed = entry :: rest)
      (owes : Owes service later rest less) (fewer : less ≤ work) :
      Accounts owed work true (.answer (.ok (some entry))) later
  | ends {later : FlatLister A L} {less : Nat} (nothing : owed = [])
      (owes : Owes service later [] less) (fewer : less ≤ work) :
      Accounts owed work true (.answer (.ok none)) later
  | fails {later : FlatLister A L} {err : Error} {less : Nat}
      (owes : Owes service later owed less) (fewer : less ≤ work) :
      Accounts owed work true (.answer (.error err)) later
  | loses {later : FlatLister A L} {err : Error} {de : Entry}
      {rest : List Entry} {less : Nat}
      (split : owed = listed.forest.postOrder de ++ rest)
      (owes : Owes service later rest less) (fewer : less ≤ work) :
      Accounts owed work false (.answer (.error err)) later

variable {service}

theorem owes_new (acc : A) {dir : Path} (known : listed.tree.HasDir dir) :
    Owes service (new acc dir : FlatLister A L) (listed.walk dir)
      (listed.work (listed.walk dir)) := by
  have owes : Owes service (new acc dir : FlatLister A L)
      (listed.walk dir ++ []) (listed.work (listed.walk dir) + 0) :=
    .waiting rfl known .nil
  rwa [List.append_nil, Nat.add_zero] at owes

theorem frameOwes_opened {acc later : A} {de : Entry} {l : L}
    (known : listed.tree.HasDir de.path)
    (opened : ListAccess.list acc de.path OpList.new = (.ok l, later)) :
    FrameOwes service (some de, l) (listed.forest.postOrder de)
      (listed.work (listed.forest.postOrder de)) := by
  have split : listed.forest.postOrder de =
      listed.pending de.path (listed.listing de.path) ++ [de] :=
    DirListing.postOrder_dir known
  have total : listed.work (listed.forest.postOrder de) =
      listed.work (listed.pending de.path (listed.listing de.path)) +
        ((listed.listing de.path).length + 2) := by
    rw [split, DirListing.work_append, DirListing.work_singleton,
      DirListing.rounds, if_pos known]
  rw [total, split]
  exact .listing (service.opened known opened) (DirListing.sound_listing known)

/-! ## One round -/

section Advance

variable {acc : A} {l : L} {others : List (Option Entry × L)}
  {owed : List Entry} {work : Nat}

private theorem advance_closing (yields : service.yields l [])
    (stack : StackOwes service others owed work) :
    Accounts service owed (1 + work) true
      (advance ⟨acc, none, (none, l) :: others⟩).1
      (advance ⟨acc, none, (none, l) :: others⟩).2 := by
  rcases answered : Lister.next l with ⟨err | _ | entry, later⟩
  · simp only [advance, answered]
    have same : owed = [] ++ owed := rfl
    rw [same]
    exact .fails (.active rfl
      (.cons (.closing (service.failed yields answered)) stack)) (Nat.le_refl _)
  · simp only [advance, answered]
    exact .proceeds (.active rfl stack) (by omega)
  · obtain ⟨rest, split, _⟩ := service.more yields answered
    cases split

private theorem advance_listing {de : Entry} {rest : List Entry}
    (yields : service.yields l rest) (sound : listed.Sound de.path rest)
    (stack : StackOwes service others owed work) :
    Accounts service ((listed.pending de.path rest ++ [de]) ++ owed)
      (listed.work (listed.pending de.path rest) + (rest.length + 2) + work)
      true
      (advance ⟨acc, none, (some de, l) :: others⟩).1
      (advance ⟨acc, none, (some de, l) :: others⟩).2 := by
  rcases answered : Lister.next l with ⟨err | _ | entry, later⟩
  · simp only [advance, answered]
    exact .fails (.active rfl
      (.cons (.listing (service.failed yields answered) sound) stack))
      (Nat.le_refl _)
  · obtain ⟨rfl, yieldsNone⟩ := service.last yields answered
    simp only [advance, answered]
    exact .returns rfl
      (.active rfl (.cons (.closing yieldsNone) stack)) (by omega)
  · obtain ⟨tail, rfl, yieldsTail⟩ := service.more yields answered
    have after : StackOwes service ((some de, later) :: others) _ _ :=
      .cons (.listing yieldsTail sound.of_cons) stack
    by_cases isDir : entry.metadata.mode = .dir
    · by_cases same : entry.path = de.path
      · have itself : entry.isItself de.path = true := by
          simp [Entry.isItself, isDir, same]
        rw [DirListing.pending_cons_itself itself]
        simp only [advance, answered, isDir, same, ne_eq, not_true_eq_false,
          if_true, if_false]
        exact .proceeds (.active rfl after) (by simp)
      · have other : entry.isItself de.path = false := by
          simp [Entry.isItself, same]
        have known := (sound.head other).mp isDir
        rw [DirListing.pending_cons other, DirListing.work_append]
        simp only [advance, answered, isDir, same, ne_eq, not_false_eq_true,
          if_true, List.append_assoc]
        rw [List.append_assoc] at after
        exact .proceeds (.waiting rfl known after)
          (by simp only [List.length_cons]; omega)
    · have other : entry.isItself de.path = false := by
        simp [Entry.isItself, isDir]
      have file : ¬ listed.tree.HasDir entry.path :=
        fun known => isDir ((sound.head other).mpr known)
      rw [DirListing.pending_cons other, DirListing.postOrder_file file]
      simp only [advance, answered, isDir, if_false]
      exact .returns rfl (.active rfl after)
        (by simp only [DirListing.work_append, List.length_cons]; omega)

theorem advance_accounts {self : FlatLister A L}
    (idle : self.nextDir = none)
    (stack : StackOwes service self.activeLister owed work) :
    Accounts service owed work true self.advance.1 self.advance.2 := by
  obtain ⟨acc, nextDir, activeLister⟩ := self
  cases idle
  cases stack with
  | nil => exact .ends rfl (.active rfl .nil) (Nat.le_refl _)
  | cons first others =>
      cases first with
      | listing yields sound => exact advance_listing yields sound others
      | closing yields => exact advance_closing yields others

end Advance

variable {self later : FlatLister A L} {owed : List Entry} {work : Nat}

theorem turn_accounts (owes : Owes service self owed work) :
    Accounts service owed work self.opens self.turn.1 self.turn.2 := by
  cases owes with
  | active idle stack =>
      have unopened : self.openNext = (.ok (), self) := by
        simp [openNext, idle]
      simp only [opens, turn, unopened]
      exact advance_accounts idle stack
  | @waiting de owed work next known stack =>
      rcases answered : ListAccess.list self.acc de.path OpList.new with
        ⟨err | l, acc⟩
      · simp only [opens, turn, openNext, next, answered]
        exact .loses rfl (.active rfl stack) (Nat.le_add_left _ _)
      · simp only [opens, turn, openNext, next, answered]
        exact advance_accounts rfl
          (.cons (frameOwes_opened known answered) stack)

/-! ## One call -/

theorem Accounts.mono {less : Nat} {opened : Bool}
    {result : Except Error (Option Entry)}
    (accounts : Accounts service owed less opened (.answer result) later)
    (fewer : less ≤ work) :
    Accounts service owed work opened (.answer result) later := by
  cases accounts with
  | returns split owes smaller =>
      exact .returns split owes (Nat.le_trans smaller fewer)
  | ends nothing owes smaller =>
      exact .ends nothing owes (Nat.le_trans smaller fewer)
  | fails owes smaller => exact .fails owes (Nat.le_trans smaller fewer)
  | loses split owes smaller =>
      exact .loses split owes (Nat.le_trans smaller fewer)

/-- A call that is given as many rounds as there is work returns, and does what
its last round does. -/
theorem next_accounts {turns : Nat} (owes : Owes service self owed work)
    (enough : work < turns) :
    ∃ result later, next turns self = some (result, later) ∧
      Accounts service owed work (self.opensAll turns) (.answer result)
        later := by
  induction turns generalizing self work with
  | zero => omega
  | succ turns induction =>
      have accounts := turn_accounts owes
      rcases turned : self.turn with ⟨_ | result | message, later⟩
      · rw [turned] at accounts
        cases opened : self.opens with
        | false =>
            rw [opened] at accounts
            cases accounts
        | true =>
            rw [opened] at accounts
            cases accounts with
            | proceeds owesLater fewer =>
                obtain ⟨result, last, returned, accounts⟩ :=
                  induction owesLater (by omega)
                refine ⟨result, last, by simp [next, turned, returned], ?_⟩
                simp only [opensAll, opened, turned, Bool.true_and]
                exact accounts.mono (Nat.le_of_lt fewer)
      · rw [turned] at accounts
        refine ⟨result, later, by simp [next, turned], ?_⟩
        simp only [opensAll, turned, Bool.and_true]
        exact accounts
      · rw [turned] at accounts
        generalize self.opens = opened at accounts
        cases accounts

end FlatLister

end OpenDal
