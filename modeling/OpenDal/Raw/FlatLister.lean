import OpenDal.Raw.DirTree

/-!
# `FlatLister`

The recursive listing over a service that lists single directories.  The
recursion is a stack of listers, each with the directory that it lists; a
directory that comes up waits in `nextDir` for the next round of the loop, and
is returned itself when its lister has come to the end.

The future and the blocking variant have the same body.
-/

namespace OpenDal

/-- `oio::List` and `oio::BlockingList`. -/
class Lister (L : Type) where
  next : L → Except Error (Option Entry) × L

/-- Arguments of `list`; only `recursive` is read here. -/
structure OpList where
  recursive : Bool
deriving DecidableEq

def OpList.new : OpList :=
  { recursive := false }

/-- `Access::list` or `Access::blocking_list` of a service with state `A`. -/
class ListAccess (A : Type) (L : outParam Type) where
  list : A → Path → OpList → Except Error L × A

structure FlatLister (A L : Type) where
  acc : A
  nextDir : Option Entry
  /-- The last lister of the vector is the first of this list. -/
  activeLister : List (Option Entry × L)

/-- How one round of the loop ends. -/
inductive Turn where
  | proceed
  | answer (result : Except Error (Option Entry))
  | panicked (message : String)

namespace FlatLister

variable {A L : Type}

def new (acc : A) (path : Path) : FlatLister A L :=
  { acc
    nextDir := some ⟨path, .new .dir⟩
    activeLister := [] }

section

variable [ListAccess A L]

/-- The first statement of the loop opens the waiting directory.  It has been
taken out when `list` fails. -/
def openNext (self : FlatLister A L) : Except Error Unit × FlatLister A L :=
  match self.nextDir with
  | none => (.ok (), self)
  | some de =>
      match ListAccess.list self.acc de.path OpList.new with
      | (.error err, acc) => (.error err, { self with acc, nextDir := none })
      | (.ok l, acc) =>
          (.ok (),
            { acc
              nextDir := none
              activeLister := (some de, l) :: self.activeLister })

/-- The call of `list` in this round, if there is one, succeeds. -/
def opens (self : FlatLister A L) : Bool :=
  match self.openNext with
  | (.error _, _) => false
  | (.ok (), _) => true

end

section

variable [Lister L]

/-- The rest of the loop asks the last lister for its next entry. -/
def advance (self : FlatLister A L) : Turn × FlatLister A L :=
  match self.activeLister with
  | [] => (.answer (.ok none), self)
  | (de, lister) :: others =>
      match Lister.next lister with
      | (.error err, lister) =>
          (.answer (.error err),
            { self with activeLister := (de, lister) :: others })
      | (.ok (some v), lister) =>
          let self := { self with activeLister := (de, lister) :: others }
          if v.metadata.mode = .dir then
            match de with
            | none => (.panicked "de should not be none here", self)
            | some de =>
                -- should not loop itself again
                if v.path ≠ de.path then
                  (.proceed, { self with nextDir := some v })
                else
                  (.proceed, self)
          else
            (.answer (.ok (some v)), self)
      | (.ok none, lister) =>
          match de with
          | some de =>
              (.answer (.ok (some de)),
                { self with activeLister := (none, lister) :: others })
          | none => (.proceed, { self with activeLister := others })

variable [ListAccess A L]

def turn (self : FlatLister A L) : Turn × FlatLister A L :=
  match self.openNext with
  | (.error err, self) => (.answer (.error err), self)
  | (.ok (), self) => self.advance

/-- `next`; `none` is a panic, or a loop that goes on after `turns` rounds. -/
def next : (turns : Nat) → FlatLister A L →
    Option (Except Error (Option Entry) × FlatLister A L)
  | 0, _ => none
  | turns + 1, self =>
      match self.turn with
      | (.proceed, self) => next turns self
      | (.answer result, self) => some (result, self)
      | (.panicked _, _) => none

/-- No call of `list` fails during a call of `next`. -/
def opensAll : (turns : Nat) → FlatLister A L → Bool
  | 0, _ => true
  | turns + 1, self =>
      self.opens &&
        match self.turn with
        | (.proceed, self) => opensAll turns self
        | _ => true

end

end FlatLister

/-! ## Assumptions about the service -/

/-- A service that lists `listed`: `yields l entries` says that these are the
entries that the lister has still to return.  Calls may fail, and a call that
has failed has changed nothing. -/
structure ListingService (A : Type) {L : Type} [Lister L] [ListAccess A L]
    (listed : DirListing) where
  yields : L → List Entry → Prop
  opened : ∀ {acc later : A} {dir : Path} {l : L}, listed.tree.HasDir dir →
    ListAccess.list acc dir OpList.new = (.ok l, later) →
    yields l (listed.listing dir)
  more : ∀ {l later : L} {entry : Entry} {entries : List Entry},
    yields l entries → Lister.next l = (.ok (some entry), later) →
    ∃ rest, entries = entry :: rest ∧ yields later rest
  last : ∀ {l later : L} {entries : List Entry},
    yields l entries → Lister.next l = (.ok none, later) →
    entries = [] ∧ yields later []
  failed : ∀ {l later : L} {err : Error} {entries : List Entry},
    yields l entries → Lister.next l = (.error err, later) →
    yields later entries

namespace ListingService

variable {A L : Type} [Lister L] [ListAccess A L] {listed : DirListing}

/-- The failure-free service. -/
structure Steady (service : ListingService A listed) : Prop where
  opens : ∀ (acc : A) {dir : Path}, listed.tree.HasDir dir →
    ∃ l later, ListAccess.list acc dir OpList.new = (.ok l, later)
  continues : ∀ {l : L} {entries : List Entry}, service.yields l entries →
    ∃ item later, Lister.next l = (.ok item, later)

end ListingService

end OpenDal
