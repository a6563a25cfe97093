import OpenDal.Raw.FlatEnumeration

/-!
# `complete_list`

Over a service that cannot list recursively the complete layer emulates it: a
directory is walked by a `FlatLister`, and a path without a trailing `/` is
listed in its parent directory and filtered by `PrefixLister`.  Each of the
four listers enumerates what its parts do.

The future and the blocking variant have the same bodies.
-/

namespace OpenDal

/-! ## `PrefixLister` -/

structure PrefixLister (L : Type) where
  lister : L
  pathPrefix : Path

namespace PrefixLister

variable {L : Type}

def new (lister : L) (path : Path) : PrefixLister L :=
  { lister
    pathPrefix := path }

/-- `next` over the `next` of the inner lister; `none` when that has not
returned, or when the loop goes on after `turns` rounds. -/
def next (inner : L → Option (Except Error (Option Entry) × L)) :
    (turns : Nat) → PrefixLister L →
      Option (Except Error (Option Entry) × PrefixLister L)
  | 0, _ => none
  | turns + 1, self =>
      match inner self.lister with
      | none => none
      | some (.ok (some e), lister) =>
          if !self.pathPrefix.isPrefixOf e.path then
            next inner turns { self with lister }
          else
            some (.ok (some e), { self with lister })
      | some (v, lister) => some (v, { self with lister })

/-- The entries that pass. -/
def keep (path : Path) (entries : List Entry) : List Entry :=
  entries.filter fun entry => path.isPrefixOf entry.path

variable {inner : L → Option (Except Error (Option Entry) × L)}
  {yields : L → List Entry → Prop}

def Yields (yields : L → List Entry → Prop) (turns : Nat)
    (self : PrefixLister L) (out : List Entry) : Prop :=
  ∃ all, yields self.lister all ∧ out = keep self.pathPrefix all ∧
    all.length < turns

private theorem next_cases
    (enumerates : ListSession.Enumerates inner yields) {turns : Nat}
    {all : List Entry} {self : PrefixLister L}
    (remains : yields self.lister all) (enough : all.length < turns) :
    (∃ entry rest later, keep self.pathPrefix all =
        entry :: keep self.pathPrefix rest ∧ rest.length < all.length ∧
      next inner turns self =
        some (.ok (some entry), { self with lister := later }) ∧
      yields later rest) ∨
    (keep self.pathPrefix all = [] ∧ ∃ later, next inner turns self =
        some (.ok none, { self with lister := later }) ∧
      yields later []) := by
  induction turns generalizing self all with
  | zero => omega
  | succ turns induction =>
      cases all with
      | nil =>
          obtain ⟨later, returned, remainsNone⟩ := enumerates.last remains
          exact .inr ⟨rfl, later, by simp [next, returned], remainsNone⟩
      | cons entry rest =>
          obtain ⟨later, returned, remainsRest⟩ := enumerates.more remains
          by_cases passes : self.pathPrefix.isPrefixOf entry.path = true
          · refine .inl ⟨entry, rest, later, ?_, by simp, ?_, remainsRest⟩
            · simp [keep, passes]
            · simp [next, returned, passes]
          · have skipped : keep self.pathPrefix (entry :: rest) =
                keep self.pathPrefix rest := by
              simp [keep, passes]
            have called : next inner (turns + 1) self =
                next inner turns { self with lister := later } := by
              simp [next, returned, passes]
            rw [List.length_cons] at enough ⊢
            rw [skipped, called]
            rcases @induction rest { self with lister := later }
              remainsRest (by omega) with
              ⟨found, tail, last, split, shorter, found', remainsTail⟩ |
              ⟨nothing, last, ended, remainsNone⟩
            · exact .inl ⟨found, tail, last, split, by omega, found',
                remainsTail⟩
            · exact .inr ⟨nothing, last, ended, remainsNone⟩

theorem enumerates (enumerated : ListSession.Enumerates inner yields)
    (turns : Nat) :
    ListSession.Enumerates (next inner turns) (Yields yields turns) where
  more := by
    intro self entry rest yields
    obtain ⟨all, remains, same, enough⟩ := yields
    rcases next_cases enumerated remains enough with
      ⟨found, tail, later, split, shorter, returned, remainsTail⟩ |
      ⟨nothing, _⟩
    · cases same.trans split
      exact ⟨_, returned, tail, remainsTail, rfl, by omega⟩
    · cases same.trans nothing
  last := by
    intro self yields
    obtain ⟨all, remains, same, enough⟩ := yields
    rcases next_cases enumerated remains enough with
      ⟨found, tail, later, split, _⟩ | ⟨_, later, returned, remainsNone⟩
    · cases same.trans split
    · exact ⟨_, returned, [], remainsNone, rfl,
        Nat.lt_of_le_of_lt (Nat.zero_le _) enough⟩

end PrefixLister

/-! ## The four ways -/

inductive CompleteLister (A L : Type) where
  | one (lister : L)
  | two (lister : FlatLister A L)
  | three (lister : PrefixLister L)
  | four (lister : PrefixLister (FlatLister A L))

namespace CompleteLister

variable {A L : Type} [Lister L] [ListAccess A L]

/-- `next` of a lister of the service, which always returns. -/
def nextInner (lister : L) : Option (Except Error (Option Entry) × L) :=
  some (Lister.next lister)

def next (turns : Nat) : CompleteLister A L →
    Option (Except Error (Option Entry) × CompleteLister A L)
  | .one lister =>
      (nextInner lister).map fun (result, lister) => (result, .one lister)
  | .two lister =>
      (lister.next turns).map fun (result, lister) => (result, .two lister)
  | .three lister =>
      (lister.next nextInner turns).map fun (result, lister) =>
        (result, .three lister)
  | .four lister =>
      (lister.next (FlatLister.next turns) turns).map fun (result, lister) =>
        (result, .four lister)

end CompleteLister

/-- `complete_list` and `complete_blocking_list` over the service `inner` with
or without the capability `list_with_recursive`. -/
def completeList {A L : Type} [ListAccess A L] (inner : A)
    (listWithRecursive : Bool) (path : Path) (args : OpList) :
    Except Error (CompleteLister A L) × A :=
  match args.recursive, listWithRecursive with
  | _, true =>
      match ListAccess.list inner path args with
      | (.error err, inner) => (.error err, inner)
      | (.ok p, inner) => (.ok (.one p), inner)
  | true, false =>
      if path.endsWithSlash then
        (.ok (.two (.new inner path)), inner)
      else
        let parent := path.getParent
        (.ok (.four (.new (.new inner parent) path)), inner)
  | false, false =>
      if path.endsWithSlash then
        match ListAccess.list inner path args with
        | (.error err, inner) => (.error err, inner)
        | (.ok p, inner) => (.ok (.one p), inner)
      else
        let parent := path.getParent
        match ListAccess.list inner parent args with
        | (.error err, inner) => (.error err, inner)
        | (.ok p, inner) => (.ok (.three (.new p path)), inner)

/-! ## What they enumerate -/

namespace ListingService

variable {A L : Type} [Lister L] [ListAccess A L] {listed : DirListing}

/-- A service that does not fail either for a directory that does not exist,
and lists nothing there. -/
structure Total (service : ListingService A listed) : Prop where
  steady : service.Steady
  absent : ∀ (acc : A) {dir : Path}, ¬ listed.tree.HasDir dir →
    ∃ l later, ListAccess.list acc dir OpList.new = (.ok l, later) ∧
      service.yields l []

/-- The entries that are listed for a path. -/
def answer (listed : DirListing) (dir : Path) : List Entry :=
  if listed.tree.HasDir dir then listed.listing dir else []

variable {service : ListingService A listed}

theorem Total.opens (total : service.Total) (acc : A) (dir : Path) :
    ∃ l later, ListAccess.list acc dir OpList.new = (.ok l, later) ∧
      service.yields l (answer listed dir) := by
  by_cases known : listed.tree.HasDir dir
  · obtain ⟨l, later, opened⟩ := total.steady.opens acc known
    refine ⟨l, later, opened, ?_⟩
    rw [answer, if_pos known]
    exact service.opened known opened
  · obtain ⟨l, later, opened, yields⟩ := total.absent acc known
    refine ⟨l, later, opened, ?_⟩
    rw [answer, if_neg known]
    exact yields

theorem Steady.enumerates_inner (steady : service.Steady) :
    ListSession.Enumerates CompleteLister.nextInner service.yields where
  more := by
    intro lister entry rest yields
    obtain ⟨item, later, answered⟩ := steady.continues yields
    rcases item with _ | other
    · cases (service.last yields answered).1
    · obtain ⟨tail, split, yieldsTail⟩ := service.more yields answered
      cases split
      exact ⟨later, congrArg some answered, yieldsTail⟩
  last := by
    intro lister yields
    obtain ⟨item, later, answered⟩ := steady.continues yields
    rcases item with _ | other
    · exact ⟨later, congrArg some answered, (service.last yields answered).2⟩
    · obtain ⟨tail, split, _⟩ := service.more yields answered
      cases split

/-- A state of a `FlatLister` whose first directory need not exist. -/
def FlatYields (service : ListingService A listed) (turns : Nat)
    (self : FlatLister A L) (out : List Entry) : Prop :=
  FlatLister.Yields service turns self out ∨
    ∃ acc dir, self = .new acc dir ∧ ¬ listed.tree.HasDir dir ∧
      out = listed.walk dir

theorem walk_absent {dir : Path} (absent : ¬ listed.tree.HasDir dir) :
    listed.walk dir = [⟨dir, .new .dir⟩] :=
  DirListing.postOrder_file absent

/-- The directory is returned although nothing is listed there. -/
theorem Total.enumerates_flat (total : service.Total) (turns : Nat)
    (enough : 2 ≤ turns) :
    ListSession.Enumerates (FlatLister.next turns)
      (FlatYields service turns) where
  more := by
    intro self entry rest yields
    rcases yields with yields | ⟨acc, dir, rfl, absent, same⟩
    · obtain ⟨later, returned, remains⟩ :=
        (FlatLister.enumerates total.steady turns).more yields
      exact ⟨later, returned, .inl remains⟩
    · rw [walk_absent absent] at same
      cases same
      obtain ⟨l, acc', opened, yields⟩ := total.absent acc absent
      obtain ⟨later, answered, remains⟩ :=
        total.steady.enumerates_inner.last yields
      obtain ⟨turns, rfl⟩ : ∃ n, turns = n + 1 := ⟨turns - 1, by omega⟩
      refine ⟨⟨acc', none, [(none, later)]⟩, ?_, .inl ⟨1, ?_, by omega⟩⟩
      · have answered' : Lister.next l = (.ok none, later) :=
          Option.some.inj answered
        simp [FlatLister.next, FlatLister.turn, FlatLister.openNext,
          FlatLister.new, FlatLister.advance, opened, answered']
      · exact .active rfl (.cons (.closing remains) .nil)
  last := by
    intro self yields
    rcases yields with yields | ⟨acc, dir, rfl, absent, same⟩
    · obtain ⟨later, returned, remains⟩ :=
        (FlatLister.enumerates total.steady turns).last yields
      exact ⟨later, returned, .inl remains⟩
    · rw [walk_absent absent] at same
      cases same

theorem flatYields_new {turns : Nat} (acc : A) (dir : Path)
    (enough : listed.work (listed.walk dir) + 1 ≤ turns) :
    FlatYields service turns (.new acc dir : FlatLister A L)
      (listed.walk dir) := by
  by_cases known : listed.tree.HasDir dir
  · exact .inl (FlatLister.yields_new acc known enough)
  · exact .inr ⟨acc, dir, rfl, known, rfl⟩

end ListingService

end OpenDal
