import OpenDal.Raw.FlatWalk

/-!
# Enumeration of a directory tree

A consumer calls `next` of a lister again and again.  Over a service that does
not fail, `FlatLister` returns a directory and everything below it once, every
directory after its descendants, and then `None`.
-/

namespace OpenDal

structure ListSession (L : Type) where
  lister : L
  /-- The entries that have been returned. -/
  outputs : List Entry
  /-- The number of calls that returned an error. -/
  failures : Nat
  /-- `None` has been returned. -/
  finished : Bool

namespace ListSession

variable {L : Type}

def new (lister : L) : ListSession L :=
  { lister
    outputs := []
    failures := 0
    finished := false }

/-- One more call of `next`. -/
def step (next : L → Option (Except Error (Option Entry) × L))
    (self : ListSession L) (_ : Unit) : Option (ListSession L) :=
  (next self.lister).map fun (result, lister) =>
    match result with
    | .ok (some entry) =>
        { self with lister, outputs := self.outputs ++ [entry] }
    | .ok none => { self with lister, finished := true }
    | .error _ => { self with lister, failures := self.failures + 1 }

/-- Where `yields lister out` holds, calls of `next` return the entries of
`out` one by one and then `None`. -/
structure Enumerates (next : L → Option (Except Error (Option Entry) × L))
    (yields : L → List Entry → Prop) : Prop where
  more : ∀ {lister entry rest}, yields lister (entry :: rest) →
    ∃ later, next lister = some (.ok (some entry), later) ∧ yields later rest
  last : ∀ {lister}, yields lister [] →
    ∃ later, next lister = some (.ok none, later) ∧ yields later []

theorem Enumerates.run
    {next : L → Option (Except Error (Option Entry) × L)}
    {yields : L → List Entry → Prop} (enumerates : Enumerates next yields)
    (session : ListSession L) {out : List Entry}
    (start : yields session.lister out) (calls : Nat) :
    ∃ later, Automaton.run (step next) session (List.replicate calls ()) =
      some { session with
        lister := later
        outputs := session.outputs ++ out.take calls
        finished := session.finished || decide (out.length < calls) } := by
  induction calls generalizing session out with
  | zero => exact ⟨session.lister, by simp⟩
  | succ calls induction =>
      cases out with
      | nil =>
          obtain ⟨middle, returned, remains⟩ := enumerates.last start
          obtain ⟨later, ran⟩ := induction
            { session with lister := middle, finished := true } remains
          refine ⟨later, ?_⟩
          rw [List.replicate_succ, Automaton.run_cons_eq_some_iff]
          refine ⟨{ session with lister := middle, finished := true }, ?_, ?_⟩
          · simp [step, returned]
          · rw [ran]
            simp
      | cons entry out =>
          obtain ⟨middle, returned, remains⟩ := enumerates.more start
          obtain ⟨later, ran⟩ := induction
            { session with
              lister := middle, outputs := session.outputs ++ [entry] } remains
          refine ⟨later, ?_⟩
          rw [List.replicate_succ, Automaton.run_cons_eq_some_iff]
          refine ⟨{ session with
            lister := middle, outputs := session.outputs ++ [entry] }, ?_, ?_⟩
          · simp [step, returned]
          · rw [ran]
            simp

/-- A lister that passes on the calls to another one enumerates the same. -/
theorem Enumerates.embed {M : Type}
    {next : L → Option (Except Error (Option Entry) × L)}
    {outer : M → Option (Except Error (Option Entry) × M)}
    {yields : L → List Entry → Prop} {wrap : L → M}
    (enumerates : Enumerates next yields)
    (passes : ∀ lister, outer (wrap lister) =
      (next lister).map fun (result, later) => (result, wrap later)) :
    Enumerates outer fun lister out =>
      ∃ inner, lister = wrap inner ∧ yields inner out where
  more := by
    intro lister entry rest remains
    obtain ⟨inner, wrapped, remains⟩ := remains
    obtain ⟨later, returned, remainsLater⟩ := enumerates.more remains
    refine ⟨wrap later, ?_, later, rfl, remainsLater⟩
    rw [wrapped, passes, returned]
    rfl
  last := by
    intro lister remains
    obtain ⟨inner, wrapped, remains⟩ := remains
    obtain ⟨later, returned, remainsLater⟩ := enumerates.last remains
    refine ⟨wrap later, ?_, later, rfl, remainsLater⟩
    rw [wrapped, passes, returned]
    rfl

end ListSession

namespace FlatLister

variable {A L : Type} [Lister L] [ListAccess A L] {listed : DirListing}
  {service : ListingService A listed}

/-! ## Services that do not fail -/

private theorem listed_of_frame {frame : Option Entry × L}
    {owed : List Entry} {work : Nat}
    (owes : FrameOwes service frame owed work) :
    ∃ rest, service.yields frame.2 rest := by
  cases owes with
  | listing yields _ => exact ⟨_, yields⟩
  | closing yields => exact ⟨_, yields⟩

private theorem advance_ne_error {self : FlatLister A L} {owed : List Entry}
    {work : Nat} {err : Error} (steady : service.Steady)
    (stack : StackOwes service self.activeLister owed work) :
    self.advance.1 ≠ .answer (.error err) := by
  obtain ⟨acc, nextDir, activeLister⟩ := self
  cases stack with
  | nil => simp [advance]
  | @cons frame _ _ _ _ _ first _ =>
      obtain ⟨de, lister⟩ := frame
      obtain ⟨rest, yields⟩ := listed_of_frame first
      obtain ⟨item, later, answered⟩ := steady.continues yields
      rcases item with _ | entry
      · rcases de with _ | de
        · simp [advance, answered]
        · simp [advance, answered]
      · rcases de with _ | de
        · simp only [advance, answered]
          split
          · simp
          · simp
        · simp only [advance, answered]
          split
          · split
            · simp
            · simp
          · simp

private theorem turn_ne_error {self : FlatLister A L} {owed : List Entry}
    {work : Nat} (err : Error) (steady : service.Steady)
    (owes : Owes service self owed work) :
    self.turn.1 ≠ .answer (.error err) := by
  cases owes with
  | active idle stack =>
      simp only [turn, openNext, idle]
      exact advance_ne_error steady stack
  | waiting next known stack =>
      obtain ⟨l, later, opened⟩ := steady.opens self.acc known
      simp only [turn, openNext, next, opened]
      exact advance_ne_error steady (.cons (frameOwes_opened known opened) stack)

theorem next_ne_error {turns : Nat} {self later : FlatLister A L}
    {owed : List Entry} {work : Nat} {err : Error} (steady : service.Steady)
    (owes : Owes service self owed work) :
    next turns self ≠ some (.error err, later) := by
  induction turns generalizing self work with
  | zero => simp [next]
  | succ turns induction =>
      have accounts := turn_accounts owes
      have unfailing := turn_ne_error err steady owes
      rcases turned : self.turn with ⟨_ | result | message, middle⟩
      · rw [turned] at accounts
        generalize self.opens = opened at accounts
        cases accounts with
        | proceeds owesMiddle _ =>
            simp only [next, turned]
            exact induction owesMiddle
      · rw [turned] at unfailing
        simp only [next, turned]
        intro same
        cases same
        exact unfailing rfl
      · simp [next, turned]

/-- A state that owes `out`, given enough rounds for each call. -/
def Yields (service : ListingService A listed) (turns : Nat)
    (self : FlatLister A L) (out : List Entry) : Prop :=
  ∃ work, Owes service self out work ∧ work < turns

theorem yields_new {turns : Nat} (acc : A) {dir : Path}
    (known : listed.tree.HasDir dir)
    (enough : listed.work (listed.walk dir) + 1 ≤ turns) :
    Yields service turns (new acc dir : FlatLister A L) (listed.walk dir) :=
  ⟨_, owes_new acc known, by omega⟩

theorem enumerates (steady : service.Steady) (turns : Nat) :
    ListSession.Enumerates (next turns) (Yields service turns) where
  more := by
    intro self entry rest yields
    obtain ⟨work, owes, enough⟩ := yields
    obtain ⟨result, later, returned, accounts⟩ := next_accounts owes enough
    generalize opensAll turns self = opened at accounts
    cases accounts with
    | returns split owesLater fewer =>
        cases split
        exact ⟨later, returned, _, owesLater, by omega⟩
    | ends nothing _ _ => cases nothing
    | fails _ _ => exact absurd returned (next_ne_error steady owes)
    | loses _ _ _ => exact absurd returned (next_ne_error steady owes)
  last := by
    intro self yields
    obtain ⟨work, owes, enough⟩ := yields
    obtain ⟨result, later, returned, accounts⟩ := next_accounts owes enough
    generalize opensAll turns self = opened at accounts
    cases accounts with
    | returns split _ _ => cases split
    | ends _ owesLater fewer =>
        exact ⟨later, returned, _, owesLater, by omega⟩
    | fails _ _ => exact absurd returned (next_ne_error steady owes)
    | loses _ _ _ => exact absurd returned (next_ne_error steady owes)

/-- Over a tree that is listed without failures, the calls of `next` return the
directory and all of its descendants, each of them once and every directory
after its descendants, and from then on `None`. -/
theorem enumerates_tree (service : ListingService A listed)
    (steady : service.Steady) (acc : A) {dir : Path}
    (known : listed.tree.HasDir dir) :
    ∃ (out : List Entry) (enough : Nat),
      (∀ turns, enough ≤ turns → ∀ calls, ∃ later : FlatLister A L,
        Automaton.run (ListSession.step (next turns))
            (.new (.new acc dir)) (List.replicate calls ()) =
          some ⟨later, out.take calls, 0, decide (out.length < calls)⟩) ∧
      (out.map Entry.path).Nodup ∧
      (∀ entry, entry ∈ out ↔ entry = ⟨dir, .new .dir⟩ ∨
        listed.tree.Descendant dir entry) ∧
      out.Pairwise fun earlier later =>
        ¬ listed.tree.Descendant earlier.path later := by
  refine ⟨listed.walk dir, listed.work (listed.walk dir) + 1, ?_,
    DirListing.nodup_paths_walk dir, fun entry => DirListing.mem_walk,
    DirListing.pairwise_walk dir⟩
  intro turns enough calls
  obtain ⟨later, ran⟩ := (enumerates steady turns).run
    (.new (.new acc dir)) (yields_new acc known enough) calls
  refine ⟨later, ?_⟩
  rw [ran]
  simp [ListSession.new]

end FlatLister

/-! ## A tree in memory -/

/-- A service that lists a tree and does not fail. -/
structure PlainTree (listed : DirListing) where

structure PlainLister where
  entries : List Entry

instance : Lister PlainLister where
  next := fun l =>
    match l.entries with
    | [] => (.ok none, l)
    | entry :: rest => (.ok (some entry), ⟨rest⟩)

instance {listed : DirListing} :
    ListAccess (PlainTree listed) PlainLister where
  list := fun self dir _ => (.ok ⟨listed.listing dir⟩, self)

namespace PlainTree

variable {listed : DirListing}

def service (listed : DirListing) :
    ListingService (PlainTree listed) listed where
  yields := fun l entries => l.entries = entries
  opened := by
    intro acc later dir l _ answered
    cases answered
    rfl
  more := by
    intro l later entry _ same answered
    obtain ⟨entries⟩ := l
    subst same
    cases entries with
    | nil => cases answered
    | cons entry rest =>
        cases answered
        exact ⟨rest, rfl, rfl⟩
  last := by
    intro l later _ same answered
    obtain ⟨entries⟩ := l
    subst same
    cases entries with
    | nil =>
        cases answered
        exact ⟨rfl, rfl⟩
    | cons entry rest => cases answered
  failed := by
    intro l later err _ _ answered
    obtain ⟨entries⟩ := l
    cases entries with
    | nil => cases answered
    | cons entry rest => cases answered

theorem steady : (service listed).Steady where
  opens := fun acc dir _ => ⟨_, acc, rfl⟩
  continues := by
    intro l _ _
    obtain ⟨entries⟩ := l
    cases entries with
    | nil => exact ⟨_, _, rfl⟩
    | cons entry rest => exact ⟨_, _, rfl⟩

end PlainTree

/-- A directory `d/` with a file `f`. -/
def sampleTree : DirTree where
  entries :=
    [⟨"/".toList, .new .dir⟩, ⟨"d/".toList, .new .dir⟩,
      ⟨"d/f".toList, .new .file⟩]
  distinct := by decide
  modes := by decide
  root := by decide
  parents := by decide

/-- The directory `d/` is listed with itself. -/
def sampleListing : DirListing where
  tree := sampleTree
  listing := fun dir =>
    if dir = "/".toList then
      [⟨"d/".toList, .new .dir⟩]
    else if dir = "d/".toList then
      [⟨"d/f".toList, .new .file⟩, ⟨"d/".toList, .new .dir⟩]
    else
      []
  lists := by
    intro dir given
    obtain ⟨member, slash⟩ := given
    simp only [sampleTree, List.map_cons, List.map_nil, List.mem_cons,
      List.not_mem_nil, or_false] at member
    rcases member with rfl | rfl | rfl
    · exact .inl (by decide)
    · exact .inr ⟨⟨"d/".toList, .new .dir⟩, rfl, rfl, by decide⟩
    · cases slash

theorem FlatLister.enumerates_tree_sample :
    ∃ (out : List Entry) (enough : Nat),
      (∀ turns, enough ≤ turns →
        ∃ later : FlatLister (PlainTree sampleListing) PlainLister,
        Automaton.run (ListSession.step (next turns))
            (.new (.new ⟨⟩ "d/".toList)) (List.replicate 3 ()) =
          some ⟨later, out.take 3, 0, decide (out.length < 3)⟩) ∧
      (out.map Entry.path).Nodup ∧
      (⟨"d/f".toList, .new .file⟩ : Entry) ∈ out := by
  have known : sampleListing.tree.HasDir "d/".toList := by decide
  obtain ⟨out, enough, runs, nodup, members, _⟩ := enumerates_tree
    (PlainTree.service sampleListing) PlainTree.steady ⟨⟩ known
  refine ⟨out, enough, fun turns fits => runs turns fits 3, nodup, ?_⟩
  exact (members _).mpr (.inr (.child (by decide)))

end OpenDal
