import OpenDal.Services.FailedPages
import OpenDal.Types.ListerStream

/-!
# Listing page by page behind the retry layer

A page that fails changes nothing, so `PageLister` asks for it again with the
same token when it is retried.  What it owes is what a server without failures
would still list.
-/

namespace OpenDal

namespace PageLister

variable {Request Reply E σ : Type} (pages : PageList Request Reply E)
  (serve : σ → Request → Reply × σ)

/-- `next` with the server and the context as the state of the lister. -/
def nextCall : NextCall (σ × PageContext E) E := fun fuel (server, ctx) =>
  (next pages serve fuel server ctx).map fun (result, ctx, server) =>
    (result, server, ctx)

/-- Whenever it is asked for a page, the server gives the reply that it would
always give, or one that makes the page fail and changes nothing.  No page
panics. -/
def Reliable (answer : Request → Reply) : Prop :=
  ∀ server ctx, ctx.entries = [] →
    Keeps pages ctx (serve server (pages.request ctx)).1 ∧
      Succeeds pages answer ctx (serve server (pages.request ctx)).1 ∧
      ∀ panic, pages.receive ctx (serve server (pages.request ctx)).1 ≠
        .error panic

/-- What a server without failures would still list. -/
def Owes (answer : Request → Reply) (lister : σ × PageContext E)
    (rest : List E) : Prop :=
  Yields pages (steady answer) () lister.2 rest

/-- The fuel is enough for a server without failures. -/
def Enough (answer : Request → Reply) (fuel : Nat)
    (lister : σ × PageContext E) : Prop :=
  (next pages (steady answer) fuel () lister.2).isSome = true

variable {pages serve} {answer : Request → Reply}

theorem next_succ (pages : PageList Request Reply E)
    (serve : σ → Request → Reply × σ) (server : σ) (ctx : PageContext E) :
    (∃ entry entries, ctx.entries = entry :: entries ∧ ∀ fuel,
        next pages serve (fuel + 1) server ctx =
          some (.ok (some entry), { ctx with entries }, server)) ∨
      (ctx.entries = [] ∧ ctx.done = true ∧ ∀ fuel,
        next pages serve (fuel + 1) server ctx =
          some (.ok none, ctx, server)) ∨
      (ctx.entries = [] ∧ ∃ err later,
        pages.receive ctx (serve server (pages.request ctx)).1 =
          .ok (.error err, later) ∧ ∀ fuel,
        next pages serve (fuel + 1) server ctx = some (.error err, later,
          (serve server (pages.request ctx)).2)) ∨
      (ctx.entries = [] ∧ ∃ panic,
        pages.receive ctx (serve server (pages.request ctx)).1 =
          .error panic ∧ ∀ fuel,
        next pages serve (fuel + 1) server ctx = none) ∨
      (ctx.entries = [] ∧ ctx.done = false ∧ ∃ later,
        pages.receive ctx (serve server (pages.request ctx)).1 =
          .ok (.ok (), later) ∧ ∀ fuel,
        next pages serve (fuel + 1) server ctx =
          next pages serve fuel (serve server (pages.request ctx)).2
            later) := by
  cases pending : ctx.entries with
  | cons entry entries =>
      exact .inl ⟨entry, entries, rfl, fun fuel => by simp [next, pending]⟩
  | nil =>
      refine .inr ?_
      cases finished : ctx.done with
      | true =>
          exact .inl ⟨rfl, rfl, fun fuel => by simp [next, pending, finished]⟩
      | false =>
          refine .inr ?_
          rcases received :
              pages.receive ctx (serve server (pages.request ctx)).1 with
            panic | ⟨err | _, later⟩
          · exact .inr (.inl ⟨rfl, panic, rfl, fun fuel => by
              simp [next, pending, finished, received]⟩)
          · exact .inl ⟨rfl, err, later, rfl, fun fuel => by
              simp [next, pending, finished, received]⟩
          · exact .inr (.inr ⟨rfl, rfl, later, rfl, fun fuel => by
              simp [next, pending, finished, received]⟩)

theorem next_add {server : σ} {ctx : PageContext E} {fuel : Nat}
    {answered : Except Error (Option E) × PageContext E × σ}
    (returned : next pages serve fuel server ctx = some answered)
    (more : Nat) : next pages serve (fuel + more) server ctx =
      some answered := by
  induction fuel generalizing server ctx with
  | zero => cases returned
  | succ fuel induction =>
      rw [Nat.add_right_comm]
      rcases next_succ pages serve server ctx with
        ⟨_, _, _, same⟩ | ⟨_, _, same⟩ | ⟨_, _, _, _, same⟩ |
          ⟨_, _, _, same⟩ | ⟨_, _, later, _, same⟩
      · rw [same] at returned ⊢
        exact returned
      · rw [same] at returned ⊢
        exact returned
      · rw [same] at returned ⊢
        exact returned
      · rw [same] at returned
        cases returned
      · rw [same] at returned ⊢
        exact induction returned

theorem next_unique {server : σ} {ctx : PageContext E} {fuel other : Nat}
    {first second : Except Error (Option E) × PageContext E × σ}
    (returned : next pages serve fuel server ctx = some first)
    (again : next pages serve other server ctx = some second) :
    first = second := by
  have long := next_add returned other
  rw [Nat.add_comm, next_add again fuel] at long
  exact (Option.some.inj long).symm

theorem next_none {server last : σ} {ctx later : PageContext E} {fuel : Nat}
    (returned : next pages serve fuel server ctx =
      some (.ok none, later, last)) :
    later.entries = [] ∧ later.done = true := by
  induction fuel generalizing server ctx with
  | zero => cases returned
  | succ fuel induction =>
      rcases next_succ pages serve server ctx with
        ⟨_, _, _, same⟩ | ⟨nothing, finished, same⟩ | ⟨_, _, _, _, same⟩ |
          ⟨_, _, _, same⟩ | ⟨_, _, _, _, same⟩
      · rw [same] at returned
        cases returned
      · rw [same] at returned
        cases returned
        exact ⟨nothing, finished⟩
      · rw [same] at returned
        cases returned
      · rw [same] at returned
        cases returned
      · rw [same] at returned
        exact induction returned

/-- What a call does for somebody to whom the lister owes `rest`. -/
theorem owes_of_next {rest : List E} {ctx later : PageContext E}
    {fuel : Nat} {value : Option E}
    (remains : Yields pages (steady answer) () ctx rest)
    (returned : next pages (steady answer) fuel () ctx =
      some (.ok value, later, ())) :
    OwesNext (Yields pages (steady answer) ()) rest (.ok value) later := by
  cases rest with
  | nil =>
      cases remains with
      | cons first _ _ =>
          cases next_unique returned first
          obtain ⟨nothing, finished⟩ := next_none returned
          exact .last rfl (Calls.ended nothing finished)
  | cons entry others =>
      cases remains with
      | cons first _ remains =>
          cases next_unique returned first
          exact .more rfl remains

/-- A call over a failing server returns as soon as one over a server without
failures does. -/
theorem next_isSome (server : σ) (reliable : Reliable pages serve answer)
    {fuel : Nat} {ctx : PageContext E}
    (enough : (next pages (steady answer) fuel () ctx).isSome = true) :
    (next pages serve fuel server ctx).isSome = true := by
  induction fuel generalizing server ctx with
  | zero => cases enough
  | succ fuel induction =>
      rcases next_succ pages serve server ctx with
        ⟨_, _, _, same⟩ | ⟨_, _, same⟩ | ⟨_, _, _, _, same⟩ |
          ⟨nothing, panic, panicked, -⟩ |
            ⟨nothing, unfinished, later, received, same⟩
      · rw [same]
        rfl
      · rw [same]
        rfl
      · rw [same]
        rfl
      · exact absurd panicked ((reliable server ctx nothing).2.2 panic)
      · rw [same]
        apply induction
        have honest := (reliable server ctx nothing).2.1 later received
        rw [honest] at received
        rw [next, nothing] at enough
        simpa only [unfinished, Bool.false_eq_true, if_false, steady,
          received] using enough

theorem served_of_fetched {fuel : Nat} {server : σ} {ctx : PageContext E}
    {page : PageContext E × Reply}
    (member : page ∈ fetched pages serve fuel server ctx) :
    ∃ server, page.2 = (serve server (pages.request page.1)).1 := by
  induction fuel generalizing server ctx with
  | zero => cases member
  | succ fuel induction =>
      rw [fetched] at member
      split at member
      · cases member
      · split at member
        · cases member
        · simp only at member
          split at member
          · rw [List.mem_singleton.mp member]
            exact ⟨server, rfl⟩
          · rw [List.mem_singleton.mp member]
            exact ⟨server, rfl⟩
          · rcases List.mem_cons.mp member with rfl | later
            · exact ⟨server, rfl⟩
            · exact induction later

theorem Reliable.fetched (reliable : Reliable pages serve answer) {fuel : Nat}
    {server : σ} {ctx : PageContext E} :
    ∀ page ∈ fetched pages serve fuel server ctx,
      Keeps pages page.1 page.2 ∧ Succeeds pages answer page.1 page.2 := by
  intro page member
  obtain ⟨server, same⟩ := served_of_fetched member
  rw [same]
  have honest := reliable server page.1 (entries_of_fetched member)
  exact ⟨honest.1, honest.2.1⟩

theorem Calls.behind {server : σ} {ctx later : PageContext E}
    {results : List (Except Error (Option E))} {rounds : Nat}
    (calls : Calls pages serve (fun _ _ => True) server ctx results)
    (equal : ∀ n, next pages serve (n + rounds) server ctx =
      next pages serve n server later) :
    Calls pages serve (fun _ _ => True) server later results := by
  cases calls with
  | nil => exact .nil
  | @cons _ _ _ _ fuel _ _ returned met rest =>
      have same := (equal fuel).symm.trans (next_add returned rounds)
      exact .cons same (fun _ _ => trivial) rest

theorem resumes (reliable : Reliable pages serve answer) :
    Resumes (nextCall pages serve) (Owes pages answer) := by
  rintro fuel ⟨server, ctx⟩ rest result ⟨server', later⟩ remains answered
  obtain ⟨⟨outcome, ctx', server''⟩, returned, same⟩ :=
    Option.map_eq_some_iff.mp answered
  cases same
  rcases next_steady returned reliable.fetched with ⟨value, rfl, equal⟩ |
    ⟨err, rounds, rfl, equal⟩
  · cases owes_of_next remains equal with
    | more split remains => exact .more split remains
    | last nothing remains => exact .last nothing remains
  · exact .failed (Calls.behind remains equal)

theorem responds (reliable : Reliable pages serve answer) :
    Responds (nextCall pages serve) (Owes pages answer)
      (Enough pages answer) where
  fuel := by
    rintro ⟨server, ctx⟩ rest remains
    cases remains' : rest.map (fun entry => Except.ok (some entry)) ++
        [(.ok none : Except Error (Option E))] with
    | nil => simp at remains'
    | cons first results =>
        have calls := remains
        rw [Owes, Yields, remains'] at calls
        cases calls with
        | @cons _ _ _ _ fuel _ _ returned met rest =>
            exact ⟨fuel, by rw [Enough, returned]; rfl⟩
  returns := by
    rintro fuel ⟨server, ctx⟩ enough
    obtain ⟨⟨result, later, server'⟩, returned⟩ :=
      Option.isSome_iff_exists.mp (next_isSome server reliable enough)
    have called : nextCall pages serve fuel (server, ctx) =
        some (result, server', later) := by
      simp only [nextCall, returned, Option.map_some]
    rcases next_steady returned reliable.fetched with
      ⟨value, rfl, _⟩ | ⟨err, rounds, rfl, equal⟩
    · exact .inr ⟨value, (server', later), called, trivial⟩
    · refine .inl ⟨err, (server', later), called, ?_⟩
      obtain ⟨answered, steadily⟩ := Option.isSome_iff_exists.mp enough
      rw [Enough, ← equal fuel, next_add steadily rounds]
      rfl

end PageLister

open ListingSession in
/-- A listing in pages through the retry layer and the stream of the operator.
In every run of polls it returns the entries that a server without failures
would list, in order; it ends only after all of them, or with an error after
which there is nothing; and a poll returns if its future does.  If no call
fails more often than it is retried, there is no error. -/
theorem ListerStream.lists_pages {Request Reply E σ : Type}
    {pages : PageList Request Reply E} {serve : σ → Request → Reply × σ}
    {answer : Request → Reply}
    (reliable : PageLister.Reliable pages serve answer) {whole : List E}
    (lists : PageLister.Yields pages (PageLister.steady answer) () .new whole)
    (server : σ) (builder : FixedDelays) {events : List (Option Nat)}
    {session : ListingSession
      (RetryWrapper (σ × PageContext E) FixedDelays) E}
    (ran : Automaton.run
      (step (RetryWrapper.next (PageLister.nextCall pages serve)))
      (new (.new (server, .new) builder)) events = some session) :
    Delivers whole session.replies ∧
      (∃ fuel, (session.step
        (RetryWrapper.next (PageLister.nextCall pages serve))
          (some fuel)).isSome = true) ∧
      (Automaton.Along
          (step (RetryWrapper.next (PageLister.nextCall pages serve)))
          (Settles (PageLister.nextCall pages serve) builder.maxTimes)
          (new (.new (server, .new) builder)) events →
        session.Errorless) := by
  have owes : PageLister.Owes pages answer (server, .new) whole := lists
  exact ListingSession.lists (PageLister.resumes reliable)
    (PageLister.responds reliable) owes builder ran

/-- The first request meets a rate limit. -/
def limitedOnce (limited : Bool) (_ : ListObjectsRequest) :
    Except Error ListObjectsOutput × Bool :=
  (if limited then .error (Error.new .rateLimited "slow down").setTemporary
    else pageOfTwo "now".toList, false)

/-- The two objects of the page. -/
def bothObjects : List (ObjectEntry Unit) :=
  [flatEntry ['a'], flatEntry ['b']]

open ListingSession in
theorem ListerStream.lists_pages_limited :
    ∃ session : ListingSession
        (RetryWrapper (Bool × PageContext (ObjectEntry Unit)) FixedDelays)
        (ObjectEntry Unit),
      Automaton.run
          (step (RetryWrapper.next (PageLister.nextCall
            (flatS3Lister.pages true onlyNow) limitedOnce)))
          (new (.new (true, .new) ⟨1⟩)) [none, some 2, some 1, none, some 1] =
        some session ∧
      session.replies = okReplies bothObjects ++ [none] ∧
      Delivers bothObjects session.replies := by
  have received : (flatS3Lister.pages true onlyNow).receive .new
      (pageOfTwo "now".toList) = .ok (.ok (), ⟨true, [], bothObjects⟩) := by
    decide
  have reliable : PageLister.Reliable (flatS3Lister.pages true onlyNow) limitedOnce
      fun _ => pageOfTwo "now".toList := by
    intro limited ctx nothing
    rw [S3Lister.keeps_iff true onlyNow flatS3Lister ctx _ nothing]
    cases limited with
    | true =>
        refine ⟨trivial, ?_, ?_⟩
        · intro later received
          cases received
        · intro panic panicked
          cases panicked
    | false =>
        refine ⟨.inl ?_, fun later received => rfl, ?_⟩
        · intro _ before object after split _ _
          have dated : ∀ object ∈ [(⟨['a'], 1, "now".toList, none⟩ :
              ListObjectsOutputContent), ⟨['b'], 1, "now".toList, none⟩],
              (onlyNow object.lastModified).isSome = true := by
            decide
          have member : object ∈ before ++ object :: after :=
            List.mem_append_right before List.mem_cons_self
          rw [← split] at member
          exact dated object member
        · intro panic panicked
          have whole : (flatS3Lister.pages true onlyNow).receive ctx
              (pageOfTwo "now".toList) = .ok (.ok (), ⟨true, [],
                ctx.entries ++ [] ++ [flatEntry ['a']] ++
                  [flatEntry ['b']]⟩) := rfl
          cases whole.symm.trans panicked
  have lists : PageLister.Yields (flatS3Lister.pages true onlyNow)
      (PageLister.steady fun _ => pageOfTwo "now".toList) () .new
      bothObjects := by
    refine .receive (by simp) rfl rfl rfl received trivial ?_
    exact .pop (.ended rfl rfl)
  obtain ⟨session, ran, replied⟩ : ∃ session : ListingSession
        (RetryWrapper (Bool × PageContext (ObjectEntry Unit)) FixedDelays)
        (ObjectEntry Unit),
      Automaton.run
          (step (RetryWrapper.next (PageLister.nextCall
            (flatS3Lister.pages true onlyNow) limitedOnce)))
          (new (.new (true, .new) ⟨1⟩)) [none, some 2, some 1, none, some 1] =
        some session ∧
      session.replies = okReplies bothObjects ++ [none] :=
    ⟨_, rfl, rfl⟩
  exact ⟨session, ran, replied,
    (ListerStream.lists_pages reliable lists true ⟨1⟩ ran).1⟩

end OpenDal
