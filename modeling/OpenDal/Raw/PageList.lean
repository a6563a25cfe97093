import OpenDal.Raw.MixedPart
import OpenDal.Raw.RootedPath

/-!
# Listing page by page

A service implements `PageList` by sending one request and working on the
reply to it: `request` and `receive` are the two halves of `next_page`.
`PageLister` calls it whenever no entries are pending.

The other side is a server with a state, so that it may answer one request in
different ways at different times.
-/

namespace OpenDal

structure PageContext (E : Type) where
  done : Bool
  token : Text
  entries : List E
deriving DecidableEq

structure PageList (Request Reply E : Type) where
  request : PageContext E → Request
  receive : PageContext E → Reply →
    Except Panic (Except Error Unit × PageContext E)

namespace PageContext

variable {E α : Type}

/-- What `PageLister::new` starts with. -/
def new : PageContext E :=
  { done := false
    token := []
    entries := [] }

def push (ctx : PageContext E) (entry : E) : PageContext E :=
  { ctx with entries := ctx.entries ++ [entry] }

/-- The loop over the items of a page.  An item becomes an entry, is left out,
or ends the loop with an error; what has been pushed before stays. -/
def pushAll (make : α → Except Panic (Except Error (Option E))) :
    List α → PageContext E →
      Except Panic (Except Error Unit × PageContext E)
  | [], ctx => .ok (.ok (), ctx)
  | item :: items, ctx =>
      match make item with
      | .error panic => .error panic
      | .ok (.error err) => .ok (.error err, ctx)
      | .ok (.ok none) => pushAll make items ctx
      | .ok (.ok (some entry)) => pushAll make items (ctx.push entry)

end PageContext

namespace PageLister

variable {Request Reply E σ : Type} (pages : PageList Request Reply E)
  (serve : σ → Request → Reply × σ)

/-- `next`, with at most `fuel` rounds of its loop; a panic returns
nothing. -/
def next : Nat → σ → PageContext E →
    Option (Except Error (Option E) × PageContext E × σ)
  | 0, _, _ => none
  | fuel + 1, server, ctx =>
      match ctx.entries with
      | entry :: entries => some (.ok (some entry), { ctx with entries }, server)
      | [] =>
          if ctx.done then
            some (.ok none, ctx, server)
          else
            let (reply, server) := serve server (pages.request ctx)
            match pages.receive ctx reply with
            | .error _ => none
            | .ok (.error err, ctx) => some (.error err, ctx, server)
            | .ok (.ok (), ctx) => next fuel server ctx

/-- The replies that this call of `next` works on, each with the context that
it is received in. -/
def fetched : Nat → σ → PageContext E → List (PageContext E × Reply)
  | 0, _, _ => []
  | fuel + 1, server, ctx =>
      match ctx.entries with
      | _ :: _ => []
      | [] =>
          if ctx.done then
            []
          else
            let (reply, server) := serve server (pages.request ctx)
            match pages.receive ctx reply with
            | .error _ => [(ctx, reply)]
            | .ok (.error _, _) => [(ctx, reply)]
            | .ok (.ok (), later) => (ctx, reply) :: fetched fuel server later

/-- Calls of `next` one after the other, with their results.  Every reply
that they work on has the property. -/
inductive Calls (property : PageContext E → Reply → Prop) : σ →
    PageContext E → List (Except Error (Option E)) → Prop where
  | nil {server : σ} {ctx : PageContext E} : Calls property server ctx []
  | cons {server middle : σ} {ctx later : PageContext E} {fuel : Nat}
      {result : Except Error (Option E)}
      {results : List (Except Error (Option E))}
      (returned : next pages serve fuel server ctx =
        some (result, later, middle))
      (met : ∀ page ∈ fetched pages serve fuel server ctx,
        property page.1 page.2)
      (rest : Calls property middle later results) :
      Calls property server ctx (result :: results)

/-- A server without a state. -/
def steady (answer : Request → Reply) (_ : Unit) (request : Request) :
    Reply × Unit :=
  (answer request, ())

end PageLister

/-! ## Making entries of items -/

namespace PageContext

variable {E α : Type} {make : α → Except Panic (Except Error (Option E))}

theorem pushAll_ok {entry : α → Option E} {items : List α}
    (made : ∀ item ∈ items, make item = .ok (.ok (entry item)))
    (ctx : PageContext E) :
    pushAll make items ctx = .ok (.ok (),
      { ctx with entries := ctx.entries ++ items.filterMap entry }) := by
  induction items generalizing ctx with
  | nil => simp [pushAll]
  | cons item items induction =>
      have rest := induction fun other member =>
        made other (List.mem_cons_of_mem item member)
      rw [pushAll, made item List.mem_cons_self]
      cases first : entry item with
      | none => simp [rest, first]
      | some value => simp [rest, first, push]

theorem pushAll_fields {items : List α} {ctx later : PageContext E}
    {outcome : Except Error Unit}
    (pushed : pushAll make items ctx = .ok (outcome, later)) :
    later.done = ctx.done ∧ later.token = ctx.token ∧
      ctx.entries <+: later.entries := by
  induction items generalizing ctx with
  | nil =>
      cases pushed
      exact ⟨rfl, rfl, List.prefix_rfl⟩
  | cons item items induction =>
      rw [pushAll] at pushed
      split at pushed
      · cases pushed
      · cases pushed
        exact ⟨rfl, rfl, List.prefix_rfl⟩
      · exact induction pushed
      · obtain ⟨done, token, begins⟩ := induction pushed
        exact ⟨done, token, (List.prefix_append _ _).trans begins⟩

/-- An item fails, and none before it does or panics. -/
def Fails (make : α → Except Panic (Except Error (Option E)))
    (items : List α) : Prop :=
  ∃ before item rest, items = before ++ item :: rest ∧
    (∀ other ∈ before, ∃ made, make other = .ok (.ok made)) ∧
    ∃ err, make item = .ok (.error err)

/-- An item fails before an entry has been made. -/
def FailsFirst (make : α → Except Panic (Except Error (Option E)))
    (items : List α) : Prop :=
  ∃ skipped item rest, items = skipped ++ item :: rest ∧
    (∀ other ∈ skipped, make other = .ok (.ok none)) ∧
    ∃ err, make item = .ok (.error err)

theorem fails_cons_iff {item : α} {items : List α} :
    Fails make (item :: items) ↔
      (∃ err, make item = .ok (.error err)) ∨
        (∃ made, make item = .ok (.ok made)) ∧ Fails make items := by
  constructor
  · intro fails
    obtain ⟨before, other, rest, split, passed, failed⟩ := fails
    cases before with
    | nil =>
        cases split
        exact .inl failed
    | cons first before =>
        cases split
        refine .inr ⟨passed item List.mem_cons_self, before, other, rest, rfl,
          ?_, failed⟩
        exact fun other member =>
          passed other (List.mem_cons_of_mem item member)
  · intro fails
    rcases fails with failed | ⟨made, before, other, rest, rfl, passed, failed⟩
    · exact ⟨[], item, items, rfl, by simp, failed⟩
    · refine ⟨item :: before, other, rest, rfl, ?_, failed⟩
      intro first member
      rcases List.mem_cons.mp member with rfl | later
      · exact made
      · exact passed first later

theorem failsFirst_cons_iff {item : α} {items : List α} :
    FailsFirst make (item :: items) ↔
      (∃ err, make item = .ok (.error err)) ∨
        make item = .ok (.ok none) ∧ FailsFirst make items := by
  constructor
  · intro fails
    obtain ⟨skipped, other, rest, split, none, failed⟩ := fails
    cases skipped with
    | nil =>
        cases split
        exact .inl failed
    | cons first skipped =>
        cases split
        refine .inr ⟨none item List.mem_cons_self, skipped, other, rest, rfl,
          ?_, failed⟩
        exact fun other member => none other (List.mem_cons_of_mem item member)
  · intro fails
    rcases fails with failed | ⟨made, skipped, other, rest, rfl, none, failed⟩
    · exact ⟨[], item, items, rfl, by simp, failed⟩
    · refine ⟨item :: skipped, other, rest, rfl, ?_, failed⟩
      intro first member
      rcases List.mem_cons.mp member with rfl | later
      · exact made
      · exact none first later

theorem pushAll_fails_iff (items : List α) (ctx : PageContext E) :
    (∃ err later, pushAll make items ctx = .ok (.error err, later)) ↔
      Fails make items := by
  induction items generalizing ctx with
  | nil => simp [pushAll, Fails]
  | cons item items induction =>
      rw [pushAll, fails_cons_iff]
      cases made : make item with
      | error panic => simp
      | ok result =>
          cases result with
          | error err => simp
          | ok value => cases value <;> simp [induction]

/-- The loop fails and leaves the context as it is. -/
theorem pushAll_failsFirst_iff (items : List α) (ctx : PageContext E) :
    (∃ err, pushAll make items ctx = .ok (.error err, ctx)) ↔
      FailsFirst make items := by
  induction items with
  | nil => simp [pushAll, FailsFirst]
  | cons item items induction =>
      rw [pushAll, failsFirst_cons_iff]
      cases made : make item with
      | error panic => simp
      | ok result =>
          cases result with
          | error err => simp
          | ok value =>
              cases value with
              | none => simp [induction]
              | some entry =>
                  simp only [Except.ok.injEq, reduceCtorEq, exists_false,
                    Option.some_ne_none, false_and, or_self, iff_false,
                    not_exists]
                  intro err pushed
                  have longer := (pushAll_fields pushed).2.2.length_le
                  simp only [push, List.length_append,
                    List.length_singleton] at longer
                  omega

end PageContext

/-! ## Calls -/

namespace PageLister

variable {Request Reply E σ : Type} {pages : PageList Request Reply E}
  {serve : σ → Request → Reply × σ}

theorem Calls.pop {property : PageContext E → Reply → Prop} {server : σ}
    {done : Bool} {token : Text} {entries : List E}
    {results : List (Except Error (Option E))}
    (calls : Calls pages serve property server ⟨done, token, []⟩ results) :
    Calls pages serve property server ⟨done, token, entries⟩
      (entries.map (fun entry => .ok (some entry)) ++ results) := by
  induction entries with
  | nil => exact calls
  | cons entry entries induction =>
      have returned : next pages serve 1 server
          ⟨done, token, entry :: entries⟩ =
          some (.ok (some entry), ⟨done, token, entries⟩, server) := rfl
      refine .cons returned ?_ induction
      simp [fetched]

theorem Calls.receive {property : PageContext E → Reply → Prop}
    {server later : σ} {ctx final : PageContext E} {reply : Reply}
    {results : List (Except Error (Option E))} (called : results ≠ [])
    (nothing : ctx.entries = []) (unfinished : ctx.done = false)
    (answered : serve server (pages.request ctx) = (reply, later))
    (received : pages.receive ctx reply = .ok (.ok (), final))
    (holds : property ctx reply)
    (calls : Calls pages serve property later final results) :
    Calls pages serve property server ctx results := by
  cases calls with
  | nil => exact absurd rfl called
  | @cons _ _ _ _ fuel _ _ returned met rest =>
      have again : next pages serve (fuel + 1) server ctx =
          next pages serve fuel later final := by
        simp [next, nothing, unfinished, answered, received]
      have further : fetched pages serve (fuel + 1) server ctx =
          (ctx, reply) :: fetched pages serve fuel later final := by
        simp [fetched, nothing, unfinished, answered, received]
      refine .cons (again.trans returned) ?_ rest
      rw [further, List.forall_mem_cons]
      exact ⟨holds, met⟩

theorem Calls.ended {property : PageContext E → Reply → Prop} {server : σ}
    {ctx : PageContext E} (nothing : ctx.entries = [])
    (finished : ctx.done = true) :
    Calls pages serve property server ctx [.ok none] := by
  have returned : next pages serve 1 server ctx =
      some (.ok none, ctx, server) := by
    simp [next, nothing, finished]
  refine .cons returned ?_ .nil
  simp [fetched, nothing, finished]

/-- The calls return these entries, and then the end. -/
def Yields (pages : PageList Request Reply E)
    (serve : σ → Request → Reply × σ) (server : σ) (ctx : PageContext E)
    (entries : List E) : Prop :=
  Calls pages serve (fun _ _ => True) server ctx
    (entries.map (fun entry => .ok (some entry)) ++ [.ok none])

theorem yields_pop {server : σ} {done : Bool} {token : Text}
    {pending entries : List E} :
    Yields pages serve server ⟨done, token, pending⟩ entries ↔
      ∃ rest, entries = pending ++ rest ∧
        Yields pages serve server ⟨done, token, []⟩ rest := by
  constructor
  · intro yields
    induction pending generalizing entries with
    | nil => exact ⟨entries, rfl, yields⟩
    | cons entry pending induction =>
        cases yields' : entries.map (fun entry => Except.ok (some entry)) ++
            [(.ok none : Except Error (Option E))] with
        | nil => simp at yields'
        | cons result results =>
            rw [Yields, yields'] at yields
            cases yields with
            | @cons _ _ _ _ fuel _ _ returned met rest =>
                cases fuel with
                | zero => cases returned
                | succ fuel =>
                    cases returned
                    cases entries with
                    | nil => cases yields'
                    | cons first entries =>
                        cases yields'
                        obtain ⟨more, same, later⟩ := induction rest
                        exact ⟨more, congrArg _ same, later⟩
  · intro shape
    obtain ⟨rest, rfl, yields⟩ := shape
    rw [Yields, List.map_append, List.append_assoc]
    exact yields.pop

theorem yields_ended {server : σ} {ctx : PageContext E} {entries : List E}
    (nothing : ctx.entries = []) (finished : ctx.done = true) :
    Yields pages serve server ctx entries ↔ entries = [] := by
  constructor
  · intro yields
    cases entries with
    | nil => rfl
    | cons entry entries =>
        cases yields with
        | @cons _ _ _ _ fuel _ _ returned met rest =>
            cases fuel with
            | zero => cases returned
            | succ fuel =>
                rw [next, nothing] at returned
                simp only [finished, if_true] at returned
                cases returned
  · intro empty
    rw [empty]
    exact Calls.ended nothing finished

theorem yields_received {server later : σ} {ctx final : PageContext E}
    {reply : Reply} {entries : List E} (nothing : ctx.entries = [])
    (unfinished : ctx.done = false)
    (answered : serve server (pages.request ctx) = (reply, later))
    (received : pages.receive ctx reply = .ok (.ok (), final)) :
    Yields pages serve server ctx entries ↔
      Yields pages serve later final entries := by
  constructor
  · intro yields
    rw [Yields] at yields ⊢
    generalize entries.map (fun entry => Except.ok (some entry)) ++
      [(.ok none : Except Error (Option E))] = results at yields ⊢
    cases yields with
    | nil => exact .nil
    | @cons _ _ _ _ fuel _ _ returned met rest =>
        cases fuel with
        | zero => cases returned
        | succ fuel =>
            rw [next, nothing] at returned
            simp only [unfinished, Bool.false_eq_true, if_false, answered,
              received] at returned
            exact .cons returned (fun _ _ => trivial) rest
  · intro yields
    exact Calls.receive (by simp) nothing unfinished answered received
      trivial yields

theorem not_yields_failed {server later : σ} {ctx final : PageContext E}
    {reply : Reply} {entries : List E} {err : Error}
    (nothing : ctx.entries = []) (unfinished : ctx.done = false)
    (answered : serve server (pages.request ctx) = (reply, later))
    (received : pages.receive ctx reply = .ok (.error err, final)) :
    ¬ Yields pages serve server ctx entries := by
  intro yields
  have results : ∃ value others,
      entries.map (fun entry => Except.ok (some entry)) ++
        [(.ok none : Except Error (Option E))] = .ok value :: others := by
    cases entries with
    | nil => exact ⟨_, _, rfl⟩
    | cons entry entries => exact ⟨_, _, rfl⟩
  obtain ⟨value, others, shape⟩ := results
  rw [Yields, shape] at yields
  cases yields with
  | @cons _ _ _ _ fuel _ _ returned met rest =>
      cases fuel with
      | zero => cases returned
      | succ fuel =>
          rw [next, nothing] at returned
          simp only [unfinished, Bool.false_eq_true, if_false, answered,
            received] at returned
          cases returned

theorem not_yields_panicked {server later : σ} {ctx : PageContext E}
    {reply : Reply} {entries : List E} {panic : Panic}
    (nothing : ctx.entries = []) (unfinished : ctx.done = false)
    (answered : serve server (pages.request ctx) = (reply, later))
    (received : pages.receive ctx reply = .error panic) :
    ¬ Yields pages serve server ctx entries := by
  intro yields
  rw [Yields] at yields
  generalize results : entries.map (fun entry => Except.ok (some entry)) ++
    [(.ok none : Except Error (Option E))] = calls at yields
  cases yields with
  | nil => simp at results
  | @cons _ _ _ _ fuel _ _ returned met rest =>
      cases fuel with
      | zero => cases returned
      | succ fuel =>
          rw [next, nothing] at returned
          simp [unfinished, answered, received] at returned

/-! ## Failed pages -/

/-- If the page fails, the context is what it was. -/
def Keeps (pages : PageList Request Reply E) (ctx : PageContext E)
    (reply : Reply) : Prop :=
  ∀ err later, pages.receive ctx reply = .ok (.error err, later) →
    later = ctx

/-- A reply that does not make the page fail is the one that the server would
always give. -/
def Succeeds (pages : PageList Request Reply E) (answer : Request → Reply)
    (ctx : PageContext E) (reply : Reply) : Prop :=
  ∀ later, pages.receive ctx reply = .ok (.ok (), later) →
    reply = answer (pages.request ctx)

theorem entries_of_fetched {fuel : Nat} {server : σ} {ctx : PageContext E}
    {page : PageContext E × Reply}
    (member : page ∈ fetched pages serve fuel server ctx) :
    page.1.entries = [] := by
  induction fuel generalizing server ctx with
  | zero => cases member
  | succ fuel induction =>
      rw [fetched] at member
      cases nothing : ctx.entries with
      | cons entry entries => simp [nothing] at member
      | nil =>
          simp only [nothing] at member
          split at member
          · cases member
          · split at member
            · rw [List.mem_singleton] at member
              subst member
              exact nothing
            · rw [List.mem_singleton] at member
              subst member
              exact nothing
            · rcases List.mem_cons.mp member with rfl | later
              · exact nothing
              · exact induction later

/-- One call, when failed pages change nothing: either it returns what it
would return without failures, or it fails where a call without failures would
be after some rounds. -/
theorem next_steady {answer : Request → Reply} {fuel : Nat}
    {server last : σ} {ctx later : PageContext E}
    {result : Except Error (Option E)}
    (returned : next pages serve fuel server ctx = some (result, later, last))
    (met : ∀ page ∈ fetched pages serve fuel server ctx,
      Keeps pages page.1 page.2 ∧ Succeeds pages answer page.1 page.2) :
    (∃ value, result = .ok value ∧
        next pages (steady answer) fuel () ctx = some (result, later, ())) ∨
      (∃ err rounds, result = .error err ∧
        ∀ n, next pages (steady answer) (n + rounds) () ctx =
          next pages (steady answer) n () later) := by
  induction fuel generalizing server ctx with
  | zero => cases returned
  | succ fuel induction =>
      rw [next] at returned
      cases nothing : ctx.entries with
      | cons entry entries =>
          simp only [nothing] at returned
          cases returned
          exact .inl ⟨_, rfl, by simp [next, nothing]⟩
      | nil =>
          simp only [nothing] at returned
          cases finished : ctx.done with
          | true =>
              simp only [finished, if_true] at returned
              cases returned
              exact .inl ⟨_, rfl, by simp [next, nothing, finished]⟩
          | false =>
              simp only [finished, Bool.false_eq_true, if_false] at returned
              cases answered : serve server (pages.request ctx) with
              | mk reply other =>
                  simp only [answered] at returned
                  rcases received : pages.receive ctx reply with
                    panic | ⟨outcome, after⟩
                  · rw [received] at returned
                    cases returned
                  · rw [received] at returned
                    cases outcome with
                      | error err =>
                          cases returned
                          have here := met (ctx, reply) (by
                            simp [fetched, nothing, finished, answered,
                              received])
                          cases here.1 err later received
                          exact .inr ⟨err, 0, rfl, fun n => rfl⟩
                      | ok =>
                          have further : fetched pages serve (fuel + 1)
                              server ctx = (ctx, reply) ::
                                fetched pages serve fuel other after := by
                            simp [fetched, nothing, finished, answered,
                              received]
                          rw [further, List.forall_mem_cons] at met
                          have same := met.1.2 after received
                          have again : ∀ n, next pages (steady answer)
                              (n + 1) () ctx =
                              next pages (steady answer) n () after := by
                            intro n
                            simp [next, nothing, finished, steady, ← same,
                              received]
                          rcases induction returned met.2 with
                            ⟨value, fine, equal⟩ |
                              ⟨err, rounds, failed, equal⟩
                          · exact .inl ⟨value, fine, (again fuel).trans equal⟩
                          · refine .inr ⟨err, rounds + 1, failed, ?_⟩
                            intro n
                            exact (again (n + rounds)).trans (equal n)

/-- Any number of calls: the results that are not errors are those of a server
that never makes a page fail. -/
theorem Calls.steady {answer : Request → Reply}
    {property : PageContext E → Reply → Prop}
    (keeps : ∀ ctx reply, ctx.entries = [] → property ctx reply →
      Keeps pages ctx reply ∧ Succeeds pages answer ctx reply)
    {server : σ} {ctx : PageContext E}
    {results : List (Except Error (Option E))}
    (calls : Calls pages serve property server ctx results) :
    Calls pages (PageLister.steady answer) (fun _ _ => True) () ctx
      (results.filter fun result => result.isOk) := by
  induction calls with
  | nil => exact .nil
  | @cons server middle ctx later fuel result results returned met rest
      induction =>
      have honest : ∀ page ∈ fetched pages serve fuel server ctx,
          Keeps pages page.1 page.2 ∧ Succeeds pages answer page.1 page.2 :=
        fun page member =>
          keeps _ _ (entries_of_fetched member) (met page member)
      rcases next_steady returned honest with
        ⟨value, rfl, equal⟩ | ⟨err, rounds, rfl, equal⟩
      · exact .cons equal (fun _ _ => trivial) induction
      · rw [List.filter_cons_of_neg (by simp [Except.isOk, Except.toBool])]
        generalize results.filter (fun result => result.isOk) = remaining
          at induction
        cases induction with
        | nil => exact .nil
        | @cons _ _ _ _ n _ _ returned met rest =>
            exact .cons ((equal n).trans returned) (fun _ _ => trivial) rest

end PageLister

end OpenDal
