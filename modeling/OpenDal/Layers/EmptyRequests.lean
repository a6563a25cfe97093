import Mathlib.Algebra.GroupWithZero.Nat
import OpenDal.Layers.ResumedRead

/-!
# Requests for nothing

A generator does not ask for an empty range.  A `RetryReader` advances its
range over what it has returned and asks for the rest after a failure, so it
asks for nothing when the reader of the service fails with all of its range
returned.  The header for that has an end before its start, or none at all.
So does the header of a range that ends behind the last position of a `u64`:
there `offset + size` overflows, which a debug build checks.

The session below has one event for each attempt at a request.  A wrapper that
retries makes attempts one after the other, so every pattern of retries is a
run.
-/

namespace OpenDal

/-! ## Range headers -/

namespace BytesRange

/-- `offset + size - 1`, which only a debug build checks. -/
def lastPosition (debug : Bool) (offset size : Nat) : Option Nat :=
  if debug then
    (checkedAdd offset size).bind (checkedSub · 1)
  else
    some ((offset + size + (2 ^ 64 - 1)) % 2 ^ 64)

/-- `Display`; `none` is the panic of a debug build. -/
def display (debug : Bool) (range : BytesRange) : Option (List Char) :=
  match range.size with
  | none => some ((toString range.offset).toList ++ ['-'])
  | some size =>
      (lastPosition debug range.offset size).map fun last =>
        (toString range.offset).toList ++ '-' :: (toString last).toList

def toHeader (debug : Bool) (range : BytesRange) : Option (List Char) :=
  (range.display debug).map ("bytes=".toList ++ ·)

/-- The header can be written, and its end is not before its start. -/
structure Ordered (debug : Bool) (range : BytesRange) : Prop where
  written : (range.toHeader debug).isSome
  ordered : ∀ size, range.size = some size →
    ∃ last, lastPosition debug range.offset size = some last ∧
      range.offset ≤ last

/-- The position behind all others, as far as `offset + size` may go. -/
def bound (debug : Bool) : Nat :=
  if debug then 2 ^ 64 - 1 else 2 ^ 64

/-- If the range has a size, it ends within the bound. -/
def EndsWithin (debug : Bool) (range : BytesRange) : Prop :=
  ∀ size, range.size = some size → range.offset + size ≤ bound debug

theorem lastPosition_of_le {debug : Bool} {offset size : Nat}
    (positive : 1 ≤ size) (fits : offset + size ≤ bound debug) :
    lastPosition debug offset size = some (offset + size - 1) := by
  cases debug with
  | true =>
      have small : offset + size < 2 ^ 64 := by
        simp only [bound, if_true] at fits
        omega
      have above : 1 ≤ offset + size := by omega
      rw [lastPosition, if_pos rfl, checkedAdd, if_pos small,
        Option.bind_some, checkedSub, if_pos above]
  | false =>
      have small : offset + size ≤ 2 ^ 64 := fits
      have around : offset + size + (2 ^ 64 - 1) =
          offset + size - 1 + 2 ^ 64 := by omega
      have below : offset + size - 1 < 2 ^ 64 := by omega
      rw [lastPosition, if_neg Bool.false_ne_true, around,
        Nat.add_mod_right, Nat.mod_eq_of_lt below]

/-- Behind the bound a debug build panics, and another one goes around. -/
theorem not_le_of_lastPosition {debug : Bool} {offset size last : Nat}
    (start : offset < 2 ^ 64) (long : size < 2 ^ 64)
    (behind : bound debug < offset + size)
    (found : lastPosition debug offset size = some last) :
    ¬ offset ≤ last := by
  cases debug with
  | true =>
      have large : ¬ offset + size < 2 ^ 64 := by
        simp only [bound, if_true] at behind
        omega
      rw [lastPosition, if_pos rfl, checkedAdd, if_neg large] at found
      cases found
  | false =>
      have large : 2 ^ 64 < offset + size := behind
      have around : offset + size + (2 ^ 64 - 1) =
          offset + size - 1 - 2 ^ 64 + 2 ^ 64 + 2 ^ 64 := by omega
      rw [lastPosition, if_neg Bool.false_ne_true, around,
        Nat.add_mod_right, Nat.add_mod_right,
        Nat.mod_eq_of_lt (by omega)] at found
      have same := Option.some.inj found
      omega

theorem ordered_of_endsWithin {debug : Bool} {range : BytesRange}
    (nonempty : range.size ≠ some 0) (ends : range.EndsWithin debug) :
    range.Ordered debug := by
  obtain ⟨offset, size⟩ := range
  cases size with
  | none => exact ⟨rfl, fun _ same => nomatch same⟩
  | some size =>
      have positive : 1 ≤ size := by
        apply Nat.one_le_iff_ne_zero.mpr
        intro empty
        exact nonempty (by rw [empty])
      have found := lastPosition_of_le positive (ends size rfl)
      constructor
      · simp [toHeader, display, found]
      · intro other same
        cases same
        refine ⟨_, found, ?_⟩
        simp only
        omega

/-- A range of `u64` that is not empty has a header exactly if it ends within
the bound. -/
theorem ordered_iff {debug : Bool} {range : BytesRange}
    (start : range.offset < 2 ^ 64)
    (sized : ∀ size, range.size = some size → 1 ≤ size ∧ size < 2 ^ 64) :
    range.Ordered debug ↔ range.EndsWithin debug := by
  constructor
  · intro ordered size same
    obtain ⟨positive, long⟩ := sized size same
    obtain ⟨last, found, forward⟩ := ordered.ordered size same
    by_contra behind
    exact not_le_of_lastPosition start long (Nat.lt_of_not_le behind) found
      forward
  · intro ends
    apply ordered_of_endsWithin _ ends
    intro empty
    exact absurd (sized 0 empty).1 (by decide)

theorem EndsWithin.advance {debug : Bool} {range later : BytesRange}
    {count : Nat} (ends : range.EndsWithin debug)
    (advanced : range.advance count = some later) :
    later.EndsWithin debug := by
  obtain ⟨offset, size⟩ := range
  cases size with
  | none =>
      cases advanced
      intro size same
      cases same
  | some size =>
      obtain ⟨rest, subtracted, rfl⟩ := Option.map_eq_some_iff.mp advanced
      have whole : offset + size ≤ bound debug := ends size rfl
      intro other same
      cases same
      unfold checkedSub at subtracted
      split at subtracted
      · cases subtracted
        simp only
        omega
      · cases subtracted

end BytesRange

/-! ## Attempts -/

/-- The generator, what it wants to be opened, and the readers that have
been.  `requests` are the arguments that the service was called with. -/
structure ReadSession (A R : Type) where
  service : A
  generator : ReadGenerator R
  opening : List OpRead
  readers : List (RetryReader A R)
  requests : List OpRead
  panicked : Bool

inductive ReadAttempt where
  | next
  | opens (i : Nat)
  | reads (i : Nat)

/-- What the first line of the loop of `RetryReader::read` asks for. -/
def RetryReader.asked {A R : Type} (self : RetryReader A R) : List OpRead :=
  match self.reader with
  | none => [self.args]
  | some _ => []

namespace ReadSession

variable {A R : Type}

/-- Nothing has been opened yet. -/
def start (service : A) (ctx : ReadContext R) (range : BytesRange) :
    ReadSession A R :=
  { service
    generator := .new ctx range.offset range.size
    opening := []
    readers := []
    requests := []
    panicked := false }

variable [Read R] [ReadAccess A R]

/-- `next_reader` up to its request. -/
def next (s : ReadSession A R) : ReadSession A R :=
  match s.generator.nextRange with
  | (none, generator) => { s with generator }
  | (some range, generator) =>
      { s with
        generator
        opening := s.opening ++ [generator.ctx.args.withRange range] }

/-- One attempt of `RetryAccessor::read`. -/
def openReader (s : ReadSession A R) (i : Nat) : Option (ReadSession A R) :=
  match s.opening[i]? with
  | none => none
  | some args =>
      let path := s.generator.ctx.path
      let requests := s.requests ++ [args]
      match ReadAccess.read s.service path args with
      | (.error _, service) => some { s with service, requests }
      | (.ok reader, service) =>
          some { s with
            service
            requests
            opening := s.opening.eraseIdx i
            readers := s.readers ++ [.new service path args reader] }

/-- One attempt of `read` of a wrapped reader; the service is shared. -/
def readReader (s : ReadSession A R) (i : Nat) : Option (ReadSession A R) :=
  match s.readers[i]? with
  | none => none
  | some reader =>
      let reader := { reader with inner := s.service }
      let requests := s.requests ++ reader.asked
      match reader.read with
      | none => some { s with requests, panicked := true }
      | some (_, reader) =>
          some { s with
            service := reader.inner
            requests
            readers := s.readers.set i reader }

def step (s : ReadSession A R) (attempt : ReadAttempt) :
    Option (ReadSession A R) :=
  if s.panicked then
    none
  else
    match attempt with
    | .next => some s.next
    | .opens i => s.openReader i
    | .reads i => s.readReader i

/-- A reader of the service that has returned all of its range does not
fail. -/
def EndsWell (s : ReadSession A R) (attempt : ReadAttempt) : Prop :=
  ∀ i reader r, attempt = .reads i → s.readers[i]? = some reader →
    reader.reader = some r → reader.args.range.size = some 0 →
    ∃ buf later, Read.read r = (.ok buf, later)

/-- The reader that an attempt at reading takes, if it is open or can be
opened. -/
def taken (s : ReadSession A R) (reader : RetryReader A R) : Option R :=
  match reader.reader with
  | some r => some r
  | none =>
      (ReadAccess.read s.service reader.path reader.args).1.toOption

/-- It returns no more than what is left of its range. -/
def Moderate (s : ReadSession A R) (attempt : ReadAttempt) : Prop :=
  ∀ i reader r size buf later, attempt = .reads i →
    s.readers[i]? = some reader → s.taken reader = some r →
    reader.args.range.size = some size → Read.read r = (.ok buf, later) →
    buf.len ≤ size

/-- What is asked of the readers of the service.  A debug build checks by
itself that no size is exceeded. -/
structure Behaves (debug : Bool) (s : ReadSession A R)
    (attempt : ReadAttempt) : Prop where
  endsWell : s.EndsWell attempt
  moderate : debug = false → s.Moderate attempt

/-- The same for one reader, as a test. -/
def behaves (debug : Bool) (s : ReadSession A R) (i : Nat) : Bool :=
  match s.readers[i]? with
  | none => true
  | some reader =>
      (match reader.reader with
        | none => true
        | some r =>
            reader.args.range.size != some 0 ||
              (Read.read r).1.toOption.isSome) &&
      (debug ||
        match s.taken reader, reader.args.range.size with
        | some r, some size =>
            (Read.read r).1.toOption.all fun buf => buf.len ≤ size
        | _, _ => true)

theorem behaves_iff (debug : Bool) (s : ReadSession A R) (i : Nat) :
    s.behaves debug i = true ↔ s.Behaves debug (.reads i) := by
  unfold behaves
  constructor
  · intro passed
    constructor
    · intro j reader r same chosen held empty
      cases same
      rw [chosen] at passed
      simp only [held, empty, bne_self_eq_false, Bool.false_or,
        Bool.and_eq_true] at passed
      rcases answered : Read.read r with ⟨_ | buf, later⟩
      · rw [answered] at passed
        cases passed.1
      · exact ⟨buf, later, rfl⟩
    · intro release j reader r size buf later same chosen takes sized returned
      cases same
      rw [chosen] at passed
      simp only [release, takes, sized, returned, Bool.false_or,
        Bool.and_eq_true] at passed
      simpa [Except.toOption] using passed.2
  · intro behaves
    split
    · rfl
    · next reader chosen =>
        rw [Bool.and_eq_true]
        constructor
        · split
          · rfl
          · next r held =>
              by_cases empty : reader.args.range.size = some 0
              · obtain ⟨buf, later, returned⟩ :=
                  behaves.endsWell i reader r rfl chosen held empty
                rw [returned]
                exact Bool.or_true _
              · rw [bne_iff_ne.mpr empty]
                rfl
        · cases debug with
          | true => rfl
          | false =>
              rw [Bool.false_or]
              split
              · next r size takes sized =>
                  rcases answered : Read.read r with ⟨_ | buf, later⟩
                  · rfl
                  · have fits := behaves.moderate rfl i reader r size buf
                      later rfl chosen takes sized answered
                    simpa [Except.toOption] using fits
              · rfl

instance (debug : Bool) (s : ReadSession A R) (attempt : ReadAttempt) :
    Decidable (s.Behaves debug attempt) :=
  match attempt with
  | .next => .isTrue
      ⟨(fun _ _ _ same => nomatch same),
        fun _ _ _ _ _ _ _ same => nomatch same⟩
  | .opens _ => .isTrue
      ⟨(fun _ _ _ same => nomatch same),
        fun _ _ _ _ _ _ _ same => nomatch same⟩
  | .reads i => decidable_of_iff (s.behaves debug i = true)
      (s.behaves_iff debug i)

/-! ## What is asked for -/

/-- A reader with nothing left to ask for is open, and all ranges end within
the bound. -/
structure Nonempty (debug : Bool) (s : ReadSession A R) : Prop where
  generator : ∀ remaining, s.generator.size = some remaining →
    remaining ≠ 0 →
    s.generator.offset + remaining ≤ BytesRange.bound debug
  opening : ∀ args ∈ s.opening,
    args.range.size ≠ some 0 ∧ args.range.EndsWithin debug
  readers : ∀ reader ∈ s.readers,
    (reader.reader = none → reader.args.range.size ≠ some 0) ∧
      reader.args.range.EndsWithin debug
  requests : ∀ args ∈ s.requests,
    args.range.size ≠ some 0 ∧ args.range.EndsWithin debug
  /-- No arithmetic is left unchecked where it would have to be checked. -/
  running : debug = false → s.panicked = false

omit [Read R] [ReadAccess A R] in
theorem nonempty_start {debug : Bool} (service : A) (ctx : ReadContext R)
    {range : BytesRange} (ends : range.EndsWithin debug) :
    (start service ctx range).Nonempty debug where
  generator := by
    intro remaining sized _
    exact ends remaining sized
  opening := by
    intro args member
    cases member
  readers := by
    intro reader member
    cases member
  requests := by
    intro args member
    cases member
  running := fun _ => rfl

end ReadSession

/-- A generator asks for nothing only when it has ended, and for nothing behind
its end. -/
theorem ReadGenerator.nextRange_nonempty {R : Type} {debug : Bool}
    {generator later : ReadGenerator R} {range : BytesRange}
    (ends : ∀ remaining, generator.size = some remaining → remaining ≠ 0 →
      generator.offset + remaining ≤ BytesRange.bound debug)
    (generated : generator.nextRange = (some range, later)) :
    (range.size ≠ some 0 ∧ range.EndsWithin debug) ∧
      ∀ remaining, later.size = some remaining → remaining ≠ 0 →
        later.offset + remaining ≤ BytesRange.bound debug := by
  unfold ReadGenerator.nextRange at generated
  split at generated
  · cases generated
  · next unfinished =>
      split at generated
      · cases generated
        refine ⟨⟨(fun same => nomatch same), fun _ same => nomatch same⟩, ?_⟩
        intro remaining sized filled
        cases sized
        exact absurd rfl filled
      · next remaining known =>
          have positive : 0 < remaining := by
            apply Nat.pos_of_ne_zero
            intro empty
            exact unfinished (known.trans (congrArg some empty))
          have whole := ends remaining known (Nat.pos_iff_ne_zero.mp positive)
          cases generated
          have spec := generator.readSize_spec positive
          refine ⟨⟨?_, ?_⟩, ?_⟩
          · intro empty
            have nothing : generator.readSize remaining = 0 :=
              Option.some.inj empty
            omega
          · intro size same
            cases same
            simp only
            omega
          · intro rest same _
            cases same
            simp only
            omega

namespace RetryReader

variable {A R : Type} [Read R] [ReadAccess A R]

theorem read_keeps {debug : Bool} {self later : RetryReader A R}
    {result : Except Error Buffer}
    (attempted : self.read = some (result, later)) :
    (later.reader ≠ none ∧ (self.args.range.EndsWithin debug →
        later.args.range.EndsWithin debug)) ∨
      (later.args = self.args ∧
        (self.reader = none ∨
          ∃ r err next, self.reader = some r ∧
            Read.read r = (.error err, next))) := by
  have taken : ∀ (opened : RetryReader A R) (r : R),
      opened.args = self.args → opened.readFrom r = some (result, later) →
      (later.reader ≠ none ∧ (self.args.range.EndsWithin debug →
          later.args.range.EndsWithin debug)) ∨
        (later.args = self.args ∧
          ∃ err next, Read.read r = (.error err, next)) := by
    intro opened r same took
    unfold readFrom at took
    split at took
    · next err next failed =>
        cases took
        exact .inr ⟨same, err, next, failed⟩
    · next buf next returned =>
        obtain ⟨range, advanced, equal⟩ := Option.map_eq_some_iff.mp took
        cases equal
        rw [same] at advanced
        exact .inl ⟨Option.some_ne_none next, fun ends =>
          ends.advance advanced⟩
  unfold read at attempted
  split at attempted
  · next closed =>
      split at attempted
      · cases attempted
        exact .inr ⟨rfl, .inl closed⟩
      · next r inner opened =>
          rcases taken { self with inner } r rfl attempted with
            isOpen | ⟨same, -⟩
          · exact .inl isOpen
          · exact .inr ⟨same, .inl closed⟩
  · next r isOpen =>
      rcases taken _ _ rfl attempted with still | ⟨same, err, next, failed⟩
      · exact .inl still
      · exact .inr ⟨same, .inr ⟨r, err, next, isOpen, failed⟩⟩

theorem exceeds_of_read {self : RetryReader A R} (panicked : self.read = none) :
    ∃ r buf later size,
      (match self.reader with
        | some r => some r
        | none => (ReadAccess.read self.inner self.path self.args).1.toOption) =
        some r ∧
      Read.read r = (.ok buf, later) ∧ self.args.range.size = some size ∧
      size < buf.len := by
  have taken : ∀ (opened : RetryReader A R) (r : R),
      opened.args = self.args → opened.readFrom r = none →
      ∃ buf later size, Read.read r = (.ok buf, later) ∧
        self.args.range.size = some size ∧ size < buf.len := by
    intro opened r same took
    unfold readFrom at took
    split at took
    · cases took
    · next buf next returned =>
        rw [Option.map_eq_none_iff, same, BytesRange.advance] at took
        split at took
        · next size sized =>
            rw [Option.map_eq_none_iff, checkedSub] at took
            split at took
            · cases took
            · next short =>
                exact ⟨buf, next, size, returned, sized,
                  Nat.lt_of_not_le short⟩
        · cases took
  unfold read at panicked
  split at panicked
  · next closed =>
      split at panicked
      · cases panicked
      · next r inner opened =>
          obtain ⟨buf, later, size, found⟩ :=
            taken { self with inner } r rfl panicked
          exact ⟨r, buf, later, size, by rw [closed, opened]; rfl, found⟩
  · next r isOpen =>
      obtain ⟨buf, later, size, found⟩ := taken _ r rfl panicked
      exact ⟨r, buf, later, size, by rw [isOpen], found⟩

end RetryReader

namespace ReadSession

variable {A R : Type} [Read R] [ReadAccess A R] {debug : Bool}
  {s later : ReadSession A R} {i : Nat}

omit [Read R] [ReadAccess A R] in
theorem Nonempty.next (nonempty : s.Nonempty debug) :
    s.next.Nonempty debug := by
  unfold ReadSession.next
  split
  · next generator ended =>
      have same : generator = s.generator := by
        unfold ReadGenerator.nextRange at ended
        split at ended
        · cases ended
          rfl
        · split at ended <;> cases ended
      subst same
      exact ⟨nonempty.generator, nonempty.opening, nonempty.readers,
        nonempty.requests, nonempty.running⟩
  · next range generator generated =>
      obtain ⟨wanted, ends⟩ :=
        ReadGenerator.nextRange_nonempty nonempty.generator generated
      refine ⟨ends, ?_, nonempty.readers, nonempty.requests,
        nonempty.running⟩
      intro args member
      rcases List.mem_append.mp member with old | new
      · exact nonempty.opening args old
      · rw [List.mem_singleton.mp new]
        exact wanted

omit [Read R] in
theorem Nonempty.openReader (nonempty : s.Nonempty debug)
    (stepped : s.openReader i = some later) : later.Nonempty debug := by
  unfold ReadSession.openReader at stepped
  split at stepped
  · cases stepped
  · next args chosen =>
      have wanted := nonempty.opening args (List.mem_of_getElem? chosen)
      have requests : ∀ other ∈ s.requests ++ [args],
          other.range.size ≠ some 0 ∧ other.range.EndsWithin debug := by
        intro other member
        rcases List.mem_append.mp member with old | new
        · exact nonempty.requests other old
        · rw [List.mem_singleton.mp new]
          exact wanted
      simp only at stepped
      split at stepped
      · cases stepped
        exact ⟨nonempty.generator, nonempty.opening, nonempty.readers,
          requests, nonempty.running⟩
      · next reader service answered =>
          cases stepped
          refine ⟨nonempty.generator, ?_, ?_, requests, nonempty.running⟩
          · intro other member
            exact nonempty.opening other (List.mem_of_mem_eraseIdx member)
          · intro other member
            rcases List.mem_append.mp member with old | new
            · exact nonempty.readers other old
            · rw [List.mem_singleton.mp new]
              exact ⟨(fun closed => nomatch closed), wanted.2⟩

/-- The attempt asks for what is left only if the reader had to be opened, and
leaves it closed only if something is left. -/
theorem Nonempty.readReader (nonempty : s.Nonempty debug)
    (behaves : s.Behaves debug (.reads i))
    (stepped : s.readReader i = some later) : later.Nonempty debug := by
  unfold ReadSession.readReader at stepped
  split at stepped
  · cases stepped
  · next reader chosen =>
      have kept := nonempty.readers reader (List.mem_of_getElem? chosen)
      have requests : ∀ args ∈ s.requests ++ reader.asked,
          args.range.size ≠ some 0 ∧ args.range.EndsWithin debug := by
        intro args member
        rcases List.mem_append.mp member with old | new
        · exact nonempty.requests args old
        · unfold RetryReader.asked at new
          split at new
          · next closed =>
              rw [List.mem_singleton.mp new]
              exact ⟨kept.1 closed, kept.2⟩
          · cases new
      simp only at stepped
      split at stepped
      · next panicked =>
          cases stepped
          refine ⟨nonempty.generator, nonempty.opening, nonempty.readers,
            requests, ?_⟩
          intro release
          obtain ⟨r, buf, after, size, takes, returned, sized, exceeds⟩ :=
            RetryReader.exceeds_of_read panicked
          have fits := behaves.moderate release i reader r size buf after rfl
            chosen takes sized returned
          omega
      · next result final attempted =>
          cases stepped
          refine ⟨nonempty.generator, nonempty.opening, ?_, requests,
            nonempty.running⟩
          intro other member
          rcases List.mem_or_eq_of_mem_set member with old | rfl
          · exact nonempty.readers other old
          · rcases RetryReader.read_keeps attempted with
              ⟨isOpen, ends⟩ | ⟨same, unread | ⟨r, err, next, held, failed⟩⟩
            · exact ⟨fun closed => absurd closed isOpen, ends kept.2⟩
            · rw [same]
              exact ⟨fun _ => kept.1 unread, kept.2⟩
            · rw [same]
              refine ⟨fun _ empty => ?_, kept.2⟩
              obtain ⟨buf, after, returned⟩ :=
                behaves.endsWell i reader r rfl chosen held empty
              cases failed.symm.trans returned

theorem Nonempty.step (nonempty : s.Nonempty debug) {attempt : ReadAttempt}
    (behaves : s.Behaves debug attempt)
    (stepped : s.step attempt = some later) : later.Nonempty debug := by
  unfold ReadSession.step at stepped
  split at stepped
  · cases stepped
  · cases attempt with
    | next =>
        cases stepped
        exact nonempty.next
    | opens i => exact nonempty.openReader stepped
    | reads i => exact nonempty.readReader behaves stepped

/-! ## Retried calls are runs -/

theorem step_reads {context after reader : RetryReader A R}
    {answer : Except Error Buffer}
    (attempted : RetryReader.read context = some (answer, after))
    (running : s.panicked = false) (chosen : s.readers[i]? = some reader)
    (shared : context = { reader with inner := s.service }) :
    ∃ later, s.step (.reads i) = some later ∧ later.panicked = false ∧
      later.service = after.inner ∧ later.readers[i]? = some after := by
  obtain ⟨inside, -⟩ := List.getElem?_eq_some_iff.mp chosen
  have awake : ¬ s.panicked = true := by
    rw [running]
    exact Bool.false_ne_true
  rw [shared] at attempted
  rw [step, if_neg awake]
  simp only [ReadSession.readReader, chosen, attempted]
  refine ⟨_, rfl, running, rfl, ?_⟩
  exact List.getElem?_set_self inside

theorem read_runs {context : RetryReader A R}
    {outcome : Option (Except Error Buffer × RetryReader A R)}
    (retried : Retried RetryReader.read context outcome)
    {result : Except Error Buffer} {last reader : RetryReader A R}
    (returned : outcome = some (result, last)) (running : s.panicked = false)
    (chosen : s.readers[i]? = some reader)
    (shared : context = { reader with inner := s.service }) :
    ∃ attempts finish, (∀ attempt ∈ attempts, attempt = .reads i) ∧
      Automaton.run step s attempts = some finish ∧
      finish.service = last.inner ∧ finish.readers[i]? = some last := by
  induction retried generalizing s reader with
  | last context =>
      obtain ⟨later, stepped, -, service, found⟩ :=
        step_reads returned running chosen shared
      refine ⟨[.reads i], later, ?_, ?_, service, found⟩
      · intro attempt member
        exact List.mem_singleton.mp member
      · rw [Automaton.run_cons_eq_some_iff]
        exact ⟨later, stepped, Automaton.run_nil _ _⟩
  | @again context after err outcome failed temporary retried induction =>
      obtain ⟨later, stepped, awake, service, found⟩ :=
        step_reads failed running chosen shared
      have same : after = { after with inner := later.service } := by
        rw [service]
      obtain ⟨attempts, finish, only, ran, ends⟩ :=
        induction returned awake found same
      refine ⟨.reads i :: attempts, finish, ?_, ?_, ends⟩
      · intro attempt member
        rcases List.mem_cons.mp member with rfl | rest
        · rfl
        · exact only attempt rest
      · rw [Automaton.run_cons_eq_some_iff]
        exact ⟨later, stepped, ran⟩

/-- What `RetryWrapper::read` does is a run of attempts. -/
theorem wrapped_read_runs {B : Type} [Backoff B] [LawfulBackoff B]
    {wrapper after : RetryWrapper (RetryReader A R) B}
    {result : Except Error Buffer} {reader : RetryReader A R}
    (read : wrapper.read = some (result, after)) (running : s.panicked = false)
    (chosen : s.readers[i]? = some reader)
    (shared : wrapper.inner = some { reader with inner := s.service }) :
    ∃ attempts finish last, (∀ attempt ∈ attempts, attempt = .reads i) ∧
      Automaton.run step s attempts = some finish ∧
      after.inner = some last ∧ finish.service = last.inner ∧
      finish.readers[i]? = some last := by
  unfold RetryWrapper.read RetryWrapper.retryWith RetryWrapper.takeInner at read
  rw [shared] at read
  obtain ⟨⟨answer, last⟩, outcome, equal⟩ := Option.map_eq_some_iff.mp read
  cases equal
  have retried := LawfulBackoff.retried wrapper.builder RetryReader.read
    { reader with inner := s.service }
  obtain ⟨attempts, finish, only, ran, service, found⟩ :=
    read_runs retried outcome running chosen rfl
  exact ⟨attempts, finish, last, only, ran, rfl, service, found⟩

theorem step_opens {args : OpRead} {answer : Except Error R} {service : A}
    (opened : ReadAccess.read s.service s.generator.ctx.path args =
      (answer, service))
    (running : s.panicked = false) (chosen : s.opening[i]? = some args) :
    ∃ later, s.step (.opens i) = some later ∧ later.service = service ∧
      later.panicked = false ∧ later.generator = s.generator ∧
      (∀ err, answer = .error err → later.opening = s.opening ∧
        later.readers = s.readers) ∧
      ∀ r, answer = .ok r → later.readers =
        s.readers ++ [.new service s.generator.ctx.path args r] := by
  have awake : ¬ s.panicked = true := by
    rw [running]
    exact Bool.false_ne_true
  rw [step, if_neg awake]
  simp only [ReadSession.openReader, chosen, opened]
  cases answer with
  | error err =>
      refine ⟨_, rfl, rfl, running, rfl, ?_, ?_⟩
      · intro _ _
        exact ⟨rfl, rfl⟩
      · intro r same
        cases same
  | ok r =>
      refine ⟨_, rfl, rfl, running, rfl, ?_, ?_⟩
      · intro err same
        cases same
      · intro other same
        cases same
        rfl

theorem open_runs {args : OpRead} {path : String} {context : A}
    {outcome : Option (Except Error R × A)}
    (retried : Retried (fun inner => some (ReadAccess.read inner path args))
      context outcome)
    {answer : Except Error R} {service : A}
    (returned : outcome = some (answer, service))
    (running : s.panicked = false) (chosen : s.opening[i]? = some args)
    (samePath : path = s.generator.ctx.path) (shared : context = s.service) :
    ∃ attempts finish, (∀ attempt ∈ attempts, attempt = .opens i) ∧
      Automaton.run step s attempts = some finish ∧
      finish.service = service ∧
      ∀ r, answer = .ok r →
        finish.readers = s.readers ++ [.new service path args r] := by
  induction retried generalizing s with
  | last context =>
      have opened := Option.some.inj returned
      rw [shared, samePath] at opened
      obtain ⟨later, stepped, same, -, -, -, readers⟩ :=
        step_opens opened running chosen
      refine ⟨[.opens i], later, ?_, ?_, same, ?_⟩
      · intro attempt member
        exact List.mem_singleton.mp member
      · rw [Automaton.run_cons_eq_some_iff]
        exact ⟨later, stepped, Automaton.run_nil _ _⟩
      · intro r ok
        rw [samePath]
        exact readers r ok
  | @again context after err outcome failed temporary retried induction =>
      have opened := Option.some.inj failed
      rw [shared, samePath] at opened
      obtain ⟨later, stepped, same, awake, generator, unchanged, -⟩ :=
        step_opens opened running chosen
      obtain ⟨opening, readers⟩ := unchanged err rfl
      obtain ⟨attempts, finish, only, ran, ends, found⟩ := induction returned
        awake (opening ▸ chosen) (generator ▸ samePath) same.symm
      refine ⟨.opens i :: attempts, finish, ?_, ?_, ends, ?_⟩
      · intro attempt member
        rcases List.mem_cons.mp member with rfl | rest
        · rfl
        · exact only attempt rest
      · rw [Automaton.run_cons_eq_some_iff]
        exact ⟨later, stepped, ran⟩
      · rw [readers] at found
        exact found

end ReadSession

/-- A range of `u64` that is not empty and ends within the bound.  In a run in
which no reader fails with all of its range returned, nor returns more than
that where this is not checked, every request is for something, and its header
can be written. -/
theorem requests_are_nonempty {A R : Type} [Read R] [ReadAccess A R]
    (debug : Bool) (service : A) (ctx : ReadContext R) (range : BytesRange)
    (ends : range.EndsWithin debug) {events : List ReadAttempt}
    {finish : ReadSession A R}
    (behaves : Automaton.Along ReadSession.step (ReadSession.Behaves debug)
      (.start service ctx range) events)
    (ran : Automaton.run ReadSession.step (.start service ctx range) events =
      some finish) :
    (debug = false → finish.panicked = false) ∧
      ∀ args ∈ finish.requests,
        args.range.size ≠ some 0 ∧ args.range.Ordered debug := by
  have nonempty : finish.Nonempty debug := Automaton.run_invariant_along
    (fun kept allowed stepped => kept.step allowed stepped)
    (ReadSession.nonempty_start service ctx ends) behaves ran
  refine ⟨nonempty.running, ?_⟩
  intro args member
  obtain ⟨wanted, within⟩ := nonempty.requests args member
  exact ⟨wanted, BytesRange.ordered_of_endsWithin wanted within⟩

namespace FlakyService

/-- A read of everything from a service with one temporary failure. -/
def session (content : Bytes) (plans : List (Option Nat)) :
    ReadSession (FlakyService content) ScriptedReader :=
  .start ⟨plans⟩ (.new (bytewiseAccessor content) "f" ⟨⟨0, none⟩, none⟩ .new)
    ⟨0, some content.length⟩

end FlakyService

open FlakyService

/-- The reader fails behind the first of two bytes. -/
theorem requests_are_nonempty_halfway :
    ∃ finish, Automaton.run ReadSession.step (session [7, 8] [some 1])
        [.next, .opens 0, .reads 0, .reads 0, .reads 0] = some finish ∧
      finish.requests.map (·.range) = [⟨0, some 2⟩, ⟨1, some 1⟩] ∧
      finish.panicked = false ∧
      ∀ args ∈ finish.requests,
        args.range.size ≠ some 0 ∧ args.range.Ordered false := by
  have ranges : (Automaton.run ReadSession.step (session [7, 8] [some 1])
      [.next, .opens 0, .reads 0, .reads 0, .reads 0]).map
        (fun finish => finish.requests.map (·.range)) =
      some [⟨0, some 2⟩, ⟨1, some 1⟩] := by
    decide
  obtain ⟨finish, ran, asked⟩ := Option.map_eq_some_iff.mp ranges
  have ends : (⟨0, some 2⟩ : BytesRange).EndsWithin false := by
    intro size same
    cases same
    decide
  have nonempty :=
    requests_are_nonempty false _ _ _ ends (by decide) ran
  exact ⟨finish, ran, asked, nonempty.1 rfl, nonempty.2⟩

/-- The reader fails behind the only byte, and is opened again for the range
from 1 to 0. -/
theorem requests_are_empty_behind :
    ¬ ∀ (content : Bytes) (plans : List (Option Nat))
      (events : List ReadAttempt)
      (finish : ReadSession (FlakyService content) ScriptedReader),
      1 ≤ content.length →
      Automaton.run ReadSession.step (session content plans) events =
        some finish →
      ∀ args ∈ finish.requests,
        args.range.size ≠ some 0 ∧ args.range.Ordered false := by
  intro always
  have ranges : (Automaton.run ReadSession.step (session [7] [some 1])
      [.next, .opens 0, .reads 0, .reads 0, .reads 0]).map
        (fun finish => finish.requests.map (·.range)) =
      some [⟨0, some 1⟩, ⟨1, some 0⟩] := by
    decide
  obtain ⟨finish, ran, asked⟩ := Option.map_eq_some_iff.mp ranges
  have member : (⟨1, some 0⟩ : BytesRange) ∈
      finish.requests.map (·.range) := by
    rw [asked]
    exact List.mem_cons_of_mem _ List.mem_cons_self
  obtain ⟨args, requested, same⟩ := List.mem_map.mp member
  have wanted := (always _ _ _ finish (Nat.le_refl 1) ran args requested).1
  rw [same] at wanted
  exact wanted rfl

end OpenDal
