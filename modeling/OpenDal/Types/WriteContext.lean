import OpenDal.Types.WriteGenerator

/-!
# `WriteContext`: the size of the chunks

The option of the user and the two limits of the service make the chunk size.
It is exact when the user has set it.  Otherwise the least size of the service
takes its place, and a buffer that reaches it goes out whole.
-/

namespace OpenDal

/-- What the chunk size is calculated from. -/
structure WriteContext where
  chunk : Option Nat
  writeMultiMinSize : Option Nat
  writeMultiMaxSize : Option Nat
deriving DecidableEq

namespace WriteContext

/-- The chunk size, and whether it is exact. -/
def calculateChunkSize (ctx : WriteContext) : Option Nat × Bool :=
  let exact := ctx.chunk.isSome
  let chunkSize := (ctx.chunk.or ctx.writeMultiMinSize).map fun size =>
    let size := match ctx.writeMultiMaxSize with
      | some v => min size v
      | none => size
    match ctx.writeMultiMinSize with
      | some v => max size v
      | none => size
  (chunkSize, exact)

/-- `WriteGenerator::create` and `blocking_create`, over a writer of the
service that never fails. -/
def create (ctx : WriteContext) : WriteGenerator :=
  let (chunkSize, exact) := ctx.calculateChunkSize
  .new .infallible chunkSize exact

/-- The chunk that the user has set is brought down to nothing. -/
def EmptyChunks (ctx : WriteContext) : Prop :=
  (ctx.chunk = some 0 ∨
    ctx.chunk.isSome = true ∧ ctx.writeMultiMaxSize = some 0) ∧
  (ctx.writeMultiMinSize = none ∨ ctx.writeMultiMinSize = some 0)

instance (ctx : WriteContext) : Decidable ctx.EmptyChunks :=
  inferInstanceAs (Decidable (_ ∧ _))

theorem stuck_iff (ctx : WriteContext) :
    WriteGenerator.Stuck ctx.calculateChunkSize.1 ctx.calculateChunkSize.2 ↔
      ctx.EmptyChunks := by
  obtain ⟨chunk, least, most⟩ := ctx
  unfold WriteGenerator.Stuck EmptyChunks calculateChunkSize
  cases chunk with
  | none => simp
  | some chunk =>
      cases least with
      | none =>
          cases most with
          | none => simp
          | some most => simp
      | some least =>
          cases most with
          | none => simp
          | some most => simp

/-! ## Termination -/

/-- The writes and the close end, and the service gets no empty buffer unless
the user has written one. -/
def Terminates (ctx : WriteContext) (inputs : List Buffer) : Prop :=
  ∃ fuel closed, ∃ written : List Buffer,
    Writer.writeAllAndClose fuel ctx.create inputs = some (.ok (), closed) ∧
    closed.w.calls = written.map .write ++ [.close] ∧
    ((∃ bs ∈ written, bs.isEmpty = true) → ∃ bs ∈ inputs, bs.isEmpty = true)

end WriteContext

namespace Writer

open WriteGenerator

variable {chunkSize : Option Nat} {exact : Bool} {accepted : Bytes}
  {writes : List Buffer} {inner : WriteGenerator}

/-- The generator accepts nothing of the buffer, as often as it is handed to
it. -/
theorem write_stuck (stuck : Stuck chunkSize exact)
    (consistent : Consistent chunkSize exact accepted writes inner)
    {bs : Buffer} (nonempty : 0 < bs.len) (fuel : Nat) :
    write fuel inner bs = none := by
  induction fuel generalizing inner accepted writes bs with
  | zero => rfl
  | succ fuel induction =>
      obtain ⟨n, later, written, result, bound, progress, _, kept⟩ :=
        consistent.accepts bs
      have nothing : n = 0 := by
        by_contra something
        exact (progress nonempty).mp (Nat.pos_of_ne_zero something) stuck
      obtain ⟨rest, advanced, restBytes⟩ := Buffer.advance_spec bound
      have same : rest.len = bs.len := by
        rw [← Buffer.length_bytes, restBytes, nothing, List.drop_zero,
          Buffer.length_bytes]
      have again := induction kept (same ▸ nonempty)
      have filled : ¬ bs.isEmpty = true := by
        rw [Buffer.isEmpty_iff, ← List.length_eq_zero_iff,
          Buffer.length_bytes]
        omega
      simp only [write, filled, result, advanced, again,
        Option.bind_eq_bind, Option.bind_some]
      rfl

theorem writeAll_empty {inputs : List Buffer}
    (empty : ∀ bs ∈ inputs, bs.isEmpty = true) (fuel : Nat) :
    writeAll (fuel + 1) inner inputs = some (.ok (), inner) := by
  induction inputs with
  | nil => rfl
  | cons bs inputs induction =>
      have rest := induction fun bs member => empty bs (by simp [member])
      simpa [writeAll, write, empty bs (by simp)] using rest

theorem writeAll_stuck (stuck : Stuck chunkSize exact)
    (consistent : Consistent chunkSize exact accepted writes inner)
    {inputs : List Buffer} (nonempty : ∃ bs ∈ inputs, bs.isEmpty = false)
    (fuel : Nat) :
    writeAll fuel inner inputs = none := by
  induction inputs with
  | nil => simp at nonempty
  | cons bs inputs induction =>
      by_cases empty : bs.isEmpty = true
      · have later : ∃ bs ∈ inputs, bs.isEmpty = false := by
          simpa [empty] using nonempty
        cases fuel with
        | zero => rfl
        | succ fuel =>
            simp only [writeAll, write, empty, if_true, Option.bind_eq_bind,
              Option.bind_some]
            exact induction later
      · have filled : 0 < bs.len := Buffer.len_pos (by simpa using empty)
        simp [writeAll, write_stuck stuck consistent filled]

end Writer

namespace WriteContext

open Writer

theorem not_terminates {ctx : WriteContext} {inputs : List Buffer}
    (emptied : ctx.EmptyChunks)
    (nonempty : ∃ bs ∈ inputs, bs.isEmpty = false) :
    ¬ ctx.Terminates inputs := by
  intro terminates
  obtain ⟨fuel, closed, written, finished, _⟩ := terminates
  have never := writeAll_stuck (ctx.stuck_iff.mpr emptied)
    (WriteGenerator.consistent_new _ _) nonempty fuel
  simp only [writeAllAndClose, create, never] at finished
  cases finished

/-- Every sequence of writes and the close end, and hand over no empty buffer
but the user's, exactly when there is nothing to write or the chunks are not
empty. -/
theorem terminates_iff (ctx : WriteContext) (inputs : List Buffer) :
    ctx.Terminates inputs ↔
      (∀ bs ∈ inputs, bs.isEmpty = true) ∨ ¬ ctx.EmptyChunks := by
  constructor
  · intro terminates
    by_contra endless
    obtain ⟨filled, emptied⟩ := not_or.mp endless
    have nonempty : ∃ bs ∈ inputs, bs.isEmpty = false := by
      simpa using filled
    exact not_terminates (not_not.mp emptied) nonempty terminates
  · intro condition
    by_cases emptied : ctx.EmptyChunks
    · -- Nothing is handed to the generator, and nothing is queued.
      have nothing := condition.resolve_right (not_not.mpr emptied)
      obtain ⟨closed, written, finished, calls, _, lasts, _⟩ :=
        (WriteGenerator.consistent_new ctx.calculateChunkSize.1
          ctx.calculateChunkSize.2).close 0
      refine ⟨2, closed, written, ?_, calls, ?_⟩
      · simp only [writeAllAndClose, create, writeAll_empty nothing,
          Option.bind_eq_bind, Option.bind_some]
        exact finished
      · rintro ⟨bs, member, _⟩
        rcases lasts bs member with impossible | ⟨some, same⟩
        · cases impossible
        · rw [same] at some
          cases some
    · have free := mt ctx.stuck_iff.mp emptied
      obtain ⟨fuel, later, closed, writes, written, finished, calls, _, _,
        filled, lasts, _⟩ := writeAllAndClose_spec free inputs
      refine ⟨fuel, closed, written, finished, calls, ?_⟩
      rintro ⟨bs, member, empty⟩
      have none := (Buffer.isEmpty_iff bs).mp empty
      have some : 0 < bs.len := by
        rcases lasts bs member with earlier | ⟨some, _⟩
        · exact filled bs earlier
        · exact some
      rw [← Buffer.length_bytes, none] at some
      cases some

/-- Three bytes in chunks that the service makes larger than none. -/
theorem terminates_iff_raised :
    (WriteContext.mk (some 0) (some 2) none).Terminates
      [.fromBytes [1, 2, 3], .new] :=
  (terminates_iff ⟨some 0, some 2, none⟩ _).mpr (.inr (by decide))

/-- One byte in chunks of none. -/
theorem terminates_fails :
    ¬ (∀ (ctx : WriteContext) inputs, ctx.Terminates inputs) := by
  intro claimed
  have emptied : (WriteContext.mk (some 0) none none).EmptyChunks := by decide
  have nonempty : ∃ bs ∈ [Buffer.fromBytes [1]], bs.isEmpty = false :=
    ⟨.fromBytes [1], by simp, rfl⟩
  exact not_terminates emptied nonempty (claimed _ _)

/-! ## The limits of the service -/

/-- The service gets no buffer above `most`, and none but the last below
`least`. -/
def KeepsLimits (ctx : WriteContext) (least most : Nat)
    (inputs : List Buffer) : Prop :=
  ∃ fuel closed, ∃ written : List Buffer,
    Writer.writeAllAndClose fuel ctx.create inputs = some (.ok (), closed) ∧
    closed.w.calls = written.map .write ++ [.close] ∧
    (∀ bs ∈ written, bs.len ≤ most) ∧
    ∀ bs ∈ written.dropLast, least ≤ bs.len

/-- Together with the bytes that wait for more, no size exceeds `most`.  They
wait until there are `least` of them. -/
def WithinLimit (least most : Nat) : Nat → List Nat → Prop
  | _, [] => True
  | queued, size :: sizes => queued + size ≤ most ∧
      WithinLimit least most
        (if queued + size < least then queued + size else 0) sizes

instance decidableWithinLimit (least most : Nat) :
    (queued : Nat) → (sizes : List Nat) →
      Decidable (WithinLimit least most queued sizes)
  | _, [] => .isTrue trivial
  | queued, size :: sizes =>
      have := decidableWithinLimit least most
        (if queued + size < least then queued + size else 0) sizes
      inferInstanceAs (Decidable (_ ∧ _))

end WriteContext

namespace Writer

open WriteGenerator WriteContext

variable {accepted : Bytes} {writes : List Buffer} {inner : WriteGenerator}

theorem write_inexact {size : Nat}
    (consistent : Consistent (some size) false accepted writes inner)
    (waiting : inner.buffer.len < size) (bs : Buffer) (fuel : Nat) :
    ∃ later, write (fuel + 2) inner bs = some (.ok (), later) ∧
      (inner.buffer.len + bs.len < size ∧
          later.buffer.len = inner.buffer.len + bs.len ∧
          Consistent (some size) false (accepted ++ bs.bytes) writes later ∨
        size ≤ inner.buffer.len + bs.len ∧ later.buffer.len = 0 ∧
          ∃ handed, handed.len = inner.buffer.len + bs.len ∧
            Consistent (some size) false (accepted ++ bs.bytes)
              (writes ++ [handed]) later) := by
  by_cases empty : bs.isEmpty = true
  · have none := (Buffer.isEmpty_iff bs).mp empty
    have zero : bs.len = 0 := by
      rw [← Buffer.length_bytes, none, List.length_nil]
    refine ⟨inner, by simp [write, empty], .inl ⟨?_, ?_, ?_⟩⟩
    · rw [zero]
      exact waiting
    · rw [zero, Nat.add_zero]
    · rw [none, List.append_nil]
      exact consistent
  · obtain ⟨later, result, kept⟩ := consistent.write_inexact bs
    obtain ⟨rest, advanced, restBytes⟩ :=
      Buffer.advance_spec (Nat.le_refl bs.len)
    have done : rest.isEmpty = true := by
      rw [Buffer.isEmpty_iff, restBytes]
      exact List.drop_eq_nil_of_le (by simp)
    refine ⟨later, ?_, kept⟩
    simp [write, empty, result, advanced, done]

/-- Every buffer that goes out keeps the upper limit exactly when the sizes
that are written do. -/
theorem writeAll_inexact {least most : Nat} (positive : 1 ≤ least)
    (ordered : least ≤ most) (inputs : List Buffer)
    (consistent : Consistent (some least) false accepted writes inner)
    (waiting : inner.buffer.len < least) (fuel : Nat) :
    ∃ later written, writeAll (fuel + 2) inner inputs =
        some (.ok (), later) ∧
      Consistent (some least) false (accepted ++ inputs.flatMap Buffer.bytes)
        written later ∧
      later.buffer.len < least ∧
      ((∀ bs ∈ written, bs.len ≤ most) ↔
        (∀ bs ∈ writes, bs.len ≤ most) ∧
          WithinLimit least most inner.buffer.len
            (inputs.map Buffer.len)) := by
  induction inputs generalizing inner accepted writes with
  | nil =>
      refine ⟨inner, writes, rfl, by simpa using consistent, waiting, ?_⟩
      simp [WithinLimit]
  | cons bs inputs induction =>
      obtain ⟨next, result, ⟨small, queued, kept⟩ |
          ⟨large, queued, handed, len, kept⟩⟩ :=
        write_inexact consistent waiting bs fuel
      · obtain ⟨later, written, rest, finished, left, limited⟩ :=
          induction kept (queued ▸ small)
        refine ⟨later, written, by simp [writeAll, result, rest],
          by simpa using finished, left, ?_⟩
        have fits : inner.buffer.len + bs.len ≤ most := by omega
        simp [limited, WithinLimit, small, queued, fits]
      · obtain ⟨later, written, rest, finished, left, limited⟩ :=
          induction kept (by omega)
        refine ⟨later, written, by simp [writeAll, result, rest],
          by simpa using finished, left, ?_⟩
        have out : ¬ inner.buffer.len + bs.len < least := Nat.not_lt.mpr large
        simp only [limited, queued, List.mem_append,
          List.mem_singleton, List.map_cons, WithinLimit, out, if_false]
        rw [← len]
        constructor
        · rintro ⟨each, later⟩
          exact ⟨fun bs member => each bs (.inl member),
            each handed (.inr rfl), later⟩
        · rintro ⟨each, last, later⟩
          refine ⟨?_, later⟩
          rintro bs (member | rfl)
          · exact each bs member
          · exact last

/-! ### More iterations change nothing -/

section

variable {bs : Buffer} {inputs : List Buffer} {fuel : Nat}
  {result : Except Error Unit × WriteGenerator}

theorem write_succ (ran : write fuel inner bs = some result) :
    write (fuel + 1) inner bs = some result := by
  induction fuel generalizing inner bs with
  | zero => cases ran
  | succ fuel induction =>
      rw [write] at ran ⊢
      split at ran
      · rename_i empty
        rw [if_pos empty]
        exact ran
      · rename_i filled
        rw [if_neg filled]
        split at ran
        · exact ran
        · obtain ⟨rest, advanced, wrote⟩ := Option.bind_eq_some_iff.mp ran
          exact Option.bind_eq_some_iff.mpr
            ⟨rest, advanced, induction wrote⟩

theorem writeAll_succ (ran : writeAll fuel inner inputs = some result) :
    writeAll (fuel + 1) inner inputs = some result := by
  induction inputs generalizing inner with
  | nil => exact ran
  | cons bs inputs induction =>
      obtain ⟨answer, wrote, rest⟩ := Option.bind_eq_some_iff.mp ran
      apply Option.bind_eq_some_iff.mpr
      refine ⟨answer, write_succ wrote, ?_⟩
      split at rest
      · exact rest
      · exact induction rest

theorem close_succ (ran : inner.close fuel = some result) :
    inner.close (fuel + 1) = some result := by
  induction fuel generalizing inner with
  | zero => cases ran
  | succ fuel induction =>
      rw [WriteGenerator.close] at ran ⊢
      split at ran
      · rename_i empty
        rw [if_pos empty]
        exact ran
      · rename_i filled
        rw [if_neg filled]
        split at ran
        · exact ran
        · exact induction ran

theorem writeAllAndClose_succ
    (ran : writeAllAndClose fuel inner inputs = some result) :
    writeAllAndClose (fuel + 1) inner inputs = some result := by
  obtain ⟨answer, wrote, rest⟩ := Option.bind_eq_some_iff.mp ran
  apply Option.bind_eq_some_iff.mpr
  refine ⟨answer, writeAll_succ wrote, ?_⟩
  split at rest
  · exact rest
  · exact close_succ rest

end

end Writer

namespace WriteContext

open Writer

/-- Exact chunks have a size between the limits. -/
theorem keepsLimits_exact {ctx : WriteContext} {size least most : Nat}
    (calculated : ctx.calculateChunkSize = (some size, true))
    (positive : 1 ≤ size) (lower : least ≤ size) (upper : size ≤ most)
    (inputs : List Buffer) :
    ctx.KeepsLimits least most inputs := by
  have free : ¬ WriteGenerator.Stuck (some size) true := by
    simp [WriteGenerator.Stuck]
    omega
  obtain ⟨fuel, later, closed, writes, written, finished, calls, _, kept, _,
    lasts, firsts⟩ := writeAllAndClose_spec free inputs
  have exactly : ∀ bs ∈ writes, bs.len = size :=
    fun bs member => kept.full bs member size rfl
  refine ⟨fuel, closed, written, ?_, calls, ?_, ?_⟩
  · rw [create, calculated]
    exact finished
  · intro bs member
    rcases lasts bs member with earlier | ⟨_, queued⟩
    · exact (exactly bs earlier).trans_le upper
    · rw [queued]
      exact (kept.bounded size rfl rfl).trans upper
  · intro bs member
    rw [exactly bs (firsts bs member)]
    exact lower

/-- What is left in the queue is closed within the limits. -/
theorem keepsLimits_inexact {ctx : WriteContext} {least most : Nat}
    (calculated : ctx.calculateChunkSize = (some least, false))
    (positive : 1 ≤ least) (ordered : least ≤ most) (inputs : List Buffer) :
    ctx.KeepsLimits least most inputs ↔
      WithinLimit least most 0 (inputs.map Buffer.len) := by
  -- Any number of iterations that is enough leads to one run.
  have runs : ∀ fuel, ∃ closed, ∃ written : List Buffer,
      writeAllAndClose (fuel + 2) ctx.create inputs =
        some (.ok (), closed) ∧
      closed.w.calls = written.map .write ++ [.close] ∧
      (∀ bs ∈ written.dropLast, least ≤ bs.len) ∧
      ((∀ bs ∈ written, bs.len ≤ most) ↔
        WithinLimit least most 0 (inputs.map Buffer.len)) := by
    intro fuel
    obtain ⟨later, writes, wrote, kept, left, limited⟩ :=
      writeAll_inexact positive ordered inputs
        (WriteGenerator.consistent_new (some least) false) positive fuel
    obtain ⟨closed, written, finished, calls, _, lasts, firsts, earlier⟩ :=
      kept.close fuel
    refine ⟨closed, written, ?_, calls, ?_, ?_⟩
    · simp [writeAllAndClose, create, calculated, wrote, finished]
    · intro bs member
      exact kept.full bs (firsts bs member) least rfl
    · have nothing : ∀ bs ∈ ([] : List Buffer), bs.len ≤ most := by simp
      rw [and_iff_right nothing] at limited
      rw [← show (WriteGenerator.new .infallible (some least)
        false).buffer.len = 0 from rfl, ← limited]
      constructor
      · intro upper bs member
        exact upper bs (earlier bs member)
      · intro upper bs member
        rcases lasts bs member with earlier | ⟨_, queued⟩
        · exact upper bs earlier
        · omega
  constructor
  · intro keeps
    obtain ⟨fuel, closed, written, finished, calls, upper, _⟩ := keeps
    obtain ⟨other, wrote, again, sameCalls, _, limited⟩ := runs fuel
    cases again.symm.trans
      (writeAllAndClose_succ (writeAllAndClose_succ finished))
    have same : wrote = written := by
      rw [calls, List.append_cancel_right_eq] at sameCalls
      have injective : Function.Injective WriterCall.write := by
        intro bs other equal
        cases equal
        rfl
      exact (List.map_injective_iff.mpr injective sameCalls).symm
    rw [← limited, same]
    exact upper
  · intro within
    obtain ⟨closed, written, finished, calls, lower, limited⟩ := runs 0
    exact ⟨2, closed, written, finished, calls, limited.mpr within, lower⟩

/-- For limits that a service can have: they are kept exactly when the user
has set a chunk, or writes no buffer that goes beyond the upper one together
with what waits. -/
theorem keepsLimits_iff (chunk : Option Nat) {least most : Nat}
    (positive : 1 ≤ least) (ordered : least ≤ most) (inputs : List Buffer) :
    (WriteContext.mk chunk (some least) (some most)).KeepsLimits least most
        inputs ↔
      chunk.isSome = true ∨
        WithinLimit least most 0 (inputs.map Buffer.len) := by
  cases chunk with
  | none =>
      have calculated : (WriteContext.mk none (some least)
          (some most)).calculateChunkSize = (some least, false) := by
        simp [calculateChunkSize, ordered]
      simp [keepsLimits_inexact calculated positive ordered inputs]
  | some chunk =>
      have calculated : (WriteContext.mk (some chunk) (some least)
          (some most)).calculateChunkSize =
            (some (max (min chunk most) least), true) := rfl
      have upper : max (min chunk most) least ≤ most := by omega
      have keeps := keepsLimits_exact calculated
        (positive.trans (Nat.le_max_right _ _)) (Nat.le_max_right _ _) upper
        inputs
      simp [keeps]

/-- Limits of two and four bytes: three bytes and then one. -/
theorem keepsLimits_iff_within :
    (WriteContext.mk none (some 2) (some 4)).KeepsLimits 2 4
      [.fromBytes [1, 2, 3], .fromBytes [4]] :=
  (keepsLimits_iff none (by decide) (by decide) _).mpr (.inr (by decide))

/-- Five bytes where the service takes four. -/
theorem keepsLimits_fails :
    ¬ (∀ (chunk : Option Nat) (least most : Nat) (inputs : List Buffer),
        1 ≤ least → least ≤ most →
        (∀ size, chunk = some size → 1 ≤ size) →
        (WriteContext.mk chunk (some least) (some most)).KeepsLimits least
          most inputs) := by
  intro claimed
  have keeps := claimed none 2 4 [.fromBytes [1, 2, 3, 4, 5]] (by decide)
    (by decide) (by simp)
  rw [keepsLimits_inexact rfl (by decide) (by decide)] at keeps
  revert keeps
  decide

end WriteContext

end OpenDal
