import Mathlib.Data.List.Basic

/-!
# Quoted text

A literal ends with the first quote that is not escaped, and an escape
character makes the character behind it part of the literal.  A writer puts an
escape character before the special characters of a text.  It knows the quote
to be special, but not the escape character.

Such a text is read back exactly if every escape character in it stands before
a special character other than the quote: the two escape characters that are
written there are read as one, and what they leave unprotected needs no
protection.
-/

/-- The literal and what is behind the quote that ends it. -/
def readLiteral {α : Type} [DecidableEq α] (escape quote : α) :
    List α → Option (List α × List α)
  | [] => none
  | c :: rest =>
      if c = escape then
        match rest with
        | [] => none
        | escaped :: rest =>
            (readLiteral escape quote rest).map
              (fun found => (escaped :: found.1, found.2))
      else if c = quote then
        some ([], rest)
      else
        (readLiteral escape quote rest).map
          (fun found => (c :: found.1, found.2))

/-- The special characters are those that the writer escapes. -/
structure Quoting (α : Type) where
  escape : α
  quote : α
  special : α → Bool
  special_escape : special escape = false
  special_quote : special quote = true

namespace Quoting

variable {α : Type} [DecidableEq α] (quoting : Quoting α)

abbrev read (text : List α) : Option (List α × List α) :=
  readLiteral quoting.escape quoting.quote text

/-- An escape character before each of the special characters. -/
def escapeText (text : List α) : List α :=
  text.flatMap
    (fun c => if quoting.special c then [quoting.escape, c] else [c])

/-- A text behind a quote, up to the quote that is meant to end it and what
follows. -/
def written (text after : List α) : List α :=
  quoting.escapeText text ++ quoting.quote :: after

/-- What stands behind an escape character is special, and no quote. -/
def Harmless : List α → Prop
  | [] => False
  | next :: _ => quoting.special next = true ∧ next ≠ quoting.quote

/-- Every escape character of the text is harmless. -/
def HarmlessEscapes (text : List α) : Prop :=
  ∀ before behind, text = before ++ quoting.escape :: behind →
    quoting.Harmless behind

variable {quoting} {c next : α} {text rest after found : List α}

/-! ## Reading -/

omit [DecidableEq α] in
theorem harmlessEscapes_cons :
    quoting.HarmlessEscapes (c :: rest) ↔
      (c = quoting.escape → quoting.Harmless rest) ∧
        quoting.HarmlessEscapes rest := by
  constructor
  · intro harmless
    constructor
    · intro same
      exact harmless [] rest (by rw [same, List.nil_append])
    · intro before behind split
      exact harmless (c :: before) behind (by rw [split, List.cons_append])
  · intro harmless before behind split
    obtain ⟨first, later⟩ := harmless
    cases before with
    | nil =>
        obtain ⟨same, rfl⟩ := List.cons.inj split
        exact first same
    | cons other before =>
        obtain ⟨-, tail⟩ := List.cons.inj split
        exact later before behind tail

omit [DecidableEq α] in
theorem ne_escape (isSpecial : quoting.special c = true) :
    c ≠ quoting.escape := by
  intro same
  rw [same, quoting.special_escape] at isSpecial
  cases isSpecial

omit [DecidableEq α] in
theorem ne_quote (plain : quoting.special c = false) : c ≠ quoting.quote := by
  intro same
  rw [same, quoting.special_quote] at plain
  cases plain

theorem read_escape :
    quoting.read (quoting.escape :: c :: rest) =
      (quoting.read rest).map (fun found => (c :: found.1, found.2)) := by
  rw [read, readLiteral, if_pos rfl]

theorem read_quote :
    quoting.read (quoting.quote :: rest) = some ([], rest) := by
  rw [read, readLiteral.eq_def]
  simp only [ne_escape quoting.special_quote, if_false, if_true]

theorem read_plain (plain : c ≠ quoting.escape) (inside : c ≠ quoting.quote) :
    quoting.read (c :: rest) =
      (quoting.read rest).map (fun found => (c :: found.1, found.2)) := by
  rw [read, readLiteral.eq_def]
  simp only [plain, inside, if_false]

omit [DecidableEq α] in
theorem map_cons_eq_some {inner : Option (List α × List α)} :
    inner.map (fun found => (c :: found.1, found.2)) = some (found, after) ↔
      ∃ behind, found = c :: behind ∧ inner = some (behind, after) := by
  constructor
  · intro same
    obtain ⟨pair, rfl, equal⟩ := Option.map_eq_some_iff.mp same
    obtain ⟨first, second⟩ := Prod.mk.inj equal
    refine ⟨pair.1, first.symm, ?_⟩
    rw [← second]
  · intro same
    obtain ⟨behind, rfl, rfl⟩ := same
    rfl

theorem length_lt_of_read (reads : quoting.read text = some (found, after)) :
    after.length < text.length := by
  induction text using readLiteral.induct quoting.escape quoting.quote
    generalizing found with
  | case1 => cases reads
  | case2 =>
      rw [read, readLiteral, if_pos rfl] at reads
      cases reads
  | case3 escaped rest induction =>
      rw [read_escape] at reads
      obtain ⟨behind, -, inner⟩ := map_cons_eq_some.mp reads
      have shorter := induction inner
      simp only [List.length_cons]
      omega
  | case4 rest different =>
      rw [read_quote] at reads
      obtain ⟨-, rfl⟩ := Prod.mk.inj (Option.some.inj reads)
      exact Nat.lt_succ_self _
  | case5 c rest plain inside induction =>
      rw [read_plain plain inside] at reads
      obtain ⟨behind, -, inner⟩ := map_cons_eq_some.mp reads
      have shorter := induction inner
      simp only [List.length_cons]
      omega

/-! ## Writing -/

omit [DecidableEq α] in
theorem written_special (isSpecial : quoting.special c = true) :
    quoting.written (c :: text) after =
      quoting.escape :: c :: quoting.written text after := by
  simp [written, escapeText, isSpecial]

omit [DecidableEq α] in
theorem written_plain (plain : quoting.special c = false) :
    quoting.written (c :: text) after = c :: quoting.written text after := by
  simp [written, escapeText, plain]

omit [DecidableEq α] in
theorem length_lt_written : after.length < (quoting.written text after).length := by
  simp only [written, List.length_append, List.length_cons]
  omega

theorem read_written_cons (other : c ≠ quoting.escape) :
    quoting.read (quoting.written (c :: text) after) =
      (quoting.read (quoting.written text after)).map
        (fun found => (c :: found.1, found.2)) := by
  cases isSpecial : quoting.special c with
  | true => rw [written_special isSpecial, read_escape]
  | false => rw [written_plain isSpecial, read_plain other (ne_quote isSpecial)]

/-- What an escape character of the text stands before, if the literal ends
where it should. -/
inductive Escapes (quoting : Quoting α) (after : List α) :
    List α → List α → Prop where
  | harmless {next : α} {rest found : List α} :
      quoting.special next = true → next ≠ quoting.quote →
      quoting.read (quoting.written (next :: rest) after) =
        some (found, after) →
      Escapes quoting after (next :: rest) (quoting.escape :: found)
  | lost {next : α} {rest found : List α} :
      quoting.special next = false →
      quoting.read (quoting.written rest after) = some (found, after) →
      Escapes quoting after (next :: rest) (next :: found)

theorem escapes_of_read
    (reads : quoting.read (quoting.written (quoting.escape :: text) after) =
      some (found, after)) :
    Escapes quoting after text found := by
  rw [written_plain quoting.special_escape] at reads
  cases text with
  | nil =>
      -- the quote is escaped, and another one is found too late
      have same : quoting.written [] after = quoting.quote :: after := rfl
      rw [same, read_escape] at reads
      obtain ⟨behind, -, inner⟩ := map_cons_eq_some.mp reads
      exact absurd (length_lt_of_read inner) (Nat.lt_irrefl _)
  | cons next rest =>
      cases isSpecial : quoting.special next with
      | true =>
          rw [written_special isSpecial, read_escape] at reads
          obtain ⟨behind, rfl, inner⟩ := map_cons_eq_some.mp reads
          by_cases ends : next = quoting.quote
          · -- the literal ends here, too early
            rw [ends, read_quote] at inner
            obtain ⟨-, same⟩ := Prod.mk.inj (Option.some.inj inner)
            have longer : after.length < (quoting.written rest after).length :=
              length_lt_written
            rw [same] at longer
            exact absurd longer (Nat.lt_irrefl _)
          · apply Escapes.harmless isSpecial ends
            rw [read_written_cons (ne_escape isSpecial),
              ← read_plain (ne_escape isSpecial) ends]
            exact inner
      | false =>
          rw [written_plain isSpecial, read_escape] at reads
          obtain ⟨behind, rfl, inner⟩ := map_cons_eq_some.mp reads
          exact .lost isSpecial inner

/-- A literal that ends where it should has lost characters, or none. -/
theorem length_le_of_read
    (reads : quoting.read (quoting.written text after) =
      some (found, after)) :
    found.length ≤ text.length := by
  induction size : text.length using Nat.strongRecOn
    generalizing text found with
  | ind size induction =>
      cases text with
      | nil =>
          have same : quoting.written [] after = quoting.quote :: after := rfl
          rw [same, read_quote] at reads
          obtain ⟨rfl, -⟩ := Prod.mk.inj (Option.some.inj reads)
          exact Nat.zero_le _
      | cons c text =>
          rw [List.length_cons] at size
          by_cases other : c = quoting.escape
          · rw [other] at reads
            cases escapes_of_read reads with
            | @harmless next rest behind isSpecial inside inner =>
                have shorter := induction (next :: rest).length (by omega)
                  inner rfl
                simp only [List.length_cons] at *
                omega
            | @lost next rest behind plain inner =>
                rw [List.length_cons] at size
                have shorter := induction rest.length (by omega) inner rfl
                simp only [List.length_cons]
                omega
          · rw [read_written_cons other] at reads
            obtain ⟨behind, rfl, inner⟩ := map_cons_eq_some.mp reads
            have shorter := induction text.length (by omega) inner rfl
            simp only [List.length_cons]
            omega

/-- The literal is read back, and ends where it should. -/
theorem read_written_iff :
    quoting.read (quoting.written text after) = some (text, after) ↔
      quoting.HarmlessEscapes text := by
  induction text with
  | nil =>
      constructor
      · intro _ before behind split
        simp at split
      · intro _
        exact read_quote
  | cons c text induction =>
      by_cases other : c = quoting.escape
      · constructor
        · intro reads
          rw [other] at reads
          have escapes := escapes_of_read reads
          generalize whole : quoting.escape :: text = given at escapes
          cases escapes with
          | harmless isSpecial inside inner =>
              obtain ⟨-, rfl⟩ := List.cons.inj whole
              rw [harmlessEscapes_cons]
              exact ⟨fun _ => ⟨isSpecial, inside⟩, induction.mp inner⟩
          | lost plain inner =>
              -- one character more would have to be read than there are
              obtain ⟨-, rfl⟩ := List.cons.inj whole
              have shorter := length_le_of_read inner
              rw [List.length_cons] at shorter
              omega
        · intro harmless
          obtain ⟨behind, rest⟩ := harmlessEscapes_cons.mp harmless
          have inner := induction.mpr rest
          cases text with
          | nil => exact (behind other).elim
          | cons next text =>
              obtain ⟨isSpecial, inside⟩ := behind other
              rw [read_written_cons (ne_escape isSpecial),
                ← read_plain (ne_escape isSpecial) inside] at inner
              rw [other, written_plain quoting.special_escape,
                written_special isSpecial, read_escape]
              exact map_cons_eq_some.mpr ⟨_, rfl, inner⟩
      · rw [read_written_cons other, map_cons_eq_some, harmlessEscapes_cons]
        constructor
        · intro reads
          obtain ⟨behind, same, inner⟩ := reads
          obtain ⟨-, rfl⟩ := List.cons.inj same
          exact ⟨fun equal => absurd equal other, induction.mp inner⟩
        · intro harmless
          exact ⟨text, rfl, induction.mpr harmless.2⟩

omit [DecidableEq α] in
/-- If only the quote is escaped, no escape character is harmless. -/
theorem harmlessEscapes_iff (only : ∀ c, quoting.special c = true →
      c = quoting.quote) :
    quoting.HarmlessEscapes text ↔ quoting.escape ∉ text := by
  constructor
  · intro harmless member
    obtain ⟨before, behind, split⟩ := List.append_of_mem member
    have special := harmless before behind split
    cases behind with
    | nil => exact special
    | cons next behind => exact special.2 (only next special.1)
  · intro absent before behind split
    apply absurd _ absent
    rw [split]
    exact List.mem_append_right _ List.mem_cons_self

end Quoting
