import Mathlib.Data.List.Infix
import Mathlib.Tactic.Common

/-!
# Patterns of `LIKE`

The operator `LIKE` of SQLite without an escape character: `%` stands for any
text, `_` for any one character, a letter of ASCII for itself in upper and in
lower case, and every other character for itself.

A text that is put into a pattern as it is stands for itself only if it has
none of the first three.  Then what stands behind it in the pattern matches
what stands behind it in the text.
-/

namespace LikePattern

def like : List Char → List Char → Bool
  | [], text => text.isEmpty
  | c :: pattern, text =>
      if c = '%' then
        text.tails.any (like pattern)
      else match text with
        | [] => false
        | item :: text =>
            (c == '_' || c.toLower == item.toLower) && like pattern text

/-- Characters that stand for themselves only. -/
def IsLiteral (c : Char) : Prop :=
  c ≠ '%' ∧ c ≠ '_' ∧ c.isAlpha = false

instance (c : Char) : Decidable (IsLiteral c) :=
  inferInstanceAs (Decidable (_ ∧ _ ∧ _))

/-! ## Letters -/

theorem toNat_toLower (c : Char) :
    c.toLower.toNat =
      if 65 ≤ c.toNat ∧ c.toNat ≤ 90 then c.toNat + 32 else c.toNat := by
  have upper : c.val ≥ 'A'.val ∧ c.val ≤ 'Z'.val ↔
      65 ≤ c.toNat ∧ c.toNat ≤ 90 := by
    simp only [ge_iff_le, UInt32.le_iff_toNat_le]
    exact Iff.rfl
  unfold Char.toLower
  split
  · next isUpper =>
      rw [if_pos (upper.mp isUpper)]
      have small := (upper.mp isUpper).2
      show (c.val + 32).toNat = c.toNat + 32
      rw [UInt32.toNat_add]
      show (c.toNat + 32) % 4294967296 = c.toNat + 32
      omega
  · next isUpper => rw [if_neg fun letter => isUpper (upper.mpr letter)]

theorem isAlpha_iff (c : Char) :
    c.isAlpha = true ↔
      (65 ≤ c.toNat ∧ c.toNat ≤ 90) ∨ (97 ≤ c.toNat ∧ c.toNat ≤ 122) := by
  change (decide (c.val ≥ 'A'.val ∧ c.val ≤ 'Z'.val) ||
    (decide (c.val ≥ 'a'.val) && decide (c.val ≤ 'z'.val))) = true ↔ _
  simp only [Bool.or_eq_true,
    Bool.and_eq_true, decide_eq_true_eq, ge_iff_le, UInt32.le_iff_toNat_le]
  exact Iff.rfl

theorem eq_of_toLower_eq {c item : Char} (other : c.isAlpha = false)
    (same : c.toLower = item.toLower) : c = item := by
  have codes := congrArg Char.toNat same
  have noLetter : ¬ c.isAlpha = true := by simp [other]
  rw [isAlpha_iff] at noLetter
  rw [toNat_toLower, toNat_toLower] at codes
  apply Char.toNat_inj.mp
  split at codes
  · omega
  · split at codes
    · omega
    · exact codes

theorem toNat_ofNat {code : Nat} (small : code < 0xd800) :
    (Char.ofNat code).toNat = code := by
  rw [Char.ofNat, dif_pos (Or.inl small)]
  rfl

theorem exists_toLower_eq {c : Char} (letter : c.isAlpha = true) :
    ∃ item : Char, item ≠ c ∧ item.isAlpha = true ∧
      c.toLower = item.toLower := by
  have ofCode : ∀ code, code < 0xd800 → code ≠ c.toNat →
      (65 ≤ code ∧ code ≤ 90) ∨ (97 ≤ code ∧ code ≤ 122) →
      c.toLower.toNat = (Char.ofNat code).toLower.toNat →
      ∃ item : Char, item ≠ c ∧ item.isAlpha = true ∧
        c.toLower = item.toLower := by
    intro code small different isLetter same
    refine ⟨Char.ofNat code, ?_, ?_, Char.toNat_inj.mp same⟩
    · rintro rfl
      exact different (toNat_ofNat small).symm
    · rw [isAlpha_iff, toNat_ofNat small]
      exact isLetter
  rcases (isAlpha_iff c).mp letter with upper | lower
  · apply ofCode (c.toNat + 32) (by omega) (by omega) (by omega)
    rw [toNat_toLower, toNat_toLower, toNat_ofNat (by omega), if_pos upper,
      if_neg (by omega)]
  · apply ofCode (c.toNat - 32) (by omega) (by omega) (by omega)
    rw [toNat_toLower, toNat_toLower, toNat_ofNat (by omega),
      if_neg (by omega), if_pos (by omega)]
    omega

/-! ## Matching -/

variable {pattern more text rest : List Char} {c : Char}

theorem like_percent :
    like ('%' :: pattern) text = true ↔
      ∃ front rest, text = front ++ rest ∧ like pattern rest = true := by
  simp only [like, if_true, List.any_eq_true, List.mem_tails]
  constructor
  · rintro ⟨rest, ⟨front, rfl⟩, matched⟩
    exact ⟨front, rest, rfl, matched⟩
  · rintro ⟨front, rest, rfl, matched⟩
    exact ⟨rest, List.suffix_append front rest, matched⟩

theorem like_cons (notPercent : c ≠ '%') :
    like (c :: pattern) text = true ↔
      ∃ item rest, text = item :: rest ∧
        (c = '_' ∨ c.toLower = item.toLower) ∧ like pattern rest = true := by
  cases text with
  | nil => simp [like, notPercent]
  | cons item text => simp [like, notPercent]

theorem like_anything : like ['%'] text = true := by
  apply like_percent.mpr
  exact ⟨text, [], by simp, rfl⟩

theorem like_self (pattern : List Char) : like pattern pattern = true := by
  induction pattern with
  | nil => rfl
  | cons c pattern induction =>
      by_cases percent : c = '%'
      · rw [percent]
        exact like_percent.mpr ⟨['%'], pattern, rfl, induction⟩
      · exact (like_cons percent).mpr
          ⟨c, pattern, rfl, Or.inr rfl, induction⟩

theorem like_append (first : like pattern text = true)
    (second : like more rest = true) :
    like (pattern ++ more) (text ++ rest) = true := by
  induction pattern generalizing text with
  | nil =>
      rw [like, List.isEmpty_iff] at first
      rw [first]
      exact second
  | cons c pattern induction =>
      by_cases percent : c = '%'
      · subst percent
        obtain ⟨front, back, rfl, matched⟩ := like_percent.mp first
        apply like_percent.mpr
        exact ⟨front, back ++ rest, List.append_assoc _ _ _,
          induction matched⟩
      · obtain ⟨item, back, rfl, alike, matched⟩ :=
          (like_cons percent).mp first
        apply (like_cons percent).mpr
        exact ⟨item, back ++ rest, rfl, alike, induction matched⟩

theorem like_literal_append (literal : ∀ c ∈ pattern, IsLiteral c) :
    like (pattern ++ more) text = true ↔
      ∃ rest, text = pattern ++ rest ∧ like more rest = true := by
  induction pattern generalizing text with
  | nil => simp
  | cons c pattern induction =>
      obtain ⟨⟨notPercent, notUnderscore, other⟩, later⟩ :=
        List.forall_mem_cons.mp literal
      rw [List.cons_append, like_cons notPercent]
      constructor
      · rintro ⟨item, back, rfl, alike, matched⟩
        obtain ⟨rest, rfl, tail⟩ := (induction later).mp matched
        have same : c = item :=
          eq_of_toLower_eq other (alike.resolve_left notUnderscore)
        exact ⟨rest, by rw [same]; rfl, tail⟩
      · rintro ⟨rest, rfl, tail⟩
        exact ⟨c, pattern ++ rest, rfl, Or.inr rfl,
          (induction later).mpr ⟨rest, rfl, tail⟩⟩

theorem exists_other_match (special : ¬ IsLiteral c) :
    ∃ item : Char, item ≠ c ∧ item.isAlpha = true ∧
      like [c] [item] = true := by
  by_cases percent : c = '%'
  · refine ⟨'a', ?_, by decide, ?_⟩
    · rw [percent]
      decide
    · rw [percent]
      exact like_anything
  by_cases underscore : c = '_'
  · refine ⟨'a', ?_, by decide, ?_⟩
    · rw [underscore]
      decide
    · rw [underscore]
      rfl
  have letter : c.isAlpha = true := by
    by_contra other
    exact special ⟨percent, underscore, Bool.eq_false_iff.mpr other⟩
  obtain ⟨item, different, isLetter, same⟩ := exists_toLower_eq letter
  refine ⟨item, different, isLetter, (like_cons percent).mpr ?_⟩
  exact ⟨item, [], rfl, Or.inr same, rfl⟩

/-- A pattern with such a character matches a text that differs from it in
one letter. -/
theorem exists_like_of_not_literal
    (special : ∃ c ∈ pattern, ¬ IsLiteral c) :
    ∃ front c item back, pattern = front ++ c :: back ∧ item ≠ c ∧
      item.isAlpha = true ∧ like pattern (front ++ item :: back) = true := by
  obtain ⟨c, member, notLiteral⟩ := special
  obtain ⟨front, back, rfl⟩ := List.append_of_mem member
  obtain ⟨item, different, isLetter, matched⟩ :=
    exists_other_match notLiteral
  refine ⟨front, c, item, back, rfl, different, isLetter, ?_⟩
  apply like_append (like_self front)
  exact like_append matched (like_self back)

end LikePattern
