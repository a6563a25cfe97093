import Mathlib.Data.List.Basic
import Mathlib.Data.List.Infix

/-!
# Splitting a text at a separator

A separator is found at its leftmost place, and the search goes on behind it.
Putting pieces together with a separator between them and splitting the result
gives the pieces back as long as the separator does not start any earlier,
which is what `Avoids` says: not in the piece itself, and not in the piece and
the beginning of what follows it either.
-/

namespace Splitting

variable {α : Type} [DecidableEq α]

/-- The pieces between the separators.  `skip` is what is left of a separator,
`piece` is the piece so far, backwards. -/
def splitGo (sep : List α) : Nat → List α → List α → List (List α)
  | _, piece, [] => [piece.reverse]
  | skip + 1, piece, _ :: text => splitGo sep skip piece text
  | 0, piece, item :: text =>
      if sep.isPrefixOf (item :: text) then
        piece.reverse :: splitGo sep (sep.length - 1) [] text
      else
        splitGo sep 0 (item :: piece) text

def split (sep text : List α) : List (List α) :=
  splitGo sep 0 [] text

/-- What stands before and behind the first separator. -/
def splitOnce (sep : List α) : List α → Option (List α × List α)
  | [] => none
  | item :: text =>
      if sep.isPrefixOf (item :: text) then
        some ([], (item :: text).drop sep.length)
      else
        (splitOnce sep text).map fun (before, after) => (item :: before, after)

/-- No separator starts in `text` when `follow` stands behind it. -/
def Avoids (sep follow : List α) : List α → Prop
  | [] => True
  | item :: text => ¬ sep <+: item :: (text ++ follow) ∧ Avoids sep follow text

variable {sep follow text rest left right : List α}

/-! ## Texts without a separator -/

omit [DecidableEq α] in
theorem avoids_append :
    Avoids sep follow (left ++ right) ↔
      Avoids sep (right ++ follow) left ∧ Avoids sep follow right := by
  induction left with
  | nil => simp [Avoids]
  | cons item left induction =>
      simp only [List.cons_append, Avoids, induction, List.append_assoc,
        and_assoc]

omit [DecidableEq α] in
theorem avoids_of_not_mem {first : α} (absent : first ∉ text) :
    Avoids (first :: sep) follow text := by
  induction text with
  | nil => trivial
  | cons item text induction =>
      rw [List.mem_cons, not_or] at absent
      refine ⟨?_, induction absent.2⟩
      intro starts
      exact absent.1 (List.cons_prefix_cons.mp starts).1

omit [DecidableEq α] in
/-- A separator that starts in `text` is a part of it, if the last item of
`text` is none of the separator. -/
theorem avoids_of_last_not_mem {last : α} (foreign : last ∉ sep)
    (apart : ¬ sep <:+: text ++ [last]) :
    Avoids sep follow (text ++ [last]) := by
  induction text with
  | nil =>
      refine ⟨?_, trivial⟩
      intro starts
      cases sep with
      | nil => exact apart List.nil_infix
      | cons first sep =>
          apply foreign
          rw [(List.cons_prefix_cons.mp starts).1]
          exact List.mem_cons_self
  | cons item text induction =>
      have later : ¬ sep <:+: text ++ [last] := by
        intro inside
        exact apart (List.infix_cons inside)
      refine ⟨?_, induction later⟩
      intro starts
      rw [← List.cons_append] at starts
      -- the separator ends before the last item, or it has it
      rcases List.prefix_or_prefix_of_prefix starts
        (List.prefix_append (item :: (text ++ [last])) follow) with
        inside | beyond
      · exact apart inside.isInfix
      · apply foreign
        apply beyond.subset
        simp

/-! ## Splitting -/

omit [DecidableEq α] in
theorem not_isPrefixOf [BEq α] [LawfulBEq α] (avoids : ¬ sep <+: text) :
    sep.isPrefixOf text = false := by
  rw [← Bool.not_eq_true, List.isPrefixOf_iff_prefix]
  exact avoids

theorem splitOnce_append (filled : sep ≠ [])
    (avoids : Avoids sep (sep ++ rest) text) :
    splitOnce sep (text ++ sep ++ rest) = some (text, rest) := by
  induction text with
  | nil =>
      obtain ⟨first, others, rfl⟩ := List.exists_cons_of_ne_nil filled
      have found : (first :: others).isPrefixOf (first :: others ++ rest) := by
        rw [List.isPrefixOf_iff_prefix]
        exact List.prefix_append _ _
      simp only [List.nil_append, List.cons_append, splitOnce] at found ⊢
      rw [if_pos found]
      simp
  | cons item text induction =>
      have absent : sep.isPrefixOf (item :: (text ++ sep ++ rest)) = false := by
        apply not_isPrefixOf
        rw [List.append_assoc]
        exact avoids.1
      simp only [List.cons_append, splitOnce, absent, Bool.false_eq_true,
        if_false, induction avoids.2, Option.map_some]

theorem eq_of_splitOnce (found : splitOnce sep text = some (left, right)) :
    text = left ++ sep ++ right := by
  induction text generalizing left with
  | nil => cases found
  | cons item text induction =>
      rw [splitOnce] at found
      split at found
      · next starts =>
          obtain ⟨rest, whole⟩ := List.isPrefixOf_iff_prefix.mp starts
          cases found
          rw [← whole, List.drop_left, List.nil_append]
      · obtain ⟨⟨before, after⟩, later, same⟩ :=
          Option.map_eq_some_iff.mp found
        cases same
        rw [induction later]
        rfl

theorem splitOnce_of_avoids (avoids : Avoids sep [] text) :
    splitOnce sep text = none := by
  induction text with
  | nil => rfl
  | cons item text induction =>
      have here := avoids.1
      rw [List.append_nil] at here
      rw [splitOnce, not_isPrefixOf here, induction avoids.2]
      rfl

theorem splitGo_skip (piece : List α) (skipped : List α) :
    splitGo sep skipped.length piece (skipped ++ rest) =
      splitGo sep 0 piece rest := by
  induction skipped with
  | nil => rfl
  | cons item skipped induction => exact induction

theorem splitGo_append (filled : sep ≠ []) (piece : List α)
    (avoids : Avoids sep (sep ++ rest) text) :
    splitGo sep 0 piece (text ++ sep ++ rest) =
      (piece.reverse ++ text) :: split sep rest := by
  induction text generalizing piece with
  | nil =>
      obtain ⟨first, others, rfl⟩ := List.exists_cons_of_ne_nil filled
      have found : (first :: others).isPrefixOf (first :: (others ++ rest)) := by
        rw [List.isPrefixOf_iff_prefix, ← List.cons_append]
        exact List.prefix_append _ _
      simp only [List.nil_append, List.cons_append, splitGo, found, if_true,
        List.append_nil, List.length_cons, Nat.add_sub_cancel]
      rw [splitGo_skip]
      rfl
  | cons item text induction =>
      have absent : sep.isPrefixOf (item :: (text ++ sep ++ rest)) = false := by
        apply not_isPrefixOf
        rw [List.append_assoc]
        exact avoids.1
      simp only [List.cons_append, splitGo, absent, Bool.false_eq_true,
        if_false, induction (item :: piece) avoids.2]
      simp

theorem split_append (filled : sep ≠ [])
    (avoids : Avoids sep (sep ++ rest) text) :
    split sep (text ++ sep ++ rest) = text :: split sep rest := by
  rw [split, splitGo_append filled [] avoids, List.reverse_nil, List.nil_append]

theorem splitGo_of_avoids (piece : List α) (avoids : Avoids sep [] text) :
    splitGo sep 0 piece text = [piece.reverse ++ text] := by
  induction text generalizing piece with
  | nil => simp [splitGo]
  | cons item text induction =>
      have absent : sep.isPrefixOf (item :: text) = false := by
        apply not_isPrefixOf
        have first := avoids.1
        rwa [List.append_nil] at first
      simp only [splitGo, absent, Bool.false_eq_true, if_false,
        induction (item :: piece) avoids.2, List.reverse_cons,
        List.append_assoc, List.cons_append, List.nil_append]

theorem split_of_avoids (avoids : Avoids sep [] text) :
    split sep text = [text] := by
  rw [split, splitGo_of_avoids [] avoids, List.reverse_nil, List.nil_append]

/-! ## The first separator -/

omit [DecidableEq α] in
/-- A separator whose first item does not come again in it cannot start inside
a text and end inside the separator behind it. -/
theorem avoids_self {first : α} {others : List α} (foreign : first ∉ others)
    (apart : ¬ first :: others <:+: text) :
    Avoids (first :: others) (first :: others ++ rest) text := by
  induction text with
  | nil => trivial
  | cons item text induction =>
      refine ⟨?_, induction fun inside => apart (List.infix_cons inside)⟩
      intro starts
      rw [← List.cons_append] at starts
      rcases List.prefix_or_prefix_of_prefix starts
        (List.prefix_append (item :: text) _) with inside | beyond
      · exact apart inside.isInfix
      · obtain ⟨tail, whole⟩ := beyond
        -- the separator behind the text begins like the rest of this one
        have meets : tail <+: first :: others ++ rest := by
          apply (List.prefix_append_right_inj (item :: text)).mp
          rw [whole]
          exact starts
        cases tail with
        | nil =>
            rw [List.append_nil] at whole
            exact apart (whole ▸ List.infix_refl _)
        | cons next tail =>
            have same : next = first := by
              obtain ⟨_, shape⟩ := meets
              exact (List.cons.inj shape).1
            rw [List.cons_append, List.cons.injEq] at whole
            apply foreign
            rw [← whole.2, same]
            simp

omit [DecidableEq α] in
theorem not_infix_of_avoids (filled : sep ≠ [])
    (avoids : Avoids sep [] text) : ¬ sep <:+: text := by
  induction text with
  | nil =>
      intro inside
      exact filled (List.infix_nil.mp inside)
  | cons item text induction =>
      intro inside
      rcases List.infix_cons_iff.mp inside with starts | later
      · apply avoids.1
        rw [List.append_nil]
        exact starts
      · exact induction avoids.2 later

omit [DecidableEq α] in
/-- Whether a separator starts in front of a separator does not depend on what
follows it. -/
theorem avoids_congr {other : List α}
    (avoids : Avoids sep (sep ++ rest) text) :
    Avoids sep (sep ++ other) text := by
  induction text with
  | nil => trivial
  | cons item text induction =>
      refine ⟨?_, induction avoids.2⟩
      intro starts
      apply avoids.1
      have short : sep <+: item :: (text ++ sep) := by
        apply List.prefix_of_prefix_length_le starts
        · rw [← List.append_assoc, ← List.cons_append]
          exact List.prefix_append _ _
        · simp only [List.length_cons, List.length_append]
          omega
      rw [← List.append_assoc, ← List.cons_append]
      exact short.trans (List.prefix_append _ _)

omit [DecidableEq α] in
theorem isPrefix_of_foreign {other : α} (foreign : other ∉ sep)
    (starts : sep <+: left ++ other :: right) : sep <+: left := by
  rcases List.prefix_or_prefix_of_prefix starts (List.prefix_append left _)
    with within | beyond
  · exact within
  · obtain ⟨tail, rfl⟩ := beyond
    rw [List.prefix_append_right_inj] at starts
    cases tail with
    | nil => simp
    | cons next tail =>
        rw [List.cons_prefix_cons] at starts
        rw [starts.1] at foreign
        simp at foreign

omit [DecidableEq α] in
theorem append_cases_of_foreign {other : α} {front more : List α}
    (foreign : other ∉ sep)
    (whole : left ++ other :: right = front ++ sep ++ more) :
    (∃ tail, left = front ++ sep ++ tail) ∨
      ∃ rest, front = left ++ other :: rest ∧ right = rest ++ sep ++ more := by
  rcases List.append_eq_append_iff.mp whole with
    ⟨middle, before, behind⟩ | ⟨tail, before, -⟩
  · cases middle with
    | nil =>
        apply Or.inl
        exact ⟨[], by rw [before, List.append_nil, List.append_nil]⟩
    | cons next middle =>
        rw [List.cons_append, List.cons.injEq] at behind
        obtain ⟨rfl, rfl⟩ := behind
        rcases List.append_eq_append_iff.mp before with
          ⟨start, -, inside⟩ | ⟨start, rfl, inside⟩
        · rw [inside] at foreign
          simp at foreign
        · cases start with
          | nil =>
              rw [List.nil_append] at inside
              rw [← inside] at foreign
              simp at foreign
          | cons next start =>
              rw [List.cons_append, List.cons.injEq] at inside
              obtain ⟨rfl, rfl⟩ := inside
              exact Or.inr ⟨start, rfl, rfl⟩
  · exact Or.inl ⟨tail, before⟩

theorem avoids_or_first (sep text : List α) :
    Avoids sep [] text ∨ ∃ front more, text = front ++ sep ++ more ∧
      Avoids sep (sep ++ more) front := by
  induction text with
  | nil => exact Or.inl trivial
  | cons item text induction =>
      by_cases starts : sep <+: item :: text
      · obtain ⟨more, whole⟩ := starts
        exact Or.inr ⟨[], more, whole.symm, trivial⟩
      · rcases induction with avoids | ⟨front, more, rfl, avoids⟩
        · apply Or.inl
          refine ⟨?_, avoids⟩
          rw [List.append_nil]
          exact starts
        · apply Or.inr
          refine ⟨item :: front, more, rfl, ?_, avoids⟩
          rw [← List.append_assoc]
          exact starts

/-- The first piece is the whole text, or a separator follows it. -/
theorem exists_split_cons (filled : sep ≠ []) (text : List α) :
    ∃ piece pieces, split sep text = piece :: pieces ∧
      (piece = text ∨ ∃ more, text = piece ++ sep ++ more) := by
  rcases avoids_or_first sep text with avoids | ⟨front, more, rfl, avoids⟩
  · exact ⟨text, [], split_of_avoids avoids, Or.inl rfl⟩
  · exact ⟨front, split sep more, split_append filled avoids,
      Or.inr ⟨more, rfl⟩⟩

omit [DecidableEq α] in
theorem avoids_nil (avoids : Avoids sep follow text) : Avoids sep [] text := by
  induction text with
  | nil => trivial
  | cons item text induction =>
      refine ⟨?_, induction avoids.2⟩
      rw [List.append_nil]
      intro starts
      apply avoids.1
      rw [← List.cons_append]
      exact starts.trans (List.prefix_append _ _)

theorem split_join (filled : sep ≠ []) {first : List α}
    {pieces : List (List α)}
    (avoids : ∀ piece ∈ first :: pieces, Avoids sep (sep ++ []) piece) :
    split sep (first ++ pieces.flatMap (sep ++ ·)) = first :: pieces := by
  induction pieces generalizing first with
  | nil =>
      rw [List.flatMap_nil, List.append_nil]
      exact split_of_avoids (avoids_nil (avoids first List.mem_cons_self))
  | cons piece pieces induction =>
      have later := induction fun other member =>
        avoids other (List.mem_cons_of_mem first member)
      rw [List.flatMap_cons, List.append_assoc, ← List.append_assoc,
        split_append filled (avoids_congr (avoids first List.mem_cons_self)),
        later]

theorem split_append_split (filled : sep ≠ [])
    (foreign : ∀ last ∈ text.getLast?, last ∉ sep) (rest : List α) :
    split sep (text ++ sep ++ rest) = split sep text ++ split sep rest := by
  induction size : text.length using Nat.strongRecOn
    generalizing text with
  | _ bound induction =>
      rcases avoids_or_first sep text with avoids | ⟨front, more, rfl, avoids⟩
      · have clean : Avoids sep (sep ++ rest) text := by
          rcases List.eq_nil_or_concat' text with rfl | ⟨stem, last, rfl⟩
          · trivial
          · apply avoids_of_last_not_mem
            · exact foreign last (by simp)
            · exact not_infix_of_avoids filled avoids
        rw [split_append filled clean, split_of_avoids avoids]
        rfl
      · have shorter : more.length < bound := by
          have positive := List.length_pos_of_ne_nil filled
          rw [← size]
          simp only [List.length_append]
          omega
        have foreignMore : ∀ last ∈ more.getLast?, last ∉ sep := by
          intro last ends
          apply foreign
          have notNil : more ≠ [] := by
            intro empty
            rw [empty] at ends
            cases ends
          rw [List.getLast?_append_of_ne_nil _ notNil]
          exact ends
        have later := induction more.length shorter foreignMore rfl
        have shape : front ++ sep ++ more ++ sep ++ rest =
            front ++ sep ++ (more ++ sep ++ rest) := by
          simp only [List.append_assoc]
        rw [shape, split_append filled (avoids_congr avoids), later,
          split_append filled avoids]
        rfl

/-! ## Starts -/

theorem dropPrefix?_append (start rest : List α) :
    (start ++ rest).dropPrefix? start = some rest := by
  rw [List.dropPrefix?_eq_some_iff]
  exact ⟨start, rfl, beq_self_eq_true start⟩

theorem eq_of_dropPrefix? {text start rest : List α}
    (found : text.dropPrefix? start = some rest) : text = start ++ rest := by
  obtain ⟨front, rfl, same⟩ := List.dropPrefix?_eq_some_iff.mp found
  rw [beq_iff_eq.mp same]

/-! ## Single items as separators -/

theorem not_mem_of_mem_splitOn {sep : α} {text part : List α}
    (member : part ∈ text.splitOn sep) : sep ∉ part := by
  induction text generalizing part with
  | nil =>
      simp only [List.splitOn_nil, List.mem_singleton] at member
      simp [member]
  | cons item text induction =>
      rw [List.splitOn_cons_eq_if_modifyHead] at member
      by_cases same : item = sep
      · simp only [same, beq_self_eq_true, if_true, List.mem_cons] at member
        rcases member with rfl | later
        · simp
        · exact induction later
      · have different : (item == sep) = false := by simp [same]
        rw [different] at member
        cases parts : text.splitOn sep with
        | nil => exact absurd parts (List.splitOn_ne_nil sep text)
        | cons first rest =>
            simp only [parts, Bool.false_eq_true, if_false,
              List.modifyHead_cons, List.mem_cons] at member
            rcases member with rfl | later
            · have clean : sep ∉ first :=
                induction (by rw [parts]; exact List.mem_cons_self)
              simp [clean, Ne.symm same]
            · exact induction
                (by rw [parts]; exact List.mem_cons_of_mem first later)

/-- A text with a single separator. -/
theorem splitOn_eq_pair_iff {sep : α} {text left right : List α} :
    text.splitOn sep = [left, right] ↔
      text = left ++ sep :: right ∧ sep ∉ left ∧ sep ∉ right := by
  constructor
  · intro split
    have first : left ∈ text.splitOn sep := by simp [split]
    have second : right ∈ text.splitOn sep := by simp [split]
    refine ⟨?_, not_mem_of_mem_splitOn first, not_mem_of_mem_splitOn second⟩
    have joined : [sep].intercalate (text.splitOn sep) = text :=
      List.intercalate_splitOn sep
    rw [split] at joined
    simpa [List.intercalate_cons_cons] using joined.symm
  · rintro ⟨rfl, cleanLeft, cleanRight⟩
    rw [List.splitOn_append_cons_self_of_not_mem cleanLeft,
      List.splitOn_eq_singleton cleanRight]

end Splitting
