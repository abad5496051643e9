import CommentErasure.Comment.Dialect
import CommentErasure.Proofs.Comment.Erasing

/-!
# What is left of code

Removing a block comment brings the text before it and the text behind it together.  No marker
arises where they meet: once the line comments are gone, no two slashes stand next to each other,
so no gap before a block ends in a slash, while `//` and `/*` both begin with one.
-/

namespace CommentErasure

open Text

namespace Rule

/-! ## Line comments -/

theorem line_occurs_iff {text : Text} :
    Rule.line.Occurs text ↔ ['/', '/'] <:+: text := by
  constructor
  · exact Occurs.opener_infix
  · intro inside
    obtain ⟨ending, opens, isEnding⟩ := List.infix_iff_prefix_suffix.mp inside
    obtain ⟨behind, whole⟩ := opens
    exact occurs_iff.mpr ⟨ending, isEnding, behind, whole.symm, List.nil_infix⟩

/-- The text before a line comment does not end in a slash, since the comment would begin there. -/
theorem not_startsIn_line_gap
    {text right : Text} {found : Match}
    (isFirst : Rule.line.first? text = some found) :
    ¬ StartsIn ['/', '/'] found.comment.gap right := by
  apply not_startsIn_pair
  · exact not_infix_gap_of_first? isFirst
  · intro isLast
    have startsEarlier :
        StartsIn ['/', '/'] found.comment.gap
          (Rule.line.opener ++ found.comment.body ++ Rule.line.extent.closing ++ found.rest) :=
      startsIn_pair_iff.mpr (Or.inr ⟨isLast, rfl⟩)
    exact not_startsIn_gap_of_first? isFirst startsEarlier

theorem not_slashes_infix_erase_line (text : Text) :
    ¬ ['/', '/'] <:+: Rule.line.erase text := by
  induction text using Rule.dissect.induct Rule.line with
  | case1 text isLast =>
      rw [erase_of_first?_eq_none isLast, ← line_occurs_iff]
      exact first?_eq_none_iff.mp isLast
  | case2 text found isFirst _ inductionHypothesis =>
      have gapApart :
          ¬ StartsIn ['/', '/'] found.comment.gap (Rule.line.erase found.rest) :=
        not_startsIn_line_gap isFirst
      rw [erase_of_first?_eq_some isFirst, infix_append_iff_startsIn, not_or]
      exact ⟨gapApart, inductionHypothesis⟩

/-! ## Block comments in a text without line comments -/

section SlashFree

variable {text : Text} {found : Match}
  (slashFree : ¬ ['/', '/'] <:+: text)
  (isFirst : Rule.block.first? text = some found)

include slashFree isFirst

/-- The gap before a block does not end in a slash, which would make `//` with the opener. -/
theorem getLast?_gap_ne_slash :
    found.comment.gap.getLast? ≠ some '/' := by
  intro isLast
  apply slashFree
  have straddles :
      StartsIn ['/', '/'] found.comment.gap
        (Rule.block.opener ++
          (found.comment.body ++ (Rule.block.extent.closing ++ found.rest))) :=
    startsIn_pair_iff.mpr (Or.inr ⟨isLast, rfl⟩)
  rw [append_of_first? isFirst]
  simp only [written, List.append_assoc]
  exact (infix_append_iff_startsIn _ _ _).mpr (Or.inl straddles)

theorem not_slashes_infix_gap :
    ¬ ['/', '/'] <:+: found.comment.gap := by
  intro inside
  apply slashFree
  rw [append_of_first? isFirst]
  simp only [written, List.append_assoc]
  exact List.infix_append_of_infix_left inside

theorem not_slashes_infix_rest :
    ¬ ['/', '/'] <:+: found.rest := by
  intro inside
  apply slashFree
  rw [append_of_first? isFirst]
  exact List.infix_append_of_infix_right inside

theorem not_startsIn_block_gap (right : Text) :
    ¬ StartsIn ['/', '*'] found.comment.gap right :=
  not_startsIn_pair (not_infix_gap_of_first? isFirst) (getLast?_gap_ne_slash slashFree isFirst)

end SlashFree

theorem not_slashes_infix_erase_block
    {text : Text} (slashFree : ¬ ['/', '/'] <:+: text) :
    ¬ ['/', '/'] <:+: Rule.block.erase text := by
  induction text using Rule.dissect.induct Rule.block with
  | case1 text isLast =>
      rw [erase_of_first?_eq_none isLast]
      exact slashFree
  | case2 text found isFirst _ inductionHypothesis =>
      have gapApart :
          ¬ StartsIn ['/', '/'] found.comment.gap (Rule.block.erase found.rest) :=
        not_startsIn_pair (not_slashes_infix_gap slashFree isFirst)
          (getLast?_gap_ne_slash slashFree isFirst)
      rw [erase_of_first?_eq_some isFirst, infix_append_iff_startsIn, not_or]
      exact ⟨gapApart, inductionHypothesis (not_slashes_infix_rest slashFree isFirst)⟩

theorem not_occurs_erase_block
    {text : Text} (slashFree : ¬ ['/', '/'] <:+: text) :
    ¬ Rule.block.Occurs (Rule.block.erase text) := by
  induction text using Rule.dissect.induct Rule.block with
  | case1 text isLast =>
      rw [erase_of_first?_eq_none isLast]
      exact first?_eq_none_iff.mp isLast
  | case2 text found isFirst _ inductionHypothesis =>
      have gapApart :
          ¬ StartsIn Rule.block.opener found.comment.gap (Rule.block.erase found.rest) :=
        not_startsIn_block_gap slashFree isFirst _
      rw [erase_of_first?_eq_some isFirst, occurs_append_of_not_startsIn gapApart]
      exact inductionHypothesis (not_slashes_infix_rest slashFree isFirst)

/-- An opener that is left begins an ending of the text that the pass has not touched. -/
theorem drop_erase_block_suffix
    {text : Text} {opening : Nat}
    (slashFree : ¬ ['/', '/'] <:+: text)
    (opens : StandsAt ['/', '*'] (Rule.block.erase text) opening) :
    (Rule.block.erase text).drop opening <:+ text := by
  induction text using Rule.dissect.induct Rule.block generalizing opening with
  | case1 text isLast =>
      rw [erase_of_first?_eq_none isLast]
      exact List.drop_suffix opening text
  | case2 text found isFirst _ inductionHypothesis =>
      rw [erase_of_first?_eq_some isFirst] at opens ⊢
      have gapApart :
          ¬ StartsIn ['/', '*'] found.comment.gap (Rule.block.erase found.rest) :=
        not_startsIn_block_gap slashFree isFirst _
      obtain ⟨further, rfl, opensFurther⟩ := opens.of_append gapApart
      have inRest :=
        inductionHypothesis (not_slashes_infix_rest slashFree isFirst) opensFurther
      have restIsEnding : found.rest <:+ text := by
        rw [append_of_first? isFirst]
        exact List.suffix_append _ found.rest
      rw [← List.drop_drop, List.drop_left]
      exact inRest.trans restIsEnding

end Rule

namespace Dialect

theorem code_erase (text : Text) :
    Dialect.code.erase text = Rule.block.erase (Rule.line.erase text) := rfl

/-- What is left of code has neither `//` nor a `/*` with a `*/` behind it.  A `/*` that is left
stands in an ending of what line comments had left, so removing blocks has brought none about.
Hence a second run finds nothing. -/
theorem code_residue (text : Text) :
    (¬ ∃ position, StandsAt ['/', '/'] (Dialect.code.erase text) position) ∧
      (¬ ∃ opening closing,
        opening + 2 ≤ closing ∧
          StandsAt ['/', '*'] (Dialect.code.erase text) opening ∧
          StandsAt ['*', '/'] (Dialect.code.erase text) closing) ∧
      (∀ opening,
        StandsAt ['/', '*'] (Dialect.code.erase text) opening →
          (Dialect.code.erase text).drop opening <:+ Rule.line.erase text) ∧
      Dialect.code.erase (Dialect.code.erase text) = Dialect.code.erase text := by
  have lineFree := Rule.not_slashes_infix_erase_line text
  have stillLineFree := Rule.not_slashes_infix_erase_block lineFree
  have blockFree := Rule.not_occurs_erase_block lineFree
  rw [← code_erase] at stillLineFree blockFree
  refine ⟨?_, blockFree, ?_, ?_⟩
  · rw [← infix_iff_standsAt]
    exact stillLineFree
  · intro opening opens
    exact Rule.drop_erase_block_suffix lineFree opens
  · rw [code_erase (Dialect.code.erase text),
      Rule.erase_of_not_occurs (mt Rule.line_occurs_iff.mp stillLineFree),
      Rule.erase_of_not_occurs blockFree]

end Dialect

end CommentErasure
