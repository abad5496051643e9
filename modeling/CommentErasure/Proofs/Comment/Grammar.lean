import Mathlib.Logic.ExistsUnique
import CommentErasure.Comment.Dialect
import CommentErasure.Proofs.Comment.Erasing

/-!
# The grammar of comments

What a text with comments looks like, without any search: gaps and comments by turns, and a rest.
No gap has an opener, no body has what closes the comment, and the rest has no comment.  If the
markers of a rule do not overlap themselves, every text can be read in this way, and in one way
only, which is the one that `Rule.dissect` finds.
-/

namespace CommentErasure

namespace Dissection

@[elab_as_elim]
theorem consInduction
    {motive : Dissection → Prop}
    (last : ∀ rest, motive ⟨[], rest⟩)
    (cons : ∀ comment later, motive later → motive (later.cons comment))
    (dissection : Dissection) :
    motive dissection := by
  rcases dissection with ⟨comments, rest⟩
  induction comments with
  | nil =>
      exact last rest
  | cons comment others inductionHypothesis =>
      exact cons comment ⟨others, rest⟩ inductionHypothesis

/-- The grammar of texts with comments. -/
structure Proper (rule : Rule) (dissection : Dissection) : Prop where
  gaps : ∀ comment ∈ dissection.comments, ¬ rule.opener <:+: comment.gap
  bodies : ∀ comment ∈ dissection.comments, ¬ rule.extent.closing <:+: comment.body
  rest : ¬ rule.Occurs dissection.rest

theorem proper_nil_iff {rule : Rule} {rest : Text} :
    Proper rule ⟨[], rest⟩ ↔ ¬ rule.Occurs rest := by
  constructor
  · intro proper
    exact proper.rest
  · intro absent
    exact ⟨by simp, by simp, absent⟩

theorem proper_cons_iff {rule : Rule} {comment : Comment} {dissection : Dissection} :
    Proper rule (dissection.cons comment) ↔
      ¬ rule.opener <:+: comment.gap ∧
        ¬ rule.extent.closing <:+: comment.body ∧ Proper rule dissection := by
  constructor
  · rintro ⟨gaps, bodies, rest⟩
    rw [cons, List.forall_mem_cons] at gaps bodies
    exact ⟨gaps.1, bodies.1, gaps.2, bodies.2, rest⟩
  · rintro ⟨gapFree, bodyFree, gaps, bodies, rest⟩
    exact
      ⟨List.forall_mem_cons.mpr ⟨gapFree, gaps⟩, List.forall_mem_cons.mpr ⟨bodyFree, bodies⟩,
        rest⟩

end Dissection

namespace Rule

structure Delimited (rule : Rule) : Prop where
  closing_ne_nil : rule.extent.closing ≠ []
  opener_unbordered : Text.Unbordered rule.opener
  closing_unbordered : Text.Unbordered rule.extent.closing

theorem block_delimited : Rule.block.Delimited :=
  ⟨by decide, by decide, by decide⟩

theorem markup_delimited : Rule.markup.Delimited :=
  ⟨by decide, by decide, by decide⟩

theorem Delimited.extent_ne_toLineEnd
    {rule : Rule} (delimited : rule.Delimited) : rule.extent ≠ .toLineEnd := by
  intro ofLine
  apply delimited.closing_ne_nil
  rw [ofLine, Extent.closing]

theorem Delimited.endsFirst_iff
    {rule : Rule} (delimited : rule.Delimited) {body rest : Text} :
    rule.extent.EndsFirst body rest ↔
      ¬ Text.StartsIn rule.extent.closing body (rule.extent.closing ++ rest) := by
  have closes := delimited.closing_ne_nil
  rw [Text.startsIn_iff_standsAt, ← List.append_assoc]
  generalize rule.extent = extent at closes
  cases extent with
  | toLineEnd => exact absurd rfl closes
  | through closer => simp [Extent.EndsFirst, Extent.closing]

section Delimited

variable {rule : Rule} (delimited : rule.Delimited)

include delimited

theorem not_infix_body_of_first?
    {text : Text} {found : Match}
    (isFirst : rule.first? text = some found) :
    ¬ rule.extent.closing <:+: found.comment.body := by
  have endsFirst := (first?_eq_some_iff.mp isFirst).2.2
  rw [delimited.endsFirst_iff] at endsFirst
  intro inside
  exact endsFirst ((Text.startsIn_iff delimited.closing_ne_nil _ _).mpr (Or.inl inside))

theorem first?_written_append
    {comment : Comment}
    (gapFree : ¬ rule.opener <:+: comment.gap)
    (bodyFree : ¬ rule.extent.closing <:+: comment.body)
    (right : Text) :
    rule.first? (rule.written comment ++ right) = some ⟨comment, right⟩ := by
  refine first?_eq_some_iff.mpr ⟨rfl, ?_, ?_⟩
  · intro position within stands
    have starts :
        Text.StartsIn rule.opener comment.gap
          (rule.opener ++ (comment.body ++ rule.extent.closing ++ right)) := by
      apply Text.startsIn_iff_standsAt.mpr
      exact ⟨position, within, by simpa [written] using stands⟩
    exact Text.not_startsIn_of_unbordered delimited.opener_unbordered gapFree _ starts
  · rw [delimited.endsFirst_iff]
    exact Text.not_startsIn_of_unbordered delimited.closing_unbordered bodyFree right

theorem proper_dissect (text : Text) :
    (rule.dissect text).Proper rule := by
  induction text using Rule.dissect.induct rule with
  | case1 text isLast =>
      rw [dissect_of_first?_eq_none isLast]
      exact Dissection.proper_nil_iff.mpr (first?_eq_none_iff.mp isLast)
  | case2 text found isFirst _ inductionHypothesis =>
      rw [dissect_of_first?_eq_some isFirst]
      apply Dissection.proper_cons_iff.mpr
      exact
        ⟨not_infix_gap_of_first? isFirst, not_infix_body_of_first? delimited isFirst,
          inductionHypothesis⟩

theorem dissect_render
    {dissection : Dissection} (proper : dissection.Proper rule) :
    rule.dissect (dissection.render rule) = dissection := by
  induction dissection using Dissection.consInduction with
  | last rest =>
      exact dissect_of_first?_eq_none (first?_eq_none_iff.mpr proper.rest)
  | cons comment later inductionHypothesis =>
      rcases Dissection.proper_cons_iff.mp proper with ⟨gapFree, bodyFree, laterProper⟩
      have isFirst := first?_written_append delimited gapFree bodyFree (later.render rule)
      rw [Dissection.render_cons, dissect_of_first?_eq_some isFirst,
        inductionHypothesis laterProper]

/-- To follow the grammar is to be what the scan finds. -/
theorem dissect_eq_iff {text : Text} {dissection : Dissection} :
    rule.dissect text = dissection ↔
      dissection.render rule = text ∧ dissection.Proper rule := by
  constructor
  · rintro rfl
    exact ⟨render_dissect rule text, proper_dissect delimited text⟩
  · rintro ⟨rfl, proper⟩
    exact dissect_render delimited proper

end Delimited

theorem occursIn_iff_comments_ne_nil (rule : Rule) (text : Text) :
    rule.occursIn text = true ↔ (rule.dissect text).comments ≠ [] := by
  cases isFirst : rule.first? text with
  | none =>
      simp [occursIn, isFirst, dissect_of_first?_eq_none isFirst]
  | some found =>
      simp [occursIn, isFirst, dissect_of_first?_eq_some isFirst, Dissection.cons]

theorem existsUnique_dissection
    {rule : Rule} (isDelimited : rule = .block ∨ rule = .markup) (text : Text) :
    (∃! dissection : Dissection, dissection.render rule = text ∧ dissection.Proper rule) ∧
      ∀ dissection : Dissection,
        dissection.render rule = text →
        dissection.Proper rule →
        rule.erase text = dissection.kept ∧
          (rule.occursIn text = true ↔ dissection.comments ≠ []) := by
  have delimited : rule.Delimited := by
    rcases isDelimited with rfl | rfl
    · exact block_delimited
    · exact markup_delimited
  constructor
  · refine ⟨rule.dissect text, (dissect_eq_iff delimited).mp rfl, ?_⟩
    intro other follows
    exact ((dissect_eq_iff delimited).mpr follows).symm
  · intro dissection whole proper
    have found := (dissect_eq_iff delimited).mpr ⟨whole, proper⟩
    rw [erase, occursIn_iff_comments_ne_nil, found]
    exact ⟨rfl, Iff.rfl⟩

/-- A comment ends at the first closer, whatever openers are in its body, and an opener that is
never closed stays.  The slash of `/*/` does not close the comment that it stands in. -/
theorem existsUnique_dissection_nested :
    (∃! dissection : Dissection,
        dissection.render .block = "/*/ a /* b */c*/ /* d".toList ∧ dissection.Proper .block) ∧
      Rule.block.erase "/*/ a /* b */c*/ /* d".toList = "c*/ /* d".toList ∧
      Rule.block.occursIn "/*/ a /* b */c*/ /* d".toList = true ∧
      Rule.markup.erase "a<!-->b<!---->c--><!-- d".toList = "ac--><!-- d".toList ∧
      Rule.block.erase "/*/".toList = "/*/".toList ∧
      ¬ Rule.block.occursIn "/*/".toList = true := by
  have nested :=
    existsUnique_dissection (Or.inl rfl) "/*/ a /* b */c*/ /* d".toList
  have nestedParts :=
    nested.2 ⟨[⟨[], "/ a /* b ".toList⟩], "c*/ /* d".toList⟩ (by decide)
      ⟨by decide +kernel, by decide +kernel, first?_eq_none_iff.mp (by decide +kernel)⟩
  have markupParts :=
    (existsUnique_dissection (Or.inr rfl) "a<!-->b<!---->c--><!-- d".toList).2
      ⟨[⟨['a'], ">b<!--".toList⟩], "c--><!-- d".toList⟩ (by decide)
      ⟨by decide +kernel, by decide +kernel, first?_eq_none_iff.mp (by decide +kernel)⟩
  have bareParts :=
    (existsUnique_dissection (Or.inl rfl) "/*/".toList).2 ⟨[], "/*/".toList⟩ (by decide)
      ⟨by decide +kernel, by decide +kernel, first?_eq_none_iff.mp (by decide +kernel)⟩
  have bareUnmatched : ¬ Rule.block.occursIn "/*/".toList = true := by
    intro isMatched
    exact bareParts.2.mp isMatched rfl
  exact
    ⟨nested.1, nestedParts.1, nestedParts.2.mpr (List.cons_ne_nil _ _), markupParts.1,
      bareParts.1, bareUnmatched⟩

end Rule

end CommentErasure
