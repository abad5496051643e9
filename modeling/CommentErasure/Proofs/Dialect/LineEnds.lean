import CommentErasure.Comment.Dialect
import CommentErasure.Proofs.Comment.Erasing
import CommentErasure.Proofs.Text.ReturnPairs

/-!
# Erasing and line ends

Where lines end in `\r\n`, it makes no difference whether comments are erased before or after the
line ends are unified.  No marker has a character of a line end, so all comments are found in the
same places, and no `\r` is left alone: a comment of one line takes the `\r` with it and leaves the
`\n`, and a longer one goes together with the line ends inside it.
-/

namespace CommentErasure

open Text

/-- What follows a comment is the same, although its body may have lost a `\r` at the end. -/
theorem Extent.after_cut?_unifyLineEnds
    {extent : Extent} {text : Text}
    (lineEndFree : LineEndFree extent.closing)
    (paired : ReturnsPaired text) :
    (extent.cut? text.unifyLineEnds).map Cut.after =
      (extent.cut? text).map fun cut => cut.after.unifyLineEnds := by
  cases extent with
  | toLineEnd =>
      exact congrArg some (dropWhile_unifyLineEnds paired)
  | through closer =>
      have sameCut :
          text.unifyLineEnds.cut? closer = (text.cut? closer).map Cut.unifyLineEnds :=
        cut?_unifyLineEnds lineEndFree paired
      simp only [Extent.cut?, sameCut, Option.map_map]
      rfl

namespace Rule

structure LineEndFree (rule : Rule) : Prop where
  opener : Text.LineEndFree rule.opener
  closing : Text.LineEndFree rule.extent.closing

section LineEndFree

variable {rule : Rule} {text : Text}
  (lineEndFree : rule.LineEndFree)
  (paired : ReturnsPaired text)

include lineEndFree paired

theorem returnsPaired_of_first?
    {found : Match} (isFirst : rule.first? text = some found) :
    ReturnsPaired found.comment.gap ∧ ReturnsPaired found.rest := by
  rw [append_of_first? isFirst] at paired
  refine ⟨?_, paired.right⟩
  simp only [written, List.append_assoc] at paired
  exact paired.left (lineEndFree.opener.head?_append_ne rule.opener_ne_nil _)

theorem first?_unifyLineEnds :
    (rule.first? text.unifyLineEnds).map (fun found => (found.comment.gap, found.rest)) =
      (rule.first? text).map fun found =>
        (found.comment.gap.unifyLineEnds, found.rest.unifyLineEnds) := by
  have sameCut := cut?_unifyLineEnds lineEndFree.opener paired
  cases isOpened : text.cut? rule.opener with
  | none =>
      simp [first?, sameCut, isOpened]
  | some opened =>
      have whole := append_of_cut? isOpened
      rw [whole] at paired
      have sameAfter := Extent.after_cut?_unifyLineEnds lineEndFree.closing paired.right
      simp only [first?, sameCut, isOpened, Option.map_some, Option.bind_eq_bind,
        Option.bind_some, Option.pure_def, Cut.unifyLineEnds]
      cases isClosed : rule.extent.cut? opened.after with
      | none =>
          rw [isClosed, Option.map_none, Option.map_eq_none_iff] at sameAfter
          simp [sameAfter]
      | some closed =>
          rw [isClosed, Option.map_some, Option.map_eq_some_iff] at sameAfter
          obtain ⟨closedAgain, isClosedAgain, afterEq⟩ := sameAfter
          simp [isClosedAgain, afterEq]

theorem erase_unifyLineEnds :
    rule.erase text.unifyLineEnds = (rule.erase text).unifyLineEnds := by
  induction text using Rule.dissect.induct rule with
  | case1 text isLast =>
      have again := first?_unifyLineEnds lineEndFree paired
      rw [isLast, Option.map_none, Option.map_eq_none_iff] at again
      rw [erase_of_first?_eq_none again, erase_of_first?_eq_none isLast]
  | case2 text found isFirst _ inductionHypothesis =>
      have again := first?_unifyLineEnds lineEndFree paired
      rw [isFirst, Option.map_some, Option.map_eq_some_iff] at again
      obtain ⟨foundAgain, isFirstAgain, samePlace⟩ := again
      obtain ⟨sameGap, sameRest⟩ := Prod.mk.inj samePlace
      obtain ⟨gapPaired, restPaired⟩ := returnsPaired_of_first? lineEndFree paired isFirst
      rw [erase_of_first?_eq_some isFirstAgain, erase_of_first?_eq_some isFirst, sameGap, sameRest,
        inductionHypothesis restPaired, gapPaired.unifyLineEnds_append]

theorem returnsPaired_erase :
    ReturnsPaired (rule.erase text) := by
  induction text using Rule.dissect.induct rule with
  | case1 text isLast =>
      rw [erase_of_first?_eq_none isLast]
      exact paired
  | case2 text found isFirst _ inductionHypothesis =>
      obtain ⟨gapPaired, restPaired⟩ := returnsPaired_of_first? lineEndFree paired isFirst
      rw [erase_of_first?_eq_some isFirst]
      exact gapPaired.append (inductionHypothesis restPaired)

end LineEndFree

theorem foldl_erase_unifyLineEnds
    {rules : List Rule} {text : Text}
    (lineEndFree : ∀ rule ∈ rules, rule.LineEndFree)
    (paired : ReturnsPaired text) :
    rules.foldl (fun current rule => rule.erase current) text.unifyLineEnds =
      unifyLineEnds (rules.foldl (fun current rule => rule.erase current) text) := by
  induction rules generalizing text with
  | nil =>
      rfl
  | cons rule others inductionHypothesis =>
      rw [List.forall_mem_cons] at lineEndFree
      have stillPaired := returnsPaired_erase lineEndFree.1 paired
      rw [List.foldl_cons, List.foldl_cons, erase_unifyLineEnds lineEndFree.1 paired,
        inductionHypothesis lineEndFree.2 stillPaired]

end Rule

namespace Dialect

theorem lineEndFree_of_mem_rules
    {dialect : Dialect} {rule : Rule} (member : rule ∈ dialect.rules) :
    rule.LineEndFree := by
  cases dialect with
  | markup =>
      simp only [rules, List.mem_singleton] at member
      subst member
      exact ⟨by decide, by decide⟩
  | code =>
      simp only [rules, List.mem_cons, List.not_mem_nil, or_false] at member
      rcases member with rfl | rfl
      · exact ⟨by decide, by decide⟩
      · exact ⟨by decide, by decide⟩

/-- In a text in which every `\r` comes right before `\n`, comments can be erased before or after
the line ends are unified. -/
theorem unifyLineEnds_erase
    {text : Text} (paired : ReturnsPaired text) (dialect : Dialect) :
    (dialect.erase text).unifyLineEnds = dialect.erase text.unifyLineEnds :=
  (Rule.foldl_erase_unifyLineEnds (fun _ => lineEndFree_of_mem_rules) paired).symm

/-- A comment of one line takes a `\r` with it, a block takes whole line ends, and what it leaves
joined is the end of one line and the end of another. -/
theorem unifyLineEnds_erase_joined :
    ReturnsPaired "a//b\r\n/*\r\n*/\r\n<!--\r\n-->c\r\n".toList ∧
      Text.unifyLineEnds
          (Dialect.code.erase "a//b\r\n/*\r\n*/\r\n<!--\r\n-->c\r\n".toList) =
        "a\n\n<!--\n-->c\n".toList ∧
      Text.unifyLineEnds
          (Dialect.markup.erase "a//b\r\n/*\r\n*/\r\n<!--\r\n-->c\r\n".toList) =
        "a//b\n/*\n*/\nc\n".toList := by
  have paired : ReturnsPaired "a//b\r\n/*\r\n*/\r\n<!--\r\n-->c\r\n".toList := by
    decide +kernel
  have codeErased :
      Dialect.code.erase
          (Text.unifyLineEnds "a//b\r\n/*\r\n*/\r\n<!--\r\n-->c\r\n".toList) =
        "a\n\n<!--\n-->c\n".toList := by
    decide +kernel
  have markupErased :
      Dialect.markup.erase
          (Text.unifyLineEnds "a//b\r\n/*\r\n*/\r\n<!--\r\n-->c\r\n".toList) =
        "a//b\n/*\n*/\nc\n".toList := by
    decide +kernel
  exact
    ⟨paired, (unifyLineEnds_erase paired .code).trans codeErased,
      (unifyLineEnds_erase paired .markup).trans markupErased⟩

/-- A lone `\r` ends no comment of one line, but the newline that it is turned into does. -/
example :
    Text.unifyLineEnds (Dialect.code.erase "//\ra".toList) = [] ∧
      Dialect.code.erase (Text.unifyLineEnds "//\ra".toList) = "\na".toList := by
  decide +kernel

end Dialect

end CommentErasure
