import Mathlib.Data.List.Forall2
import CommentErasure.Proofs.Dialect.Chunks

/-!
# Line comments, line by line

The rule for line comments scans a whole text and knows nothing of lines, apart from the newline
that ends a comment.  Yet it does to a text what could be done to each line by itself: the text is
split at its newlines, each line is cut off before its first `//`, and the lines are put together
again.  No other character has a part in this, be it `\r` or anything that some call a line end.
-/

namespace CommentErasure

namespace Text

/-! ## Lines -/

def beforeSlashes : Text → Text
  | [] => []
  | head :: tail =>
      if ['/', '/'] <+: head :: tail then [] else head :: beforeSlashes tail

theorem beforeSlashes_of_isPrefix
    {line : Text} (here : ['/', '/'] <+: line) :
    line.beforeSlashes = [] := by
  cases line with
  | nil =>
      rfl
  | cons head tail =>
      exact if_pos here

theorem beforeSlashes_cons_of_not_isPrefix
    {head : Char} {tail : Text}
    (absent : ¬ ['/', '/'] <+: head :: tail) :
    beforeSlashes (head :: tail) = head :: tail.beforeSlashes :=
  if_neg absent

theorem beforeSlashes_isPrefix (line : Text) :
    line.beforeSlashes <+: line := by
  induction line with
  | nil =>
      exact List.prefix_refl []
  | cons head tail inductionHypothesis =>
      by_cases here : ['/', '/'] <+: head :: tail
      · rw [beforeSlashes_of_isPrefix here]
        exact List.nil_prefix
      · rw [beforeSlashes_cons_of_not_isPrefix here]
        exact (List.prefix_cons_inj head).mpr inductionHypothesis

theorem not_mem_of_mem_splitOn
    {separator : Char} {text line : Text}
    (member : line ∈ text.splitOn separator) :
    separator ∉ line := by
  induction text generalizing line with
  | nil =>
      rw [List.splitOn_nil, List.mem_singleton] at member
      rw [member]
      exact List.not_mem_nil
  | cons head tail inductionHypothesis =>
      rw [List.splitOn_cons_eq_if_modifyHead] at member
      split at member
      · rcases List.mem_cons.mp member with rfl | inTail
        · exact List.not_mem_nil
        · exact inductionHypothesis inTail
      · rename_i different
        rcases List.exists_cons_of_ne_nil (List.splitOn_ne_nil separator tail) with
          ⟨first, others, split⟩
        rw [split, List.modifyHead_cons] at member
        rw [split] at inductionHypothesis
        rcases List.mem_cons.mp member with rfl | inOthers
        · rw [List.mem_cons, not_or]
          refine ⟨?_, inductionHypothesis List.mem_cons_self⟩
          rintro rfl
          exact different (beq_self_eq_true _)
        · exact inductionHypothesis (List.mem_cons_of_mem first inOthers)

/-- There is one newline less than there are lines. -/
theorem count_newline_intercalate
    {lines : List Text}
    (nonempty : lines ≠ [])
    (oneLine : ∀ line ∈ lines, '\n' ∉ line) :
    (['\n'].intercalate lines).count '\n' + 1 = lines.length := by
  induction lines with
  | nil =>
      exact absurd rfl nonempty
  | cons line others inductionHypothesis =>
      rw [List.forall_mem_cons] at oneLine
      cases others with
      | nil =>
          simp [List.count_eq_zero_of_not_mem oneLine.1]
      | cons second others =>
          have counted := inductionHypothesis (List.cons_ne_nil second others) oneLine.2
          rw [List.intercalate_cons_cons, List.append_assoc, List.count_append,
            List.count_eq_zero_of_not_mem oneLine.1, List.singleton_append,
            List.count_cons_self, List.length_cons, ← counted]
          omega

end Text

namespace Rule

/-! ## The rule for line comments -/

theorem line_erase_of_oneLine
    {line : Text} (oneLine : '\n' ∉ line) :
    Rule.line.erase line = line.beforeSlashes := by
  induction line with
  | nil =>
      exact erase_nil Rule.line
  | cons head tail inductionHypothesis =>
      by_cases here : ['/', '/'] <+: head :: tail
      · rw [Text.beforeSlashes_of_isPrefix here]
        rcases here with ⟨behind, whole⟩
        have endless : '\n' ∉ behind := by
          intro member
          apply oneLine
          rw [← whole]
          exact List.mem_append_right _ member
        have isClosed : Rule.line.extent.cut? behind = some ⟨behind, []⟩ :=
          Extent.cut?_eq_some_iff.mpr ⟨by simp [Rule.line, Extent.closing], endless, Or.inl rfl⟩
        rw [← whole]
        exact (erase_opener_append isClosed).trans (erase_nil Rule.line)
      · have apart : ¬ Text.StartsIn Rule.line.opener [head] tail := by
          rw [Text.startsIn_cons_iff, not_or]
          exact ⟨here, Text.not_startsIn_nil _ _⟩
        rw [List.mem_cons, not_or] at oneLine
        rw [Text.beforeSlashes_cons_of_not_isPrefix here, ← inductionHypothesis oneLine.2]
        exact erase_append apart

theorem line_erase_intercalate
    {lines : List Text} (oneLine : ∀ line ∈ lines, '\n' ∉ line) :
    Rule.line.erase (['\n'].intercalate lines) =
      ['\n'].intercalate (lines.map Text.beforeSlashes) := by
  induction lines with
  | nil =>
      exact erase_nil Rule.line
  | cons line others inductionHypothesis =>
      rw [List.forall_mem_cons] at oneLine
      have firstErased := line_erase_of_oneLine oneLine.1
      have othersErased := inductionHypothesis oneLine.2
      cases others with
      | nil =>
          simpa using firstErased
      | cons second others =>
          rw [List.map_cons] at othersErased
          simp only [List.map_cons, List.intercalate_cons_cons, List.append_assoc,
            List.singleton_append]
          rw [line_erase_append_newline, firstErased, othersErased]

/-- The rule for line comments cuts each line off before its first `//`.  So the number of newlines
stays, each line is left with a beginning of itself, and there is a comment wherever there is a
`//`. -/
theorem line_erase_linewise (text : Text) :
    Rule.line.erase text =
        ['\n'].intercalate ((text.splitOn '\n').map Text.beforeSlashes) ∧
      (Rule.line.erase text).count '\n' = text.count '\n' ∧
      List.Forall₂ (· <+: ·) ((Rule.line.erase text).splitOn '\n') (text.splitOn '\n') ∧
      (Rule.line.occursIn text = true ↔ ['/', '/'] <:+: text) := by
  have nonempty : text.splitOn '\n' ≠ [] := List.splitOn_ne_nil '\n' text
  have oneLine : ∀ line ∈ text.splitOn '\n', '\n' ∉ line :=
    fun _ => Text.not_mem_of_mem_splitOn
  have stillOneLine :
      ∀ line ∈ (text.splitOn '\n').map Text.beforeSlashes, '\n' ∉ line := by
    rw [List.forall_mem_map]
    intro line member inBeginning
    exact oneLine line member ((Text.beforeSlashes_isPrefix line).subset inBeginning)
  have stillNonempty : (text.splitOn '\n').map Text.beforeSlashes ≠ [] :=
    mt List.map_eq_nil_iff.mp nonempty
  have erased := line_erase_intercalate oneLine
  rw [List.intercalate_splitOn] at erased
  refine ⟨erased, ?_, ?_, ?_⟩
  · have before := Text.count_newline_intercalate nonempty oneLine
    have after := Text.count_newline_intercalate stillNonempty stillOneLine
    rw [List.intercalate_splitOn] at before
    rw [← erased, List.length_map] at after
    omega
  · rw [erased, List.splitOn_intercalate '\n' stillOneLine stillNonempty,
      List.forall₂_map_left_iff, List.forall₂_same]
    intro line _
    exact Text.beforeSlashes_isPrefix line
  · rw [occursIn_iff, line_occurs_iff]

example : Rule.line.erase "a//b\r\u2028c\n///d//\n\re/".toList = "a\n\n\re/".toList := by
  decide +kernel

end Rule

end CommentErasure
