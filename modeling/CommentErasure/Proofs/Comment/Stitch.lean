import CommentErasure.Proofs.Comment.Erasing

/-!
# Comments that erasing stitches together

A gap has no opener, and the rest behind the last comment has no comment.  So if a comment is left
when all comments of a rule have been removed, its opener began at the end of a gap and was
completed by what moved up to that gap.
-/

namespace CommentErasure

namespace Rule

/-- The end of `left` and the beginning of `right` make up an opener, and what closes the comment
comes further on in `right`. -/
def Stitched (rule : Rule) (left right : Text) : Prop :=
  ∃ front back behind,
    front ≠ [] ∧ back ≠ [] ∧ rule.opener = front ++ back ∧
      front <:+ left ∧ right = back ++ behind ∧ rule.extent.closing <:+: behind

theorem Stitched.begins
    {rule : Rule} {left right : Text}
    (stitched : rule.Stitched left right) :
    ∃ ending, ending ≠ [] ∧ ending <:+ left ∧ rule.Begins (ending ++ right) := by
  obtain ⟨front, back, behind, nonempty, _, openerEq, isEnding, rightEq, closes⟩ := stitched
  have begins : rule.Begins (front ++ right) := by
    refine ⟨behind, ?_, closes⟩
    rw [rightEq, openerEq, List.append_assoc]
  exact ⟨front, nonempty, isEnding, begins⟩

theorem stitched_of_begins
    {rule : Rule} {left right ending : Text}
    (openerFree : ¬ rule.opener <:+: left)
    (nonempty : ending ≠ [])
    (isEnding : ending <:+ left)
    (begins : rule.Begins (ending ++ right)) :
    rule.Stitched left right := by
  obtain ⟨behind, whole, closes⟩ := begins
  rcases List.append_eq_append_iff.mp whole with ⟨back, openerEq, rightEq⟩ | ⟨_, endingEq, _⟩
  · have backNonempty : back ≠ [] := by
      intro isEmpty
      apply openerFree
      rw [openerEq, isEmpty, List.append_nil]
      exact isEnding.isInfix
    exact ⟨ending, back, behind, nonempty, backNonempty, openerEq, isEnding, rightEq, closes⟩
  · exfalso
    apply openerFree
    have inEnding : rule.opener <:+: ending := by
      rw [endingEq]
      exact List.infix_append_left
    exact inEnding.trans isEnding.isInfix

theorem occurs_append_of_not_infix
    {rule : Rule} {left right : Text}
    (openerFree : ¬ rule.opener <:+: left) :
    rule.Occurs (left ++ right) ↔ rule.Stitched left right ∨ rule.Occurs right := by
  rw [occurs_append_iff]
  apply or_congr_left
  constructor
  · intro begun
    obtain ⟨ending, nonempty, isEnding, begins⟩ := begun
    exact stitched_of_begins openerFree nonempty isEnding begins
  · exact Stitched.begins

end Rule

namespace Dissection

/-- Some gap of a dissection is stitched to what is kept behind the comment after the gap. -/
def Stitches (rule : Rule) (dissection : Dissection) : Prop :=
  ∃ earlier comment later,
    dissection.comments = earlier ++ comment :: later ∧
      rule.Stitched comment.gap (kept ⟨later, dissection.rest⟩)

theorem not_stitches_nil (rule : Rule) (rest : Text) :
    ¬ Stitches rule ⟨[], rest⟩ := by
  intro stitches
  obtain ⟨earlier, comment, later, isEmpty, _⟩ := stitches
  simp at isEmpty

theorem stitches_cons_iff
    {rule : Rule} {comment : Comment} {dissection : Dissection} :
    Stitches rule (dissection.cons comment) ↔
      rule.Stitched comment.gap dissection.kept ∨ Stitches rule dissection := by
  constructor
  · intro stitches
    obtain ⟨earlier, chosen, later, commentsEq, stitched⟩ := stitches
    cases earlier with
    | nil =>
        left
        simp only [cons, List.nil_append, List.cons.injEq] at commentsEq
        have laterEq : dissection = ⟨later, dissection.rest⟩ := by
          rw [← commentsEq.2]
        rw [commentsEq.1, laterEq]
        exact stitched
    | cons first others =>
        right
        simp only [cons, List.cons_append, List.cons.injEq] at commentsEq
        exact ⟨others, chosen, later, commentsEq.2, stitched⟩
  · intro either
    rcases either with stitched | ⟨earlier, chosen, later, commentsEq, stitched⟩
    · exact ⟨[], comment, dissection.comments, rfl, stitched⟩
    · refine ⟨comment :: earlier, chosen, later, ?_, stitched⟩
      rw [cons, commentsEq, List.cons_append]

end Dissection

namespace Rule

theorem occurs_erase_iff {rule : Rule} {text : Text} :
    rule.Occurs (rule.erase text) ↔ (rule.dissect text).Stitches rule := by
  induction text using Rule.dissect.induct rule with
  | case1 text isLast =>
      rw [erase_of_first?_eq_none isLast, dissect_of_first?_eq_none isLast]
      exact
        iff_of_false (first?_eq_none_iff.mp isLast) (Dissection.not_stitches_nil rule text)
  | case2 text found isFirst _ inductionHypothesis =>
      have openerFree := not_infix_gap_of_first? isFirst
      rw [erase_of_first?_eq_some isFirst, dissect_of_first?_eq_some isFirst,
        occurs_append_of_not_infix openerFree, Dissection.stitches_cons_iff, inductionHypothesis]
      rfl

theorem erase_erase_eq_iff {rule : Rule} {text : Text} :
    rule.erase (rule.erase text) = rule.erase text ↔ ¬ (rule.dissect text).Stitches rule := by
  rw [erase_eq_self_iff, occurs_erase_iff]

/-! ## Texts in which nothing can be stitched together -/

/-- Right before an opener stands what another opener might begin with. -/
def Stutters (rule : Rule) (text : Text) : Prop :=
  ∃ front back,
    front ≠ [] ∧ back ≠ [] ∧ rule.opener = front ++ back ∧ front ++ rule.opener <:+: text

theorem gap_append_opener_infix
    {rule : Rule} {text : Text} {comment : Comment}
    (member : comment ∈ (rule.dissect text).comments) :
    comment.gap ++ rule.opener <:+: text := by
  have opens : comment.gap ++ rule.opener <+: rule.written comment := by
    simp only [written, List.append_assoc, List.prefix_append_right_inj]
    exact List.prefix_append _ _
  have isWritten :
      rule.written comment <:+: (rule.dissect text).comments.flatMap rule.written := by
    rw [List.flatMap_def]
    exact List.infix_of_mem_flatten (List.mem_map_of_mem member)
  have inRender := isWritten.trans (List.prefix_append _ (rule.dissect text).rest).isInfix
  rw [← Dissection.render, render_dissect] at inRender
  exact opens.isInfix.trans inRender

theorem stutters_of_stitches
    {rule : Rule} {text : Text}
    (stitches : (rule.dissect text).Stitches rule) :
    rule.Stutters text := by
  rcases stitches with ⟨earlier, comment, later, commentsEq, stitched⟩
  rcases stitched with
    ⟨front, back, behind, nonempty, backNonempty, openerEq, ⟨before, gapEq⟩, _, _⟩
  have member : comment ∈ (rule.dissect text).comments := by
    rw [commentsEq]
    exact List.mem_append_right earlier List.mem_cons_self
  have inText := gap_append_opener_infix member
  rw [← gapEq, List.append_assoc] at inText
  have isEnding : front ++ rule.opener <:+ before ++ (front ++ rule.opener) :=
    List.suffix_append before _
  exact ⟨front, back, nonempty, backNonempty, openerEq, isEnding.isInfix.trans inText⟩

theorem not_occurs_erase_of_not_stutters
    {rule : Rule} {text : Text}
    (smooth : ¬ rule.Stutters text) :
    ¬ rule.Occurs (rule.erase text) := by
  intro occurs
  exact smooth (stutters_of_stitches (occurs_erase_iff.mp occurs))

end Rule

end CommentErasure
