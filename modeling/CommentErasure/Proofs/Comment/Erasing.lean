import CommentErasure.Comment.Dissection
import CommentErasure.Proofs.Comment.Occurrence

namespace CommentErasure

namespace Rule

theorem erase_of_first?_eq_none
    {rule : Rule} {text : Text}
    (isLast : rule.first? text = none) :
    rule.erase text = text := by
  simp [erase, dissect_of_first?_eq_none isLast, Dissection.kept]

theorem erase_of_first?_eq_some
    {rule : Rule} {text : Text} {found : Match}
    (isFirst : rule.first? text = some found) :
    rule.erase text = found.comment.gap ++ rule.erase found.rest := by
  rw [erase, dissect_of_first?_eq_some isFirst, Dissection.kept_cons, erase]

theorem erase_of_not_occurs
    {rule : Rule} {text : Text}
    (absent : ¬ rule.Occurs text) :
    rule.erase text = text :=
  erase_of_first?_eq_none (first?_eq_none_iff.mpr absent)

theorem occursIn_iff {rule : Rule} {text : Text} :
    rule.occursIn text = true ↔ rule.Occurs text := by
  rw [occursIn, Option.isSome_iff_ne_none, Ne, first?_eq_none_iff, Classical.not_not]

theorem erase_append
    {rule : Rule} {left right : Text}
    (absent : ¬ Text.StartsIn rule.opener left right) :
    rule.erase (left ++ right) = left ++ rule.erase right := by
  have passedOver := first?_append absent
  cases isFirst : rule.first? right with
  | none =>
      rw [isFirst, Option.map_none] at passedOver
      rw [erase_of_first?_eq_none passedOver, erase_of_first?_eq_none isFirst]
  | some found =>
      rw [isFirst, Option.map_some] at passedOver
      rw [erase_of_first?_eq_some passedOver, erase_of_first?_eq_some isFirst]
      simp [Match.prepend]

theorem erase_opener_append
    {rule : Rule} {behind : Text} {closed : Text.Cut}
    (isClosed : rule.extent.cut? behind = some closed) :
    rule.erase (rule.opener ++ behind) = rule.erase closed.after := by
  rw [erase_of_first?_eq_some (first?_opener_append isClosed), List.nil_append]

/-- Characters are only taken away. -/
theorem erase_sublist (rule : Rule) (text : Text) :
    (rule.erase text).Sublist text := by
  induction text using Rule.dissect.induct rule with
  | case1 text isLast =>
      simp [erase_of_first?_eq_none isLast]
  | case2 text found isFirst _ inductionHypothesis =>
      have gapKept : found.comment.gap.Sublist (rule.written found.comment) := by
        simp only [written, List.append_assoc]
        exact List.sublist_append_left _ _
      have joined := gapKept.append inductionHypothesis
      rw [← append_of_first? isFirst] at joined
      rw [erase_of_first?_eq_some isFirst]
      exact joined

@[simp]
theorem erase_nil (rule : Rule) : rule.erase [] = [] :=
  List.sublist_nil.mp (erase_sublist rule [])

theorem length_erase_le (rule : Rule) (text : Text) :
    (rule.erase text).length ≤ text.length :=
  (erase_sublist rule text).length_le

/-- The length of a comment without a body. -/
def leastLength (rule : Rule) : Nat :=
  rule.opener.length + rule.extent.closing.length

theorem leastLength_pos (rule : Rule) : 0 < rule.leastLength :=
  Nat.add_pos_left (List.length_pos_iff.mpr rule.opener_ne_nil) _

theorem length_erase_add_le_of_occurs
    {rule : Rule} {text : Text}
    (occurs : rule.Occurs text) :
    (rule.erase text).length + rule.leastLength ≤ text.length := by
  cases isFirst : rule.first? text with
  | none =>
      exact absurd occurs (first?_eq_none_iff.mp isFirst)
  | some found =>
      have whole := congrArg List.length (append_of_first? isFirst)
      have bound := length_erase_le rule found.rest
      rw [erase_of_first?_eq_some isFirst]
      simp only [written, leastLength, List.length_append] at whole ⊢
      omega

theorem length_erase_lt_of_occurs
    {rule : Rule} {text : Text}
    (occurs : rule.Occurs text) :
    (rule.erase text).length < text.length :=
  Nat.lt_of_lt_of_le (Nat.lt_add_of_pos_right rule.leastLength_pos)
    (length_erase_add_le_of_occurs occurs)

theorem erase_eq_self_iff {rule : Rule} {text : Text} :
    rule.erase text = text ↔ ¬ rule.Occurs text := by
  constructor
  · intro same occurs
    have shorter := length_erase_lt_of_occurs occurs
    rw [same] at shorter
    exact Nat.lt_irrefl _ shorter
  · exact erase_of_not_occurs

end Rule

end CommentErasure
