import CommentErasure.Comment.Rule
import CommentErasure.Proofs.Text.Marker

namespace CommentErasure

namespace Rule

/-- An opener stands in a text and, behind the end of it, what closes the comment. -/
def Occurs (rule : Rule) (text : Text) : Prop :=
  ∃ opening closing,
    opening + rule.opener.length ≤ closing ∧
      Text.StandsAt rule.opener text opening ∧
      Text.StandsAt rule.extent.closing text closing

def Begins (rule : Rule) (text : Text) : Prop :=
  ∃ behind, text = rule.opener ++ behind ∧ rule.extent.closing <:+: behind

/-! ## Comments in two texts one behind the other -/

theorem occurs_iff {rule : Rule} {text : Text} :
    rule.Occurs text ↔ ∃ ending, ending <:+ text ∧ rule.Begins ending := by
  constructor
  · intro occurs
    obtain ⟨opening, closing, apart, ⟨behind, opens⟩, closes⟩ := occurs
    refine ⟨text.drop opening, List.drop_suffix opening text, behind, opens.symm, ?_⟩
    have behindEq : behind = text.drop (opening + rule.opener.length) := by
      rw [← List.drop_drop, ← opens, List.drop_left]
    have closesBehind :
        rule.extent.closing <+:
          behind.drop (closing - (opening + rule.opener.length)) := by
      rw [behindEq, List.drop_drop, Nat.add_sub_cancel' apart]
      exact closes
    exact closesBehind.isInfix.trans (List.drop_suffix _ behind).isInfix
  · intro begun
    obtain ⟨_, ⟨before, rfl⟩, _, rfl, body, after, rfl⟩ := begun
    have opens :
        Text.StandsAt rule.opener
          (before ++ (rule.opener ++ (body ++ rule.extent.closing ++ after))) before.length := by
      rw [Text.StandsAt, List.drop_left]
      exact List.prefix_append rule.opener _
    have closes :
        Text.StandsAt rule.extent.closing
          (before ++ (rule.opener ++ (body ++ rule.extent.closing ++ after)))
          (before.length + rule.opener.length + body.length) := by
      rw [Text.StandsAt, ← List.drop_drop, ← List.drop_drop, List.drop_left, List.drop_left,
        List.append_assoc, List.drop_left]
      exact List.prefix_append rule.extent.closing after
    exact
      ⟨before.length, before.length + rule.opener.length + body.length, Nat.le_add_right _ _,
        opens, closes⟩

theorem Begins.isPrefix {rule : Rule} {text : Text} (begins : rule.Begins text) :
    rule.opener <+: text := by
  obtain ⟨behind, rfl, _⟩ := begins
  exact List.prefix_append rule.opener behind

theorem occurs_cons_iff {rule : Rule} {head : Char} {tail : Text} :
    rule.Occurs (head :: tail) ↔ rule.Begins (head :: tail) ∨ rule.Occurs tail := by
  simp only [occurs_iff, List.suffix_cons_iff]
  constructor
  · intro begun
    obtain ⟨ending, isWhole | inTail, begins⟩ := begun
    · exact Or.inl (isWhole ▸ begins)
    · exact Or.inr ⟨ending, inTail, begins⟩
  · intro either
    rcases either with begins | ⟨ending, inTail, begins⟩
    · exact ⟨head :: tail, Or.inl rfl, begins⟩
    · exact ⟨ending, Or.inr inTail, begins⟩

theorem occurs_append_iff {rule : Rule} {left right : Text} :
    rule.Occurs (left ++ right) ↔
      (∃ ending, ending ≠ [] ∧ ending <:+ left ∧ rule.Begins (ending ++ right)) ∨
        rule.Occurs right := by
  induction left with
  | nil =>
      simp only [List.nil_append, List.suffix_nil]
      constructor
      · exact Or.inr
      · intro either
        rcases either with ⟨ending, nonempty, isEmpty, _⟩ | occurs
        · exact absurd isEmpty nonempty
        · exact occurs
  | cons head tail inductionHypothesis =>
      rw [List.cons_append, occurs_cons_iff, inductionHypothesis, ← or_assoc]
      apply or_congr_left
      constructor
      · intro either
        rcases either with begins | ⟨ending, nonempty, isEnding, begins⟩
        · exact ⟨head :: tail, List.cons_ne_nil head tail, List.suffix_refl _, begins⟩
        · exact ⟨ending, nonempty, isEnding.trans (List.suffix_cons head tail), begins⟩
      · intro begun
        obtain ⟨ending, nonempty, isEnding, begins⟩ := begun
        rcases List.suffix_cons_iff.mp isEnding with isWhole | inTail
        · left
          simpa [isWhole] using begins
        · exact Or.inr ⟨ending, nonempty, inTail, begins⟩

theorem occurs_append_of_not_startsIn
    {rule : Rule} {left right : Text}
    (absent : ¬ Text.StartsIn rule.opener left right) :
    rule.Occurs (left ++ right) ↔ rule.Occurs right := by
  rw [occurs_append_iff]
  apply or_iff_right
  intro begun
  obtain ⟨ending, nonempty, isEnding, begins⟩ := begun
  apply absent
  exact ⟨ending, nonempty, isEnding, begins.isPrefix⟩

theorem Occurs.opener_infix {rule : Rule} {text : Text} (occurs : rule.Occurs text) :
    rule.opener <:+: text := by
  obtain ⟨ending, isEnding, begins⟩ := occurs_iff.mp occurs
  exact begins.isPrefix.isInfix.trans isEnding.isInfix

theorem Occurs.of_isPrefix
    {rule : Rule} {left right : Text}
    (occurs : rule.Occurs left)
    (isPrefix : left <+: right) :
    rule.Occurs right := by
  obtain ⟨opening, closing, apart, opens, closes⟩ := occurs
  exact ⟨opening, closing, apart, opens.of_isPrefix isPrefix, closes.of_isPrefix isPrefix⟩

/-- A comment that is closed behind the first opener is closed in what follows that opener. -/
theorem occurs_opener_append_iff {rule : Rule} {behind : Text} :
    rule.Occurs (rule.opener ++ behind) ↔ rule.extent.closing <:+: behind := by
  constructor
  · intro occurs
    obtain ⟨_, isEnding, later, rfl, closes⟩ := occurs_iff.mp occurs
    have laterIsEnding : later <:+ rule.opener ++ behind :=
      (List.suffix_append rule.opener later).trans isEnding
    have notLonger : later.length ≤ behind.length := by
      have bound := isEnding.length_le
      simp only [List.length_append] at bound
      omega
    have inBehind : later <:+ behind :=
      List.suffix_of_suffix_length_le laterIsEnding (List.suffix_append rule.opener behind)
        notLonger
    exact closes.trans inBehind.isInfix
  · intro closes
    exact occurs_iff.mpr ⟨_, List.suffix_refl _, behind, rfl, closes⟩

/-! ## The search for a first comment -/

theorem extent_cut?_eq_none_iff {extent : Extent} {text : Text} :
    extent.cut? text = none ↔ ¬ extent.closing <:+: text := by
  cases extent with
  | toLineEnd =>
      simp [Extent.cut?, Extent.closing]
  | through closer =>
      exact Text.cut?_eq_none_iff

theorem first?_eq_none_iff {rule : Rule} {text : Text} :
    rule.first? text = none ↔ ¬ rule.Occurs text := by
  cases isOpened : text.cut? rule.opener with
  | none =>
      have absent := Text.cut?_eq_none_iff.mp isOpened
      simp only [first?, isOpened]
      exact iff_of_true rfl fun occurs => absent occurs.opener_infix
  | some opened =>
      obtain ⟨whole, absent⟩ := Text.cut?_eq_some_iff_startsIn.mp isOpened
      have sameOccurrence :
          rule.Occurs text ↔ rule.extent.closing <:+: opened.after := by
        rw [whole, List.append_assoc, occurs_append_of_not_startsIn absent,
          occurs_opener_append_iff]
      rw [sameOccurrence, ← extent_cut?_eq_none_iff]
      simp only [first?, isOpened, Option.bind_eq_bind, Option.bind_some, Option.pure_def]
      cases rule.extent.cut? opened.after <;> simp

theorem not_startsIn_gap_of_first?
    {rule : Rule} {text : Text} {found : Match}
    (isFirst : rule.first? text = some found) :
    ¬ Text.StartsIn rule.opener found.comment.gap
      (rule.opener ++ found.comment.body ++ rule.extent.closing ++ found.rest) := by
  obtain ⟨whole, leftmost, _⟩ := first?_eq_some_iff.mp isFirst
  intro starts
  obtain ⟨position, within, stands⟩ := Text.startsIn_iff_standsAt.mp starts
  apply leftmost position within
  rw [whole]
  simpa [written] using stands

theorem not_infix_gap_of_first?
    {rule : Rule} {text : Text} {found : Match}
    (isFirst : rule.first? text = some found) :
    ¬ rule.opener <:+: found.comment.gap := by
  intro inside
  apply not_startsIn_gap_of_first? isFirst
  exact (Text.startsIn_iff rule.opener_ne_nil _ _).mpr (Or.inl inside)

def Match.prepend (front : Text) (found : Match) : Match :=
  { found with comment := { found.comment with gap := front ++ found.comment.gap } }

theorem first?_append
    {rule : Rule} {left right : Text}
    (absent : ¬ Text.StartsIn rule.opener left right) :
    rule.first? (left ++ right) = (rule.first? right).map (Match.prepend left) := by
  simp only [first?, Text.cut?_append absent, Option.bind_eq_bind, Option.bind_map]
  cases right.cut? rule.opener with
  | none =>
      rfl
  | some opened =>
      simp only [Option.bind_some, Function.comp_apply, Text.Cut.prepend]
      cases rule.extent.cut? opened.after <;> rfl

theorem first?_opener_append
    {rule : Rule} {behind : Text} {closed : Text.Cut}
    (isClosed : rule.extent.cut? behind = some closed) :
    rule.first? (rule.opener ++ behind) = some ⟨⟨[], closed.before⟩, closed.after⟩ := by
  simp [first?, Text.cut?_append_self, isClosed]

end Rule

end CommentErasure
