import CommentErasure.Comment.Rule

namespace CommentErasure

/-- A text taken apart into comments and the rest behind them. -/
structure Dissection where
  comments : List Comment
  rest : Text
  deriving DecidableEq, Repr

namespace Dissection

def kept (dissection : Dissection) : Text :=
  dissection.comments.flatMap Comment.gap ++ dissection.rest

/-- The whole text, the comments written with the markers of the rule. -/
def render (rule : Rule) (dissection : Dissection) : Text :=
  dissection.comments.flatMap rule.written ++ dissection.rest

def cons (comment : Comment) (dissection : Dissection) : Dissection :=
  { dissection with comments := comment :: dissection.comments }

@[simp]
theorem render_cons (rule : Rule) (comment : Comment) (dissection : Dissection) :
    (dissection.cons comment).render rule =
      rule.written comment ++ dissection.render rule := by
  simp [render, cons]

@[simp]
theorem kept_cons (comment : Comment) (dissection : Dissection) :
    (dissection.cons comment).kept = comment.gap ++ dissection.kept := by
  simp [kept, cons]

end Dissection

namespace Rule

/-- Take a text apart into its comments, from the left.  They do not overlap, and what a comment
leaves together when it goes is not looked at again. -/
def dissect (rule : Rule) (text : Text) : Dissection :=
  match isFirst : rule.first? text with
  | none => ⟨[], text⟩
  | some found =>
      have _shorter := length_rest_lt_of_first? isFirst
      (rule.dissect found.rest).cons found.comment
termination_by text.length

theorem dissect_of_first?_eq_none
    {rule : Rule} {text : Text}
    (isLast : rule.first? text = none) :
    rule.dissect text = ⟨[], text⟩ := by
  rw [dissect]
  split
  · rfl
  · simp_all

theorem dissect_of_first?_eq_some
    {rule : Rule} {text : Text} {found : Match}
    (isFirst : rule.first? text = some found) :
    rule.dissect text = (rule.dissect found.rest).cons found.comment := by
  rw [dissect]
  split
  · simp_all
  · simp_all

/-- A dissection loses nothing. -/
theorem render_dissect (rule : Rule) (text : Text) :
    (rule.dissect text).render rule = text := by
  fun_induction rule.dissect text with
  | case1 text isLast =>
      simp [Dissection.render]
  | case2 text found isFirst _ inductionHypothesis =>
      rw [Dissection.render_cons, inductionHypothesis, ← append_of_first? isFirst]

def occursIn (rule : Rule) (text : Text) : Bool :=
  (rule.first? text).isSome

def erase (rule : Rule) (text : Text) : Text :=
  (rule.dissect text).kept

end Rule

end CommentErasure
