import CommentErasure.Text.Cut

/-!
# Comment rules

A rule says where a comment begins and how far it reaches.  `Rule.first?` finds the first comment
of a text and parts the text around it.  By positions, what it finds is the leftmost comment, and
the shortest one there (`Rule.first?_eq_some_iff`).
-/

namespace CommentErasure

/-- How far a comment reaches behind its opener. -/
inductive Extent where
  | toLineEnd
  | through (closer : Text)
  deriving DecidableEq, Repr

namespace Extent

/-- The text that ends a comment and belongs to it.  A newline ends a comment of one line without
belonging to it. -/
def closing : Extent → Text
  | .toLineEnd => []
  | .through closer => closer

/-- Part the text behind an opener into the body of the comment and what follows the comment.
There is no comment if its closer never comes. -/
def cut? (extent : Extent) (text : Text) : Option Text.Cut :=
  match extent with
  | .toLineEnd => some ⟨text.takeWhile (· ≠ '\n'), text.dropWhile (· ≠ '\n')⟩
  | .through closer => text.cut? closer

/-- A body ends as soon as it can, if this comes behind the comment: a comment of one line at the
first newline or with the text, and any other at the first place where its closer stands. -/
def EndsFirst (extent : Extent) (body rest : Text) : Prop :=
  match extent with
  | .toLineEnd => '\n' ∉ body ∧ (rest = [] ∨ rest.head? = some '\n')
  | .through closer =>
      ∀ position < body.length, ¬ Text.StandsAt closer (body ++ closer ++ rest) position

theorem takeWhile_eq_iff {text body rest : Text} :
    text.takeWhile (· ≠ '\n') = body ∧ text.dropWhile (· ≠ '\n') = rest ↔
      text = body ++ rest ∧ EndsFirst .toLineEnd body rest := by
  constructor
  · intro parts
    obtain ⟨rfl, rfl⟩ := parts
    refine ⟨List.takeWhile_append_dropWhile.symm, ?_, ?_⟩
    · intro inBody
      have passes := List.all_eq_true.mp List.all_takeWhile '\n' inBody
      simp at passes
    · cases behind : text.dropWhile (· ≠ '\n') with
      | nil =>
          exact Or.inl rfl
      | cons head tail =>
          right
          have stops := List.head?_dropWhile_not (· ≠ '\n') text
          rw [behind] at stops
          simpa using stops
  · intro parts
    obtain ⟨rfl, oneLine, ended⟩ := parts
    have bodyPasses : ∀ char ∈ body, decide (char ≠ '\n') = true := by
      intro char member
      exact decide_eq_true fun isNewline => oneLine (isNewline ▸ member)
    have stopsBehind :
        rest.takeWhile (· ≠ '\n') = [] ∧ rest.dropWhile (· ≠ '\n') = rest := by
      cases rest with
      | nil =>
          exact ⟨rfl, rfl⟩
      | cons head tail =>
          have isNewline : head = '\n' := by
            simpa using ended
          simp [isNewline]
    rw [List.takeWhile_append_of_pos bodyPasses, List.dropWhile_append_of_pos bodyPasses,
      stopsBehind.1, stopsBehind.2, List.append_nil]
    exact ⟨rfl, rfl⟩

theorem cut?_eq_some_iff {extent : Extent} {text : Text} {cut : Text.Cut} :
    extent.cut? text = some cut ↔
      text = cut.before ++ extent.closing ++ cut.after ∧
        extent.EndsFirst cut.before cut.after := by
  cases extent with
  | toLineEnd =>
      rw [cut?, Option.some.injEq, closing, List.append_nil, ← takeWhile_eq_iff, Text.Cut.mk.injEq]
  | through closer =>
      rw [cut?, Text.cut?_eq_some_iff, closing]
      apply and_congr_right
      intro whole
      rw [EndsFirst, ← whole]

end Extent

structure Rule where
  opener : Text
  extent : Extent
  opener_ne_nil : opener ≠ [] := by decide
  deriving DecidableEq, Repr

/-- A comment without its markers, and the text between it and what precedes it. -/
structure Comment where
  gap : Text
  body : Text
  deriving DecidableEq, Repr

namespace Rule

def written (rule : Rule) (comment : Comment) : Text :=
  comment.gap ++ rule.opener ++ comment.body ++ rule.extent.closing

structure Match where
  comment : Comment
  rest : Text
  deriving DecidableEq, Repr

/-- Find the first comment of a text.  It is the one at the first opener: if that is never
closed, neither is a later one. -/
def first? (rule : Rule) (text : Text) : Option Match := do
  let opened ← text.cut? rule.opener
  let closed ← rule.extent.cut? opened.after
  return ⟨⟨opened.before, closed.before⟩, closed.after⟩

theorem first?_eq_some_iff_cuts {rule : Rule} {text : Text} {found : Match} :
    rule.first? text = some found ↔
      ∃ opened,
        text.cut? rule.opener = some opened ∧
          ∃ closed,
            rule.extent.cut? opened.after = some closed ∧
              ⟨⟨opened.before, closed.before⟩, closed.after⟩ = found := by
  simp only [first?, Option.bind_eq_bind, Option.bind_eq_some_iff, Option.pure_def,
    Option.some.injEq]

/-- What is found, with the gap before it and the rest behind it, makes up the text.  No opener
stands before its own, and it ends as soon as it can. -/
theorem first?_eq_some_iff {rule : Rule} {text : Text} {found : Match} :
    rule.first? text = some found ↔
      text = rule.written found.comment ++ found.rest ∧
        (∀ position < found.comment.gap.length, ¬ Text.StandsAt rule.opener text position) ∧
        rule.extent.EndsFirst found.comment.body found.rest := by
  rw [first?_eq_some_iff_cuts]
  constructor
  · intro cuts
    obtain ⟨opened, isOpened, closed, isClosed, rfl⟩ := cuts
    obtain ⟨whole, leftmost⟩ := Text.cut?_eq_some_iff.mp isOpened
    obtain ⟨behind, endsFirst⟩ := Extent.cut?_eq_some_iff.mp isClosed
    refine ⟨?_, leftmost, endsFirst⟩
    rw [whole, behind]
    simp [written]
  · intro parts
    obtain ⟨whole, leftmost, endsFirst⟩ := parts
    refine
      ⟨⟨found.comment.gap, found.comment.body ++ rule.extent.closing ++ found.rest⟩,
        Text.cut?_eq_some_iff.mpr ⟨?_, leftmost⟩,
        ⟨found.comment.body, found.rest⟩,
        Extent.cut?_eq_some_iff.mpr ⟨rfl, endsFirst⟩, rfl⟩
    rw [whole]
    simp [written]

theorem append_of_first?
    {rule : Rule} {text : Text} {found : Match}
    (isFirst : rule.first? text = some found) :
    text = rule.written found.comment ++ found.rest :=
  (first?_eq_some_iff.mp isFirst).1

theorem length_rest_lt_of_first?
    {rule : Rule} {text : Text} {found : Match}
    (isFirst : rule.first? text = some found) :
    found.rest.length < text.length := by
  have opens : 0 < rule.opener.length :=
    List.length_pos_iff.mpr rule.opener_ne_nil
  rw [append_of_first? isFirst]
  simp only [written, List.length_append]
  omega

end Rule

end CommentErasure
