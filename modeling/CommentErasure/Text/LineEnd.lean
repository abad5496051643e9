import CommentErasure.Text.Cut

namespace CommentErasure

namespace Text

/-- Turn every pair `\r\n` into `\n`, by leaving out each `\r` that stands right before `\n`. -/
def joinReturnPairs (text : Text) : Text :=
  go [] text
where
  /-- Go on behind the characters already written, the latest of them first. -/
  go (written : Text) : Text → Text
    | [] => written.reverse
    | head :: tail =>
        if head = '\r' ∧ tail.head? = some '\n' then
          go written tail
        else
          go (head :: written) tail

def replaceReturns (text : Text) : Text :=
  text.map fun char => if char = '\r' then '\n' else char

/-- Turn every line end into `\n`: pairs first, then the returns that are left. -/
def unifyLineEnds (text : Text) : Text :=
  if '\r' ∈ text then
    replaceReturns (joinReturnPairs text)
  else
    text

theorem joinReturnPairs.go_eq (written text : Text) :
    joinReturnPairs.go written text = written.reverse ++ joinReturnPairs text := by
  induction text generalizing written with
  | nil =>
      simp [joinReturnPairs, go]
  | cons head tail inductionHypothesis =>
      simp only [joinReturnPairs, go]
      split
      · exact inductionHypothesis written
      · rw [inductionHypothesis (head :: written), inductionHypothesis [head]]
        simp

@[simp]
theorem joinReturnPairs_nil : joinReturnPairs [] = [] := rfl

theorem joinReturnPairs_cons (head : Char) (tail : Text) :
    joinReturnPairs (head :: tail) =
      if head = '\r' ∧ tail.head? = some '\n' then
        joinReturnPairs tail
      else
        head :: joinReturnPairs tail := by
  simp only [joinReturnPairs, joinReturnPairs.go]
  split
  · rfl
  · exact joinReturnPairs.go_eq [head] tail

example :
    unifyLineEnds ['a', '\r', '\r', '\n', 'b', '\r'] = ['a', '\n', '\n', 'b', '\n'] := by
  decide

end Text

end CommentErasure
