import CommentErasure.Proofs.Text.LineEnd

namespace CommentErasure

inductive LineEnd where
  | newline
  | pair
  | loneReturn
  deriving DecidableEq, Repr

def LineEnd.text : LineEnd → Text
  | .newline => ['\n']
  | .pair => ['\r', '\n']
  | .loneReturn => ['\r']

namespace Text

/-- Write each newline of a text in the style that is given for its position. -/
def restyle (style : Nat → LineEnd) : Text → Text
  | [] => []
  | head :: tail =>
      (if head = '\n' then (style 0).text else [head]) ++
        restyle (fun position => style (position + 1)) tail

/-- No newline that is written as a lone `\r` comes right before one that stays `\n`. -/
def StaysApart (style : Nat → LineEnd) (text : Text) : Prop :=
  ∀ position < text.length,
    text[position]? = some '\n' →
    text[position + 1]? = some '\n' →
    ¬ (style position = .loneReturn ∧ style (position + 1) = .newline)

instance (style : Nat → LineEnd) (text : Text) : Decidable (StaysApart style text) :=
  inferInstanceAs
    (Decidable
      (∀ position < text.length,
        text[position]? = some '\n' →
        text[position + 1]? = some '\n' →
        ¬ (style position = .loneReturn ∧ style (position + 1) = .newline)))

theorem StaysApart.tail
    {style : Nat → LineEnd} {head : Char} {tail : Text}
    (apart : StaysApart style (head :: tail)) :
    StaysApart (fun position => style (position + 1)) tail := by
  intro position within
  have apartThere := apart (position + 1) (Nat.succ_lt_succ within)
  simpa only [List.getElem?_cons_succ] using apartThere

theorem head?_restyle_eq_newline_iff {style : Nat → LineEnd} {text : Text} :
    (text.restyle style).head? = some '\n' ↔
      text.head? = some '\n' ∧ style 0 = .newline := by
  cases text with
  | nil =>
      simp [restyle]
  | cons head tail =>
      by_cases isNewline : head = '\n'
      · cases chosen : style 0 <;> simp [restyle, isNewline, chosen, LineEnd.text]
      · simp [restyle, isNewline]

/-- A lone `\r` is not read together with what comes behind it. -/
theorem StaysApart.head?_restyle_ne
    {style : Nat → LineEnd} {tail : Text}
    (apart : StaysApart style ('\n' :: tail))
    (isLone : style 0 = .loneReturn) :
    (tail.restyle fun position => style (position + 1)).head? ≠ some '\n' := by
  intro startsLine
  obtain ⟨tailStartsLine, staysNewline⟩ := head?_restyle_eq_newline_iff.mp startsLine
  apply apart 0 (Nat.succ_pos _) rfl _ ⟨isLone, staysNewline⟩
  rw [List.getElem?_cons_succ, ← List.head?_eq_getElem?, tailStartsLine]

theorem unifyLineEnds_restyle
    {style : Nat → LineEnd} {text : Text}
    (noReturn : '\r' ∉ text)
    (apart : StaysApart style text) :
    (text.restyle style).unifyLineEnds = text := by
  induction text generalizing style with
  | nil =>
      rfl
  | cons head tail inductionHypothesis =>
      rw [List.mem_cons, not_or] at noReturn
      have tailUnified := inductionHypothesis noReturn.2 apart.tail
      by_cases isNewline : head = '\n'
      · subst isNewline
        rw [restyle, if_pos rfl]
        cases chosen : style 0 with
        | newline =>
            simp [LineEnd.text, unifyLineEnds_cons, tailUnified]
        | pair =>
            simp [LineEnd.text, unifyLineEnds_cons, tailUnified]
        | loneReturn =>
            have notPaired := apart.head?_restyle_ne chosen
            simp [LineEnd.text, unifyLineEnds_cons, notPaired, tailUnified]
      · have isOther : head ≠ '\r' := Ne.symm noReturn.1
        simp [restyle, isNewline, unifyLineEnds_cons, isOther, tailUnified]

end Text

end CommentErasure
