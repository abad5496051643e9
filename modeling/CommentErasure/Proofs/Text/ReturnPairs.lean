import CommentErasure.Proofs.Text.LineEnd

/-!
# Texts with paired returns

In a text in which `\r` comes only right before `\n`, unifying the line ends amounts to leaving out
each `\r`.  A marker that has neither of the two characters does not notice: it is neither broken
nor brought about, so searches find the same places before and after.
-/

namespace CommentErasure

namespace Text

/-- Every `\r` of a text comes right before a `\n`. -/
def ReturnsPaired (text : Text) : Prop :=
  ∀ position < text.length,
    text[position]? = some '\r' → text[position + 1]? = some '\n'

instance (text : Text) : Decidable (ReturnsPaired text) :=
  inferInstanceAs
    (Decidable
      (∀ position < text.length,
        text[position]? = some '\r' → text[position + 1]? = some '\n'))

theorem returnsPaired_cons_iff {head : Char} {tail : Text} :
    ReturnsPaired (head :: tail) ↔
      (head = '\r' → tail.head? = some '\n') ∧ ReturnsPaired tail := by
  constructor
  · intro paired
    constructor
    · intro isReturn
      have followed := paired 0 (Nat.succ_pos _) (congrArg some isReturn)
      rwa [List.getElem?_cons_succ, ← List.head?_eq_getElem?] at followed
    · intro position within isReturn
      exact paired (position + 1) (Nat.succ_lt_succ within) isReturn
  · intro parts
    obtain ⟨headPaired, tailPaired⟩ := parts
    intro position within isReturn
    cases position with
    | zero =>
        rw [List.getElem?_cons_succ, ← List.head?_eq_getElem?]
        exact headPaired (by simpa using isReturn)
    | succ position =>
        exact tailPaired position (Nat.lt_of_succ_lt_succ within) isReturn

theorem returnsPaired_of_not_mem {text : Text} (absent : '\r' ∉ text) :
    ReturnsPaired text := by
  intro position _ isReturn
  exact absurd (List.mem_of_getElem? isReturn) absent

theorem ReturnsPaired.append
    {left right : Text}
    (leftPaired : ReturnsPaired left)
    (rightPaired : ReturnsPaired right) :
    ReturnsPaired (left ++ right) := by
  induction left with
  | nil =>
      exact rightPaired
  | cons head tail inductionHypothesis =>
      obtain ⟨headPaired, tailPaired⟩ := returnsPaired_cons_iff.mp leftPaired
      rw [List.cons_append, returnsPaired_cons_iff]
      refine ⟨?_, inductionHypothesis tailPaired⟩
      intro isReturn
      rw [List.head?_append, headPaired isReturn, Option.some_or]

theorem ReturnsPaired.right
    {left right : Text}
    (paired : ReturnsPaired (left ++ right)) :
    ReturnsPaired right := by
  induction left with
  | nil =>
      exact paired
  | cons head tail inductionHypothesis =>
      exact inductionHypothesis (returnsPaired_cons_iff.mp paired).2

theorem ReturnsPaired.left
    {left right : Text}
    (paired : ReturnsPaired (left ++ right))
    (startsOtherwise : right.head? ≠ some '\n') :
    ReturnsPaired left := by
  induction left with
  | nil =>
      exact returnsPaired_of_not_mem List.not_mem_nil
  | cons head tail inductionHypothesis =>
      obtain ⟨headPaired, tailPaired⟩ := returnsPaired_cons_iff.mp paired
      refine returnsPaired_cons_iff.mpr ⟨?_, inductionHypothesis tailPaired⟩
      intro isReturn
      have followed := headPaired isReturn
      cases tail with
      | nil => exact absurd followed startsOtherwise
      | cons second others => exact followed

theorem ReturnsPaired.getLast?_ne
    {text : Text} (paired : ReturnsPaired text) :
    text.getLast? ≠ some '\r' := by
  induction text with
  | nil =>
      simp
  | cons head tail inductionHypothesis =>
      obtain ⟨headPaired, tailPaired⟩ := returnsPaired_cons_iff.mp paired
      cases tail with
      | nil =>
          rw [List.getLast?_singleton, Ne, Option.some.injEq]
          intro isReturn
          exact absurd (headPaired isReturn) (by simp)
      | cons second others =>
          rw [List.getLast?_cons_cons]
          exact inductionHypothesis tailPaired

theorem ReturnsPaired.unifyLineEnds_append
    {left : Text} (paired : ReturnsPaired left) (right : Text) :
    unifyLineEnds (left ++ right) = unifyLineEnds left ++ unifyLineEnds right :=
  Text.unifyLineEnds_append fun parted => paired.getLast?_ne parted.1

/-! ## One character -/

theorem unifyLineEnds_return_cons
    {tail : Text} (paired : ReturnsPaired ('\r' :: tail)) :
    unifyLineEnds ('\r' :: tail) = unifyLineEnds tail := by
  have followed := (returnsPaired_cons_iff.mp paired).1 rfl
  rw [unifyLineEnds_cons, if_pos ⟨rfl, followed⟩]

theorem unifyLineEnds_cons_of_ne
    {head : Char} (isOther : head ≠ '\r') (tail : Text) :
    unifyLineEnds (head :: tail) = head :: unifyLineEnds tail := by
  rw [unifyLineEnds_cons, if_neg fun pair => isOther pair.1, if_neg isOther]

/-! ## Markers -/

def LineEndFree (marker : Text) : Prop :=
  '\r' ∉ marker ∧ '\n' ∉ marker

instance (marker : Text) : Decidable (LineEndFree marker) :=
  inferInstanceAs (Decidable ('\r' ∉ marker ∧ '\n' ∉ marker))

theorem LineEndFree.tail
    {head : Char} {tail : Text}
    (lineEndFree : LineEndFree (head :: tail)) :
    LineEndFree tail :=
  ⟨fun member => lineEndFree.1 (List.mem_cons_of_mem head member),
    fun member => lineEndFree.2 (List.mem_cons_of_mem head member)⟩

theorem LineEndFree.head?_append_ne
    {marker : Text}
    (lineEndFree : LineEndFree marker)
    (nonempty : marker ≠ [])
    (right : Text) :
    (marker ++ right).head? ≠ some '\n' := by
  obtain ⟨first, others, rfl⟩ := List.exists_cons_of_ne_nil nonempty
  rw [List.cons_append, List.head?_cons, Ne, Option.some.injEq]
  intro isNewline
  exact lineEndFree.2 (isNewline ▸ List.mem_cons_self)

theorem isPrefix_unifyLineEnds_iff
    {marker text : Text}
    (lineEndFree : LineEndFree marker)
    (paired : ReturnsPaired text) :
    marker <+: unifyLineEnds text ↔ marker <+: text := by
  induction text generalizing marker with
  | nil =>
      rfl
  | cons head tail inductionHypothesis =>
      obtain ⟨headPaired, tailPaired⟩ := returnsPaired_cons_iff.mp paired
      cases marker with
      | nil =>
          simp
      | cons first others =>
          by_cases isReturn : head = '\r'
          · subst isReturn
            -- The marker would have to begin with the `\n` behind, or with the `\r` itself.
            rw [unifyLineEnds_return_cons paired, inductionHypothesis lineEndFree tailPaired,
              List.cons_prefix_cons]
            apply iff_of_false
            · intro isPrefix
              obtain ⟨behind, rfl⟩ := isPrefix
              exact lineEndFree.head?_append_ne (List.cons_ne_nil _ _) behind (headPaired rfl)
            · intro isPrefix
              exact lineEndFree.1 (isPrefix.1 ▸ List.mem_cons_self)
          · rw [unifyLineEnds_cons_of_ne isReturn, List.cons_prefix_cons, List.cons_prefix_cons,
              inductionHypothesis lineEndFree.tail tailPaired]

def Cut.unifyLineEnds (cut : Cut) : Cut :=
  ⟨cut.before.unifyLineEnds, cut.after.unifyLineEnds⟩

theorem Cut.unifyLineEnds_prepend_return
    {tail marker : Text} {cut : Cut}
    (lineEndFree : LineEndFree marker)
    (nonempty : marker ≠ [])
    (startsLine : tail.head? = some '\n')
    (found : tail.cut? marker = some cut) :
    (cut.prepend ['\r']).unifyLineEnds = cut.unifyLineEnds := by
  have whole := append_of_cut? found
  have beforeStartsLine : cut.before.head? = some '\n' := by
    cases isBefore : cut.before with
    | nil =>
        rw [whole, isBefore, List.nil_append] at startsLine
        exact absurd startsLine (lineEndFree.head?_append_ne nonempty cut.after)
    | cons first others =>
        rw [whole, isBefore] at startsLine
        simpa using startsLine
  simp [Cut.prepend, Cut.unifyLineEnds, unifyLineEnds_cons, beforeStartsLine]

theorem cut?_unifyLineEnds
    {marker text : Text}
    (lineEndFree : LineEndFree marker)
    (paired : ReturnsPaired text) :
    (unifyLineEnds text).cut? marker = (text.cut? marker).map Cut.unifyLineEnds := by
  induction text with
  | nil =>
      by_cases isEmpty : marker = []
      · subst isEmpty
        rfl
      · simp [unifyLineEnds_of_not_mem, cut?_nil isEmpty]
  | cons head tail inductionHypothesis =>
      obtain ⟨headPaired, tailPaired⟩ := returnsPaired_cons_iff.mp paired
      have inTail := inductionHypothesis tailPaired
      have samePlace := isPrefix_unifyLineEnds_iff lineEndFree paired
      by_cases here : marker <+: head :: tail
      · obtain ⟨after, whole⟩ := here
        have markerPaired := returnsPaired_of_not_mem lineEndFree.1
        rw [← whole, markerPaired.unifyLineEnds_append,
          unifyLineEnds_of_not_mem lineEndFree.1, cut?_append_self, cut?_append_self]
        rfl
      · rw [cut?_cons_of_not_isPrefix here, Option.map_map]
        by_cases isReturn : head = '\r'
        · subst isReturn
          rw [unifyLineEnds_return_cons paired, inTail]
          have nonempty : marker ≠ [] := by
            intro isEmpty
            exact here (isEmpty ▸ List.nil_prefix)
          cases found : cut? tail marker with
          | none =>
              rfl
          | some cut =>
              have unseen :=
                Cut.unifyLineEnds_prepend_return lineEndFree nonempty (headPaired rfl) found
              exact congrArg some unseen.symm
        · rw [← samePlace, unifyLineEnds_cons_of_ne isReturn] at here
          rw [unifyLineEnds_cons_of_ne isReturn, cut?_cons_of_not_isPrefix here, inTail,
            Option.map_map]
          congr 1
          funext cut
          simp [Cut.prepend, Cut.unifyLineEnds, unifyLineEnds_cons_of_ne isReturn]

theorem dropWhile_unifyLineEnds
    {text : Text} (paired : ReturnsPaired text) :
    (unifyLineEnds text).dropWhile (· ≠ '\n') =
      unifyLineEnds (text.dropWhile (· ≠ '\n')) := by
  induction text with
  | nil =>
      rfl
  | cons head tail inductionHypothesis =>
      have inTail := inductionHypothesis (returnsPaired_cons_iff.mp paired).2
      by_cases isReturn : head = '\r'
      · subst isReturn
        rw [unifyLineEnds_return_cons paired, inTail]
        rfl
      · by_cases isNewline : head = '\n'
        · simp [isNewline, unifyLineEnds_cons_of_ne]
        · simpa [unifyLineEnds_cons_of_ne isReturn, isNewline] using inTail

end Text

end CommentErasure
