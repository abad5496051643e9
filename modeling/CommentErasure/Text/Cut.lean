/-!
# Texts and cuts

A text is a list of characters.  `Text.cut?` cuts a text at the first place where a marker
stands (`Text.cut?_eq_some_iff`), which is all that comment markers need of searching.
-/

namespace CommentErasure

abbrev Text := List Char

namespace Text

def StandsAt (marker text : Text) (position : Nat) : Prop :=
  marker <+: text.drop position

/-- The two sides of a text that was cut at a marker.  The marker itself is on neither side. -/
structure Cut where
  before : Text
  after : Text
  deriving DecidableEq, Repr

def Cut.prepend (front : Text) (cut : Cut) : Cut :=
  { cut with before := front ++ cut.before }

/-- Cut a text at the first place where `marker` stands. -/
def cut? (text marker : Text) : Option Cut :=
  go [] text
where
  /-- Go on behind the characters already passed, the latest of them first, so that a long
  text needs no deep recursion. -/
  go (passed : Text) : Text → Option Cut
    | [] => if marker = [] then some ⟨passed.reverse, []⟩ else none
    | head :: tail =>
        if marker.isPrefixOf (head :: tail) then
          some ⟨passed.reverse, (head :: tail).drop marker.length⟩
        else
          go (head :: passed) tail

theorem cut?.go_eq (marker passed text : Text) :
    cut?.go marker passed text =
      (cut? text marker).map (Cut.prepend passed.reverse) := by
  induction text generalizing passed with
  | nil =>
      simp only [cut?, go]
      split <;> simp [Cut.prepend]
  | cons head tail inductionHypothesis =>
      simp only [cut?, go]
      split
      · simp [Cut.prepend]
      · rw [inductionHypothesis (head :: passed), inductionHypothesis [head], Option.map_map]
        congr 1
        funext cut
        simp [Cut.prepend]

theorem cut?_nil {marker : Text} (nonempty : marker ≠ []) :
    cut? [] marker = none := by
  simp [cut?, cut?.go, nonempty]

/-- A text that starts with the marker is cut there. -/
theorem cut?_append_self (marker after : Text) :
    cut? (marker ++ after) marker = some ⟨[], after⟩ := by
  cases marker with
  | nil =>
      cases after <;> simp [cut?, cut?.go]
  | cons first others =>
      simp [cut?, cut?.go, List.isPrefixOf_iff_prefix]

/-- Where the marker does not start, the cut lies further on. -/
theorem cut?_cons_of_not_isPrefix
    {marker tail : Text} {head : Char}
    (absent : ¬ marker <+: head :: tail) :
    cut? (head :: tail) marker = (cut? tail marker).map (Cut.prepend [head]) := by
  have notHere : marker.isPrefixOf (head :: tail) = false := by
    simpa [← List.isPrefixOf_iff_prefix] using absent
  have passedOver :
      cut? (head :: tail) marker = cut?.go marker [head] tail := by
    simp [cut?, cut?.go, notHere]
  exact passedOver.trans (cut?.go_eq marker [head] tail)

/-- The induction is on what stands before the cut: the marker is at no position of that. -/
theorem cut?_append_of_first
    {before marker after : Text}
    (first :
      ∀ position < before.length, ¬ StandsAt marker (before ++ marker ++ after) position) :
    cut? (before ++ marker ++ after) marker = some ⟨before, after⟩ := by
  induction before with
  | nil =>
      exact cut?_append_self marker after
  | cons head tail inductionHypothesis =>
      have notHere : ¬ marker <+: head :: (tail ++ marker ++ after) :=
        first 0 (Nat.succ_pos _)
      have firstInTail :
          ∀ position < tail.length, ¬ StandsAt marker (tail ++ marker ++ after) position := by
        intro position within
        exact first (position + 1) (Nat.succ_lt_succ within)
      rw [List.cons_append, List.cons_append, cut?_cons_of_not_isPrefix notHere,
        inductionHypothesis firstInTail]
      rfl

/-- A cut loses nothing but the marker, and the marker stands nowhere before it. -/
theorem cut?_eq_some_iff {text marker : Text} {cut : Cut} :
    text.cut? marker = some cut ↔
      text = cut.before ++ marker ++ cut.after ∧
        ∀ position < cut.before.length, ¬ StandsAt marker text position := by
  constructor
  · intro found
    induction text generalizing cut with
    | nil =>
        by_cases isEmpty : marker = []
        · simp [cut?, cut?.go, isEmpty] at found
          simp [← found, isEmpty]
        · simp [cut?_nil isEmpty] at found
    | cons head tail inductionHypothesis =>
        by_cases here : marker <+: head :: tail
        · obtain ⟨after, whole⟩ := here
          rw [← whole, cut?_append_self] at found
          cases found
          simp [whole]
        · rw [cut?_cons_of_not_isPrefix here] at found
          obtain ⟨further, inTail, rfl⟩ := Option.map_eq_some_iff.1 found
          obtain ⟨whole, first⟩ := inductionHypothesis inTail
          refine ⟨by simp [Cut.prepend, whole], ?_⟩
          intro position within
          cases position with
          | zero => exact here
          | succ position => exact first position (Nat.lt_of_succ_lt_succ within)
  · intro parts
    obtain ⟨rfl, first⟩ := parts
    exact cut?_append_of_first first

theorem append_of_cut?
    {text marker : Text} {cut : Cut}
    (found : text.cut? marker = some cut) :
    text = cut.before ++ marker ++ cut.after :=
  (cut?_eq_some_iff.mp found).1

end Text

end CommentErasure
