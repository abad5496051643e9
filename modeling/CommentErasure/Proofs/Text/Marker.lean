import CommentErasure.Text.Cut

/-!
# Where markers stand

A marker that is found in `left ++ right` either starts within `left` or lies in `right`.
`Text.StartsIn` names the first case, in which the marker may end behind `left`:

* a marker that starts within `left` is inside, or straddles the end of it (`Text.startsIn_iff`);
* a search passes over a text in which the marker does not start (`Text.cut?_append`);
* what comes behind a text does not move a place that was found (`Text.cut?_append_of_eq_some`).
-/

namespace CommentErasure

namespace Text

/-- A marker starts within `left` when `right` comes behind it. -/
def StartsIn (marker left right : Text) : Prop :=
  ∃ ending, ending ≠ [] ∧ ending <:+ left ∧ marker <+: ending ++ right

/-! ## Starting within a text -/

theorem not_startsIn_nil (marker right : Text) :
    ¬ StartsIn marker [] right := by
  intro starts
  obtain ⟨ending, nonempty, isEnding, _⟩ := starts
  exact nonempty (List.suffix_nil.mp isEnding)

theorem startsIn_cons_iff
    {marker left right : Text} {head : Char} :
    StartsIn marker (head :: left) right ↔
      marker <+: head :: (left ++ right) ∨ StartsIn marker left right := by
  constructor
  · intro starts
    obtain ⟨ending, nonempty, isEnding, isPrefix⟩ := starts
    rcases List.suffix_cons_iff.mp isEnding with whole | inTail
    · left
      simpa [whole] using isPrefix
    · exact Or.inr ⟨ending, nonempty, inTail, isPrefix⟩
  · intro either
    rcases either with isPrefix | ⟨ending, nonempty, isEnding, isPrefix⟩
    · exact ⟨head :: left, List.cons_ne_nil head left, List.suffix_refl _, isPrefix⟩
    · exact ⟨ending, nonempty, isEnding.trans (List.suffix_cons head left), isPrefix⟩

theorem infix_append_iff_startsIn (marker left right : Text) :
    marker <:+: left ++ right ↔ StartsIn marker left right ∨ marker <:+: right := by
  induction left with
  | nil =>
      simp [not_startsIn_nil]
  | cons head tail inductionHypothesis =>
      rw [List.cons_append, List.infix_cons_iff, inductionHypothesis, startsIn_cons_iff, or_assoc]

theorem startsIn_iff
    {marker : Text} (nonempty : marker ≠ []) (left right : Text) :
    StartsIn marker left right ↔
      marker <:+: left ∨
        ∃ front back,
          front ≠ [] ∧ back ≠ [] ∧ marker = front ++ back ∧ front <:+ left ∧ back <+: right := by
  constructor
  · intro starts
    obtain ⟨ending, endingNonempty, isEnding, behind, whole⟩ := starts
    rcases List.append_eq_append_iff.mp whole with
      ⟨inside, endingEq, _⟩ | ⟨back, markerEq, rightEq⟩
    · left
      have markerInEnding : marker <+: ending := ⟨inside, endingEq.symm⟩
      exact markerInEnding.isInfix.trans isEnding.isInfix
    · by_cases backEmpty : back = []
      · left
        rw [markerEq, backEmpty, List.append_nil]
        exact isEnding.isInfix
      · right
        exact ⟨ending, back, endingNonempty, backEmpty, markerEq, isEnding, behind, rightEq.symm⟩
  · intro either
    rcases either with
      ⟨before, after, rfl⟩ | ⟨front, back, frontNonempty, _, rfl, isEnding, isPrefix⟩
    · have stillNonempty : marker ++ after ≠ [] := by
        simp [nonempty]
      have isEnding : marker ++ after <:+ before ++ marker ++ after := by
        rw [List.append_assoc]
        exact List.suffix_append before _
      refine ⟨marker ++ after, stillNonempty, isEnding, ?_⟩
      rw [List.append_assoc]
      exact List.prefix_append marker _
    · exact ⟨front, frontNonempty, isEnding, (List.prefix_append_right_inj front).mpr isPrefix⟩

theorem startsIn_pair_iff
    {first second : Char} {left right : Text} :
    StartsIn [first, second] left right ↔
      [first, second] <:+: left ∨
        left.getLast? = some first ∧ right.head? = some second := by
  rw [startsIn_iff (List.cons_ne_nil _ _)]
  constructor
  · intro either
    rcases either with
      inside | ⟨front, back, frontNonempty, backNonempty, whole, isEnding, isPrefix⟩
    · exact Or.inl inside
    · right
      have halves : front = [first] ∧ back = [second] := by
        match front, back, whole with
        | [_], [_], whole => simpa [eq_comm] using whole
        | _ :: _ :: _, _ :: _, whole => simp at whole
      rw [halves.1, List.singleton_suffix_iff_getLast?_eq_some] at isEnding
      rw [halves.2, List.singleton_prefix_iff_head?_eq_some] at isPrefix
      exact ⟨isEnding, isPrefix⟩
  · intro either
    rcases either with inside | ⟨isLast, isHead⟩
    · exact Or.inl inside
    · right
      exact
        ⟨[first], [second], List.cons_ne_nil _ _, List.cons_ne_nil _ _, rfl,
          List.singleton_suffix_iff_getLast?_eq_some.mpr isLast,
          List.singleton_prefix_iff_head?_eq_some.mpr isHead⟩

theorem not_startsIn_pair
    {first second : Char} {left right : Text}
    (absent : ¬ [first, second] <:+: left)
    (endsOtherwise : left.getLast? ≠ some first) :
    ¬ StartsIn [first, second] left right := by
  intro starts
  rcases startsIn_pair_iff.mp starts with inside | ⟨isLast, _⟩
  · exact absent inside
  · exact endsOtherwise isLast

/-- A marker that starts before a character it does not have ends before it, too. -/
theorem not_startsIn_append_singleton
    {marker left : Text} {char : Char}
    (foreign : char ∉ marker)
    (absent : ¬ marker <:+: left)
    (right : Text) :
    ¬ StartsIn marker (left ++ [char]) right := by
  intro starts
  obtain ⟨ending, nonempty, isEnding, behind, whole⟩ := starts
  rcases List.suffix_concat_iff.mp isEnding with isEmpty | ⟨front, rfl, frontIsEnding⟩
  · exact nonempty isEmpty
  · rw [List.append_assoc, List.singleton_append] at whole
    rcases List.append_eq_append_iff.mp whole with
      ⟨inside, frontEq, _⟩ | ⟨back, markerEq, rightEq⟩
    · have markerInFront : marker <+: front := ⟨inside, frontEq.symm⟩
      exact absent (markerInFront.isInfix.trans frontIsEnding.isInfix)
    · cases back with
      | nil =>
          rw [List.append_nil] at markerEq
          exact absent (markerEq ▸ frontIsEnding.isInfix)
      | cons first others =>
          have isFirst : char = first := by
            simpa using congrArg List.head? rightEq
          apply foreign
          rw [markerEq, isFirst]
          exact List.mem_append_right front List.mem_cons_self

/-- Once as much follows as the marker is long, it does not matter what comes after that. -/
theorem startsIn_append_iff
    {marker left right : Text}
    (enough : marker.length ≤ right.length)
    (further : Text) :
    StartsIn marker left (right ++ further) ↔ StartsIn marker left right := by
  constructor
  · intro starts
    obtain ⟨ending, nonempty, isEnding, isPrefix⟩ := starts
    have fits : marker.length ≤ (ending ++ right).length := by
      rw [List.length_append]
      exact Nat.le_add_left_of_le enough
    have notBeyond : ending ++ right <+: ending ++ (right ++ further) :=
      ⟨further, List.append_assoc ending right further⟩
    exact
      ⟨ending, nonempty, isEnding, List.prefix_of_prefix_length_le isPrefix notBeyond fits⟩
  · intro starts
    obtain ⟨ending, nonempty, isEnding, isPrefix⟩ := starts
    refine ⟨ending, nonempty, isEnding, isPrefix.trans ?_⟩
    exact ⟨further, List.append_assoc ending right further⟩

/-! ## Positions -/

theorem infix_iff_standsAt {marker text : Text} :
    marker <:+: text ↔ ∃ position, StandsAt marker text position := by
  constructor
  · intro inside
    obtain ⟨before, after, whole⟩ := inside
    refine ⟨before.length, ?_⟩
    rw [StandsAt, ← whole, List.append_assoc, List.drop_left]
    exact List.prefix_append marker after
  · intro stands
    obtain ⟨position, isPrefix⟩ := stands
    exact isPrefix.isInfix.trans (List.drop_suffix position text).isInfix

theorem StandsAt.of_isPrefix
    {marker left right : Text} {position : Nat}
    (stands : StandsAt marker left position)
    (isPrefix : left <+: right) :
    StandsAt marker right position := by
  obtain ⟨further, rfl⟩ := isPrefix
  rw [StandsAt, List.drop_append]
  exact List.IsPrefix.trans stands (List.prefix_append _ _)

theorem startsIn_iff_standsAt {marker left right : Text} :
    StartsIn marker left right ↔
      ∃ position < left.length, StandsAt marker (left ++ right) position := by
  constructor
  · intro starts
    obtain ⟨_, nonempty, ⟨before, rfl⟩, isPrefix⟩ := starts
    refine ⟨before.length, ?_, ?_⟩
    · rw [List.length_append]
      exact Nat.lt_add_of_pos_right (List.length_pos_iff.mpr nonempty)
    · rw [StandsAt, List.append_assoc, List.drop_left]
      exact isPrefix
  · intro stands
    obtain ⟨position, within, isPrefix⟩ := stands
    refine ⟨left.drop position, ?_, List.drop_suffix position left, ?_⟩
    · intro isEmpty
      exact Nat.not_le_of_lt within (List.drop_eq_nil_iff.mp isEmpty)
    · rw [← List.drop_append_of_le_length (Nat.le_of_lt within)]
      exact isPrefix

theorem StandsAt.of_append
    {marker left right : Text} {position : Nat}
    (stands : StandsAt marker (left ++ right) position)
    (absent : ¬ StartsIn marker left right) :
    ∃ further, position = left.length + further ∧ StandsAt marker right further := by
  have beyond : left.length ≤ position := by
    apply Nat.le_of_not_lt
    intro within
    exact absent (startsIn_iff_standsAt.mpr ⟨position, within, stands⟩)
  obtain ⟨further, rfl⟩ := Nat.exists_eq_add_of_le beyond
  refine ⟨further, rfl, ?_⟩
  rw [StandsAt, ← List.drop_drop, List.drop_left] at stands
  exact stands

/-! ## Searching -/

theorem cut?_append
    {marker left right : Text}
    (absent : ¬ StartsIn marker left right) :
    cut? (left ++ right) marker = (cut? right marker).map (Cut.prepend left) := by
  induction left with
  | nil =>
      cases found : cut? right marker <;> simp [found, Cut.prepend]
  | cons head tail inductionHypothesis =>
      rw [startsIn_cons_iff, not_or] at absent
      rw [List.cons_append, cut?_cons_of_not_isPrefix absent.1, inductionHypothesis absent.2,
        Option.map_map]
      congr 1

theorem cut?_eq_some_iff_startsIn {text marker : Text} {cut : Cut} :
    text.cut? marker = some cut ↔
      text = cut.before ++ marker ++ cut.after ∧
        ¬ StartsIn marker cut.before (marker ++ cut.after) := by
  rw [cut?_eq_some_iff]
  apply and_congr_right
  intro whole
  rw [startsIn_iff_standsAt, ← List.append_assoc, ← whole]
  simp

/-- A cut stays where it is when more text comes behind. -/
theorem cut?_append_of_eq_some
    {left marker : Text} {cut : Cut}
    (found : left.cut? marker = some cut)
    (right : Text) :
    cut? (left ++ right) marker = some { cut with after := cut.after ++ right } := by
  obtain ⟨whole, absent⟩ := cut?_eq_some_iff_startsIn.mp found
  apply cut?_eq_some_iff_startsIn.mpr
  refine ⟨?_, ?_⟩
  · rw [whole]
    simp only [List.append_assoc]
  · have enough : marker.length ≤ (marker ++ cut.after).length := by
      rw [List.length_append]
      exact Nat.le_add_right _ _
    rw [← List.append_assoc, startsIn_append_iff enough]
    exact absent

theorem cut?_eq_none_iff {text marker : Text} :
    text.cut? marker = none ↔ ¬ marker <:+: text := by
  induction text with
  | nil =>
      by_cases isEmpty : marker = []
      · simp [isEmpty, cut?, cut?.go]
      · simp [cut?_nil isEmpty, isEmpty]
  | cons head tail inductionHypothesis =>
      by_cases here : marker <+: head :: tail
      · obtain ⟨after, whole⟩ := here
        rw [← whole, cut?_append_self]
        simp [List.infix_append_left]
      · rw [cut?_cons_of_not_isPrefix here, Option.map_eq_none_iff, inductionHypothesis,
          List.infix_cons_iff]
        simp [here]

/-! ## Markers that do not overlap themselves -/

/-- No proper ending of a marker is a beginning of it. -/
def Unbordered (marker : Text) : Prop :=
  ∀ shift < marker.length, 0 < shift → ¬ marker.drop shift <+: marker

instance (marker : Text) : Decidable (Unbordered marker) :=
  inferInstanceAs (Decidable (∀ shift < marker.length, 0 < shift → ¬ marker.drop shift <+: marker))

theorem not_startsIn_of_unbordered
    {marker left : Text}
    (unbordered : Unbordered marker)
    (absent : ¬ marker <:+: left)
    (right : Text) :
    ¬ StartsIn marker left (marker ++ right) := by
  have nonempty : marker ≠ [] := by
    rintro rfl
    exact absent List.nil_infix
  intro starts
  rcases (startsIn_iff nonempty _ _).mp starts with
    inside | ⟨front, back, frontNonempty, backNonempty, whole, _, backFirst⟩
  · exact absent inside
  · have proper : front.length < marker.length := by
      rw [whole, List.length_append]
      exact Nat.lt_add_of_pos_right (List.length_pos_iff.mpr backNonempty)
    have isEnding : marker.drop front.length = back := by
      rw [whole, List.drop_left]
    have isBeginning : back <+: marker := by
      apply List.prefix_of_prefix_length_le backFirst (List.prefix_append marker right)
      rw [← isEnding, List.length_drop]
      exact Nat.sub_le _ _
    apply unbordered front.length proper (List.length_pos_iff.mpr frontNonempty)
    rw [isEnding]
    exact isBeginning

/-- A text without the marker is passed over as a whole, if the marker comes behind it. -/
theorem cut?_append_of_unbordered
    {marker left : Text}
    (unbordered : Unbordered marker)
    (absent : ¬ marker <:+: left)
    (right : Text) :
    cut? (left ++ marker ++ right) marker = some ⟨left, right⟩ :=
  cut?_eq_some_iff_startsIn.mpr ⟨rfl, not_startsIn_of_unbordered unbordered absent right⟩

end Text

end CommentErasure
