import CommentErasure.Proofs.Comment.Grammar

/-!
# Going on with a scan

The comments that are complete in a text stay the same when more text comes behind it.  So a scan
of both can be taken up again at the rest behind the last comment of the first.

A comment of one line is the exception, as it is complete only with the end of its line.  For such
a rule, the text behind has to begin with a newline.
-/

namespace CommentErasure

theorem Extent.cut?_append_of_eq_some
    {extent : Extent} {left right : Text} {cut : Text.Cut}
    (lineEnds : extent = .toLineEnd → right.head? = some '\n')
    (found : extent.cut? left = some cut) :
    extent.cut? (left ++ right) = some { cut with after := cut.after ++ right } := by
  cases extent with
  | toLineEnd =>
      have startsLine := lineEnds rfl
      obtain ⟨whole, oneLine, ended⟩ := cut?_eq_some_iff.mp found
      apply cut?_eq_some_iff.mpr
      refine ⟨?_, oneLine, Or.inr ?_⟩
      · rw [whole, List.append_assoc]
      · rcases ended with isEmpty | afterStartsLine
        · rw [isEmpty, List.nil_append, startsLine]
        · rw [List.head?_append, afterStartsLine, Option.some_or]
  | through closer =>
      exact Text.cut?_append_of_eq_some found right

def Dissection.continueWith (dissection later : Dissection) : Dissection :=
  ⟨dissection.comments ++ later.comments, later.rest⟩

theorem Dissection.kept_continueWith (dissection later : Dissection) :
    (dissection.continueWith later).kept =
      dissection.comments.flatMap Comment.gap ++ later.kept := by
  simp [kept, continueWith]

namespace Rule

theorem first?_append_of_eq_some
    {rule : Rule} {left right : Text} {found : Match}
    (lineEnds : rule.extent = .toLineEnd → right.head? = some '\n')
    (isFirst : rule.first? left = some found) :
    rule.first? (left ++ right) = some { found with rest := found.rest ++ right } := by
  obtain ⟨opened, isOpened, closed, isClosed, rfl⟩ := first?_eq_some_iff_cuts.mp isFirst
  have opensAgain := Text.cut?_append_of_eq_some isOpened right
  have closesAgain := Extent.cut?_append_of_eq_some lineEnds isClosed
  exact first?_eq_some_iff_cuts.mpr ⟨_, opensAgain, _, closesAgain, rfl⟩

theorem dissect_append
    {rule : Rule} {left right : Text}
    (lineEnds : rule.extent = .toLineEnd → right.head? = some '\n') :
    rule.dissect (left ++ right) =
      (rule.dissect left).continueWith (rule.dissect ((rule.dissect left).rest ++ right)) := by
  induction left using Rule.dissect.induct rule with
  | case1 left isLast =>
      rw [dissect_of_first?_eq_none isLast]
      rfl
  | case2 left found isFirst _ inductionHypothesis =>
      have foundAgain := first?_append_of_eq_some lineEnds isFirst
      rw [dissect_of_first?_eq_some foundAgain, inductionHypothesis,
        dissect_of_first?_eq_some isFirst]
      rfl

theorem erase_append_dissect
    {rule : Rule} {left right : Text}
    (lineEnds : rule.extent = .toLineEnd → right.head? = some '\n') :
    rule.erase (left ++ right) =
      (rule.dissect left).comments.flatMap Comment.gap ++
        rule.erase ((rule.dissect left).rest ++ right) := by
  rw [erase, dissect_append lineEnds, Dissection.kept_continueWith, ← erase]

/-- A scan never goes back behind the last comment that it has found, wherever the text is parted:
in a gap, in a comment or within a marker. -/
theorem erase_append_resumed
    {rule : Rule} (isDelimited : rule = .block ∨ rule = .markup) (left right : Text) :
    let scan := rule.dissect left
    let settled := scan.comments.flatMap Comment.gap
    (scan.render rule = left ∧ scan.Proper rule ∧ (¬ rule.Occurs left → scan = ⟨[], left⟩)) ∧
      rule.erase left = settled ++ scan.rest ∧
      rule.erase (left ++ right) = settled ++ rule.erase (scan.rest ++ right) ∧
      rule.dissect (left ++ right) =
        scan.continueWith (rule.dissect (scan.rest ++ right)) := by
  intro scan settled
  have delimited : rule.Delimited := by
    rcases isDelimited with rfl | rfl
    · exact block_delimited
    · exact markup_delimited
  have noLineEnds : rule.extent = .toLineEnd → right.head? = some '\n' :=
    fun ofLine => absurd ofLine delimited.extent_ne_toLineEnd
  refine ⟨⟨render_dissect rule left, proper_dissect delimited left, ?_⟩, rfl,
    erase_append_dissect noLineEnds, dissect_append noLineEnds⟩
  intro absent
  exact dissect_of_first?_eq_none (first?_eq_none_iff.mpr absent)

/-- One text is parted within an opener, the other within a closer. -/
theorem erase_append_resumed_parted :
    Rule.block.erase ("x/*1*/y/".toList ++ "*2*/z".toList) =
        ['x'] ++ Rule.block.erase ("y/".toList ++ "*2*/z".toList) ∧
      Rule.markup.erase ("x<!--1-->y<!--2-".toList ++ "->z".toList) =
        ['x'] ++ Rule.markup.erase ("y<!--2-".toList ++ "->z".toList) := by
  have block :=
    (erase_append_resumed (Or.inl rfl) "x/*1*/y/".toList "*2*/z".toList).2.2.1
  have markup :=
    (erase_append_resumed (Or.inr rfl) "x<!--1-->y<!--2-".toList "->z".toList).2.2.1
  have blockScan : Rule.block.dissect "x/*1*/y/".toList = ⟨[⟨['x'], ['1']⟩], "y/".toList⟩ := by
    cbv
  have markupScan :
      Rule.markup.dissect "x<!--1-->y<!--2-".toList = ⟨[⟨['x'], ['1']⟩], "y<!--2-".toList⟩ := by
    cbv
  rw [blockScan] at block
  rw [markupScan] at markup
  exact ⟨block, markup⟩

theorem rest_dissect_suffix_erase (rule : Rule) (text : Text) :
    (rule.dissect text).rest <:+ rule.erase text :=
  List.suffix_append _ _

theorem erase_append_newline
    {rule : Rule} {left : Text}
    (foreign : '\n' ∉ rule.opener)
    (openerFree : ¬ rule.opener <:+: rule.erase left)
    (right : Text) :
    rule.erase (left ++ '\n' :: right) = rule.erase left ++ '\n' :: rule.erase right := by
  have restFree : ¬ rule.opener <:+: (rule.dissect left).rest := by
    intro inside
    exact openerFree (inside.trans (rest_dissect_suffix_erase rule left).isInfix)
  have lineApart :
      ¬ Text.StartsIn rule.opener ((rule.dissect left).rest ++ ['\n']) right :=
    Text.not_startsIn_append_singleton foreign restFree right
  have resumed :
      rule.erase ((rule.dissect left).rest ++ '\n' :: right) =
        (rule.dissect left).rest ++ '\n' :: rule.erase right := by
    simpa using erase_append lineApart
  rw [erase_append_dissect (fun _ => rfl), resumed, ← List.append_assoc]
  rfl

end Rule

end CommentErasure
