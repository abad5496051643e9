import CommentErasure.Text.LineEnd
import CommentErasure.Proofs.Text.Encoding

namespace CommentErasure

namespace Text

/-! ## The two replacements -/

theorem replaceReturns_cons (head : Char) (tail : Text) :
    replaceReturns (head :: tail) =
      (if head = '\r' then '\n' else head) :: replaceReturns tail := rfl

theorem return_not_mem_replaceReturns (text : Text) :
    '\r' ∉ replaceReturns text := by
  intro member
  obtain ⟨char, _, isReturn⟩ := List.mem_map.mp member
  split at isReturn
  · exact absurd isReturn (by decide)
  · rename_i isOther
    exact isOther isReturn

theorem replaceReturns_of_not_mem {text : Text} (absent : '\r' ∉ text) :
    replaceReturns text = text := by
  induction text with
  | nil =>
      rfl
  | cons head tail inductionHypothesis =>
      rw [List.mem_cons, not_or] at absent
      rw [replaceReturns_cons, if_neg (Ne.symm absent.1), inductionHypothesis absent.2]

theorem joinReturnPairs_of_not_mem {text : Text} (absent : '\r' ∉ text) :
    joinReturnPairs text = text := by
  induction text with
  | nil =>
      rfl
  | cons head tail inductionHypothesis =>
      rw [List.mem_cons, not_or] at absent
      rw [joinReturnPairs_cons, if_neg fun pair => absent.1 pair.1.symm,
        inductionHypothesis absent.2]

theorem joinReturnPairs_sublist (text : Text) :
    (joinReturnPairs text).Sublist text := by
  induction text with
  | nil =>
      exact List.Sublist.refl []
  | cons head tail inductionHypothesis =>
      rw [joinReturnPairs_cons]
      split
      · exact inductionHypothesis.cons head
      · exact inductionHypothesis.cons_cons head

/-! ## Both of them -/

theorem unifyLineEnds_of_not_mem {text : Text} (absent : '\r' ∉ text) :
    unifyLineEnds text = text :=
  if_neg absent

/-- A text without `\r`, which is spared the replacements, would not be changed by them. -/
theorem unifyLineEnds_eq (text : Text) :
    unifyLineEnds text = replaceReturns (joinReturnPairs text) := by
  by_cases member : '\r' ∈ text
  · exact if_pos member
  · rw [unifyLineEnds_of_not_mem member, joinReturnPairs_of_not_mem member,
      replaceReturns_of_not_mem member]

theorem return_not_mem_unifyLineEnds (text : Text) :
    '\r' ∉ unifyLineEnds text := by
  rw [unifyLineEnds_eq]
  exact return_not_mem_replaceReturns _

theorem unifyLineEnds_cons (head : Char) (tail : Text) :
    unifyLineEnds (head :: tail) =
      if head = '\r' ∧ tail.head? = some '\n' then
        unifyLineEnds tail
      else
        (if head = '\r' then '\n' else head) :: unifyLineEnds tail := by
  simp only [unifyLineEnds_eq, joinReturnPairs_cons]
  split
  · rfl
  · exact replaceReturns_cons head _

theorem unifyLineEnds_append
    {left right : Text}
    (unparted : ¬ (left.getLast? = some '\r' ∧ right.head? = some '\n')) :
    unifyLineEnds (left ++ right) = unifyLineEnds left ++ unifyLineEnds right := by
  induction left with
  | nil =>
      rfl
  | cons head tail inductionHypothesis =>
      rw [List.cons_append, unifyLineEnds_cons, unifyLineEnds_cons]
      cases tail with
      | nil =>
          have notPaired : ¬ (head = '\r' ∧ right.head? = some '\n') := by
            simpa using unparted
          rw [List.nil_append, if_neg notPaired]
          simp [unifyLineEnds_of_not_mem]
      | cons second others =>
          rw [List.getLast?_cons_cons] at unparted
          rw [inductionHypothesis unparted, List.cons_append, List.head?_cons, List.head?_cons]
          split <;> rfl

theorem length_unifyLineEnds_append_of_parted
    {left right : Text}
    (endsInReturn : left.getLast? = some '\r')
    (startsLine : right.head? = some '\n') :
    (unifyLineEnds left ++ unifyLineEnds right).length =
      (unifyLineEnds (left ++ right)).length + 1 := by
  obtain ⟨before, rfl⟩ := List.getLast?_eq_some_iff.mp endsInReturn
  obtain ⟨behind, rfl⟩ := List.head?_eq_some_iff.mp startsLine
  -- The `\r` itself is no `\n`, so nothing is parted right before it.
  have joined :
      unifyLineEnds (before ++ '\r' :: '\n' :: behind) =
        unifyLineEnds before ++ '\n' :: unifyLineEnds behind := by
    rw [unifyLineEnds_append (by simp), unifyLineEnds_cons, unifyLineEnds_cons]
    simp
  have lone : unifyLineEnds (before ++ ['\r']) = unifyLineEnds before ++ ['\n'] := by
    rw [unifyLineEnds_append (by simp)]
    rfl
  have newline : unifyLineEnds ('\n' :: behind) = '\n' :: unifyLineEnds behind := by
    simp [unifyLineEnds_cons]
  rw [List.append_assoc, List.singleton_append, joined, lone, newline]
  simp only [List.length_append, List.length_cons, List.length_nil]
  omega

theorem unifyLineEnds_append_iff {left right : Text} :
    unifyLineEnds (left ++ right) = unifyLineEnds left ++ unifyLineEnds right ↔
      ¬ (left.getLast? = some '\r' ∧ right.head? = some '\n') := by
  constructor
  · intro same parted
    have longer := length_unifyLineEnds_append_of_parted parted.1 parted.2
    rw [same] at longer
    exact Nat.succ_ne_self _ longer.symm
  · exact unifyLineEnds_append

/-! ## A single pass -/

/-- Copy a text from the left, with `\n` for each `\r\n` and for each other `\r`. -/
def onePass : Text → Text
  | [] => []
  | '\r' :: '\n' :: tail => '\n' :: onePass tail
  | '\r' :: tail => '\n' :: onePass tail
  | head :: tail => head :: onePass tail

theorem unifyLineEnds_eq_onePass (text : Text) :
    unifyLineEnds text = onePass text := by
  fun_induction onePass text with
  | case1 =>
      rfl
  | case2 tail inductionHypothesis =>
      simp [unifyLineEnds_cons, inductionHypothesis]
  | case3 tail notPaired inductionHypothesis =>
      have behind : tail.head? ≠ some '\n' := by
        intro startsLine
        obtain ⟨others, tailEq⟩ := List.head?_eq_some_iff.mp startsLine
        exact notPaired others tailEq
      rw [unifyLineEnds_cons, if_neg fun pair => behind pair.2, if_pos rfl, inductionHypothesis]
  | case4 head tail _ notReturn inductionHypothesis =>
      rw [unifyLineEnds_cons, if_neg fun pair => notReturn pair.1, if_neg notReturn,
        inductionHypothesis]

theorem unifyLineEnds_one_pass (text left right : Text) :
    unifyLineEnds text = onePass text ∧
      '\r' ∉ unifyLineEnds text ∧
      (unifyLineEnds text = text ↔ '\r' ∉ text) ∧
      (unifyLineEnds (left ++ right) = unifyLineEnds left ++ unifyLineEnds right ↔
        ¬ (left.getLast? = some '\r' ∧ right.head? = some '\n')) := by
  refine
    ⟨unifyLineEnds_eq_onePass text, return_not_mem_unifyLineEnds text, ?_,
      unifyLineEnds_append_iff⟩
  constructor
  · intro same
    rw [← same]
    exact return_not_mem_unifyLineEnds text
  · exact unifyLineEnds_of_not_mem

/-! ## Sizes -/

theorem length_unifyLineEnds_le (text : Text) :
    (unifyLineEnds text).length ≤ text.length := by
  rw [unifyLineEnds_eq, replaceReturns, List.length_map]
  exact (joinReturnPairs_sublist text).length_le

/-- Both `\r` and `\n` are one byte. -/
theorem length_encode_replaceReturns (text : Text) :
    (Utf8.encode (replaceReturns text)).length = (Utf8.encode text).length := by
  induction text with
  | nil =>
      rfl
  | cons head tail inductionHypothesis =>
      have sameWidth :
          (String.utf8EncodeChar (if head = '\r' then '\n' else head)).length =
            (String.utf8EncodeChar head).length := by
        split
        · rename_i isReturn
          rw [isReturn]
          decide
        · rfl
      rw [replaceReturns_cons, Utf8.encode_cons, Utf8.encode_cons, List.length_append,
        List.length_append, sameWidth, inductionHypothesis]

theorem length_encode_unifyLineEnds_le (text : Text) :
    (Utf8.encode (unifyLineEnds text)).length ≤ (Utf8.encode text).length := by
  rw [unifyLineEnds_eq, length_encode_replaceReturns]
  exact Utf8.length_encode_le_of_sublist (joinReturnPairs_sublist text)

end Text

end CommentErasure
