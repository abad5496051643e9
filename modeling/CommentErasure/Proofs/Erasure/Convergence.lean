import Mathlib.Logic.Function.Iterate
import CommentErasure.Proofs.Erasure.History
import CommentErasure.Proofs.Erasure.Stability

/-!
# Erasing again and again

A run over markup may stitch a comment together, which the next run removes, and so on.  This comes
to an end: as long as a text has a comment, a run takes away at least the markers of one, and a text
that is shorter than the two markers together has none.
-/

namespace CommentErasure

namespace Rule

/-- The induction is on the passes: one that changes the text makes it shorter by the two markers,
and one that does not has come to the end. -/
theorem not_occurs_iterate_erase
    {rule : Rule} {text : Text} {passes : Nat}
    (short : text.length < rule.leastLength * (passes + 1)) :
    ¬ rule.Occurs (rule.erase^[passes] text) := by
  induction passes generalizing text with
  | zero =>
      intro occurs
      have fits := length_erase_add_le_of_occurs occurs
      rw [Function.iterate_zero_apply] at fits
      omega
  | succ passes inductionHypothesis =>
      rw [Function.iterate_succ_apply]
      by_cases occurs : rule.Occurs text
      · apply inductionHypothesis
        have shorter := length_erase_add_le_of_occurs occurs
        rw [Nat.mul_succ] at short
        omega
      · have fixed := erase_of_not_occurs occurs
        rw [fixed, Function.iterate_fixed fixed]
        exact occurs

end Rule

namespace FileTree

/-! ## Calls on one file -/

section Writable

variable {tree : FileTree} {path : Bytes} {id : FileId} {file : File} {text : Text}
  (reads : tree.ReadsAs path id file text)
  (writable : file.access.writable = true)

include reads writable

theorem readsAs_eraseComments :
    (tree.eraseComments path none).tree.ReadsAs path id
      { file with content := erasedContent path text }
      ((Dialect.ofPath path).erase text.unifyLineEnds) := by
  have changed := rewritten_setContent reads.holds (erasedContent path text)
  rw [eraseComments_of_fits reads writable (by simp)]
  refine ⟨?_, changed.newContent, reads.readable, rfl⟩
  rw [changed.sameLayout, reads.leads]

/-- What the first call has left has no `\r`, so the later ones find unified line ends. -/
theorem readsAs_performAll_replicate (runs : Nat) :
    (tree.performAll (List.replicate (runs + 1) (.erase path none))).ReadsAs path id
      { file with
        content := Utf8.encode ((Dialect.ofPath path).erase^[runs + 1] text.unifyLineEnds) }
      ((Dialect.ofPath path).erase^[runs + 1] text.unifyLineEnds) := by
  induction runs generalizing tree file text with
  | zero =>
      exact readsAs_eraseComments reads writable
  | succ runs inductionHypothesis =>
      have readsNext := readsAs_eraseComments reads writable
      have noReturn := return_not_mem_erase_unifyLineEnds (Dialect.ofPath path) text
      have readsLast := inductionHypothesis readsNext writable
      rw [Text.unifyLineEnds_of_not_mem noReturn] at readsLast
      exact readsLast

end Writable

end FileTree

namespace Dialect

theorem iterate_erase_sublist (dialect : Dialect) (runs : Nat) (text : Text) :
    (dialect.erase^[runs] text).Sublist text := by
  induction runs generalizing text with
  | zero =>
      exact List.Sublist.refl text
  | succ runs inductionHypothesis =>
      exact (inductionHypothesis (dialect.erase text)).trans (erase_sublist dialect text)

/-- The two markers of markup are seven characters together. -/
theorem markup_not_occurs_iterate_erase
    {text : Text} {runs : Nat}
    (enough : text.length / 7 ≤ runs) :
    ¬ Rule.markup.Occurs (Dialect.markup.erase^[runs] text) := by
  have leastLength : Rule.markup.leastLength = 7 := rfl
  have short : text.length < Rule.markup.leastLength * (runs + 1) := by
    rw [leastLength]
    omega
  exact Rule.not_occurs_iterate_erase short

theorem markup_erasedContent_eq_iff
    {path : Bytes} {text : Text}
    (isMarkup : ofPath path = .markup)
    (commentFree : ¬ Rule.markup.Occurs text) :
    erasedContent path text = Utf8.encode text ↔ '\r' ∉ text := by
  constructor
  · intro fixed member
    have inContent : 0x0D ∈ erasedContent path text := by
      rw [fixed]
      exact List.mem_flatMap.mpr ⟨'\r', member, by decide⟩
    exact return_not_mem_erasedContent path text inContent
  · intro noReturn
    rw [erasedContent, isMarkup, Text.unifyLineEnds_of_not_mem noReturn,
      markup_erase_eq_self_iff.mpr commentFree]

theorem exists_residue
    {tree : FileTree} {path : Bytes} {id : FileId} {file : File} {text : Text} {runs : Nat}
    (isMarkup : ofPath path = .markup)
    (reads : tree.ReadsAs path id file text)
    (writable : file.access.writable = true)
    (enough : text.length / 7 ≤ runs) :
    ∃ residue,
      (tree.performAll (List.replicate runs (.erase path none))).ReadsAs path id
          { file with content := Utf8.encode residue } residue ∧
        ¬ Rule.markup.Occurs residue ∧
        ('\r' ∉ residue ↔ ('\r' ∈ text → 0 < runs)) := by
  cases runs with
  | zero =>
      refine ⟨text, ?_, markup_not_occurs_iterate_erase enough, by simp⟩
      rw [reads.spells]
      exact reads
  | succ runs =>
      have readsLater := FileTree.readsAs_performAll_replicate reads writable runs
      rw [isMarkup] at readsLater
      have unifiedEnough : text.unifyLineEnds.length / 7 ≤ runs + 1 :=
        Nat.le_trans (Nat.div_le_div_right (Text.length_unifyLineEnds_le text)) enough
      have noReturn : '\r' ∉ Dialect.markup.erase^[runs + 1] text.unifyLineEnds := by
        intro member
        have unerased := (iterate_erase_sublist .markup (runs + 1) text.unifyLineEnds).subset member
        exact Text.return_not_mem_unifyLineEnds text unerased
      exact
        ⟨_, readsLater, markup_not_occurs_iterate_erase unifiedEnough,
          iff_of_true noReturn fun _ => Nat.succ_pos runs⟩

/-- A text of markup is free of comments after one run for every seven characters, and so is the
file of a path to markup.  The next call then leaves the whole tree as it is, unless no run was
needed and the line ends are still to be unified. -/
theorem markup_erase_converges (text : Text) :
    (Dialect.markup.erase (Dialect.markup.erase^[text.length / 7] text) =
        Dialect.markup.erase^[text.length / 7] text ∧
      ¬ ∃ opening closing,
        opening + 4 ≤ closing ∧
          Text.StandsAt ['<', '!', '-', '-']
            (Dialect.markup.erase^[text.length / 7] text) opening ∧
          Text.StandsAt ['-', '-', '>']
            (Dialect.markup.erase^[text.length / 7] text) closing) ∧
      ∀ (tree : FileTree) path id file runs,
        Dialect.ofPath path = .markup →
        tree.ReadsAs path id file text →
        file.access.writable = true →
        text.length / 7 ≤ runs →
        ∃ later residue,
          tree.performAll (List.replicate runs (.erase path none)) = later ∧
            later.ReadsAs path id { file with content := Utf8.encode residue } residue ∧
            ¬ Rule.markup.Occurs residue ∧
            (later.eraseComments path none = ⟨later, none⟩ ↔ ('\r' ∈ text → 0 < runs)) := by
  have residueFree := markup_not_occurs_iterate_erase (Nat.le_refl (text.length / 7))
  refine ⟨⟨markup_erase_eq_self_iff.mpr residueFree, residueFree⟩, ?_⟩
  intro tree path id file runs isMarkup reads writable enough
  obtain ⟨residue, readsLater, laterFree, returnFree⟩ :=
    exists_residue isMarkup reads writable enough
  refine ⟨_, residue, rfl, readsLater, laterFree, ?_⟩
  rw [FileTree.eraseComments_eq_self_iff readsLater writable,
    markup_erasedContent_eq_iff isMarkup laterFree, returnFree]

def page (text : Text) : FileTree where
  entries := [([[0x61, 0x2E, 0x6D, 0x64]], .file 0)]
  files := [⟨Utf8.encode text, {}⟩]
  stored := by simp [Entry.id?]

/-- One file takes both of its runs, as the first stitches a comment together.  The other takes
none, having no comment, but its line end is still to be unified. -/
theorem markup_erase_converges_page :
    let path : Bytes := [0x61, 0x2E, 0x6D, 0x64]
    let stitched := page "<<!---->!--a-->\r".toList
    let returned := page "a\r\n".toList
    let later := stitched.performAll (List.replicate (16 / 7) (.erase path none))
    Dialect.ofPath path = .markup ∧
      (∃ residue,
        later.ReadsAs path 0 ⟨Utf8.encode residue, {}⟩ residue ∧ ¬ Rule.markup.Occurs residue) ∧
      later.eraseComments path none = ⟨later, none⟩ ∧
      returned.eraseComments path none ≠ ⟨returned, none⟩ := by
  intro path stitched returned later
  have isMarkup : Dialect.ofPath path = .markup := by decide
  have reads (text : Text) : (page text).ReadsAs path 0 ⟨Utf8.encode text, {}⟩ text :=
    ⟨rfl, rfl, rfl, rfl⟩
  have stitchedRuns :=
    (markup_erase_converges "<<!---->!--a-->\r".toList).2 stitched path 0 _ (16 / 7) isMarkup
      (reads _) rfl (by decide)
  have returnedRuns :=
    (markup_erase_converges "a\r\n".toList).2 returned path 0 _ 0 isMarkup (reads _) rfl
      (by decide)
  obtain ⟨_, residue, rfl, readsLater, laterFree, laterFixed⟩ := stitchedRuns
  obtain ⟨_, _, rfl, _, _, returnedFixed⟩ := returnedRuns
  refine
    ⟨isMarkup, ⟨residue, readsLater, laterFree⟩, laterFixed.mpr fun _ => by decide, ?_⟩
  intro fixed
  exact Nat.lt_irrefl 0 (returnedFixed.mp fixed (by decide))

/-- A text of fifteen characters for which the first of its two runs is not enough. -/
example :
    Dialect.markup.erase "<<!---->!--a-->".toList = "<!--a-->".toList ∧
      Dialect.markup.erase^[15 / 7] "<<!---->!--a-->".toList = [] := by
  decide +kernel

end Dialect

end CommentErasure
