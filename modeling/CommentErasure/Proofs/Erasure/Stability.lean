import CommentErasure.Proofs.Erasure.Content
import CommentErasure.Proofs.Erasure.Outcome

/-!
# A second call on code

A file of code that a call has written is in its final form, even if a bound has cut the writing
short.  What is left of code has no comment and no `\r`, and neither has any beginning of it, so the
file is its own new content.  Only where the cut falls inside a character, the file no longer reads
as text, and that is reported.
-/

namespace CommentErasure

namespace FileTree

theorem eraseComments_eq_self_iff
    {tree : FileTree} {path : Bytes} {id : FileId} {file : File} {text : Text}
    (reads : tree.ReadsAs path id file text)
    (writable : file.access.writable = true) :
    tree.eraseComments path none = ⟨tree, none⟩ ↔
      erasedContent path text = Utf8.encode text := by
  rw [eraseComments_of_fits reads writable (by simp), Erasure.mk.injEq, and_iff_left rfl]
  constructor
  · intro same
    have newContent := (rewritten_setContent reads.holds (erasedContent path text)).newContent
    rw [same, reads.holds, Option.some.injEq] at newContent
    rw [reads.spells, newContent]
  · intro fixed
    rw [fixed, reads.spells, setContent_of_holds reads.holds]

theorem eraseComments_of_malformed
    {tree : FileTree} {path : Bytes} {id : FileId} {file : File}
    (leads : tree.fileAt path = .ok id)
    (holds : tree.file? id = some file)
    (readable : file.access.readable = true)
    (malformed : ¬ ∃ text, Utf8.encode text = file.content)
    (limit : Option Nat) :
    tree.eraseComments path limit = ⟨tree, some ⟨.read, path, .invalidUtf8⟩⟩ :=
  eraseComments_of_read_error (readText_of_malformed leads holds readable malformed) limit

theorem cutsInside_of_malformed
    {limit : Option Nat} {text : Text}
    (malformed : ¬ ∃ beginning, Utf8.encode beginning = admitted limit (Utf8.encode text)) :
    ∃ size, limit = some size ∧ Utf8.CutsInside text size := by
  cases limit with
  | none =>
      exact absurd ⟨text, rfl⟩ malformed
  | some size =>
      rcases Utf8.take_encode_or_cutsInside text size with ⟨beginning, _, taken⟩ | inside
      · exact absurd ⟨beginning, taken.symm⟩ malformed
      · exact ⟨size, rfl, inside⟩

/-- After a call that has written a file of code, a second one changes nothing at all.  It succeeds
if the file spells a text.  Otherwise it cannot read the file, and the bound of the first call was
inside a character of the text to be written. -/
theorem code_erasure_stable
    {tree : FileTree} {path : Bytes} {limit : Option Nat} {first second : Erasure}
    (isCode : Dialect.ofPath path = .code)
    (isFirst : tree.eraseComments path limit = first)
    (isSecond : first.tree.eraseComments path none = second)
    (wrote : first.Wrote) :
    second.tree = first.tree ∧
      ∃ content,
        first.tree.contentAt? path = some content ∧
          (second.failure = none ↔ ∃ text, Utf8.encode text = content) ∧
          ((¬ ∃ text, Utf8.encode text = content) →
            second.failure = some ⟨.read, path, .invalidUtf8⟩ ∧
              ∃ id file text size,
                tree.ReadsAs path id file text ∧
                  limit = some size ∧
                  Utf8.CutsInside (Dialect.code.erase text.unifyLineEnds) size) := by
  rcases eraseComments_effect tree path limit with
    ⟨id, file, text, reads, writable, changed⟩ | ⟨notWritten, _⟩
  · rw [isFirst] at changed
    have leads : first.tree.fileAt path = .ok id := by
      rw [changed.sameLayout, reads.leads]
    have shows := changed.shows path reads.leads
    by_cases spelled :
        ∃ beginning, Utf8.encode beginning = admitted limit (erasedContent path text)
    · obtain ⟨beginning, spells⟩ := spelled
      have isPrefix : Utf8.encode beginning <+: erasedContent path text := by
        rw [spells]
        exact admitted_isPrefix limit _
      have fixed := erasedContent_of_isPrefix isCode isPrefix
      have readsAgain :
          first.tree.ReadsAs path id
            { file with content := admitted limit (erasedContent path text) } beginning :=
        ⟨leads, changed.newContent, reads.readable, spells⟩
      have again := (eraseComments_eq_self_iff readsAgain writable).mpr fixed
      rw [← isSecond, again]
      refine ⟨rfl, _, shows, iff_of_true rfl ⟨beginning, spells⟩, ?_⟩
      intro malformed
      exact absurd ⟨beginning, spells⟩ malformed
    · have again :=
        eraseComments_of_malformed leads changed.newContent reads.readable spelled none
      have inside := spelled
      rw [erasedContent, isCode] at inside
      obtain ⟨size, isBound, cutsInside⟩ := cutsInside_of_malformed inside
      rw [← isSecond, again]
      refine ⟨rfl, _, shows, iff_of_false (by simp) spelled, ?_⟩
      intro _
      exact ⟨rfl, id, file, text, size, reads, isBound, cutsInside⟩
  · rw [isFirst] at notWritten
    exact absurd wrote notWritten

/-- A file of code whose last character is written as two bytes. -/
def accented : FileTree where
  entries := [([[0x63]], .file 0)]
  files := [⟨Utf8.encode "a//b\r\né".toList, {}⟩]

/-- The bound admits `a`, the newline and the first byte of `é`. -/
theorem code_erasure_stable_accented :
    Dialect.ofPath [0x63] = .code ∧
      accented.eraseComments [0x63] (some 3) =
        ⟨accented.setContent 0 [0x61, 0x0A, 0xC3], some ⟨.write, [0x63], .fileTooLarge⟩⟩ ∧
      ((accented.setContent 0 [0x61, 0x0A, 0xC3]).eraseComments [0x63] none).tree =
        accented.setContent 0 [0x61, 0x0A, 0xC3] ∧
      ((accented.setContent 0 [0x61, 0x0A, 0xC3]).eraseComments [0x63] none).failure =
        some ⟨.read, [0x63], .invalidUtf8⟩ := by
  have isCode : Dialect.ofPath [0x63] = .code := by decide
  have isFirst :
      accented.eraseComments [0x63] (some 3) =
        ⟨accented.setContent 0 [0x61, 0x0A, 0xC3], some ⟨.write, [0x63], .fileTooLarge⟩⟩ := by
    decide +kernel
  have wrote :
      Erasure.Wrote
        ⟨accented.setContent 0 [0x61, 0x0A, 0xC3], some ⟨.write, [0x63], .fileTooLarge⟩⟩ :=
    Or.inr ⟨[0x63], rfl⟩
  have malformed : ¬ ∃ text, Utf8.encode text = [0x61, 0x0A, 0xC3] := by
    intro spelled
    obtain ⟨text, spells⟩ := spelled
    have undecoded : Utf8.decode? [0x61, 0x0A, 0xC3] = none := by decide
    rw [Utf8.decode?_eq_some_iff.mpr spells] at undecoded
    exact Option.some_ne_none text undecoded
  obtain ⟨unchanged, content, shows, _, failed⟩ := code_erasure_stable isCode isFirst rfl wrote
  have holds :
      (accented.setContent 0 [0x61, 0x0A, 0xC3]).contentAt? [0x63] =
        some [0x61, 0x0A, 0xC3] := by
    decide
  have isContent : content = [0x61, 0x0A, 0xC3] :=
    Option.some.inj (shows.symm.trans holds)
  rw [isContent] at failed
  exact ⟨isCode, isFirst, unchanged, (failed malformed).1⟩

end FileTree

end CommentErasure
