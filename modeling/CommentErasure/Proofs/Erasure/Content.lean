import CommentErasure.Erasure
import CommentErasure.Proofs.Dialect.FixedPoints
import CommentErasure.Proofs.Text.LineEnd

namespace CommentErasure

namespace Dialect

/-- Neither rule finds a comment in the residue, so neither finds one in a beginning of it. -/
theorem code_erase_of_isPrefix
    {text beginning : Text}
    (isPrefix : beginning <+: Dialect.code.erase text) :
    Dialect.code.erase beginning = beginning := by
  have lineFree := Rule.not_slashes_infix_erase_line text
  apply code_erase_eq_self_iff.mpr
  constructor
  · intro inside
    exact Rule.not_slashes_infix_erase_block lineFree (inside.trans isPrefix.isInfix)
  · intro occurs
    exact Rule.not_occurs_erase_block lineFree (occurs.of_isPrefix isPrefix)

end Dialect

theorem length_erasedContent_le (path : Bytes) (text : Text) :
    (erasedContent path text).length ≤ (Utf8.encode text).length :=
  calc
    (erasedContent path text).length ≤ (Utf8.encode text.unifyLineEnds).length :=
      Utf8.length_encode_le_of_sublist (Dialect.erase_sublist _ _)
    _ ≤ (Utf8.encode text).length := Text.length_encode_unifyLineEnds_le text

theorem return_not_mem_erase_unifyLineEnds (dialect : Dialect) (text : Text) :
    '\r' ∉ dialect.erase text.unifyLineEnds := by
  intro member
  have unerased := (Dialect.erase_sublist dialect text.unifyLineEnds).subset member
  exact Text.return_not_mem_unifyLineEnds text unerased

theorem return_not_mem_erasedContent (path : Bytes) (text : Text) :
    0x0D ∉ erasedContent path text := by
  intro member
  have inText := Utf8.ofNat_mem_of_ascii_mem_encode member (by decide)
  exact return_not_mem_erase_unifyLineEnds _ text inText

theorem erasedContent_of_isPrefix
    {path : Bytes} {text beginning : Text}
    (isCode : Dialect.ofPath path = .code)
    (isPrefix : Utf8.encode beginning <+: erasedContent path text) :
    erasedContent path beginning = Utf8.encode beginning := by
  rw [erasedContent, isCode, Utf8.encode_isPrefix_iff] at isPrefix
  have noReturn : '\r' ∉ beginning := by
    intro member
    exact return_not_mem_erase_unifyLineEnds .code text (isPrefix.subset member)
  rw [erasedContent, isCode, Text.unifyLineEnds_of_not_mem noReturn,
    Dialect.code_erase_of_isPrefix isPrefix]

end CommentErasure
