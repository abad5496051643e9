import CommentErasure.Proofs.Comment.Resumption
import CommentErasure.Proofs.Dialect.CodeResidue

namespace CommentErasure

/-- Line comments are no obstacle to erasing part by part, as each ends with its line. -/
theorem Rule.line_erase_append_newline (left right : Text) :
    Rule.line.erase (left ++ '\n' :: right) =
      Rule.line.erase left ++ '\n' :: Rule.line.erase right :=
  Rule.erase_append_newline (by decide) (Rule.not_slashes_infix_erase_line left) right

namespace Dialect

/-- The opener of those comments of a dialect that may reach over the end of a line. -/
def spanningOpener : Dialect → Text
  | .markup => ['<', '!', '-', '-']
  | .code => ['/', '*']

/-- What is left of the first part decides, and not the part itself: all its openers may stand in
comments. -/
theorem erase_append_chunk
    (dialect : Dialect) (earlier later : Text)
    (openerFree : ¬ dialect.spanningOpener <:+: dialect.erase earlier) :
    dialect.erase (earlier ++ '\n' :: later) =
      dialect.erase earlier ++ '\n' :: dialect.erase later := by
  cases dialect with
  | markup =>
      exact Rule.erase_append_newline (by decide) openerFree later
  | code =>
      have blocksApart :
          Rule.block.erase (Rule.line.erase earlier ++ '\n' :: Rule.line.erase later) =
            Rule.block.erase (Rule.line.erase earlier) ++
              '\n' :: Rule.block.erase (Rule.line.erase later) :=
        Rule.erase_append_newline (by decide) openerFree (Rule.line.erase later)
      rw [code_erase, Rule.line_erase_append_newline, blocksApart]
      rfl

/-- The openers of the first part stand in comments, its last `*/` closes nothing, and the second
part begins with another one and leaves an opener behind. -/
theorem erase_append_chunk_tangled :
    ¬ Dialect.code.spanningOpener <:+: Dialect.code.erase "a/* b\n/* */c */ // /*".toList ∧
      Dialect.code.erase ("a/* b\n/* */c */ // /*".toList ++ '\n' :: "d*/ /*e*/f/*".toList) =
        "ac */ \nd*/ f/*".toList := by
  have earlierErased :
      Dialect.code.erase "a/* b\n/* */c */ // /*".toList = "ac */ ".toList := by decide +kernel
  have laterErased :
      Dialect.code.erase "d*/ /*e*/f/*".toList = "d*/ f/*".toList := by decide +kernel
  have openerFree :
      ¬ Dialect.code.spanningOpener <:+:
        Dialect.code.erase "a/* b\n/* */c */ // /*".toList := by
    rw [earlierErased]
    decide +kernel
  refine ⟨openerFree, ?_⟩
  rw [erase_append_chunk .code _ _ openerFree, earlierErased, laterErased]
  rfl

end Dialect

end CommentErasure
