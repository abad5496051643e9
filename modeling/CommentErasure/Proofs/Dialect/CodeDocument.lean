import CommentErasure.Proofs.Dialect.CodeResidue

/-!
# Code documents

A code document is made of pieces of code with a remark between each two of them.  It is well
formed if nothing in it but the remarks reads as a comment: no opener is in a piece, in the body of
a block that the first rule looks at, or where two neighbours meet.

Each rule then erases its own remarks and nothing else:

* `CodeDocument.erase_line_render`: line remarks go, blocks stay as they are written;
* `CodeDocument.erase_block_withoutLines`: after that, the blocks go;
* `CodeDocument.code_erase_render`: what is left of a well-formed document is its code.
-/

namespace CommentErasure

open Text

inductive Remark where
  | line (body : Text)
  | block (body : Text)
  deriving DecidableEq, Repr

def Remark.render : Remark → Text
  | .line body => ['/', '/'] ++ body
  | .block body => ['/', '*'] ++ body ++ ['*', '/']

/-- Pieces of code, one behind the other, with a remark between each two of them. -/
inductive CodeDocument where
  | final (piece : Text)
  | remarked (piece : Text) (remark : Remark) (following : CodeDocument)
  deriving DecidableEq, Repr

namespace CodeDocument

def leading : CodeDocument → Text
  | .final piece => piece
  | .remarked piece _ _ => piece

def render : CodeDocument → Text
  | .final piece => piece
  | .remarked piece remark following => piece ++ remark.render ++ following.render

def code : CodeDocument → Text
  | .final piece => piece
  | .remarked piece _ following => piece ++ following.code

def withoutLines : CodeDocument → Text
  | .final piece => piece
  | .remarked piece (.line _) following => piece ++ following.withoutLines
  | .remarked piece (.block body) following =>
      piece ++ (Remark.block body).render ++ following.withoutLines

def Bare (piece : Text) : Prop :=
  ¬ ['/', '/'] <:+: piece ∧ ¬ ['/', '*'] <:+: piece

/-- A remark reaches no further than it is meant to.  A line remark is ended by the line or by the
document.  A block has neither `//` nor `*/` in its body, and no slash right behind it. -/
def Ends (following : CodeDocument) : Remark → Prop
  | .line body =>
      '\n' ∉ body ∧ (following.leading.head? = some '\n' ∨ following = .final [])
  | .block body =>
      ¬ ['/', '/'] <:+: body ∧ ¬ ['*', '/'] <:+: body ∧ following.render.head? ≠ some '/'

/-- Nothing but the remarks reads as a comment. -/
def WellFormed : CodeDocument → Prop
  | .final piece => Bare piece
  | .remarked piece remark following =>
      Bare piece ∧ piece.getLast? ≠ some '/' ∧ following.Ends remark ∧ following.WellFormed

instance (piece : Text) : Decidable (Bare piece) :=
  inferInstanceAs (Decidable (_ ∧ _))

instance (following : CodeDocument) : (remark : Remark) → Decidable (following.Ends remark)
  | .line _ => inferInstanceAs (Decidable (_ ∧ _))
  | .block _ => inferInstanceAs (Decidable (_ ∧ _))

instance decidableWellFormed : (document : CodeDocument) → Decidable document.WellFormed
  | .final piece => inferInstanceAs (Decidable (Bare piece))
  | .remarked _ _ following =>
      have := decidableWellFormed following
      inferInstanceAs (Decidable (_ ∧ _))

/-! ## The first rule -/

theorem render_eq_nil_or_head?_eq_newline
    {following : CodeDocument} {body : Text}
    (ends : following.Ends (.line body)) :
    following.render = [] ∨ following.render.head? = some '\n' := by
  obtain ⟨_, startsLine | isFinal⟩ := ends
  · right
    cases following with
    | final piece =>
        exact startsLine
    | remarked piece remark others =>
        rw [leading] at startsLine
        simp [render, List.head?_append, startsLine]
  · left
    rw [isFinal, render]

/-- The first rule passes over a block. -/
theorem not_startsIn_block
    {following : CodeDocument} {body : Text}
    (ends : following.Ends (.block body)) :
    ¬ StartsIn ['/', '/'] (Remark.block body).render following.render := by
  obtain ⟨slashFree, _, noSlashBehind⟩ := ends
  have openerApart : ¬ StartsIn ['/', '/'] ['/', '*'] (body ++ ['*', '/']) :=
    not_startsIn_pair (by decide) (by decide)
  have bodyApart : ¬ StartsIn ['/', '/'] body ['*', '/'] := by
    intro starts
    rcases startsIn_pair_iff.mp starts with inside | ⟨_, isHead⟩
    · exact slashFree inside
    · exact absurd isHead (by decide)
  intro starts
  rcases startsIn_pair_iff.mp starts with inside | ⟨_, isHead⟩
  · rw [Remark.render, List.append_assoc, infix_append_iff_startsIn,
      infix_append_iff_startsIn] at inside
    rcases inside with inOpener | inBody | inCloser
    · exact openerApart inOpener
    · exact bodyApart inBody
    · exact absurd inCloser (by decide)
  · exact noSlashBehind isHead

theorem erase_line_render
    {document : CodeDocument} (wellFormed : document.WellFormed) :
    Rule.line.erase document.render = document.withoutLines := by
  induction document with
  | final piece =>
      have noLine : ¬ Rule.line.Occurs piece :=
        mt Rule.line_occurs_iff.mp wellFormed.1
      exact Rule.erase_of_not_occurs noLine
  | remarked piece remark following inductionHypothesis =>
      obtain ⟨bare, noSlash, ends, followingWellFormed⟩ := wellFormed
      have pieceApart :
          ¬ StartsIn ['/', '/'] piece (remark.render ++ following.render) :=
        not_startsIn_pair bare.1 noSlash
      rw [render, List.append_assoc, Rule.erase_append pieceApart]
      cases remark with
      | line body =>
          have isClosed :
              Rule.line.extent.cut? (body ++ following.render) = some ⟨body, following.render⟩ :=
            Extent.cut?_eq_some_iff.mpr
              ⟨by simp [Rule.line, Extent.closing], ends.1,
                render_eq_nil_or_head?_eq_newline ends⟩
          have opens :
              (Remark.line body).render ++ following.render =
                Rule.line.opener ++ (body ++ following.render) := by
            rw [Remark.render, List.append_assoc]
            rfl
          rw [opens, Rule.erase_opener_append isClosed, inductionHypothesis followingWellFormed,
            withoutLines]
      | block body =>
          have blockApart := not_startsIn_block ends
          rw [Rule.erase_append blockApart, inductionHypothesis followingWellFormed,
            withoutLines, List.append_assoc]

/-! ## The second rule -/

theorem erase_block_withoutLines
    {document : CodeDocument} (wellFormed : document.WellFormed) :
    Rule.block.erase document.withoutLines = document.code := by
  induction document with
  | final piece =>
      have noBlock : ¬ Rule.block.Occurs piece :=
        mt Rule.Occurs.opener_infix wellFormed.2
      exact Rule.erase_of_not_occurs noBlock
  | remarked piece remark following inductionHypothesis =>
      obtain ⟨bare, noSlash, ends, followingWellFormed⟩ := wellFormed
      cases remark with
      | line body =>
          have pieceApart : ¬ StartsIn ['/', '*'] piece following.withoutLines :=
            not_startsIn_pair bare.2 noSlash
          rw [withoutLines, Rule.erase_append pieceApart,
            inductionHypothesis followingWellFormed, code]
      | block body =>
          have pieceApart :
              ¬ StartsIn ['/', '*'] piece
                ((Remark.block body).render ++ following.withoutLines) :=
            not_startsIn_pair bare.2 noSlash
          have opens :
              (Remark.block body).render ++ following.withoutLines =
                Rule.block.opener ++ (body ++ ['*', '/'] ++ following.withoutLines) := by
            simp only [Remark.render, List.append_assoc]
            rfl
          have isClosed :
              Rule.block.extent.cut? (body ++ ['*', '/'] ++ following.withoutLines) =
                some ⟨body, following.withoutLines⟩ :=
            cut?_append_of_unbordered (by decide) ends.2.1 following.withoutLines
          rw [withoutLines, List.append_assoc, Rule.erase_append pieceApart, opens,
            Rule.erase_opener_append isClosed, inductionHypothesis followingWellFormed, code]

/-! ## Both rules -/

/-- What is left of a well-formed document is its code. -/
theorem code_erase_render
    (document : CodeDocument) (wellFormed : document.WellFormed) :
    Dialect.code.erase document.render = document.code := by
  rw [Dialect.code_erase, erase_line_render wellFormed, erase_block_withoutLines wellFormed]

/-- Markers of each kind in the body of the other, a stray `*/` in a piece, and blocks whose bodies
begin and end with characters of their markers. -/
def tangled : CodeDocument :=
  .remarked "x*/ ".toList (.block "/b\n*".toList) <|
    .remarked "*y".toList (.line " /* */ //z".toList) <|
      .remarked "\n".toList (.block "a/".toList) <|
        .final "*/".toList

theorem code_erase_render_tangled :
    tangled.WellFormed ∧
      tangled.render = "x*/ /*/b\n**/*y// /* */ //z\n/*a/*/*/".toList ∧
      Dialect.code.erase tangled.render = "x*/ *y\n*/".toList :=
  ⟨by decide, by decide, code_erase_render tangled (by decide)⟩

end CodeDocument

end CommentErasure
