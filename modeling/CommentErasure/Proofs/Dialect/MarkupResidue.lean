import CommentErasure.Comment.Dialect
import CommentErasure.Proofs.Comment.Stitch

namespace CommentErasure

namespace Dialect

theorem markup_erase (text : Text) :
    Dialect.markup.erase text = Rule.markup.erase text := rfl

/-- A second run leaves markup as the first has left it exactly if no gap between comments ends in
a beginning of `<!--` that is completed by what is kept behind it, with a `-->` further on. -/
theorem markup_erase_erase_eq_iff (text : Text) :
    Dialect.markup.erase (Dialect.markup.erase text) = Dialect.markup.erase text ↔
      ¬ (Rule.markup.dissect text).Stitches Rule.markup := by
  rw [markup_erase, markup_erase]
  exact Rule.erase_erase_eq_iff

/-- The first run leaves `<!--a-->`, the second leaves nothing. -/
theorem markup_erase_erase_ne :
    Dialect.markup.erase (Dialect.markup.erase "<<!---->!--a-->".toList) ≠
      Dialect.markup.erase "<<!---->!--a-->".toList := by
  have first : Dialect.markup.erase "<<!---->!--a-->".toList = "<!--a-->".toList := by cbv
  have second : Dialect.markup.erase "<!--a-->".toList = [] := by cbv
  rw [first, second]
  decide

theorem markup_stutters_iff {text : Text} :
    Rule.markup.Stutters text ↔
      ['<', '<', '!', '-', '-'] <:+: text ∨
      ['<', '!', '<', '!', '-', '-'] <:+: text ∨
      ['<', '!', '-', '<', '!', '-', '-'] <:+: text := by
  constructor
  · rintro ⟨front, back, nonempty, backNonempty, openerEq, inside⟩
    have isBeginning : front = Rule.markup.opener.take front.length := by
      rw [openerEq, List.take_left]
    have size : front.length + back.length = 4 := by
      rw [← List.length_append, ← openerEq]
      rfl
    have frontPositive := List.length_pos_iff.mpr nonempty
    have backPositive := List.length_pos_iff.mpr backNonempty
    have sizes : front.length = 1 ∨ front.length = 2 ∨ front.length = 3 := by
      omega
    rcases sizes with one | two | three
    · rw [isBeginning, one] at inside
      exact Or.inl inside
    · rw [isBeginning, two] at inside
      exact Or.inr (Or.inl inside)
    · rw [isBeginning, three] at inside
      exact Or.inr (Or.inr inside)
  · rintro (inside | inside | inside)
    · exact ⟨['<'], ['!', '-', '-'], by decide, by decide, rfl, inside⟩
    · exact ⟨['<', '!'], ['-', '-'], by decide, by decide, rfl, inside⟩
    · exact ⟨['<', '!', '-'], ['-'], by decide, by decide, rfl, inside⟩

/-- One run removes all comments from a text in which no opener comes right behind `<`, `<!` or
`<!-`.  A `-->` that arises where texts meet and a `<!--` without a closer do no harm. -/
theorem markup_erase_of_smooth
    (text : Text)
    (noOne : ¬ ['<', '<', '!', '-', '-'] <:+: text)
    (noTwo : ¬ ['<', '!', '<', '!', '-', '-'] <:+: text)
    (noThree : ¬ ['<', '!', '-', '<', '!', '-', '-'] <:+: text) :
    (¬ ∃ opening closing,
        opening + 4 ≤ closing ∧
          Text.StandsAt ['<', '!', '-', '-'] (Dialect.markup.erase text) opening ∧
          Text.StandsAt ['-', '-', '>'] (Dialect.markup.erase text) closing) ∧
      Dialect.markup.erase (Dialect.markup.erase text) = Dialect.markup.erase text := by
  have smooth : ¬ Rule.markup.Stutters text := by
    rw [markup_stutters_iff]
    rintro (inside | inside | inside)
    · exact noOne inside
    · exact noTwo inside
    · exact noThree inside
  have absent := Rule.not_occurs_erase_of_not_stutters smooth
  exact ⟨absent, Rule.erase_of_not_occurs absent⟩

/-- An opener stands in a comment, a `-->` arises where two texts meet, and a `<!--` stays. -/
theorem markup_erase_of_smooth_arrow :
    Dialect.markup.erase "<! <!--a-->--<!--<!--b-->-> <!--".toList = "<! ---> <!--".toList ∧
      Dialect.markup.erase "<! ---> <!--".toList = "<! ---> <!--".toList := by
  have first :
      Dialect.markup.erase "<! <!--a-->--<!--<!--b-->-> <!--".toList =
        "<! ---> <!--".toList := by
    decide +kernel
  have second :=
    (markup_erase_of_smooth "<! <!--a-->--<!--<!--b-->-> <!--".toList
      (by decide +kernel) (by decide +kernel) (by decide +kernel)).2
  rw [first] at second
  exact ⟨first, second⟩

end Dialect

end CommentErasure
