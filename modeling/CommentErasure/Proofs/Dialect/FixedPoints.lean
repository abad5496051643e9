import Mathlib.Data.List.Basic
import CommentErasure.Proofs.Dialect.CodeResidue

namespace CommentErasure

namespace Rule

theorem foldl_erase_sublist (rules : List Rule) (text : Text) :
    (rules.foldl (fun current rule => rule.erase current) text).Sublist text := by
  induction rules generalizing text with
  | nil =>
      exact List.Sublist.refl text
  | cons rule others inductionHypothesis =>
      exact (inductionHypothesis (rule.erase text)).trans (erase_sublist rule text)

theorem foldl_erase_eq_self_iff {rules : List Rule} {text : Text} :
    rules.foldl (fun current rule => rule.erase current) text = text ↔
      ∀ rule ∈ rules, ¬ rule.Occurs text := by
  induction rules with
  | nil =>
      simp
  | cons rule others inductionHypothesis =>
      rw [List.foldl_cons, List.forall_mem_cons, ← inductionHypothesis, ← erase_eq_self_iff]
      constructor
      · intro same
        -- What comes out of the last rule is all there, so the first has taken nothing away.
        have notShorter := foldl_erase_sublist others (rule.erase text)
        rw [same] at notShorter
        have kept : rule.erase text = text := (erase_sublist rule text).antisymm notShorter
        exact ⟨kept, by rwa [kept] at same⟩
      · intro keptByEach
        rw [keptByEach.1, keptByEach.2]

theorem occursIn_iff_erase_ne {rule : Rule} {text : Text} :
    rule.occursIn text = true ↔ rule.erase text ≠ text := by
  rw [occursIn_iff, Ne, erase_eq_self_iff, Classical.not_not]

end Rule

namespace Dialect

theorem erase_sublist (dialect : Dialect) (text : Text) :
    (dialect.erase text).Sublist text :=
  Rule.foldl_erase_sublist dialect.rules text

theorem erase_eq_self_iff {dialect : Dialect} {text : Text} :
    dialect.erase text = text ↔ ∀ rule ∈ dialect.rules, ¬ rule.Occurs text :=
  Rule.foldl_erase_eq_self_iff

theorem code_erase_eq_self_iff {text : Text} :
    Dialect.code.erase text = text ↔
      ¬ ['/', '/'] <:+: text ∧ ¬ Rule.block.Occurs text := by
  simp [erase_eq_self_iff, rules, Rule.line_occurs_iff]

theorem markup_erase_eq_self_iff {text : Text} :
    Dialect.markup.erase text = text ↔ ¬ Rule.markup.Occurs text := by
  simp [erase_eq_self_iff, rules]

theorem length_erase_lt_of_ne
    {dialect : Dialect} {text : Text}
    (changed : dialect.erase text ≠ text) :
    (dialect.erase text).length < text.length := by
  apply Nat.lt_of_not_le
  intro notShorter
  exact changed ((erase_sublist dialect text).eq_of_length_le notShorter)

/-- Erasing keeps a text of code exactly if neither `//` nor a `/*` with a `*/` behind it stands in
it, and markup exactly if no `<!--` with a `-->` behind it does.  If anything changes, the text gets
shorter by characters that go.  A rule finds a comment exactly where it changes the text. -/
theorem erase_fixed_points (text : Text) :
    (Dialect.code.erase text = text ↔
        ¬ ['/', '/'] <:+: text ∧
          ¬ ∃ opening closing,
            opening + 2 ≤ closing ∧
              Text.StandsAt ['/', '*'] text opening ∧ Text.StandsAt ['*', '/'] text closing) ∧
      (Dialect.markup.erase text = text ↔
        ¬ ∃ opening closing,
          opening + 4 ≤ closing ∧
            Text.StandsAt ['<', '!', '-', '-'] text opening ∧
            Text.StandsAt ['-', '-', '>'] text closing) ∧
      (∀ dialect : Dialect,
        dialect.erase text ≠ text →
          (dialect.erase text).length < text.length ∧ (dialect.erase text).Sublist text) ∧
      ∀ rule : Rule, rule.occursIn text = true ↔ rule.erase text ≠ text := by
  refine ⟨code_erase_eq_self_iff, markup_erase_eq_self_iff, ?_, ?_⟩
  · intro dialect changed
    exact ⟨length_erase_lt_of_ne changed, erase_sublist dialect text⟩
  · intro rule
    exact Rule.occursIn_iff_erase_ne

/-- In `/* a // b */`, a comment of either kind stands.  One rule takes the closer from the other,
which is then left with nothing to remove. -/
example :
    Dialect.code.erase "/* a // b */".toList = "/* a ".toList ∧
      Dialect.code.erase "/* a ".toList = "/* a ".toList := by
  decide +kernel

end Dialect

end CommentErasure
