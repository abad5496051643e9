import Mathlib.Logic.Basic
import Mathlib.Logic.ExistsUnique
import CommentErasure.Proofs.Erasure.Steps

/-!
# The outcomes of erasing the comments of a file

There are four ways in which `FileTree.eraseComments` can end, and what can be observed of the tree
beforehand decides between them: whether the path leads to a text that may be read, whether its file
may be written, and whether the new content fits.  `Outcome.Describes` says for each of them when it
comes about and what it leaves behind.  Two of them write a file, in whole or up to a bound, and two
leave the tree as it was (`FileTree.eraseComments_effect`).
-/

namespace CommentErasure

inductive Outcome where
  | unread
  | refused
  | cutShort
  | rewritten
  deriving DecidableEq, Repr

/-- When an outcome comes about, and what the erasure then looks like. -/
def Outcome.Describes
    (tree : FileTree) (path : Bytes) (limit : Option Nat) (erasure : Erasure) : Outcome → Prop
  | .unread =>
      (¬ ∃ id file text, tree.ReadsAs path id file text) ∧
        (∃ cause, erasure.failure = some ⟨.read, path, cause⟩) ∧
        erasure.tree = tree
  | .refused =>
      ∃ id file text,
        tree.ReadsAs path id file text ∧
          file.access.writable = false ∧
          erasure.failure = some ⟨.write, path, .permissionDenied⟩ ∧
          erasure.tree = tree
  | .cutShort =>
      ∃ id file text size,
        tree.ReadsAs path id file text ∧
          file.access.writable = true ∧
          limit = some size ∧
          size < (Utf8.encode ((Dialect.ofPath path).erase text.unifyLineEnds)).length ∧
          erasure.failure = some ⟨.write, path, .fileTooLarge⟩ ∧
          tree.Rewritten erasure.tree id file
            ((Utf8.encode ((Dialect.ofPath path).erase text.unifyLineEnds)).take size)
  | .rewritten =>
      ∃ id file text,
        tree.ReadsAs path id file text ∧
          file.access.writable = true ∧
          (∀ size, limit = some size →
            (Utf8.encode ((Dialect.ofPath path).erase text.unifyLineEnds)).length ≤ size) ∧
          erasure.failure = none ∧
          tree.Rewritten erasure.tree id file
            (Utf8.encode ((Dialect.ofPath path).erase text.unifyLineEnds))

def Outcome.ofFailure : Option Failure → Outcome
  | none => .rewritten
  | some ⟨.read, _, _⟩ => .unread
  | some ⟨.write, _, .permissionDenied⟩ => .refused
  | some ⟨.write, _, _⟩ => .cutShort

theorem Outcome.Describes.eq_ofFailure
    {tree : FileTree} {path : Bytes} {limit : Option Nat} {erasure : Erasure} {outcome : Outcome}
    (describes : Outcome.Describes tree path limit erasure outcome) :
    outcome = Outcome.ofFailure erasure.failure := by
  cases outcome with
  | unread =>
      obtain ⟨_, ⟨cause, failed⟩, _⟩ := describes
      rw [failed, Outcome.ofFailure]
  | refused =>
      obtain ⟨_, _, _, _, _, failed, _⟩ := describes
      rw [failed, Outcome.ofFailure]
  | cutShort =>
      obtain ⟨_, _, _, _, _, _, _, _, failed, _⟩ := describes
      rw [failed, Outcome.ofFailure]
      simp
  | rewritten =>
      obtain ⟨_, _, _, _, _, _, succeeded, _⟩ := describes
      rw [succeeded, Outcome.ofFailure]

/-- A call has written its file, in whole or as far as a bound on the size of files admits. -/
def Erasure.Wrote (erasure : Erasure) : Prop :=
  erasure.failure = none ∨ ∃ path, erasure.failure = some ⟨.write, path, .fileTooLarge⟩

namespace FileTree

theorem exists_outcome (tree : FileTree) (path : Bytes) (limit : Option Nat) :
    ∃ outcome, Outcome.Describes tree path limit (tree.eraseComments path limit) outcome := by
  by_cases readable : ∃ id file text, tree.ReadsAs path id file text
  · obtain ⟨id, file, text, reads⟩ := readable
    cases writable : file.access.writable with
    | false =>
        have ended := eraseComments_of_refused reads writable limit
        exact ⟨.refused, id, file, text, reads, writable, by rw [ended], by rw [ended]⟩
    | true =>
        by_cases fits : ∀ size, limit = some size → (erasedContent path text).length ≤ size
        · have ended := eraseComments_of_fits reads writable fits
          have changed := rewritten_setContent reads.holds (erasedContent path text)
          rw [ended]
          exact ⟨.rewritten, id, file, text, reads, writable, fits, rfl, changed⟩
        · simp only [not_forall, Nat.not_le] at fits
          obtain ⟨size, rfl, exceeds⟩ := fits
          have ended := eraseComments_of_exceeds reads writable exceeds
          have changed := rewritten_setContent reads.holds ((erasedContent path text).take size)
          rw [ended]
          exact ⟨.cutShort, id, file, text, size, reads, writable, rfl, exceeds, rfl, changed⟩
  · obtain ⟨cause, isRead⟩ := exists_readText_eq_error readable
    have ended := eraseComments_of_read_error isRead limit
    exact ⟨.unread, readable, ⟨cause, by rw [ended]⟩, by rw [ended]⟩

/-- Exactly one outcome describes a call, whatever the tree, the path and the bound. -/
theorem existsUnique_outcome (tree : FileTree) (path : Bytes) (limit : Option Nat) :
    ∃! outcome, Outcome.Describes tree path limit (tree.eraseComments path limit) outcome := by
  obtain ⟨outcome, describes⟩ := exists_outcome tree path limit
  refine ⟨outcome, describes, ?_⟩
  intro other describesOther
  rw [describes.eq_ofFailure, describesOther.eq_ofFailure]

theorem eraseComments_effect (tree : FileTree) (path : Bytes) (limit : Option Nat) :
    (∃ id file text,
        tree.ReadsAs path id file text ∧
          file.access.writable = true ∧
          tree.Rewritten (tree.eraseComments path limit).tree id file
            (admitted limit (erasedContent path text))) ∨
      (¬ (tree.eraseComments path limit).Wrote ∧
        (tree.eraseComments path limit).tree = tree) := by
  obtain ⟨outcome, describes⟩ := exists_outcome tree path limit
  cases outcome with
  | unread =>
      obtain ⟨_, ⟨cause, failed⟩, unchanged⟩ := describes
      right
      simp [Erasure.Wrote, failed, unchanged]
  | refused =>
      obtain ⟨_, _, _, _, _, failed, unchanged⟩ := describes
      right
      simp [Erasure.Wrote, failed, unchanged]
  | cutShort =>
      obtain ⟨id, file, text, size, reads, writable, rfl, _, _, changed⟩ := describes
      left
      exact ⟨id, file, text, reads, writable, changed⟩
  | rewritten =>
      obtain ⟨id, file, text, reads, writable, fits, _, changed⟩ := describes
      have whole : admitted limit (erasedContent path text) = erasedContent path text :=
        admitted_of_fits fits
      left
      exact ⟨id, file, text, reads, writable, by rw [whole]; exact changed⟩

end FileTree

end CommentErasure
