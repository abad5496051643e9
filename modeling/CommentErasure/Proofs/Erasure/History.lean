import CommentErasure.CommandLine
import CommentErasure.Proofs.Erasure.Content
import CommentErasure.Proofs.Erasure.Outcome

/-!
# Histories of calls

Any number of calls, of the library or of the command, one after the other on the same tree.  What
a single call may do to a tree is said by `FileTree.Evolves`, file by file.  This relation holds
between a tree and itself and is transitive, so it holds between any two points of a history.
-/

namespace CommentErasure

inductive Call where
  | erase (path : Bytes) (limit : Option Nat)
  | command (arguments : List Bytes) (colored : Bool) (limit : Option Nat)
      (services : CommandLine.Services)

def FileTree.perform (tree : FileTree) : Call → FileTree
  | .erase path limit => (tree.eraseComments path limit).tree
  | .command arguments colored limit services =>
      (CommandLine.run tree arguments colored limit services).tree

def FileTree.performAll (tree : FileTree) (calls : List Call) : FileTree :=
  calls.foldl FileTree.perform tree

namespace File

/-- No call can change a file that is not UTF-8, or that may not be both read and written. -/
def Untouchable (file : File) : Prop :=
  (¬ ∃ text, Utf8.encode text = file.content) ∨
    ¬ (file.access.readable = true ∧ file.access.writable = true)

structure Becomes (before after : File) : Prop where
  sameAccess : after.access = before.access
  noLonger : after.content.length ≤ before.content.length
  untouched : before.Untouchable → after = before
  returnFree : after.content ≠ before.content → 0x0D ∉ after.content

theorem Becomes.refl (file : File) : file.Becomes file where
  sameAccess := rfl
  noLonger := Nat.le_refl _
  untouched _ := rfl
  returnFree changed := absurd rfl changed

theorem Becomes.trans
    {first second third : File}
    (earlier : first.Becomes second)
    (later : second.Becomes third) :
    first.Becomes third where
  sameAccess := later.sameAccess.trans earlier.sameAccess
  noLonger := Nat.le_trans later.noLonger earlier.noLonger
  untouched := by
    intro untouchable
    have firstKept := earlier.untouched untouchable
    rw [← firstKept] at untouchable
    rw [later.untouched untouchable, firstKept]
  returnFree := by
    intro changed
    -- If the content has stayed since, it was changed before.
    by_cases sameAsSecond : third.content = second.content
    · rw [sameAsSecond] at changed ⊢
      exact earlier.returnFree changed
    · exact later.returnFree sameAsSecond

/-- A file that was written was a text before, and has got a beginning of its new content. -/
theorem becomes_admitted
    {file : File} {text : Text}
    (spells : Utf8.encode text = file.content)
    (readable : file.access.readable = true)
    (writable : file.access.writable = true)
    (path : Bytes) (limit : Option Nat) :
    file.Becomes
      { file with content := FileTree.admitted limit (erasedContent path text) } where
  sameAccess := rfl
  noLonger :=
    calc
      (FileTree.admitted limit (erasedContent path text)).length ≤
          (erasedContent path text).length :=
        (FileTree.admitted_isPrefix limit _).length_le
      _ ≤ (Utf8.encode text).length := length_erasedContent_le path text
      _ = file.content.length := by rw [spells]
  untouched := by
    intro untouchable
    rcases untouchable with malformed | closed
    · exact absurd ⟨text, spells⟩ malformed
    · exact absurd ⟨readable, writable⟩ closed
  returnFree := by
    intro _ member
    have inWhole := (FileTree.admitted_isPrefix limit _).subset member
    exact return_not_mem_erasedContent path text inWhole

end File

namespace FileTree

/-- The entries stay, and each file stays in its place and becomes what calls may make of it. -/
structure Evolves (before after : FileTree) : Prop where
  sameLayout : after.toLayout = before.toLayout
  files : ∀ id, Option.Rel File.Becomes (before.file? id) (after.file? id)

theorem Evolves.refl (tree : FileTree) : tree.Evolves tree where
  sameLayout := rfl
  files id := by
    cases tree.file? id with
    | none => exact .none
    | some file => exact .some (.refl file)

theorem Evolves.trans
    {first second third : FileTree}
    (earlier : first.Evolves second)
    (later : second.Evolves third) :
    first.Evolves third where
  sameLayout := later.sameLayout.trans earlier.sameLayout
  files id := by
    have becomesSecond := earlier.files id
    have becomesThird := later.files id
    generalize first.file? id = firstFile at becomesSecond ⊢
    generalize second.file? id = secondFile at becomesSecond becomesThird
    generalize third.file? id = thirdFile at becomesThird ⊢
    cases becomesSecond with
    | none =>
        exact becomesThird
    | some toSecond =>
        cases becomesThird with
        | some toThird => exact .some (toSecond.trans toThird)

theorem Evolves.exists_file
    {before after : FileTree} {id : FileId} {old : File}
    (evolves : before.Evolves after)
    (isOld : before.file? id = some old) :
    ∃ new, after.file? id = some new ∧ old.Becomes new := by
  have related := evolves.files id
  rw [isOld] at related
  generalize isNew : after.file? id = newFile at related
  cases related with
  | some becomes => exact ⟨_, rfl, becomes⟩

theorem Evolves.becomes
    {before after : FileTree} {id : FileId} {old new : File}
    (evolves : before.Evolves after)
    (isOld : before.file? id = some old)
    (isNew : after.file? id = some new) :
    old.Becomes new := by
  obtain ⟨found, isFound, becomes⟩ := evolves.exists_file isOld
  have same : found = new := Option.some.inj (isFound.symm.trans isNew)
  rw [← same]
  exact becomes

theorem Evolves.sameAccess
    {before after : FileTree}
    (evolves : before.Evolves after)
    (id : FileId) :
    (after.file? id).map File.access = (before.file? id).map File.access := by
  have related := evolves.files id
  generalize before.file? id = oldFile at related ⊢
  generalize after.file? id = newFile at related ⊢
  cases related with
  | none =>
      rfl
  | some becomes =>
      exact congrArg some becomes.sameAccess

/-! ## One call -/

theorem evolves_eraseComments (tree : FileTree) (path : Bytes) (limit : Option Nat) :
    tree.Evolves (tree.eraseComments path limit).tree := by
  rcases eraseComments_effect tree path limit with
    ⟨id, file, text, reads, writable, changed⟩ | ⟨_, unchanged⟩
  · refine ⟨changed.sameLayout, ?_⟩
    intro other
    by_cases isFile : other = id
    · rw [isFile, reads.holds, changed.newContent]
      exact .some (File.becomes_admitted reads.spells reads.readable writable path limit)
    · rw [changed.otherFiles other isFile]
      exact (Evolves.refl tree).files other
  · rw [unchanged]
    exact Evolves.refl tree

theorem evolves_perform (tree : FileTree) (call : Call) :
    tree.Evolves (tree.perform call) := by
  cases call with
  | erase path limit =>
      exact evolves_eraseComments tree path limit
  | command arguments colored limit services =>
      simp only [perform, CommandLine.run]
      split
      · exact Evolves.refl tree
      · exact evolves_eraseComments tree _ limit

/-! ## Many calls -/

theorem evolves_performAll (tree : FileTree) (calls : List Call) :
    tree.Evolves (tree.performAll calls) := by
  induction calls generalizing tree with
  | nil =>
      exact Evolves.refl tree
  | cons call others inductionHypothesis =>
      exact (evolves_perform tree call).trans (inductionHypothesis (tree.perform call))

theorem performAll_append (tree : FileTree) (earlier later : List Call) :
    tree.performAll (earlier ++ later) = (tree.performAll earlier).performAll later :=
  List.foldl_append

theorem evolves_between
    (tree : FileTree) (calls : List Call) {start stop : Nat} (inOrder : start ≤ stop) :
    (tree.performAll (calls.take start)).Evolves (tree.performAll (calls.take stop)) := by
  obtain ⟨further, rfl⟩ := Nat.exists_eq_add_of_le inOrder
  rw [List.take_add, performAll_append]
  exact evolves_performAll _ _

/-- Over any history, the layout and the access of each file stay, no file ever grows, a file that
is not UTF-8 or not open to reading and writing is kept, and once a call has changed the content of
a file, the file has no carriage return any more. -/
theorem history_invariant (tree : FileTree) (calls : List Call) :
    ((tree.performAll calls).toLayout = tree.toLayout ∧
        ∀ id,
          ((tree.performAll calls).file? id).map File.access =
            (tree.file? id).map File.access) ∧
      (∀ start stop id before after,
        start ≤ stop →
        (tree.performAll (calls.take start)).file? id = some before →
        (tree.performAll (calls.take stop)).file? id = some after →
        after.content.length ≤ before.content.length) ∧
      (∀ id file,
        tree.file? id = some file →
        file.Untouchable →
        (tree.performAll calls).file? id = some file) ∧
      (∀ step stop id before changed after,
        step < stop →
        (tree.performAll (calls.take step)).file? id = some before →
        (tree.performAll (calls.take (step + 1))).file? id = some changed →
        changed.content ≠ before.content →
        (tree.performAll (calls.take stop)).file? id = some after →
        0x0D ∉ after.content) := by
  have wholeHistory := evolves_performAll tree calls
  refine ⟨⟨wholeHistory.sameLayout, wholeHistory.sameAccess⟩, ?_, ?_, ?_⟩
  · intro start stop id before after inOrder isBefore isAfter
    exact ((evolves_between tree calls inOrder).becomes isBefore isAfter).noLonger
  · intro id file isFile untouchable
    obtain ⟨new, isNew, becomes⟩ := wholeHistory.exists_file isFile
    rw [isNew, becomes.untouched untouchable]
  · intro step stop id before changed after inOrder isBefore isChanged contentChanged isAfter
    have oneCall := (evolves_between tree calls (Nat.le_succ step)).becomes isBefore isChanged
    have onward := (evolves_between tree calls inOrder).becomes isChanged isAfter
    by_cases sameContent : after.content = changed.content
    · rw [sameContent]
      exact oneCall.returnFree contentChanged
    · exact onward.returnFree sameContent

end FileTree

end CommentErasure
