import CommentErasure.Proofs.Erasure.Steps

/-!
# Calls on different files

A call opens one file.  From then on it is settled what the call is going to do
(`FileTree.exists_plan`): it overwrites that file or leaves the tree as it is, and it reports a
certain failure or none.  What it finds in the file, in turn, hangs on the layout of the tree and
on that one file.  So it makes no difference to a call whether another call, on another file, comes
before it.
-/

namespace CommentErasure

structure Overwrite where
  id : FileId
  content : Bytes
  deriving DecidableEq, Repr

namespace FileTree

def carryOut (tree : FileTree) : Option Overwrite → FileTree
  | none => tree
  | some chosen => tree.setContent chosen.id chosen.content

def SameFile (tree : FileTree) (first second : Bytes) : Prop :=
  ∃ id file,
    tree.file? id = some file ∧ tree.fileAt first = .ok id ∧ tree.fileAt second = .ok id

theorem SameFile.symm
    {tree : FileTree} {first second : Bytes}
    (same : tree.SameFile first second) :
    tree.SameFile second first := by
  rcases same with ⟨id, file, holds, firstLeads, secondLeads⟩
  exact ⟨id, file, holds, secondLeads, firstLeads⟩

/-! ## What a call hangs on -/

theorem opened_congr
    {left right : FileTree} {path : Bytes}
    (sameLayout : left.toLayout = right.toLayout)
    (sameFile : ∀ id, left.fileAt path = .ok id → left.file? id = right.file? id) :
    left.opened path = right.opened path := by
  cases isOpened : left.opened path with
  | error cause =>
      have leads := opened_eq_error_iff.mp isOpened
      rw [sameLayout] at leads
      exact (opened_eq_error_iff.mpr leads).symm
  | ok opened =>
      obtain ⟨id, file⟩ := opened
      obtain ⟨leads, holds⟩ := opened_eq_ok_iff.mp isOpened
      rw [sameFile id leads] at holds
      rw [sameLayout] at leads
      exact (opened_eq_ok_iff.mpr ⟨leads, holds⟩).symm

theorem readText_congr
    {left right : FileTree} {path : Bytes}
    (sameOpened : left.opened path = right.opened path) :
    left.readText path = right.readText path := by
  simp only [readText, readContent, sameOpened]

theorem ReadsAs.congr
    {left right : FileTree} {path : Bytes} {id : FileId} {file : File} {text : Text}
    (reads : left.ReadsAs path id file text)
    (sameOpened : right.opened path = left.opened path) :
    right.ReadsAs path id file text := by
  rw [reads.opened] at sameOpened
  obtain ⟨leads, holds⟩ := opened_eq_ok_iff.mp sameOpened
  exact ⟨leads, holds, reads.readable, reads.spells⟩

/-- What a call does is the same in all trees in which it opens the same file, and if it overwrites
a file, then the one that its path leads to. -/
theorem exists_plan (tree : FileTree) (path : Bytes) (limit : Option Nat) :
    ∃ overwrite failure,
      (∀ chosen ∈ overwrite,
        ∃ file, tree.file? chosen.id = some file ∧ tree.fileAt path = .ok chosen.id) ∧
        ∀ other : FileTree,
          other.opened path = tree.opened path →
          other.eraseComments path limit = ⟨other.carryOut overwrite, failure⟩ := by
  cases isRead : tree.readText path with
  | error cause =>
      refine ⟨none, some ⟨.read, path, cause⟩, by simp, ?_⟩
      intro other sameOpened
      exact eraseComments_of_read_error ((readText_congr sameOpened).trans isRead) limit
  | ok text =>
      obtain ⟨id, file, reads⟩ := readText_eq_ok_iff.mp isRead
      cases writable : file.access.writable with
      | false =>
          refine ⟨none, some ⟨.write, path, .permissionDenied⟩, by simp, ?_⟩
          intro other sameOpened
          exact eraseComments_of_refused (reads.congr sameOpened) writable limit
      | true =>
          have does (other : FileTree) (sameOpened : other.opened path = tree.opened path) :=
            eraseComments_of_writable (reads.congr sameOpened) writable limit
          refine ⟨some ⟨id, _⟩, _, ?_, does⟩
          rintro chosen ⟨⟩
          exact ⟨file, reads.holds, reads.leads⟩

/-! ## Other files -/

theorem carryOut_comm
    {tree : FileTree} {first second : Option Overwrite}
    (apart : ∀ left ∈ first, ∀ right ∈ second, left.id ≠ right.id) :
    (tree.carryOut first).carryOut second = (tree.carryOut second).carryOut first := by
  cases first with
  | none =>
      rfl
  | some left =>
      cases second with
      | none =>
          rfl
      | some right =>
          have different : left.id ≠ right.id := apart left rfl right rfl
          simp only [carryOut, setContent, changeFile, List.modify_modify_ne _ _ _ different]

theorem opened_carryOut
    {tree : FileTree} {path : Bytes} {overwrite : Option Overwrite}
    (elsewhere : ∀ chosen ∈ overwrite, tree.fileAt path ≠ .ok chosen.id) :
    (tree.carryOut overwrite).opened path = tree.opened path := by
  cases overwrite with
  | none =>
      rfl
  | some chosen =>
      have sameFile :
          ∀ id, tree.fileAt path = .ok id →
            tree.file? id = (tree.carryOut (some chosen)).file? id := by
        intro id leads
        have different : chosen.id ≠ id := by
          rintro rfl
          exact elsewhere chosen rfl leads
        rw [carryOut, file?_setContent, if_neg different]
      exact (opened_congr (toLayout_setContent tree chosen.id chosen.content).symm sameFile).symm

theorem opened_eraseComments
    {tree : FileTree} {first second : Bytes}
    (apart : ¬ tree.SameFile first second) (limit : Option Nat) :
    (tree.eraseComments first limit).tree.opened second = tree.opened second := by
  rcases exists_plan tree first limit with ⟨overwrite, failure, ownFile, does⟩
  rw [does tree rfl]
  apply opened_carryOut
  intro chosen isChosen secondLeads
  rcases ownFile chosen isChosen with ⟨file, holds, firstLeads⟩
  exact apart ⟨chosen.id, file, holds, firstLeads, secondLeads⟩

/-! ## Two calls -/

/-- Calls on different files may change places.  The tree behind both is the same, and each of them
reports what it reports without the other before it. -/
theorem eraseComments_comm
    {tree : FileTree} {first second : Bytes}
    (apart : ¬ tree.SameFile first second)
    (firstLimit secondLimit : Option Nat) :
    ((tree.eraseComments first firstLimit).tree.eraseComments second secondLimit).tree =
        ((tree.eraseComments second secondLimit).tree.eraseComments first firstLimit).tree ∧
      ((tree.eraseComments first firstLimit).tree.eraseComments second secondLimit).failure =
        (tree.eraseComments second secondLimit).failure ∧
      ((tree.eraseComments second secondLimit).tree.eraseComments first firstLimit).failure =
        (tree.eraseComments first firstLimit).failure := by
  rcases exists_plan tree first firstLimit with
    ⟨firstOverwrite, firstFailure, firstFile, firstDoes⟩
  rcases exists_plan tree second secondLimit with
    ⟨secondOverwrite, secondFailure, secondFile, secondDoes⟩
  have firstAlone := firstDoes tree rfl
  have secondAlone := secondDoes tree rfl
  have firstLater := firstDoes _ (opened_eraseComments (fun same => apart same.symm) secondLimit)
  have secondLater := secondDoes _ (opened_eraseComments apart firstLimit)
  refine ⟨?_, ?_, ?_⟩
  · rw [firstLater, secondLater, firstAlone, secondAlone]
    apply carryOut_comm
    intro left isLeft right isRight sameId
    rcases firstFile left isLeft with ⟨file, holds, firstLeads⟩
    rcases secondFile right isRight with ⟨_, _, secondLeads⟩
    rw [← sameId] at secondLeads
    exact apart ⟨left.id, file, holds, firstLeads, secondLeads⟩
  · rw [secondLater, secondAlone]
  · rw [firstLater, firstAlone]

/-- Two files: `a` with a link `c` to it, and `b` with a second name `d`. -/
def linked : FileTree where
  entries :=
    [([[0x61]], .file 0), ([[0x62]], .file 1), ([[0x63]], .link [0x61]), ([[0x64]], .file 1)]
  files := [⟨Utf8.encode "x//y".toList, {}⟩, ⟨Utf8.encode "é/**/é\r".toList, {}⟩]

/-- One call goes through the link, the other goes by the second name and is cut short. -/
theorem eraseComments_comm_linked :
    ¬ linked.SameFile [0x63] [0x64] ∧
      ((linked.eraseComments [0x63] none).tree.eraseComments [0x64] (some 3)).tree =
        ((linked.eraseComments [0x64] (some 3)).tree.eraseComments [0x63] none).tree ∧
      ((linked.eraseComments [0x63] none).tree.eraseComments [0x64] (some 3)).failure =
        some ⟨.write, [0x64], .fileTooLarge⟩ ∧
      ((linked.eraseComments [0x64] (some 3)).tree.eraseComments [0x63] none).failure = none := by
  have firstLeads : linked.fileAt [0x63] = .ok 0 := rfl
  have secondLeads : linked.fileAt [0x64] = .ok 1 := rfl
  have apart : ¬ linked.SameFile [0x63] [0x64] := by
    rintro ⟨id, file, _, firstId, secondId⟩
    rw [firstLeads] at firstId
    rw [secondLeads] at secondId
    cases firstId
    cases secondId
  have firstAlone : (linked.eraseComments [0x63] none).failure = none := by decide +kernel
  have secondAlone :
      (linked.eraseComments [0x64] (some 3)).failure =
        some ⟨.write, [0x64], .fileTooLarge⟩ := by
    decide +kernel
  rcases eraseComments_comm apart none (some 3) with ⟨sameTree, secondLater, firstLater⟩
  exact ⟨apart, sameTree, secondLater.trans secondAlone, firstLater.trans firstAlone⟩

end FileTree

end CommentErasure
