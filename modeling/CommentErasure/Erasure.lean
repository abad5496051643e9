import CommentErasure.Comment.Dialect
import CommentErasure.FileTree.Lookup
import CommentErasure.Text.LineEnd

/-!
# Erasing the comments of a file

A call reads a file as text, brings its line ends to `\n`, removes the comments and writes the
result over the file.  `eraseVia` is this course of events on anything that can read and write a
file, and `FileTree.eraseComments` is what it comes to on a file tree.

* All reading comes before all writing, so whatever fails in reading leaves the tree as it was.
* The dialect goes by the path as it was given, not by the name of a file that a link leads to.
* A file that is not writable is left as it was, even where nothing would change.
* A bound on the size of files may cut the writing short.  What fits has then been written.
-/

namespace CommentErasure

/-- The new content of a file that was read as `text` under this path. -/
def erasedContent (path : Bytes) (text : Text) : Bytes :=
  Utf8.encode ((Dialect.ofPath path).erase text.unifyLineEnds)

def textOf (content : Bytes) : Except Cause Text :=
  match Utf8.decode? content with
  | none => .error .invalidUtf8
  | some text => .ok text

/-- Remove the comments from the file of a path, given how it is read and how it is written. -/
def eraseVia
    {m : Type → Type} [Monad m] (path : Bytes)
    (read : m (Except Cause Bytes)) (write : Bytes → m (Except Cause Unit)) :
    m (Option Failure) := do
  match (← read).bind textOf with
  | .error cause => return some ⟨.read, path, cause⟩
  | .ok text =>
      match ← write (erasedContent path text) with
      | .error cause => return some ⟨.write, path, cause⟩
      | .ok () => return none

theorem run_eraseVia
    {State : Type} (path : Bytes)
    (read : State → Except Cause Bytes) (write : Bytes → StateM State (Except Cause Unit))
    (before : State) :
    (eraseVia path (return read (← get)) write).run before =
      match (read before).bind textOf with
      | .error cause => (some ⟨.read, path, cause⟩, before)
      | .ok text =>
          match write (erasedContent path text) before with
          | (.error cause, after) => (some ⟨.write, path, cause⟩, after)
          | (.ok (), after) => (none, after) := by
  simp only [eraseVia, StateT.run_bind]
  cases isRead : (read before).bind textOf with
  | error cause =>
      simp only [isRead, StateT.run_get, pure_bind, StateT.run_pure]
      rfl
  | ok text =>
      simp only [isRead, StateT.run_get, pure_bind, StateT.run_pure, StateT.run_bind]
      simp only [StateT.run]
      rcases write (erasedContent path text) before with ⟨_ | _, after⟩ <;> rfl

structure Erasure where
  tree : FileTree
  failure : Option Failure
  deriving DecidableEq, Repr

namespace FileTree

/-- The regular file that a path leads to, with its number. -/
def opened (tree : FileTree) (path : Bytes) : Except Cause (FileId × File) :=
  match leads : tree.fileAt path with
  | .error cause => .error cause
  | .ok id => .ok (id, tree.files.get ⟨id, tree.stored_of_fileAt leads⟩)

theorem opened_eq_error_iff {tree : FileTree} {path : Bytes} {cause : Cause} :
    tree.opened path = .error cause ↔ tree.fileAt path = .error cause := by
  rw [opened]
  split
  · rename_i leads
    rw [leads, Except.error.injEq, Except.error.injEq]
  · rename_i leads
    simp [leads]

theorem opened_eq_ok_iff {tree : FileTree} {path : Bytes} {id : FileId} {file : File} :
    tree.opened path = .ok (id, file) ↔ tree.fileAt path = .ok id ∧ tree.file? id = some file := by
  rw [opened]
  split
  · rename_i leads
    simp [leads]
  · rename_i found leads
    have holds : tree.file? found = some (tree.files.get ⟨found, tree.stored_of_fileAt leads⟩) :=
      List.getElem?_eq_getElem _
    constructor
    · intro isOpened
      cases isOpened
      exact ⟨leads, holds⟩
    · intro known
      obtain ⟨leadsTo, holdsToo⟩ := known
      cases leads.symm.trans leadsTo
      rw [Option.some.inj (holds.symm.trans holdsToo)]

def readContent (tree : FileTree) (path : Bytes) : Except Cause Bytes :=
  match tree.opened path with
  | .error cause => .error cause
  | .ok (_, file) =>
      if file.access.readable then
        .ok file.content
      else
        .error .permissionDenied

def admitted (limit : Option Nat) (content : Bytes) : Bytes :=
  match limit with
  | none => content
  | some size => content.take size

/-- Write over the file that a path leads to.  No file is made, as there is one wherever a reading
has come before. -/
def writeContent (tree : FileTree) (path : Bytes) (limit : Option Nat) (content : Bytes) :
    Except Cause Unit × FileTree :=
  match tree.opened path with
  | .error cause => (.error cause, tree)
  | .ok (id, file) =>
      if file.access.writable then
        let written := admitted limit content
        -- A content that fits is written whole.
        if written.length = content.length then
          (.ok (), tree.setContent id written)
        else
          (.error .fileTooLarge, tree.setContent id written)
      else
        (.error .permissionDenied, tree)

def eraseComments (tree : FileTree) (path : Bytes) (limit : Option Nat) : Erasure :=
  let call : StateM FileTree (Option Failure) :=
    eraseVia path (return (← get).readContent path) fun content before =>
      before.writeContent path limit content
  let (failure, after) := call.run tree
  ⟨after, failure⟩

end FileTree

end CommentErasure
