import CommentErasure.Erasure
import CommentErasure.Text.Utf8.RoundTrip

/-!
# Reading and rewriting a file of a tree

What the two halves of `FileTree.eraseComments` do, said by what can be observed of a tree: a path
leads to a readable file that spells a text in UTF-8 (`FileTree.ReadsAs`), and a file has got a new
content, which shows under each of its names, while nothing else has changed
(`FileTree.Rewritten`).  `FileTree.eraseComments_of_read_error` and its neighbours say what a call
comes to in each case, so that no later proof looks into it.
-/

namespace CommentErasure

namespace FileTree

/-! ## Reading -/

/-- A path leads to a file that may be read and that spells a text in UTF-8. -/
structure ReadsAs
    (tree : FileTree) (path : Bytes) (id : FileId) (file : File) (text : Text) : Prop where
  leads : tree.fileAt path = .ok id
  holds : tree.file? id = some file
  readable : file.access.readable = true
  spells : Utf8.encode text = file.content

def readText (tree : FileTree) (path : Bytes) : Except Cause Text :=
  (tree.readContent path).bind textOf

theorem textOf_eq_ok_iff {content : Bytes} {text : Text} :
    textOf content = .ok text ↔ Utf8.encode text = content := by
  rw [← Utf8.decode?_eq_some_iff, textOf]
  cases Utf8.decode? content <;> simp

theorem ReadsAs.opened
    {tree : FileTree} {path : Bytes} {id : FileId} {file : File} {text : Text}
    (reads : tree.ReadsAs path id file text) :
    tree.opened path = .ok (id, file) :=
  opened_eq_ok_iff.mpr ⟨reads.leads, reads.holds⟩

theorem ReadsAs.readText
    {tree : FileTree} {path : Bytes} {id : FileId} {file : File} {text : Text}
    (reads : tree.ReadsAs path id file text) :
    tree.readText path = .ok text := by
  have isContent : tree.readContent path = .ok file.content := by
    simp [readContent, reads.opened, reads.readable]
  rw [FileTree.readText, isContent]
  exact textOf_eq_ok_iff.mpr reads.spells

theorem readText_eq_ok_iff {tree : FileTree} {path : Bytes} {text : Text} :
    tree.readText path = .ok text ↔ ∃ id file, tree.ReadsAs path id file text := by
  constructor
  · intro isRead
    cases isOpened : tree.opened path with
    | error cause =>
        simp [readText, readContent, isOpened, Except.bind] at isRead
    | ok opened =>
        obtain ⟨id, file⟩ := opened
        obtain ⟨leads, holds⟩ := opened_eq_ok_iff.mp isOpened
        cases readable : file.access.readable with
        | false =>
            simp [readText, readContent, isOpened, readable, Except.bind] at isRead
        | true =>
            have spelled : textOf file.content = .ok text := by
              simpa [readText, readContent, isOpened, readable, Except.bind] using isRead
            exact ⟨id, file, leads, holds, readable, textOf_eq_ok_iff.mp spelled⟩
  · intro reads
    obtain ⟨id, file, reads⟩ := reads
    exact reads.readText

theorem exists_readText_eq_error
    {tree : FileTree} {path : Bytes}
    (unreadable : ¬ ∃ id file text, tree.ReadsAs path id file text) :
    ∃ cause, tree.readText path = .error cause := by
  cases isRead : tree.readText path with
  | error cause =>
      exact ⟨cause, rfl⟩
  | ok text =>
      obtain ⟨id, file, reads⟩ := readText_eq_ok_iff.mp isRead
      exact absurd ⟨id, file, text, reads⟩ unreadable

section Opened

variable {tree : FileTree} {path : Bytes} {id : FileId} {file : File}
  (leads : tree.fileAt path = .ok id)
  (holds : tree.file? id = some file)

include leads holds

theorem readText_of_unreadable (unreadable : file.access.readable = false) :
    tree.readText path = .error .permissionDenied := by
  have isOpened := opened_eq_ok_iff.mpr ⟨leads, holds⟩
  simp [readText, readContent, isOpened, unreadable, Except.bind]

theorem readText_of_malformed
    (readable : file.access.readable = true)
    (malformed : ¬ ∃ text, Utf8.encode text = file.content) :
    tree.readText path = .error .invalidUtf8 := by
  have isOpened := opened_eq_ok_iff.mpr ⟨leads, holds⟩
  have undecoded : Utf8.decode? file.content = none := by
    cases decoded : Utf8.decode? file.content with
    | none =>
        rfl
    | some text =>
        exact absurd ⟨text, Utf8.encode_of_decode? decoded⟩ malformed
  simp [readText, readContent, isOpened, readable, textOf, undecoded, Except.bind]

end Opened

/-! ## Rewriting -/

def contentAt? (tree : FileTree) (path : Bytes) : Option Bytes :=
  match tree.fileAt path with
  | .error _ => none
  | .ok id => (tree.file? id).map File.content

/-- A file has got a new content and has kept its access.  All entries, links included, and all
other files are as before, so every path leads to where it led, and the new content shows under
every path to the file. -/
structure Rewritten
    (before after : FileTree) (id : FileId) (file : File) (content : Bytes) : Prop where
  sameLayout : after.toLayout = before.toLayout
  newContent : after.file? id = some { file with content }
  otherFiles : ∀ other, other ≠ id → after.file? other = before.file? other
  sameLookup : ∀ path, after.resolve path = before.resolve path
  shows : ∀ path, before.fileAt path = .ok id → after.contentAt? path = some content

theorem rewritten_setContent
    {tree : FileTree} {id : FileId} {file : File}
    (holds : tree.file? id = some file) (content : Bytes) :
    Rewritten tree (tree.setContent id content) id file content := by
  have newContent : (tree.setContent id content).file? id = some { file with content } := by
    rw [file?_setContent, if_pos rfl, holds, Option.map_some]
  have sameLayout := toLayout_setContent tree id content
  refine ⟨sameLayout, newContent, ?_, ?_, ?_⟩
  · intro other different
    rw [file?_setContent, if_neg (Ne.symm different)]
  · intro path
    rw [sameLayout]
  · intro path leads
    simp only [contentAt?, sameLayout, leads, newContent, Option.map_some]

theorem setContent_of_holds
    {tree : FileTree} {id : FileId} {file : File}
    (holds : tree.file? id = some file) :
    tree.setContent id file.content = tree := by
  apply eq_of_same_files (toLayout_setContent tree id file.content)
  intro other
  rw [file?_setContent]
  split
  · rename_i isFile
    rw [← isFile, holds]
    rfl
  · rfl

/-! ## What a call does -/

theorem eraseComments_of_read_error
    {tree : FileTree} {path : Bytes} {cause : Cause}
    (isRead : tree.readText path = .error cause) (limit : Option Nat) :
    tree.eraseComments path limit = ⟨tree, some ⟨.read, path, cause⟩⟩ := by
  rw [readText] at isRead
  simp only [eraseComments, run_eraseVia, isRead]

theorem eraseComments_of_read_ok
    {tree : FileTree} {path : Bytes} {text : Text}
    (isRead : tree.readText path = .ok text) (limit : Option Nat) :
    tree.eraseComments path limit =
      match tree.writeContent path limit (erasedContent path text) with
      | (.error cause, after) => ⟨after, some ⟨.write, path, cause⟩⟩
      | (.ok (), after) => ⟨after, none⟩ := by
  rw [readText] at isRead
  simp only [eraseComments, run_eraseVia, isRead]
  rcases tree.writeContent path limit (erasedContent path text) with ⟨_ | _, after⟩ <;> rfl

theorem admitted_of_fits
    {limit : Option Nat} {content : Bytes}
    (fits : ∀ size, limit = some size → content.length ≤ size) :
    admitted limit content = content := by
  cases limit with
  | none =>
      rfl
  | some size =>
      exact List.take_of_length_le (fits size rfl)

theorem admitted_isPrefix (limit : Option Nat) (content : Bytes) :
    admitted limit content <+: content := by
  cases limit with
  | none =>
      exact List.prefix_refl content
  | some size =>
      exact List.take_prefix size content

section Readable

variable {tree : FileTree} {path : Bytes} {id : FileId} {file : File} {text : Text}
  (reads : tree.ReadsAs path id file text)

include reads

theorem eraseComments_of_refused
    (refused : file.access.writable = false) (limit : Option Nat) :
    tree.eraseComments path limit = ⟨tree, some ⟨.write, path, .permissionDenied⟩⟩ := by
  simp [eraseComments_of_read_ok reads.readText, writeContent, reads.opened, refused]

theorem eraseComments_of_writable
    (writable : file.access.writable = true) (limit : Option Nat) :
    tree.eraseComments path limit =
      ⟨tree.setContent id (admitted limit (erasedContent path text)),
        if (admitted limit (erasedContent path text)).length =
            (erasedContent path text).length then
          none
        else
          some ⟨.write, path, .fileTooLarge⟩⟩ := by
  simp only [eraseComments_of_read_ok reads.readText, writeContent, reads.opened, writable,
    if_true]
  by_cases whole :
      (admitted limit (erasedContent path text)).length = (erasedContent path text).length
  · simp only [if_pos whole]
  · simp only [if_neg whole]

theorem eraseComments_of_fits
    {limit : Option Nat}
    (writable : file.access.writable = true)
    (fits : ∀ size, limit = some size → (erasedContent path text).length ≤ size) :
    tree.eraseComments path limit = ⟨tree.setContent id (erasedContent path text), none⟩ := by
  rw [eraseComments_of_writable reads writable, admitted_of_fits fits, if_pos rfl]

theorem eraseComments_of_exceeds
    {size : Nat}
    (writable : file.access.writable = true)
    (exceeds : size < (erasedContent path text).length) :
    tree.eraseComments path (some size) =
      ⟨tree.setContent id ((erasedContent path text).take size),
        some ⟨.write, path, .fileTooLarge⟩⟩ := by
  have isCut :
      ((erasedContent path text).take size).length ≠ (erasedContent path text).length := by
    rw [List.length_take, Nat.min_eq_left (Nat.le_of_lt exceeds)]
    exact Nat.ne_of_lt exceeds
  rw [eraseComments_of_writable reads writable, admitted, if_neg isCut]

end Readable

end FileTree

end CommentErasure
