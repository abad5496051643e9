import CommentErasure.Proofs.Erasure.Outcome
import CommentErasure.Proofs.Text.LineStyle

namespace CommentErasure

namespace FileTree

structure AgreeOutside (left right : FileTree) (id : FileId) : Prop where
  sameLayout : left.toLayout = right.toLayout
  otherFiles : ∀ other, other ≠ id → left.file? other = right.file? other

section AgreeOutside

variable {left right : FileTree} {id : FileId} {access : Access}

theorem AgreeOutside.setContent_eq
    {leftContent rightContent : Bytes}
    (agree : left.AgreeOutside right id)
    (leftHolds : left.file? id = some ⟨leftContent, access⟩)
    (rightHolds : right.file? id = some ⟨rightContent, access⟩)
    (content : Bytes) :
    left.setContent id content = right.setContent id content := by
  apply eq_of_same_files
  · rw [toLayout_setContent, toLayout_setContent, agree.sameLayout]
  · intro other
    rw [file?_setContent, file?_setContent]
    split
    · rename_i isFile
      rw [← isFile, leftHolds, rightHolds]
      rfl
    · rename_i different
      exact agree.otherFiles other (Ne.symm different)

/-- The file may be closed to reading or to writing.  Then it is so in both trees, which is what
the call reports, and nothing is written. -/
theorem eraseComments_alike
    {leftText rightText : Text} {path : Bytes}
    (agree : left.AgreeOutside right id)
    (leftHolds : left.file? id = some ⟨Utf8.encode leftText, access⟩)
    (rightHolds : right.file? id = some ⟨Utf8.encode rightText, access⟩)
    (leftLeads : left.fileAt path = .ok id)
    (sameContent : erasedContent path leftText = erasedContent path rightText)
    (limit : Option Nat) :
    (left.eraseComments path limit).failure = (right.eraseComments path limit).failure ∧
      ((left.eraseComments path limit).Wrote →
        (left.eraseComments path limit).tree = (right.eraseComments path limit).tree) := by
  have rightLeads : right.fileAt path = .ok id := by
    rw [← agree.sameLayout, leftLeads]
  cases readable : access.readable with
  | false =>
      have leftEnded :=
        eraseComments_of_read_error (readText_of_unreadable leftLeads leftHolds readable) limit
      have rightEnded :=
        eraseComments_of_read_error (readText_of_unreadable rightLeads rightHolds readable) limit
      rw [leftEnded, rightEnded]
      exact ⟨rfl, by simp [Erasure.Wrote]⟩
  | true =>
      have leftReads : left.ReadsAs path id ⟨Utf8.encode leftText, access⟩ leftText :=
        ⟨leftLeads, leftHolds, readable, rfl⟩
      have rightReads : right.ReadsAs path id ⟨Utf8.encode rightText, access⟩ rightText :=
        ⟨rightLeads, rightHolds, readable, rfl⟩
      cases writable : access.writable with
      | false =>
          rw [eraseComments_of_refused leftReads writable limit,
            eraseComments_of_refused rightReads writable limit]
          exact ⟨rfl, by simp [Erasure.Wrote]⟩
      | true =>
          rw [eraseComments_of_writable leftReads writable limit,
            eraseComments_of_writable rightReads writable limit, sameContent]
          exact ⟨rfl, fun _ => agree.setContent_eq leftHolds rightHolds _⟩

end AgreeOutside

/-- However the line ends of a text are written, unifying them gives the text.  So two trees in one
of which a file has the text, and in the other the text with line ends of other styles, are not told
apart by any call on that file, and they are equal once it has been written. -/
theorem eraseComments_restyle
    {text : Text} {style : Nat → LineEnd}
    (noReturn : '\r' ∉ text)
    (apart : Text.StaysApart style text) :
    (text.restyle style).unifyLineEnds = text ∧
      ∀ (left right : FileTree) id access path limit,
        left.AgreeOutside right id →
        left.file? id = some ⟨Utf8.encode text, access⟩ →
        right.file? id = some ⟨Utf8.encode (text.restyle style), access⟩ →
        left.fileAt path = .ok id →
        (left.eraseComments path limit).failure = (right.eraseComments path limit).failure ∧
          ((left.eraseComments path limit).Wrote →
            (left.eraseComments path limit).tree = (right.eraseComments path limit).tree) := by
  have unified := Text.unifyLineEnds_restyle noReturn apart
  refine ⟨unified, ?_⟩
  intro left right id access path limit agree leftHolds rightHolds leads
  have sameContent : erasedContent path text = erasedContent path (text.restyle style) := by
    rw [erasedContent, erasedContent, unified, Text.unifyLineEnds_of_not_mem noReturn]
  exact eraseComments_alike agree leftHolds rightHolds leads sameContent limit

def single (text : Text) : FileTree where
  entries := [([[0x63]], .file 0), ([[0x6C]], .link [0x63])]
  files := [⟨Utf8.encode text, {}⟩]
  stored := by simp [Entry.id?]

/-- The text ends one line in each style. -/
def mixed : Nat → LineEnd
  | 2 => .pair
  | 3 => .newline
  | _ => .loneReturn

/-- The call goes through the link and is cut short. -/
theorem eraseComments_restyle_mixed :
    Text.restyle mixed "a\n\n\n//b\nc".toList = "a\r\r\n\n//b\rc".toList ∧
      Text.unifyLineEnds "a\r\r\n\n//b\rc".toList = "a\n\n\n//b\nc".toList ∧
      ((single "a\r\r\n\n//b\rc".toList).eraseComments [0x6C] (some 4)).failure =
        some ⟨.write, [0x6C], .fileTooLarge⟩ ∧
      ((single "a\r\r\n\n//b\rc".toList).eraseComments [0x6C] (some 4)).tree =
        single "a\n\n\n".toList := by
  have restyled : Text.restyle mixed "a\n\n\n//b\nc".toList = "a\r\r\n\n//b\rc".toList := by
    decide +kernel
  have noReturn : '\r' ∉ "a\n\n\n//b\nc".toList := by decide +kernel
  have apart : Text.StaysApart mixed "a\n\n\n//b\nc".toList := by decide +kernel
  have indifferent := eraseComments_restyle noReturn apart
  rw [restyled] at indifferent
  have agree :
      (single "a\n\n\n//b\nc".toList).AgreeOutside (single "a\r\r\n\n//b\rc".toList) 0 := by
    refine ⟨rfl, ?_⟩
    intro other different
    cases other with
    | zero => exact absurd rfl different
    | succ later => rfl
  have called :
      (single "a\n\n\n//b\nc".toList).eraseComments [0x6C] (some 4) =
        ⟨single "a\n\n\n".toList, some ⟨.write, [0x6C], .fileTooLarge⟩⟩ := by
    decide +kernel
  have wrote :
      Erasure.Wrote ⟨single "a\n\n\n".toList, some ⟨.write, [0x6C], .fileTooLarge⟩⟩ :=
    Or.inr ⟨[0x6C], rfl⟩
  have alike := indifferent.2 _ _ 0 {} [0x6C] (some 4) agree rfl rfl rfl
  rw [called] at alike
  exact ⟨restyled, indifferent.1, alike.1.symm, (alike.2 wrote).symm⟩

end FileTree

end CommentErasure
