import Mathlib.Data.List.Infix
import CommentErasure.Failure
import CommentErasure.Proofs.Text.Encoding
import CommentErasure.Proofs.Text.Marker

/-!
# Reading failure messages

A path stands in a failure message just as it is, so it may have in it whatever else messages are
made of: separators, headings, whole messages.  Still the parts of a message can be told from each
other.  The heading comes first, and the headings do not begin one another; the path ends at the
last separator, as no cause of the system has one.
-/

namespace CommentErasure

namespace Text

def lastCut? (text marker : Text) : Option Cut :=
  (cut? text.reverse marker.reverse).map fun cut => ⟨cut.after.reverse, cut.before.reverse⟩

theorem lastCut?_of_unbordered
    {marker right : Text}
    (unbordered : Unbordered marker.reverse)
    (absent : ¬ marker <:+: right)
    (left : Text) :
    lastCut? (left ++ marker ++ right) marker = some ⟨left, right⟩ := by
  rw [← List.reverse_infix] at absent
  have found := cut?_append_of_unbordered unbordered absent left.reverse
  have reversed :
      (left ++ marker ++ right).reverse = right.reverse ++ marker.reverse ++ left.reverse := by
    simp
  rw [lastCut?, reversed, found]
  simp

end Text

namespace Attempt

/-- The attempt that the heading at the beginning of a text is for, and what follows it. -/
def parse? (text : Text) : Option (Attempt × Text) :=
  [read, write].findSome? fun attempt =>
    (text.dropPrefix? attempt.heading).map fun behind => (attempt, behind)

theorem parse?_heading_append (attempt : Attempt) (behind : Text) :
    parse? (attempt.heading ++ behind) = some (attempt, behind) := by
  have itsOwn : (attempt.heading ++ behind).dropPrefix? attempt.heading = some behind :=
    List.dropPrefix?_append_of_beq behind (beq_self_eq_true _)
  cases attempt with
  | read =>
      simp [parse?, itsOwn]
  | write =>
      -- The headings differ before either of them ends, so what follows does not matter.
      have notRead : (write.heading ++ behind).dropPrefix? read.heading = none := rfl
      simp [parse?, itsOwn, notRead]

end Attempt

structure Report where
  attempt : Attempt
  path : Text
  cause : Text
  deriving DecidableEq, Repr

namespace Failure

def separator : Text := [':', ' ']

def report (failure : Failure) : Report where
  attempt := failure.attempt
  path := Utf8.decodeLossy failure.path
  cause := failure.cause.text

end Failure

/-- Only a cause that is not listed can have a separator in its wording. -/
theorem Cause.not_separator_infix_or_eq_other (cause : Cause) :
    ¬ Failure.separator <:+: cause.text ∨ ∃ wording, cause = .other wording := by
  cases cause with
  | other wording => exact Or.inr ⟨wording, rfl⟩
  | _ => exact Or.inl (by decide +kernel)

def Report.ofMessage? (message : Text) : Option Report := do
  let cut ← message.lastCut? Failure.separator
  let (attempt, path) ← Attempt.parse? cut.before
  return ⟨attempt, path, cut.after⟩

theorem Report.ofMessage?_message
    {failure : Failure} (plain : ¬ Failure.separator <:+: failure.cause.text) :
    ofMessage? failure.message = some failure.report := by
  have parted :
      failure.message.lastCut? Failure.separator =
        some ⟨failure.attempt.heading ++ Utf8.decodeLossy failure.path, failure.cause.text⟩ :=
    Text.lastCut?_of_unbordered (by decide) plain _
  simp [ofMessage?, parted, Attempt.parse?_heading_append, Failure.report]

namespace Failure

theorem parts_eq_of_message_eq :
    (∀ cause : Cause, ¬ separator <:+: cause.text ∨ ∃ wording, cause = .other wording) ∧
      ∀ first second : Failure,
        ¬ separator <:+: first.cause.text →
        ¬ separator <:+: second.cause.text →
        first.message = second.message →
        first.attempt = second.attempt ∧
          Utf8.decodeLossy first.path = Utf8.decodeLossy second.path ∧
          first.cause.text = second.cause.text ∧
          ((Utf8.decode? first.path).isSome →
            (Utf8.decode? second.path).isSome →
            first.path = second.path) := by
  refine ⟨Cause.not_separator_infix_or_eq_other, ?_⟩
  intro first second firstPlain secondPlain sameMessage
  have sameReport : first.report = second.report := by
    have readBack := Report.ofMessage?_message firstPlain
    rw [sameMessage, Report.ofMessage?_message secondPlain] at readBack
    exact (Option.some.inj readBack).symm
  obtain ⟨sameAttempt, samePath, sameCause⟩ := Report.mk.inj sameReport
  refine ⟨sameAttempt, samePath, sameCause, ?_⟩
  intro firstValid secondValid
  exact Utf8.eq_of_decodeLossy_eq firstValid secondValid samePath

/-- Bytes that are not UTF-8 are lost in a message, and which causes are listed does not show.  All
else does, even if a path looks like a message. -/
theorem parts_eq_of_message_eq_imitated :
    let lost : Failure :=
      ⟨.read, 0xFF :: Utf8.encode ": a\nError writing to file b: c".toList, .notFound⟩
    let alsoLost : Failure :=
      ⟨.read, 0xC0 :: Utf8.encode ": a\nError writing to file b: c".toList,
        .other "No such file or directory (os error 2)".toList⟩
    let kept : Failure := ⟨.write, Utf8.encode "a: b".toList, .invalidUtf8⟩
    let alsoKept : Failure :=
      ⟨.write, [0x61, 0x3A, 0x20, 0x62], .other "stream did not contain valid UTF-8".toList⟩
    (lost ≠ alsoLost ∧
        lost.message = alsoLost.message ∧
        lost.attempt = alsoLost.attempt ∧
        Utf8.decodeLossy lost.path = Utf8.decodeLossy alsoLost.path ∧
        lost.cause.text = alsoLost.cause.text) ∧
      kept ≠ alsoKept ∧ kept.message = alsoKept.message ∧ kept.path = alsoKept.path := by
  intro lost alsoLost kept alsoKept
  have lostMessage : lost.message = alsoLost.message := by
    decide +kernel
  have keptMessage : kept.message = alsoKept.message := by
    decide +kernel
  have lostParts :=
    parts_eq_of_message_eq.2 lost alsoLost (by decide +kernel) (by decide +kernel) lostMessage
  have keptParts :=
    parts_eq_of_message_eq.2 kept alsoKept (by decide +kernel) (by decide +kernel) keptMessage
  have keptPath := keptParts.2.2.2 (by decide +kernel) (by decide +kernel)
  exact
    ⟨⟨by decide +kernel, lostMessage, lostParts.1, lostParts.2.1, lostParts.2.2.1⟩,
      by decide +kernel, keptMessage, keptPath⟩

end Failure

end CommentErasure
