import Mathlib.Data.List.Flatten
import CommentErasure.Text.Utf8.RoundTrip

namespace CommentErasure.Utf8

theorem encode_cons (head : Char) (tail : Text) :
    encode (head :: tail) = String.utf8EncodeChar head ++ encode tail := by
  simp [encode]

theorem encode_eq_nil_iff {text : Text} : encode text = [] ↔ text = [] := by
  constructor
  · intro isEmpty
    rw [← decodeLossy_encode text, isEmpty]
    rfl
  · rintro rfl
    rfl

theorem encode_decodeLossy
    {bytes : Bytes} (valid : (decode? bytes).isSome) :
    encode (decodeLossy bytes) = bytes := by
  obtain ⟨text, read⟩ := Option.isSome_iff_exists.mp valid
  rw [← encode_of_decode? read, decodeLossy_encode]

/-- No two byte strings that are valid read alike. -/
theorem eq_of_decodeLossy_eq
    {left right : Bytes}
    (leftValid : (decode? left).isSome)
    (rightValid : (decode? right).isSome)
    (same : decodeLossy left = decodeLossy right) :
    left = right := by
  rw [← encode_decodeLossy leftValid, same, encode_decodeLossy rightValid]

/-! ## Beginnings -/

namespace Reading

theorem chars_suffix_start (chars : Text) (byte : UInt8) :
    chars <:+ (start chars byte).chars := by
  unfold start
  split
  · exact List.suffix_cons _ chars
  · exact List.suffix_refl chars
  · exact List.suffix_cons _ chars

/-- A character that has been read stays. -/
theorem chars_suffix_next (reading : Reading) (byte : UInt8) :
    reading.chars <:+ (reading.next byte).chars := by
  unfold next
  split
  · exact chars_suffix_start reading.chars byte
  · dsimp only
    split
    · split
      · exact List.suffix_cons _ reading.chars
      · exact List.suffix_refl reading.chars
    · exact (List.suffix_cons _ reading.chars).trans (chars_suffix_start _ byte)

theorem chars_suffix_foldl_next (reading : Reading) (bytes : Bytes) :
    reading.chars <:+ (bytes.foldl next reading).chars := by
  induction bytes generalizing reading with
  | nil =>
      exact List.suffix_refl reading.chars
  | cons byte rest inductionHypothesis =>
      rw [List.foldl_cons]
      exact (chars_suffix_next reading byte).trans (inductionHypothesis (reading.next byte))

end Reading

theorem encode_isPrefix_iff {left right : Text} :
    encode left <+: encode right ↔ left <+: right := by
  constructor
  · intro isPrefix
    obtain ⟨further, whole⟩ := isPrefix
    -- The bytes of `left` have been read as `left`, and the bytes behind take no character back.
    have readLeft := Reading.foldl_next_encode [] left
    have readRight := Reading.foldl_next_encode [] right
    rw [← whole, List.foldl_append, readLeft] at readRight
    have kept := Reading.chars_suffix_foldl_next ⟨left.reverse ++ [], none⟩ further
    rw [readRight] at kept
    simpa using kept
  · intro isPrefix
    obtain ⟨further, rfl⟩ := isPrefix
    rw [encode_append]
    exact List.prefix_append _ _

/-- The number of bytes counts off whole characters and a part of the next one. -/
def CutsInside (text : Text) (size : Nat) : Prop :=
  ∃ before char behind,
    text = before ++ char :: behind ∧
      (encode before).length < size ∧ size < (encode (before ++ [char])).length

theorem CutsInside.cons
    {text : Text} {size : Nat}
    (inside : CutsInside text size)
    (head : Char) :
    CutsInside (head :: text) ((String.utf8EncodeChar head).length + size) := by
  obtain ⟨before, char, behind, rfl, above, below⟩ := inside
  refine ⟨head :: before, char, behind, rfl, ?_, ?_⟩
  · rw [encode_cons, List.length_append]
    exact Nat.add_lt_add_left above _
  · rw [List.cons_append, encode_cons, List.length_append]
    exact Nat.add_lt_add_left below _

theorem take_encode_or_cutsInside (text : Text) (size : Nat) :
    (∃ before, before <+: text ∧ (encode text).take size = encode before) ∨
      CutsInside text size := by
  induction text generalizing size with
  | nil =>
      left
      exact ⟨[], List.prefix_refl [], by simp⟩
  | cons head tail inductionHypothesis =>
      by_cases reaches : (String.utf8EncodeChar head).length ≤ size
      · obtain ⟨further, rfl⟩ := Nat.exists_eq_add_of_le reaches
        rcases inductionHypothesis further with ⟨before, isPrefix, taken⟩ | inside
        · left
          refine ⟨head :: before, (List.prefix_cons_inj head).mpr isPrefix, ?_⟩
          rw [encode_cons, encode_cons, List.take_length_add_append, taken]
        · right
          exact inside.cons head
      · by_cases isZero : size = 0
        · left
          exact ⟨[], List.nil_prefix, by simp [isZero]⟩
        · right
          refine ⟨[], head, tail, rfl, Nat.pos_of_ne_zero isZero, ?_⟩
          simpa [encode_cons] using reaches

/-! ## Single bytes -/

theorem eq_ofNat_of_ascii_mem
    {char : Char} {byte : UInt8}
    (member : byte ∈ String.utf8EncodeChar char)
    (ascii : byte.toNat < 0x80) :
    char = Char.ofNat byte.toNat := by
  have notLater {number : Nat} (low : 0x80 ≤ number) (small : number < 256) :
      byte ≠ UInt8.ofNat number := by
    intro same
    rw [same, UInt8.toNat_ofNat_of_lt' small] at ascii
    exact Nat.not_lt_of_le low ascii
  unfold String.utf8EncodeChar at member
  dsimp only at member
  split at member
  · rw [List.mem_singleton] at member
    rw [member, UInt8.toNat_ofNat_of_lt' (show _ < 256 by omega)]
    exact (Char.ofNat_toNat char).symm
  · -- All bytes of a longer character are at least 0x80.
    exfalso
    split at member
    · simp only [List.mem_cons, List.not_mem_nil, or_false] at member
      rcases member with same | same <;> exact notLater (by omega) (by omega) same
    · split at member
      · simp only [List.mem_cons, List.not_mem_nil, or_false] at member
        rcases member with same | same | same <;> exact notLater (by omega) (by omega) same
      · simp only [List.mem_cons, List.not_mem_nil, or_false] at member
        rcases member with same | same | same | same <;>
          exact notLater (by omega) (by omega) same

theorem ofNat_mem_of_ascii_mem_encode
    {text : Text} {byte : UInt8}
    (member : byte ∈ encode text)
    (ascii : byte.toNat < 0x80) :
    Char.ofNat byte.toNat ∈ text := by
  obtain ⟨char, charMember, byteMember⟩ := List.mem_flatMap.mp member
  rw [← eq_ofNat_of_ascii_mem byteMember ascii]
  exact charMember

/-! ## Sizes -/

theorem length_encode_le_of_sublist
    {left right : Text} (isSublist : left.Sublist right) :
    (encode left).length ≤ (encode right).length :=
  (isSublist.flatMap String.utf8EncodeChar).length_le

end CommentErasure.Utf8
