import CommentErasure.Text.Utf8

namespace CommentErasure.Utf8

/-! ## Lead bytes -/

theorem lead_of_one {number : Nat} (high : number < 0x80) :
    lead (UInt8.ofNat number) = .single (Char.ofNat number) := by
  unfold lead
  rw [UInt8.toNat_ofNat_of_lt' (show number < 256 by omega)]
  exact if_pos high

theorem lead_of_two {number : Nat} (low : 0xC2 ≤ number) (high : number < 0xE0) :
    lead (UInt8.ofNat number) = .opens ⟨number - 0xC0, 0x80, 0xBF, 0⟩ := by
  unfold lead
  rw [UInt8.toNat_ofNat_of_lt' (show number < 256 by omega)]
  dsimp only
  rw [if_neg (by omega), if_neg (by omega), if_pos high]

/-- The second of three bytes is bounded from below to leave out overlong forms, and from above
to leave out surrogates. -/
theorem lead_of_three {number : Nat} (low : 0xE0 ≤ number) (high : number < 0xF0) :
    lead (UInt8.ofNat number) =
      .opens
        ⟨number - 0xE0,
          if number = 0xE0 then 0xA0 else 0x80,
          if number = 0xED then 0x9F else 0xBF,
          1⟩ := by
  unfold lead
  rw [UInt8.toNat_ofNat_of_lt' (show number < 256 by omega)]
  dsimp only
  rw [if_neg (by omega), if_neg (by omega), if_neg (by omega)]
  by_cases isLeast : number = 0xE0
  · simp [isLeast]
  · by_cases isSurrogate : number = 0xED
    · simp [isSurrogate]
    · simp [isLeast, isSurrogate, high]

/-- The second of four bytes is bounded from below to leave out overlong forms, and from above to
leave out what lies beyond the last code point. -/
theorem lead_of_four {number : Nat} (low : 0xF0 ≤ number) (high : number < 0xF5) :
    lead (UInt8.ofNat number) =
      .opens
        ⟨number - 0xF0,
          if number = 0xF0 then 0x90 else 0x80,
          if number = 0xF4 then 0x8F else 0xBF,
          2⟩ := by
  unfold lead
  rw [UInt8.toNat_ofNat_of_lt' (show number < 256 by omega)]
  dsimp only
  rw [if_neg (by omega), if_neg (by omega), if_neg (by omega), if_neg (by omega),
    if_neg (by omega), if_neg (by omega)]
  by_cases isLeast : number = 0xF0
  · simp [isLeast]
  · by_cases isMost : number = 0xF4
    · simp [isMost]
    · rw [if_neg isLeast, if_pos (by omega)]
      simp [isLeast, isMost]

/-! ## Further bytes -/

namespace Reading

theorem next_of_lead
    {chars : Text} {byte : UInt8} {partialChar : Partial}
    (opens : lead byte = .opens partialChar) :
    next ⟨chars, none⟩ byte = ⟨chars, some partialChar⟩ := by
  simp [next, start, opens]

theorem next_inner
    {chars : Text} {value low high later number : Nat}
    (aboveLow : low ≤ number) (belowHigh : number ≤ high) (small : number < 256) :
    next ⟨chars, some ⟨value, low, high, later + 1⟩⟩ (UInt8.ofNat number) =
      ⟨chars, some ⟨value * 64 + (number - 0x80), 0x80, 0xBF, later⟩⟩ := by
  simp [next, UInt8.toNat_ofNat_of_lt' small, aboveLow, belowHigh]

theorem next_last
    {chars : Text} {value low high number : Nat}
    (aboveLow : low ≤ number) (belowHigh : number ≤ high) (small : number < 256) :
    next ⟨chars, some ⟨value, low, high, 0⟩⟩ (UInt8.ofNat number) =
      ⟨Char.ofNat (value * 64 + (number - 0x80)) :: chars, none⟩ := by
  simp [next, UInt8.toNat_ofNat_of_lt' small, aboveLow, belowHigh]

theorem foldl_next_one (chars : Text) {value : Nat} (high : value < 0x80) :
    [UInt8.ofNat value].foldl next ⟨chars, none⟩ = ⟨Char.ofNat value :: chars, none⟩ := by
  rw [List.foldl_cons, List.foldl_nil]
  simp [next, start, lead_of_one high]

theorem foldl_next_two
    (chars : Text) {value : Nat} (low : 0x80 ≤ value) (high : value < 0x800) :
    [UInt8.ofNat (value / 64 % 32 + 192), UInt8.ofNat (value % 64 + 128)].foldl
        next ⟨chars, none⟩ =
      ⟨Char.ofNat value :: chars, none⟩ := by
  have bits : (value / 64 % 32 + 192 - 0xC0) * 64 + (value % 64 + 128 - 0x80) = value := by
    omega
  rw [List.foldl_cons, List.foldl_cons, List.foldl_nil,
    next_of_lead (lead_of_two (by omega) (by omega)),
    next_last (by omega) (by omega) (by omega), bits]

theorem foldl_next_three
    (chars : Text) {value : Nat} (low : 0x800 ≤ value) (high : value < 0x10000)
    (notSurrogate : value < 0xD800 ∨ 0xDFFF < value) :
    [UInt8.ofNat (value / 4096 % 16 + 224), UInt8.ofNat (value / 64 % 64 + 128),
          UInt8.ofNat (value % 64 + 128)].foldl
        next ⟨chars, none⟩ =
      ⟨Char.ofNat value :: chars, none⟩ := by
  have bits :
      ((value / 4096 % 16 + 224 - 0xE0) * 64 + (value / 64 % 64 + 128 - 0x80)) * 64 +
          (value % 64 + 128 - 0x80) =
        value := by
    omega
  rw [List.foldl_cons, List.foldl_cons, List.foldl_cons, List.foldl_nil,
    next_of_lead (lead_of_three (by omega) (by omega)),
    next_inner (by split <;> omega) (by split <;> omega) (by omega),
    next_last (by omega) (by omega) (by omega), bits]

theorem foldl_next_four
    (chars : Text) {value : Nat} (low : 0x10000 ≤ value) (high : value < 0x110000) :
    [UInt8.ofNat (value / 262144 % 8 + 240), UInt8.ofNat (value / 4096 % 64 + 128),
          UInt8.ofNat (value / 64 % 64 + 128), UInt8.ofNat (value % 64 + 128)].foldl
        next ⟨chars, none⟩ =
      ⟨Char.ofNat value :: chars, none⟩ := by
  have bits :
      (((value / 262144 % 8 + 240 - 0xF0) * 64 + (value / 4096 % 64 + 128 - 0x80)) * 64 +
            (value / 64 % 64 + 128 - 0x80)) * 64 +
          (value % 64 + 128 - 0x80) =
        value := by
    omega
  rw [List.foldl_cons, List.foldl_cons, List.foldl_cons, List.foldl_cons, List.foldl_nil,
    next_of_lead (lead_of_four (by omega) (by omega)),
    next_inner (by split <;> omega) (by split <;> omega) (by omega),
    next_inner (by omega) (by omega) (by omega),
    next_last (by omega) (by omega) (by omega), bits]

/-- The bytes of a character are read as that character. -/
theorem foldl_next_utf8EncodeChar (chars : Text) (char : Char) :
    (String.utf8EncodeChar char).foldl next ⟨chars, none⟩ = ⟨char :: chars, none⟩ := by
  have valid :
      char.val.toNat < 0xD800 ∨ 0xDFFF < char.val.toNat ∧ char.val.toNat < 0x110000 :=
    char.valid
  have same : Char.ofNat char.val.toNat = char := Char.ofNat_toNat char
  conv =>
    rhs
    rw [← same]
  unfold String.utf8EncodeChar
  dsimp only
  split
  · exact foldl_next_one chars (by omega)
  · split
    · exact foldl_next_two chars (by omega) (by omega)
    · split
      · exact foldl_next_three chars (by omega) (by omega) (by omega)
      · exact foldl_next_four chars (by omega) (by omega)

theorem foldl_next_encode (chars text : Text) :
    (encode text).foldl next ⟨chars, none⟩ = ⟨text.reverse ++ chars, none⟩ := by
  induction text generalizing chars with
  | nil =>
      rfl
  | cons head tail inductionHypothesis =>
      have split : encode (head :: tail) = String.utf8EncodeChar head ++ encode tail := by
        simp [encode]
      rw [split, List.foldl_append, foldl_next_utf8EncodeChar, inductionHypothesis]
      simp

end Reading

/-- A text that was written is read again. -/
@[simp]
theorem decodeLossy_encode (text : Text) : decodeLossy (encode text) = text := by
  have read := Reading.foldl_next_encode [] text
  simp only [decodeLossy, read]
  simp [Reading.text]

@[simp]
theorem decode?_encode (text : Text) : decode? (encode text) = some text := by
  simp [decode?]

/-- Strict reading accepts what some text is written as, and gives that text. -/
theorem decode?_eq_some_iff {bytes : Bytes} {text : Text} :
    decode? bytes = some text ↔ encode text = bytes := by
  constructor
  · exact encode_of_decode?
  · rintro rfl
    exact decode?_encode text

end CommentErasure.Utf8
