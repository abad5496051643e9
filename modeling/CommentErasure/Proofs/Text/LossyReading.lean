import Mathlib
import CommentErasure.Comment.Dialect
import CommentErasure.Proofs.Text.Encoding

/-!
# ASCII in lossy reading

Whatever is malformed in a byte string, lossy reading keeps the ASCII bytes as the characters that
they are, and comes upon no other ASCII characters.  What carries this through a reading is that an
incomplete character lies beyond ASCII, and so do all bytes that it waits for
(`Utf8.Reading.Sound`).

The dialect of a file goes by what its path reads as, and a path need not be UTF-8.  As replacement
characters neither hide the ending `.md` nor bring one about, the dialect goes by the last three
bytes after all.
-/

namespace CommentErasure.Utf8

def BeyondAscii (char : Char) : Prop :=
  0x80 ≤ char.toNat

theorem beyondAscii_ofNat
    {number : Nat} (low : 0x80 ≤ number) (isChar : number.isValidChar) :
    BeyondAscii (Char.ofNat number) := by
  rw [BeyondAscii, Char.toNat_ofNat, if_pos isChar]
  exact low

theorem beyondAscii_replacement : BeyondAscii replacement := by
  unfold BeyondAscii
  decide

/-! ## Incomplete characters -/

/-- However the bytes that are still to come are chosen from their ranges, the character lies beyond
ASCII. -/
def EndsUpBeyondAscii (value low high : Nat) : Nat → Prop
  | 0 =>
      ∀ number, low ≤ number → number ≤ high →
        BeyondAscii (Char.ofNat (value * 64 + (number - 0x80)))
  | later + 1 =>
      ∀ number, low ≤ number → number ≤ high →
        EndsUpBeyondAscii (value * 64 + (number - 0x80)) 0x80 0xBF later

structure Partial.Foreign (partialChar : Partial) : Prop where
  nextByte : 0x80 ≤ partialChar.low
  character :
    EndsUpBeyondAscii partialChar.value partialChar.low partialChar.high partialChar.later

theorem foreign_of_two {number : Nat} (low : 0xC2 ≤ number) (high : number < 0xE0) :
    Partial.Foreign ⟨number - 0xC0, 0x80, 0xBF, 0⟩ := by
  refine ⟨Nat.le_refl _, ?_⟩
  intro second secondLow secondHigh
  dsimp only at secondLow secondHigh ⊢
  exact beyondAscii_ofNat (by omega) (by omega)

theorem foreign_of_three {number : Nat} (low : 0xE0 ≤ number) (high : number < 0xF0) :
    Partial.Foreign
      ⟨number - 0xE0,
        if number = 0xE0 then 0xA0 else 0x80,
        if number = 0xED then 0x9F else 0xBF,
        1⟩ := by
  refine ⟨by dsimp only; split <;> omega, ?_⟩
  intro second secondLow secondHigh third thirdLow thirdHigh
  dsimp only at secondLow secondHigh ⊢
  split at secondLow <;> split at secondHigh <;>
    exact beyondAscii_ofNat (by omega) (by omega)

theorem foreign_of_four {number : Nat} (low : 0xF0 ≤ number) (high : number < 0xF5) :
    Partial.Foreign
      ⟨number - 0xF0,
        if number = 0xF0 then 0x90 else 0x80,
        if number = 0xF4 then 0x8F else 0xBF,
        2⟩ := by
  refine ⟨by dsimp only; split <;> omega, ?_⟩
  intro second secondLow secondHigh third thirdLow thirdHigh fourth fourthLow fourthHigh
  dsimp only at secondLow secondHigh ⊢
  split at secondLow <;> split at secondHigh <;>
    exact beyondAscii_ofNat (by omega) (by omega)

theorem ascii_eq_iff
    {char : Char} {byte : UInt8}
    (charAscii : char.toNat < 0x80)
    (byteAscii : byte.toNat < 0x80) :
    char = Char.ofNat byte.toNat ↔ UInt8.ofNat char.toNat = byte := by
  constructor
  · rintro rfl
    rw [Char.toNat_ofNat, if_pos (Or.inl (by omega)), UInt8.ofNat_toNat]
  · rintro rfl
    rw [UInt8.toNat_ofNat_of_lt' (show _ < 256 by omega), Char.ofNat_toNat]

theorem encode_append_ascii
    (text : Text) {char : Char} (ascii : char.toNat < 0x80) :
    encode (text ++ [char]) = encode text ++ [UInt8.ofNat char.toNat] := by
  have oneByte : String.utf8EncodeChar char = [UInt8.ofNat char.toNat] := by
    unfold String.utf8EncodeChar
    dsimp only
    exact if_pos (Nat.le_of_lt_succ ascii)
  simp [encode, oneByte]

theorem lead_of_ascii {byte : UInt8} (ascii : byte.toNat < 0x80) :
    lead byte = .single (Char.ofNat byte.toNat) := by
  rw [← UInt8.ofNat_toNat (x := byte), lead_of_one ascii, UInt8.ofNat_toNat]

theorem lead_of_misplaced
    {number : Nat}
    (notAscii : 0x80 ≤ number)
    (misplaced : number < 0xC2 ∨ 0xF5 ≤ number)
    (small : number < 256) :
    lead (UInt8.ofNat number) = .malformed := by
  unfold lead
  rw [UInt8.toNat_ofNat_of_lt' small]
  dsimp only
  rcases misplaced with below | above
  · rw [if_neg (by omega), if_pos below]
  · rw [if_neg (by omega), if_neg (by omega), if_neg (by omega), if_neg (by omega),
      if_neg (by omega), if_neg (by omega), if_neg (by omega), if_neg (by omega),
      if_neg (by omega)]

/-- A byte beyond ASCII stands for nothing by itself: it is malformed or begins a character. -/
theorem lead_of_not_ascii {byte : UInt8} (beyond : ¬ byte.toNat < 0x80) :
    lead byte = .malformed ∨
      ∃ partialChar, lead byte = .opens partialChar ∧ partialChar.Foreign := by
  have small : byte.toNat < 256 := byte.toNat_lt
  rw [← UInt8.ofNat_toNat (x := byte)]
  by_cases misplaced : byte.toNat < 0xC2 ∨ 0xF5 ≤ byte.toNat
  · exact Or.inl (lead_of_misplaced (by omega) misplaced small)
  · right
    by_cases ofTwo : byte.toNat < 0xE0
    · exact ⟨_, lead_of_two (by omega) ofTwo, foreign_of_two (by omega) ofTwo⟩
    · by_cases ofThree : byte.toNat < 0xF0
      · exact ⟨_, lead_of_three (by omega) ofThree, foreign_of_three (by omega) ofThree⟩
      · exact ⟨_, lead_of_four (by omega) (by omega), foreign_of_four (by omega) (by omega)⟩

/-! ## Readings -/

def EndsBeyondAscii (text : Text) : Prop :=
  ∃ before last, text = before ++ [last] ∧ BeyondAscii last

namespace Reading

/-- The character that a reading has left incomplete, if there is one, lies beyond ASCII. -/
def Sound (reading : Reading) : Prop :=
  ∀ partialChar, reading.pending = some partialChar → partialChar.Foreign

theorem sound_of_complete (chars : Text) : Sound ⟨chars, none⟩ := by
  intro partialChar isPending
  cases isPending

theorem sound_of_foreign
    {partialChar : Partial} (foreign : partialChar.Foreign) (chars : Text) :
    Sound ⟨chars, some partialChar⟩ := by
  intro other isPending
  cases isPending
  exact foreign

theorem text_of_pending (chars : Text) (partialChar : Partial) :
    text ⟨chars, some partialChar⟩ = chars.reverse ++ [replacement] := by
  simp [text]

theorem text_of_complete (chars : Text) (char : Char) :
    text ⟨char :: chars, none⟩ = chars.reverse ++ [char] := by
  simp [text]

/-! ### One byte -/

theorem start_of_ascii (chars : Text) {byte : UInt8} (ascii : byte.toNat < 0x80) :
    start chars byte = ⟨Char.ofNat byte.toNat :: chars, none⟩ := by
  simp [start, lead_of_ascii ascii]

theorem start_of_not_ascii (chars : Text) {byte : UInt8} (beyond : ¬ byte.toNat < 0x80) :
    Sound (start chars byte) ∧ EndsBeyondAscii (start chars byte).text := by
  rcases lead_of_not_ascii beyond with malformed | ⟨partialChar, opens, foreign⟩
  · simp only [start, malformed]
    exact
      ⟨sound_of_complete _, _, _, text_of_complete chars replacement, beyondAscii_replacement⟩
  · simp only [start, opens]
    exact
      ⟨sound_of_foreign foreign chars, _, _, text_of_pending chars partialChar,
        beyondAscii_replacement⟩

/-- An ASCII byte completes nothing, so it ends what is incomplete and is read by itself. -/
theorem next_of_ascii
    {reading : Reading} {byte : UInt8}
    (sound : reading.Sound)
    (ascii : byte.toNat < 0x80) :
    Sound (reading.next byte) ∧
      (reading.next byte).text = reading.text ++ [Char.ofNat byte.toNat] := by
  rcases reading with ⟨chars, _ | partialChar⟩
  · simp only [next, start_of_ascii chars ascii]
    exact ⟨sound_of_complete _, text_of_complete _ _⟩
  · have notContinued : ¬ (partialChar.low ≤ byte.toNat ∧ byte.toNat ≤ partialChar.high) := by
      intro inRange
      have nextByte := (sound partialChar rfl).nextByte
      omega
    simp only [next, if_neg notContinued, start_of_ascii _ ascii]
    refine ⟨sound_of_complete _, ?_⟩
    rw [text_of_complete, text_of_pending, List.reverse_cons]

theorem next_of_not_ascii
    {reading : Reading} {byte : UInt8}
    (sound : reading.Sound)
    (beyond : ¬ byte.toNat < 0x80) :
    Sound (reading.next byte) ∧ EndsBeyondAscii (reading.next byte).text := by
  rcases reading with ⟨chars, _ | ⟨value, low, high, later⟩⟩
  · exact start_of_not_ascii chars beyond
  · -- A byte in range completes the character or brings it nearer to that.
    by_cases inRange : low ≤ byte.toNat ∧ byte.toNat ≤ high
    · have continued := (sound _ rfl).character
      cases later with
      | zero =>
          simp only [next, if_pos inRange]
          exact
            ⟨sound_of_complete _, _, _, text_of_complete chars _,
              continued byte.toNat inRange.1 inRange.2⟩
      | succ later =>
          simp only [next, if_pos inRange]
          have foreign : Partial.Foreign ⟨value * 64 + (byte.toNat - 0x80), 0x80, 0xBF, later⟩ :=
            ⟨Nat.le_refl _, continued byte.toNat inRange.1 inRange.2⟩
          exact
            ⟨sound_of_foreign foreign chars, _, _, text_of_pending chars _,
              beyondAscii_replacement⟩
    · simp only [next, if_neg inRange]
      exact start_of_not_ascii _ beyond

theorem Sound.next
    {reading : Reading} (sound : reading.Sound) (byte : UInt8) :
    Sound (reading.next byte) := by
  by_cases ascii : byte.toNat < 0x80
  · exact (next_of_ascii sound ascii).1
  · exact (next_of_not_ascii sound ascii).1

/-! ### A whole byte string -/

theorem Sound.foldl_next
    {reading : Reading} (sound : reading.Sound) (bytes : Bytes) :
    Sound (bytes.foldl Reading.next reading) := by
  induction bytes generalizing reading with
  | nil =>
      exact sound
  | cons byte rest inductionHypothesis =>
      exact inductionHypothesis (sound.next byte)

theorem sound_read (bytes : Bytes) : Sound (bytes.foldl next {}) :=
  Sound.foldl_next (sound_of_complete []) bytes

end Reading

theorem decodeLossy_append_singleton (bytes : Bytes) (byte : UInt8) :
    decodeLossy (bytes ++ [byte]) = ((bytes.foldl Reading.next {}).next byte).text := by
  rw [decodeLossy, List.foldl_append, List.foldl_cons, List.foldl_nil]

theorem decodeLossy_append_ascii
    (bytes : Bytes) {byte : UInt8} (ascii : byte.toNat < 0x80) :
    decodeLossy (bytes ++ [byte]) = decodeLossy bytes ++ [Char.ofNat byte.toNat] := by
  rw [decodeLossy_append_singleton]
  exact (Reading.next_of_ascii (Reading.sound_read bytes) ascii).2

theorem endsBeyondAscii_decodeLossy
    (bytes : Bytes) {byte : UInt8} (beyond : ¬ byte.toNat < 0x80) :
    EndsBeyondAscii (decodeLossy (bytes ++ [byte])) := by
  rw [decodeLossy_append_singleton]
  exact (Reading.next_of_not_ascii (Reading.sound_read bytes) beyond).2

/-! ## Endings -/

theorem append_singleton_suffix_iff
    {Item : Type} {front back : List Item} {first second : Item} :
    front ++ [first] <:+ back ++ [second] ↔ front <:+ back ∧ first = second := by
  have sameLength : [first].length = [second].length := rfl
  rw [List.suffix_append_inj_of_length_eq sameLength, List.singleton_inj]

theorem EndsBeyondAscii.not_append_suffix
    {text start : Text} {last : Char}
    (endsBeyond : EndsBeyondAscii text)
    (ascii : last.toNat < 0x80) :
    ¬ start ++ [last] <:+ text := by
  intro isEnding
  obtain ⟨before, final, rfl, beyond⟩ := endsBeyond
  rw [← (append_singleton_suffix_iff.mp isEnding).2] at beyond
  exact Nat.not_lt_of_le beyond ascii

theorem suffix_decodeLossy_iff
    {ending : Text}
    (ascii : ∀ char ∈ ending, char.toNat < 0x80)
    (bytes : Bytes) :
    ending <:+ decodeLossy bytes ↔ encode ending <:+ bytes := by
  induction bytes using List.reverseRecOn generalizing ending with
  | nil =>
      have readEmpty : decodeLossy [] = [] := rfl
      rw [readEmpty, List.suffix_nil, List.suffix_nil, encode_eq_nil_iff]
  | append_singleton front byte inductionHypothesis =>
      rcases List.eq_nil_or_concat ending with rfl | ⟨start, last, rfl⟩
      · simp
      · rw [List.concat_eq_append] at ascii ⊢
        have startAscii : ∀ char ∈ start, char.toNat < 0x80 := by
          intro char member
          exact ascii char (List.mem_append_left _ member)
        have lastAscii : last.toNat < 0x80 :=
          ascii last (List.mem_append_right _ List.mem_cons_self)
        rw [encode_append_ascii start lastAscii]
        by_cases byteAscii : byte.toNat < 0x80
        · rw [decodeLossy_append_ascii front byteAscii, append_singleton_suffix_iff,
            append_singleton_suffix_iff, inductionHypothesis startAscii,
            ascii_eq_iff lastAscii byteAscii]
        · apply iff_of_false
          · exact (endsBeyondAscii_decodeLossy front byteAscii).not_append_suffix lastAscii
          · intro isEnding
            apply byteAscii
            rw [← (append_singleton_suffix_iff.mp isEnding).2,
              UInt8.toNat_ofNat_of_lt' (show _ < 256 by omega)]
            exact lastAscii

end CommentErasure.Utf8

namespace CommentErasure.Dialect

theorem encode_markupEnding : Utf8.encode markupEnding = [0x2E, 0x6D, 0x64] := rfl

theorem ofPath_eq_markup_iff (path : Bytes) :
    ofPath path = .markup ↔ [0x2E, 0x6D, 0x64] <:+ path := by
  have ascii : ∀ char ∈ markupEnding, char.toNat < 0x80 := by
    simp [markupEnding]
  rw [← encode_markupEnding, ← Utf8.suffix_decodeLossy_iff ascii, ofPath]
  split <;> simp_all

example : ofPath [0x61, 0xF0, 0x9F, 0x2E, 0x6D, 0x64] = .markup := by decide

end CommentErasure.Dialect
