import BoSyntax.Source.Utf8

/-!
# Decoding what was encoded

A character takes a leading byte, and for each six further bits of its code point a continuation
byte. Decoding gathers these bits again, and the bounds of the first continuation byte are kept by
every code point that is neither overlong nor a surrogate, so decoding gives what was encoded.
-/

namespace BoSyntax.Utf8

variable {offset value bits : Nat} {byte : UInt8} {rest : List UInt8} {pending : Pending}

/-! ## Single bytes -/

/-- A byte holds every value that fits. -/
theorem toNat_ofNat (h : value < 256) : (UInt8.ofNat value).toNat = value :=
  UInt8.toNat_ofNat_of_lt' h

/-- A byte below 0x80 is a character. -/
theorem decodeFrom_ascii (h : value < 0x80) :
    decodeFrom none offset (UInt8.ofNat value :: rest) =
      (Char.ofNat value :: ·) <$> decodeFrom none (offset + 1) rest := by
  have hbyte : (UInt8.ofNat value).toNat = value := toNat_ofNat (by omega)
  have hlt : UInt8.ofNat value < 0x80 := by simpa [UInt8.lt_iff_toNat_lt, hbyte] using h
  rw [decodeFrom, if_pos hlt, hbyte]
  cases decodeFrom none (offset + 1) rest <;> rfl

/-- A leading byte announces continuation bytes. -/
theorem decodeFrom_lead (h : lead? byte offset = some pending) :
    decodeFrom none offset (byte :: rest) = decodeFrom (some pending) (offset + 1) rest := by
  have hge : ¬byte < 0x80 := by
    intro hlt
    have hlow : byte < 0xC2 := UInt8.lt_trans hlt (by decide)
    simp [lead?, hlow] at h
  simp only [decodeFrom, if_neg hge, h]

/-- A continuation byte within its bounds adds six bits. -/
theorem decodeFrom_continuation (hbits : bits < 64) (hlow : pending.low.toNat ≤ bits + 128)
    (hhigh : bits + 128 ≤ pending.high.toNat) :
    decodeFrom (some pending) offset (UInt8.ofNat (bits + 128) :: rest) =
      if pending.missing ≤ 1 then
        (Char.ofNat (pending.value * 64 + bits) :: ·) <$> decodeFrom none (offset + 1) rest
      else
        decodeFrom
          (some { pending with
            value := pending.value * 64 + bits
            missing := pending.missing - 1
            low := 0x80
            high := 0xBF }) (offset + 1) rest := by
  have hbyte : (UInt8.ofNat (bits + 128)).toNat = bits + 128 := toNat_ofNat (by omega)
  have hbounds : ¬(UInt8.ofNat (bits + 128) < pending.low ∨
      pending.high < UInt8.ofNat (bits + 128)) := by
    rw [UInt8.lt_iff_toNat_lt, UInt8.lt_iff_toNat_lt, hbyte]
    omega
  rw [decodeFrom, if_neg hbounds, hbyte, Nat.add_sub_cancel]
  split
  · cases decodeFrom none (offset + 1) rest <;> rfl
  · rfl

/-! ## Leading bytes -/

/-- What a leading byte announces, told by its value. -/
theorem lead?_ofNat (h : value < 256) :
    lead? (UInt8.ofNat value) offset =
      if value < 0xC2 then none
      else if value < 0xE0 then some ⟨UInt8.ofNat value, offset, value - 0xC0, 1, 0x80, 0xBF⟩
      else if value = 0xE0 then some ⟨UInt8.ofNat value, offset, value - 0xE0, 2, 0xA0, 0xBF⟩
      else if value = 0xED then some ⟨UInt8.ofNat value, offset, value - 0xE0, 2, 0x80, 0x9F⟩
      else if value < 0xF0 then some ⟨UInt8.ofNat value, offset, value - 0xE0, 2, 0x80, 0xBF⟩
      else if value = 0xF0 then some ⟨UInt8.ofNat value, offset, value - 0xF0, 3, 0x90, 0xBF⟩
      else if value < 0xF4 then some ⟨UInt8.ofNat value, offset, value - 0xF0, 3, 0x80, 0xBF⟩
      else if value = 0xF4 then some ⟨UInt8.ofNat value, offset, value - 0xF0, 3, 0x80, 0x8F⟩
      else none := by
  simp only [lead?, UInt8.lt_iff_toNat_lt, ← UInt8.toNat_inj, toNat_ofNat h, UInt8.reduceToNat]

/-- The leading byte of two, of which the first two would be of no use. -/
theorem lead?_two (hlow : 2 ≤ value) (hhigh : value < 32) :
    lead? (UInt8.ofNat (value + 192)) offset =
      some ⟨UInt8.ofNat (value + 192), offset, value, 1, 0x80, 0xBF⟩ := by
  rw [lead?_ofNat (by omega), if_neg (by omega), if_pos (by omega), Nat.add_sub_cancel]

/-- The leading byte of three. The bounds of the next byte exclude no character that takes three
bytes: what is below 0x800 takes fewer, and the surrogates are no characters. -/
theorem lead?_three (h : value < 16) : ∃ low high,
    lead? (UInt8.ofNat (value + 224)) offset =
      some ⟨UInt8.ofNat (value + 224), offset, value, 2, low, high⟩ ∧
    ∀ bits < 64, (value = 0 → 32 ≤ bits) → (value = 13 → bits < 32) →
      low.toNat ≤ bits + 128 ∧ bits + 128 ≤ high.toNat := by
  rw [lead?_ofNat (by omega), if_neg (by omega), if_neg (by omega), Nat.add_sub_cancel]
  by_cases hzero : value = 0
  · rw [if_pos (by omega)]
    exact ⟨0xA0, 0xBF, rfl, by simp; omega⟩
  · rw [if_neg (by omega)]
    by_cases hsurrogate : value = 13
    · rw [if_pos (by omega)]
      exact ⟨0x80, 0x9F, rfl, by simp; omega⟩
    · rw [if_neg (by omega), if_pos (by omega)]
      exact ⟨0x80, 0xBF, rfl, by simp; omega⟩

/-- The leading byte of four. The bounds of the next byte exclude what is below 0x10000 and what is
above all code points. -/
theorem lead?_four (h : value < 5) : ∃ low high,
    lead? (UInt8.ofNat (value + 240)) offset =
      some ⟨UInt8.ofNat (value + 240), offset, value, 3, low, high⟩ ∧
    ∀ bits < 64, (value = 0 → 16 ≤ bits) → (value = 4 → bits < 16) →
      low.toNat ≤ bits + 128 ∧ bits + 128 ≤ high.toNat := by
  rw [lead?_ofNat (by omega), if_neg (by omega), if_neg (by omega), if_neg (by omega),
    if_neg (by omega), if_neg (by omega), Nat.add_sub_cancel]
  by_cases hzero : value = 0
  · rw [if_pos (by omega)]
    exact ⟨0x90, 0xBF, rfl, by simp; omega⟩
  · rw [if_neg (by omega)]
    by_cases hlast : value = 4
    · rw [if_neg (by omega), if_pos (by omega)]
      exact ⟨0x80, 0x8F, rfl, by simp; omega⟩
    · rw [if_pos (by omega)]
      exact ⟨0x80, 0xBF, rfl, by simp; omega⟩

/-! ## Characters -/

/-- The bytes of a character, with the bits of its code point that they hold. The bits are those of
a code point that takes so many bytes and is no surrogate. -/
inductive Encoded : Nat → List UInt8 → Prop
  | one {value : Nat} : value < 128 → Encoded value [UInt8.ofNat value]
  | two {high low : Nat} : 2 ≤ high → high < 32 → low < 64 →
    Encoded (high * 64 + low) [UInt8.ofNat (high + 192), UInt8.ofNat (low + 128)]
  | three {high middle low : Nat} : high < 16 → middle < 64 → low < 64 → (high = 0 → 32 ≤ middle) →
    (high = 13 → middle < 32) →
    Encoded ((high * 64 + middle) * 64 + low)
      [UInt8.ofNat (high + 224), UInt8.ofNat (middle + 128), UInt8.ofNat (low + 128)]
  | four {high upper middle low : Nat} : high < 5 → upper < 64 → middle < 64 → low < 64 →
    (high = 0 → 16 ≤ upper) → (high = 4 → upper < 16) →
    Encoded (((high * 64 + upper) * 64 + middle) * 64 + low)
      [UInt8.ofNat (high + 240), UInt8.ofNat (upper + 128), UInt8.ofNat (middle + 128),
        UInt8.ofNat (low + 128)]

/-- Characters are encoded in this form. -/
theorem encoded_encodeChar (c : Char) : Encoded c.toNat (String.utf8EncodeChar c) := by
  have hvalid : c.val.toNat < 0xD800 ∨ 0xDFFF < c.val.toNat ∧ c.val.toNat < 0x110000 := c.valid
  change Encoded c.val.toNat _
  unfold String.utf8EncodeChar
  generalize c.val.toNat = value at hvalid ⊢
  dsimp only
  split
  · exact .one (by omega)
  split
  · have h : Encoded (value / 64 % 32 * 64 + value % 64) _ :=
      .two (by omega) (by omega) (by omega)
    rwa [show value / 64 % 32 * 64 + value % 64 = value by omega] at h
  split
  · have h : Encoded ((value / 4096 % 16 * 64 + value / 64 % 64) * 64 + value % 64) _ :=
      .three (by omega) (by omega) (by omega) (by omega) (by omega)
    rwa [show (value / 4096 % 16 * 64 + value / 64 % 64) * 64 + value % 64 = value by omega] at h
  · have h : Encoded (((value / 262144 % 8 * 64 + value / 4096 % 64) * 64 + value / 64 % 64) * 64 +
        value % 64) _ :=
      .four (by omega) (by omega) (by omega) (by omega) (by omega) (by omega)
    rwa [show ((value / 262144 % 8 * 64 + value / 4096 % 64) * 64 + value / 64 % 64) * 64 +
      value % 64 = value by omega] at h

/-- The bytes of a code point are decoded as its character. -/
theorem Encoded.decodeFrom_append {bytes : List UInt8} (h : Encoded value bytes) :
    decodeFrom none offset (bytes ++ rest) =
      (Char.ofNat value :: ·) <$> decodeFrom none (offset + bytes.length) rest := by
  cases h with
  | one h => exact decodeFrom_ascii h
  | two hlow hhigh h =>
    simp only [List.cons_append, List.nil_append, List.length_cons, List.length_nil]
    rw [decodeFrom_lead (lead?_two hlow hhigh),
      decodeFrom_continuation h (by simp) (by simp; omega), if_pos (Nat.le_refl 1)]
  | three h hmiddle hlow hlong hsurrogate =>
    obtain ⟨low, high, hlead, hbounds⟩ := @lead?_three offset _ h
    obtain ⟨hleast, hmost⟩ := hbounds _ hmiddle hlong hsurrogate
    simp only [List.cons_append, List.nil_append, List.length_cons, List.length_nil]
    rw [decodeFrom_lead hlead, decodeFrom_continuation hmiddle hleast hmost, if_neg (by simp),
      decodeFrom_continuation hlow (by simp) (by simp; omega), if_pos (by simp)]
  | four h hupper hmiddle hlow hlong hlast =>
    obtain ⟨low, high, hlead, hbounds⟩ := @lead?_four offset _ h
    obtain ⟨hleast, hmost⟩ := hbounds _ hupper hlong hlast
    simp only [List.cons_append, List.nil_append, List.length_cons, List.length_nil]
    rw [decodeFrom_lead hlead, decodeFrom_continuation hupper hleast hmost, if_neg (by simp),
      decodeFrom_continuation hmiddle (by simp) (by simp; omega), if_neg (by simp),
      decodeFrom_continuation hlow (by simp) (by simp; omega), if_pos (by simp)]

/-- Decoding gives what was encoded. -/
theorem decodeFrom_encode (text : List Char) (offset : Nat) :
    decodeFrom none offset (encode text) = .ok text := by
  induction text generalizing offset with
  | nil => rfl
  | cons c text ih =>
    rw [encode, List.flatMap_cons, (encoded_encodeChar c).decodeFrom_append, ← encode, ih,
      Char.ofNat_toNat]
    rfl

/-- What is encoded is decoded again. -/
theorem decode_encode (text : List Char) : decode (encode text) = .ok text :=
  decodeFrom_encode text 0

end BoSyntax.Utf8
