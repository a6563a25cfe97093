import Mathlib.Data.List.Basic

/-!
# Percent encoding

The characters of a safe set stand for themselves, any other character is
written as its bytes in UTF-8, each as `%` and two digits.  Decoding reads
such triples back and leaves everything else alone, so it returns bytes.

Decoding undoes one encoding.  A text that has been encoded twice is decoded
to the encoding of the text, which is longer as soon as it differs.
-/

namespace PercentEncoding

/-- The bytes of a text. -/
def utf8 (text : List Char) : List UInt8 :=
  text.flatMap String.utf8EncodeChar

def hexDigit (value : Nat) : Char :=
  if value < 10 then Char.ofNat (48 + value) else Char.ofNat (55 + value)

def hexValue (c : Char) : Option Nat :=
  if '0' ≤ c ∧ c ≤ '9' then some (c.toNat - 48)
  else if 'A' ≤ c ∧ c ≤ 'F' then some (c.toNat - 55)
  else if 'a' ≤ c ∧ c ≤ 'f' then some (c.toNat - 87)
  else none

def encodeByte (byte : UInt8) : List Char :=
  ['%', hexDigit (byte.toNat / 16), hexDigit (byte.toNat % 16)]

def encodeChar (safe : Char → Bool) (c : Char) : List Char :=
  if safe c then [c] else (String.utf8EncodeChar c).flatMap encodeByte

def encode (safe : Char → Bool) (text : List Char) : List Char :=
  text.flatMap (encodeChar safe)

/-- A `%` without two digits behind it stands for itself. -/
def decode : List Char → List UInt8
  | [] => []
  | c :: rest =>
      if c = '%' then
        match rest with
        | high :: low :: tail =>
            match hexValue high, hexValue low with
            | some high, some low =>
                UInt8.ofNat (16 * high + low) :: decode tail
            | _, _ => String.utf8EncodeChar c ++ decode (high :: low :: tail)
        | rest => String.utf8EncodeChar c ++ decode rest
      else
        String.utf8EncodeChar c ++ decode rest

variable {safe : Char → Bool} {text left right rest : List Char}

/-! ## Bytes -/

@[simp] theorem utf8_nil : utf8 [] = [] := rfl

@[simp] theorem utf8_cons (c : Char) (text : List Char) :
    utf8 (c :: text) = String.utf8EncodeChar c ++ utf8 text := by
  simp [utf8]

@[simp] theorem utf8_append (left right : List Char) :
    utf8 (left ++ right) = utf8 left ++ utf8 right := by
  simp [utf8]

theorem utf8EncodeChar_pos (c : Char) :
    0 < (String.utf8EncodeChar c).length :=
  List.length_pos_of_ne_nil String.utf8EncodeChar_ne_nil

theorem hexValue_hexDigit : ∀ value < 16,
    hexValue (hexDigit value) = some value := by
  decide

theorem length_utf8_hexDigit : ∀ value < 16,
    (String.utf8EncodeChar (hexDigit value)).length = 1 := by
  decide

/-! ## Decoding -/

theorem decode_cons_of_ne {c : Char} (plain : c ≠ '%') :
    decode (c :: rest) = String.utf8EncodeChar c ++ decode rest := by
  conv_lhs => unfold decode
  rw [if_neg plain]

theorem decode_of_not_mem (plain : '%' ∉ text) : decode text = utf8 text := by
  induction text with
  | nil => rfl
  | cons c text induction =>
      rw [List.mem_cons, not_or] at plain
      rw [decode_cons_of_ne (Ne.symm plain.1), induction plain.2, utf8_cons]

theorem decode_digits {high low : Char} {h l : Nat}
    (highValue : hexValue high = some h) (lowValue : hexValue low = some l) :
    decode ('%' :: high :: low :: rest) =
      UInt8.ofNat (16 * h + l) :: decode rest := by
  simp only [decode, if_true, highValue, lowValue]

theorem decode_no_digits {high low : Char}
    (other : ∀ h l, hexValue high = some h → hexValue low = some l → False) :
    decode ('%' :: high :: low :: rest) =
      String.utf8EncodeChar '%' ++ decode (high :: low :: rest) := by
  rw [decode, if_pos rfl]
  split
  · rename_i h l highValue lowValue
    exact absurd lowValue (other h l highValue)
  · rfl

theorem decode_short
    (short : ∀ high low tail, rest = high :: low :: tail → False) :
    decode ('%' :: rest) = String.utf8EncodeChar '%' ++ decode rest := by
  rw [decode, if_pos rfl]
  exact short

theorem decode_encodeByte (byte : UInt8) :
    decode (encodeByte byte ++ rest) = byte :: decode rest := by
  have bound := byte.toNat_lt
  have high := hexValue_hexDigit (byte.toNat / 16) (by omega)
  have low := hexValue_hexDigit (byte.toNat % 16) (by omega)
  have value : UInt8.ofNat (16 * (byte.toNat / 16) + byte.toNat % 16) = byte := by
    rw [Nat.div_add_mod]
    simp
  simp only [encodeByte, List.cons_append, List.nil_append]
  rw [decode_digits high low, value]

theorem decode_encodeBytes (bytes : List UInt8) :
    decode (bytes.flatMap encodeByte ++ rest) = bytes ++ decode rest := by
  induction bytes with
  | nil => rfl
  | cons byte bytes induction =>
      rw [List.flatMap_cons, List.append_assoc, decode_encodeByte, induction]
      rfl

theorem decode_encode_append (escaped : safe '%' = false)
    (text rest : List Char) :
    decode (encode safe text ++ rest) = utf8 text ++ decode rest := by
  induction text with
  | nil => rfl
  | cons c text induction =>
      have step : encode safe (c :: text) = encodeChar safe c ++ encode safe text := by
        simp [encode]
      rw [step, List.append_assoc, encodeChar]
      by_cases plain : safe c = true
      · have different : c ≠ '%' := by
          intro same
          rw [same, escaped] at plain
          cases plain
        rw [if_pos plain, List.singleton_append, decode_cons_of_ne different,
          induction, utf8_cons, List.append_assoc]
      · rw [if_neg plain, decode_encodeBytes, induction, utf8_cons,
          List.append_assoc]

theorem decode_encode (escaped : safe '%' = false) :
    decode (encode safe text) = utf8 text := by
  have whole := decode_encode_append escaped text []
  simpa [decode] using whole

/-- What stands before a character that is no digit is decoded by itself. -/
theorem decode_append_cons {c : Char}
    (noDigit : hexValue c = none) (text rest : List Char) :
    decode (text ++ c :: rest) = decode text ++ decode (c :: rest) := by
  induction text using decode.induct with
  | case1 => rfl
  | case2 high low tail h l lowValue highValue induction =>
      simp only [List.cons_append]
      rw [decode_digits highValue lowValue, induction,
        decode_digits highValue lowValue]
      rfl
  | case3 high low tail other induction =>
      simp only [List.cons_append] at induction ⊢
      rw [decode_no_digits other, induction, decode_no_digits other,
        List.append_assoc]
  | case4 tail short induction =>
      rw [decode_short short, List.append_assoc, ← induction, List.cons_append]
      -- at most one digit stands between the `%` and the character
      cases tail with
      | nil =>
          cases rest with
          | nil => exact decode_short (by simp)
          | cons next rest =>
              apply decode_no_digits
              intro h l found
              rw [noDigit] at found
              cases found
      | cons high tail =>
          cases tail with
          | nil =>
              apply decode_no_digits
              intro h l _ found
              rw [noDigit] at found
              cases found
          | cons low tail => exact absurd rfl (short high low tail)
  | case5 first tail different induction =>
      rw [List.cons_append, decode_cons_of_ne different, induction,
        decode_cons_of_ne different, List.append_assoc]

theorem length_decode_le (text : List Char) :
    (decode text).length ≤ (utf8 text).length := by
  induction text using decode.induct with
  | case1 => simp [decode]
  | case2 high low tail h l lowValue highValue induction =>
      have first := utf8EncodeChar_pos '%'
      rw [decode_digits highValue lowValue]
      simp only [List.length_cons, utf8_cons, List.length_append]
      omega
  | case3 high low tail other induction =>
      rw [decode_no_digits other, utf8_cons, List.length_append,
        List.length_append]
      omega
  | case4 tail short induction =>
      rw [decode_short short, utf8_cons, List.length_append,
        List.length_append]
      omega
  | case5 first tail different induction =>
      rw [decode_cons_of_ne different, utf8_cons, List.length_append,
        List.length_append]
      omega

/-! ## Encoding twice -/

theorem length_utf8_encodeBytes (bytes : List UInt8) :
    (utf8 (bytes.flatMap encodeByte)).length = 3 * bytes.length := by
  induction bytes with
  | nil => rfl
  | cons byte bytes induction =>
      have bound := byte.toNat_lt
      have high := length_utf8_hexDigit (byte.toNat / 16) (by omega)
      have low := length_utf8_hexDigit (byte.toNat % 16) (by omega)
      have percent : (String.utf8EncodeChar '%').length = 1 := by decide
      simp only [List.flatMap_cons, utf8_append, List.length_append, induction,
        encodeByte, utf8_cons, utf8_nil, List.append_nil, high, low, percent,
        List.length_cons]
      omega

theorem length_utf8_encodeChar (safe : Char → Bool) (c : Char) :
    (String.utf8EncodeChar c).length ≤ (utf8 (encodeChar safe c)).length ∧
      (safe c = false → (String.utf8EncodeChar c).length <
        (utf8 (encodeChar safe c)).length) := by
  have positive := utf8EncodeChar_pos c
  by_cases plain : safe c = true
  · simp [encodeChar, plain]
  · rw [encodeChar, if_neg plain, length_utf8_encodeBytes]
    omega

/-- An encoding that is no longer than the text is the text. -/
theorem encode_eq_of_length_le
    (short : (utf8 (encode safe text)).length ≤ (utf8 text).length) :
    encode safe text = text := by
  suffices whole : (utf8 text).length ≤ (utf8 (encode safe text)).length ∧
      ((utf8 (encode safe text)).length ≤ (utf8 text).length →
        encode safe text = text) from whole.2 short
  clear short
  induction text with
  | nil => exact ⟨Nat.le_refl _, fun _ => rfl⟩
  | cons c text induction =>
      obtain ⟨first, longer⟩ := length_utf8_encodeChar safe c
      have step : encode safe (c :: text) =
          encodeChar safe c ++ encode safe text := by
        simp [encode]
      rw [step]
      simp only [utf8_cons, utf8_append, List.length_append]
      refine ⟨by omega, ?_⟩
      intro short
      have plain : safe c = true := by
        by_contra other
        have strict := longer (Bool.not_eq_true _ ▸ other)
        omega
      rw [induction.2 (by omega), encodeChar, if_pos plain]
      rfl

theorem mem_encode {c : Char} (member : c ∈ encode safe text) :
    safe c = true ∨ c = '%' ∨ ∃ value < 16, c = hexDigit value := by
  simp only [encode, List.mem_flatMap, encodeChar] at member
  obtain ⟨origin, -, inside⟩ := member
  split at inside
  · rename_i plain
    rw [List.mem_singleton] at inside
    exact .inl (inside ▸ plain)
  · obtain ⟨byte, -, digit⟩ := List.mem_flatMap.mp inside
    have bound := byte.toNat_lt
    simp only [encodeByte, List.mem_cons, List.not_mem_nil, or_false] at digit
    rcases digit with rfl | rfl | rfl
    · exact .inr (.inl rfl)
    · exact .inr (.inr ⟨byte.toNat / 16, by omega, rfl⟩)
    · exact .inr (.inr ⟨byte.toNat % 16, by omega, rfl⟩)

end PercentEncoding
