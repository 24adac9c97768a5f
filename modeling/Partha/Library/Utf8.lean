import Partha.Library.JsonText

/-!
# Decoding UTF-8

How bytes are decoded, strictly and with replacement.

A strict decoder inverts the encoding: it succeeds on nothing but encoded texts.
A decoder with replacement always succeeds. Where no character can be read it
puts the replacement character for as many bytes as could have begun one, and at
least for one. On an encoded text the two agree, so a text that was decoded with
replacement is what its own encoding decodes to, but it says little about the
bytes that it was read from.

Both are given as many steps as there are bytes, which is enough because every
step uses up one.

## Main definitions

* `decodeChar`: The character at the front of the bytes.
* `decode`: `bytes.decode("utf-8")`.
* `decodeReplace`: `bytes.decode("utf-8", errors="replace")`.

## Theorems

* `decodeChar_eq_some`: What a character is read from.
* `decode_eq_some`: The strict decoder inverts the encoding.
* `decodeReplace_utf8`: Encoded texts are read without replacement.
-/

namespace Utf8

open JsonText

section Characters

/-- The character at the front, and the bytes after it. -/
def decodeChar (bytes : List UInt8) : Option (Char × List UInt8) :=
  (bytes.toByteArray.utf8DecodeChar? 0).map (fun c => (c, bytes.drop c.utf8Size))

theorem decodeChar_eq_some {bytes rest : List UInt8} {c : Char} :
    decodeChar bytes = some (c, rest) ↔ bytes = String.utf8EncodeChar c ++ rest := by
  have hlen : (String.utf8EncodeChar c).length = c.utf8Size := String.length_utf8EncodeChar c
  constructor
  · intro h
    rcases Option.map_eq_some_iff.mp h with ⟨d, hd, heq⟩
    rcases Prod.mk.inj heq with ⟨rfl, rfl⟩
    rcases ByteArray.exists_of_utf8DecodeChar?_eq_some hd with ⟨l, hl⟩
    have hbytes : bytes = String.utf8EncodeChar d ++ l.data.toList := by
      have hdata := congrArg (fun b : ByteArray => b.data.toList) hl
      simp only [List.toList_data_toByteArray, ByteArray.data_append, Array.toList_append] at hdata
      exact hdata
    rw [hbytes, ← hlen, List.drop_left]
  · intro h
    unfold decodeChar
    rw [h, List.toByteArray_append, ByteArray.utf8DecodeChar?_utf8EncodeChar_append,
      Option.map_some,
      ← hlen, List.drop_left]

end Characters

section Strict

def decodeSteps : Nat → List UInt8 → Option (List Char)
  | _, [] => some []
  | 0, _ :: _ => none
  | n + 1, b :: bytes =>
    match decodeChar (b :: bytes) with
    | none => none
    | some (c, rest) => (decodeSteps n rest).map (fun s => c :: s)

/-- `bytes.decode("utf-8")`, if there is no error. -/
def decode (bytes : List UInt8) : Option (List Char) :=
  decodeSteps bytes.length bytes

theorem utf8_cons (c : Char) (s : List Char) : utf8 (c :: s) = String.utf8EncodeChar c ++ utf8 s :=
  List.flatMap_cons

variable {n : Nat} {bytes : List UInt8} {s : List Char}

theorem utf8_of_decodeSteps (h : decodeSteps n bytes = some s) : bytes = utf8 s := by
  induction n generalizing bytes s with
  | zero =>
    cases bytes with
    | nil => rw [← Option.some.inj h]; rfl
    | cons b bytes => cases h
  | succ n ih =>
    cases bytes with
    | nil => rw [← Option.some.inj h]; rfl
    | cons b bytes =>
      unfold decodeSteps at h
      cases hc : decodeChar (b :: bytes) with
      | none =>
        simp only [hc] at h
        cases h
      | some p =>
        simp only [hc] at h
        rcases Option.map_eq_some_iff.mp h with ⟨t, ht, rfl⟩
        rw [utf8_cons, ← ih ht]
        exact decodeChar_eq_some.mp hc

/-- A character is encoded in one byte at least. -/
theorem utf8EncodeChar_pos (c : Char) : 0 < (String.utf8EncodeChar c).length := by
  rw [String.length_utf8EncodeChar]
  exact c.utf8Size_pos

theorem encodeChar_cons (c : Char) (rest : List UInt8) :
    ∃ b bytes, String.utf8EncodeChar c ++ rest = b :: bytes := by
  have hpos := utf8EncodeChar_pos c
  cases h : String.utf8EncodeChar c with
  | nil =>
    rw [h] at hpos
    exact absurd hpos (Nat.lt_irrefl 0)
  | cons b bytes => exact ⟨b, bytes ++ rest, rfl⟩

theorem decodeSteps_utf8 (h : (utf8 s).length ≤ n) : decodeSteps n (utf8 s) = some s := by
  induction s generalizing n with
  | nil => cases n <;> rfl
  | cons c s ih =>
    have hpos := utf8EncodeChar_pos c
    rw [utf8_cons, List.length_append] at h
    rw [utf8_cons]
    cases n with
    | zero => omega
    | succ n =>
      have hrest := ih (n := n) (by omega)
      have hchar : decodeChar (String.utf8EncodeChar c ++ utf8 s) = some (c, utf8 s) :=
        decodeChar_eq_some.mpr rfl
      rcases encodeChar_cons c (utf8 s) with ⟨b, bytes, hb⟩
      rw [hb] at hchar ⊢
      unfold decodeSteps
      simp [hchar, hrest]

/-- The strict decoder inverts the encoding. -/
theorem decode_eq_some : decode bytes = some s ↔ bytes = utf8 s := by
  constructor
  · exact utf8_of_decodeSteps
  · intro h
    rw [h]
    exact decodeSteps_utf8 le_rfl

end Strict

section Replacement

/-- How many bytes follow a first byte, or none if it is no first byte. -/
def trailing (b : UInt8) : Nat :=
  if 0xC2 ≤ b ∧ b ≤ 0xDF then 1
  else if 0xE0 ≤ b ∧ b ≤ 0xEF then 2
  else if 0xF0 ≤ b ∧ b ≤ 0xF4 then 3
  else 0

def isContinuation (b : UInt8) : Bool :=
  0x80 ≤ b && b ≤ 0xBF

/-- A second byte after a first one. Some first bytes allow fewer of them, for
    overlong forms, surrogates and what is beyond the last code point. -/
def isSecond (first b : UInt8) : Bool :=
  isContinuation b && (first ≠ 0xE0 || 0xA0 ≤ b) && (first ≠ 0xED || b ≤ 0x9F) &&
    (first ≠ 0xF0 || 0x90 ≤ b) && (first ≠ 0xF4 || b ≤ 0x8F)

/-- How many bytes one replacement character stands for. -/
def malformed : List UInt8 → Nat
  | first :: second :: rest =>
    if trailing first = 0 ∨ isSecond first second = false then 1
    else 2 + ((rest.take (trailing first - 1)).takeWhile isContinuation).length
  | bytes => bytes.length

def replaceSteps : Nat → List UInt8 → List Char
  | _, [] => []
  | 0, _ :: _ => []
  | n + 1, b :: bytes =>
    match decodeChar (b :: bytes) with
    | none => Char.ofNat 0xFFFD :: replaceSteps n ((b :: bytes).drop (malformed (b :: bytes)))
    | some (c, rest) => c :: replaceSteps n rest

/-- `bytes.decode("utf-8", errors="replace")`. -/
def decodeReplace (bytes : List UInt8) : List Char :=
  replaceSteps bytes.length bytes

theorem replaceSteps_eq {n : Nat} {bytes : List UInt8} {s : List Char}
    (h : decodeSteps n bytes = some s) : replaceSteps n bytes = s := by
  induction n generalizing bytes s with
  | zero =>
    cases bytes with
    | nil => rw [← Option.some.inj h]; rfl
    | cons b bytes => cases h
  | succ n ih =>
    cases bytes with
    | nil => rw [← Option.some.inj h]; rfl
    | cons b bytes =>
      unfold decodeSteps at h
      unfold replaceSteps
      cases hc : decodeChar (b :: bytes) with
      | none =>
        simp only [hc] at h
        cases h
      | some p =>
        simp only [hc] at h ⊢
        rcases Option.map_eq_some_iff.mp h with ⟨t, ht, rfl⟩
        rw [ih ht]

/-- Encoded texts are read without replacement. -/
theorem decodeReplace_utf8 (s : List Char) : decodeReplace (utf8 s) = s :=
  replaceSteps_eq (decode_eq_some.mpr rfl)

-- A two-byte form cut short, and an overlong form, which is malformed byte by byte.
example : decodeReplace [0x61, 0xC3, 0x62] = ['a', Char.ofNat 0xFFFD, 'b'] := by decide

example : decodeReplace [0xE0, 0x80, 0x61] = [Char.ofNat 0xFFFD, Char.ofNat 0xFFFD, 'a'] := by
  decide

end Replacement

end Utf8
