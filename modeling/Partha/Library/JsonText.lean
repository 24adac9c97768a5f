import Mathlib.Data.Char
import Mathlib.Data.List.Basic
import Mathlib.Logic.Function.Basic

/-!
# The Text of JSON Scalars

How the strings and the integers of a JSON document are written, in characters
and in bytes, and that the text can be read in one way only.

A text is read from the left, so the useful form of injectivity has a rest on
both sides: if two scalars with something after each make the same text, then
the scalars are the same and so are the rests. Strings have it without a
condition, because they end with a quotation mark that does not occur inside.
An integer has it if what follows does not start with a digit.

`utf8` is the encoding of a text. `utf16` is the sequence of code units by
which property names are sorted, and its order is not the order of the code
points: the surrogates of a supplementary character lie below the upper end of
the basic plane.

## Main definitions

* `quote`: A string literal, with the escapes that are required and no others.
* `decimal`: An integer in decimal notation.
* `join`: A list of texts with commas between them.
* `utf8`, `utf16`: The code units of a text.

## Theorems

* `flatMap_append_inj`: A prefix code is uniquely decodable.
* `quote_append_inj`, `decimal_append_inj`: Literals are read in one way.
* `join_append_inj`: So are lists whose elements are.
* `utf8_injective`, `utf16_injective`: So are the encodings.
-/

namespace JsonText

open List

section Codes

variable {α β : Type*}

/-- No code word is a prefix of another one with a rest. -/
def PrefixCode (f : α → List β) : Prop :=
  ∀ a b r r', f a ++ r = f b ++ r' → a = b ∧ r = r'

variable {f : α → List β}

/-- A prefix code is uniquely decodable, and so is the place where it ends. -/
theorem flatMap_append_inj (hf : PrefixCode f) {stop : List β → Prop}
    (hstop : ∀ a r r', stop r' → f a ++ r ≠ r') {l l' : List α} {r r' : List β} (hr : stop r)
    (hr' : stop r') (h : l.flatMap f ++ r = l'.flatMap f ++ r') : l = l' ∧ r = r' := by
  induction l generalizing l' with
  | nil =>
    cases l' with
    | nil => exact ⟨rfl, h⟩
    | cons b l' =>
      simp only [flatMap_nil, nil_append, flatMap_cons, append_assoc] at h
      exact absurd h.symm (hstop b _ r hr)
  | cons a l ih =>
    cases l' with
    | nil =>
      simp only [flatMap_nil, nil_append, flatMap_cons, append_assoc] at h
      exact absurd h (hstop a _ r' hr')
    | cons b l' =>
      simp only [flatMap_cons, append_assoc] at h
      rcases hf a b _ _ h with ⟨hab, hrest⟩
      rcases ih hrest with ⟨hl, hrr⟩
      exact ⟨by rw [hab, hl], hrr⟩

theorem flatMap_injective (hf : PrefixCode f) (hne : ∀ a, f a ≠ []) :
    Function.Injective (fun l : List α => l.flatMap f) := by
  intro l l' h
  have hstop : ∀ a r r', r' = [] → f a ++ r ≠ r' := by
    rintro a r r' rfl e
    exact hne a (append_eq_nil_iff.mp e).1
  have happ : l.flatMap f ++ [] = l'.flatMap f ++ [] := by
    rw [append_nil, append_nil]
    exact h
  exact (flatMap_append_inj hf hstop rfl rfl happ).1

end Codes

section Strings

def hexDigit (n : Nat) : Char :=
  if n < 10 then Char.ofNat (48 + n) else Char.ofNat (87 + n)

/-- A character inside a string literal. -/
def escapeChar (c : Char) : List Char :=
  if c = '"' then ['\\', '"']
  else if c = '\\' then ['\\', '\\']
  else if c = '\n' then ['\\', 'n']
  else if c = '\r' then ['\\', 'r']
  else if c = '\t' then ['\\', 't']
  else if c = Char.ofNat 12 then ['\\', 'f']
  else if c = Char.ofNat 8 then ['\\', 'b']
  else if c.toNat < 32 then
    ['\\', 'u', '0', '0', hexDigit (c.toNat / 16), hexDigit (c.toNat % 16)]
  else [c]

def quote (s : List Char) : List Char :=
  '"' :: (s.flatMap escapeChar ++ ['"'])

def hexValue (c : Char) : Nat :=
  if c.toNat < 58 then c.toNat - 48 else c.toNat - 87

theorem hexValue_hexDigit : ∀ n, n < 16 → hexValue (hexDigit n) = n := by
  decide

/-- The first character of a text that `escapeChar` has written. -/
def readChar : List Char → Option (Char × List Char)
  | [] => none
  | '\\' :: 'u' :: _ :: _ :: a :: b :: rest =>
    some (Char.ofNat (hexValue a * 16 + hexValue b), rest)
  | '\\' :: 'n' :: rest => some ('\n', rest)
  | '\\' :: 'r' :: rest => some ('\r', rest)
  | '\\' :: 't' :: rest => some ('\t', rest)
  | '\\' :: 'f' :: rest => some (Char.ofNat 12, rest)
  | '\\' :: 'b' :: rest => some (Char.ofNat 8, rest)
  | '\\' :: c :: rest => some (c, rest)
  | c :: rest => some (c, rest)

theorem readChar_escapeChar (c : Char) (rest : List Char) :
    readChar (escapeChar c ++ rest) = some (c, rest) := by
  unfold escapeChar
  by_cases h₁ : c = '"'
  · rw [if_pos h₁, h₁]
    rfl
  rw [if_neg h₁]
  by_cases h₂ : c = '\\'
  · rw [if_pos h₂, h₂]
    rfl
  rw [if_neg h₂]
  by_cases h₃ : c = '\n'
  · rw [if_pos h₃, h₃]
    rfl
  rw [if_neg h₃]
  by_cases h₄ : c = '\r'
  · rw [if_pos h₄, h₄]
    rfl
  rw [if_neg h₄]
  by_cases h₅ : c = '\t'
  · rw [if_pos h₅, h₅]
    rfl
  rw [if_neg h₅]
  by_cases h₆ : c = Char.ofNat 12
  · rw [if_pos h₆, h₆]
    rfl
  rw [if_neg h₆]
  by_cases h₇ : c = Char.ofNat 8
  · rw [if_pos h₇, h₇]
    rfl
  rw [if_neg h₇]
  by_cases h₈ : c.toNat < 32
  · rw [if_pos h₈]
    have hhigh := hexValue_hexDigit (c.toNat / 16) (by omega)
    have hlow := hexValue_hexDigit (c.toNat % 16) (by omega)
    have hvalue : c.toNat / 16 * 16 + c.toNat % 16 = c.toNat := by omega
    simp [readChar, hhigh, hlow, hvalue]
  · -- A character that stands for itself is no backslash.
    rw [if_neg h₈]
    simp only [cons_append, nil_append]
    unfold readChar
    split
    · rename_i h
      cases h
    all_goals
      first
        | exact absurd (List.cons.inj ‹_›).1 h₂
        | (rename_i h
           rcases List.cons.inj h with ⟨rfl, rfl⟩
           rfl)

theorem escapeChar_prefix : PrefixCode escapeChar := by
  intro a b r r' h
  have ha := readChar_escapeChar a r
  rw [h, readChar_escapeChar b r', Option.some.injEq, Prod.mk.injEq] at ha
  exact ⟨ha.1.symm, ha.2.symm⟩

/-- No escape starts with the quotation mark that ends the literal. -/
theorem escapeChar_head (c : Char) (rest : List Char) : ∃ d text, escapeChar c ++ rest = d :: text ∧
    d ≠ '"' := by
  unfold escapeChar
  split
  · exact ⟨_, _, rfl, by decide⟩
  · rename_i hc
    repeat' split
    all_goals first | exact ⟨_, _, rfl, by decide⟩ | exact ⟨_, _, rfl, hc⟩

theorem quote_append_inj {s s' r r' : List Char} (h : quote s ++ r = quote s' ++ r') :
    s = s' ∧ r = r' := by
  unfold quote at h
  simp only [cons_append, append_assoc, nil_append, List.cons.injEq, true_and] at h
  have hstop : ∀ (c : Char) (rest text : List Char), (∃ t, text = '"' :: t) →
      escapeChar c ++ rest ≠ text := by
    rintro c rest _ ⟨t, rfl⟩ e
    rcases escapeChar_head c rest with ⟨d, text, hd, hne⟩
    rw [hd, List.cons.injEq] at e
    exact hne e.1
  rcases flatMap_append_inj escapeChar_prefix hstop ⟨r, rfl⟩ ⟨r', rfl⟩ h with ⟨hs, hr⟩
  exact ⟨hs, (List.cons.inj hr).2⟩

end Strings

section Integers

/-- `str` of an integer. -/
def decimal : Int → List Char
  | .ofNat n => Nat.toDigits 10 n
  | .negSucc n => '-' :: Nat.toDigits 10 (n + 1)

/-- The text does not go on with a digit. -/
def NoDigit (r : List Char) : Prop :=
  ∀ c t, r = c :: t → c.isDigit = false

theorem noDigit_nil : NoDigit [] := fun _ _ h => by cases h

variable {r r' : List Char}

theorem noDigit_cons {c : Char} (h : c.isDigit = false) : NoDigit (c :: r) := by
  intro d t e
  rw [← (List.cons.inj e).1]
  exact h

theorem takeWhile_digits {ds : List Char} (hds : ∀ c ∈ ds, c.isDigit = true) (hr : NoDigit r) :
    (ds ++ r).takeWhile Char.isDigit = ds := by
  induction ds with
  | nil =>
    cases r with
    | nil => rfl
    | cons c r => simp only [nil_append, takeWhile_cons, hr c r rfl,
        Bool.false_eq_true, if_false]
  | cons d ds ih =>
    have hd := hds d mem_cons_self
    have hrest := ih (fun c hc => hds c (mem_cons_of_mem d hc))
    simp [hd, hrest]

theorem digits_append_inj {n m : Nat} (hr : NoDigit r) (hr' : NoDigit r')
    (h : Nat.toDigits 10 n ++ r = Nat.toDigits 10 m ++ r') : n = m ∧ r = r' := by
  have hdigits : ∀ k, ∀ c ∈ Nat.toDigits 10 k, c.isDigit = true := fun k c hc =>
    Nat.isDigit_of_mem_toDigits (by omega) (by omega) hc
  have hsame : Nat.toDigits 10 n = Nat.toDigits 10 m := by
    rw [← takeWhile_digits (hdigits n) hr, h, takeWhile_digits (hdigits m) hr']
  constructor
  · rw [← Nat.ofDigitChars_ten_toDigits (n := n), hsame, Nat.ofDigitChars_ten_toDigits]
  · rw [hsame] at h
    exact append_cancel_left h

/-- A numeral starts with a digit or, if it is negative, with a minus sign. -/
theorem digits_head (n : Nat) (r : List Char) :
    ∃ c t, Nat.toDigits 10 n ++ r = c :: t ∧ c.isDigit = true := by
  cases hn : Nat.toDigits 10 n with
  | nil => exact absurd hn Nat.toDigits_ne_nil
  | cons c t =>
    refine ⟨c, t ++ r, rfl, Nat.isDigit_of_mem_toDigits (b := 10) (n := n) (by omega) (by omega) ?_⟩
    rw [hn]
    exact mem_cons_self

theorem decimal_append_inj {i j : Int} (hr : NoDigit r) (hr' : NoDigit r')
    (h : decimal i ++ r = decimal j ++ r') : i = j ∧ r = r' := by
  have hminus : ∀ n (t t' : List Char), Nat.toDigits 10 n ++ t ≠ '-' :: t' := by
    intro n t t' e
    rcases digits_head n t with ⟨c, u, hu, hc⟩
    rw [hu, List.cons.injEq] at e
    rw [e.1] at hc
    exact absurd hc (by decide)
  cases i with
  | ofNat n =>
    cases j with
    | ofNat m =>
      rcases digits_append_inj hr hr' h with ⟨hnm, hrr⟩
      exact ⟨by rw [hnm], hrr⟩
    | negSucc m => exact absurd h (hminus n r _)
  | negSucc n =>
    cases j with
    | ofNat m => exact absurd h.symm (hminus m r' _)
    | negSucc m =>
      rcases digits_append_inj hr hr' (List.cons.inj h).2 with ⟨hnm, hrr⟩
      exact ⟨by rw [Nat.succ.inj hnm], hrr⟩

/-- What a numeral can start with. -/
theorem decimal_head (i : Int) (r : List Char) :
    ∃ c t, decimal i ++ r = c :: t ∧ (c.isDigit = true ∨ c = '-') := by
  cases i with
  | ofNat n =>
    rcases digits_head n r with ⟨c, t, h, hc⟩
    exact ⟨c, t, h, .inl hc⟩
  | negSucc n => exact ⟨'-', _, rfl, .inr rfl⟩

end Integers

section Lists

variable {α : Type*}

/-- `",".join` of a list of texts. -/
def join : List (List Char) → List Char
  | [] => []
  | [s] => s
  | s :: t :: rest => s ++ ',' :: join (t :: rest)

/-- Elements that are read in one way make lists that are, up to a closing
    bracket with which no element starts. -/
theorem join_append_inj {f : α → List Char} {close : Char} (hdigit : close.isDigit = false)
    (hcomma : close ≠ ',') (hclose : ∀ a r t, f a ++ r ≠ close :: t) {l l' : List α}
    {r r' : List Char}
    (hf : ∀ a ∈ l, ∀ b t t', NoDigit t → NoDigit t' → f a ++ t = f b ++ t' → a = b ∧ t = t')
    (h : join (l.map f) ++ close :: r = join (l'.map f) ++ close :: r') : l = l' ∧ r = r' := by
  have hend : ∀ t, NoDigit (close :: t) := fun t => noDigit_cons hdigit
  have hnext : ∀ t, NoDigit (',' :: t) := fun t => noDigit_cons (by decide)
  induction l generalizing l' with
  | nil =>
    rcases l' with _ | ⟨b, _ | ⟨b', l'⟩⟩
    · exact ⟨rfl, (List.cons.inj h).2⟩
    · exact absurd h.symm (hclose b _ _)
    · simp only [map_cons, map_nil, join, append_assoc, nil_append] at h
      exact absurd h.symm (hclose b _ _)
  | cons a l ih =>
    have ha := hf a mem_cons_self
    have htail := fun b hb => hf b (mem_cons_of_mem a hb)
    rcases l with _ | ⟨a', l⟩
    · rcases l' with _ | ⟨b, _ | ⟨b', l'⟩⟩
      · exact absurd h (hclose a _ _)
      · rcases ha b _ _ (hend r) (hend r') h with ⟨hab, hr⟩
        exact ⟨by rw [hab], (List.cons.inj hr).2⟩
      · simp only [map_cons, map_nil, join, append_assoc] at h
        rcases ha b _ _ (hend r) (hnext _) h with ⟨_, hr⟩
        exact absurd (List.cons.inj hr).1 hcomma
    · rcases l' with _ | ⟨b, _ | ⟨b', l'⟩⟩
      · simp only [map_cons, map_nil, join, append_assoc, nil_append] at h
        exact absurd h (hclose a _ _)
      · simp only [map_cons, map_nil, join, append_assoc] at h
        rcases ha b _ _ (hnext _) (hend r') h with ⟨_, hr⟩
        exact absurd (List.cons.inj hr).1.symm hcomma
      · simp only [map_cons, join, append_assoc, cons_append] at h
        rcases ha b _ _ (hnext _) (hnext _) h with ⟨hab, hr⟩
        have hrest : a' :: l = b' :: l' ∧ r = r' := by
          refine ih htail ?_
          simp only [map_cons]
          exact (List.cons.inj hr).2
        exact ⟨by rw [hab, hrest.1], hrest.2⟩

end Lists

section Encodings

/-- `str.encode("utf-8")`. -/
def utf8 (s : List Char) : List UInt8 :=
  s.flatMap String.utf8EncodeChar

theorem utf8_injective : Function.Injective utf8 := by
  intro s s' h
  have hbytes : s.utf8Encode = s'.utf8Encode := congrArg List.toByteArray h
  rw [← String.toByteArray_ofList, ← String.toByteArray_ofList, String.toByteArray_inj,
    String.ofList_inj] at hbytes
  exact hbytes

/-- The bytes as numbers, by which encoded texts are sorted. -/
def utf8Key (s : List Char) : List Nat :=
  (utf8 s).map UInt8.toNat

theorem utf8Key_injective : Function.Injective utf8Key :=
  fun _ _ h => utf8_injective (map_injective_iff.mpr (fun _ _ => UInt8.toNat_inj.mp) h)

/-- The UTF-16 code units of a character. -/
def utf16Char (c : Char) : List Nat :=
  if c.toNat < 0x10000 then [c.toNat]
  else [0xD800 + (c.toNat - 0x10000) / 0x400, 0xDC00 + (c.toNat - 0x10000) % 0x400]

/-- The code units of `str.encode("utf-16be")`, whose bytes have the same order. -/
def utf16 (s : List Char) : List Nat :=
  s.flatMap utf16Char

/-- A character is no surrogate. -/
theorem not_surrogate (c : Char) : c.toNat < 0xD800 ∨ 0xDFFF < c.toNat ∧ c.toNat < 0x110000 :=
  c.valid

theorem utf16Char_prefix : PrefixCode utf16Char := by
  intro a b r r' h
  have ha := not_surrogate a
  have hb := not_surrogate b
  unfold utf16Char at h
  by_cases hal : a.toNat < 0x10000
  · rw [if_pos hal] at h
    by_cases hbl : b.toNat < 0x10000
    · rw [if_pos hbl] at h
      simp only [cons_append, nil_append, List.cons.injEq] at h
      exact ⟨Char.ext (UInt32.toNat_inj.mp h.1), h.2⟩
    · rw [if_neg hbl] at h
      simp only [cons_append, nil_append, List.cons.injEq] at h
      omega
  · rw [if_neg hal] at h
    by_cases hbl : b.toNat < 0x10000
    · rw [if_pos hbl] at h
      simp only [cons_append, nil_append, List.cons.injEq] at h
      omega
    · rw [if_neg hbl] at h
      simp only [cons_append, nil_append, List.cons.injEq] at h
      have hab : a.toNat = b.toNat := by omega
      exact ⟨Char.ext (UInt32.toNat_inj.mp hab), h.2.2⟩

theorem utf16_injective : Function.Injective utf16 := by
  refine flatMap_injective utf16Char_prefix (fun c => ?_)
  unfold utf16Char
  split
  · exact cons_ne_nil _ _
  · exact cons_ne_nil _ _

end Encodings

end JsonText
