import Mathlib.Data.List.TakeWhile
import Partha.Library.JsonText

/-!
# The Grammar of JSON

The documents of JSON, with all that a text of one can have in it: blanks around every token,
escape sequences of every kind, and keys more than once.

A document carries what its grammar asks for, so the text of a document is a text of the grammar
and there are no others. `parse` reads a text from the left. It gets back what a document says,
so two documents with one text say the same.

Strings are decoded into code points. A pair of surrogates that are written as escape sequences
stands for one code point, and a surrogate that is not part of a pair stands for itself.

## Main definitions

* `Json`: What a document says.
* `Value`, `Document`: The syntax trees.
* `Document.text`, `Document.data`: The text of a document, and what it says.
* `parse`: The document that is read from a text.
* `Value.Compact`: A value without blanks.
* `partsOf`, `numberOf`, `arrayOf`, `objectOf`: Values that are written without blanks.

## Theorems

* `parse_text`: The text of a document is read as what the document says.
-/

namespace Partha

namespace JsonGrammar

open List

section Data

/-- What a document says. Numbers with a fraction or an exponent are kept as they are written. -/
inductive Json where
  | null
  | bool (b : Bool)
  | int (i : Int)
  | real (text : List Char)
  | string (points : List Nat)
  | array (items : List Json)
  | object (members : List (List Nat × Json))

end Data

section Characters

def blanks : List Char :=
  " \t\n\r".toList

def isBlank (c : Char) : Bool :=
  blanks.elem c

def punctuation : List Char :=
  "\x7b\x7d[]:,\"".toList

/-- A character of a number or of a word. -/
def isWordChar (c : Char) : Bool :=
  !isBlank c && !punctuation.elem c

/-- A character that stands for itself in a string. -/
def isPlain (c : Char) : Bool :=
  0x20 ≤ c.toNat && c ≠ '"' && c ≠ '\\'

def hexValue (c : Char) : Option Nat :=
  if c.isDigit then some (c.toNat - '0'.toNat)
  else if 'a' ≤ c ∧ c ≤ 'f' then some (c.toNat - 'a'.toNat + 10)
  else if 'A' ≤ c ∧ c ≤ 'F' then some (c.toNat - 'A'.toNat + 10)
  else none

/-- The number of four digits. -/
def fourHex (a b c d : Char) : Option Nat := do
  let a ← hexValue a
  let b ← hexValue b
  let c ← hexValue c
  let d ← hexValue d
  some (((a * 16 + b) * 16 + c) * 16 + d)

/-- What a character stands for after a backslash. -/
def simpleEscape (c : Char) : Option Nat :=
  [('"', 0x22), ('\\', 0x5c), ('/', 0x2f), ('b', 8), ('f', 12), ('n', 10), ('r', 13),
    ('t', 9)].lookup c

end Characters

section Numerals

/-- Digits without a superfluous zero. -/
def isNatural (s : List Char) : Bool :=
  s ≠ [] && s.all Char.isDigit && (s.length = 1 || s.head? ≠ some '0')

/-- An exponent, or nothing. -/
def isExponent : List Char → Bool
  | [] => true
  | [_] => false
  | c :: d :: s =>
    (c = 'e' || c = 'E') &&
      if d = '+' ∨ d = '-' then s ≠ [] && s.all Char.isDigit else (d :: s).all Char.isDigit

/-- What can follow the integer part of a number. -/
def isFraction : List Char → Bool
  | [] => true
  | c :: s =>
    if c = '.' then s.takeWhile Char.isDigit ≠ [] && isExponent (s.dropWhile Char.isDigit)
    else isExponent (c :: s)

/-- The number that a text without its sign is. -/
def unsigned (text s : List Char) (sign : Int) : Option Json :=
  if isNatural (s.takeWhile Char.isDigit) then
    if s.dropWhile Char.isDigit = [] then some (.int (sign * Nat.ofDigitChars 10 s 0))
    else if isFraction (s.dropWhile Char.isDigit) then some (.real text)
    else none
  else none

/-- The number that a text is. -/
def numeral : List Char → Option Json
  | [] => none
  | c :: s => if c = '-' then unsigned (c :: s) s (-1) else unsigned (c :: s) (c :: s) 1

/-- The word or the number that a text is. -/
def scalar (s : List Char) : Option Json :=
  if s = "null".toList then some .null
  else if s = "true".toList then some (.bool true)
  else if s = "false".toList then some (.bool false)
  else numeral s

end Numerals

section Trees

/-- What can be around a token. -/
structure Blank where
  text : List Char
  isBlank : text.all isBlank = true

/-- A part of a string. -/
inductive Part where
  | plain (c : Char) (h : isPlain c = true)
  | escape (c : Char) (h : (simpleEscape c).isSome = true)
  | unicode (a b c d : Char) (h : (fourHex a b c d).isSome = true)

/-- A word or a number. -/
structure Scalar where
  text : List Char
  data : Json
  reads : scalar text = some data

/-- A key up to its colon. -/
structure Key where
  before : Blank
  parts : List Part
  after : Blank

mutual

/-- A value. -/
inductive Value where
  | scalar (s : Scalar)
  | string (parts : List Part)
  | emptyArray (blank : Blank)
  | array (items : Items)
  | emptyObject (blank : Blank)
  | object (members : Members)

/-- The items of an array that is not empty. -/
inductive Items where
  | last (before : Blank) (value : Value) (after : Blank)
  | more (before : Blank) (value : Value) (after : Blank) (items : Items)

/-- The members of an object that is not empty. -/
inductive Members where
  | last (key : Key) (before : Blank) (value : Value) (after : Blank)
  | more (key : Key) (before : Blank) (value : Value) (after : Blank) (members : Members)

end

mutual

/-- How deep a value is nested. What has nothing in it is not. -/
def Value.nesting : Value → Nat
  | .scalar _ | .string _ | .emptyArray _ | .emptyObject _ => 0
  | .array items => items.nesting + 1
  | .object members => members.nesting + 1

def Items.nesting : Items → Nat
  | .last _ value _ => value.nesting
  | .more _ value _ items => max value.nesting items.nesting

def Members.nesting : Members → Nat
  | .last _ _ value _ => value.nesting
  | .more _ _ value _ members => max value.nesting members.nesting

end

/-- A document. -/
structure Document where
  before : Blank
  value : Value
  after : Blank

end Trees

section Texts

def Part.text : Part → List Char
  | .plain c _ => [c]
  | .escape c _ => ['\\', c]
  | .unicode a b c d _ => ['\\', 'u', a, b, c, d]

/-- The code unit or the code point of a part. -/
def Part.unit : Part → Nat
  | .plain c _ => c.toNat
  | .escape _ h => (simpleEscape _).get h
  | .unicode _ _ _ _ h => (fourHex _ _ _ _).get h

def isHigh (n : Nat) : Bool :=
  0xD800 ≤ n && n < 0xDC00

def isLow (n : Nat) : Bool :=
  0xDC00 ≤ n && n < 0xE000

/-- The code points of some code units. -/
def combine : List Nat → List Nat
  | [] => []
  | [n] => [n]
  | n :: m :: units =>
    if isHigh n && isLow m then
      (0x10000 + (n - 0xD800) * 0x400 + (m - 0xDC00)) :: combine units
    else n :: combine (m :: units)

/-- What is after the first quotation mark of a string. -/
def stringText (parts : List Part) : List Char :=
  parts.flatMap Part.text ++ ['"']

def points (parts : List Part) : List Nat :=
  combine (parts.map Part.unit)

/-- The text of a key, up to its string. -/
def Key.text (k : Key) : List Char :=
  k.before.text ++ '"' :: (stringText k.parts ++ k.after.text ++ [':'])

mutual

def Value.text : Value → List Char
  | .scalar s => s.text
  | .string parts => '"' :: stringText parts
  | .emptyArray blank => '[' :: blank.text ++ [']']
  | .array items => '[' :: items.text ++ [']']
  | .emptyObject blank => '\x7b' :: blank.text ++ ['\x7d']
  | .object members => '\x7b' :: members.text ++ ['\x7d']

def Items.text : Items → List Char
  | .last before value after => before.text ++ value.text ++ after.text
  | .more before value after items =>
    before.text ++ value.text ++ after.text ++ ',' :: items.text

def Members.text : Members → List Char
  | .last key before value after => key.text ++ before.text ++ value.text ++ after.text
  | .more key before value after members =>
    key.text ++ before.text ++ value.text ++ after.text ++ ',' :: members.text

end

mutual

def Value.data : Value → Json
  | .scalar s => s.data
  | .string parts => .string (points parts)
  | .emptyArray _ => .array []
  | .array items => .array items.data
  | .emptyObject _ => .object []
  | .object members => .object members.data

def Items.data : Items → List Json
  | .last _ value _ => [value.data]
  | .more _ value _ items => value.data :: items.data

def Members.data : Members → List (List Nat × Json)
  | .last key _ value _ => [(points key.parts, value.data)]
  | .more key _ value _ members => (points key.parts, value.data) :: members.data

end

def Document.text (d : Document) : List Char :=
  d.before.text ++ d.value.text ++ d.after.text

def Document.data (d : Document) : Json :=
  d.value.data

end Texts

section Parsing

def skip (s : List Char) : List Char :=
  s.dropWhile isBlank

/-- What an escape sequence after its backslash stands for, and how long it is. -/
def readEscape : List Char → Option (Nat × Nat)
  | [] => none
  | c :: s =>
    if c = 'u' then
      match s with
      | a :: b :: c :: d :: _ => (fourHex a b c d).map (fun n => (n, 5))
      | _ => none
    else (simpleEscape c).map (fun n => (n, 1))

/-- The code units of a string after its first quotation mark, and what follows it. The first
    characters can be part of an escape sequence that was read. -/
def readString : Nat → List Char → Option (List Nat × List Char)
  | _, [] => none
  | n + 1, _ :: s => readString n s
  | 0, c :: s =>
    if c = '"' then some ([], s)
    else if c = '\\' then
      (readEscape s).bind fun e => (readString e.2 s).map (fun r => (e.1 :: r.1, r.2))
    else if isPlain c then (readString 0 s).map (fun r => (c.toNat :: r.1, r.2))
    else none

mutual

/-- A value at the start of a text, and what follows it. -/
def readValue : Nat → List Char → Option (Json × List Char)
  | 0, _ => none
  | _ + 1, [] => none
  | fuel + 1, c :: s =>
    if c = '"' then (readString 0 s).map (fun r => (.string (combine r.1), r.2))
    else if c = '[' then
      if (skip s).head? = some ']' then some (.array [], (skip s).tail)
      else (readItems fuel s).map (fun r => (.array r.1, r.2))
    else if c = '\x7b' then
      if (skip s).head? = some '\x7d' then some (.object [], (skip s).tail)
      else (readMembers fuel s).map (fun r => (.object r.1, r.2))
    else
      (scalar ((c :: s).takeWhile isWordChar)).map (fun j => (j, (c :: s).dropWhile isWordChar))

/-- The items of an array that is not empty. -/
def readItems : Nat → List Char → Option (List Json × List Char)
  | 0, _ => none
  | fuel + 1, s => do
    let r ← readValue fuel (skip s)
    match skip r.2 with
    | [] => none
    | c :: s =>
      if c = ',' then (readItems fuel s).map (fun t => (r.1 :: t.1, t.2))
      else if c = ']' then some ([r.1], s)
      else none

/-- The members of an object that is not empty. -/
def readMembers : Nat → List Char → Option (List (List Nat × Json) × List Char)
  | 0, _ => none
  | fuel + 1, s =>
    if (skip s).head? = some '"' then do
      let k ← readString 0 (skip s).tail
      if (skip k.2).head? = some ':' then do
        let r ← readValue fuel (skip (skip k.2).tail)
        match skip r.2 with
        | [] => none
        | c :: s =>
          if c = ',' then (readMembers fuel s).map (fun t => ((combine k.1, r.1) :: t.1, t.2))
          else if c = '\x7d' then some ([(combine k.1, r.1)], s)
          else none
      else none
    else none

end

/-- The document that is read from a text. -/
def parse (s : List Char) : Option Json := do
  let r ← readValue s.length (skip s)
  if skip r.2 = [] then some r.1 else none

end Parsing

section Words

/-- Every character of a number is one of these. -/
def isNumberChar (c : Char) : Bool :=
  c.isDigit || c = '.' || c = 'e' || c = 'E' || c = '+' || c = '-'

variable {c : Char} {s : List Char} {j : Json}

theorem isNumberChar_of_isDigit (h : c.isDigit = true) : isNumberChar c = true := by
  simp [isNumberChar, h]

theorem isWordChar_of_isNumberChar (h : isNumberChar c = true) : isWordChar c = true := by
  have hblanks : blanks.all (fun d => !isNumberChar d) = true := by decide
  have hmarks : punctuation.all (fun d => !isNumberChar d) = true := by decide
  rw [isWordChar, Bool.and_eq_true, Bool.not_eq_true', Bool.not_eq_true']
  refine ⟨Bool.eq_false_iff.mpr (fun hc => ?_), Bool.eq_false_iff.mpr (fun hc => ?_)⟩
  · have hnot := all_eq_true.mp hblanks c (elem_iff.mp hc)
    rw [h] at hnot
    exact Bool.false_ne_true hnot
  · have hnot := all_eq_true.mp hmarks c (elem_iff.mp hc)
    rw [h] at hnot
    exact Bool.false_ne_true hnot

theorem isExponent_chars (h : isExponent s = true) : ∀ c ∈ s, isNumberChar c = true := by
  rcases s with _ | ⟨c, _ | ⟨d, s⟩⟩
  · exact fun c hc => absurd hc not_mem_nil
  · exact absurd h Bool.false_ne_true
  · rw [isExponent, Bool.and_eq_true] at h
    have hmark : isNumberChar c = true := by
      rcases Bool.or_eq_true_iff.mp h.1 with hc | hc
      · rw [of_decide_eq_true hc]
        decide
      · rw [of_decide_eq_true hc]
        decide
    have hrest : isNumberChar d = true ∧ ∀ e ∈ s, e.isDigit = true := by
      by_cases hd : d = '+' ∨ d = '-'
      · rw [if_pos hd, Bool.and_eq_true] at h
        refine ⟨?_, all_eq_true.mp h.2.2⟩
        rcases hd with rfl | rfl
        · decide
        · decide
      · rw [if_neg hd] at h
        have hall := all_eq_true.mp h.2
        exact ⟨isNumberChar_of_isDigit (hall d mem_cons_self),
          fun e he => hall e (mem_cons_of_mem d he)⟩
    intro e he
    rcases mem_cons.mp he with rfl | he
    · exact hmark
    · rcases mem_cons.mp he with rfl | he
      · exact hrest.1
      · exact isNumberChar_of_isDigit (hrest.2 e he)

theorem isFraction_chars (h : isFraction s = true) : ∀ c ∈ s, isNumberChar c = true := by
  cases s with
  | nil => exact fun c hc => absurd hc not_mem_nil
  | cons c s =>
    rw [isFraction] at h
    by_cases hc : c = '.'
    · rw [if_pos hc, Bool.and_eq_true] at h
      have hexponent := isExponent_chars h.2
      intro d hd
      rcases mem_cons.mp hd with rfl | hd
      · rw [hc]
        decide
      · rw [← takeWhile_append_dropWhile (p := Char.isDigit) (l := s)] at hd
        rcases mem_append.mp hd with hd | hd
        · exact isNumberChar_of_isDigit (mem_takeWhile_imp hd)
        · exact hexponent d hd
    · rw [if_neg hc] at h
      exact isExponent_chars h

theorem unsigned_chars {text : List Char} {sign : Int} (h : unsigned text s sign = some j) :
    s ≠ [] ∧ ∀ c ∈ s, isNumberChar c = true := by
  rw [unsigned] at h
  by_cases hnatural : isNatural (s.takeWhile Char.isDigit) = true
  · rw [if_pos hnatural] at h
    have hne : s ≠ [] := by
      intro hs
      rw [hs] at hnatural
      exact absurd hnatural (by decide)
    have hfraction : isFraction (s.dropWhile Char.isDigit) = true := by
      by_cases hrest : s.dropWhile Char.isDigit = []
      · rw [hrest]
        rfl
      · rw [if_neg hrest] at h
        by_cases hf : isFraction (s.dropWhile Char.isDigit) = true
        · exact hf
        · rw [if_neg hf] at h
          cases h
    refine ⟨hne, fun c hc => ?_⟩
    rw [← takeWhile_append_dropWhile (p := Char.isDigit) (l := s)] at hc
    rcases mem_append.mp hc with hc | hc
    · exact isNumberChar_of_isDigit (mem_takeWhile_imp hc)
    · exact isFraction_chars hfraction c hc
  · rw [if_neg hnatural] at h
    cases h

theorem numeral_chars (h : numeral s = some j) : s ≠ [] ∧ ∀ c ∈ s, isNumberChar c = true := by
  cases s with
  | nil => cases h
  | cons c s =>
    rw [numeral] at h
    refine ⟨cons_ne_nil c s, ?_⟩
    by_cases hc : c = '-'
    · rw [if_pos hc] at h
      intro d hd
      rcases mem_cons.mp hd with rfl | hd
      · rw [hc]
        decide
      · exact (unsigned_chars h).2 d hd
    · rw [if_neg hc] at h
      exact (unsigned_chars h).2

/-- A word or a number has no characters that end it. -/
theorem scalar_chars (h : scalar s = some j) : s ≠ [] ∧ ∀ c ∈ s, isWordChar c = true := by
  have hword : ∀ w : List Char, w.all isWordChar = true → s = w → ∀ c ∈ s, isWordChar c = true := by
    intro w hw hs c hc
    rw [hs] at hc
    exact all_eq_true.mp hw c hc
  rw [scalar] at h
  by_cases hnull : s = "null".toList
  · exact ⟨by rw [hnull]; decide, hword _ (by decide) hnull⟩
  by_cases htrue : s = "true".toList
  · exact ⟨by rw [htrue]; decide, hword _ (by decide) htrue⟩
  by_cases hfalse : s = "false".toList
  · exact ⟨by rw [hfalse]; decide, hword _ (by decide) hfalse⟩
  rw [if_neg hnull, if_neg htrue, if_neg hfalse] at h
  exact ⟨(numeral_chars h).1, fun c hc => isWordChar_of_isNumberChar ((numeral_chars h).2 c hc)⟩

end Words

section Tokens

/-- A text that does not go on with a word. -/
def Stops (s : List Char) : Prop :=
  ∀ c t, s = c :: t → isWordChar c = false

/-- A text that does not begin with a blank. -/
def Unblank (s : List Char) : Prop :=
  ∀ c t, s = c :: t → isBlank c = false

theorem stops_nil : Stops [] := fun _ _ h => by cases h

variable {c : Char} {s : List Char}

theorem stops_cons (h : isWordChar c = false) (s : List Char) : Stops (c :: s) := by
  intro d t e
  rw [← (List.cons.inj e).1]
  exact h

theorem unblank_cons (h : isBlank c = false) (s : List Char) : Unblank (c :: s) := by
  intro d t e
  rw [← (List.cons.inj e).1]
  exact h

theorem stops_blank (b : Blank) (h : Stops s) : Stops (b.text ++ s) := by
  cases hb : b.text with
  | nil => exact h
  | cons c t =>
    have hall := b.isBlank
    rw [hb, all_cons, Bool.and_eq_true] at hall
    exact stops_cons (by rw [isWordChar, hall.1]; rfl) _

theorem skip_unblank (h : Unblank s) : skip s = s := by
  cases s with
  | nil => rfl
  | cons c s =>
    rw [skip, dropWhile_cons_of_neg]
    rw [h c s rfl]
    exact Bool.false_ne_true

/-- A blank is skipped. -/
theorem skip_blank (b : Blank) (h : Unblank s) : skip (b.text ++ s) = s := by
  rw [skip, dropWhile_append_of_pos (all_eq_true.mp b.isBlank)]
  exact skip_unblank h

/-- A word or a number is read up to where it stops. -/
theorem takeWhile_word {rest : List Char} (hs : ∀ c ∈ s, isWordChar c = true) (hrest : Stops rest) :
    (s ++ rest).takeWhile isWordChar = s ∧ (s ++ rest).dropWhile isWordChar = rest := by
  rw [takeWhile_append_of_pos hs, dropWhile_append_of_pos hs]
  cases rest with
  | nil => exact ⟨append_nil s, rfl⟩
  | cons c t =>
    have hc : ¬ isWordChar c = true := by
      rw [hrest c t rfl]
      exact Bool.false_ne_true
    rw [takeWhile_cons_of_neg hc, dropWhile_cons_of_neg hc]
    exact ⟨append_nil s, rfl⟩

theorem readString_skip (l s : List Char) : readString l.length (l ++ s) = readString 0 s := by
  induction l with
  | nil => rfl
  | cons c l ih => rw [length_cons, cons_append, readString, ih]

theorem readString_escape {l : List Char} {n : Nat} (h : readEscape (l ++ s) = some (n, l.length)) :
    readString 0 ('\\' :: (l ++ s)) = (readString 0 s).map (fun r => (n :: r.1, r.2)) := by
  rw [readString, if_neg (by decide), if_pos rfl, h, Option.bind_some, readString_skip]

theorem readString_part (p : Part) (s : List Char) :
    readString 0 (p.text ++ s) = (readString 0 s).map (fun r => (p.unit :: r.1, r.2)) := by
  cases p with
  | plain c h =>
    have hplain := h
    simp only [isPlain, Bool.and_eq_true, decide_eq_true_eq, ne_eq] at hplain
    rw [Part.text, cons_append, nil_append, readString, if_neg hplain.1.2,
      if_neg hplain.2, if_pos h]
    rfl
  | escape c h =>
    have hu : ¬ c = 'u' := by
      intro hc
      rw [hc] at h
      exact absurd h (by decide)
    refine readString_escape (l := [c]) ?_
    rw [cons_append, nil_append, readEscape.eq_def]
    dsimp only
    rw [if_neg hu]
    exact Option.map_eq_some_iff.mpr ⟨_, (Option.some_get h).symm, rfl⟩
  | unicode a b c d h =>
    refine readString_escape (l := ['u', a, b, c, d]) ?_
    exact Option.map_eq_some_iff.mpr ⟨_, (Option.some_get h).symm, rfl⟩

/-- A string is read up to its last quotation mark. -/
theorem readString_text (parts : List Part) (rest : List Char) :
    readString 0 (stringText parts ++ rest) = some (parts.map Part.unit, rest) := by
  induction parts with
  | nil => rfl
  | cons p parts ih =>
    rw [stringText, flatMap_cons, append_assoc, append_assoc, readString_part,
      ← append_assoc, ← stringText, ih]
    rfl

end Tokens

section Values

mutual

/-- How much of a counter a value takes. -/
def Value.cost : Value → Nat
  | .array items => items.cost + 1
  | .object members => members.cost + 1
  | _ => 1

def Items.cost : Items → Nat
  | .last _ value _ => value.cost + 1
  | .more _ value _ items => max value.cost items.cost + 1

def Members.cost : Members → Nat
  | .last _ _ value _ => value.cost + 1
  | .more _ _ value _ members => max value.cost members.cost + 1

end

/-- What a value begins with is no blank and closes nothing. -/
theorem value_head (v : Value) (rest : List Char) :
    ∃ c t, v.text ++ rest = c :: t ∧ isBlank c = false ∧ c ≠ ']' ∧ c ≠ '\x7d' := by
  cases v with
  | scalar s =>
    rcases scalar_chars s.reads with ⟨hne, hword⟩
    rcases exists_cons_of_ne_nil hne with ⟨c, t, ht⟩
    have hc := hword c (by rw [ht]; exact mem_cons_self)
    have hclose : ∀ d, isWordChar d = false → c ≠ d := by
      intro d hd heq
      rw [heq, hd] at hc
      exact Bool.false_ne_true hc
    refine ⟨c, t ++ rest, by rw [Value.text, ht]; rfl, ?_, hclose ']' (by decide),
      hclose '\x7d' (by decide)⟩
    rw [isWordChar, Bool.and_eq_true] at hc
    exact (Bool.not_eq_true' _).mp hc.1
  | string parts => exact ⟨'"', _, rfl, by decide, by decide, by decide⟩
  | emptyArray blank => exact ⟨'[', _, rfl, by decide, by decide, by decide⟩
  | array items => exact ⟨'[', _, rfl, by decide, by decide, by decide⟩
  | emptyObject blank => exact ⟨'\x7b', _, rfl, by decide, by decide, by decide⟩
  | object members => exact ⟨'\x7b', _, rfl, by decide, by decide, by decide⟩

theorem unblank_value (v : Value) (rest : List Char) : Unblank (v.text ++ rest) := by
  rcases value_head v rest with ⟨c, t, ht, hc, -⟩
  rw [ht]
  exact unblank_cons hc t

/-- The items of an array do not begin like its end. -/
theorem items_head (items : Items) (rest : List Char) :
    (skip (items.text ++ rest)).head? ≠ some ']' := by
  have hvalue : ∀ (b : Blank) (v : Value) (r : List Char),
      (skip (b.text ++ (v.text ++ r))).head? ≠ some ']' := by
    intro b v r
    rw [skip_blank b (unblank_value v r)]
    rcases value_head v r with ⟨c, t, ht, -, hc, -⟩
    rw [ht, List.head?_cons]
    exact fun heq => hc (Option.some.inj heq)
  cases items with
  | last before value after =>
    rw [Items.text, append_assoc, append_assoc]
    exact hvalue before value _
  | more before value after items =>
    simp only [Items.text, append_assoc]
    exact hvalue before value _

theorem key_text (k : Key) (rest : List Char) :
    k.text ++ rest = k.before.text ++ ('"' :: (stringText k.parts ++
      (k.after.text ++ (':' :: rest)))) := by
  simp [Key.text]

/-- A key is read up to its string. -/
theorem skip_key (k : Key) (rest : List Char) : skip (k.text ++ rest) =
    '"' :: (stringText k.parts ++ (k.after.text ++ (':' :: rest))) := by
  rw [key_text, skip_blank k.before (unblank_cons (by decide) _)]

theorem members_head (members : Members) (rest : List Char) :
    (skip (members.text ++ rest)).head? = some '"' := by
  cases members with
  | last key before value after =>
    rw [Members.text, append_assoc, append_assoc, append_assoc, skip_key]
    rfl
  | more key before value after members =>
    simp only [Members.text, append_assoc]
    rw [skip_key]
    rfl

/-- A character that closes or separates, after a blank. -/
theorem skip_mark (b : Blank) {c : Char} (hc : isBlank c = false) (rest : List Char) :
    skip (b.text ++ (c :: rest)) = c :: rest :=
  skip_blank b (unblank_cons hc rest)

mutual

theorem readValue_text (v : Value) (fuel : Nat) (rest : List Char) (hfuel : v.cost ≤ fuel)
    (hrest : Stops rest) : readValue fuel (v.text ++ rest) = some (v.data, rest) := by
  cases fuel with
  | zero => cases v <;> exact absurd hfuel (Nat.not_succ_le_zero _)
  | succ fuel =>
    cases v with
    | scalar s =>
      rcases scalar_chars s.reads with ⟨hne, hword⟩
      rcases exists_cons_of_ne_nil hne with ⟨c, t, ht⟩
      rcases takeWhile_word hword hrest with ⟨htake, hdrop⟩
      have hc := hword c (by rw [ht]; exact mem_cons_self)
      -- a scalar begins with a character of a word, so it is none of the three opening marks
      have hmark : ∀ d, isWordChar d = false → c ≠ d := by
        intro d hd heq
        rw [heq, hd] at hc
        exact Bool.false_ne_true hc
      have hsplit : s.text ++ rest = c :: (t ++ rest) := by rw [ht]; rfl
      rw [Value.text, hsplit, readValue, if_neg (hmark '"' (by decide)),
        if_neg (hmark '[' (by decide)), if_neg (hmark '\x7b' (by decide)), ← hsplit, htake,
        hdrop, s.reads]
      rfl
    | string parts =>
      rw [Value.text, cons_append, readValue, if_pos rfl, readString_text]
      rfl
    | emptyArray blank =>
      rw [Value.text, cons_append, cons_append, readValue, if_neg (by decide),
        if_pos rfl, append_assoc, cons_append, nil_append,
        skip_mark blank (by decide), if_pos (List.head?_cons)]
      rfl
    | array items =>
      have hcost : items.cost ≤ fuel := Nat.le_of_succ_le_succ hfuel
      rw [Value.text, cons_append, cons_append, readValue, if_neg (by decide),
        if_pos rfl, append_assoc, if_neg (items_head items _), cons_append,
        nil_append, readItems_text items fuel rest hcost]
      rfl
    | emptyObject blank =>
      rw [Value.text, cons_append, cons_append, readValue, if_neg (by decide),
        if_neg (by decide), if_pos rfl, append_assoc, cons_append, nil_append,
        skip_mark blank (by decide), if_pos (List.head?_cons)]
      rfl
    | object members =>
      have hcost : members.cost ≤ fuel := Nat.le_of_succ_le_succ hfuel
      have hhead : ¬ (skip (members.text ++ (['\x7d'] ++ rest))).head? = some '\x7d' := by
        rw [members_head]
        decide
      rw [Value.text, cons_append, cons_append, readValue, if_neg (by decide),
        if_neg (by decide), if_pos rfl, append_assoc, if_neg hhead, cons_append,
        nil_append, readMembers_text members fuel rest hcost]
      rfl

theorem readItems_text (items : Items) (fuel : Nat) (rest : List Char) (hfuel : items.cost ≤ fuel) :
    readItems fuel (items.text ++ ']' :: rest) = some (items.data, rest) := by
  have hstops : ∀ (b : Blank) (c : Char) (r : List Char), isWordChar c = false →
      Stops (b.text ++ (c :: r)) := fun b c r hc => stops_blank b (stops_cons hc r)
  cases fuel with
  | zero => cases items <;> exact absurd hfuel (Nat.not_succ_le_zero _)
  | succ fuel =>
    cases items with
    | last before value after =>
      have hcost : value.cost ≤ fuel := Nat.le_of_succ_le_succ hfuel
      simp only [Items.text, append_assoc]
      rw [readItems, skip_blank before (unblank_value value _),
        readValue_text value fuel _ hcost (hstops after ']' rest (by decide))]
      simp only [Option.bind_eq_bind, Option.bind_some]
      rw [skip_mark after (by decide)]
      rfl
    | more before value after items =>
      have hmax : max value.cost items.cost ≤ fuel := Nat.le_of_succ_le_succ hfuel
      have hcost : value.cost ≤ fuel := Nat.le_trans (Nat.le_max_left _ _) hmax
      have hitems : items.cost ≤ fuel := Nat.le_trans (Nat.le_max_right _ _) hmax
      simp only [Items.text, append_assoc, cons_append]
      rw [readItems, skip_blank before (unblank_value value _),
        readValue_text value fuel _ hcost (hstops after ',' _ (by decide))]
      simp only [Option.bind_eq_bind, Option.bind_some]
      rw [skip_mark after (by decide)]
      simp only [if_true]
      rw [readItems_text items fuel rest hitems]
      rfl

theorem readMembers_text (members : Members) (fuel : Nat) (rest : List Char)
    (hfuel : members.cost ≤ fuel) :
    readMembers fuel (members.text ++ '\x7d' :: rest) = some (members.data, rest) := by
  have hstops : ∀ (b : Blank) (c : Char) (r : List Char), isWordChar c = false →
      Stops (b.text ++ (c :: r)) := fun b c r hc => stops_blank b (stops_cons hc r)
  cases fuel with
  | zero => cases members <;> exact absurd hfuel (Nat.not_succ_le_zero _)
  | succ fuel =>
    cases members with
    | last key before value after =>
      have hcost : value.cost ≤ fuel := Nat.le_of_succ_le_succ hfuel
      simp only [Members.text, append_assoc]
      rw [readMembers, skip_key, if_pos List.head?_cons, tail_cons, readString_text]
      simp only [Option.bind_eq_bind, Option.bind_some]
      rw [skip_mark key.after (by decide), if_pos List.head?_cons, tail_cons,
        skip_blank before (unblank_value value _),
        readValue_text value fuel _ hcost (hstops after '\x7d' rest (by decide))]
      simp only [Option.bind_some]
      rw [skip_mark after (by decide)]
      rfl
    | more key before value after members =>
      have hmax : max value.cost members.cost ≤ fuel := Nat.le_of_succ_le_succ hfuel
      have hcost : value.cost ≤ fuel := Nat.le_trans (Nat.le_max_left _ _) hmax
      have hmembers : members.cost ≤ fuel := Nat.le_trans (Nat.le_max_right _ _) hmax
      simp only [Members.text, append_assoc, cons_append]
      rw [readMembers, skip_key, if_pos List.head?_cons, tail_cons, readString_text]
      simp only [Option.bind_eq_bind, Option.bind_some]
      rw [skip_mark key.after (by decide), if_pos List.head?_cons, tail_cons,
        skip_blank before (unblank_value value _),
        readValue_text value fuel _ hcost (hstops after ',' _ (by decide))]
      simp only [Option.bind_some]
      rw [skip_mark after (by decide)]
      simp only [if_true]
      rw [readMembers_text members fuel rest hmembers]
      rfl

end

mutual

/-- A value takes no more of a counter than it has characters. -/
theorem value_cost (v : Value) : v.cost ≤ v.text.length := by
  cases v with
  | scalar s =>
    have hpos := length_pos_iff.mpr (scalar_chars s.reads).1
    exact hpos
  | string parts => exact Nat.succ_le_succ (Nat.zero_le _)
  | emptyArray blank => exact Nat.succ_le_succ (Nat.zero_le _)
  | array items =>
    have hitems := items_cost items
    simp only [Value.cost, Value.text, length_append, length_cons, length_nil]
    omega
  | emptyObject blank => exact Nat.succ_le_succ (Nat.zero_le _)
  | object members =>
    have hmembers := members_cost members
    simp only [Value.cost, Value.text, length_append, length_cons, length_nil]
    omega

theorem items_cost (items : Items) : items.cost ≤ items.text.length + 1 := by
  cases items with
  | last before value after =>
    have hvalue := value_cost value
    simp only [Items.cost, Items.text, length_append]
    omega
  | more before value after items =>
    have hvalue := value_cost value
    have hitems := items_cost items
    simp only [Items.cost, Items.text, length_append, length_cons]
    omega

theorem members_cost (members : Members) : members.cost ≤ members.text.length + 1 := by
  cases members with
  | last key before value after =>
    have hvalue := value_cost value
    simp only [Members.cost, Members.text, length_append]
    omega
  | more key before value after members =>
    have hvalue := value_cost value
    have hmembers := members_cost members
    simp only [Members.cost, Members.text, length_append, length_cons]
    omega

end

/-- The text of a document is read as what the document says. -/
theorem parse_text (d : Document) : parse d.text = some d.data := by
  have hafter : Stops d.after.text := by
    have h := stops_blank d.after stops_nil
    rwa [append_nil] at h
  have hskip : skip d.after.text = [] := by
    have h := skip_blank d.after (s := []) (fun _ _ h => by cases h)
    rwa [append_nil] at h
  have hcost : d.value.cost ≤ d.text.length := by
    have hvalue := value_cost d.value
    simp only [Document.text, length_append]
    omega
  rw [parse]
  have hread : readValue d.text.length (skip d.text) = some (d.value.data, d.after.text) := by
    rw [show skip d.text = d.value.text ++ d.after.text by
      rw [Document.text, append_assoc, skip_blank d.before (unblank_value d.value _)]]
    exact readValue_text d.value _ _ hcost hafter
  rw [hread]
  simp only [Option.bind_eq_bind, Option.bind_some, hskip, if_true]
  rfl

end Values

section Writing

open JsonText (quote decimal join escapeChar hexDigit)

mutual

/-- There are no blanks. -/
def Value.Compact : Value → Prop
  | .scalar _ | .string _ => True
  | .emptyArray blank | .emptyObject blank => blank.text = []
  | .array items => items.Compact
  | .object members => members.Compact

def Items.Compact : Items → Prop
  | .last before value after => before.text = [] ∧ value.Compact ∧ after.text = []
  | .more before value after items =>
    before.text = [] ∧ value.Compact ∧ after.text = [] ∧ items.Compact

def Members.Compact : Members → Prop
  | .last key before value after =>
    (key.before.text = [] ∧ key.after.text = []) ∧ before.text = [] ∧ value.Compact ∧
      after.text = []
  | .more key before value after members =>
    (key.before.text = [] ∧ key.after.text = []) ∧ before.text = [] ∧ value.Compact ∧
      after.text = [] ∧ members.Compact

end

def Blank.none : Blank :=
  { text := [], isBlank := rfl }

/-- A value on its own. -/
def Value.document (v : Value) : Document :=
  { before := .none, value := v, after := .none }

@[simp]
theorem document_text (v : Value) : v.document.text = v.text := by
  simp [Document.text, Value.document, Blank.none]

theorem hexValue_hexDigit : ∀ n < 16, hexValue (hexDigit n) = some n := by
  decide

variable {n : Nat} {values : List Value} {members : List (List Part × Value)}

theorem fourHex_hexDigit (h : n < 32) :
    fourHex '0' '0' (hexDigit (n / 16)) (hexDigit (n % 16)) = some n := by
  have hzero : hexValue '0' = some 0 := by decide
  rw [fourHex, hzero, hexValue_hexDigit _ (by omega), hexValue_hexDigit _ (by omega)]
  simp only [Option.bind_eq_bind, Option.bind_some, Option.some.injEq]
  omega

/-- A character of a string, escaped where it has to be. -/
def partOf (c : Char) : Part :=
  if c = '"' then .escape '"' (by decide)
  else if c = '\\' then .escape '\\' (by decide)
  else if c = '\n' then .escape 'n' (by decide)
  else if c = '\r' then .escape 'r' (by decide)
  else if c = '\t' then .escape 't' (by decide)
  else if c = Char.ofNat 12 then .escape 'f' (by decide)
  else if c = Char.ofNat 8 then .escape 'b' (by decide)
  else if h : c.toNat < 32 then
    .unicode '0' '0' (hexDigit (c.toNat / 16)) (hexDigit (c.toNat % 16))
      (by rw [fourHex_hexDigit h]; rfl)
  else if hplain : isPlain c = true then .plain c hplain
  else .escape '"' (by decide)

/-- What is written for a character stands for the character. -/
theorem partOf_spec (c : Char) : (partOf c).text = escapeChar c ∧ (partOf c).unit = c.toNat := by
  rw [partOf, escapeChar]
  by_cases hquote : c = '"'
  · rw [if_pos hquote, if_pos hquote, hquote]
    exact ⟨rfl, rfl⟩
  by_cases hslash : c = '\\'
  · rw [if_neg hquote, if_neg hquote, if_pos hslash, if_pos hslash, hslash]
    exact ⟨rfl, rfl⟩
  rw [if_neg hquote, if_neg hquote, if_neg hslash, if_neg hslash]
  by_cases hfeed : c = '\n'
  · rw [if_pos hfeed, if_pos hfeed, hfeed]
    exact ⟨rfl, rfl⟩
  by_cases hreturn : c = '\r'
  · rw [if_neg hfeed, if_neg hfeed, if_pos hreturn, if_pos hreturn, hreturn]
    exact ⟨rfl, rfl⟩
  rw [if_neg hfeed, if_neg hfeed, if_neg hreturn, if_neg hreturn]
  by_cases htab : c = '\t'
  · rw [if_pos htab, if_pos htab, htab]
    exact ⟨rfl, rfl⟩
  by_cases hform : c = Char.ofNat 12
  · rw [if_neg htab, if_neg htab, if_pos hform, if_pos hform, hform]
    exact ⟨rfl, rfl⟩
  rw [if_neg htab, if_neg htab, if_neg hform, if_neg hform]
  by_cases hback : c = Char.ofNat 8
  · rw [if_pos hback, if_pos hback, hback]
    exact ⟨rfl, rfl⟩
  rw [if_neg hback, if_neg hback]
  by_cases hcontrol : c.toNat < 32
  · rw [dif_pos hcontrol, if_pos hcontrol]
    refine ⟨rfl, ?_⟩
    simp [Part.unit, fourHex_hexDigit hcontrol]
  · have hplain : isPlain c = true := by
      simp only [isPlain, Bool.and_eq_true, decide_eq_true_eq, ne_eq]
      exact ⟨⟨Nat.le_of_not_lt hcontrol, hquote⟩, hslash⟩
    rw [dif_neg hcontrol, dif_pos hplain, if_neg hcontrol]
    exact ⟨rfl, rfl⟩

/-- The parts of a string of characters. -/
def partsOf (s : List Char) : List Part :=
  s.map partOf

theorem stringText_partsOf (s : List Char) : '"' :: stringText (partsOf s) = quote s := by
  rw [stringText, quote, partsOf, flatMap_map]
  rw [flatMap_congr (fun c _ => (partOf_spec c).1)]

theorem isHigh_char (c : Char) : isHigh c.toNat = false := by
  have hc := JsonText.not_surrogate c
  rw [isHigh, Bool.and_eq_false_iff, decide_eq_false_iff_not, decide_eq_false_iff_not]
  omega

/-- Characters are no surrogates. -/
theorem combine_chars (s : List Char) : combine (s.map Char.toNat) = s.map Char.toNat := by
  induction s with
  | nil => rfl
  | cons c s ih =>
    cases s with
    | nil => rfl
    | cons d s =>
      rw [map_cons, map_cons, combine, isHigh_char, Bool.false_and,
        if_neg Bool.false_ne_true, ← map_cons, ih]

theorem points_partsOf (s : List Char) : points (partsOf s) = s.map Char.toNat := by
  have hunits : (partsOf s).map Part.unit = s.map Char.toNat := by
    rw [partsOf, map_map]
    exact map_congr_left (fun c _ => (partOf_spec c).2)
  rw [points, hunits, combine_chars]

theorem head_toDigits (h : n ≠ 0) : (Nat.toDigits 10 n).head? ≠ some '0' := by
  have hsmall : ∀ d < 10, d ≠ 0 → [Nat.digitChar d].head? ≠ some '0' := by
    decide
  induction n using Nat.strongRecOn with
  | ind n ih =>
    by_cases hlt : n < 10
    · rw [Nat.toDigits_of_lt_base hlt]
      exact hsmall n hlt h
    · rw [Nat.toDigits_of_base_le (by omega) (by omega),
        List.head?_append_of_ne_nil _ Nat.toDigits_ne_nil]
      exact ih (n / 10) (by omega) (by omega)

/-- The digits of a number have no superfluous zero. -/
theorem isNatural_toDigits (n : Nat) : isNatural (Nat.toDigits 10 n) = true := by
  have hdigits : ∀ c ∈ Nat.toDigits 10 n, c.isDigit = true := fun c hc =>
    Nat.isDigit_of_mem_toDigits (by omega) (by omega) hc
  have hzero : (Nat.toDigits 10 n).length = 1 ∨ (Nat.toDigits 10 n).head? ≠ some '0' := by
    by_cases h : n = 0
    · rw [h]
      exact .inl (by decide)
    · exact .inr (head_toDigits h)
  simp only [isNatural, Bool.and_eq_true, Bool.or_eq_true, decide_eq_true_eq, all_eq_true]
  exact ⟨⟨Nat.toDigits_ne_nil, hdigits⟩, hzero⟩

theorem unsigned_toDigits (text : List Char) (n : Nat) (sign : Int) :
    unsigned text (Nat.toDigits 10 n) sign = some (.int (sign * n)) := by
  have hdigits : ∀ c ∈ Nat.toDigits 10 n, c.isDigit = true := fun c hc =>
    Nat.isDigit_of_mem_toDigits (by omega) (by omega) hc
  have hdrop : (Nat.toDigits 10 n).dropWhile Char.isDigit = [] :=
    dropWhile_eq_nil_iff.mpr hdigits
  have htake : (Nat.toDigits 10 n).takeWhile Char.isDigit = Nat.toDigits 10 n :=
    takeWhile_eq_self_iff.mpr hdigits
  rw [unsigned, htake, hdrop, if_pos (isNatural_toDigits n), if_pos rfl,
    Nat.ofDigitChars_ten_toDigits]

/-- An integer is read as it was written. -/
theorem scalar_decimal (i : Int) : scalar (decimal i) = some (.int i) := by
  have hnumeral : numeral (decimal i) = some (.int i) := by
    cases i with
    | ofNat n =>
      rw [decimal]
      rcases JsonText.digits_head n [] with ⟨c, t, ht, hc⟩
      rw [append_nil] at ht
      have hminus : c ≠ '-' := by
        intro heq
        rw [heq] at hc
        exact absurd hc (by decide)
      have hunsigned := unsigned_toDigits (Nat.toDigits 10 n) n 1
      rw [ht] at hunsigned ⊢
      rw [numeral, if_neg hminus, hunsigned, Int.one_mul]
      rfl
    | negSucc n =>
      rw [decimal, numeral, if_pos rfl, unsigned_toDigits, Int.neg_mul, Int.one_mul]
      rfl
  have hword : ∀ w : List Char, numeral w = none → decimal i ≠ w := by
    intro w hw heq
    rw [heq, hw] at hnumeral
    cases hnumeral
  rw [scalar, if_neg (hword _ (by decide)), if_neg (hword _ (by decide)),
    if_neg (hword _ (by decide)), hnumeral]

/-- An integer in decimal notation. -/
def numberOf (i : Int) : Scalar :=
  { text := decimal i, data := .int i, reads := scalar_decimal i }

/-- The items of an array without blanks. -/
def itemsOf (v : Value) : List Value → Items
  | [] => .last .none v .none
  | w :: values => .more .none v .none (itemsOf w values)

def arrayOf : List Value → Value
  | [] => .emptyArray .none
  | v :: values => .array (itemsOf v values)

def keyOf (parts : List Part) : Key :=
  { before := .none, parts := parts, after := .none }

/-- The members of an object without blanks. -/
def membersOf (m : List Part × Value) : List (List Part × Value) → Members
  | [] => .last (keyOf m.1) .none m.2 .none
  | n :: members => .more (keyOf m.1) .none m.2 .none (membersOf n members)

def objectOf : List (List Part × Value) → Value
  | [] => .emptyObject .none
  | m :: members => .object (membersOf m members)

/-- The text of a member without blanks. -/
def memberText (m : List Part × Value) : List Char :=
  '"' :: (stringText m.1 ++ ':' :: m.2.text)

theorem itemsOf_text (v : Value) (values : List Value) :
    (itemsOf v values).text = join ((v :: values).map Value.text) := by
  induction values generalizing v with
  | nil => simp only [itemsOf, Items.text, Blank.none, nil_append, append_nil,
      map_cons, map_nil, join]
  | cons w values ih =>
    simp [itemsOf, Items.text, Blank.none, ih, join]

theorem arrayOf_text (values : List Value) :
    (arrayOf values).text = '[' :: (join (values.map Value.text) ++ [']']) := by
  cases values with
  | nil => rfl
  | cons v values => rw [arrayOf, Value.text, itemsOf_text]; rfl

theorem itemsOf_data (v : Value) (values : List Value) :
    (itemsOf v values).data = (v :: values).map Value.data := by
  induction values generalizing v with
  | nil => rfl
  | cons w values ih => rw [itemsOf, Items.data, ih w]; rfl

theorem arrayOf_data (values : List Value) :
    (arrayOf values).data = .array (values.map Value.data) := by
  cases values with
  | nil => rfl
  | cons v values => rw [arrayOf, Value.data, itemsOf_data]

theorem itemsOf_compact {v : Value} (hv : v.Compact) (h : ∀ w ∈ values, w.Compact) :
    (itemsOf v values).Compact := by
  induction values generalizing v with
  | nil => exact ⟨rfl, hv, rfl⟩
  | cons w values ih =>
    refine ⟨rfl, hv, rfl, ih (h w mem_cons_self) (fun u hu => ?_)⟩
    exact h u (mem_cons_of_mem w hu)

theorem arrayOf_compact (h : ∀ v ∈ values, v.Compact) : (arrayOf values).Compact := by
  cases values with
  | nil => rfl
  | cons v values =>
    exact itemsOf_compact (h v mem_cons_self) (fun w hw => h w (mem_cons_of_mem v hw))

theorem keyOf_text (parts : List Part) :
    (keyOf parts).text = '"' :: (stringText parts ++ [':']) := by
  simp [Key.text, keyOf, Blank.none]

theorem membersOf_text (m : List Part × Value) (members : List (List Part × Value)) :
    (membersOf m members).text = join ((m :: members).map memberText) := by
  induction members generalizing m with
  | nil => simp only [membersOf, Members.text, keyOf_text, Blank.none, append_nil,
      map_cons, map_nil, join, memberText, cons_append, append_assoc,
      nil_append]
  | cons n members ih =>
    simp [membersOf, Members.text, keyOf_text, Blank.none, ih, join, memberText]

theorem objectOf_text (members : List (List Part × Value)) :
    (objectOf members).text = '\x7b' :: (join (members.map memberText) ++ ['\x7d']) := by
  cases members with
  | nil => rfl
  | cons m members => rw [objectOf, Value.text, membersOf_text]; rfl

theorem membersOf_data (m : List Part × Value) (members : List (List Part × Value)) :
    (membersOf m members).data = (m :: members).map (fun n => (points n.1, n.2.data)) := by
  induction members generalizing m with
  | nil => rfl
  | cons n members ih => rw [membersOf, Members.data, ih n, map_cons]; rfl

theorem objectOf_data (members : List (List Part × Value)) :
    (objectOf members).data = .object (members.map (fun m => (points m.1, m.2.data))) := by
  cases members with
  | nil => rfl
  | cons m members => rw [objectOf, Value.data, membersOf_data]

theorem membersOf_compact {m : List Part × Value} (hm : m.2.Compact)
    (h : ∀ n ∈ members, n.2.Compact) : (membersOf m members).Compact := by
  induction members generalizing m with
  | nil => exact ⟨⟨rfl, rfl⟩, rfl, hm, rfl⟩
  | cons n members ih =>
    refine ⟨⟨rfl, rfl⟩, rfl, hm, rfl, ih (h n mem_cons_self) (fun k hk => ?_)⟩
    exact h k (mem_cons_of_mem n hk)

theorem objectOf_compact (h : ∀ m ∈ members, m.2.Compact) : (objectOf members).Compact := by
  cases members with
  | nil => rfl
  | cons m members =>
    exact membersOf_compact (h m mem_cons_self) (fun n hn => h n (mem_cons_of_mem m hn))

end Writing

end JsonGrammar

end Partha
