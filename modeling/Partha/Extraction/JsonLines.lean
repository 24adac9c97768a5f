import Mathlib.Data.List.Count
import Partha.Extraction.Structured
import Partha.Library.Checked
import Partha.Library.JsonGrammar

/-!
# The Lines of JSON Members

The scanner for JSON against the grammar of JSON.

The scanner has a tokenizer and a parser of its own, which do not ask whether the text is JSON.
On a document of the grammar they follow the syntax tree: a value gives its tokens, and its
tokens give its node, whatever comes after it. The parser calls itself for what is nested, so
the limit on recursion stops it where the decoder goes on.

The members of an object are listed with the text before each of them, so the line of a member is
one more than the line feeds in that text. Where a key is there more than once, the last member
counts, both for the scanner and for a decoder.

A decoder can refuse a document for its size. What it returns for one it does not refuse is what
the document says.

## Main definitions

* `LawfulJson`: What is documented of `json.loads`.
* `Place`: A member of an object in a text.
* `lastOf`, `sectionOf`: The last member with a name, and the members of the object it has.
* `valueTokens`, `nodeOf`: The tokens of a value, and its node.
* `jsonSections`: `json_object_member_lines`.
* `Exact`: The scanner agrees with the decoder.

## Theorems

* `jsonTokens_value`: A value is read as its tokens.
* `reads_value`: The tokens of a value are read as its node.
* `sectionOf_in`: The members of a section stand in the text.
* `json_lines_exact`: The scanner agrees with the decoder below the limit on recursion.
-/

namespace Partha

namespace JsonLines

open Canonical (Str)
open Checked Structured
open JsonGrammar (Json Blank Part Scalar Key Value Items Members Document Stops stringText)
open List

section Dictionaries

variable {κ ν : Type} [BEq κ]

/-- `fields[key] = value`. -/
def assign (key : κ) (value : ν) : List (κ × ν) → List (κ × ν)
  | [] => [(key, value)]
  | (k, v) :: fields => if key == k then (k, value) :: fields else (k, v) :: assign key value fields

/-- `dict(pairs)`. -/
def dictOf (pairs : List (κ × ν)) : List (κ × ν) :=
  pairs.foldl (fun fields p => assign p.1 p.2 fields) []

variable [LawfulBEq κ]

theorem lookup_assign (key name : κ) (value : ν) (fields : List (κ × ν)) :
    (assign key value fields).lookup name =
      if name == key then some value else fields.lookup name := by
  induction fields with
  | nil => rw [assign, lookup_cons, lookup_nil]; cases name == key <;> rfl
  | cons f fields ih =>
    rw [assign]
    by_cases hf : (key == f.1) = true
    · rw [if_pos hf, lookup_cons, lookup_cons, eq_of_beq hf]
      cases name == f.1 <;> rfl
    · rw [if_neg hf, lookup_cons, lookup_cons, ih]
      by_cases hname : (name == f.1) = true
      · have hkey : (name == key) = false := by
          rw [eq_of_beq hname, beq_eq_false_iff_ne]
          intro h
          exact hf (beq_iff_eq.mpr h.symm)
        rw [hname, hkey]
        rfl
      · rw [Bool.not_eq_true] at hname
        rw [hname]

/-- The last value that a key comes with is the one that it gets. -/
theorem lookup_dictOf (pairs : List (κ × ν)) (name : κ) :
    (dictOf pairs).lookup name = pairs.reverse.lookup name := by
  rw [dictOf, ← foldr_reverse]
  induction pairs.reverse with
  | nil => rfl
  | cons p pairs ih =>
    rw [foldr_cons, lookup_assign, lookup_cons, ih]
    cases name == p.1 <;> rfl

omit [LawfulBEq κ] in
/-- A key is looked up among the keys. -/
theorem lookup_map_eq {α : Type} (key : α → κ) (value : α → ν) (l : List α) (name : κ) :
    (l.map (fun a => (key a, value a))).lookup name =
      (l.find? (fun a => name == key a)).map value := by
  induction l with
  | nil => rfl
  | cons a l ih =>
    rw [map_cons, lookup_cons, List.find?_cons, ih]
    cases name == key a <;> rfl

end Dictionaries

section Documents

/-- A string, decoded. -/
def decoded (parts : List Part) : PyStr :=
  (JsonGrammar.points parts).map pyChar

mutual

/-- What `json.loads` makes of a document. -/
def dataOf : Json → Data
  | .null => .null
  | .bool b => .bool b
  | .int i => .int i
  | .real _ => .other
  | .string points => .str (points.map pyChar)
  | .array items => .arr (dataOfItems items)
  | .object members => .obj (dictOf (dataOfMembers members))

def dataOfItems : List Json → List Data
  | [] => []
  | j :: items => dataOf j :: dataOfItems items

def dataOfMembers : List (List Nat × Json) → List (PyStr × Data)
  | [] => []
  | (key, j) :: members => (key.map pyChar, dataOf j) :: dataOfMembers members

end

/-- What is documented of `json.loads`. A document can be refused for its size. -/
structure LawfulJson (d : Decoders) : Prop where
  loads : ∀ (doc : Document) (data : Data),
    d.jsonLoads doc.text = .ok data → data = dataOf doc.data
  string : ∀ parts : List Part, d.jsonString ('"' :: stringText parts) = some (decoded parts)

end Documents

section Places

def feeds (s : Str) : Nat :=
  s.count '\n'

/-- A member of an object in a text. -/
structure Place where
  /-- The text before the key. -/
  before : Str
  parts : List Part
  /-- The text before the value. -/
  beforeValue : Str
  value : Value

/-- The key, decoded. -/
def Place.key (p : Place) : PyStr :=
  decoded p.parts

def Place.line (p : Place) : Nat :=
  1 + feeds p.before

/-- The members of an object after some text. -/
def membersAt (before : Str) : Members → List Place
  | .last key blank value _ =>
    [{ before := before ++ key.before.text, parts := key.parts,
       beforeValue := before ++ key.text ++ blank.text, value := value }]
  | .more key blank value after members =>
    { before := before ++ key.before.text, parts := key.parts,
      beforeValue := before ++ key.text ++ blank.text, value := value } ::
        membersAt (before ++ key.text ++ blank.text ++ value.text ++ after.text ++ [',']) members

/-- The members of a value after some text, if it is an object. -/
def placesAt (before : Str) : Value → Option (List Place)
  | .emptyObject _ => some []
  | .object members => some (membersAt (before ++ ['\x7b']) members)
  | _ => none

/-- The last member with a name. -/
def lastOf (places : List Place) (name : PyStr) : Option Place :=
  places.reverse.find? (fun p => name == p.key)

/-- The members of the object that the last member with a name has. -/
def sectionOf (root : List Place) (name : PyStr) : Option (List Place) :=
  (lastOf root name).bind (fun p => placesAt p.beforeValue p.value)

end Places

section Tokens

@[simp]
theorem feeds_nil : feeds [] = 0 :=
  rfl

@[simp]
theorem feeds_append (s t : Str) : feeds (s ++ t) = feeds s + feeds t :=
  count_append

variable {c : Char}

theorem feeds_cons (h : c ≠ '\n') (s : Str) : feeds (c :: s) = feeds s :=
  count_cons_of_ne h

theorem feeds_eq_zero {s : Str} (h : ∀ c ∈ s, c ≠ '\n') : feeds s = 0 :=
  count_eq_zero.mpr (fun hc => h _ hc rfl)

mutual

/-- The tokens of a value that begins on a line. -/
def valueTokens (line : Nat) : Value → List Token
  | .scalar s => [.other s.text line]
  | .string parts => [.str (decoded parts) line]
  | .emptyArray blank => [.punct '[' line, .punct ']' (line + feeds blank.text)]
  | .array items =>
    .punct '[' line :: (itemsTokens line items ++ [.punct ']' (line + feeds items.text)])
  | .emptyObject blank => [.punct '\x7b' line, .punct '\x7d' (line + feeds blank.text)]
  | .object members =>
    .punct '\x7b' line :: (membersTokens line members ++
      [.punct '\x7d' (line + feeds members.text)])

def itemsTokens (line : Nat) : Items → List Token
  | .last before value _ => valueTokens (line + feeds before.text) value
  | .more before value after items =>
    valueTokens (line + feeds before.text) value ++
      .punct ',' (line + feeds (before.text ++ value.text ++ after.text)) ::
        itemsTokens (line + feeds (before.text ++ value.text ++ after.text)) items

def membersTokens (line : Nat) : Members → List Token
  | .last key before value _ =>
    .str (decoded key.parts) (line + feeds key.before.text) ::
      .punct ':' (line + feeds key.text) ::
        valueTokens (line + feeds (key.text ++ before.text)) value
  | .more key before value after members =>
    .str (decoded key.parts) (line + feeds key.before.text) ::
      .punct ':' (line + feeds key.text) ::
        (valueTokens (line + feeds (key.text ++ before.text)) value ++
          .punct ',' (line + feeds (key.text ++ before.text ++ value.text ++ after.text)) ::
            membersTokens (line + feeds (key.text ++ before.text ++ value.text ++ after.text))
              members)

end

variable {d : Decoders}

theorem jsonTokens_feed (line : Nat) (s : Str) :
    jsonTokens d line ('\n' :: s) = jsonTokens d (line + 1) s := by
  rw [jsonTokens, if_pos rfl]

/-- Blanks give no tokens, and their line feeds count. -/
theorem jsonTokens_blank (b : Blank) (line : Nat) (s : Str) :
    jsonTokens d line (b.text ++ s) = jsonTokens d (line + feeds b.text) s := by
  rcases b with ⟨text, hall⟩
  dsimp only
  induction text generalizing line with
  | nil => rfl
  | cons c t ih =>
    rw [all_cons, Bool.and_eq_true] at hall
    by_cases hc : c = '\n'
    · rw [hc, cons_append, jsonTokens_feed, ih _ hall.2, feeds, feeds,
        count_cons_self]
      rw [Nat.add_right_comm, Nat.add_assoc]
    · have hblank : blanks.elem c = true := by
        have hmem : c ∈ JsonGrammar.blanks := elem_iff.mp hall.1
        have hsplit : JsonGrammar.blanks.all (fun e => e = '\n' || blanks.elem e) = true := by
          decide
        have hor := all_eq_true.mp hsplit c hmem
        rw [decide_eq_false hc, Bool.false_or] at hor
        exact hor
      rw [cons_append, jsonTokens, if_neg hc, if_pos hblank, ih _ hall.2, feeds_cons hc]

/-- A mark is a token. -/
theorem jsonTokens_punct (h : punctuation.elem c = true) (line : Nat) (s : Str) :
    jsonTokens d line (c :: s) = .punct c line :: jsonTokens d line s := by
  have hmarks : punctuation.all (fun e => e ≠ '\n' && !blanks.elem e && e ≠ '"') = true := by
    decide
  have hmark := all_eq_true.mp hmarks c (elem_iff.mp h)
  rw [Bool.and_eq_true, Bool.and_eq_true, decide_eq_true_eq, decide_eq_true_eq,
    Bool.not_eq_true'] at hmark
  rcases hmark with ⟨⟨hfeed, hblank⟩, hquote⟩
  rw [jsonTokens, if_neg hfeed, hblank, if_neg Bool.false_ne_true, if_neg hquote, if_pos h]

/-- The two ways to say where a word ends are the same. -/
theorem isWordChar_eq (c : Char) : isWordChar c = JsonGrammar.isWordChar c := by
  have hsub : ∀ l m : Str, l.all m.elem = true → c ∈ l → c ∈ m := fun l m h hc =>
    elem_iff.mp (all_eq_true.mp h c hc)
  have hends : c ∈ '\n' :: '"' :: (blanks ++ punctuation) ↔
      c ∈ JsonGrammar.blanks ++ JsonGrammar.punctuation :=
    ⟨hsub _ _ (by decide), hsub _ _ (by decide)⟩
  rw [mem_cons, mem_cons, mem_append, mem_append] at hends
  rw [Bool.eq_iff_iff]
  simp only [isWordChar, JsonGrammar.isWordChar, JsonGrammar.isBlank, Bool.and_eq_true,
    Bool.not_eq_true', decide_eq_true_eq, ← Bool.not_eq_true, elem_iff, ne_eq]
  rw [← not_or (p := c ∈ JsonGrammar.blanks), ← hends, not_or, not_or, not_or, and_assoc, and_assoc]

theorem feeds_scalar (s : Scalar) : feeds s.text = 0 := by
  refine feeds_eq_zero (fun c hc hfeed => ?_)
  have hword := (JsonGrammar.scalar_chars s.reads).2 c hc
  rw [hfeed] at hword
  exact absurd hword (by decide)

/-- A word or a number is a token up to where it stops. -/
theorem jsonTokens_scalar (s : Scalar) (line : Nat) {rest : Str} (h : Stops rest) :
    jsonTokens d line (s.text ++ rest) = .other s.text line :: jsonTokens d line rest := by
  rcases JsonGrammar.scalar_chars s.reads with ⟨hne, hword⟩
  have hsame : isWordChar = JsonGrammar.isWordChar := funext isWordChar_eq
  rcases JsonGrammar.takeWhile_word hword h with ⟨htake, hdrop⟩
  rcases exists_cons_of_ne_nil hne with ⟨c, t, ht⟩
  rw [ht] at hword htake hdrop ⊢
  have hc : isWordChar c = true := by
    rw [hsame]
    exact hword c mem_cons_self
  have hno : c ≠ '\n' ∧ c ≠ '"' ∧ blanks.elem c = false ∧ punctuation.elem c = false := by
    simp only [isWordChar, Bool.and_eq_true, decide_eq_true_eq, Bool.not_eq_true'] at hc
    exact ⟨hc.1.1.1, hc.1.1.2, hc.1.2, hc.2⟩
  rw [cons_append, takeWhile_cons_of_pos (hsame ▸ hc)] at htake
  rw [cons_append, dropWhile_cons_of_pos (hsame ▸ hc)] at hdrop
  rw [cons_append, jsonTokens, if_neg hno.1, hno.2.2.1, if_neg Bool.false_ne_true,
    if_neg hno.2.1, hno.2.2.2, if_neg Bool.false_ne_true, hsame, hdrop, htake]

end Tokens

section Strings

variable {c : Char}

theorem literalLength_cons (hquote : c ≠ '"') (hslash : c ≠ '\\') (s : Str) :
    literalLength (c :: s) = literalLength s + 1 := by
  rw [literalLength, if_neg hquote]
  · exact fun h _ => hslash h
  · exact fun _ _ h _ => hslash h

theorem literalFeeds_cons (hquote : c ≠ '"') (hslash : c ≠ '\\') (hfeed : c ≠ '\n') (s : Str) :
    literalFeeds (c :: s) = literalFeeds s := by
  rw [literalFeeds, if_neg hquote, if_neg hfeed]
  · exact fun h _ => hslash h
  · exact fun _ _ h _ => hslash h

/-- A digit of an escape sequence ends nothing. -/
theorem hexValue_plain (h : (JsonGrammar.hexValue c).isSome = true) :
    c ≠ '"' ∧ c ≠ '\\' ∧ c ≠ '\n' := by
  have hno : ∀ e : Char, JsonGrammar.hexValue e = none → c ≠ e := by
    intro e he heq
    rw [heq, he] at h
    exact Bool.false_ne_true h
  exact ⟨hno '"' (by decide), hno '\\' (by decide), hno '\n' (by decide)⟩

theorem fourHex_digits {a b e : Char} (h : (JsonGrammar.fourHex a b c e).isSome = true) :
    ∀ x ∈ [a, b, c, e], (JsonGrammar.hexValue x).isSome = true := by
  rcases Option.isSome_iff_exists.mp h with ⟨n, hn⟩
  simp only [JsonGrammar.fourHex, Option.bind_eq_bind, Option.bind_eq_some_iff] at hn
  rcases hn with ⟨va, ha, vb, hb, vc, hc, ve, he, -⟩
  intro x hx
  simp only [mem_cons, not_mem_nil, or_false] at hx
  rcases hx with rfl | rfl | rfl | rfl
  · rw [ha]; rfl
  · rw [hb]; rfl
  · rw [hc]; rfl
  · rw [he]; rfl

theorem isPlain_ne (h : JsonGrammar.isPlain c = true) : c ≠ '"' ∧ c ≠ '\\' ∧ c ≠ '\n' := by
  have hno : ∀ e : Char, JsonGrammar.isPlain e = false → c ≠ e := by
    intro e he heq
    rw [heq, he] at h
    exact Bool.false_ne_true h
  exact ⟨hno '"' (by decide), hno '\\' (by decide), hno '\n' (by decide)⟩

/-- A part of a string does not end it. -/
theorem literal_part (p : Part) (s : Str) :
    literalLength (p.text ++ s) = literalLength s + p.text.length ∧
      literalFeeds (p.text ++ s) = literalFeeds s ∧ feeds p.text = 0 := by
  cases p with
  | plain c h =>
    rcases isPlain_ne h with ⟨hquote, hslash, hfeed⟩
    exact ⟨literalLength_cons hquote hslash s, literalFeeds_cons hquote hslash hfeed s,
      feeds_cons hfeed []⟩
  | escape c h =>
    have hfeed : c ≠ '\n' := by
      intro heq
      rw [heq] at h
      exact absurd h (by decide)
    refine ⟨?_, ?_, ?_⟩
    · rfl
    · rfl
    · rw [JsonGrammar.Part.text, feeds_cons (by decide), feeds_cons hfeed, feeds_nil]
  | unicode a b c e h =>
    have hplain := fun x hx => hexValue_plain (fourHex_digits h x hx)
    rcases hplain a (by simp) with ⟨ha, ha', ha''⟩
    rcases hplain b (by simp) with ⟨hb, hb', hb''⟩
    rcases hplain c (by simp) with ⟨hc, hc', hc''⟩
    rcases hplain e (by simp) with ⟨he, he', he''⟩
    have hcons : JsonGrammar.Part.text (.unicode a b c e h) ++ s =
        '\\' :: 'u' :: a :: b :: c :: e :: s := rfl
    refine ⟨?_, ?_, ?_⟩
    · rw [hcons, literalLength, literalLength_cons ha ha', literalLength_cons hb hb',
        literalLength_cons hc hc', literalLength_cons he he']
      rfl
    · rw [hcons, literalFeeds, literalFeeds_cons ha ha' ha'', literalFeeds_cons hb hb' hb'',
        literalFeeds_cons hc hc' hc'', literalFeeds_cons he he' he'']
    · rw [JsonGrammar.Part.text, feeds_cons (by decide), feeds_cons (by decide), feeds_cons ha'',
        feeds_cons hb'', feeds_cons hc'', feeds_cons he'', feeds_nil]

/-- A string ends with its last quotation mark, and has no line feeds. -/
theorem literal_text (parts : List Part) (s : Str) :
    literalLength (stringText parts ++ s) = (stringText parts).length ∧
      literalFeeds (stringText parts ++ s) = 0 ∧ feeds (stringText parts) = 0 := by
  induction parts with
  | nil => exact ⟨rfl, rfl, rfl⟩
  | cons p parts ih =>
    have hcons : stringText (p :: parts) = p.text ++ stringText parts := by
      rw [stringText, flatMap_cons, append_assoc]
      rfl
    rcases literal_part p (stringText parts ++ s) with ⟨hlength, hfeeds, hnone⟩
    rw [hcons, append_assoc]
    refine ⟨?_, ?_, ?_⟩
    · rw [hlength, ih.1, length_append, Nat.add_comm]
    · rw [hfeeds, ih.2.1]
    · rw [feeds_append, hnone, ih.2.2]

variable {d : Decoders}

/-- A string is a token. -/
theorem jsonTokens_string (hd : LawfulJson d) (parts : List Part) (line : Nat) (s : Str) :
    jsonTokens d line ('"' :: (stringText parts ++ s)) =
      .str (decoded parts) line :: jsonTokens d line s := by
  rcases literal_text parts s with ⟨hlength, hfeeds, -⟩
  have hvalue : literalValue d (stringText parts ++ s) = decoded parts := by
    rw [literalValue, hlength, take_left, hd.string parts]
    rfl
  rw [jsonTokens, if_neg (by decide), if_neg (by decide), if_pos rfl, hvalue, hfeeds, hlength,
    drop_left]
  rfl

end Strings

section Lexing

variable {d : Decoders}

theorem feeds_stringText (parts : List Part) : feeds (stringText parts) = 0 :=
  (literal_text parts []).2.2

variable {c : Char}

theorem feeds_mark (h : c ≠ '\n') : feeds [c] = 0 := by
  rw [feeds_cons h, feeds_nil]

/-- A key is its string and its colon. -/
theorem jsonTokens_key (hd : LawfulJson d) (key : Key) (line : Nat) (s : Str) :
    jsonTokens d line (key.text ++ s) =
      .str (decoded key.parts) (line + feeds key.before.text) ::
        .punct ':' (line + feeds key.text) :: jsonTokens d (line + feeds key.text) s := by
  have hfeeds : feeds key.text = feeds key.before.text + feeds key.after.text := by
    rw [Key.text, feeds_append, feeds_cons (by decide), feeds_append, feeds_append,
      feeds_stringText, feeds_mark (by decide)]
    omega
  rw [JsonGrammar.key_text, jsonTokens_blank, jsonTokens_string hd, jsonTokens_blank,
    jsonTokens_punct (by decide), hfeeds, Nat.add_assoc]

theorem jsonTokens_mark (b : Blank) (h : punctuation.elem c = true) (line : Nat) (s : Str) :
    jsonTokens d line (b.text ++ (c :: s)) =
      .punct c (line + feeds b.text) :: jsonTokens d (line + feeds b.text) s := by
  rw [jsonTokens_blank, jsonTokens_punct h]

theorem stops_mark (b : Blank) (h : JsonGrammar.isWordChar c = false) (s : Str) :
    Stops (b.text ++ (c :: s)) :=
  JsonGrammar.stops_blank b (JsonGrammar.stops_cons h s)

mutual

/-- A value is read as its tokens. -/
theorem jsonTokens_value (hd : LawfulJson d) (v : Value) (line : Nat) {rest : Str}
    (h : Stops rest) : jsonTokens d line (v.text ++ rest) =
      valueTokens line v ++ jsonTokens d (line + feeds v.text) rest := by
  cases v with
  | scalar s =>
    rw [Value.text, jsonTokens_scalar s line h, feeds_scalar]
    rfl
  | string parts =>
    rw [Value.text, cons_append, jsonTokens_string hd, feeds_cons (by decide),
      feeds_stringText]
    rfl
  | emptyArray blank | emptyObject blank =>
    rw [Value.text, cons_append, cons_append, append_assoc, cons_append,
      nil_append, jsonTokens_punct (by decide), jsonTokens_mark blank (by decide),
      feeds_cons (by decide), feeds_append, feeds_mark (by decide)]
    rfl
  | array items =>
    rw [Value.text, cons_append, cons_append, append_assoc, cons_append,
      nil_append, jsonTokens_punct (by decide),
      jsonTokens_items hd items line rest, feeds_cons (by decide),
      feeds_append, feeds_mark (by decide), valueTokens, cons_append, append_assoc]
    rfl
  | object members =>
    rw [Value.text, cons_append, cons_append, append_assoc, cons_append,
      nil_append, jsonTokens_punct (by decide), jsonTokens_members hd members line rest,
      feeds_cons (by decide), feeds_append, feeds_mark (by decide), valueTokens,
      cons_append, append_assoc]
    rfl

theorem jsonTokens_items (hd : LawfulJson d) (items : Items) (line : Nat) (rest : Str) :
    jsonTokens d line (items.text ++ ']' :: rest) =
      itemsTokens line items ++ .punct ']' (line + feeds items.text) ::
        jsonTokens d (line + feeds items.text) rest := by
  cases items with
  | last before value after =>
    rw [Items.text, append_assoc, append_assoc, jsonTokens_blank,
      jsonTokens_value hd value _ (stops_mark after (by decide) rest),
      jsonTokens_mark after (by decide), feeds_append, feeds_append, itemsTokens]
    simp only [Nat.add_assoc]
  | more before value after items =>
    rw [Items.text, append_assoc, append_assoc, append_assoc, cons_append,
      jsonTokens_blank, jsonTokens_value hd value _ (stops_mark after (by decide) _),
      jsonTokens_mark after (by decide), jsonTokens_items hd items _ rest, itemsTokens]
    simp [feeds_append, feeds_cons (c := ',') (by decide), Nat.add_assoc]

theorem jsonTokens_members (hd : LawfulJson d) (members : Members) (line : Nat) (rest : Str) :
    jsonTokens d line (members.text ++ '\x7d' :: rest) =
      membersTokens line members ++ .punct '\x7d' (line + feeds members.text) ::
        jsonTokens d (line + feeds members.text) rest := by
  cases members with
  | last key before value after =>
    rw [Members.text, append_assoc, append_assoc, append_assoc,
      jsonTokens_key hd, jsonTokens_blank,
      jsonTokens_value hd value _ (stops_mark after (by decide) rest),
      jsonTokens_mark after (by decide), membersTokens]
    simp [feeds_append, Nat.add_assoc]
  | more key before value after members =>
    rw [Members.text, append_assoc, append_assoc, append_assoc,
      append_assoc, cons_append, jsonTokens_key hd, jsonTokens_blank,
      jsonTokens_value hd value _ (stops_mark after (by decide) _),
      jsonTokens_mark after (by decide), jsonTokens_members hd members _ rest, membersTokens]
    simp [feeds_append, feeds_cons (c := ',') (by decide), Nat.add_assoc]

end

end Lexing

section Nodes

/-- The lines of the keys of an object. -/
def keyLines (line : Nat) : Members → List (PyStr × Nat)
  | .last key _ _ _ => [(decoded key.parts, line + feeds key.before.text)]
  | .more key before value after members =>
    (decoded key.parts, line + feeds key.before.text) ::
      keyLines (line + feeds (key.text ++ before.text ++ value.text ++ after.text)) members

mutual

/-- The node of a value that begins on a line. -/
def nodeOf (line : Nat) : Value → JsonNode
  | .scalar _ | .string _ => .scalar
  | .emptyArray _ => .array []
  | .array items => .array (itemNodes line items)
  | .emptyObject _ => .object [] []
  | .object members =>
    .object (memberNodes line members).reverse (keyLines line members).reverse

def itemNodes (line : Nat) : Items → List JsonNode
  | .last before value _ => [nodeOf (line + feeds before.text) value]
  | .more before value after items =>
    nodeOf (line + feeds before.text) value ::
      itemNodes (line + feeds (before.text ++ value.text ++ after.text)) items

def memberNodes (line : Nat) : Members → List (PyStr × JsonNode)
  | .last key before value _ =>
    [(decoded key.parts, nodeOf (line + feeds (key.text ++ before.text)) value)]
  | .more key before value after members =>
    (decoded key.parts, nodeOf (line + feeds (key.text ++ before.text)) value) ::
      memberNodes (line + feeds (key.text ++ before.text ++ value.text ++ after.text)) members

end

/-- Some tokens are read as a node if the frames of the interpreter are enough, and nothing is
    read otherwise. -/
def Reads (enough : Prop) (tokens : List Token) (r : Except ReadError (JsonNode × Rest tokens))
    (node : JsonNode) (rest : List Token) : Prop :=
  (enough → ∃ h, r = .ok (node, ⟨rest, h⟩)) ∧ (¬ enough → r = .error .recursionError)

variable {frames : Nat} {p q : Prop}

variable {tokens rest after next : List Token} {node child : JsonNode} {token : Token}

theorem Reads.congr {r : Except ReadError (JsonNode × Rest tokens)} (h : Reads p tokens r node rest)
    (hpq : p ↔ q) : Reads q tokens r node rest :=
  ⟨fun hq => h.1 (hpq.mpr hq), fun hq => h.2 (fun hp => hq (hpq.mp hp))⟩

theorem reads_object (l : Nat) (h : Reads p tokens (jsonMembers frames [] [] tokens) node rest) :
    Reads p (.punct '\x7b' l :: tokens) (jsonParse (frames + 1) (.punct '\x7b' l :: tokens)) node
      rest := by
  constructor
  · intro hp
    rcases h.1 hp with ⟨hlt, hread⟩
    refine ⟨Nat.lt_succ_of_lt hlt, ?_⟩
    rw [jsonParse, hread]
    rfl
  · intro hp
    rw [jsonParse, h.2 hp]
    rfl

theorem reads_array (l : Nat) (h : Reads p tokens (jsonItems frames [] tokens) node rest) :
    Reads p (.punct '[' l :: tokens) (jsonParse (frames + 1) (.punct '[' l :: tokens))
      node rest := by
  constructor
  · intro hp
    rcases h.1 hp with ⟨hlt, hread⟩
    refine ⟨Nat.lt_succ_of_lt hlt, ?_⟩
    rw [jsonParse, hread]
    rfl
  · intro hp
    rw [jsonParse, h.2 hp]
    rfl

/-- What may follow a child: the comma before the next one, or the end. -/
theorem skipComma_end {c : Char} (h : c ≠ ',') (l : Nat) (tokens : List Token) :
    ∃ hle, skipComma (.punct c l :: tokens) = .ok ⟨.punct c l :: tokens, hle⟩ := by
  refine ⟨Nat.le_refl _, ?_⟩
  rw [skipComma]
  intro _ heq
  exact h (Token.punct.inj heq).1

/-- A member is read up to the next one, and both take frames. -/
theorem reads_member {ms : List (PyStr × JsonNode)} {ls : List (PyStr × Nat)} {k : PyStr}
    {l l' : Nat} (hchild : Reads p tokens (jsonParse frames tokens) child after)
    (hskip : ∃ hle, skipComma after = .ok ⟨next, hle⟩)
    (hnext : Reads q next (jsonMembers frames ((k, child) :: ms) ((k, l) :: ls) next) node rest) :
    Reads (p ∧ q) (.str k l :: .punct ':' l' :: tokens)
      (jsonMembers frames ms ls (.str k l :: .punct ':' l' :: tokens)) node rest := by
  rcases hskip with ⟨hle, hskip⟩
  by_cases hp : p
  · rcases hchild.1 hp with ⟨hlt, hread⟩
    -- The token after the key is dropped without a look at it.
    have hdrop : jsonParse frames ((Token.punct ':' l' :: tokens).drop 1) =
        .ok (child, ⟨after, hlt⟩) := hread
    constructor
    · intro hpq
      rcases hnext.1 hpq.2 with ⟨hlast, hnext⟩
      refine ⟨?_, ?_⟩
      · simp only [length_cons]
        omega
      · rw [jsonMembers]
        · simp only [hdrop, hskip, ok_bind, Token.key, Token.line, hnext]
        · intro _ h
          cases h
    · intro hpq
      have hlast := hnext.2 (fun hq => hpq ⟨hp, hq⟩)
      rw [jsonMembers]
      · simp only [hdrop, hskip, ok_bind, error_bind, Token.key, Token.line, hlast]
      · intro _ h
        cases h
  · refine ⟨fun hpq => absurd hpq.1 hp, fun _ => ?_⟩
    have hdrop : jsonParse frames ((Token.punct ':' l' :: tokens).drop 1) =
        .error .recursionError := hchild.2 hp
    rw [jsonMembers]
    · simp only [hdrop, error_bind]
    · intro _ h
      cases h

theorem reads_item {items : List JsonNode} (hne : ∀ l, token ≠ .punct ']' l)
    (hchild : Reads p (token :: tokens) (jsonParse frames (token :: tokens)) child after)
    (hskip : ∃ hle, skipComma after = .ok ⟨next, hle⟩)
    (hnext : Reads q next (jsonItems frames (child :: items) next) node rest) :
    Reads (p ∧ q) (token :: tokens) (jsonItems frames items (token :: tokens)) node rest := by
  rcases hskip with ⟨hle, hskip⟩
  by_cases hp : p
  · rcases hchild.1 hp with ⟨hlt, hread⟩
    constructor
    · intro hpq
      rcases hnext.1 hpq.2 with ⟨hlast, hnext⟩
      refine ⟨by omega, ?_⟩
      rw [jsonItems]
      · simp only [hread, hskip, ok_bind, hnext]
      · exact hne
    · intro hpq
      have hlast := hnext.2 (fun hq => hpq ⟨hp, hq⟩)
      rw [jsonItems]
      · simp only [hread, hskip, ok_bind, error_bind, hlast]
      · exact hne
  · refine ⟨fun hpq => absurd hpq.1 hp, fun _ => ?_⟩
    rw [jsonItems]
    · rw [hchild.2 hp]
      rfl
    · exact hne

theorem newNode_reads (h : rest.length < tokens.length) (node : JsonNode) :
    Reads (frames ≠ 0) tokens (do
      let node ← newNode frames node
      .ok (node, ⟨rest, h⟩)) node rest := by
  constructor
  · intro hframes
    exact ⟨h, by rw [newNode, if_neg hframes]; rfl⟩
  · intro hframes
    rw [newNode, if_pos (not_not.mp hframes)]
    rfl

theorem reads_members_end (ms : List (PyStr × JsonNode)) (ls : List (PyStr × Nat)) (l : Nat)
    (rest : List Token) : Reads (frames ≠ 0) (.punct '\x7d' l :: rest)
      (jsonMembers frames ms ls (.punct '\x7d' l :: rest)) (.object ms ls) rest := by
  rw [jsonMembers]
  exact newNode_reads _ _

theorem reads_items_end (items : List JsonNode) (l : Nat) (rest : List Token) :
    Reads (frames ≠ 0) (.punct ']' l :: rest) (jsonItems frames items (.punct ']' l :: rest))
      (.array items.reverse) rest := by
  rw [jsonItems]
  exact newNode_reads _ _

theorem reads_scalar (h : ∀ c l, token ≠ .punct c l) (rest : List Token) :
    Reads (frames ≠ 0) (token :: rest) (jsonParse (frames + 1) (token :: rest)) .scalar rest := by
  rw [jsonParse]
  · exact newNode_reads _ _
  · exact h '\x7b'
  · exact h '['

/-- A value begins with a token that ends no array. -/
theorem valueTokens_head (line : Nat) (v : Value) :
    ∃ token tokens, valueTokens line v = token :: tokens ∧ ∀ l, token ≠ .punct ']' l := by
  cases v with
  | scalar s => exact ⟨_, _, rfl, fun l h => by cases h⟩
  | string parts => exact ⟨_, _, rfl, fun l h => by cases h⟩
  | emptyArray blank => exact ⟨_, _, rfl, fun l h => absurd (Token.punct.inj h).1 (by decide)⟩
  | array items => exact ⟨_, _, rfl, fun l h => absurd (Token.punct.inj h).1 (by decide)⟩
  | emptyObject blank => exact ⟨_, _, rfl, fun l h => absurd (Token.punct.inj h).1 (by decide)⟩
  | object members => exact ⟨_, _, rfl, fun l h => absurd (Token.punct.inj h).1 (by decide)⟩

theorem reverse_cons_append {α : Type} (a : α) (l m : List α) :
    (a :: l).reverse ++ m = l.reverse ++ a :: m := by
  rw [reverse_cons, append_assoc, cons_append, nil_append]

mutual

/-- The tokens of a value are read as its node, if its nesting is below the limit. -/
theorem reads_value (v : Value) (frames line : Nat) (rest : List Token) :
    Reads (v.nesting + 2 ≤ frames) (valueTokens line v ++ rest)
      (jsonParse frames (valueTokens line v ++ rest)) (nodeOf line v) rest := by
  cases frames with
  | zero =>
    refine ⟨fun h => by omega, fun _ => ?_⟩
    rw [jsonParse]
  | succ frames =>
    have hleaf : frames ≠ 0 ↔ 0 + 2 ≤ frames + 1 := by omega
    cases v with
    | scalar s => exact (reads_scalar (fun c l h => by cases h) rest).congr hleaf
    | string parts => exact (reads_scalar (fun c l h => by cases h) rest).congr hleaf
    | emptyArray blank => exact (reads_array line (reads_items_end [] _ rest)).congr hleaf
    | array items =>
      rw [valueTokens, cons_append, append_assoc, nodeOf]
      have hitems := reads_items items frames [] line (line + feeds items.text) rest
      rw [reverse_nil, nil_append] at hitems
      refine (reads_array line hitems).congr ?_
      rw [Value.nesting]
      omega
    | emptyObject blank =>
      exact (reads_object line (reads_members_end [] [] _ rest)).congr hleaf
    | object members =>
      rw [valueTokens, cons_append, append_assoc, nodeOf]
      have hmembers := reads_members members frames [] [] line (line + feeds members.text) rest
      rw [append_nil, append_nil] at hmembers
      refine (reads_object line hmembers).congr ?_
      rw [Value.nesting]
      omega

theorem reads_items (items : Items) (frames : Nat) (nodes : List JsonNode) (line l : Nat)
    (rest : List Token) : Reads (items.nesting + 2 ≤ frames)
      (itemsTokens line items ++ ([.punct ']' l] ++ rest))
      (jsonItems frames nodes (itemsTokens line items ++ ([.punct ']' l] ++ rest)))
      (.array (nodes.reverse ++ itemNodes line items)) rest := by
  cases items with
  | last before value after =>
    rcases valueTokens_head (line + feeds before.text) value with ⟨token, tokens, ht, hne⟩
    have hchild := reads_value value frames (line + feeds before.text) (.punct ']' l :: rest)
    have hend : Reads (frames ≠ 0) _ (jsonItems frames _ _) _ _ :=
      reads_items_end (nodeOf (line + feeds before.text) value :: nodes) l rest
    rw [reverse_cons] at hend
    rw [itemsTokens, itemNodes]
    rw [ht] at hchild ⊢
    refine (reads_item hne hchild (skipComma_end (by decide) l rest) hend).congr ?_
    rw [Items.nesting]
    omega
  | more before value after items =>
    rcases valueTokens_head (line + feeds before.text) value with ⟨token, tokens, ht, hne⟩
    have hnext := reads_items items frames (nodeOf (line + feeds before.text) value :: nodes)
      (line + feeds (before.text ++ value.text ++ after.text)) l rest
    rw [reverse_cons_append] at hnext
    rw [itemsTokens, itemNodes, append_assoc]
    have hchild := reads_value value frames (line + feeds before.text)
      (.punct ',' (line + feeds (before.text ++ value.text ++ after.text)) ::
        (itemsTokens (line + feeds (before.text ++ value.text ++ after.text)) items ++
          ([.punct ']' l] ++ rest)))
    rw [ht] at hchild ⊢
    refine (reads_item hne hchild ⟨Nat.le_succ _, rfl⟩ hnext).congr ?_
    rw [Items.nesting]
    omega

theorem reads_members (members : Members) (frames : Nat) (ms : List (PyStr × JsonNode))
    (ls : List (PyStr × Nat)) (line l : Nat) (rest : List Token) :
    Reads (members.nesting + 2 ≤ frames)
      (membersTokens line members ++ ([.punct '\x7d' l] ++ rest))
      (jsonMembers frames ms ls (membersTokens line members ++ ([.punct '\x7d' l] ++ rest)))
      (.object ((memberNodes line members).reverse ++ ms) ((keyLines line members).reverse ++ ls))
      rest := by
  cases members with
  | last key before value after =>
    have hchild := reads_value value frames (line + feeds (key.text ++ before.text))
      (.punct '\x7d' l :: rest)
    refine (reads_member hchild (skipComma_end (by decide) l rest)
      (reads_members_end _ _ l rest)).congr ?_
    rw [Members.nesting]
    omega
  | more key before value after members =>
    have hnext := reads_members members frames
      ((decoded key.parts, nodeOf (line + feeds (key.text ++ before.text)) value) :: ms)
      ((decoded key.parts, line + feeds key.before.text) :: ls)
      (line + feeds (key.text ++ before.text ++ value.text ++ after.text)) l rest
    rw [membersTokens, memberNodes, keyLines, reverse_cons_append, reverse_cons_append,
      cons_append, cons_append, append_assoc]
    refine (reads_member (reads_value value frames _ _) ⟨Nat.le_succ _, rfl⟩ hnext).congr ?_
    rw [Members.nesting]
    omega

end

end Nodes

section Members

/-- The node of a member. -/
def Place.node (p : Place) : JsonNode :=
  nodeOf (1 + feeds p.beforeValue) p.value

theorem memberNodes_places (members : Members) (before : Str) (line : Nat)
    (h : line = 1 + feeds before) : memberNodes line members =
      (membersAt before members).map (fun p => (p.key, p.node)) := by
  cases members with
  | last key blank value after =>
    rw [h, memberNodes, membersAt, Nat.add_assoc, ← feeds_append, ← append_assoc]
    rfl
  | more key blank value after members =>
    have hnext := memberNodes_places members
      (before ++ key.text ++ blank.text ++ value.text ++ after.text ++ [','])
      (line + feeds (key.text ++ blank.text ++ value.text ++ after.text)) (by
        rw [h, feeds_append _ [','], feeds_mark (by decide), Nat.add_zero, Nat.add_assoc,
          ← feeds_append]
        simp only [append_assoc])
    rw [memberNodes, membersAt, hnext, h, Nat.add_assoc, ← feeds_append, ← append_assoc]
    rfl

theorem keyLines_places (members : Members) (before : Str) (line : Nat)
    (h : line = 1 + feeds before) : keyLines line members =
      (membersAt before members).map (fun p => (p.key, p.line)) := by
  cases members with
  | last key blank value after =>
    rw [h, keyLines, membersAt, Nat.add_assoc, ← feeds_append]
    rfl
  | more key blank value after members =>
    have hnext := keyLines_places members
      (before ++ key.text ++ blank.text ++ value.text ++ after.text ++ [','])
      (line + feeds (key.text ++ blank.text ++ value.text ++ after.text)) (by
        rw [h, feeds_append _ [','], feeds_mark (by decide), Nat.add_zero, Nat.add_assoc,
          ← feeds_append]
        simp only [append_assoc])
    rw [keyLines, membersAt, hnext, h, Nat.add_assoc, ← feeds_append]
    rfl

theorem dataOf_places (members : Members) (before : Str) : dataOfMembers members.data =
    (membersAt before members).map (fun p => (p.key, dataOf p.value.data)) := by
  cases members with
  | last key blank value after => rfl
  | more key blank value after members =>
    rw [JsonGrammar.Members.data, dataOfMembers, membersAt, dataOf_places members]
    rfl

variable {before : Str} {v : Value} {j : Json} {ν : Type}

/-- The node and the data of an object are made of its members. -/
theorem object_places {places : List Place} (h : placesAt before v = some places) :
    nodeOf (1 + feeds before) v = .object (places.map (fun p => (p.key, p.node))).reverse
        (places.map (fun p => (p.key, p.line))).reverse ∧
      dataOf v.data = .obj (dictOf (places.map (fun p => (p.key, dataOf p.value.data)))) := by
  cases v with
  | scalar s => cases h
  | string parts => cases h
  | emptyArray blank => cases h
  | array items => cases h
  | emptyObject blank =>
    cases h
    exact ⟨rfl, rfl⟩
  | object members =>
    have hbefore : 1 + feeds before = 1 + feeds (before ++ ['\x7b']) := by
      rw [feeds_append, feeds_mark (by decide), Nat.add_zero]
    cases h
    refine ⟨?_, ?_⟩
    · rw [nodeOf, memberNodes_places members _ _ hbefore, keyLines_places members _ _ hbefore]
    · rw [JsonGrammar.Value.data, dataOf, dataOf_places members]

theorem scalar_no_object {s : Str} (h : JsonGrammar.scalar s = some j)
    (members : List (List Nat × Json)) : j ≠ .object members := by
  have hunsigned : ∀ (text t : Str) (sign : Int), JsonGrammar.unsigned text t sign = some j →
      j ≠ .object members := by
    intro text t sign hj heq
    rw [heq, JsonGrammar.unsigned] at hj
    split at hj
    · split at hj
      · cases hj
      · split at hj
        · cases hj
        · cases hj
    · cases hj
  rw [JsonGrammar.scalar] at h
  split at h
  · exact fun heq => by rw [heq] at h; cases h
  · split at h
    · exact fun heq => by rw [heq] at h; cases h
    · split at h
      · exact fun heq => by rw [heq] at h; cases h
      · cases s with
        | nil => cases h
        | cons c t =>
          rw [JsonGrammar.numeral] at h
          split at h
          · exact hunsigned _ _ _ h
          · exact hunsigned _ _ _ h

theorem dataOf_eq_obj {fields : List (PyStr × Data)} (h : dataOf j = .obj fields) :
    ∃ members, j = .object members := by
  cases j with
  | object members => exact ⟨members, rfl⟩
  | null => cases h
  | bool b => cases h
  | int i => cases h
  | real text => cases h
  | string points => cases h
  | array items => cases h

theorem node_no_object (h : placesAt before v = none) (line : Nat) (ms : List (PyStr × JsonNode))
    (ls : List (PyStr × Nat)) : nodeOf line v ≠ .object ms ls := by
  intro hnode
  cases v with
  | scalar s => cases hnode
  | string parts => cases hnode
  | emptyArray blank => cases hnode
  | array items => cases hnode
  | emptyObject blank => cases h
  | object members => cases h

theorem data_no_object (h : placesAt before v = none) (fields : List (PyStr × Data)) :
    dataOf v.data ≠ .obj fields := by
  intro hdata
  rcases dataOf_eq_obj hdata with ⟨members, hmembers⟩
  cases v with
  | scalar s => exact scalar_no_object s.reads members hmembers
  | string parts => cases hmembers
  | emptyArray blank => cases hmembers
  | array items => cases hmembers
  | emptyObject blank => cases h
  | object members => cases h

/-- The member that a name is looked up to. -/
theorem lookup_places (value : Place → ν) (places : List Place) (name : PyStr) :
    (places.map (fun p => (p.key, value p))).reverse.lookup name =
      (lastOf places name).map value := by
  rw [← map_reverse, lookup_map_eq Place.key, lastOf]

theorem lookup_dictOf_places (value : Place → ν) (places : List Place) (name : PyStr) :
    (dictOf (places.map (fun p => (p.key, value p)))).lookup name =
      (lastOf places name).map value := by
  rw [lookup_dictOf, lookup_places]

end Members

section Sections

/-- The lines of the members of a member of the root, if it is an object. -/
def sections (root : JsonNode) (name : PyStr) : Option (List (PyStr × Nat)) :=
  match root with
  | .object members _ =>
    match members.lookup name with
    | some (.object _ keyLines) => some keyLines
    | _ => none
  | _ => none

/-- `json_object_member_lines`. -/
def jsonSections (d : Decoders) (text : Str) :
    Except ReadError (PyStr → Option (List (PyStr × Nat))) := do
  let (root, _) ← jsonParse d.frames (jsonTokens d 1 text)
  .ok (sections root)

/-- The object that a field is. -/
def objectAt (fields : List (PyStr × Data)) (name : PyStr) : Option (List (PyStr × Data)) :=
  match fields.lookup name with
  | some (.obj members) => some members
  | _ => none

/-- The lines of a section are those of the last occurrences of its keys. -/
theorem sections_places (root : List Place) (name : PyStr) (ls : List (PyStr × Nat)) :
    (sections (.object (root.map (fun p => (p.key, p.node))).reverse ls) name).map
        (fun keys key => keys.lookup key) =
      (sectionOf root name).map (fun members key => (lastOf members key).map Place.line) := by
  rw [sections, sectionOf, lookup_places]
  cases lastOf root name with
  | none => rfl
  | some p =>
    rw [Option.map_some, Option.bind_some, Place.node]
    cases hplaces : placesAt p.beforeValue p.value with
    | none =>
      have hno := node_no_object hplaces (1 + feeds p.beforeValue)
      cases hnode : nodeOf (1 + feeds p.beforeValue) p.value with
      | object ms ls => exact absurd hnode (hno ms ls)
      | array items => rfl
      | scalar => rfl
    | some members =>
      rw [(object_places hplaces).1]
      exact congrArg some (funext (lookup_places Place.line members))

/-- The objects among the members of a decoded object have the same keys. -/
theorem objectAt_places (root : List Place) (name : PyStr) :
    (objectAt (dictOf (root.map (fun p => (p.key, dataOf p.value.data)))) name).map
        (fun members key => (members.lookup key).isSome) =
      (sectionOf root name).map (fun members key => (lastOf members key).isSome) := by
  rw [objectAt, sectionOf, lookup_dictOf_places]
  cases lastOf root name with
  | none => rfl
  | some p =>
    rw [Option.map_some, Option.bind_some]
    cases hplaces : placesAt p.beforeValue p.value with
    | none =>
      have hno := data_no_object hplaces
      cases hdata : dataOf p.value.data with
      | obj fields => exact absurd hdata (hno fields)
      | null => rfl
      | bool b => rfl
      | int i => rfl
      | other => rfl
      | str s => rfl
      | arr items => rfl
    | some members =>
      rw [(object_places hplaces).2]
      refine congrArg some (funext (fun key => ?_))
      dsimp only
      rw [lookup_dictOf_places, Option.isSome_map]

/-- A document is parsed to the node of its value, if its nesting is below the limit. -/
theorem jsonParse_document {d : Decoders} (hd : LawfulJson d) (doc : Document) :
    Reads (doc.value.nesting + 2 ≤ d.frames) (jsonTokens d 1 doc.text)
      (jsonParse d.frames (jsonTokens d 1 doc.text)) (nodeOf (1 + feeds doc.before.text) doc.value)
      [] := by
  have hstops : Stops doc.after.text := by
    have h := JsonGrammar.stops_blank doc.after JsonGrammar.stops_nil
    rwa [append_nil] at h
  have hafter : ∀ line, jsonTokens d line doc.after.text = [] := by
    intro line
    have h := jsonTokens_blank (d := d) doc.after line []
    rw [append_nil] at h
    rw [h, jsonTokens]
  rw [Document.text, append_assoc, jsonTokens_blank,
    jsonTokens_value hd doc.value _ hstops, hafter]
  exact reads_value doc.value d.frames (1 + feeds doc.before.text) []

end Sections

section Texts

/-- A member stands where its key is in a text. -/
def Place.In (text : Str) (p : Place) : Prop :=
  (∃ rest, text = p.before ++ '"' :: (stringText p.parts ++ rest)) ∧
    ∃ rest, text = p.beforeValue ++ (p.value.text ++ rest)

theorem membersAt_in (members : Members) (before rest : Str) :
    ∀ p ∈ membersAt before members, p.In (before ++ (members.text ++ rest)) := by
  cases members with
  | last key blank value after =>
    intro p hp
    rw [membersAt, mem_singleton] at hp
    rw [hp]
    refine ⟨⟨key.after.text ++ ':' :: (blank.text ++ value.text ++ after.text ++ rest), ?_⟩,
      ⟨after.text ++ rest, ?_⟩⟩
    · simp [Members.text, Key.text]
    · simp [Members.text]
  | more key blank value after members =>
    intro p hp
    rw [membersAt] at hp
    rcases mem_cons.mp hp with hp | hp
    · rw [hp]
      refine ⟨⟨key.after.text ++ ':' :: (blank.text ++ value.text ++ after.text ++
        ',' :: members.text ++ rest), ?_⟩, ⟨after.text ++ ',' :: members.text ++ rest, ?_⟩⟩
      · simp [Members.text, Key.text]
      · simp [Members.text]
    · have hin := membersAt_in members _ rest p hp
      simp only [append_assoc, cons_append, nil_append] at hin
      simp only [Members.text, append_assoc, cons_append]
      exact hin

theorem placesAt_in {before : Str} {v : Value} {places : List Place}
    (h : placesAt before v = some places) (rest : Str) :
    ∀ p ∈ places, p.In (before ++ (v.text ++ rest)) := by
  intro p hp
  cases v with
  | scalar s => cases h
  | string parts => cases h
  | emptyArray blank => cases h
  | array items => cases h
  | emptyObject blank =>
    rw [← Option.some.inj h] at hp
    cases hp
  | object members =>
    rw [← Option.some.inj h] at hp
    have hin := membersAt_in members _ ('\x7d' :: rest) p hp
    simp only [append_assoc, cons_append, nil_append] at hin
    simp only [Value.text, append_assoc, cons_append, nil_append]
    exact hin

/-- The members of a section stand in the text. -/
theorem sectionOf_in {doc : Document} {root members : List Place} {name : PyStr}
    (hroot : placesAt doc.before.text doc.value = some root)
    (h : sectionOf root name = some members) : ∀ p ∈ members, p.In doc.text := by
  rcases Option.bind_eq_some_iff.mp h with ⟨q, hq, hplaces⟩
  have hmem : q ∈ root := mem_reverse.mp (mem_of_find?_eq_some hq)
  rcases (placesAt_in hroot doc.after.text q hmem).2 with ⟨rest, hrest⟩
  intro p hp
  have hin := placesAt_in hplaces rest p hp
  rw [← hrest, ← append_assoc] at hin
  exact hin

end Texts

section Exactness

/-- The scanner finds the sections that a decoder finds, with their keys, and every key has the
    line of its last occurrence in the last occurrence of its section. -/
def Exact (d : Decoders) (doc : Document) (root : List Place) : Prop :=
  ∃ lines, jsonSections d doc.text = .ok lines ∧
    (∀ name, (lines name).map (fun keys key => keys.lookup key) =
      (sectionOf root name).map (fun members key => (lastOf members key).map Place.line)) ∧
    (∀ name members, sectionOf root name = some members → ∀ p ∈ members, p.In doc.text) ∧
    ∀ data, d.jsonLoads doc.text = .ok data → ∃ fields, data = .obj fields ∧
      ∀ name, (lines name).map (fun keys key => (keys.lookup key).isSome) =
        (objectAt fields name).map (fun members key => (members.lookup key).isSome)

variable {d : Decoders} {doc : Document}

theorem not_exact {root : List Place} {e : ReadError} (h : jsonSections d doc.text = .error e) :
    ¬ Exact d doc root := by
  rintro ⟨lines, hlines, -⟩
  rw [h] at hlines
  cases hlines

/-- A document that is nested too deep is not scanned. -/
theorem jsonSections_deep (hd : LawfulJson d) (h : ¬ doc.value.nesting + 2 ≤ d.frames) :
    jsonSections d doc.text = .error .recursionError := by
  rw [jsonSections, (jsonParse_document hd doc).2 h]
  rfl

/-- The scanner agrees with the decoder on exactly the documents whose nesting is below the limit
    on recursion. A deeper one raises a `RecursionError`, and the tokens never run out. -/
theorem json_lines_exact {d : Decoders} (hd : LawfulJson d) (doc : Document) {root : List Place}
    (hroot : placesAt doc.before.text doc.value = some root) :
    (Exact d doc root ↔ doc.value.nesting + 2 ≤ d.frames) ∧
      (¬ doc.value.nesting + 2 ≤ d.frames →
        jsonSections d doc.text = .error .recursionError) := by
  refine ⟨⟨fun hexact => by_contra fun hdeep => ?_, fun hshallow => ?_⟩, jsonSections_deep hd⟩
  · exact not_exact (jsonSections_deep hd hdeep) hexact
  · rcases (jsonParse_document hd doc).1 hshallow with ⟨hrest, hparse⟩
    rcases object_places hroot with ⟨hnode, hdata⟩
    rw [hnode] at hparse
    have hsections := sections_places root
    refine ⟨_, by rw [jsonSections, hparse]; rfl, fun name => hsections name _,
      fun name members h => sectionOf_in hroot h,
      fun data hload => ⟨_, (hd.loads doc data hload).trans hdata, fun name => ?_⟩⟩
    have hkeys := congrArg (Option.map (fun lines key => (lines key).isSome)) (hsections name
      (root.map (fun p => (p.key, p.line))).reverse)
    simp only [Option.map_map, Function.comp_def, Option.isSome_map] at hkeys
    rw [objectAt_places]
    exact hkeys

/-- A text that is a string, decoded. -/
def grammarString (text : Str) : Option PyStr :=
  match JsonGrammar.parse text with
  | some (.string points) => some (points.map pyChar)
  | _ => none

/-- Decoders that read JSON by its grammar, and a limit of a thousand calls. -/
def grammarDecoders : Decoders where
  jsonLoads text :=
    match JsonGrammar.parse text with
    | some j => .ok (dataOf j)
    | none => .error .malformed
  jsonString text := grammarString text
  tomlLoads _ := .error .malformed
  yamlCompose _ := .error .malformed
  frames := 1000

theorem lawful_grammarDecoders : LawfulJson grammarDecoders where
  loads doc data h := by
    simp only [grammarDecoders, JsonGrammar.parse_text, Except.ok.injEq] at h
    exact h.symm
  string parts := by
    have h := JsonGrammar.parse_text (Value.string parts).document
    rw [JsonGrammar.document_text] at h
    have hstring : grammarString (Value.string parts).text = some (decoded parts) := by
      rw [grammarString, h]
      rfl
    exact hstring

/-- A section with two members of one name, of which the second is on the second line. -/
def repeatedDocument : Document :=
  let key : Key := JsonGrammar.keyOf (JsonGrammar.partsOf "left-pad".toList)
  let one : Value := .scalar (JsonGrammar.numberOf 1)
  let feed : Blank := { text := ['\n'], isBlank := rfl }
  let dependencies : Value :=
    .object (.more key .none one .none (.last { key with before := feed } .none one .none))
  (JsonGrammar.objectOf [(JsonGrammar.partsOf "dependencies".toList, dependencies)]).document

theorem json_lines_exact_repeated :
    ∃ lines, jsonSections grammarDecoders repeatedDocument.text = .ok lines ∧
      (lines (ofStr "dependencies".toList)).map
        (fun keys => keys.lookup (ofStr "left-pad".toList)) = some (some 2) := by
  have hexact := json_lines_exact lawful_grammarDecoders repeatedDocument rfl
  rcases hexact.1.mpr (by decide) with ⟨lines, h, hlines, -⟩
  refine ⟨lines, h, ?_⟩
  have hkey := congrArg (Option.map (fun keys => keys (ofStr "left-pad".toList)))
    (hlines (ofStr "dependencies".toList))
  rw [Option.map_map] at hkey
  exact hkey.trans rfl

/-- Arrays in one another, around an empty one. -/
def nest : Nat → Value
  | 0 => .emptyArray .none
  | n + 1 => .array (.last .none (nest n) .none)

theorem nesting_nest (n : Nat) : (nest n).nesting = n := by
  induction n with
  | zero => rfl
  | succ n ih => rw [nest, Value.nesting, JsonGrammar.Items.nesting, ih]

/-- An object with arrays in one another. -/
def deepDocument (n : Nat) : Document :=
  (JsonGrammar.objectOf [(JsonGrammar.partsOf "a".toList, nest n)]).document

/-- Arrays that are nested too deep are decoded, but not scanned. -/
theorem deepDocument_not_exact {n : Nat} (h : grammarDecoders.frames < n + 3) :
    (∃ data, grammarDecoders.jsonLoads (deepDocument n).text = .ok data) ∧
      ∃ root, placesAt (deepDocument n).before.text (deepDocument n).value = some root ∧
        ¬ Exact grammarDecoders (deepDocument n) root := by
  have hnesting : (deepDocument n).value.nesting = n + 1 :=
    congrArg (fun k => k + 1) (nesting_nest n)
  refine ⟨⟨dataOf (deepDocument n).data, ?_⟩, _, rfl,
    not_exact (jsonSections_deep lawful_grammarDecoders ?_)⟩
  · simp only [grammarDecoders, JsonGrammar.parse_text]
  · rw [hnesting]
    omega

/-- With a thousand arrays in one another the text is one of the grammar, its root is an object,
    and it is decoded, but it is not scanned. -/
theorem json_lines_deep :
    (∃ data, grammarDecoders.jsonLoads (deepDocument 1000).text = .ok data) ∧
      ∃ root, placesAt (deepDocument 1000).before.text (deepDocument 1000).value = some root ∧
        ¬ Exact grammarDecoders (deepDocument 1000) root :=
  deepDocument_not_exact (by decide)

end Exactness

end JsonLines

end Partha
