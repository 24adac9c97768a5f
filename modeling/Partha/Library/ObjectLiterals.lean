import Partha.Library.JsonText

/-!
# Object Literals

What an object literal of ECMAScript says about one of its properties.

A literal is read as it is written: string literals, templates and identifiers with their escape
sequences, and keys that are names, strings, numbers or computed. Every other expression can have
any value, and what a getter returns can be any value each time. So the evaluation of a literal is
a relation, and something is certain if it holds however the literal is evaluated.

Whether a property is certain can be told from the members, one after another.

## Main definitions

* `unescape`: The code units that a text with escape sequences stands for.
* `Member`: A member of an object literal.
* `Evaluates`: An object that a literal evaluates to.
* `CertainlyAbsent`, `Certainly`: What is certain of a property.
* `known`: What the members say about a property.

## Theorems

* `known_absent_iff`, `known_text_iff`: What the members say is what is certain.
-/

namespace Partha

namespace ObjectLiterals

open JsonText (utf16 utf16Char)

section Escapes

/-- Where a reader is in an escape sequence. -/
inductive Reading where
  | plain
  | escaped
  | hex (left value : Nat)
  | code
  | braces (value : Option Nat)
  | continued
  | zero
  deriving DecidableEq, Repr

def hexValue (c : Char) : Option Nat :=
  if c.isDigit then some (c.toNat - '0'.toNat)
  else if 'a' ≤ c ∧ c ≤ 'f' then some (c.toNat - 'a'.toNat + 10)
  else if 'A' ≤ c ∧ c ≤ 'F' then some (c.toNat - 'A'.toNat + 10)
  else none

/-- The code units of a code point, which can be a surrogate. -/
def pointUnits (n : Nat) : List Nat :=
  if n < 0x10000 then [n] else [0xD800 + (n - 0x10000) / 0x400, 0xDC00 + (n - 0x10000) % 0x400]

/-- The control character that a letter stands for after a backslash. -/
def controlCharacter (c : Char) : Option Nat :=
  [('b', 8), ('t', 9), ('n', 10), ('v', 11), ('f', 12), ('r', 13)].lookup c

/-- A character outside of escape sequences. -/
def readPlain (ends : Char → Bool) (c : Char) : Option (Reading × List Nat) :=
  if c = '\\' then some (.escaped, [])
  else if ends c then none
  else some (.plain, utf16Char c)

/-- One character of a text in which some characters must be escaped. -/
def readOne (ends : Char → Bool) : Reading → Char → Option (Reading × List Nat)
  | .plain, c => readPlain ends c
  | .escaped, c =>
    if c = 'x' then some (.hex 1 0, [])
    else if c = 'u' then some (.code, [])
    else if c = '0' then some (.zero, [0])
    else if c.isDigit then none
    else if c = '\r' then some (.continued, [])
    else if c = '\n' ∨ c = Char.ofNat 0x2028 ∨ c = Char.ofNat 0x2029 then some (.plain, [])
    else some (.plain, ((controlCharacter c).map (fun n => [n])).getD (utf16Char c))
  | .hex left value, c =>
    (hexValue c).map fun d =>
      match left with
      | 0 => (.plain, [value * 16 + d])
      | left + 1 => (.hex left (value * 16 + d), [])
  | .code, c =>
    if c = '{' then some (.braces none, []) else (hexValue c).map fun d => (.hex 2 d, [])
  | .braces value, c =>
    if c = '}' then value.map fun n => (.plain, pointUnits n)
    else (hexValue c).bind fun d =>
      if value.getD 0 * 16 + d < 0x110000 then some (.braces (some (value.getD 0 * 16 + d)), [])
      else none
  | .continued, c => if c = '\n' then some (.plain, []) else readPlain ends c
  | .zero, c => if c.isDigit then none else readPlain ends c

/-- A text can end only between escape sequences. -/
def Reading.complete : Reading → Bool
  | .plain | .continued | .zero => true
  | _ => false

/-- The code units that a text stands for, if it is well formed. -/
def unescape (ends : Char → Bool) (reading : Reading) : List Char → Option (List Nat)
  | [] => if reading.complete then some [] else none
  | c :: s =>
    (readOne ends reading c).bind fun (next, units) =>
      (unescape ends next s).map fun rest => units ++ rest

end Escapes

section Syntax

/-- A string literal, by its quotation mark and what is between its quotation marks. -/
structure StringLiteral where
  mark : Char
  body : List Char
  isMark : mark = '\'' ∨ mark = '"'
  wellFormed : (unescape (fun c => c = mark ∨ c = '\n' ∨ c = '\r') .plain body).isSome

/-- The value of a string literal. -/
def StringLiteral.units (l : StringLiteral) : List Nat :=
  (unescape (fun c => c = l.mark ∨ c = '\n' ∨ c = '\r') .plain l.body).get l.wellFormed

def StringLiteral.text (l : StringLiteral) : List Char :=
  l.mark :: l.body ++ [l.mark]

/-- What is between the substitutions of a template has line feeds only. -/
def lineFeeds : List Char → List Char
  | [] => []
  | '\r' :: '\n' :: s => '\n' :: lineFeeds s
  | c :: s => (if c = '\r' then '\n' else c) :: lineFeeds s

/-- A part of a template. -/
inductive Part where
  | fragment (text : List Char)
  | escape (text : List Char)
  | substitution (text : List Char)

def Part.text : Part → List Char
  | .fragment text | .escape text | .substitution text => text

def Part.isSubstitution : Part → Bool
  | .substitution _ => true
  | _ => false

/-- The value of a template without substitutions, if it is well formed. -/
def templateUnits (parts : List Part) : Option (List Nat) :=
  unescape (fun c => c = '`') .plain (lineFeeds (parts.flatMap Part.text))

/-- A template. -/
structure Template where
  parts : List Part
  wellFormed : parts.any Part.isSubstitution = false → (templateUnits parts).isSome

def Template.text (t : Template) : List Char :=
  '`' :: t.parts.flatMap Part.text ++ ['`']

/-- An expression. What is neither a string nor a template is not looked into. -/
inductive Expression where
  | string (l : StringLiteral)
  | template (t : Template)
  | other (text : List Char)

def Expression.text : Expression → List Char
  | .string l => l.text
  | .template t => t.text
  | .other text => text

/-- The value of an expression that is a literal string. -/
def Expression.units : Expression → Option (List Nat)
  | .string l => some l.units
  | .template t => if t.parts.any Part.isSubstitution then none else templateUnits t.parts
  | .other _ => none

/-- A name, with its escape sequences. -/
structure Identifier where
  text : List Char
  wellFormed : (unescape (fun _ => false) .plain text).isSome

def Identifier.units (i : Identifier) : List Nat :=
  (unescape (fun _ => false) .plain i.text).get i.wellFormed

/-- The key of a member. -/
inductive Key where
  | identifier (i : Identifier)
  | string (l : StringLiteral)
  | number (text : List Char)
  | computed (e : Expression)

def Key.text : Key → List Char
  | .identifier i => i.text
  | .string l => l.text
  | .number text => text
  | .computed e => '[' :: e.text ++ [']']

inductive MethodKind where
  | method
  | getter
  | setter
  deriving DecidableEq, Repr

/-- A member of an object literal, or a comment between members. -/
inductive Member where
  | pair (key : Key) (value : Expression)
  | shorthand (name : Identifier)
  | method (kind : MethodKind) (key : Key)
  | spread (value : Expression)
  | comment

end Syntax

section Evaluation

/-- A value. What is neither a string nor an object is not told apart. -/
inductive JsValue where
  | string (units : List Nat)
  | object (fields : List (List Nat × JsValue))
  | other

/-- A property of an object. A getter can return any value. -/
inductive Property where
  | data (v : JsValue)
  | accessor (hasGetter : Bool)

/-- An object that is being built, the latest property first, with what its prototype has if the
    prototype is set. -/
structure JsObject where
  own : List (List Nat × Property)
  inherited : List (List Nat × JsValue)

def JsObject.empty : JsObject :=
  { own := [], inherited := [] }

def JsObject.define (o : JsObject) (name : List Nat) (p : Property) : JsObject :=
  { o with own := (name, p) :: o.own }

/-- The prototype is set to an object, and by nothing else. -/
def JsObject.inherit (o : JsObject) : JsValue → JsObject
  | .object fields => { o with inherited := fields }
  | _ => o

def JsObject.hasGetter (o : JsObject) (name : List Nat) : Bool :=
  match o.own.lookup name with
  | some (.accessor hasGetter) => hasGetter
  | _ => false

/-- What can be read of a property. -/
def JsObject.Reads (o : JsObject) (name : List Nat) (r : Option JsValue) : Prop :=
  match o.own.lookup name with
  | some (.data v) => r = some v
  | some (.accessor true) => r ≠ none
  | some (.accessor false) => r = some .other
  | none => r = o.inherited.lookup name

/-- A value of an expression. -/
def Expression.HasValue (e : Expression) (v : JsValue) : Prop :=
  match e with
  | .string l => v = .string l.units
  | .template _ => ∃ units, v = .string units ∧ ∀ u, e.units = some u → units = u
  | .other _ => True

/-- A numeral as a property name. -/
def IsNumeral (name : List Nat) : Prop :=
  (∃ n rest, name = n :: rest ∧ 0x30 ≤ n ∧ n ≤ 0x39) ∨ name = utf16 "Infinity".toList

/-- A name that a key stands for. -/
def Key.HasName (key : Key) (name : List Nat) : Prop :=
  match key with
  | .identifier i => name = i.units
  | .string l => name = l.units
  | .number _ => IsNumeral name
  | .computed e => ∃ v, e.HasValue v ∧ ∀ units, v = .string units → name = units

def prototypeName : List Nat :=
  utf16 "__proto__".toList

/-- A pair of this name sets the prototype, unless its key is computed. -/
def Key.isPrototype : Key → Bool
  | .identifier i => i.units = prototypeName
  | .string l => l.units = prototypeName
  | _ => false

/-- What a member makes of an object. -/
def Member.Defines (member : Member) (o o' : JsObject) : Prop :=
  match member with
  | .pair key value =>
    if key.isPrototype then ∃ v, value.HasValue v ∧ o' = o.inherit v
    else ∃ name v, key.HasName name ∧ value.HasValue v ∧ o' = o.define name (.data v)
  | .shorthand name => ∃ v, o' = o.define name.units (.data v)
  | .method .method key =>
    ∃ name fields, key.HasName name ∧ o' = o.define name (.data (.object fields))
  | .method .getter key => ∃ name, key.HasName name ∧ o' = o.define name (.accessor true)
  | .method .setter key =>
    ∃ name, key.HasName name ∧ o' = o.define name (.accessor (o.hasGetter name))
  | .spread _ =>
    ∃ fields : List (List Nat × JsValue),
      o' = fields.foldl (fun o f => o.define f.1 (.data f.2)) o
  | .comment => o' = o

/-- An object that the members lead to. -/
def Evaluates : List Member → JsObject → JsObject → Prop
  | [], o, o' => o' = o
  | member :: members, o, o' => ∃ o₁, member.Defines o o₁ ∧ Evaluates members o₁ o'

/-- The object has no such property, however the literal is evaluated. -/
def CertainlyAbsent (name : List Nat) (members : List Member) : Prop :=
  ∀ o, Evaluates members .empty o → ∀ r, o.Reads name r → r = none

/-- The property is this string, however the literal is evaluated. -/
def Certainly (name : List Nat) (members : List Member) (units : List Nat) : Prop :=
  ∀ o, Evaluates members .empty o → ∀ r, o.Reads name r → r = some (.string units)

end Evaluation

section Analysis

/-- What members say about a property. -/
inductive Known where
  | absent
  | text (units : List Nat)
  | unknown
  deriving DecidableEq, Repr

/-- Whether a key is this name, unless that depends on a value. -/
def Key.isName (name : List Nat) : Key → Option Bool
  | .identifier i => some (i.units = name)
  | .string l => some (l.units = name)
  | .number _ => some false
  | .computed e => e.units.map (fun units => units = name)

/-- What is known after a pair. -/
def notePair (name : List Nat) (key : Key) (value : Expression) (k : Known) : Known :=
  match key.isName name, value.units with
  | some false, _ => k
  | some true, some units => .text units
  | some true, none => .unknown
  | none, some units => if k = .text units then k else .unknown
  | none, none => .unknown

/-- What is known after a prototype is set, which strings do not. -/
def notePrototype (value : Expression) (k : Known) : Known :=
  match value with
  | .other _ => if k = .absent then .unknown else k
  | _ => k

/-- What is known after one more member. -/
def Member.note (name : List Nat) (member : Member) (k : Known) : Known :=
  match member with
  | .pair key value =>
    if key.isPrototype then notePrototype value k else notePair name key value k
  | .shorthand i => if i.units = name then .unknown else k
  | .method _ key => if key.isName name = some false then k else .unknown
  | .spread _ => .unknown
  | .comment => k

/-- What the members say about a property. -/
def known (name : List Nat) (members : List Member) : Known :=
  members.foldl (fun k member => member.note name k) .absent

/-- The objects that a step leads to. -/
def After (R : JsObject → JsObject → Prop) (S : JsObject → Prop) (o' : JsObject) : Prop :=
  ∃ o, S o ∧ R o o'

/-- What is known is what is certain of some objects. -/
def Describes (name : List Nat) (S : JsObject → Prop) : Known → Prop
  | .absent =>
    (∃ o, S o) ∧ ∀ o, S o → o.own.lookup name = none ∧ o.inherited.lookup name = none
  | .text units =>
    (∃ o, S o) ∧ ∀ o, S o → o.own.lookup name = some (.data (.string units))
  | .unknown =>
    (∃ o r, S o ∧ o.Reads name r ∧ r ≠ none) ∧
      ∀ units, ∃ o r, S o ∧ o.Reads name r ∧ r ≠ some (.string units)

end Analysis

section Objects

variable {name : List Nat} {o o' : JsObject}

@[simp]
theorem lookup_define_self (o : JsObject) (name : List Nat) (p : Property) :
    (o.define name p).own.lookup name = some p := by
  simp [JsObject.define]

theorem lookup_define_ne {name' : List Nat} (h : name' ≠ name) (o : JsObject) (p : Property) :
    (o.define name' p).own.lookup name = o.own.lookup name := by
  have hne : (name == name') = false := beq_false_of_ne (Ne.symm h)
  simp only [JsObject.define, List.lookup_cons, hne]

variable {r : Option JsValue}

theorem reads_congr (hown : o'.own.lookup name = o.own.lookup name)
    (hinherited : o'.inherited.lookup name = o.inherited.lookup name) :
    o'.Reads name r ↔ o.Reads name r := by
  rw [JsObject.Reads, JsObject.Reads, hown, hinherited]

theorem reads_data {v : JsValue} (h : o.own.lookup name = some (.data v)) :
    o.Reads name r ↔ r = some v := by
  rw [JsObject.Reads, h]

theorem reads_none (hown : o.own.lookup name = none) :
    o.Reads name r ↔ r = o.inherited.lookup name := by
  rw [JsObject.Reads, hown]

/-- What is read of an accessor can be no string. -/
theorem reads_accessor {hasGetter : Bool} (h : o.own.lookup name = some (.accessor hasGetter)) :
    o.Reads name (some .other) := by
  rw [JsObject.Reads, h]
  cases hasGetter with
  | true => exact Option.some_ne_none _
  | false => rfl

end Objects

section Members

variable {name : List Nat}

theorem Expression.exists_hasValue (e : Expression) : ∃ v, e.HasValue v := by
  cases e with
  | string l => exact ⟨_, rfl⟩
  | template t =>
    cases hu : (Expression.template t).units with
    | none => exact ⟨.string [], [], rfl, fun u h => by rw [hu] at h; cases h⟩
    | some units =>
      refine ⟨.string units, units, rfl, fun u h => ?_⟩
      rw [hu] at h
      exact Option.some.inj h
  | other text => exact ⟨.other, trivial⟩

variable {e : Expression} {key : Key}

/-- A literal string has one value. -/
theorem Expression.hasValue_of_units {units : List Nat} (h : e.units = some units) {v : JsValue} :
    e.HasValue v ↔ v = .string units := by
  cases e with
  | string l =>
    cases h
    exact Iff.rfl
  | template t =>
    constructor
    · rintro ⟨u, rfl, hu⟩
      rw [hu units h]
    · rintro rfl
      refine ⟨units, rfl, fun u hu => ?_⟩
      rw [h] at hu
      exact Option.some.inj hu
  | other text => cases h

/-- Every other expression can have the value of any string, and another one. -/
theorem Expression.hasValue_string (h : e.units = none) (units : List Nat) :
    e.HasValue (.string units) := by
  cases e with
  | string l => cases h
  | template t => exact ⟨units, rfl, fun u hu => by rw [h] at hu; cases hu⟩
  | other text => exact trivial

/-- The name of a key that is told from its text. -/
theorem Key.hasName_iff (hnumeral : ¬ IsNumeral name) {b : Bool} (h : key.isName name = some b) :
    (∃ n, key.HasName n) ∧ ∀ n, key.HasName n → (n = name ↔ b = true) := by
  cases key with
  | identifier i | string l =>
    refine ⟨⟨_, rfl⟩, fun n hn => ?_⟩
    rw [hn, ← Option.some.inj h, decide_eq_true_iff]
  | number text =>
    refine ⟨⟨[0x30], .inl ⟨0x30, [], rfl, Nat.le_refl _, by decide⟩⟩, fun n hn => ?_⟩
    cases h
    refine iff_of_false (fun heq => hnumeral ?_) Bool.false_ne_true
    rw [← heq]
    exact hn
  | computed e =>
    rcases Option.map_eq_some_iff.mp h with ⟨units, hunits, rfl⟩
    have hvalue : ∀ v, e.HasValue v ↔ v = .string units :=
      fun _ => Expression.hasValue_of_units hunits
    refine ⟨⟨units, .string units, (hvalue _).mpr rfl, fun u hu => JsValue.string.inj hu⟩, ?_⟩
    rintro n ⟨v, hv, hn⟩
    rw [hn units ((hvalue v).mp hv), decide_eq_true_iff]

/-- Every other key can be any name. -/
theorem Key.hasName_any (h : key.isName name = none) (n : List Nat) : key.HasName n := by
  cases key with
  | identifier i => cases h
  | string l => cases h
  | number text => cases h
  | computed e =>
    rw [Key.isName, Option.map_eq_none_iff] at h
    exact ⟨.string n, Expression.hasValue_string h n, fun u hu => JsValue.string.inj hu⟩

end Members

section Steps

variable {name : List Nat} {R : JsObject → JsObject → Prop} {S : JsObject → Prop} {k : Known}

/-- The property is what it was. -/
def Same (name : List Nat) (o o' : JsObject) : Prop :=
  o'.own.lookup name = o.own.lookup name ∧ o'.inherited.lookup name = o.inherited.lookup name

theorem describes_nonempty (h : Describes name S k) : ∃ o, S o := by
  cases k with
  | absent => exact h.1
  | text units => exact h.1
  | unknown =>
    rcases h.1 with ⟨o, _, ho, -⟩
    exact ⟨o, ho⟩

/-- What is unknown stays so if it can stay as it was. -/
theorem describes_unknown_same (hsame : ∀ o, ∃ o', R o o' ∧ Same name o o')
    (h : Describes name S .unknown) : Describes name (After R S) .unknown := by
  have hreads : ∀ o r, S o → o.Reads name r → ∃ o', After R S o' ∧ o'.Reads name r := by
    intro o r ho hr
    rcases hsame o with ⟨o', hstep, hown, hinherited⟩
    exact ⟨o', ⟨o, ho, hstep⟩, (reads_congr hown hinherited).mpr hr⟩
  refine ⟨?_, fun units => ?_⟩
  · rcases h.1 with ⟨o, r, ho, hr, hne⟩
    rcases hreads o r ho hr with ⟨o', ho', hr'⟩
    exact ⟨o', r, ho', hr', hne⟩
  · rcases h.2 units with ⟨o, r, ho, hr, hne⟩
    rcases hreads o r ho hr with ⟨o', ho', hr'⟩
    exact ⟨o', r, ho', hr', hne⟩

/-- A step that leaves the property as it was. -/
theorem describes_keep (htotal : ∀ o, ∃ o', R o o') (hsame : ∀ o o', R o o' → Same name o o')
    (h : Describes name S k) : Describes name (After R S) k := by
  have hnonempty : ∃ o', After R S o' := by
    rcases describes_nonempty h with ⟨o, ho⟩
    rcases htotal o with ⟨o', hstep⟩
    exact ⟨o', o, ho, hstep⟩
  cases k with
  | absent =>
    refine ⟨hnonempty, ?_⟩
    rintro o' ⟨o, ho, hstep⟩
    rw [(hsame o o' hstep).1, (hsame o o' hstep).2]
    exact h.2 o ho
  | text units =>
    refine ⟨hnonempty, ?_⟩
    rintro o' ⟨o, ho, hstep⟩
    rw [(hsame o o' hstep).1]
    exact h.2 o ho
  | unknown =>
    refine describes_unknown_same (fun o => ?_) h
    rcases htotal o with ⟨o', hstep⟩
    exact ⟨o', hstep, hsame o o' hstep⟩

variable {units : List Nat} {key : Key} {value : Expression} {members : List Member}

/-- A step that sets the property to a string. -/
theorem describes_set (htotal : ∀ o, ∃ o', R o o')
    (hset : ∀ o o', R o o' → o'.own.lookup name = some (.data (.string units)))
    (h : Describes name S k) : Describes name (After R S) (.text units) := by
  refine ⟨?_, ?_⟩
  · rcases describes_nonempty h with ⟨o, ho⟩
    rcases htotal o with ⟨o', hstep⟩
    exact ⟨o', o, ho, hstep⟩
  · rintro o' ⟨o, -, hstep⟩
    exact hset o o' hstep

/-- A step after which the property can be something else than any string. -/
theorem describes_unsure
    (hunsure : ∀ o units, ∃ o' v, R o o' ∧ o'.Reads name (some v) ∧ v ≠ .string units)
    (h : Describes name S k) : Describes name (After R S) .unknown := by
  rcases describes_nonempty h with ⟨o, ho⟩
  refine ⟨?_, fun units => ?_⟩
  · rcases hunsure o [] with ⟨o', v, hstep, hr, -⟩
    exact ⟨o', some v, ⟨o, ho, hstep⟩, hr, Option.some_ne_none v⟩
  · rcases hunsure o units with ⟨o', v, hstep, hr, hne⟩
    exact ⟨o', some v, ⟨o, ho, hstep⟩, hr, fun heq => hne (Option.some.inj heq)⟩

/-- A step that sets the property to a string or not. -/
theorem describes_maySet (hsame : ∀ o, ∃ o', R o o' ∧ Same name o o')
    (hset : ∀ o, ∃ o', R o o' ∧ o'.own.lookup name = some (.data (.string units)))
    (heither : ∀ o o', R o o' → Same name o o' ∨
      o'.own.lookup name = some (.data (.string units))) (h : Describes name S k) :
    Describes name (After R S) (if k = .text units then k else .unknown) := by
  have hread : ∃ o', After R S o' ∧ o'.Reads name (some (.string units)) := by
    rcases describes_nonempty h with ⟨o, ho⟩
    rcases hset o with ⟨o', hstep, hown⟩
    exact ⟨o', ⟨o, ho, hstep⟩, (reads_data hown).mpr rfl⟩
  -- Another reading from before makes the property unknown.
  have hother : ∀ o r, S o → o.Reads name r → r ≠ some (.string units) →
      Describes name (After R S) .unknown := by
    intro o r ho hr hne
    rcases hread with ⟨o₁, ho₁, hr₁⟩
    rcases hsame o with ⟨o₂, hstep, hown, hinherited⟩
    have hr₂ := (reads_congr hown hinherited).mpr hr
    refine ⟨⟨o₁, _, ho₁, hr₁, Option.some_ne_none _⟩, fun units' => ?_⟩
    by_cases heq : units = units'
    · exact ⟨o₂, r, ⟨o, ho, hstep⟩, hr₂, by rw [← heq]; exact hne⟩
    · refine ⟨o₁, _, ho₁, hr₁, fun hsome => heq ?_⟩
      exact JsValue.string.inj (Option.some.inj hsome)
  cases k with
  | absent =>
    rcases h.1 with ⟨o, ho⟩
    rw [if_neg (fun h => by cases h)]
    refine hother o none ho ?_ (fun h => by cases h)
    rw [reads_none (h.2 o ho).1, (h.2 o ho).2]
  | text units' =>
    by_cases heq : Known.text units' = .text units
    · rw [if_pos heq]
      rw [Known.text.inj heq] at h ⊢
      refine ⟨⟨_, hread.choose_spec.1⟩, ?_⟩
      rintro o' ⟨o, ho, hstep⟩
      rcases heither o o' hstep with hkept | hnew
      · rw [hkept.1]
        exact h.2 o ho
      · exact hnew
    · rw [if_neg heq]
      rcases h.1 with ⟨o, ho⟩
      refine hother o _ ho ((reads_data (h.2 o ho)).mpr rfl) (fun hsome => heq ?_)
      rw [JsValue.string.inj (Option.some.inj hsome)]
  | unknown =>
    rw [if_neg (fun h => by cases h)]
    exact describes_unknown_same hsame h

/-- A step that sets the prototype, to an object or not. -/
theorem describes_inherit (hsame : ∀ o, ∃ o', R o o' ∧ Same name o o')
    (hset : ∀ o, ∃ o' v, R o o' ∧ o'.own.lookup name = o.own.lookup name ∧
      o'.inherited.lookup name = some v ∧ ∀ units, v ≠ .string units)
    (hown : ∀ o o', R o o' → o'.own.lookup name = o.own.lookup name)
    (h : Describes name S k) :
    Describes name (After R S) (if k = .absent then .unknown else k) := by
  cases k with
  | absent =>
    rcases h.1 with ⟨o, ho⟩
    rcases hset o with ⟨o', v, hstep, hown', hinherited, hne⟩
    have hr : o'.Reads name (some v) := by
      rw [reads_none (hown'.trans (h.2 o ho).1), hinherited]
    rw [if_pos rfl]
    refine ⟨⟨o', _, ⟨o, ho, hstep⟩, hr, Option.some_ne_none v⟩, fun units => ?_⟩
    exact ⟨o', _, ⟨o, ho, hstep⟩, hr, fun heq => hne units (Option.some.inj heq)⟩
  | text units =>
    rw [if_neg (fun h => by cases h)]
    refine ⟨?_, ?_⟩
    · rcases h.1 with ⟨o, ho⟩
      rcases hsame o with ⟨o', hstep, -⟩
      exact ⟨o', o, ho, hstep⟩
    · rintro o' ⟨o, ho, hstep⟩
      rw [hown o o' hstep]
      exact h.2 o ho
  | unknown =>
    rw [if_neg (fun h => by cases h)]
    exact describes_unknown_same hsame h

theorem same_define {n : List Nat} (h : n ≠ name) (o : JsObject) (p : Property) :
    Same name o (o.define n p) :=
  ⟨lookup_define_ne h o p, rfl⟩

theorem inherit_own (o : JsObject) (v : JsValue) : (o.inherit v).own = o.own := by
  cases v with
  | string units => rfl
  | object fields => rfl
  | other => rfl

theorem defines_pair (h : ¬ key.isPrototype = true) {o o' : JsObject} :
    (Member.pair key value).Defines o o' ↔
      ∃ n v, key.HasName n ∧ value.HasValue v ∧ o' = o.define n (.data v) := by
  rw [Member.Defines, if_neg h]

/-- What a pair of a known name defines is told from its value. -/
theorem describes_pair (hnumeral : ¬ IsNumeral name) (hplain : ¬ key.isPrototype = true)
    (h : Describes name S k) :
    Describes name (After (Member.pair key value).Defines S) (notePair name key value k) := by
  rcases value.exists_hasValue with ⟨v₀, hv₀⟩
  -- What is known of the key: another name, this one, or nothing.
  cases hkey : key.isName name with
  | some b =>
    rcases Key.hasName_iff hnumeral hkey with ⟨⟨n₀, hn₀⟩, hname⟩
    have htotal : ∀ o, ∃ o', (Member.pair key value).Defines o o' :=
      fun o => ⟨_, (defines_pair hplain).mpr ⟨n₀, v₀, hn₀, hv₀, rfl⟩⟩
    cases b with
    | false =>
      rw [notePair, hkey]
      refine describes_keep htotal (fun o o' hstep => ?_) h
      rcases (defines_pair hplain).mp hstep with ⟨n, v, hn, -, rfl⟩
      exact same_define (fun heq => Bool.false_ne_true ((hname n hn).mp heq)) o _
    | true =>
      cases hunits : value.units with
      | some units =>
        rw [notePair, hkey, hunits]
        refine describes_set htotal (fun o o' hstep => ?_) h
        rcases (defines_pair hplain).mp hstep with ⟨n, v, hn, hv, rfl⟩
        rw [(hname n hn).mpr rfl, (Expression.hasValue_of_units hunits).mp hv]
        exact lookup_define_self o name _
      | none =>
        rw [notePair, hkey, hunits]
        refine describes_unsure (fun o units => ?_) h
        have hv := Expression.hasValue_string hunits (0 :: units)
        refine ⟨_, .string (0 :: units), (defines_pair hplain).mpr ⟨n₀, _, hn₀, hv, rfl⟩,
          ?_, ?_⟩
        · rw [(hname n₀ hn₀).mpr rfl]
          exact (reads_data (lookup_define_self o name _)).mpr rfl
        · exact fun heq => List.cons_ne_self 0 units (JsValue.string.inj heq)
  | none =>
    have hany := Key.hasName_any hkey
    cases hunits : value.units with
    | some units =>
      rw [notePair, hkey, hunits]
      have hvalue : ∀ v, value.HasValue v ↔ v = .string units :=
        fun _ => Expression.hasValue_of_units hunits
      refine describes_maySet (fun o => ?_) (fun o => ?_) (fun o o' hstep => ?_) h
      · refine ⟨_, (defines_pair hplain).mpr ⟨0 :: name, v₀, hany _, hv₀, rfl⟩, ?_⟩
        exact same_define (List.cons_ne_self 0 name) o _
      · refine ⟨_, (defines_pair hplain).mpr
          ⟨name, _, hany name, (hvalue _).mpr rfl, rfl⟩, lookup_define_self o name _⟩
      · rcases (defines_pair hplain).mp hstep with ⟨n, v, -, hv, rfl⟩
        by_cases heq : n = name
        · rw [heq, (hvalue v).mp hv]
          exact .inr (lookup_define_self o name _)
        · exact .inl (same_define heq o _)
    | none =>
      rw [notePair, hkey, hunits]
      refine describes_unsure (fun o units => ?_) h
      have hv := Expression.hasValue_string hunits (0 :: units)
      refine ⟨_, .string (0 :: units), (defines_pair hplain).mpr
        ⟨name, _, hany name, hv, rfl⟩, ?_, ?_⟩
      · exact (reads_data (lookup_define_self o name _)).mpr rfl
      · exact fun heq => List.cons_ne_self 0 units (JsValue.string.inj heq)

/-- A prototype is set by what is not a string. -/
theorem describes_prototype (hproto : key.isPrototype = true) (h : Describes name S k) :
    Describes name (After (Member.pair key value).Defines S) (notePrototype value k) := by
  have hdefines : ∀ o o', (Member.pair key value).Defines o o' ↔
      ∃ v, value.HasValue v ∧ o' = o.inherit v := by
    intro o o'
    rw [Member.Defines, if_pos hproto]
  rcases value.exists_hasValue with ⟨v₀, hv₀⟩
  have hstring : (∀ v, value.HasValue v → ∃ units, v = .string units) →
      Describes name (After (Member.pair key value).Defines S) k := by
    intro hall
    refine describes_keep (fun o => ⟨_, (hdefines o _).mpr ⟨v₀, hv₀, rfl⟩⟩)
      (fun o o' hstep => ?_) h
    rcases (hdefines o o').mp hstep with ⟨v, hv, rfl⟩
    rcases hall v hv with ⟨units, rfl⟩
    exact ⟨rfl, rfl⟩
  cases value with
  | string l => exact hstring (fun v hv => ⟨_, hv⟩)
  | template t => exact hstring (fun v hv => ⟨hv.choose, hv.choose_spec.1⟩)
  | other text =>
    refine describes_inherit (fun o => ?_) (fun o => ?_) (fun o o' hstep => ?_) h
    · exact ⟨o, (hdefines o o).mpr ⟨.other, trivial, rfl⟩, rfl, rfl⟩
    · refine ⟨_, .other, (hdefines o _).mpr ⟨.object [(name, .other)], trivial, rfl⟩, rfl, ?_, ?_⟩
      · exact List.lookup_cons_self
      · exact fun _ h => by cases h
    · rcases (hdefines o o').mp hstep with ⟨v, -, rfl⟩
      rw [inherit_own]

/-- Every other member that can define the property can make it something else than a string. -/
theorem describes_method (hnumeral : ¬ IsNumeral name) {kind : MethodKind}
    (h : Describes name S k) :
    Describes name (After (Member.method kind key).Defines S)
      ((Member.method kind key).note name k) := by
  -- What a method defines under a name, which is read as no string.
  have hdefines : ∀ o n, key.HasName n → ∃ p : Property,
      (Member.method kind key).Defines o (o.define n p) ∧
        ∃ v, (o.define n p).Reads n (some v) ∧ ∀ units, v ≠ .string units := by
    intro o n hn
    cases kind with
    | method =>
      refine ⟨_, ⟨n, [], hn, rfl⟩, .object [], ?_, fun _ h => by cases h⟩
      exact (reads_data (lookup_define_self o n _)).mpr rfl
    | getter | setter =>
      exact ⟨_, ⟨n, hn, rfl⟩, .other, reads_accessor (lookup_define_self o n _),
        fun _ h => by cases h⟩
  have hnames : ∀ o o', (Member.method kind key).Defines o o' →
      ∃ n p, key.HasName n ∧ o' = o.define n p := by
    intro o o' hstep
    cases kind with
    | method =>
      rcases hstep with ⟨n, _, hn, rfl⟩
      exact ⟨n, _, hn, rfl⟩
    | getter | setter =>
      rcases hstep with ⟨n, hn, rfl⟩
      exact ⟨n, _, hn, rfl⟩
  rw [Member.note]
  by_cases hfalse : key.isName name = some false
  · rw [if_pos hfalse]
    rcases Key.hasName_iff hnumeral hfalse with ⟨⟨n₀, hn₀⟩, hname⟩
    refine describes_keep (fun o => ?_) (fun o o' hstep => ?_) h
    · rcases hdefines o n₀ hn₀ with ⟨p, hstep, -⟩
      exact ⟨_, hstep⟩
    · rcases hnames o o' hstep with ⟨n, p, hn, rfl⟩
      exact same_define (fun heq => Bool.false_ne_true ((hname n hn).mp heq)) o p
  · rw [if_neg hfalse]
    have hpossible : key.HasName name := by
      cases hkey : key.isName name with
      | none => exact Key.hasName_any hkey name
      | some b =>
        rcases Key.hasName_iff hnumeral hkey with ⟨⟨n₀, hn₀⟩, hname⟩
        have hb : b = true := by
          cases b with
          | true => rfl
          | false => exact absurd hkey hfalse
        rw [← (hname n₀ hn₀).mpr hb]
        exact hn₀
    refine describes_unsure (fun o units => ?_) h
    rcases hdefines o name hpossible with ⟨p, hstep, v, hr, hne⟩
    exact ⟨_, v, hstep, hr, hne units⟩

/-- What a member adds to what is known. -/
theorem describes_note (hnumeral : ¬ IsNumeral name) (member : Member)
    (h : Describes name S k) :
    Describes name (After member.Defines S) (member.note name k) := by
  cases member with
  | pair key value =>
    rw [Member.note]
    by_cases hproto : key.isPrototype = true
    · rw [if_pos hproto]
      exact describes_prototype hproto h
    · rw [if_neg hproto]
      exact describes_pair hnumeral hproto h
  | shorthand i =>
    rw [Member.note]
    by_cases hname : i.units = name
    · rw [if_pos hname]
      refine describes_unsure (fun o units =>
        ⟨_, .other, ⟨.other, rfl⟩, ?_, fun h => by cases h⟩) h
      rw [hname]
      exact (reads_data (lookup_define_self o name _)).mpr rfl
    · rw [if_neg hname]
      refine describes_keep (fun o => ⟨_, .other, rfl⟩) (fun o o' hstep => ?_) h
      rcases hstep with ⟨v, rfl⟩
      exact same_define hname o _
  | method kind key => exact describes_method hnumeral h
  | spread value =>
    refine describes_unsure (fun o units =>
      ⟨_, .other, ⟨[(name, .other)], rfl⟩, ?_, fun h => by cases h⟩) h
    exact (reads_data (lookup_define_self o name _)).mpr rfl
  | comment =>
    refine describes_keep (fun o => ⟨o, rfl⟩) (fun o o' hstep => ?_) h
    rw [show o' = o from hstep]
    exact ⟨rfl, rfl⟩

/-- What the members add, one after another. -/
theorem describes_members (hnumeral : ¬ IsNumeral name) (members : List Member) :
    ∀ {S : JsObject → Prop} {k : Known}, Describes name S k →
      Describes name (After (Evaluates members) S)
        (members.foldl (fun k member => member.note name k) k) := by
  induction members with
  | nil =>
    intro S k h
    refine describes_keep (fun o => ⟨o, rfl⟩) (fun o o' hstep => ?_) h
    rw [show o' = o from hstep]
    exact ⟨rfl, rfl⟩
  | cons member members ih =>
    intro S k h
    have hafter : After (Evaluates (member :: members)) S =
        After (Evaluates members) (After member.Defines S) := by
      funext o'
      refine propext ⟨?_, ?_⟩
      · rintro ⟨o, ho, o₁, hstep, hrest⟩
        exact ⟨o₁, ⟨o, ho, hstep⟩, hrest⟩
      · rintro ⟨o₁, ⟨o, ho, hstep⟩, hrest⟩
        exact ⟨o, ho, o₁, hstep, hrest⟩
    rw [hafter, List.foldl_cons]
    exact ih (describes_note hnumeral member h)

/-- What is known is what is certain. -/
theorem describes_known (hnumeral : ¬ IsNumeral name) (members : List Member) :
    Describes name (Evaluates members .empty) (known name members) := by
  have hempty : Describes name (fun o => o = .empty) .absent := by
    refine ⟨⟨.empty, rfl⟩, fun o ho => ?_⟩
    rw [ho]
    exact ⟨rfl, rfl⟩
  have hafter : After (Evaluates members) (fun o => o = .empty) = Evaluates members .empty := by
    funext o'
    refine propext ⟨?_, fun h => ⟨_, rfl, h⟩⟩
    rintro ⟨o, rfl, h⟩
    exact h
  rw [← hafter]
  exact describes_members hnumeral members hempty

theorem known_absent_iff (hnumeral : ¬ IsNumeral name) :
    known name members = .absent ↔ CertainlyAbsent name members := by
  have h := describes_known hnumeral members
  constructor
  · intro hk o ho r hr
    rw [hk] at h
    rwa [reads_none (h.2 o ho).1, (h.2 o ho).2] at hr
  · intro hcertain
    cases hk : known name members with
    | absent => rfl
    | text units =>
      rw [hk] at h
      rcases h.1 with ⟨o, ho⟩
      exact absurd (hcertain o ho _ ((reads_data (h.2 o ho)).mpr rfl)) (Option.some_ne_none _)
    | unknown =>
      rw [hk] at h
      rcases h.1 with ⟨o, r, ho, hr, hne⟩
      exact absurd (hcertain o ho r hr) hne

theorem known_text_iff (hnumeral : ¬ IsNumeral name) :
    known name members = .text units ↔ Certainly name members units := by
  have h := describes_known hnumeral members
  constructor
  · intro hk o ho r hr
    rw [hk] at h
    rwa [reads_data (h.2 o ho)] at hr
  · intro hcertain
    cases hk : known name members with
    | absent =>
      rw [hk] at h
      rcases h.1 with ⟨o, ho⟩
      have hr : o.Reads name none := by rw [reads_none (h.2 o ho).1, (h.2 o ho).2]
      exact absurd (hcertain o ho none hr) (fun h => by cases h)
    | text units' =>
      rw [hk] at h
      rcases h.1 with ⟨o, ho⟩
      have heq := hcertain o ho _ ((reads_data (h.2 o ho)).mpr rfl)
      rw [JsValue.string.inj (Option.some.inj heq)]
    | unknown =>
      rw [hk] at h
      rcases h.2 units with ⟨o, r, ho, hr, hne⟩
      exact absurd (hcertain o ho r hr) hne

end Steps

end ObjectLiterals

end Partha
