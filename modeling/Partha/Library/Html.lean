import Mathlib.Data.List.Basic

/-!
# Parsing HTML

How the text of a document with written tags is read: the tokenizer as a machine that takes one
character after the other, and the tree that the tokens build.

A line break is normalized, a character that is null is dropped, or replaced in an element whose
content is text, and a reference that ends with a semicolon is decoded if it is one of the
few that are known here or a number. Of the construction of trees there is what a document
needs that writes all its tags: an element ends with its own end tag, and whitespace outside of
the first element is dropped. A document that leaves tags out has no tree here.

The lemmas are about texts that are read from content to content, and about tokens that leave
the open elements open, so that a document is read piece by piece.

## Main definitions

* `read`, `run`: The machine of the tokenizer.
* `build`: What a token does to the open elements.
* `parse`: The nodes of a document.
* `Emits`: A text that is read from content to content.
* `Builds`: Tokens that add nodes to the element that is open.

## Theorems

* `run_append`: A text is read piece by piece.
* `builds_element`: The tokens of an element.
* `builds_append`: Nodes after nodes.
-/

namespace Html

open List

section Tokens

/-- What the content of an element is: markup, text with references, or text. -/
inductive Mode where
  | data
  | rcdata (name : List Char)
  | rawtext (name : List Char)
  deriving DecidableEq, Repr

/-- A tag, as far as it is read. -/
structure Tag where
  closing : Bool
  name : List Char
  attributes : List (List Char × List Char)
  deriving DecidableEq, Repr

inductive Token where
  | doctype (text : List Char)
  | tag (tag : Tag)
  | char (c : Char)
  deriving DecidableEq, Repr

/-- Where the tokenizer is. -/
inductive State where
  | content (mode : Mode)
  | reference (mode : Mode) (name : List Char)
  | tagOpen
  | endTagOpen
  | markup (text : List Char)
  | tagName (tag : Tag)
  | beforeAttribute (tag : Tag)
  | attributeName (tag : Tag) (name : List Char)
  | beforeValue (tag : Tag) (name : List Char)
  | value (tag : Tag) (name : List Char) (quote : Char) (text : List Char)
  | possibleEnd (mode : Mode) (name text : List Char)
  deriving DecidableEq, Repr

def isSpace (c : Char) : Bool :=
  c = ' ' || c = '\n' || c = '\t' || c = '\x0c'

/-- The elements whose content is text. -/
def contentMode (name : List Char) : Mode :=
  if (["title", "textarea"].map String.toList).elem name then .rcdata name
  else if (["style", "script", "xmp", "iframe", "noembed", "noframes"].map String.toList).elem
      name then .rawtext name
  else .data

/-- A digit of a number with the base 16. -/
def hexDigit (c : Char) : Option Nat :=
  if c.isDigit then some (c.toNat - '0'.toNat)
  else if 'a' ≤ c ∧ c ≤ 'f' then some (c.toNat - 'a'.toNat + 10)
  else if 'A' ≤ c ∧ c ≤ 'F' then some (c.toNat - 'A'.toNat + 10)
  else none

def number (base : Nat) (digits : List Char) : Option Nat :=
  if digits = [] then none
  else digits.foldl (fun n c => n.bind (fun n =>
    ((hexDigit c).filter (· < base)).map (fun d => n * base + d))) (some 0)

/-- What a reference with a semicolon stands for. -/
def decode : List Char → Option Char
  | 'a' :: 'm' :: 'p' :: [] => some '&'
  | 'l' :: 't' :: [] => some '<'
  | 'g' :: 't' :: [] => some '>'
  | 'q' :: 'u' :: 'o' :: 't' :: [] => some '"'
  | 'a' :: 'p' :: 'o' :: 's' :: [] => some '\''
  | '#' :: 'x' :: digits => (number 16 digits).map Char.ofNat
  | '#' :: digits => (number 10 digits).map Char.ofNat
  | _ => none

/-- What is read in place of a character that is null. -/
def replacement : Mode → List Char
  | .data => []
  | _ => ['\ufffd']

/-- What a character of text is read as. -/
def readsAs (mode : Mode) (c : Char) : List Char :=
  if c = '\x00' then replacement mode else [c]

/-- What may begin with `<`. -/
def opened : Mode → State
  | .data => .tagOpen
  | .rcdata name => .possibleEnd (.rcdata name) name ['<']
  | .rawtext name => .possibleEnd (.rawtext name) name ['<']

/-- The modes in which references are read. -/
def Mode.hasReferences : Mode → Bool
  | .rawtext _ => false
  | _ => true

def chars (s : List Char) : List Token :=
  s.map Token.char

/-- A character of content. -/
def readContent (mode : Mode) (c : Char) : State × List Token :=
  if c = '<' then (opened mode, [])
  else if c = '&' ∧ mode.hasReferences = true then (.reference mode [], [])
  else (.content mode, chars (readsAs mode c))

/-- The end of a tag. -/
def finish (tag : Tag) : State × List Token :=
  (.content (if tag.closing then .data else contentMode tag.name), [.tag tag])

/-- Content after text that turned out to be content. -/
def unread (mode : Mode) (text : List Char) (c : Char) : State × List Token :=
  ((readContent mode c).1, chars text ++ (readContent mode c).2)

/-- One character. -/
def readChar : State → Char → State × List Token
  | .content mode, c => readContent mode c
  | .reference mode name, c =>
    if c = ';' then
      match decode name with
      | some d => (.content mode, [.char d])
      | none => (.content mode, chars ('&' :: name ++ [';']))
    else if c.isAlphanum ∨ c = '#' then (.reference mode (name ++ [c]), [])
    else unread mode ('&' :: name) c
  | .tagOpen, c =>
    if c = '/' then (.endTagOpen, [])
    else if c = '!' then (.markup [], [])
    else if c.isAlpha then (.tagName ⟨false, [c.toLower], []⟩, [])
    else unread .data ['<'] c
  | .endTagOpen, c =>
    if c.isAlpha then (.tagName ⟨true, [c.toLower], []⟩, [])
    else unread .data ['<', '/'] c
  | .markup text, c =>
    if c = '>' then (.content .data, [.doctype text]) else (.markup (text ++ [c]), [])
  | .tagName tag, c =>
    if c = '>' then finish tag
    else if isSpace c ∨ c = '/' then (.beforeAttribute tag, [])
    else (.tagName { tag with name := tag.name ++ [c.toLower] }, [])
  | .beforeAttribute tag, c =>
    if c = '>' then finish tag
    else if isSpace c ∨ c = '/' then (.beforeAttribute tag, [])
    else (.attributeName tag [c.toLower], [])
  | .attributeName tag name, c =>
    if c = '=' then (.beforeValue tag name, [])
    else if c = '>' then finish { tag with attributes := tag.attributes ++ [(name, [])] }
    else if isSpace c ∨ c = '/' then
      (.beforeAttribute { tag with attributes := tag.attributes ++ [(name, [])] }, [])
    else (.attributeName tag (name ++ [c.toLower]), [])
  | .beforeValue tag name, c =>
    if c = '"' ∨ c = '\'' then (.value tag name c [], [])
    else if isSpace c then (.beforeValue tag name, [])
    else (.value tag name ' ' [c], [])
  | .value tag name quote text, c =>
    if c = quote then
      (.beforeAttribute { tag with attributes := tag.attributes ++ [(name, text)] }, [])
    else if quote = ' ' ∧ c = '>' then
      finish { tag with attributes := tag.attributes ++ [(name, text)] }
    else (.value tag name quote (text ++ [c]), [])
  | .possibleEnd mode name text, c =>
    if text = '<' :: '/' :: name ∧ c = '>' then (.content .data, [.tag ⟨true, name, []⟩])
    else if (text ++ [c]).isPrefixOf ('<' :: '/' :: name) then
      (.possibleEnd mode name (text ++ [c]), [])
    else unread mode text c

/-- The tokenizer, with whether the last character was a carriage return. -/
structure Machine where
  afterReturn : Bool
  state : State
  deriving DecidableEq, Repr

/-- One character, after line breaks are normalized. -/
def read (m : Machine) (c : Char) : Machine × List Token :=
  if c = '\n' ∧ m.afterReturn = true then (⟨false, m.state⟩, [])
  else
    let result := readChar m.state (if c = '\r' then '\n' else c)
    (⟨decide (c = '\r'), result.1⟩, result.2)

def run (m : Machine) : List Char → Machine × List Token
  | [] => (m, [])
  | c :: s => ((run (read m c).1 s).1, (read m c).2 ++ (run (read m c).1 s).2)

/-- A text is read piece by piece. -/
theorem run_append (m : Machine) (s t : List Char) :
    run m (s ++ t) = ((run (run m s).1 t).1, (run m s).2 ++ (run (run m s).1 t).2) := by
  induction s generalizing m with
  | nil => rfl
  | cons c s ih =>
    rw [cons_append, run, ih, run]
    simp

end Tokens

section Trees

/-- A node of a document. -/
inductive Tree where
  | text (s : List Char)
  | element (name : List Char) (attributes : List (List Char × List Char)) (children : List Tree)

/-- An element that is open, with its children so far. -/
structure Frame where
  name : List Char
  attributes : List (List Char × List Char)
  children : List Tree

/-- A character after nodes, the last of which may be text. -/
def addChar (c : Char) : List Tree → List Tree
  | [] => [.text [c]]
  | [.text s] => [.text (s ++ [c])]
  | node :: nodes => node :: addChar c nodes

/-- The elements that have no content. -/
def isVoid (name : List Char) : Bool :=
  (["area", "base", "br", "col", "embed", "hr", "img", "input", "link", "meta", "source", "track",
    "wbr"].map String.toList).elem name

/-- What a token does to the open elements, the innermost first. The last is the document. -/
def build (frames : List Frame) (token : Token) : Option (List Frame) :=
  match frames, token with
  | [], _ => none
  | frame :: rest, .doctype _ => if rest = [] then some (frame :: rest) else none
  | frame :: rest, .char c =>
    if rest.isEmpty then if isSpace c then some (frame :: rest) else none
    else some ({ frame with children := addChar c frame.children } :: rest)
  | frame :: rest, .tag tag =>
    if tag.closing then
      match rest with
      | [] => none
      | outer :: rest =>
        if frame.name = tag.name then
          some ({ outer with
            children := outer.children ++ [.element frame.name frame.attributes frame.children] } ::
            rest)
        else none
    else if isVoid tag.name then
      some ({ frame with
        children := frame.children ++ [.element tag.name tag.attributes []] } :: rest)
    else some (⟨tag.name, tag.attributes, []⟩ :: frame :: rest)

/-- The nodes of a document, if its tags are all written. -/
def parse (s : List Char) : Option (List Tree) :=
  match (run ⟨false, .content .data⟩ s).2.foldlM build [⟨[], [], []⟩] with
  | some [document] => some document.children
  | _ => none

end Trees

section Writing

/-- A character that has a meaning in content or in a value is written as a reference. -/
def escapeChar (c : Char) : List Char :=
  if c = '&' then "&amp;".toList
  else if c = '<' then "&lt;".toList
  else if c = '>' then "&gt;".toList
  else if c = '"' then "&quot;".toList
  else if c = '\'' then "&#x27;".toList
  else [c]

def escape (s : List Char) : List Char :=
  s.flatMap escapeChar

/-- Text that was written, as it is read after a carriage return or after something else. -/
def clean (mode : Mode) : Bool → List Char → List Char
  | _, [] => []
  | afterReturn, c :: s =>
    (if c = '\n' ∧ afterReturn = true then []
      else readsAs mode (if c = '\r' then '\n' else c)) ++ clean mode (decide (c = '\r')) s

variable {mode : Mode} {c : Char} {s : List Char}

theorem run_reference (hmode : mode.hasReferences = true) (r : Bool) {w : List Char}
    (hw : (w, c) ∈ [("&amp;".toList, '&'), ("&lt;".toList, '<'),
      ("&gt;".toList, '>'), ("&quot;".toList, '"'), ("&#x27;".toList, '\'')]) :
    run ⟨r, .content mode⟩ w = (⟨false, .content mode⟩, [.char c]) := by
  cases mode with
  | rawtext name => cases hmode
  | data | rcdata name =>
    simp only [mem_cons, Prod.mk.injEq, not_mem_nil, or_false] at hw
    rcases hw with ⟨rfl, rfl⟩ | ⟨rfl, rfl⟩ | ⟨rfl, rfl⟩ | ⟨rfl, rfl⟩ | ⟨rfl, rfl⟩ <;> rfl

theorem readContent_plain (hamp : c = '&' → mode.hasReferences = false) (hlt : c ≠ '<') :
    readContent mode c = (.content mode, chars (readsAs mode c)) := by
  have hreference : ¬ (c = '&' ∧ mode.hasReferences = true) := by
    rintro ⟨hc, hmode⟩
    rw [hamp hc] at hmode
    cases hmode
  rw [readContent, if_neg hlt, if_neg hreference]

/-- A character of content that has no meaning. -/
theorem run_char (r : Bool) (hamp : c = '&' → mode.hasReferences = false) (hlt : c ≠ '<') :
    run ⟨r, .content mode⟩ [c] = (⟨decide (c = '\r'), .content mode⟩,
      chars (if c = '\n' ∧ r = true then [] else readsAs mode (if c = '\r' then '\n' else c))) := by
  by_cases hskip : c = '\n' ∧ r = true
  · rw [if_pos hskip, run, run, read, if_pos hskip, hskip.1]
    rfl
  · rw [if_neg hskip, run, run, read, if_neg hskip]
    by_cases hreturn : c = '\r'
    · rw [if_pos hreturn, readChar, readContent_plain (fun h => by cases h) (by decide)]
      simp
    · rw [if_neg hreturn, readChar, readContent_plain hamp hlt]
      simp

theorem run_escapeChar (hmode : mode.hasReferences = true) (r : Bool) (c : Char) :
    run ⟨r, .content mode⟩ (escapeChar c) = (⟨decide (c = '\r'), .content mode⟩,
      chars (if c = '\n' ∧ r = true then [] else readsAs mode (if c = '\r' then '\n' else c))) := by
  have href : ∀ w d, (w, d) ∈ [("&amp;".toList, '&'), ("&lt;".toList, '<'), ("&gt;".toList, '>'),
      ("&quot;".toList, '"'), ("&#x27;".toList, '\'')] → c = d →
      run ⟨r, .content mode⟩ w = (⟨decide (c = '\r'), .content mode⟩,
        chars (if c = '\n' ∧ r = true then []
          else readsAs mode (if c = '\r' then '\n' else c))) := by
    intro w d hw hcd
    rw [run_reference hmode r hw, hcd]
    simp only [mem_cons, Prod.mk.injEq, not_mem_nil, or_false] at hw
    rcases hw with ⟨-, rfl⟩ | ⟨-, rfl⟩ | ⟨-, rfl⟩ | ⟨-, rfl⟩ | ⟨-, rfl⟩ <;> rfl
  unfold escapeChar
  split
  · exact href _ '&' (by simp) ‹_›
  · split
    · exact href _ '<' (by simp) ‹_›
    · split
      · exact href _ '>' (by simp) ‹_›
      · split
        · exact href _ '"' (by simp) ‹_›
        · split
          · exact href _ '\'' (by simp) ‹_›
          · rename_i hamp hlt _ _ _
            exact run_char r (fun h => absurd h hamp) hlt

/-- Text that was written is read as it is cleaned. -/
theorem run_escape (hmode : mode.hasReferences = true) (r : Bool) (s : List Char) :
    ∃ r', run ⟨r, .content mode⟩ (escape s) =
      (⟨r', .content mode⟩, chars (clean mode r s)) := by
  induction s generalizing r with
  | nil => exact ⟨r, rfl⟩
  | cons c s ih =>
    rcases ih (decide (c = '\r')) with ⟨r', hrest⟩
    refine ⟨r', ?_⟩
    rw [escape, flatMap_cons, run_append, run_escapeChar hmode]
    dsimp only
    rw [← escape, hrest, clean, chars, chars, chars, map_append]

/-- Text without `<` is read as it is cleaned, where there are no references. -/
theorem run_rawtext (hmode : mode.hasReferences = false) (r : Bool) (h : '<' ∉ s) :
    ∃ r', run ⟨r, .content mode⟩ s = (⟨r', .content mode⟩, chars (clean mode r s)) := by
  induction s generalizing r with
  | nil => exact ⟨r, rfl⟩
  | cons c s ih =>
    rcases ih (decide (c = '\r')) (fun hs => h (mem_cons_of_mem _ hs)) with ⟨r', hrest⟩
    refine ⟨r', ?_⟩
    have hlt : c ≠ '<' := fun hc => h (by rw [hc]; exact mem_cons_self)
    rw [← singleton_append, run_append, run_char r (fun _ => hmode) hlt]
    dsimp only
    rw [hrest, singleton_append, clean, chars, chars, chars, map_append]

theorem mem_readsAs {d : Char} (h : c ∈ readsAs mode d) (hd : d ≠ '\r') :
    c ≠ '\r' ∧ c ≠ '\x00' := by
  rw [readsAs] at h
  by_cases hnull : d = '\x00'
  · rw [if_pos hnull] at h
    cases mode with
    | data => cases h
    | rcdata name | rawtext name =>
      rw [mem_singleton.mp h]
      decide
  · rw [if_neg hnull] at h
    rw [mem_singleton.mp h]
    exact ⟨hd, hnull⟩

theorem mem_clean {r : Bool} (h : c ∈ clean mode r s) : c ≠ '\r' ∧ c ≠ '\x00' := by
  induction s generalizing r with
  | nil => cases h
  | cons d s ih =>
    rw [clean] at h
    rcases mem_append.mp h with h | h
    · by_cases hskip : d = '\n' ∧ r = true
      · rw [if_pos hskip] at h
        cases h
      · rw [if_neg hskip] at h
        refine mem_readsAs h ?_
        by_cases hreturn : d = '\r'
        · rw [if_pos hreturn]
          decide
        · rw [if_neg hreturn]
          exact hreturn
    · exact ih h

/-- Text is read as it is iff it has no carriage return and no null. -/
theorem clean_eq_self_iff : clean mode false s = s ↔ ∀ c ∈ s, c ≠ '\r' ∧ c ≠ '\x00' := by
  constructor
  · intro h c hc
    rw [← h] at hc
    exact mem_clean hc
  · intro h
    induction s with
    | nil => rfl
    | cons c s ih =>
      rcases h c mem_cons_self with ⟨hreturn, hnull⟩
      have hskip : ¬ (c = '\n' ∧ false = true) := fun hboth => absurd hboth.2 Bool.false_ne_true
      rw [clean, if_neg hskip, if_neg hreturn, readsAs, if_neg hnull, decide_eq_false hreturn,
        ih (fun d hd => h d (mem_cons_of_mem _ hd))]
      rfl

end Writing

section Emitting

/-- The machine in markup. -/
def start : Machine :=
  ⟨false, .content .data⟩

/-- A text that is read from content to content. -/
def Emits (s : List Char) (tokens : List Token) : Prop :=
  run start s = (start, tokens)

variable {s name : List Char} {c : Char}

theorem Emits.append {s' : List Char} {t t' : List Token} (h : Emits s t) (h' : Emits s' t') :
    Emits (s ++ s') (t ++ t') := by
  unfold Emits at *
  rw [run_append, h, h']

def openTag (name : List Char) : List Char :=
  '<' :: name ++ ['>']

def closeTag (name : List Char) : List Char :=
  '<' :: '/' :: name ++ ['>']

/-- A name of a tag that is written in small letters and digits. -/
def PlainName (name : List Char) : Prop :=
  ∃ c s, name = c :: s ∧ c.isAlpha = true ∧ ∀ d ∈ name, d.toLower = d ∧ d.isAlphanum = true

instance (name : List Char) : Decidable (PlainName name) :=
  match name with
  | [] => isFalse (by rintro ⟨c, s, h, -⟩; cases h)
  | c :: s => decidable_of_iff (c.isAlpha = true ∧
      (c :: s).all (fun d => decide (d.toLower = d ∧ d.isAlphanum = true)) = true) (by
    simp only [List.all_eq_true, decide_eq_true_eq]
    constructor
    · rintro ⟨hc, hs⟩
      exact ⟨c, s, rfl, hc, hs⟩
    · rintro ⟨c', s', heq, hc, hs⟩
      rw [(List.cons.inj heq).1]
      exact ⟨hc, (List.cons.inj heq).1 ▸ hs⟩)

/-- A character that is not a line break is read alike after a carriage return. -/
theorem run_of_ne (r : Bool) (state : State) (h : c ≠ '\n') (s : List Char) :
    run ⟨r, state⟩ (c :: s) = run ⟨false, state⟩ (c :: s) := by
  have hskip : ∀ r, ¬ (c = '\n' ∧ r = true) := fun _ hboth => h hboth.1
  rw [run, run, read, read, if_neg (hskip r), if_neg (hskip false)]

/-- A letter or a digit is no character that ends a name. -/
theorem not_end_of_isAlphanum (h : c.isAlphanum = true) :
    c ≠ '>' ∧ ¬ (isSpace c = true ∨ c = '/') ∧ c ≠ '\n' ∧ c ≠ '\r' ∧ c ≠ '!' := by
  have hne : ∀ d : Char, d.isAlphanum = false → c ≠ d := by
    intro d hd hc
    rw [hc, hd] at h
    cases h
  refine ⟨hne _ (by decide), ?_, hne _ (by decide), hne _ (by decide), hne _ (by decide)⟩
  simp only [isSpace, Bool.or_eq_true, decide_eq_true_eq, not_or]
  exact ⟨⟨⟨⟨hne _ (by decide), hne _ (by decide)⟩, hne _ (by decide)⟩, hne _ (by decide)⟩,
    hne _ (by decide)⟩

theorem run_tagName {tag : Tag} (h : ∀ d ∈ s, d.toLower = d ∧ d.isAlphanum = true) :
    run ⟨false, .tagName tag⟩ (s ++ ['>']) =
      (⟨false, (finish { tag with name := tag.name ++ s }).1⟩,
        (finish { tag with name := tag.name ++ s }).2) := by
  induction s generalizing tag with
  | nil =>
    rw [append_nil]
    rfl
  | cons c s ih =>
    rcases h c mem_cons_self with ⟨hlower, halnum⟩
    rcases not_end_of_isAlphanum halnum with ⟨hend, hspace, hbreak, hreturn, -⟩
    have hskip : ¬ (c = '\n' ∧ false = true) := fun hboth => hbreak hboth.1
    have hread : read ⟨false, .tagName tag⟩ c =
        (⟨false, .tagName { tag with name := tag.name ++ [c] }⟩, []) := by
      rw [read, if_neg hskip, if_neg hreturn, readChar, if_neg hend, if_neg hspace, hlower,
        decide_eq_false hreturn]
    rw [cons_append, run, hread, ih (fun d hd => h d (mem_cons_of_mem _ hd))]
    simp

/-- A tag that opens an element. -/
theorem run_open (hname : PlainName name) (r : Bool) :
    run ⟨r, .content .data⟩ (openTag name) =
      (⟨false, .content (contentMode name)⟩, [.tag ⟨false, name, []⟩]) := by
  rcases hname with ⟨c, s, rfl, halpha, hall⟩
  rcases hall c mem_cons_self with ⟨hlower, halnum⟩
  rcases not_end_of_isAlphanum halnum with ⟨-, hspace, hbreak, hreturn, hbang⟩
  have hskip : ¬ (c = '\n' ∧ false = true) := fun hboth => hbreak hboth.1
  have hread : read ⟨false, .tagOpen⟩ c = (⟨false, .tagName ⟨false, [c], []⟩⟩, []) := by
    rw [read, if_neg hskip, if_neg hreturn, readChar, if_neg (fun h => hspace (.inr h)),
      if_neg hbang, if_pos halpha, hlower, decide_eq_false hreturn]
  have hopen : read ⟨false, .content .data⟩ '<' = (⟨false, .tagOpen⟩, []) := rfl
  rw [openTag, cons_append, run_of_ne r _ (by decide), run, hopen, cons_append, run,
    hread,
    run_tagName (fun d hd => hall d (mem_cons_of_mem _ hd))]
  rfl

/-- A tag that closes an element. -/
theorem run_close (hname : PlainName name) (r : Bool) :
    run ⟨r, .content .data⟩ (closeTag name) =
      (start, [.tag ⟨true, name, []⟩]) := by
  rcases hname with ⟨c, s, rfl, halpha, hall⟩
  rcases hall c mem_cons_self with ⟨hlower, halnum⟩
  rcases not_end_of_isAlphanum halnum with ⟨-, -, hbreak, hreturn, -⟩
  have hskip : ¬ (c = '\n' ∧ false = true) := fun hboth => hbreak hboth.1
  have hread : read ⟨false, .endTagOpen⟩ c = (⟨false, .tagName ⟨true, [c], []⟩⟩, []) := by
    rw [read, if_neg hskip, if_neg hreturn, readChar, if_pos halpha, hlower,
      decide_eq_false hreturn]
  have hopen : read ⟨false, .content .data⟩ '<' = (⟨false, .tagOpen⟩, []) := rfl
  have hslash : read ⟨false, .tagOpen⟩ '/' = (⟨false, .endTagOpen⟩, []) := rfl
  rw [closeTag, cons_append, cons_append, run_of_ne r _ (by decide), run, hopen, run,
    hslash, cons_append, run, hread,
    run_tagName (fun d hd => hall d (mem_cons_of_mem _ hd))]
  rfl

/-- An element of markup. -/
theorem emits_element (hname : PlainName name) (hmode : contentMode name = .data)
    {tokens : List Token} {r : Bool} (h : run start s = (⟨r, .content .data⟩, tokens)) :
    Emits (openTag name ++ s ++ closeTag name)
      (.tag ⟨false, name, []⟩ :: tokens ++ [.tag ⟨true, name, []⟩]) := by
  have hopen := run_open hname false
  rw [hmode] at hopen
  unfold Emits
  rw [run_append, run_append, start, hopen]
  dsimp only
  rw [← start, h]
  dsimp only
  rw [run_close hname]
  simp

end Emitting

section Building

/-- Whether a node is text. -/
def Tree.isText : Tree → Bool
  | .text _ => true
  | .element _ _ _ => false

/-- The text node of a text, if there is any text. -/
def textNode (s : List Char) : List Tree :=
  if s = [] then [] else [.text s]

/-- Nodes that may follow others: not text after text. -/
def Follow (nodes nodes' : List Tree) : Prop :=
  (nodes'.head?.map Tree.isText = some true) → (nodes.getLast?.map Tree.isText ≠ some true)

/-- Tokens that add nodes to the element that is open. -/
def Builds (tokens : List Token) (nodes : List Tree) : Prop :=
  ∀ name attributes children outer rest, Follow children nodes →
    tokens.foldlM build (⟨name, attributes, children⟩ :: outer :: rest) =
      some (⟨name, attributes, children ++ nodes⟩ :: outer :: rest)

variable {nodes : List Tree}

theorem addChar_node (h : nodes.getLast?.map Tree.isText ≠ some true) (c : Char) :
    addChar c nodes = nodes ++ [.text [c]] := by
  induction nodes with
  | nil => rfl
  | cons node nodes ih =>
    cases nodes with
    | nil =>
      cases node with
      | text s => exact absurd rfl h
      | element name attributes children => rfl
    | cons node' nodes =>
      rw [List.getLast?_cons_cons] at h
      rw [addChar, ih h]
      · rfl
      · simp

theorem addChar_text (nodes : List Tree) (s : List Char) (c : Char) :
    addChar c (nodes ++ [.text s]) = nodes ++ [.text (s ++ [c])] := by
  induction nodes with
  | nil => rfl
  | cons node nodes ih =>
    cases nodes with
    | nil =>
      cases node with
      | text s' => rfl
      | element name attributes children => rfl
    | cons node' nodes =>
      rw [cons_append, cons_append, addChar]
      · rw [← cons_append, ih]
        rfl
      · simp

theorem build_char (name : List Char) (attributes : List (List Char × List Char))
    (children : List Tree) (outer : Frame) (rest : List Frame) (c : Char) :
    build (⟨name, attributes, children⟩ :: outer :: rest) (.char c) =
      some (⟨name, attributes, addChar c children⟩ :: outer :: rest) :=
  rfl

/-- Characters after text go on with it. -/
theorem foldlM_chars (name : List Char) (attributes : List (List Char × List Char))
    (children : List Tree) (outer : Frame) (rest : List Frame) (s t : List Char) :
    (chars t).foldlM build (⟨name, attributes, children ++ [.text s]⟩ :: outer :: rest) =
      some (⟨name, attributes, children ++ [.text (s ++ t)]⟩ :: outer :: rest) := by
  induction t generalizing s with
  | nil =>
    rw [append_nil]
    rfl
  | cons c t ih =>
    rw [chars, map_cons, foldlM_cons, build_char, addChar_text, Option.bind_eq_bind,
      Option.bind_some, ← chars, ih, append_assoc, singleton_append]

/-- Characters are one text. -/
theorem builds_chars (s : List Char) : Builds (chars s) (textNode s) := by
  intro name attributes children outer rest hfollow
  cases s with
  | nil =>
    rw [textNode, if_pos rfl, append_nil]
    rfl
  | cons c s =>
    have hnode : textNode (c :: s) = [.text (c :: s)] := if_neg (cons_ne_nil c s)
    rw [hnode] at hfollow ⊢
    rw [chars, map_cons, foldlM_cons, build_char, addChar_node (hfollow rfl),
      Option.bind_eq_bind, Option.bind_some, ← chars, foldlM_chars, singleton_append]

/-- The tokens of an element. -/
theorem builds_element {name : List Char} (attributes : List (List Char × List Char))
    (hname : isVoid name = false) {tokens : List Token} (h : Builds tokens nodes) :
    Builds (.tag ⟨false, name, attributes⟩ :: tokens ++ [.tag ⟨true, name, []⟩])
      [.element name attributes nodes] := by
  intro name' attributes' children outer rest _
  have hopen : build (⟨name', attributes', children⟩ :: outer :: rest)
      (.tag ⟨false, name, attributes⟩) =
      some (⟨name, attributes, []⟩ :: ⟨name', attributes', children⟩ :: outer :: rest) := by
    simp [build, hname]
  have hclose : build (⟨name, attributes, nodes⟩ :: ⟨name', attributes', children⟩ :: outer :: rest)
      (.tag ⟨true, name, []⟩) =
      some (⟨name', attributes', children ++ [.element name attributes nodes]⟩ :: outer ::
        rest) := by
    simp [build]
  have hnone : ([] : List Tree).getLast?.map Tree.isText ≠ some true :=
    fun heq => by cases heq
  rw [cons_append, foldlM_cons, hopen, Option.bind_eq_bind, Option.bind_some,
    foldlM_append, h name attributes [] _ _ (fun _ => hnone), nil_append,
    Option.bind_eq_bind, Option.bind_some, foldlM_cons, hclose]
  rfl

theorem builds_nil : Builds [] [] := by
  intro name attributes children outer rest _
  rw [append_nil]
  rfl

/-- Nodes after nodes. -/
theorem builds_append {t t' : List Token} {n n' : List Tree} (h : Builds t n) (h' : Builds t' n')
    (hfollow : n ≠ [] → Follow n n') : Builds (t ++ t') (n ++ n') := by
  intro name attributes children outer rest hchildren
  have hfirst : Follow children n := by
    intro hhead
    refine hchildren ?_
    cases n with
    | nil => cases hhead
    | cons node nodes => exact hhead
  have hsecond : Follow (children ++ n) n' := by
    intro hhead
    by_cases hn : n = []
    · rw [hn, append_nil]
      refine hchildren ?_
      rw [hn]
      exact hhead
    · rw [List.getLast?_append_of_ne_nil _ hn]
      exact hfollow hn hhead
  rw [foldlM_append, h name attributes children outer rest hfirst, Option.bind_eq_bind,
    Option.bind_some, h' name attributes _ outer rest hsecond, append_assoc]

end Building

end Html
