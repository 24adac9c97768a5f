import Mathlib.Data.List.DropRight

/-!
# Lines of Markdown

What the lines of a Markdown text are: headings of both forms, bullets, rows of tables, blank or
lines of a paragraph, or something else.

A line is read with the block that is open before it. An underline makes a heading of an open
paragraph, an empty bullet does not interrupt one, a paragraph goes on in an item, and a row of a
table goes on until a line is blank or begins something else. A table begins where the next
line is a delimiter row with as many cells.

Fences, quotes, numbered items, blocks of HTML or of code and thematic breaks are something else,
and so is every block inside of an item but a paragraph. Only the line that begins one is told
apart, and nothing is said of the lines that follow it. Definitions of links and all that is
inside of a line are text.

A blank line closes whatever is open but an item, which goes on with a line that is indented.
Blocks with blank lines between them are read each by itself if none is indented after an item.

## Main definitions

* `lines`: The lines of a text that a line break ends.
* `rowCells`: The cells of a line, which pipes without a backslash before them separate.
* `begins`: Whether a line begins a block that is something else.
* `readLine`, `kinds`: What a line is, and what each line is.
* `writeRow`: A row of a table with a pipe at both ends.

## Theorems

* `lines_append`: Lines after lines.
* `kinds_append_blank`: Lines after a blank line.
* `kinds_flush`: A line that is not indented ends an item after a blank line.
* `rowCells_writeRow`: The cells of a row are the parts of its texts.
* `kinds_header`: A table begins iff its header has as many cells as its delimiter row.
* `kinds_rows`: The rows of a table.
-/

namespace Markdown

open List

section Lines

/-- A character in front of the first line. -/
def consLine (c : Char) : List (List Char) → List (List Char)
  | [] => [[c]]
  | l :: ls => (c :: l) :: ls

/-- Whether a carriage return is one with the line break that follows or ends the text. -/
def joined (c : Char) (s : List Char) : Bool :=
  c = '\r' && (s.head?.isNone || s.head? = some '\n')

/-- The lines of a text that a line break ends. -/
def lines : List Char → List (List Char)
  | [] => [[]]
  | c :: s =>
    if joined c s then lines s
    else if c = '\n' ∨ c = '\r' then [] :: lines s
    else consLine c (lines s)

/-- The lines of a file that ends with a line break. -/
def fileLines (s : List Char) : List (List Char) :=
  (lines s).dropLast

variable {ls : List (List Char)} {s : List Char}

theorem consLine_append (c : Char) (h : ls ≠ []) (ls' : List (List Char)) :
    consLine c (ls ++ ls') = consLine c ls ++ ls' := by
  cases ls with
  | nil => exact absurd rfl h
  | cons l ls => rfl

theorem lines_ne_nil (s : List Char) : lines s ≠ [] := by
  induction s with
  | nil => exact cons_ne_nil _ _
  | cons c s ih =>
    rw [lines]
    split
    · exact ih
    · split
      · exact cons_ne_nil _ _
      · cases h : lines s with
        | nil => exact absurd h ih
        | cons l ls => exact cons_ne_nil _ _

/-- Lines after lines. -/
theorem lines_append (s t : List Char) : lines (s ++ '\n' :: t) = lines s ++ lines t := by
  induction s with
  | nil => rfl
  | cons c s ih =>
    have hjoined : joined c (s ++ '\n' :: t) = joined c s := by
      cases s <;> rfl
    rw [cons_append, lines, lines, hjoined, ih]
    split
    · rfl
    · split
      · rfl
      · exact consLine_append c (lines_ne_nil s) _

theorem fileLines_concat (s : List Char) : fileLines (s ++ ['\n']) = lines s := by
  rw [fileLines, lines_append]
  exact dropLast_concat

/-- A text is one line iff it has no end of a line, but for a carriage return at its end. -/
theorem lines_of_free (h : ∀ c ∈ s, c ≠ '\n' ∧ c ≠ '\r') : lines s = [s] := by
  induction s with
  | nil => rfl
  | cons c s ih =>
    rcases h c mem_cons_self with ⟨hbreak, hreturn⟩
    have hjoined : joined c s = false := by
      rw [joined, decide_eq_false hreturn, Bool.false_and]
    rw [lines, hjoined, if_neg Bool.false_ne_true, if_neg (not_or.mpr ⟨hbreak, hreturn⟩),
      ih (fun d hd => h d (mem_cons_of_mem _ hd))]
    rfl

theorem length_consLine (c : Char) (h : ls ≠ []) : (consLine c ls).length = ls.length := by
  cases ls with
  | nil => exact absurd rfl h
  | cons l ls => rfl

/-- A text that is one line and does not end with a carriage return has no end of a line. -/
theorem free_of_length_lines (h : (lines s).length = 1) (hlast : s.getLast? ≠ some '\r') :
    ∀ c ∈ s, c ≠ '\n' ∧ c ≠ '\r' := by
  induction s with
  | nil => exact fun c hc => absurd hc not_mem_nil
  | cons c s ih =>
    have hrest : s.getLast? ≠ some '\r' := by
      cases s with
      | nil => exact fun heq => by cases heq
      | cons d s => rwa [List.getLast?_cons_cons] at hlast
    rw [lines] at h
    by_cases hj : joined c s = true
    · -- What follows a carriage return that is joined is a line break.
      rw [if_pos hj] at h
      rcases Bool.and_eq_true_iff.mp hj with ⟨hc, hs⟩
      cases s with
      | nil =>
        rw [of_decide_eq_true hc] at hlast
        exact absurd rfl hlast
      | cons d s =>
        have hd : d = '\n' := by
          simpa using hs
        exact absurd hd (ih h hrest d mem_cons_self).1
    · rw [if_neg hj] at h
      by_cases hend : c = '\n' ∨ c = '\r'
      · rw [if_pos hend, length_cons] at h
        have hpos := length_pos_of_ne_nil (lines_ne_nil s)
        omega
      · rw [if_neg hend, length_consLine c (lines_ne_nil s)] at h
        intro d hd
        rcases mem_cons.mp hd with hd | hd
        · rw [hd]
          exact not_or.mp hend
        · exact ih h hrest d hd

end Lines

section Forms

def isBlankChar (c : Char) : Bool :=
  c = ' ' || c = '\t'

def isBlank (l : List Char) : Bool :=
  l.all isBlankChar

def trim (l : List Char) : List Char :=
  (l.dropWhile isBlankChar).rdropWhile isBlankChar

/-- The column after the white space that a line begins with. A tab ends at a multiple of four. -/
def column (start : Nat) : List Char → Nat
  | [] => start
  | c :: s =>
    if c = ' ' then column (start + 1) s
    else if c = '\t' then column (start + (4 - start % 4)) s
    else start

def content (l : List Char) : List Char :=
  l.dropWhile isBlankChar

def endsOrBlank : List Char → Bool
  | [] => true
  | c :: _ => isBlankChar c

/-- `# heading`. -/
def isAtx (b : List Char) : Bool :=
  0 < (b.takeWhile (· = '#')).length && (b.takeWhile (· = '#')).length ≤ 6 &&
    endsOrBlank (b.dropWhile (· = '#'))

/-- The line under a heading. -/
def isUnderline (b : List Char) : Bool :=
  b.rdropWhile isBlankChar ≠ [] &&
    ((b.rdropWhile isBlankChar).all (· = '=') || (b.rdropWhile isBlankChar).all (· = '-'))

/-- A thematic break. -/
def isBreak (b : List Char) : Bool :=
  match b.filter (fun c => !isBlankChar c) with
  | [] => false
  | c :: s => (c = '-' || c = '_' || c = '*') && s.all (· = c) && 2 ≤ s.length

/-- `- bullet`. -/
def isBullet : List Char → Bool
  | [] => false
  | c :: s => (c = '-' || c = '+' || c = '*') && endsOrBlank s

/-- The parts between pipes that no backslash stands before. -/
def splitRow : Bool → List Char → List (List Char)
  | _, [] => [[]]
  | escaped, c :: s =>
    if c = '|' ∧ escaped = false then [] :: splitRow false s
    else consLine c (splitRow (decide (c = '\\')) s)

/-- The cells of a line. A pipe at its beginning and one at its end separate nothing. -/
def rowCells (l : List Char) : List (List Char) :=
  let parts := splitRow false (trim l)
  let parts := if parts.head? = some [] then parts.tail else parts
  if parts.getLast? = some [] then parts.dropLast else parts

/-- `:---:`, with or without the colons. -/
def isMarker (cell : List Char) : Bool :=
  let dashes := (match trim cell with
    | ':' :: s => s
    | s => s)
  let dashes := if dashes.getLast? = some ':' then dashes.dropLast else dashes
  dashes ≠ [] && dashes.all (· = '-')

/-- A delimiter row, in a block that begins at a column. -/
def isDelimiter (start : Nat) (l : List Char) : Bool :=
  start ≤ column 0 l && column 0 l ≤ start + 3 && !isAtx (content l) &&
    !isUnderline (content l) && !isBreak (content l) && !isBullet (content l) &&
    rowCells l ≠ [] && (rowCells l).all isMarker

/-- Whether a line is the header of a table, by the line that follows. -/
def startsTable (start : Nat) (l : List Char) : List (List Char) → Bool
  | [] => false
  | d :: _ => isDelimiter start d && (rowCells d).length = (rowCells l).length

/-- A fence. What follows the back quotes has none. -/
def isFence (b : List Char) : Bool :=
  3 ≤ (b.takeWhile (· = '~')).length ||
    (3 ≤ (b.takeWhile (· = Char.ofNat 96)).length &&
      !(b.dropWhile (· = Char.ofNat 96)).elem (Char.ofNat 96))

/-- `1. item`. In a paragraph it has to be the first one, and not empty. -/
def isOrdered (inParagraph : Bool) (b : List Char) : Bool :=
  let digits := b.takeWhile Char.isDigit
  match b.dropWhile Char.isDigit with
  | [] => false
  | c :: s => digits ≠ [] && digits.length ≤ 9 && (c = '.' || c = ')') && endsOrBlank s &&
    (!inParagraph || (digits.dropWhile (· = '0') = ['1'] && !isBlank s))

/-- The tags that begin a block of HTML wherever they stand. -/
def blockTags : List (List Char) :=
  ["address", "article", "aside", "base", "basefont", "blockquote", "body", "caption", "center",
    "col", "colgroup", "dd", "details", "dialog", "dir", "div", "dl", "dt", "fieldset",
    "figcaption", "figure", "footer", "form", "frame", "frameset", "h1", "h2", "h3", "h4", "h5",
    "h6", "head", "header", "hr", "html", "iframe", "legend", "li", "link", "main", "menu",
    "menuitem", "nav", "noframes", "ol", "optgroup", "option", "p", "param", "section", "source",
    "summary", "table", "tbody", "td", "tfoot", "th", "thead", "title", "tr", "track",
    "ul"].map String.toList

/-- The tags of raw text. -/
def rawTags : List (List Char) :=
  ["script", "pre", "style", "textarea"].map String.toList

def isTagChar (c : Char) : Bool :=
  c.isAlphanum || c = '-'

def tagName (s : List Char) : List Char :=
  (s.takeWhile isTagChar).map Char.toLower

/-- Whether the name of a tag ends here. -/
def endsName (slash : Bool) : List Char → Bool
  | [] => true
  | c :: s => isBlankChar c || c = '>' || (slash && c = '/' && s.head? = some '>')

/-- Where a tag is read. -/
inductive TagPlace where
  | name
  | gap
  | attribute
  | afterAttribute
  | equals
  | bare
  | quoted (quote : Char)
  | unquoted
  | slash
  | done

def isAttributeStart (c : Char) : Bool :=
  c.isAlpha || c = '_' || c = ':'

def isTagSpace (c : Char) : Bool :=
  isBlankChar c || c = Char.ofNat 11 || c = Char.ofNat 12

/-- What the end of a tag, and white space before it, may follow. -/
def closeTag (c : Char) : Option TagPlace :=
  if isTagSpace c then some .gap
  else if c = '/' then some .slash
  else if c = '>' then some .done
  else none

/-- The next place, unless the tag is broken. -/
def TagPlace.next (c : Char) : TagPlace → Option TagPlace
  | .name => if isTagChar c then some .name else closeTag c
  | .gap => if isAttributeStart c then some .attribute else closeTag c
  | .attribute =>
    if isAttributeStart c || c.isDigit || c = '.' || c = '-' then some .attribute
    else if c = '=' then some .equals
    else if isTagSpace c then some .afterAttribute
    else closeTag c
  | .afterAttribute =>
    if isAttributeStart c then some .attribute
    else if c = '=' then some .equals
    else if isTagSpace c then some .afterAttribute
    else closeTag c
  | .equals =>
    if isTagSpace c then some .equals
    else if c = '"' || c = '\'' then some (.quoted c)
    else if c = '=' || c = '<' || c = '>' || c = Char.ofNat 96 then none
    else some .bare
  | .bare =>
    if isTagSpace c then some .gap
    else if c = '>' then some .done
    else if c = '"' || c = '\'' || c = '=' || c = '<' || c = Char.ofNat 96 then none
    else some .bare
  | .quoted quote => if c = quote then some .unquoted else some (.quoted quote)
  | .unquoted => closeTag c
  | .slash => if c = '>' then some .done else none
  | .done => if isTagSpace c then some .done else none

/-- Whether a tag, with white space behind it, is all that follows. -/
def isTagAlone (place : TagPlace) : List Char → Bool
  | [] => match place with
    | .done => true
    | _ => false
  | c :: s => match place.next c with
    | some place' => isTagAlone place' s
    | none => false

/-- The end tag that is all that follows. -/
def isEndTagAlone (s : List Char) : Bool :=
  let rest := (s.dropWhile isTagChar).dropWhile isTagSpace
  rest.head? = some '>' && rest.tail.all isTagSpace

/-- The beginning of a block of HTML. A tag of another name has to be alone on its line, and does
    not interrupt a paragraph. -/
def isHtml (inParagraph : Bool) : List Char → Bool
  | '<' :: '/' :: s =>
    (blockTags.elem (tagName s) && endsName true (s.dropWhile isTagChar)) ||
      (!inParagraph && (s.head?.map Char.isAlpha).getD false && isEndTagAlone s)
  | '<' :: '!' :: s =>
    s.take 2 = ['-', '-'] || (s.head?.map Char.isAlpha).getD false || s.take 7 = "[CDATA[".toList
  | '<' :: '?' :: _ => true
  | '<' :: s =>
    (rawTags.elem (tagName s) && endsName false (s.dropWhile isTagChar)) ||
      (blockTags.elem (tagName s) && endsName true (s.dropWhile isTagChar)) ||
      (!inParagraph && (s.head?.map Char.isAlpha).getD false && !rawTags.elem (tagName s) &&
        isTagAlone .name s)
  | _ => false

/-- The beginning of a block that is no heading, bullet or paragraph. -/
def begins (inParagraph : Bool) (b : List Char) : Bool :=
  isBreak b || isFence b || b.head? = some '>' || isOrdered inParagraph b || isHtml inParagraph b

end Forms

section Kinds

/-- A blank line is text. No line is `never`: it stands for what Markdown cannot write. -/
inductive LineKind where
  | heading
  | bullet
  | table (cells : Nat)
  | text
  | other
  | never
  deriving DecidableEq, Repr

/-- What is open in an item. It is empty if nothing follows the bullet. -/
inductive Inner where
  | empty
  | paragraph
  | blank
  deriving DecidableEq, Repr

/-- The block that is open. What is in an item begins two columns after its margin. -/
inductive Block where
  | none
  | paragraph
  | item (margin : Nat) (inner : Inner)
  | table
  deriving DecidableEq, Repr

/-- What is open after a blank line. -/
def closed : Block → Block
  | .none => .none
  | .paragraph => .none
  | .table => .none
  | .item _ .empty => .none
  | .item margin .paragraph => .item margin .blank
  | .item margin .blank => .item margin .blank

/-- A bullet, and what is under it. -/
def readBullet (indent : Nat) (s : List Char) (rest : List (List Char)) : LineKind × Block :=
  let start := column (indent + 1) s
  if isBlank s then (.bullet, .item indent .empty)
  else if indent + 6 ≤ start || isAtx (content s) || begins false (content s) ||
      isBullet (content s) || startsTable start (content s) rest then (.other, .none)
  else (.bullet, .item (start - 2) .paragraph)

/-- A line in an item. -/
def readInner (margin : Nat) (inParagraph : Bool) (l : List Char) (rest : List (List Char)) :
    LineKind × Block :=
  if (if margin + 6 ≤ column 0 l then !inParagraph
      else isAtx (content l) || (inParagraph && isUnderline (content l)) ||
        begins inParagraph (content l) ||
        (isBullet (content l) && (!inParagraph || !isBlank (content l).tail)) ||
        startsTable (margin + 2) (content l) rest) then (.other, .none)
  else (.text, .item margin .paragraph)

/-- A line that is in no item, in an open paragraph or not. `continued` is what it is if it begins
    nothing. -/
def readOuter (inParagraph underlined : Bool) (continued : LineKind × Block) (l : List Char)
    (rest : List (List Char)) : LineKind × Block :=
  if isAtx (content l) || (underlined && isUnderline (content l)) then (.heading, .none)
  else if begins inParagraph (content l) then (.other, .none)
  else if isBullet (content l) && (!inParagraph || !isBlank (content l).tail) then
    readBullet (column 0 l) (content l).tail rest
  else continued

/-- A line of a paragraph, or the header of a table. -/
def paragraphLine (l : List Char) (rest : List (List Char)) : LineKind × Block :=
  if startsTable 0 l rest then (.table (rowCells l).length, .table) else (.text, .paragraph)

/-- What a line is that is not blank, where nothing is open. -/
def readFresh (l : List Char) (rest : List (List Char)) : LineKind × Block :=
  if 4 ≤ column 0 l then (.other, .none)
  else readOuter false false (paragraphLine l rest) l rest

/-- What a line is, and what is open after it. -/
def readLine (block : Block) (l : List Char) (rest : List (List Char)) : LineKind × Block :=
  if isBlank l then (.text, closed block)
  else match block with
    | .none => readFresh l rest
    | .table =>
      if 4 ≤ column 0 l then (.other, .none)
      else readOuter false false (.table (rowCells l).length, .table) l rest
    | .paragraph =>
      if 4 ≤ column 0 l then (.text, .paragraph)
      else readOuter true true (paragraphLine l rest) l rest
    | .item margin inner =>
      if margin + 2 ≤ column 0 l then readInner margin (inner = .paragraph) l rest
      -- The paragraph of an item goes on without the margin.
      else if inner = .paragraph then
        if 4 ≤ column 0 l then (.text, .item margin .paragraph)
        else readOuter false false (.text, .item margin .paragraph) l rest
      else readFresh l rest

/-- What each line is. -/
def kinds : Block → List (List Char) → List LineKind
  | _, [] => []
  | block, l :: rest =>
    (readLine block l rest).1 :: kinds (readLine block l rest).2 rest

/-- What is open after lines. -/
def after : Block → List (List Char) → Block
  | block, [] => block
  | block, l :: rest => after (readLine block l rest).2 rest

theorem startsTable_append_blank (start : Nat) (l : List Char) (ls rest : List (List Char)) :
    startsTable start l (ls ++ [] :: rest) = startsTable start l ls := by
  cases ls with
  | nil =>
    rw [nil_append, startsTable, startsTable, isDelimiter]
    simp [show rowCells [] = [] from rfl]
  | cons d ls => rfl

theorem readLine_append_blank (block : Block) (l : List Char) (ls rest : List (List Char)) :
    readLine block l (ls ++ [] :: rest) = readLine block l ls := by
  unfold readLine readFresh readInner readOuter readBullet paragraphLine
  simp only [startsTable_append_blank]

/-- Lines after a blank line. -/
theorem kinds_append_blank (block : Block) (ls rest : List (List Char)) :
    kinds block (ls ++ [] :: rest) =
      kinds block ls ++ .text :: kinds (closed (after block ls)) rest := by
  induction ls generalizing block with
  | nil => rfl
  | cons l ls ih =>
    rw [cons_append, kinds, readLine_append_blank, ih, kinds, cons_append, after]

/-- A line that is not indented ends an item after a blank line. -/
theorem kinds_flush (block : Block) {l : List Char} (hblank : isBlank l = false)
    (hcolumn : column 0 l < 2) (rest : List (List Char)) :
    kinds (closed block) (l :: rest) = kinds .none (l :: rest) := by
  have hread : readLine (closed block) l rest = readLine .none l rest := by
    have hitem : ∀ margin, readLine (.item margin .blank) l rest = readLine .none l rest := by
      intro margin
      have hmargin : ¬ margin + 2 ≤ column 0 l := by omega
      simp [readLine, hblank, if_neg hmargin]
    cases block with
    | none => rfl
    | paragraph => rfl
    | table => rfl
    | item margin inner =>
      cases inner with
      | empty => rfl
      | paragraph => exact hitem margin
      | blank => exact hitem margin
  rw [kinds, kinds, hread]

def Block.isItem : Block → Bool
  | .item _ _ => true
  | _ => false

variable {block : Block}

theorem closed_of_not_item (h : block.isItem = false) : closed block = .none := by
  cases block with
  | none => rfl
  | paragraph => rfl
  | table => rfl
  | item margin inner => cases h

/-- What a line that is not `never` leaves: an item is open after a bullet, or after an item. -/
theorem readOuter_cases (inParagraph underlined : Bool) (continued : LineKind × Block)
    (l : List Char) (rest : List (List Char)) :
    readOuter inParagraph underlined continued l rest = continued ∨
      (readOuter inParagraph underlined continued l rest).1 = .bullet ∨
      ((readOuter inParagraph underlined continued l rest).1 ≠ .never ∧
        (readOuter inParagraph underlined continued l rest).2 = .none) := by
  unfold readOuter readBullet
  split
  · exact .inr (.inr ⟨fun h => (by cases h), rfl⟩)
  split
  · exact .inr (.inr ⟨fun h => (by cases h), rfl⟩)
  split
  · dsimp only
    split
    · exact .inr (.inl rfl)
    split
    · exact .inr (.inr ⟨fun h => (by cases h), rfl⟩)
    · exact .inr (.inl rfl)
  · exact .inl rfl

/-- What a line may be, and what may be open after it. -/
structure Sound (block : Block) (r : LineKind × Block) : Prop where
  kind : r.1 ≠ .never
  item : r.2.isItem = true → r.1 = .bullet ∨ block.isItem = true

theorem sound_readOuter {continued : LineKind × Block} (h : Sound block continued)
    (inParagraph underlined : Bool) (l : List Char) (rest : List (List Char)) :
    Sound block (readOuter inParagraph underlined continued l rest) := by
  rcases readOuter_cases inParagraph underlined continued l rest with he | hbullet | ⟨hne, hnone⟩
  · rw [he]
    exact h
  · exact ⟨fun h => (by rw [hbullet] at h; cases h), fun _ => .inl hbullet⟩
  · exact ⟨hne, fun hitem => by rw [hnone] at hitem; cases hitem⟩

theorem sound_readLine (block : Block) (l : List Char) (rest : List (List Char)) :
    Sound block (readLine block l rest) := by
  have hother : Sound block (.other, .none) := ⟨fun h => (by cases h), fun h => by cases h⟩
  have htext : Sound block (.text, .paragraph) := ⟨fun h => (by cases h), fun h => by cases h⟩
  have htable : Sound block (.table (rowCells l).length, .table) :=
    ⟨fun h => (by cases h), fun h => by cases h⟩
  have hparagraph : Sound block (paragraphLine l rest) := by
    unfold paragraphLine
    split
    · exact htable
    · exact htext
  have hfresh : Sound block (readFresh l rest) := by
    unfold readFresh
    split
    · exact hother
    · exact sound_readOuter hparagraph false false l rest
  unfold readLine
  split
  -- a blank line leaves nothing open but an item
  · refine ⟨fun h => (by cases h), fun h => .inr ?_⟩
    cases hitem : block.isItem with
    | true => rfl
    | false =>
      rw [closed_of_not_item hitem] at h
      cases h
  cases block with
  | none => exact hfresh
  | table =>
    dsimp only
    split
    · exact hother
    · exact sound_readOuter htable false false l rest
  | paragraph =>
    dsimp only
    split
    · exact htext
    · exact sound_readOuter hparagraph true true l rest
  | item margin inner =>
    -- a line in an item: indented to its margin, lazily continued, or after its end
    have hgoes : Sound (.item margin inner) (.text, .item margin .paragraph) :=
      ⟨fun h => (by cases h), fun _ => .inr rfl⟩
    dsimp only
    split
    · have hinner : ∀ inParagraph, readInner margin inParagraph l rest = (.other, .none) ∨
          readInner margin inParagraph l rest = (.text, .item margin .paragraph) :=
        fun _ => ite_eq_or_eq _ _ _
      rcases hinner (inner = .paragraph) with he | he
      · rw [he]
        exact hother
      · rw [he]
        exact hgoes
    split
    · split
      · exact hgoes
      · exact sound_readOuter hgoes false false l rest
    · exact hfresh

theorem never_not_mem_kinds (block : Block) (ls : List (List Char)) : .never ∉ kinds block ls := by
  induction ls generalizing block with
  | nil => exact not_mem_nil
  | cons l ls ih =>
    rw [kinds, mem_cons, not_or]
    exact ⟨(sound_readLine block l ls).kind.symm, ih _⟩

/-- An item is open after lines only if one was before, or one of them is a bullet. -/
theorem after_isItem (block : Block) (ls : List (List Char)) (h : (after block ls).isItem = true) :
    block.isItem = true ∨ .bullet ∈ kinds block ls := by
  induction ls generalizing block with
  | nil => exact .inl h
  | cons l ls ih =>
    rw [kinds]
    rcases ih _ h with hitem | hbullet
    · rcases (sound_readLine block l ls).item hitem with he | hblock
      · exact .inr (mem_cons.mpr (.inl he.symm))
      · exact .inl hblock
    · exact .inr (mem_cons_of_mem _ hbullet)

theorem length_kinds (block : Block) (ls : List (List Char)) :
    (kinds block ls).length = ls.length := by
  induction ls generalizing block with
  | nil => rfl
  | cons l ls ih => rw [kinds, length_cons, length_cons, ih]

end Kinds

section Rows

/-- Whether there is a pipe that no backslash stands before. -/
def hasPipe : Bool → List Char → Bool
  | _, [] => false
  | escaped, c :: s => (c = '|' && !escaped) || hasPipe (decide (c = '\\')) s

/-- A row of a table with a pipe at both ends. -/
def writeRow (cells : List (List Char)) : List Char :=
  "| ".toList ++ List.intercalate " | ".toList cells ++ " |".toList

theorem splitRow_ne_nil (escaped : Bool) (s : List Char) : splitRow escaped s ≠ [] := by
  cases s with
  | nil => exact cons_ne_nil _ _
  | cons c s =>
    rw [splitRow]
    split
    · exact cons_ne_nil _ _
    · cases h : splitRow (decide (c = '\\')) s with
      | nil => exact cons_ne_nil _ _
      | cons p ps => exact cons_ne_nil _ _

variable {escaped : Bool} {s : List Char} {cells headers : List (List Char)}

theorem splitRow_free (h : hasPipe escaped s = false) : splitRow escaped s = [s] := by
  induction s generalizing escaped with
  | nil => rfl
  | cons c s ih =>
    rcases Bool.or_eq_false_iff.mp h with ⟨hc, hs⟩
    have hplain : ¬ (c = '|' ∧ escaped = false) := by
      rintro ⟨hpipe, hescaped⟩
      rw [hpipe, hescaped] at hc
      cases hc
    rw [splitRow, if_neg hplain, ih hs]
    rfl

theorem two_le_splitRow (h : hasPipe escaped s = true) : 2 ≤ (splitRow escaped s).length := by
  induction s generalizing escaped with
  | nil => cases h
  | cons c s ih =>
    by_cases hpipe : c = '|' ∧ escaped = false
    · rw [splitRow, if_pos hpipe, length_cons]
      have hpos := length_pos_of_ne_nil (splitRow_ne_nil false s)
      omega
    · rw [splitRow, if_neg hpipe, length_consLine c (splitRow_ne_nil _ s)]
      refine ih ?_
      rcases Bool.or_eq_true_iff.mp h with hc | hs
      · rcases Bool.and_eq_true_iff.mp hc with ⟨hc, hescaped⟩
        exact absurd ⟨of_decide_eq_true hc, (Bool.not_eq_true' _).mp hescaped⟩ hpipe
      · exact hs

/-- A pipe after a space separates. -/
theorem splitRow_pipe (escaped : Bool) (s t : List Char) :
    splitRow escaped (s ++ ' ' :: '|' :: t) =
      splitRow escaped (s ++ [' ']) ++ splitRow false t := by
  induction s generalizing escaped with
  | nil => rfl
  | cons c s ih =>
    rw [cons_append, cons_append, splitRow, splitRow]
    split
    · rw [ih]
      rfl
    · rw [ih]
      exact consLine_append c (splitRow_ne_nil _ _) _

theorem hasPipe_space (escaped : Bool) (s : List Char) :
    hasPipe escaped (s ++ [' ']) = hasPipe escaped s := by
  induction s generalizing escaped with
  | nil => rfl
  | cons c s ih => rw [cons_append, hasPipe, hasPipe, ih]

/-- A text with a space on either side is one part iff it has no pipe that separates. -/
theorem length_splitRow_cell (c : List Char) :
    1 ≤ (splitRow false (' ' :: (c ++ [' ']))).length ∧
      ((splitRow false (' ' :: (c ++ [' ']))).length = 1 ↔ hasPipe false c = false) := by
  have hsame : hasPipe false (' ' :: (c ++ [' '])) = hasPipe false c := hasPipe_space false c
  refine ⟨length_pos_of_ne_nil (splitRow_ne_nil _ _), ?_⟩
  cases h : hasPipe false c with
  | false =>
    rw [splitRow_free (hsame.trans h)]
    exact iff_of_true rfl rfl
  | true =>
    have htwo := two_le_splitRow (hsame.trans h)
    exact iff_of_false (by omega) Bool.true_eq_false.mp

/-- A row that has a cell ends each cell with a pipe. -/
theorem writeRow_eq (h : cells ≠ []) :
    writeRow cells = '|' :: cells.flatMap (fun c => ' ' :: (c ++ [' ', '|'])) := by
  have hjoined : ∀ cells : List (List Char), cells ≠ [] →
      List.intercalate " | ".toList cells ++ " |".toList =
        (cells.flatMap (fun c => ' ' :: (c ++ [' ', '|']))).tail := by
    intro cells hcells
    induction cells with
    | nil => exact absurd rfl hcells
    | cons c cells ih =>
      cases cells with
      | nil => simp [List.intercalate]
      | cons c' cells =>
        have hrest := ih (cons_ne_nil _ _)
        simp only [List.intercalate, intersperse_cons_cons, flatten_cons,
          append_assoc] at hrest ⊢
        rw [hrest]
        simp
  rw [writeRow, append_assoc, hjoined cells h]
  cases cells with
  | nil => exact absurd rfl h
  | cons c cells => rfl

theorem forall_mem_writeRow {p : Char → Prop} (hpipe : p '|') (hspace : p ' ')
    (cells : List (List Char)) :
    (∀ c ∈ writeRow cells, p c) ↔ ∀ cell ∈ cells, ∀ c ∈ cell, p c := by
  by_cases h : cells = []
  · refine iff_of_true ?_ (fun cell hcell => absurd hcell (by rw [h]; exact not_mem_nil))
    have hempty : writeRow [] = ['|', ' ', ' ', '|'] := rfl
    rw [h, hempty]
    simp [hpipe, hspace]
  · rw [writeRow_eq h, forall_mem_cons, forall_mem_flatMap]
    refine (and_iff_right hpipe).trans (forall₂_congr (fun cell _ => ?_))
    rw [forall_mem_cons, forall_mem_append, forall_mem_cons,
      forall_mem_singleton]
    exact ⟨fun hall => hall.2.1, fun hall => ⟨hspace, hall, hspace, hpipe⟩⟩

theorem splitRow_cells (cells : List (List Char)) :
    splitRow false (cells.flatMap (fun c => ' ' :: (c ++ [' ', '|']))) =
      cells.flatMap (fun c => splitRow false (' ' :: (c ++ [' ']))) ++ [[]] := by
  induction cells with
  | nil => rfl
  | cons c cells ih =>
    have hfirst : (c :: cells).flatMap (fun c => ' ' :: (c ++ [' ', '|'])) =
        (' ' :: c) ++ ' ' :: '|' :: cells.flatMap (fun c => ' ' :: (c ++ [' ', '|'])) := by
      simp
    rw [hfirst, splitRow_pipe, ih, flatMap_cons, append_assoc, cons_append]

theorem trim_self {l : List Char} (hhead : l.head? = some '|') (hlast : l.getLast? = some '|') :
    trim l = l := by
  cases l with
  | nil => cases hhead
  | cons c s =>
    have hc : c = '|' := Option.some.inj hhead
    have hdrop : (c :: s).dropWhile isBlankChar = c :: s := by
      rw [dropWhile_cons, hc]
      rfl
    rw [trim, hdrop, rdropWhile_eq_self_iff]
    intro hne
    rw [List.getLast?_eq_some_getLast hne] at hlast
    rw [Option.some.inj hlast]
    decide

theorem getLast?_writeRow (cells : List (List Char)) : (writeRow cells).getLast? = some '|' := by
  rw [writeRow, List.getLast?_append_of_ne_nil _ (by decide)]
  rfl

/-- The cells of a row are the parts of its texts. -/
theorem rowCells_writeRow (h : cells ≠ []) :
    rowCells (writeRow cells) =
      cells.flatMap (fun c => splitRow false (' ' :: (c ++ [' ']))) := by
  have hparts : splitRow false (writeRow cells) =
      [] :: (cells.flatMap (fun c => splitRow false (' ' :: (c ++ [' ']))) ++ [[]]) := by
    rw [writeRow_eq h, ← splitRow_cells]
    rfl
  unfold rowCells
  rw [trim_self rfl (getLast?_writeRow cells), hparts]
  simp

/-- A row has as many cells as it is written from iff no text has a pipe that separates. -/
theorem length_rowCells_iff (h : cells ≠ []) :
    (rowCells (writeRow cells)).length = cells.length ↔ ∀ c ∈ cells, hasPipe false c = false := by
  have hcount : ∀ cells : List (List Char),
      cells.length ≤ (cells.flatMap (fun c => splitRow false (' ' :: (c ++ [' '])))).length ∧
      ((cells.flatMap (fun c => splitRow false (' ' :: (c ++ [' '])))).length = cells.length ↔
        ∀ c ∈ cells, hasPipe false c = false) := by
    intro cells
    induction cells with
    | nil =>
      exact ⟨Nat.le_refl _, iff_of_true rfl (fun c hc => absurd hc not_mem_nil)⟩
    | cons c cells ih =>
      rcases length_splitRow_cell c with ⟨hone, hiff⟩
      rw [flatMap_cons, length_append, length_cons, forall_mem_cons,
        ← hiff, ← ih.2]
      exact ⟨by omega, by omega⟩
  rw [rowCells_writeRow h]
  exact (hcount cells).2

/-- What a row is not. -/
theorem writeRow_forms (cells : List (List Char)) :
    isBlank (writeRow cells) = false ∧ isAtx (writeRow cells) = false ∧
      isUnderline (writeRow cells) = false ∧ isBreak (writeRow cells) = false ∧
      isBullet (writeRow cells) = false ∧ ∀ inParagraph,
        begins inParagraph (writeRow cells) = false := by
  have hkept : (writeRow cells).rdropWhile isBlankChar = writeRow cells := by
    rw [rdropWhile_eq_self_iff]
    intro hne
    have hlast := getLast?_writeRow cells
    rw [List.getLast?_eq_some_getLast hne] at hlast
    rw [Option.some.inj hlast]
    decide
  refine ⟨rfl, rfl, ?_, rfl, rfl, fun _ => rfl⟩
  rw [isUnderline, hkept]
  rfl

/-- A row begins nothing. -/
theorem readOuter_row (inParagraph underlined : Bool) (continued : LineKind × Block)
    (cells : List (List Char)) (rest : List (List Char)) :
    readOuter inParagraph underlined continued (writeRow cells) rest = continued := by
  rcases writeRow_forms cells with ⟨-, hatx, hunderline, -, hbullet, hbegins⟩
  have hcontent : content (writeRow cells) = writeRow cells := rfl
  unfold readOuter
  rw [hcontent, hatx, hunderline, hbegins, hbullet, Bool.and_false]
  rfl

/-- A row goes on with a table. -/
theorem readLine_row_table (cells : List (List Char)) (rest : List (List Char)) :
    readLine .table (writeRow cells) rest = (.table (rowCells (writeRow cells)).length, .table) :=
  readOuter_row false false _ cells rest

/-- Elsewhere it is text, or begins a table. -/
theorem readLine_row {block : Block} (h : block = .none ∨ block = .paragraph)
    (cells : List (List Char)) (rest : List (List Char)) :
    readLine block (writeRow cells) rest = paragraphLine (writeRow cells) rest := by
  rcases h with rfl | rfl
  · exact readOuter_row false false _ cells rest
  · exact readOuter_row true true _ cells rest

/-- The rows of a table. -/
theorem kinds_rows (rows : List (List (List Char))) :
    kinds .table (rows.map writeRow) =
      rows.map (fun cells => .table (rowCells (writeRow cells)).length) := by
  induction rows with
  | nil => rfl
  | cons cells rows ih => rw [map_cons, kinds, readLine_row_table, ih, map_cons]

theorem isDelimiter_dashes (h : headers ≠ []) :
    isDelimiter 0 (writeRow (headers.map (fun _ => "---".toList))) = true ∧
      (rowCells (writeRow (headers.map (fun _ => "---".toList)))).length = headers.length := by
  have hmap : headers.map (fun _ => "---".toList) ≠ [] :=
    fun hnil => h (map_eq_nil_iff.mp hnil)
  rcases writeRow_forms (headers.map (fun _ => "---".toList)) with
    ⟨-, hatx, hunderline, hbreak, hbullet, -⟩
  have hcontent : ∀ cells, content (writeRow cells) = writeRow cells := fun _ => rfl
  have hcells : rowCells (writeRow (headers.map (fun _ => "---".toList))) =
      headers.map (fun _ => " --- ".toList) := by
    rw [rowCells_writeRow hmap, flatMap_map]
    exact flatMap_pure_eq_map (fun _ => " --- ".toList) headers
  have hsome : headers.map (fun _ => " --- ".toList) ≠ [] :=
    fun hnil => h (map_eq_nil_iff.mp hnil)
  have hmarkers : (headers.map (fun _ => " --- ".toList)).all isMarker = true := by
    rw [all_eq_true]
    intro cell hcell
    rcases mem_map.mp hcell with ⟨_, -, rfl⟩
    rfl
  refine ⟨?_, ?_⟩
  · unfold isDelimiter
    rw [hcontent, hatx, hunderline, hbreak, hbullet, hcells, hmarkers, decide_eq_true hsome]
    rfl
  · rw [hcells, length_map]

/-- A table begins iff its header has as many cells as its delimiter row. -/
theorem kinds_header (h : headers ≠ []) (rows : List (List (List Char))) :
    kinds .none (writeRow headers :: writeRow (headers.map (fun _ => "---".toList)) ::
        rows.map writeRow) =
      if (rowCells (writeRow headers)).length = headers.length then
        .table headers.length :: .table headers.length ::
          rows.map (fun cells => .table (rowCells (writeRow cells)).length)
      else .text :: kinds .paragraph (writeRow (headers.map (fun _ => "---".toList)) ::
        rows.map writeRow) := by
  rcases isDelimiter_dashes h with ⟨hdelimiter, hlength⟩
  have hstarts : startsTable 0 (writeRow headers) (writeRow (headers.map (fun _ => "---".toList)) ::
      rows.map writeRow) = decide ((rowCells (writeRow headers)).length = headers.length) := by
    rw [startsTable, hdelimiter, hlength, Bool.true_and]
    exact decide_eq_decide.mpr eq_comm
  rw [kinds, readLine_row (.inl rfl), paragraphLine, hstarts]
  by_cases hsame : (rowCells (writeRow headers)).length = headers.length
  · rw [decide_eq_true hsame, if_pos rfl, if_pos hsame]
    dsimp only
    rw [hsame, kinds, readLine_row_table, hlength, kinds_rows]
  · rw [decide_eq_false hsame, if_neg Bool.false_ne_true, if_neg hsame]

/-- Without columns there is no table. -/
theorem kinds_empty (block : Block) (hblock : block = .none ∨ block = .paragraph) (n : Nat) :
    kinds block (List.replicate n (writeRow [])) = List.replicate n .text := by
  have hstarts : ∀ n, startsTable 0 (writeRow []) (List.replicate n (writeRow [])) = false := by
    intro n
    cases n <;> rfl
  induction n generalizing block with
  | zero => rfl
  | succ n ih =>
    have hread : readLine block (writeRow []) (List.replicate n (writeRow [])) =
        (.text, .paragraph) := by
      rw [readLine_row hblock, paragraphLine, hstarts]
      rfl
    rw [replicate_succ, kinds, hread, ih .paragraph (.inr rfl), replicate_succ]

end Rows

end Markdown
