import Partha.Extraction.Http

/-!
# Structure-Aware Scanners

Where in the source a decoded value comes from, for `package.json`, `package-lock.json`,
`pyproject.toml` and `poetry.lock`.

The decoders are parameters. A decoded string is not always text: `\ud800` is a valid escape
in JSON and in YAML, and no character. So the characters of a decoded string are the scalar
values and the lone surrogates, and `Encodable` says that there is none of the latter.

The scanners run after a decoder has accepted the text and do not validate it again. The one
for JSON looks at tokens without asking whether there are any left, so on a text that is no
JSON it can run past the end, which is an `IndexError`. It calls itself for what is nested, and
the interpreter has a limit on that, which is a `RecursionError`.

## Main definitions

* `PyStr`: A decoded string.
* `Data`: A decoded value.
* `Decoders`: The decoders.
* `jsonObjectMemberLines`: `json_object_member_lines`.
* `tomlArrayOfTablesLines`: `toml_array_of_tables_lines`.
* `tomlProjectDependencyElementLines`: `toml_project_dependency_element_lines`.

## Theorems

* `encodable_ofStr`, `masked_ofStr`: Text is a decoded string.
-/

namespace Partha

namespace Structured

open List hiding splitOn
open Canonical
open Http (Text strip)

section Strings

/-- A character of a decoded string. -/
inductive PyChar where
  | scalar (c : Char)
  | surrogate (point : Nat)
  deriving DecidableEq, Repr

/-- A decoded string. -/
abbrev PyStr := List PyChar

/-- The code point of a character. -/
def PyChar.point : PyChar → Nat
  | .scalar c => c.toNat
  | .surrogate point => point

/-- A character of text in the place of another. Whoever looks for control characters,
    separators or spaces does not tell a lone surrogate from the replacement character. -/
def PyChar.masked : PyChar → Char
  | .scalar c => c
  | .surrogate _ => '\uFFFD'

/-- A code point as a character of a decoded string. -/
def pyChar (n : Nat) : PyChar :=
  if n.isValidChar then .scalar (Char.ofNat n) else .surrogate n

/-- Text, as a decoded string. -/
def ofStr (s : Str) : PyStr :=
  s.map PyChar.scalar

/-- The text of a decoded string, which is exact if it is `Encodable`. -/
def masked (s : PyStr) : Str :=
  s.map PyChar.masked

/-- A string that has an encoding. -/
def Encodable (s : PyStr) : Prop :=
  ∀ c ∈ s, ∃ d, c = .scalar d

def points (s : PyStr) : List Nat :=
  s.map PyChar.point

theorem encodable_ofStr (s : Str) : Encodable (ofStr s) := by
  intro c hc
  rcases mem_map.mp hc with ⟨d, -, rfl⟩
  exact ⟨d, rfl⟩

@[simp]
theorem masked_ofStr (s : Str) : masked (ofStr s) = s := by
  rw [masked, ofStr, map_map]
  exact map_id s

/-- Text is told apart by what is masked. -/
theorem ofStr_masked {s : PyStr} (h : Encodable s) : ofStr (masked s) = s := by
  induction s with
  | nil => rfl
  | cons c s ih =>
    rcases h c mem_cons_self with ⟨d, rfl⟩
    have hs := ih (fun e he => h e (mem_cons_of_mem _ he))
    exact congrArg (List.cons (PyChar.scalar d)) hs

theorem pyChar_toNat (c : Char) : pyChar c.toNat = .scalar c := by
  have hvalid : c.toNat.isValidChar := c.valid
  rw [pyChar, if_pos hvalid, Char.ofNat_toNat]

theorem map_pyChar (s : Str) : (s.map Char.toNat).map pyChar = ofStr s := by
  rw [map_map]
  exact map_congr_left (fun c _ => pyChar_toNat c)

end Strings

section Data

/-- What a decoder returns. A number that is not an integer, a date and the like are not
    looked into. -/
inductive Data where
  | null
  | bool (b : Bool)
  | int (i : Int)
  | other
  | str (s : PyStr)
  | arr (items : List Data)
  | obj (fields : List (PyStr × Data))

/-- A node of a YAML document, with the line on which it starts, counted from zero. -/
inductive YamlNode where
  | scalar (value : PyStr) (line : Nat)
  | sequence (items : List YamlNode) (line : Nat)
  | mapping (entries : List (YamlNode × YamlNode)) (line : Nat)

def YamlNode.line : YamlNode → Nat
  | .scalar _ line => line
  | .sequence _ line => line
  | .mapping _ line => line

/-- Why a text is not read: the error of a decoder, or what no one catches. -/
inductive ReadError where
  | malformed
  | indexError
  | recursionError
  | valueError
  deriving DecidableEq, Repr

/-- The decoders, and what is left of the limit on recursion when a scanner is called. -/
structure Decoders where
  /-- `json.loads`. -/
  jsonLoads : Str → Except ReadError Data
  /-- `json.loads` of what begins as a string, or nothing where it raises its own error. -/
  jsonString : Str → Option PyStr
  /-- `tomllib.loads`, which returns a table. -/
  tomlLoads : Str → Except ReadError (List (PyStr × Data))
  /-- `yaml.compose`. A document can be empty. -/
  yamlCompose : Str → Except ReadError (Option YamlNode)
  /-- The calls that can be nested in that of the scanner, which are more than the tokenizer
      needs. -/
  frames : Nat

/-- `fields.get(name)`. -/
def get (fields : List (PyStr × Data)) (name : String) : Option Data :=
  fields.lookup (ofStr name.toList)

end Data

section Json

/-- A token of `json_tokens`, with its line. -/
inductive Token where
  | str (value : PyStr) (line : Nat)
  | punct (c : Char) (line : Nat)
  | other (text : Str) (line : Nat)
  deriving DecidableEq, Repr

def Token.line : Token → Nat
  | .str _ line => line
  | .punct _ line => line
  | .other _ line => line

/-- What a token has for a key of an object. -/
def Token.key : Token → PyStr
  | .str value _ => value
  | .punct c _ => ofStr [c]
  | .other text _ => ofStr text

/-- How far a string goes after its first quote. A backslash takes the next character along. -/
def literalLength : Str → Nat
  | [] => 0
  | ['\\'] => 2
  | '\\' :: _ :: s => literalLength s + 2
  | c :: s => if c = '"' then 1 else literalLength s + 1

/-- The line feeds in a string after its first quote. -/
def literalFeeds : Str → Nat
  | [] => 0
  | ['\\'] => 0
  | '\\' :: _ :: s => literalFeeds s
  | c :: s =>
    if c = '"' then 0
    else if c = '\n' then literalFeeds s + 1
    else literalFeeds s

def punctuation : Str :=
  "\x7b\x7d[]:,".toList

def blanks : Str :=
  " \t\r".toList

/-- A character of a number or of a word. -/
def isWordChar (c : Char) : Bool :=
  c ≠ '\n' && c ≠ '"' && !blanks.elem c && !punctuation.elem c

/-- The value of a string token. It is read as it stands if it does not decode. -/
def literalValue (d : Decoders) (s : Str) : PyStr :=
  (d.jsonString ('"' :: s.take (literalLength s))).getD (ofStr (s.take (literalLength s - 1)))

/-- `json_tokens`, from a line on. -/
def jsonTokens (d : Decoders) (line : Nat) : Str → List Token
  | [] => []
  | c :: s =>
    if c = '\n' then jsonTokens d (line + 1) s
    else if blanks.elem c then jsonTokens d line s
    else if c = '"' then
      .str (literalValue d s) line ::
        jsonTokens d (line + literalFeeds s) (s.drop (literalLength s))
    else if punctuation.elem c then .punct c line :: jsonTokens d line s
    else
      .other (c :: s.takeWhile isWordChar) line :: jsonTokens d line (s.dropWhile isWordChar)
termination_by s => s.length
decreasing_by
  all_goals simp only [List.length_cons, List.length_drop]
  · omega
  · omega
  · omega
  · omega
  · have hle := (List.dropWhile_sublist isWordChar (l := s)).length_le
    omega

/-- `JsonNode`. The members of an object stand newest first, and so do their lines. -/
inductive JsonNode where
  | object (members : List (PyStr × JsonNode)) (keyLines : List (PyStr × Nat))
  | array (items : List JsonNode)
  | scalar

/-- What is left of some tokens once one of them at least is read. -/
abbrev Rest (tokens : List Token) :=
  { rest : List Token // rest.length < tokens.length }

/-- The tokens after a comma, if there is one. It is an error if there are none at all. -/
def skipComma : (tokens : List Token) →
    Except ReadError { rest : List Token // rest.length ≤ tokens.length }
  | [] => .error .indexError
  | .punct ',' _ :: rest => .ok ⟨rest, Nat.le_succ _⟩
  | token :: rest => .ok ⟨token :: rest, Nat.le_refl _⟩

/-- `JsonNode(…)`, which is a call as well. -/
def newNode (frames : Nat) (node : JsonNode) : Except ReadError JsonNode :=
  if frames = 0 then .error .recursionError else .ok node

mutual

/-- `_json_parse`, when the interpreter has some frames left. The call takes one of them. -/
def jsonParse : (frames : Nat) → (tokens : List Token) →
    Except ReadError (JsonNode × Rest tokens)
  | 0, _ => .error .recursionError
  | _ + 1, [] => .error .indexError
  | frames + 1, .punct '\x7b' _ :: tokens => do
    let (node, rest) ← jsonMembers frames [] [] tokens
    .ok (node, ⟨rest.1, Nat.lt_succ_of_lt rest.2⟩)
  | frames + 1, .punct '[' _ :: tokens => do
    let (node, rest) ← jsonItems frames [] tokens
    .ok (node, ⟨rest.1, Nat.lt_succ_of_lt rest.2⟩)
  | frames + 1, _ :: tokens => do
    let node ← newNode frames .scalar
    .ok (node, ⟨tokens, Nat.lt_succ_self _⟩)
termination_by _ tokens => (tokens.length, 0)

/-- The members of an object up to its end. The token after a key is taken for a colon. -/
def jsonMembers (frames : Nat) (members : List (PyStr × JsonNode))
    (keyLines : List (PyStr × Nat)) :
    (tokens : List Token) → Except ReadError (JsonNode × Rest tokens)
  | [] => .error .indexError
  | .punct '\x7d' _ :: tokens => do
    let node ← newNode frames (.object members keyLines)
    .ok (node, ⟨tokens, Nat.lt_succ_self _⟩)
  | key :: tokens => do
    let (child, rest) ← jsonParse frames (tokens.drop 1)
    let next ← skipComma rest.1
    have hrest : next.1.length < tokens.length := by
      have hdrop := List.length_drop (i := 1) (l := tokens)
      have hchild := rest.2
      have hnext := next.2
      omega
    let (node, last) ← jsonMembers frames ((key.key, child) :: members)
      ((key.key, key.line) :: keyLines) next.1
    .ok (node, ⟨last.1, Nat.lt_succ_of_lt (Nat.lt_trans last.2 hrest)⟩)
termination_by tokens => (tokens.length, 1)
decreasing_by
  · refine Prod.Lex.left _ _ ?_
    rw [List.length_drop, List.length_cons]
    omega
  · refine Prod.Lex.left _ _ ?_
    rw [List.length_cons]
    omega

/-- The items of an array up to its end. -/
def jsonItems (frames : Nat) (items : List JsonNode) :
    (tokens : List Token) → Except ReadError (JsonNode × Rest tokens)
  | [] => .error .indexError
  | .punct ']' _ :: tokens => do
    let node ← newNode frames (.array items.reverse)
    .ok (node, ⟨tokens, Nat.lt_succ_self _⟩)
  | token :: tokens => do
    let (child, rest) ← jsonParse frames (token :: tokens)
    let next ← skipComma rest.1
    have hrest : next.1.length < (token :: tokens).length := Nat.lt_of_le_of_lt next.2 rest.2
    let (node, last) ← jsonItems frames (child :: items) next.1
    .ok (node, ⟨last.1, Nat.lt_trans last.2 hrest⟩)
termination_by tokens => (tokens.length, 1)
decreasing_by
  · exact Prod.Lex.right _ Nat.zero_lt_one
  · exact Prod.Lex.left _ _ hrest

end

/-- The lines of the members of a member of the root, or none if it is no object. -/
def JsonNode.sectionLines (root : JsonNode) (name : PyStr) : List (PyStr × Nat) :=
  match root with
  | .object members _ =>
    match members.lookup name with
    | some (.object _ keyLines) => keyLines
    | _ => []
  | _ => []

/-- `json_object_member_lines(text).get(name, {})` for every name, unless the tokens or the
    frames run out. -/
def jsonObjectMemberLines (d : Decoders) (text : Str) :
    Except ReadError (PyStr → List (PyStr × Nat)) := do
  let (root, _) ← jsonParse d.frames (jsonTokens d 1 text)
  .ok root.sectionLines

end Json

section Toml

def feed (c : Char) : Nat :=
  if c = '\n' then 1 else 0

/-- What follows a string in three quotes, and the line feeds in the string. -/
def skipTriple (quote : Char) : Str → Str × Nat
  | [] => ([], 0)
  | c :: s =>
    if [quote, quote, quote].isPrefixOf (c :: s) then (s.drop 2, 0)
    else ((skipTriple quote s).1, (skipTriple quote s).2 + feed c)

/-- What follows a string in single quotes of a kind, and the line feeds in the string. A
    backslash takes the next character along, but not between apostrophes. -/
def skipSingle (quote : Char) : Str → Str × Nat
  | [] => ([], 0)
  | [c] => ([], feed c)
  | c :: d :: s =>
    if quote ≠ '\'' ∧ c = '\\' then skipSingle quote s
    else if c = quote then (d :: s, 0)
    else ((skipSingle quote (d :: s)).1, (skipSingle quote (d :: s)).2 + feed c)

/-- `toml_skip_string`, after the first quote. -/
def tomlSkipString (quote : Char) (s : Str) : Str × Nat :=
  if [quote, quote].isPrefixOf s then skipTriple quote (s.drop 2) else skipSingle quote s

theorem length_skipTriple (quote : Char) (s : Str) : (skipTriple quote s).1.length ≤ s.length := by
  induction s with
  | nil => exact Nat.le_refl _
  | cons c s ih =>
    rw [skipTriple]
    by_cases hend : [quote, quote, quote].isPrefixOf (c :: s)
    · rw [if_pos hend, length_drop, length_cons]
      omega
    · rw [if_neg hend, length_cons]
      exact Nat.le_succ_of_le ih

theorem length_skipSingle (quote : Char) (s : Str) : (skipSingle quote s).1.length ≤ s.length := by
  induction s using skipSingle.induct quote with
  | case1 => exact Nat.le_refl _
  | case2 c => exact Nat.zero_le _
  | case3 c d s hescape ih =>
    rw [skipSingle, if_pos hescape, length_cons, length_cons]
    omega
  | case4 d s hescape =>
    rw [skipSingle, if_neg hescape, if_pos rfl]
    exact Nat.le_succ _
  | case5 c d s hescape hquote ih =>
    rw [skipSingle, if_neg hescape, if_neg hquote, length_cons]
    exact Nat.le_succ_of_le ih

theorem length_tomlSkipString (quote : Char) (s : Str) :
    (tomlSkipString quote s).1.length ≤ s.length := by
  rw [tomlSkipString]
  by_cases htriple : [quote, quote].isPrefixOf s
  · have hle := length_skipTriple quote (s.drop 2)
    rw [if_pos htriple]
    rw [length_drop] at hle
    omega
  · rw [if_neg htriple]
    exact length_skipSingle quote s

def isQuote (c : Char) : Bool :=
  c = '"' || c = '\''

/-- `s.strip("\"'")`. -/
def stripQuotes (s : Str) : Str :=
  ((s.dropWhile isQuote).reverse.dropWhile isQuote).reverse

/-- What stands before the first `]]` and after it. -/
def splitClose : Str → Option (Str × Str)
  | [] => none
  | c :: s =>
    if c = ']' ∧ s.head? = some ']' then some ([], s.tail)
    else (splitClose s).map (fun p => (c :: p.1, p.2))

theorem length_splitClose (s : Str) :
    ∀ inside rest, splitClose s = some (inside, rest) → rest.length ≤ s.length := by
  induction s with
  | nil =>
    intro inside rest h
    cases h
  | cons c s ih =>
    intro inside rest h
    rw [splitClose] at h
    by_cases hclose : c = ']' ∧ s.head? = some ']'
    · rw [if_pos hclose] at h
      rw [← (Prod.mk.inj (Option.some.inj h)).2, length_tail, length_cons]
      omega
    · rw [if_neg hclose] at h
      rcases Option.map_eq_some_iff.mp h with ⟨q, hq, he⟩
      rw [← (Prod.mk.inj he).2]
      exact Nat.le_succ_of_le (ih q.1 q.2 hq)

variable [Text]

/-- The text after a header of the tables of a name that starts here, after its brackets. -/
def tablesHeader (name s : Str) : Option { rest : Str // rest.length ≤ s.length } :=
  match h : splitClose s with
  | none => none
  | some (inside, rest) =>
    if '\n' ∉ inside ∧ stripQuotes (strip inside) = name then
      some ⟨rest, length_splitClose s inside rest h⟩
    else none

/-- `toml_array_of_tables_lines`, from a line on. -/
def tomlArrayOfTablesLines (name : Str) (line : Nat) (atLineStart : Bool) : Str → List Nat
  | [] => []
  | c :: s =>
    if c = '\n' then tomlArrayOfTablesLines name (line + 1) true s
    else if blanks.elem c then tomlArrayOfTablesLines name line atLineStart s
    else if c = '#' then
      tomlArrayOfTablesLines name line atLineStart (s.dropWhile (fun e => e ≠ '\n'))
    else if isQuote c then
      tomlArrayOfTablesLines name (line + (tomlSkipString c s).2) false (tomlSkipString c s).1
    else if atLineStart ∧ c = '[' ∧ s.head? = some '[' then
      match tablesHeader name s.tail with
      | some rest => line :: tomlArrayOfTablesLines name line false rest.1
      | none => tomlArrayOfTablesLines name line false s
    else tomlArrayOfTablesLines name line false s
termination_by s => s.length
decreasing_by
  all_goals rw [List.length_cons]
  · omega
  · omega
  · have hle := (List.dropWhile_sublist (fun e : Char => decide (e ≠ '\n')) (l := s)).length_le
    omega
  · have hle := length_tomlSkipString c s
    omega
  · have hle := Nat.le_trans rest.2 (List.length_tail.trans_le (Nat.sub_le _ 1))
    omega
  · omega
  · omega

/-- The lines of the elements of an array, from within it on. Nothing is returned if no
    array begins at all. -/
def elementLines (depth : Int) (entered : Bool) (line : Nat) : Str → Option (List Nat)
  | [] => if entered then some [] else none
  | c :: s =>
    if c = '\n' then elementLines depth entered (line + 1) s
    else if c = '#' then elementLines depth entered line (s.dropWhile (fun e => e ≠ '\n'))
    else if c = '[' then elementLines (depth + 1) true line s
    else if c = ']' then
      if depth - 1 = 0 then (if entered then some [] else none)
      else elementLines (depth - 1) entered line s
    else if isQuote c then
      if depth = 1 then
        (elementLines depth entered (line + (tomlSkipString c s).2) (tomlSkipString c s).1).map
          (fun lines => line :: lines)
      else elementLines depth entered (line + (tomlSkipString c s).2) (tomlSkipString c s).1
    else elementLines depth entered line s
termination_by s => s.length
decreasing_by
  all_goals rw [List.length_cons]
  · omega
  · have hle := (List.dropWhile_sublist (fun e : Char => decide (e ≠ '\n')) (l := s)).length_le
    omega
  · omega
  · omega
  · have hle := length_tomlSkipString c s
    omega
  · have hle := length_tomlSkipString c s
    omega
  · omega

/-- `dependencies\s*=`, at the start of a text. -/
def startsDependencies (s : Str) : Bool :=
  match stripPrefix "dependencies".toList s with
  | some rest => (rest.dropWhile Text.isSpace).head? = some '='
  | none => false

/-- Whether a line has the key `dependencies`, and if so whether it is the dotted one. -/
def dependenciesKey (s : Str) : Option Bool :=
  match stripPrefix "project".toList s with
  | none => if startsDependencies s then some false else none
  | some rest =>
    match rest.dropWhile Text.isSpace with
    | '.' :: more => if startsDependencies (more.dropWhile Text.isSpace) then some true else none
    | _ => none

/-- `\s*\]\]?\s*(?:#.*)?$` -/
def closesHeader (s : Str) : Bool :=
  match s.dropWhile Text.isSpace with
  | ']' :: rest =>
    let after := (stripPrefix [']'] rest).getD rest
    match after.dropWhile Text.isSpace with
    | [] => true
    | c :: _ => c = '#'
  | _ => false

/-- What `\s*` can leave of a text, in the order in which it is tried. -/
def spaceSuffixes (s : Str) : List Str :=
  (List.range ((s.takeWhile Text.isSpace).length + 1)).reverse.map (fun n => s.drop n)

/-- The shortest name that a header can be read with, after its opening brackets. -/
def headerName (s : Str) : Option Str :=
  ((List.range s.length).map (· + 1)).findSome?
    (fun n => if closesHeader (s.drop n) then some (s.take n) else none)

/-- The name of the table that a line is the header of. A second bracket is read as part of
    the header if that is possible. -/
def tableHeader (s : Str) : Option Str :=
  match s with
  | '[' :: rest =>
    let starts :=
      (match rest with
        | '[' :: inner => spaceSuffixes inner
        | _ => []) ++ spaceSuffixes rest
    (starts.findSome? headerName).map (fun name => stripQuotes (strip name))
  | _ => none

/-- What follows the first `=` after the first `dependencies` of a line. -/
def afterEquals : Str → Str
  | [] => []
  | c :: s =>
    if "dependencies".toList.isPrefixOf (c :: s) then
      ((c :: s).dropWhile (fun e => e ≠ '=')).tail
    else afterEquals s

/-- `_toml_dependencies_offset`: the text from there on, and its line. -/
def tomlDependenciesStart (currentTable : Str) (line : Nat) : List Str → Option (Str × Nat)
  | [] => none
  | raw :: lines =>
    match tableHeader (strip raw) with
    | some name => tomlDependenciesStart name (line + 1) lines
    | none =>
      match dependenciesKey (strip raw) with
      | none => tomlDependenciesStart currentTable (line + 1) lines
      | some dotted =>
        if dotted ∨ currentTable = "project".toList then
          some (joinWith '\n' (afterEquals raw :: lines), line)
        else tomlDependenciesStart currentTable (line + 1) lines

/-- `toml_project_dependency_element_lines`. -/
def tomlProjectDependencyElementLines (text : Str) : Option (List Nat) := do
  let (rest, line) ← tomlDependenciesStart [] 1 (splitOn '\n' text)
  elementLines 0 false line rest

end Toml

end Structured

end Partha
