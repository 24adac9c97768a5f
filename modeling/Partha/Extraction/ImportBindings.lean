import Partha.Extraction.FetchMethod
import Partha.Extraction.PythonCalls
import Partha.Extraction.Symbols
import Partha.Insights.RelationshipDiagnostics
import Partha.Library.Rows
import Partha.Resolution.Resolver

/-!
# Import Bindings

What an import binds, and whether its readers get it back.

Both extractors write a binding as one text: the specifier, the imported name and the local name,
with bars between them. The store normalizes the text. The resolver and Repository Insights split
it at the first two bars. In TypeScript a specifier can have bars, and a name that is a string can
have them too. A specifier can also be empty once its quotation marks are gone.

Two bindings of a file never have one text, whatever is in them. A name that is a string begins
and ends with its quotation mark, which cannot follow a bar inside of it. So no shorter name can
be cut off its end.

## Main definitions

* `referentText`, `stored`: The text of a binding, and what is stored of it.
* `Program.bindings`: The bindings that an extractor emits of a file.
* `Recorded`: The rows of a file.
* `Plain`: A binding that can be split again.
* `Survives`: Both readers get the bindings of a file back.

## Theorems

* `parse_stored_iff`: When the resolver reads a binding back.
* `referentText_inj`: Texts tell bindings apart.
* `bindings_survive`: When the bindings of a file survive.
* `bindings_lost`: A specifier with a bar.
-/

namespace Partha

namespace ImportBindings

open List hiding splitOn
open Canonical Extraction Insights
open ObjectLiterals (StringLiteral Reading unescape readOne readPlain hexValue)
open FetchMethod (literal stripMarks)
open Resolution (Binding parseImportBinding)

section Syntax

/-- A name as it is written. -/
structure Name where
  text : Str
  nonempty : text ≠ []
  letters : ∀ c ∈ text, c ≠ '|' ∧ c ≠ '\'' ∧ c ≠ '"'

/-- What an import specifier can name: an export by its name, which can be a string. -/
inductive ModuleExportName where
  | name (n : Name)
  | string (l : StringLiteral)

def ModuleExportName.text : ModuleExportName → Str
  | .name n => n.text
  | .string l => l.text

/-- `import_specifier`, with its lines. A string needs an alias. -/
inductive ImportSpecifier where
  | named (name : Name) (startLine endLine : Nat)
  | renamed (name : ModuleExportName) (localName : Name) (startLine endLine : Nat)

/-- A child of an `import_clause`. -/
inductive ClauseChild where
  | identifier (name : Name) (startLine endLine : Nat)
  | namedImports (specifiers : List ImportSpecifier)
  | namespaceImport (name : Name)

/-- `import_statement`. An `import x = require(…)` has neither field. -/
structure ImportStatement where
  clause : Option (List ClauseChild)
  source : Option StringLiteral
  startLine : Nat
  endLine : Nat

/-- The nodes of a program, of which the walk looks for the import statements. -/
inductive TsNode where
  | importStatement (statement : ImportStatement)
  | other (namedChildren : List TsNode)

variable [Unicode]

/-- A name of Python, which the parser normalizes. -/
structure PyName extends Name where
  normalized : nfc text = text

/-- `ast.alias`. -/
inductive PyAlias where
  | star
  | named (name : PyName) (asname : Option PyName)

/-- A statement of a module. -/
inductive PyStatement where
  | importFrom (level : Nat) (module : List PyName) (names : List PyAlias)
      (startLine endLine : Nat)
  | other

/-- A file of one of the two languages. -/
inductive Program where
  | typescript (root : TsNode)
  | python (body : List PyStatement)

end Syntax

section Extractors

/-- `referent_text`. -/
def referentText (b : Binding) : Str :=
  b.specifier ++ '|' :: (b.imported ++ '|' :: b.localName)

/-- The marks that are stripped off a specifier. -/
def specifierMarks : Str := "'\"`".toList

/-- The binding of an import specifier. -/
def ImportSpecifier.binding (lineCount : Nat) (specifier : Str) : ImportSpecifier → Option Binding
  | .named name startLine endLine =>
    if InFile lineCount startLine endLine then
      some { specifier := specifier, imported := name.text, localName := name.text }
    else none
  | .renamed name localName startLine endLine =>
    if InFile lineCount startLine endLine then
      some { specifier := specifier, imported := name.text, localName := localName.text }
    else none

/-- The bindings of a child of an import clause. -/
def ClauseChild.bindings (lineCount : Nat) (specifier : Str) : ClauseChild → List Binding
  | .identifier name startLine endLine =>
    if InFile lineCount startLine endLine then
      [{ specifier := specifier, imported := "default".toList, localName := name.text }]
    else []
  | .namedImports specifiers => specifiers.filterMap (ImportSpecifier.binding lineCount specifier)
  | .namespaceImport _ => []

/-- `_collect_import_bindings`, where `_collect_imports` calls it. -/
def ImportStatement.bindings (lineCount : Nat) (s : ImportStatement) : List Binding :=
  match s.source with
  | none => []
  | some source =>
    if InFile lineCount s.startLine s.endLine then
      (s.clause.getD []).flatMap
        (ClauseChild.bindings lineCount (stripMarks specifierMarks source.text))
    else []

mutual

/-- The walk of `_collect_imports`. -/
def TsNode.bindings (lineCount : Nat) : TsNode → List Binding
  | .importStatement s => s.bindings lineCount
  | .other namedChildren => childrenBindings lineCount namedChildren

def childrenBindings (lineCount : Nat) : List TsNode → List Binding
  | [] => []
  | node :: nodes => node.bindings lineCount ++ childrenBindings lineCount nodes

end

variable [Unicode]

/-- The specifier of a module: the dots of its level, and its dotted name. -/
def moduleSpecifier (level : Nat) (module : List PyName) : Str :=
  List.replicate level '.' ++ joinWith '.' (module.map fun n => n.text)

/-- The binding of an alias. -/
def PyAlias.binding (specifier : Str) : PyAlias → Option Binding
  | .star => none
  | .named name asname =>
    if specifier = [] then none
    else some
      { specifier := specifier
        imported := name.text
        localName := (asname.getD name).text }

/-- The bindings of a statement. -/
def PyStatement.bindings (lineCount : Nat) : PyStatement → List Binding
  | .importFrom level module names startLine endLine =>
    if InFile lineCount startLine endLine then
      names.filterMap (PyAlias.binding (moduleSpecifier level module))
    else []
  | .other => []

/-- The bindings that are emitted of a file. -/
def Program.bindings (lineCount : Nat) : Program → List Binding
  | .typescript root => root.bindings lineCount
  | .python body => body.flatMap (PyStatement.bindings lineCount)

end Extractors

section Statements

variable [Unicode]

/-- What the store keeps of the text. -/
def stored (b : Binding) : Str :=
  nfc (referentText b)

/-- A character that the normalization leaves alone, with what is before and behind it. -/
structure Inert (c : Char) : Prop where
  append : ∀ s t : Str, nfc (s ++ c :: t) = nfc s ++ c :: nfc t
  mem : ∀ s : Str, c ∈ nfc s ↔ c ∈ s

/-- The evidence of a path of which the observation is a binding belongs to the bindings of the
    file, and each of them has some. -/
structure Recorded (rows : Rows) (path : Str) (bindings : List Binding) : Prop where
  path_ne_nil : path ≠ []
  ids : (rows.observations.map RiObservation.id).Nodup
  own : ∀ e ∈ rows.evidence, e.path = path → ∀ pk, e.parent = .observation pk →
    ∀ referent, bindingReferent rows.observations pk = some referent →
      ∃ b ∈ bindings, referent = stored b
  kept : ∀ b ∈ bindings, ∃ o ∈ rows.observations, o.observedKind = importBinding ∧
    o.referentText = some (stored b) ∧
    ∃ e ∈ rows.evidence, e.parent = .observation o.id ∧ e.path = path

/-- The specifier is there and has no bar, the imported name has none, and the normalization
    changes nothing. -/
structure Plain (b : Binding) : Prop where
  specifier : nfc b.specifier = b.specifier
  imported : nfc b.imported = b.imported
  localName : nfc b.localName = b.localName
  nonempty : b.specifier ≠ []
  specifier_bar : '|' ∉ b.specifier
  imported_bar : '|' ∉ b.imported

/-- The resolver reads every binding back, Repository Insights finds the specifier of a local name
    that is bound once, and no two bindings are stored alike. -/
structure Survives (rows : Rows) (path : Str) (bindings : List Binding) : Prop where
  parsed : ∀ b ∈ bindings, parseImportBinding (some (stored b)) = some b
  mapped : ∀ b ∈ bindings, (∀ b' ∈ bindings, b'.localName = b.localName → b' = b) →
    (loadContext rows).importSpecifierByLocalName.lookup (path, b.localName) = some b.specifier
  apart : ∀ b ∈ bindings, ∀ b' ∈ bindings, stored b = stored b' → b = b'

end Statements

section Texts

variable {s t : Str} {ends : Char → Bool}

/-- The end of a text after its last bar. -/
theorem append_bar_inj {u v : Str} (ht : '|' ∉ t) (hv : '|' ∉ v)
    (h : s ++ '|' :: t = u ++ '|' :: v) :
    s = u ∧ t = v := by
  have hcut : ∀ {a b x y : Str}, '|' ∉ y → a ++ x = b ∧ '|' :: y = x ++ '|' :: v → x = [] := by
    rintro a b x y hy ⟨-, hx⟩
    cases x with
    | nil => rfl
    | cons c x =>
      refine absurd ?_ hy
      rw [(List.cons.inj hx).2]
      exact mem_append_right _ mem_cons_self
  rcases append_eq_append_iff.mp h with ⟨x, hu, hx⟩ | ⟨x, hs, hx⟩
  · have hnil : x = [] := hcut ht ⟨hu.symm, hx⟩
    rw [hnil, append_nil] at hu
    rw [hnil, nil_append] at hx
    exact ⟨hu.symm, (List.cons.inj hx).2⟩
  · cases x with
    | nil =>
      rw [append_nil] at hs
      rw [nil_append] at hx
      exact ⟨hs, (List.cons.inj hx).2.symm⟩
    | cons c x =>
      refine absurd ?_ hv
      rw [(List.cons.inj hx).2]
      exact mem_append_right _ mem_cons_self

/-- After a bar a reader of a literal is outside of escape sequences. -/
theorem readOne_bar {r next : Reading} {units : List Nat}
    (h : readOne ends r '|' = some (next, units)) : next = .plain := by
  have hplain : ∀ {next : Reading} {units : List Nat},
      readPlain ends '|' = some (next, units) → next = .plain := by
    intro next units h
    rw [readPlain, if_neg (by decide)] at h
    split at h
    · cases h
    · exact (Prod.mk.inj (Option.some.inj h)).1.symm
  cases r with
  | plain => exact hplain h
  | escaped => exact (Prod.mk.inj (Option.some.inj h)).1.symm
  | hex left value => cases h
  | code => cases h
  | braces value => cases h
  | continued => exact hplain h
  | zero => exact hplain h

/-- A mark that ends a literal does not follow a bar in it. -/
theorem unescape_bar_mark {mark : Char} (hends : ends mark = true) (hmark : mark ≠ '\\') (s t : Str)
    (r : Reading) : unescape ends r (s ++ '|' :: mark :: t) = none := by
  induction s generalizing r with
  | nil =>
    rw [nil_append, unescape]
    cases hread : readOne ends r '|' with
    | none => rfl
    | some p =>
      rcases p with ⟨next, units⟩
      rw [readOne_bar hread]
      have hnone : unescape ends .plain (mark :: t) = none := by
        rw [unescape, readOne, readPlain, if_neg hmark, if_pos hends]
        rfl
      change (unescape ends .plain (mark :: t)).map _ = none
      rw [hnone]
      rfl
  | cons c s ih =>
    rw [cons_append, unescape]
    cases readOne ends r c with
    | none => rfl
    | some p =>
      rcases p with ⟨next, units⟩
      change (unescape ends next (s ++ '|' :: mark :: t)).map _ = none
      rw [ih]
      rfl

theorem not_bar_mark (l : StringLiteral) (s t : Str) : l.body ≠ s ++ '|' :: l.mark :: t := by
  intro h
  have hsome := l.wellFormed
  have hmark : l.mark ≠ '\\' := by
    rcases l.isMark with h | h
    · rw [h]
      decide
    · rw [h]
      decide
  rw [h, unescape_bar_mark (decide_eq_true (.inl rfl)) hmark] at hsome
  cases hsome

/-- A literal with what follows a bar in it, up to its end. -/
theorem literal_eq_append {l : StringLiteral} (ht : t ≠ []) (h : l.text = s ++ '|' :: t) :
    ∃ s' u, l.body = s' ++ '|' :: u ∧ t = u ++ [l.mark] := by
  have hmark : l.mark ≠ '|' := by
    rcases l.isMark with h | h
    · rw [h]
      decide
    · rw [h]
      decide
  rw [StringLiteral.text] at h
  cases s with
  | nil => exact absurd (List.cons.inj h).1 hmark
  | cons c s =>
    have hrest : l.body ++ [l.mark] = s ++ '|' :: t := (List.cons.inj h).2
    rcases eq_nil_or_concat t with rfl | ⟨u, c', rfl⟩
    · exact absurd rfl ht
    · rw [concat_eq_append, ← cons_append, ← append_assoc] at hrest
      rcases append_inj' hrest rfl with ⟨hbody, hlast⟩
      refine ⟨s, u, hbody, ?_⟩
      rw [concat_eq_append, hlast]

/-- The text of an exported name is not what follows a bar in another one. -/
theorem text_ne_append (n n' : ModuleExportName) (s : Str) : n.text ≠ s ++ '|' :: n'.text := by
  intro h
  cases n with
  | name n =>
    have hbar : '|' ∈ n.text := by
      rw [show n.text = s ++ '|' :: n'.text from h]
      exact mem_append_right _ mem_cons_self
    exact (n.letters _ hbar).1 rfl
  | string l =>
    cases n' with
    | name n' =>
      rcases literal_eq_append n'.nonempty h with ⟨s', u, -, hend⟩
      have hmem : l.mark ∈ n'.text := by
        rw [hend]
        exact mem_append_right _ mem_cons_self
      rcases l.isMark with hmark | hmark
      · exact (n'.letters _ hmem).2.1 hmark
      · exact (n'.letters _ hmem).2.2 hmark
    | string l' =>
      rcases literal_eq_append (cons_ne_nil _ _) h with ⟨s', u, hbody, hend⟩
      have hend' : (l'.mark :: l'.body) ++ [l'.mark] = u ++ [l.mark] := hend
      rcases append_inj' hend' rfl with ⟨hu, hlast⟩
      rw [← hu, (List.cons.inj hlast).1] at hbody
      exact not_bar_mark l s' l'.body hbody

end Texts

section Shapes

/-- What an extractor puts into a binding. -/
structure Shaped (b : Binding) : Prop where
  imported : ∃ n : ModuleExportName, b.imported = n.text
  localName : ∃ n : Name, b.localName = n.text

variable {b : Binding} {specifier : Str}

theorem Shaped.local_bar (h : Shaped b) : '|' ∉ b.localName := by
  rcases h.localName with ⟨n, hn⟩
  intro hbar
  exact (n.letters _ (hn ▸ hbar)).1 rfl

theorem Shaped.local_ne_nil (h : Shaped b) : b.localName ≠ [] := by
  rcases h.localName with ⟨n, hn⟩
  rw [hn]
  exact n.nonempty

theorem Shaped.imported_ne_nil (h : Shaped b) : b.imported ≠ [] := by
  rcases h.imported with ⟨n, hn⟩
  rw [hn]
  cases n with
  | name n => exact n.nonempty
  | string l => exact cons_ne_nil _ _

/-- Texts tell bindings apart. -/
theorem referentText_inj {b' : Binding} (h : Shaped b) (h' : Shaped b')
    (heq : referentText b = referentText b') : b = b' := by
  have hassoc : ∀ b : Binding,
      referentText b = (b.specifier ++ '|' :: b.imported) ++ '|' :: b.localName := by
    intro b
    rw [append_assoc]
    rfl
  rw [hassoc, hassoc] at heq
  rcases append_bar_inj h.local_bar h'.local_bar heq with ⟨hfront, hlocal⟩
  rcases h.imported with ⟨n, hn⟩
  rcases h'.imported with ⟨n', hn'⟩
  have hparts : b.specifier = b'.specifier ∧ b.imported = b'.imported := by
    rcases append_eq_append_iff.mp hfront with ⟨x, hu, hx⟩ | ⟨x, hs, hx⟩
    · cases x with
      | nil =>
        rw [append_nil] at hu
        exact ⟨hu.symm, (List.cons.inj hx).2⟩
      | cons c x =>
        refine absurd ?_ (text_ne_append n n' x)
        rw [← hn, ← hn']
        exact (List.cons.inj hx).2
    · cases x with
      | nil =>
        rw [append_nil] at hs
        exact ⟨hs, (List.cons.inj hx).2.symm⟩
      | cons c x =>
        refine absurd ?_ (text_ne_append n' n x)
        rw [← hn, ← hn']
        exact (List.cons.inj hx).2
  rcases b with ⟨specifier, imported, localName⟩
  rcases b' with ⟨specifier', imported', localName'⟩
  exact (Binding.mk.injEq _ _ _ _ _ _).mpr ⟨hparts.1, hparts.2, hlocal⟩

variable {lineCount : Nat} {b : Binding}

theorem shaped_of_specifier {s : ImportSpecifier} (h : s.binding lineCount specifier = some b) :
    Shaped b := by
  cases s with
  | named name startLine endLine =>
    rw [ImportSpecifier.binding] at h
    split at h
    · cases h
      exact ⟨⟨.name name, rfl⟩, ⟨name, rfl⟩⟩
    · cases h
  | renamed name localName startLine endLine =>
    rw [ImportSpecifier.binding] at h
    split at h
    · cases h
      exact ⟨⟨name, rfl⟩, ⟨localName, rfl⟩⟩
    · cases h

/-- Bars and quotation marks. -/
def delimiters : Str := "|'\"".toList

/-- A word without delimiters. -/
def nameOf (text : Str) (hne : text ≠ []) (h : text.all (fun c => !delimiters.elem c) = true) :
    Name where
  text := text
  nonempty := hne
  letters := by
    intro c hc
    have htest := List.all_eq_true.mp h c hc
    refine ⟨?_, ?_, ?_⟩
    · rintro rfl
      cases htest
    · rintro rfl
      cases htest
    · rintro rfl
      cases htest

/-- The name of a default import. -/
def defaultName : Name :=
  nameOf "default".toList (List.cons_ne_nil _ _) rfl

theorem shaped_of_child {child : ClauseChild} (h : b ∈ child.bindings lineCount specifier) :
    Shaped b := by
  cases child with
  | identifier name startLine endLine =>
    rw [ClauseChild.bindings] at h
    split at h
    · rw [mem_singleton.mp h]
      exact ⟨⟨.name defaultName, rfl⟩, ⟨name, rfl⟩⟩
    · cases h
  | namedImports specifiers =>
    rcases mem_filterMap.mp h with ⟨s, -, hs⟩
    exact shaped_of_specifier hs
  | namespaceImport name => cases h

theorem shaped_of_statement {s : ImportStatement} (h : b ∈ s.bindings lineCount) : Shaped b := by
  rw [ImportStatement.bindings] at h
  split at h
  · cases h
  · split at h
    · rcases mem_flatMap.mp h with ⟨child, -, hchild⟩
      exact shaped_of_child hchild
    · cases h

mutual

theorem shaped_of_node : ∀ node : TsNode, b ∈ node.bindings lineCount → Shaped b
  | .importStatement _, h => shaped_of_statement h
  | .other namedChildren, h => shaped_of_children namedChildren h

theorem shaped_of_children : ∀ nodes : List TsNode, b ∈ childrenBindings lineCount nodes → Shaped b
  | [], h => absurd h not_mem_nil
  | node :: nodes, h => by
    rcases mem_append.mp h with h | h
    · exact shaped_of_node node h
    · exact shaped_of_children nodes h

end

end Shapes

section Readers

theorem before_bar {s : Str} (h : '|' ∉ s) (t : Str) :
    before '|' (s ++ '|' :: t) = s ∧
      (s ++ '|' :: t).dropWhile (fun c => c ≠ '|') = '|' :: t := by
  have hall : ∀ c ∈ s, decide (c ≠ '|') = true := fun c hc =>
    decide_eq_true (fun he => h (he ▸ hc))
  rw [before, takeWhile_append_of_pos hall, dropWhile_append_of_pos hall]
  exact ⟨append_nil s, rfl⟩

variable {v : Str} {b : Binding}

/-- Where a text has a bar, it is what is before the bar, the bar, and the rest. -/
theorem eq_before_bar {rest : Str} {c : Char} (h : v.dropWhile (fun c => c ≠ '|') = c :: rest) :
    v = before '|' v ++ '|' :: rest ∧ '|' ∉ before '|' v := by
  rcases split_first (fun c => c = '|') v with hfree | ⟨t, c', u, rfl, ht, hc⟩
  · have hall : ∀ c ∈ v, decide (c ≠ '|') = true := fun c hmem =>
      decide_eq_true (of_decide_eq_false (hfree c hmem))
    have hnil := dropWhile_eq_nil_iff.mpr hall
    rw [h] at hnil
    cases hnil
  · have hbar : c' = '|' := of_decide_eq_true hc
    have hfree : '|' ∉ t := fun hmem => absurd (ht _ hmem) (by decide)
    rw [hbar] at h ⊢
    rcases before_bar hfree u with ⟨hbefore, hdrop⟩
    rw [hdrop] at h
    rw [hbefore, (List.cons.inj h).2]
    exact ⟨rfl, hfree⟩

/-- What `_parse_import_binding` makes of a text. -/
theorem parse_eq_some :
    parseImportBinding (some v) = some b ↔
      v = referentText b ∧ '|' ∉ b.specifier ∧ '|' ∉ b.imported ∧
        b.specifier ≠ [] ∧ b.imported ≠ [] ∧ b.localName ≠ [] := by
  constructor
  · intro h
    rw [parseImportBinding, Option.bind_some] at h
    split at h
    · cases h
    · rename_i c rest hrest
      split at h
      · cases h
      · rename_i c' name hname
        split at h
        · cases h
        · rename_i hne
          rw [not_or, not_or] at hne
          cases h
          rcases eq_before_bar hrest with ⟨hv, hfree⟩
          rcases eq_before_bar hname with ⟨hv', hfree'⟩
          refine ⟨?_, hfree, hfree', hne.1, hne.2.1, hne.2.2⟩
          rw [referentText, ← hv', ← hv]
  · rintro ⟨rfl, hfree, hfree', hspecifier, himported, hlocal⟩
    rcases before_bar hfree (b.imported ++ '|' :: b.localName) with ⟨hbefore, hdrop⟩
    rcases before_bar hfree' b.localName with ⟨hbefore', hdrop'⟩
    rw [parseImportBinding, Option.bind_some, referentText]
    simp only [hdrop, hdrop', hbefore, hbefore', hspecifier, himported, hlocal, or_self, if_false]

variable [Unicode]

theorem stored_eq (hbar : Inert '|') (b : Binding) :
    stored b = nfc b.specifier ++ '|' :: (nfc b.imported ++ '|' :: nfc b.localName) := by
  rw [stored, referentText, hbar.append, hbar.append]

theorem stored_of_plain (hbar : Inert '|') (h : Plain b) : stored b = referentText b := by
  rw [stored_eq hbar, h.specifier, h.imported, h.localName]
  rfl

/-- The resolver reads a binding back iff the normalization changes nothing, the specifier is
    there and has no bar, and the imported name has none. -/
theorem parse_stored_iff (hbar : Inert '|') (hb : Shaped b) :
    parseImportBinding (some (stored b)) = some b ↔ Plain b := by
  rw [parse_eq_some]
  constructor
  · rintro ⟨htext, hfree, hfree', hne, -, -⟩
    rw [stored_eq hbar, referentText] at htext
    have hsplit := congrArg (splitOn '|') htext
    rw [splitOn_append (fun h => hfree ((hbar.mem _).mp h)), splitOn_append hfree,
      splitOn_append (fun h => hfree' ((hbar.mem _).mp h)), splitOn_append hfree',
      splitOn_free (fun h => hb.local_bar ((hbar.mem _).mp h)), splitOn_free hb.local_bar] at hsplit
    rcases List.cons.inj hsplit with ⟨hspecifier, hrest⟩
    rcases List.cons.inj hrest with ⟨himported, hrest⟩
    exact ⟨hspecifier, himported, (List.cons.inj hrest).1, hne, hfree, hfree'⟩
  · intro h
    exact ⟨stored_of_plain hbar h, h.specifier_bar, h.imported_bar, h.nonempty,
      hb.imported_ne_nil, hb.local_ne_nil⟩

omit [Unicode] in
/-- Repository Insights has the two parts that it needs. -/
theorem bindingParts_referentText (hfree : '|' ∉ b.specifier) (hfree' : '|' ∉ b.imported)
    (hspecifier : b.specifier ≠ []) (hlocal : b.localName ≠ []) :
    bindingParts (referentText b) = some (b.specifier, b.localName) := by
  rcases before_bar hfree (b.imported ++ '|' :: b.localName) with ⟨hbefore, hdrop⟩
  rcases before_bar hfree' b.localName with ⟨hbefore', hdrop'⟩
  rw [bindingParts, referentText]
  simp only [hdrop, hdrop', hbefore, hspecifier, hlocal, or_self, if_false]

omit [Unicode] in
/-- A key that leads to one value only. -/
theorem lookup_of_forall {α β : Type} [BEq α] [LawfulBEq α] {l : List (α × β)} {k : α} {v : β}
    (hmem : (k, v) ∈ l) (hall : ∀ p ∈ l, p.1 = k → p.2 = v) : l.lookup k = some v := by
  cases hlookup : l.lookup k with
  | none => exact absurd (lookup_eq_none_iff.mp hlookup _ hmem) (by simp)
  | some v' =>
    rcases lookup_eq_some_iff.mp hlookup with ⟨l₁, l₂, hl, -⟩
    have hin : (k, v') ∈ l := by
      rw [hl]
      exact mem_append_right _ mem_cons_self
    exact congrArg some (hall _ hin rfl)

/-- A local name that is bound once leads to its specifier. -/
theorem lookup_of_plain (hbar : Inert '|') {rows : Rows} {path : Str} {bindings : List Binding}
    (hrows : Recorded rows path bindings) (hshaped : ∀ b ∈ bindings, Shaped b)
    (hplain : ∀ b ∈ bindings, Plain b) (hb : b ∈ bindings)
    (honce : ∀ b' ∈ bindings, b'.localName = b.localName → b' = b) :
    (loadContext rows).importSpecifierByLocalName.lookup (path, b.localName) =
      some b.specifier := by
  have hparts : ∀ b ∈ bindings, bindingParts (stored b) = some (b.specifier, b.localName) := by
    intro b hb
    rw [stored_of_plain hbar (hplain b hb)]
    exact bindingParts_referentText (hplain b hb).specifier_bar (hplain b hb).imported_bar
      (hplain b hb).nonempty (hshaped b hb).local_ne_nil
  refine lookup_of_forall (mem_filterMap.mpr ?_) ?_
  · rcases hrows.kept b hb with ⟨o, ho, hkind, hreferent, e, he, hparent, hpath⟩
    have hstored : stored b ≠ [] := by
      rw [stored_of_plain hbar (hplain b hb)]
      exact append_ne_nil_of_right_ne_nil _ (cons_ne_nil _ _)
    have hfound : bindingReferent rows.observations o.id = some (stored b) := by
      have hfind : rows.observations.find? (fun o' => decide (o'.id = o.id)) = some o :=
        (Rows.find?_eq_some hrows.ids).mpr ⟨ho, rfl⟩
      rw [bindingReferent, hfind, Option.bind_some, hreferent,
        if_pos ⟨hkind, fun h => hstored (Option.some.inj h)⟩]
    refine ⟨e, he, ?_⟩
    rw [bindingOf, hparent, hpath]
    simp only [hrows.path_ne_nil, if_false, hfound]
    change (bindingParts (stored b)).bind _ = _
    rw [hparts b hb]
    rfl
  · intro p hp hkey
    rcases mem_filterMap.mp hp with ⟨e, he, hof⟩
    rw [bindingOf] at hof
    split at hof
    · rename_i pk hparent
      split at hof
      · cases hof
      · rcases Option.bind_eq_some_iff.mp hof with ⟨referent, hreferent, hof⟩
        rcases Option.bind_eq_some_iff.mp hof with ⟨parts, hsplit, hof⟩
        rw [← Option.some.inj hof] at hkey ⊢
        rcases Prod.mk.inj hkey with ⟨hpath, hlocal⟩
        rcases hrows.own e he hpath pk hparent referent hreferent with ⟨b', hb', rfl⟩
        rw [hparts b' hb'] at hsplit
        rw [← Option.some.inj hsplit] at hlocal ⊢
        rw [honce b' hb' hlocal]
    · cases hof

end Readers

section Files

variable [Unicode] {lineCount : Nat} {b : Binding}

theorem normalized_nil : nfc ([] : Str) = [] :=
  nfc_ascii [] (fun _ h => absurd h not_mem_nil)

/-- A dotted name is normalized if its parts are. -/
theorem normalized_dotted (hdot : Inert '.') {parts : List Str} (h : ∀ s ∈ parts, nfc s = s) :
    nfc (joinWith '.' parts) = joinWith '.' parts := by
  induction parts with
  | nil => exact normalized_nil
  | cons s parts ih =>
    have hs := h s mem_cons_self
    cases parts with
    | nil => exact hs
    | cons t parts =>
      rw [joinWith, hdot.append, hs, ih (fun u hu => h u (mem_cons_of_mem s hu))]

theorem normalized_specifier (hdot : Inert '.') (level : Nat) (module : List PyName) :
    nfc (moduleSpecifier level module) = moduleSpecifier level module := by
  have hname : nfc (joinWith '.' (module.map fun n => n.text)) =
      joinWith '.' (module.map fun n => n.text) := by
    refine normalized_dotted hdot (fun s hs => ?_)
    rcases mem_map.mp hs with ⟨n, -, rfl⟩
    exact n.normalized
  rw [moduleSpecifier]
  induction level with
  | zero => exact hname
  | succ level ih =>
    rw [replicate_succ, cons_append]
    have hstep := hdot.append [] (List.replicate level '.' ++
      joinWith '.' (module.map fun n => n.text))
    rw [nil_append, normalized_nil, nil_append] at hstep
    rw [hstep, ih]

theorem bar_specifier (level : Nat) (module : List PyName) :
    '|' ∉ moduleSpecifier level module := by
  intro h
  rcases mem_append.mp h with h | h
  · exact absurd (eq_of_mem_replicate h) (by decide)
  · rcases mem_joinWith h with h | ⟨s, hs, h⟩
    · exact absurd h (by decide)
    · rcases mem_map.mp hs with ⟨n, -, rfl⟩
      exact (n.letters _ h).1 rfl

theorem of_statement (hdot : Inert '.') {statement : PyStatement}
    (h : b ∈ statement.bindings lineCount) : Shaped b ∧ Plain b := by
  cases statement with
  | other => cases h
  | importFrom level module names startLine endLine =>
    rw [PyStatement.bindings] at h
    split at h
    · rcases mem_filterMap.mp h with ⟨name, -, hname⟩
      cases name with
      | star => cases hname
      | named name asname =>
        rw [PyAlias.binding] at hname
        split at hname
        · cases hname
        · rename_i hne
          cases hname
          refine ⟨⟨⟨.name name.toName, rfl⟩, ⟨(asname.getD name).toName, rfl⟩⟩, ?_⟩
          exact ⟨normalized_specifier hdot level module, name.normalized,
            (asname.getD name).normalized, hne, bar_specifier level module,
            fun hbar => (name.letters _ hbar).1 rfl⟩
    · cases h

theorem shaped_of_program (hdot : Inert '.') (lineCount : Nat) (program : Program) :
    ∀ b ∈ program.bindings lineCount, Shaped b := by
  intro b hb
  cases program with
  | typescript root => exact shaped_of_node root hb
  | python body =>
    rcases mem_flatMap.mp hb with ⟨statement, -, hstatement⟩
    exact (of_statement hdot hstatement).1

/-- The bindings of a file survive iff they are plain, which those of Python always are. Whatever
    they are, no two of a file have one text. -/
theorem bindings_survive (hbar : Inert '|') (hdot : Inert '.') (lineCount : Nat)
    (program : Program) (rows : Rows) (path : Str)
    (hrows : Recorded rows path (program.bindings lineCount)) :
    (Survives rows path (program.bindings lineCount) ↔
      ∀ b ∈ program.bindings lineCount, Plain b) ∧
    (∀ body, program = .python body → ∀ b ∈ program.bindings lineCount, Plain b) ∧
    ∀ b ∈ program.bindings lineCount, ∀ b' ∈ program.bindings lineCount,
      referentText b = referentText b' → b = b' := by
  have hshaped := shaped_of_program hdot lineCount program
  refine ⟨⟨fun h b hb => ?_, fun h => ?_⟩, ?_, ?_⟩
  · exact (parse_stored_iff hbar (hshaped b hb)).mp (h.parsed b hb)
  · refine ⟨fun b hb => ?_, fun b hb honce => ?_, fun b hb b' hb' heq => ?_⟩
    · exact (parse_stored_iff hbar (hshaped b hb)).mpr (h b hb)
    · exact lookup_of_plain hbar hrows hshaped h hb honce
    · rw [stored_of_plain hbar (h b hb), stored_of_plain hbar (h b' hb')] at heq
      exact referentText_inj (hshaped b hb) (hshaped b' hb') heq
  · rintro body rfl b hb
    rcases mem_flatMap.mp hb with ⟨statement, -, hstatement⟩
    exact (of_statement hdot hstatement).2
  · exact fun b hb b' hb' => referentText_inj (hshaped b hb) (hshaped b' hb')

end Files

section Samples

local instance bindingsText : Unicode := asciiText

theorem inert_ascii (c : Char) : Inert c where
  append _ _ := rfl
  mem _ := Iff.rfl

def helpName : Name :=
  nameOf "help".toList (List.cons_ne_nil _ _) rfl

def coreName : Name :=
  nameOf "core".toList (List.cons_ne_nil _ _) rfl

def assistName : Name :=
  nameOf "assist".toList (List.cons_ne_nil _ _) rfl

/-- `import … from "…"` in the line. -/
def importFrom (clause : List ClauseChild) (line : Nat) (source : String)
    (h : (unescape (fun c => c = '"' ∨ c = '\n' ∨ c = '\r') .plain
      source.toList).isSome) : TsNode :=
  .importStatement
    { clause := some clause
      source := some (literal source h)
      startLine := line
      endLine := line }

/-- `import core, { help as assist, help } from "./util"`, and `import core from "react"`, which
    binds a local name again. -/
def importHelp : Program :=
  .typescript (.other
    [importFrom [.identifier coreName 1 1, .namedImports [.renamed (.name helpName) assistName 1 1,
        .named helpName 1 1]] 1 "./util" (by decide),
      importFrom [.identifier coreName 2 2] 2 "react" (by decide)])

/-- What the store keeps of them. -/
def helpReferents : List String :=
  ["./util|default|core", "./util|help|assist", "./util|help|help", "react|default|core"]

def observationOf (referent : String × Nat) : RiObservation :=
  { id := referent.2
    observationId := "obs".toList
    observedKind := importBinding
    referentText := some referent.1.toList }

def evidenceOf (referent : String × Nat) : RiEvidence :=
  { id := referent.2
    parent := .observation referent.2
    path := "a.ts".toList
    startLine := 1
    endLine := 1
    granularity := .span
    extractor := "typescript-ast".toList
    extractorVersion := "1.2.0".toList }

/-- The rows of a file with some bindings. -/
def rowsOf (referents : List String) : Rows :=
  { nodes := []
    observations := referents.zipIdx.map observationOf
    evidence := referents.zipIdx.map evidenceOf
    diagnostics := [] }

theorem recorded_rowsOf {referents : List String} {bindings : List Binding}
    (h : bindings.map stored = referents.map String.toList) :
    Recorded (rowsOf referents) "a.ts".toList bindings where
  path_ne_nil := cons_ne_nil _ _
  ids := by
    have hids : (rowsOf referents).observations.map RiObservation.id =
        List.range' 0 referents.length := by
      rw [rowsOf, map_map]
      exact zipIdx_map_snd 0 referents
    rw [hids]
    exact nodup_range'
  own := by
    intro e he _ pk hparent text htext
    rcases Option.bind_eq_some_iff.mp htext with ⟨o, ho, hrow⟩
    rcases mem_map.mp (mem_of_find?_eq_some ho) with ⟨referent, hreferent, rfl⟩
    split at hrow
    · have hmem : text ∈ bindings.map stored := by
        rw [h, ← Option.some.inj hrow]
        exact mem_map_of_mem (fst_mem_of_mem_zipIdx hreferent)
      rcases mem_map.mp hmem with ⟨b, hb, hstored⟩
      exact ⟨b, hb, hstored.symm⟩
    · cases hrow
  kept := by
    intro b hb
    have hmem : stored b ∈ referents.map String.toList := by
      rw [← h]
      exact mem_map_of_mem hb
    rcases mem_map.mp hmem with ⟨referent, hreferent, hstored⟩
    rcases mem_iff_getElem?.mp hreferent with ⟨i, hi⟩
    have hzip : (referent, i) ∈ referents.zipIdx := mk_mem_zipIdx_iff_getElem?.mpr hi
    exact ⟨_, mem_map_of_mem hzip, rfl, congrArg some hstored, _, mem_map_of_mem hzip,
      rfl, rfl⟩

theorem bindings_survive_plain :
    (Survives (rowsOf helpReferents) "a.ts".toList (importHelp.bindings 2) ↔
      ∀ b ∈ importHelp.bindings 2, Plain b) ∧
    (∀ body, importHelp = .python body → ∀ b ∈ importHelp.bindings 2, Plain b) ∧
    ∀ b ∈ importHelp.bindings 2, ∀ b' ∈ importHelp.bindings 2,
      referentText b = referentText b' → b = b' :=
  bindings_survive (inert_ascii '|') (inert_ascii '.') 2 importHelp (rowsOf helpReferents)
    "a.ts".toList (recorded_rowsOf (by decide))

/-- `import { help } from "a|b"`. -/
def importBar : Program :=
  .typescript (importFrom [.namedImports [.named helpName 1 1]] 1 "a|b" (by decide))

/-- The specifier `a|b` is read as `a`, and the local name is not found. -/
theorem bindings_lost :
    ∃ b, importBar.bindings 1 = [b] ∧ Recorded (rowsOf ["a|b|help|help"]) "a.ts".toList [b] ∧
      parseImportBinding (some (stored b)) ≠ some b ∧
      (loadContext (rowsOf ["a|b|help|help"])).importSpecifierByLocalName.lookup
        ("a.ts".toList, b.localName) ≠ some b.specifier :=
  ⟨_, rfl, recorded_rowsOf (by decide), by decide, by decide⟩

end Samples

end ImportBindings

end Partha
