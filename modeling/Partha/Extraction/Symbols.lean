import Partha.Canonical.StableKeys
import Partha.Library.Nesting

/-!
# Symbols of a File

The declarations that the two extractors find in a file, and the stable keys they get.

`_collect_symbols` walks the statements of Python, and in TypeScript the nodes of the syntax
tree. The scope is a list of names. It makes the base key of a declaration, and
`DiscriminatorAssigner` puts a number behind all but the first that have the same one. The
number is not part of the scope of what is nested in the declaration.

Python descends into definitions only, and TypeScript into everything but a
`lexical_declaration`. A declaration whose span is not in the file has no node. In TypeScript
it has no scope either.

Both walks are one loop over the declarations in the order of the source, each with the names
around it. Decorators, routes and properties are left out.

## Main definitions

* `symbolStableKey`: `symbol_stable_key`.
* `assignKey`: `DiscriminatorAssigner.key`.
* `Statement`, `SyntaxNode`: The trees that are walked.
* `collectSymbols`: `_collect_symbols`.
* `Program.places`: The declarations, where they are nested.
* `keysOf`: Their stable keys.

## Theorems

* `collectSymbols_keys`: The symbols that are collected are the declarations.
-/

namespace Partha

namespace Extraction

open Canonical Checked Nesting List

section Definitions

/-- What is emitted: a symbol with its definition, or a `RI_KEY_DUP_SYMBOL` diagnostic. -/
inductive Emitted where
  | symbol (key name : Str) (startLine endLine : Nat)
  | duplicate (subject : Str)
  deriving DecidableEq, Repr

/-- The condition of `build_evidence` on a span. -/
def InFile (lineCount startLine endLine : Nat) : Prop :=
  1 ≤ startLine ∧ startLine ≤ endLine ∧ endLine ≤ lineCount

instance (lineCount startLine endLine : Nat) : Decidable (InFile lineCount startLine endLine) :=
  inferInstanceAs (Decidable (_ ∧ _))

/-- `DiscriminatorAssigner.key`, after the base keys that were `counted`. -/
def assignKey (counted : List Str) (base : Str) : Str × Bool :=
  let n := counted.count base + 1
  if n = 1 then (base, false) else (base ++ '#' :: Nat.toDigits 10 n, true)

variable [Unicode]

/-- `symbol_stable_key`. -/
def symbolStableKey (path : Str) (scope : List Str) (name : Str) : Except CanonicalError Str := do
  let normalized ← normalizeRepoPath path
  .ok (normalized ++ ':' :: ':' :: joinWith '.' (scope ++ [name]))

/-- What a walk has emitted, and the base keys that were counted. -/
abbrev Walk := Except CanonicalError (List Emitted × List Str)

end Definitions

section Python

/-- A statement, of which the collection looks at `FunctionDef`, `AsyncFunctionDef` and
    `ClassDef`. -/
inductive Statement where
  | definition (name : Str) (startLine endLine : Nat) (body : List Statement)
  | other

variable [Unicode]

/-- A definition. -/
def pythonSymbol (path : Str) (lineCount : Nat) (scope : List Str) (name : Str)
    (startLine endLine : Nat) (counted : List Str) : Walk := do
  let base ← symbolStableKey path scope name
  let symbols ←
    if InFile lineCount startLine endLine then do
      let key ← normalizeStableKey "symbol".toList (assignKey counted base).1
      .ok [Emitted.symbol key name startLine endLine]
    else .ok []
  let duplicates ←
    if (assignKey counted base).2 then do
      let key ← normalizeStableKey "symbol".toList (assignKey counted base).1
      .ok [Emitted.duplicate key]
    else .ok []
  .ok (symbols ++ duplicates, base :: counted)

mutual

/-- The collection at a statement. -/
def visitStatement (path : Str) (lineCount : Nat) (scope : List Str) :
    Statement → List Str → Walk
  | .definition name startLine endLine body, counted => do
    let here ← pythonSymbol path lineCount scope name startLine endLine counted
    let nested ← visitBody path lineCount (scope ++ [name]) body here.2
    .ok (here.1 ++ nested.1, nested.2)
  | .other, counted => .ok ([], counted)

/-- `visit`, of Python. -/
def visitBody (path : Str) (lineCount : Nat) (scope : List Str) :
    List Statement → List Str → Walk
  | [], counted => .ok ([], counted)
  | statement :: body, counted => do
    let here ← visitStatement path lineCount scope statement counted
    let rest ← visitBody path lineCount scope body here.2
    .ok (here.1 ++ rest.1, rest.2)

end

end Python

section TypeScript

/-- A node of the syntax tree with its named children. The child in the field `name` has a type
    and a text. Rows are counted from zero. -/
inductive SyntaxNode where
  | node (type : Str) (name : Option (Str × Str)) (startRow endRow : Nat)
      (namedChildren : List SyntaxNode)

/-- `_NAMED_DECLARATIONS`. -/
def namedDeclarations : List Str :=
  ["function_declaration", "function_signature", "generator_function_declaration",
    "class_declaration", "abstract_class_declaration", "interface_declaration",
    "type_alias_declaration", "enum_declaration", "method_definition"].map String.toList

/-- The name of a node that is a declaration. -/
def declaredName (type : Str) (name : Option (Str × Str)) : Option Str :=
  if namedDeclarations.contains type then name.map Prod.snd else none

/-- `_is_top_level`, by the types of the nodes around, the innermost one first. -/
def isTopLevel (parents : List Str) : Bool :=
  match parents with
  | [] => false
  | parent :: parents => parent = "program".toList ||
    parent = "export_statement".toList && parents.head? = some "program".toList

/-- A declaration with its lines. -/
structure Declaration where
  name : Str
  startLine : Nat
  endLine : Nat
  deriving DecidableEq, Repr

/-- What a child of a `lexical_declaration` declares. -/
def declarator : SyntaxNode → Option Declaration
  | .node type name startRow endRow _ =>
    if type = "variable_declarator".toList then
      (name.filter (fun n => n.1 = "identifier".toList)).map (fun n =>
        { name := n.2, startLine := startRow + 1, endLine := endRow + 1 })
    else none

variable [Unicode]

/-- `emit`. There is nothing if the span is not in the file. -/
def typescriptSymbol (path : Str) (lineCount : Nat) (scope : List Str) (d : Declaration)
    (counted : List Str) : Except CanonicalError (Option (List Emitted) × List Str) := do
  let base ← symbolStableKey path scope d.name
  let key ← normalizeStableKey "symbol".toList (assignKey counted base).1
  if InFile lineCount d.startLine d.endLine then
    .ok (some (Emitted.symbol key d.name d.startLine d.endLine ::
      if (assignKey counted base).2 then [Emitted.duplicate key] else []), base :: counted)
  else .ok (none, base :: counted)

/-- The declarators of a `lexical_declaration`. -/
def visitDeclarators (path : Str) (lineCount : Nat) (scope : List Str) :
    List Declaration → List Str → Walk
  | [], counted => .ok ([], counted)
  | d :: ds, counted => do
    let here ← typescriptSymbol path lineCount scope d counted
    let rest ← visitDeclarators path lineCount scope ds here.2
    .ok (here.1.getD [] ++ rest.1, rest.2)

mutual

/-- `visit`, of TypeScript. -/
def visitNode (path : Str) (lineCount : Nat) (scope parents : List Str) :
    SyntaxNode → List Str → Walk
  | .node type name startRow endRow namedChildren, counted =>
    if type = "lexical_declaration".toList then
      if isTopLevel parents then
        visitDeclarators path lineCount scope (namedChildren.filterMap declarator) counted
      else .ok ([], counted)
    else match declaredName type name with
      | none => visitNodes path lineCount scope (type :: parents) namedChildren counted
      | some text => do
        let here ← typescriptSymbol path lineCount scope
          { name := text, startLine := startRow + 1, endLine := endRow + 1 } counted
        let nested ← visitNodes path lineCount
          (if here.1.isSome then scope ++ [text] else scope) (type :: parents) namedChildren here.2
        .ok (here.1.getD [] ++ nested.1, nested.2)

/-- The collection at some nodes. -/
def visitNodes (path : Str) (lineCount : Nat) (scope parents : List Str) :
    List SyntaxNode → List Str → Walk
  | [], counted => .ok ([], counted)
  | node :: nodes, counted => do
    let here ← visitNode path lineCount scope parents node counted
    let rest ← visitNodes path lineCount scope parents nodes here.2
    .ok (here.1 ++ rest.1, rest.2)

end

end TypeScript

section Programs

/-- A module of Python, or a program of TypeScript. -/
inductive Program where
  | python (body : List Statement)
  | typescript (root : SyntaxNode)

/-- `_collect_symbols`. -/
def collectSymbols [Unicode] (path : Str) (lineCount : Nat) :
    Program → Except CanonicalError (List Emitted)
  | .python body => (visitBody path lineCount [] body []).map Prod.fst
  | .typescript root => (visitNode path lineCount [] [] root []).map Prod.fst

/-- The stable keys of the symbols among what is emitted. -/
def symbolKeys (emitted : List Emitted) : List Str :=
  emitted.filterMap (fun e => match e with
    | .symbol key _ _ _ => some key
    | .duplicate _ => none)

mutual

/-- The declarations of a statement. -/
def Statement.declarations : Statement → List (Nesting.Tree Declaration)
  | .definition name startLine endLine body =>
    [.node { name := name, startLine := startLine, endLine := endLine } (bodyDeclarations body)]
  | .other => []

def bodyDeclarations : List Statement → List (Nesting.Tree Declaration)
  | [] => []
  | statement :: body => statement.declarations ++ bodyDeclarations body

end

mutual

/-- The declarations at a node. -/
def SyntaxNode.declarations (parents : List Str) : SyntaxNode → List (Nesting.Tree Declaration)
  | .node type name startRow endRow namedChildren =>
    if type = "lexical_declaration".toList then
      if isTopLevel parents then
        (namedChildren.filterMap declarator).map (fun d => .node d [])
      else []
    else match declaredName type name with
      | none => nodesDeclarations (type :: parents) namedChildren
      | some text =>
        [.node { name := text, startLine := startRow + 1, endLine := endRow + 1 }
          (nodesDeclarations (type :: parents) namedChildren)]

def nodesDeclarations (parents : List Str) : List SyntaxNode → List (Nesting.Tree Declaration)
  | [] => []
  | node :: nodes => node.declarations parents ++ nodesDeclarations parents nodes

end

/-- The declarations of a program, where they are nested. -/
def Program.places : Program → List (Place Declaration)
  | .python body => forest (bodyDeclarations body)
  | .typescript root => forest (root.declarations [])

/-- The qualified name of a declaration. -/
def qualified (p : Place Declaration) : Str :=
  joinWith '.' (p.around.map Declaration.name ++ [p.label.name])

/-- The key of the `n`-th declaration with a base key. -/
def discriminated (base : Str) (n : Nat) : Str :=
  if n = 1 then base else base ++ '#' :: Nat.toDigits 10 n

/-- The base key of a declaration. -/
def baseKey (path : Str) (p : Place Declaration) : Str :=
  path ++ ':' :: ':' :: qualified p

/-- The stable keys of declarations, after the base keys that were counted. -/
def keysOf [Unicode] (path : Str) (counted : List Str) (ps : List (Place Declaration)) :
    Except CanonicalError (List Str) :=
  collect (fun q => normalizeStableKey "symbol".toList (discriminated (baseKey path q.1) q.2))
    (number (baseKey path) counted ps)

end Programs

section Loop

variable [Unicode] {path : Str} {lineCount : Nat}

/-- One declaration. -/
def declare (path : Str) (p : Place Declaration) (counted : List Str) : Walk := do
  let key ← normalizeStableKey "symbol".toList (assignKey counted (baseKey path p)).1
  .ok (Emitted.symbol key p.label.name p.label.startLine p.label.endLine ::
    if (assignKey counted (baseKey path p)).2 then [Emitted.duplicate key] else [],
    baseKey path p :: counted)

/-- Declarations in the order of the source. -/
def declareAll (path : Str) : List (Place Declaration) → List Str → Walk
  | [], counted => .ok ([], counted)
  | p :: ps, counted => do
    let here ← declare path p counted
    let rest ← declareAll path ps here.2
    .ok (here.1 ++ rest.1, rest.2)

theorem declareAll_append (ps ps' : List (Place Declaration)) (counted : List Str) :
    declareAll path (ps ++ ps') counted =
      declareAll path ps counted >>= fun here => declareAll path ps' here.2 >>= fun rest =>
        .ok (here.1 ++ rest.1, rest.2) := by
  induction ps generalizing counted with
  | nil =>
    rw [nil_append, declareAll, ok_bind]
    cases declareAll path ps' counted with
    | error e => rfl
    | ok r => rfl
  | cons p ps ih =>
    rw [cons_append, declareAll, declareAll]
    cases declare path p counted with
    | error e => rfl
    | ok here =>
      simp only [ok_bind, ih]
      cases declareAll path ps here.2 with
      | error e => rfl
      | ok rest =>
        simp only [ok_bind]
        cases declareAll path ps' rest.2 with
        | error e => rfl
        | ok rest' => simp only [ok_bind, append_assoc]

/-- Every declaration has its span in the file. -/
def AllInFile (lineCount : Nat) (ps : List (Place Declaration)) : Prop :=
  ∀ p ∈ ps, InFile lineCount p.label.startLine p.label.endLine

theorem symbolStableKey_eq (hpath : normalizeRepoPath path = .ok path) (p : Place Declaration) :
    symbolStableKey path (p.around.map Declaration.name) p.label.name = .ok (baseKey path p) := by
  rw [symbolStableKey, hpath]
  rfl

variable {p : Place Declaration}

theorem pythonSymbol_eq (hpath : normalizeRepoPath path = .ok path)
    (h : InFile lineCount p.label.startLine p.label.endLine) (counted : List Str) :
    pythonSymbol path lineCount (p.around.map Declaration.name) p.label.name p.label.startLine
      p.label.endLine counted = declare path p counted := by
  rw [pythonSymbol, symbolStableKey_eq hpath, declare]
  simp only [ok_bind, if_pos h]
  cases normalizeStableKey "symbol".toList (assignKey counted (baseKey path p)).1 with
  | error e => rfl
  | ok key =>
    simp only [ok_bind]
    cases (assignKey counted (baseKey path p)).2 with
    | true => rfl
    | false => rfl

theorem typescriptSymbol_eq (hpath : normalizeRepoPath path = .ok path)
    (h : InFile lineCount p.label.startLine p.label.endLine) (counted : List Str) :
    typescriptSymbol path lineCount (p.around.map Declaration.name) p.label counted =
      declare path p counted >>= fun here => .ok (some here.1, here.2) := by
  rw [typescriptSymbol, symbolStableKey_eq hpath, declare]
  simp only [ok_bind, if_pos h]
  cases normalizeStableKey "symbol".toList (assignKey counted (baseKey path p)).1 with
  | error e => rfl
  | ok key => rfl

mutual

/-- The walk of Python is the loop over the declarations. -/
theorem visitStatement_eq (hpath : normalizeRepoPath path = .ok path) :
    ∀ (statement : Statement) (around : List Declaration) (address : List Nat) (i : Nat)
      (counted : List Str),
      AllInFile lineCount (placesAll around address i statement.declarations) →
      visitStatement path lineCount (around.map Declaration.name) statement counted =
        declareAll path (placesAll around address i statement.declarations) counted
  | .definition name startLine endLine body, around, address, i, counted, h => by
    rw [Statement.declarations, placesAll, placesAll, append_nil, places] at h ⊢
    have hhere := pythonSymbol_eq hpath (h _ mem_cons_self) counted
    have hnested := fun counted' => visitBody_eq hpath body _ _ _ counted'
      (fun p hp => h p (mem_cons_of_mem _ hp))
    rw [map_append, map_singleton] at hnested
    rw [visitStatement, declareAll]
    simp only [hnested]
    exact congrArg (fun x => x >>= _) hhere
  | .other, _, _, _, _, _ => rfl

theorem visitBody_eq (hpath : normalizeRepoPath path = .ok path) :
    ∀ (body : List Statement) (around : List Declaration) (address : List Nat) (i : Nat)
      (counted : List Str),
      AllInFile lineCount (placesAll around address i (bodyDeclarations body)) →
      visitBody path lineCount (around.map Declaration.name) body counted =
        declareAll path (placesAll around address i (bodyDeclarations body)) counted
  | [], _, _, _, _, _ => rfl
  | statement :: body, around, address, i, counted, h => by
    rw [bodyDeclarations, placesAll_append] at h ⊢
    rw [visitBody, declareAll_append, visitStatement_eq hpath statement around address i counted
      (fun p hp => h p (mem_append_left _ hp))]
    refine bind_congr (fun here => ?_)
    rw [visitBody_eq hpath body around address _ here.2
      (fun p hp => h p (mem_append_right _ hp))]

end

theorem visitDeclarators_eq (hpath : normalizeRepoPath path = .ok path) (ds : List Declaration)
    (around : List Declaration) (address : List Nat) (i : Nat) (counted : List Str)
    (h : AllInFile lineCount (placesAll around address i (ds.map (fun d => .node d [])))) :
    visitDeclarators path lineCount (around.map Declaration.name) ds counted =
      declareAll path (placesAll around address i (ds.map (fun d => .node d []))) counted := by
  induction ds generalizing i counted with
  | nil => rfl
  | cons d ds ih =>
    rw [map_cons, placesAll, places, placesAll, cons_append, nil_append] at h ⊢
    have hhere := typescriptSymbol_eq hpath (h _ mem_cons_self) counted
    rw [visitDeclarators, declareAll]
    refine (congrArg (fun x => x >>= _) hhere).trans ?_
    rw [bind_assoc]
    refine bind_congr (fun here => ?_)
    rw [ok_bind, ih _ _ (fun p hp => h p (mem_cons_of_mem _ hp))]
    rfl

mutual

/-- So is the walk of TypeScript. -/
theorem visitNode_eq (hpath : normalizeRepoPath path = .ok path) :
    ∀ (node : SyntaxNode) (parents : List Str) (around : List Declaration) (address : List Nat)
      (i : Nat) (counted : List Str),
      AllInFile lineCount (placesAll around address i (node.declarations parents)) →
      visitNode path lineCount (around.map Declaration.name) parents node counted =
        declareAll path (placesAll around address i (node.declarations parents)) counted
  | .node type name startRow endRow namedChildren, parents, around, address, i, counted, h => by
    rw [SyntaxNode.declarations] at h ⊢
    rw [visitNode]
    by_cases hlexical : type = "lexical_declaration".toList
    · rw [if_pos hlexical] at h ⊢
      rw [if_pos hlexical]
      by_cases htop : isTopLevel parents = true
      · rw [if_pos htop] at h ⊢
        rw [if_pos htop]
        exact visitDeclarators_eq hpath _ around address i counted h
      · rw [if_neg htop, if_neg htop]
        rfl
    rw [if_neg hlexical] at h ⊢
    rw [if_neg hlexical]
    cases hname : declaredName type name with
    | none =>
      rw [hname] at h
      exact visitNodes_eq hpath namedChildren (type :: parents) around address i counted h
    | some text =>
      rw [hname] at h
      change AllInFile lineCount (placesAll around address i [.node _ _]) at h
      change _ = declareAll path (placesAll around address i [.node _ _]) counted
      rw [placesAll, placesAll, append_nil, places] at h ⊢
      have hhere := typescriptSymbol_eq hpath (h _ mem_cons_self) counted
      have hnested := fun counted' => visitNodes_eq hpath namedChildren (type :: parents) _ _ _
        counted' (fun p hp => h p (mem_cons_of_mem _ hp))
      rw [map_append, map_singleton] at hnested
      rw [declareAll]
      refine (congrArg (fun x => x >>= _) hhere).trans ?_
      rw [bind_assoc]
      refine bind_congr (fun here => ?_)
      rw [ok_bind, Option.isSome_some, if_pos rfl, hnested]
      rfl

theorem visitNodes_eq (hpath : normalizeRepoPath path = .ok path) :
    ∀ (nodes : List SyntaxNode) (parents : List Str) (around : List Declaration)
      (address : List Nat) (i : Nat) (counted : List Str),
      AllInFile lineCount (placesAll around address i (nodesDeclarations parents nodes)) →
      visitNodes path lineCount (around.map Declaration.name) parents nodes counted =
        declareAll path (placesAll around address i (nodesDeclarations parents nodes)) counted
  | [], _, _, _, _, _, _ => rfl
  | node :: nodes, parents, around, address, i, counted, h => by
    rw [nodesDeclarations, placesAll_append] at h ⊢
    rw [visitNodes, declareAll_append, visitNode_eq hpath node parents around address i counted
      (fun p hp => h p (mem_append_left _ hp))]
    refine bind_congr (fun here => ?_)
    rw [visitNodes_eq hpath nodes parents around address _ here.2
      (fun p hp => h p (mem_append_right _ hp))]

end

omit [Unicode] in
theorem assignKey_eq (counted : List Str) (base : Str) :
    (assignKey counted base).1 = discriminated base (counted.count base + 1) := by
  unfold assignKey discriminated
  by_cases hone : counted.count base + 1 = 1
  · simp [hone]
  · simp only [hone, if_false]

theorem keysOf_cons (p : Place Declaration) (ps : List (Place Declaration)) (counted : List Str) :
    keysOf path counted (p :: ps) =
      normalizeStableKey "symbol".toList
          (discriminated (baseKey path p) (counted.count (baseKey path p) + 1)) >>= fun key =>
        keysOf path (baseKey path p :: counted) ps >>= fun keys => .ok (key :: keys) :=
  rfl

/-- The symbols of the loop have the keys that are numbered. -/
theorem declareAll_keys (ps : List (Place Declaration)) (counted : List Str) :
    (declareAll path ps counted).map (fun r => symbolKeys r.1) = keysOf path counted ps := by
  induction ps generalizing counted with
  | nil => rfl
  | cons p ps ih =>
    rw [declareAll, declare, assignKey_eq, keysOf_cons, ← ih]
    cases normalizeStableKey "symbol".toList
        (discriminated (baseKey path p) (counted.count (baseKey path p) + 1)) with
    | error e => rfl
    | ok key =>
      simp only [ok_bind]
      cases declareAll path ps (baseKey path p :: counted) with
      | error e => rfl
      | ok r =>
        change Except.ok (symbolKeys (_ ++ r.1)) = Except.ok (key :: symbolKeys r.1)
        rw [symbolKeys, filterMap_append]
        cases (assignKey counted (baseKey path p)).2 with
        | true => rfl
        | false => rfl

/-- The symbols that are collected of a program are its declarations, in their order. -/
theorem collectSymbols_keys (hpath : normalizeRepoPath path = .ok path) (program : Program)
    (h : AllInFile lineCount program.places) :
    (collectSymbols path lineCount program).map symbolKeys = keysOf path [] program.places := by
  have hmap : ∀ w : Walk, (w.map Prod.fst).map symbolKeys = w.map (fun r => symbolKeys r.1) := by
    intro w
    cases w with
    | error e => rfl
    | ok r => rfl
  rw [← declareAll_keys]
  cases program with
  | python body =>
    rw [collectSymbols]
    have hwalk := visitBody_eq hpath body [] [] 0 [] h
    rw [map_nil] at hwalk
    rw [hwalk]
    exact hmap _
  | typescript root =>
    rw [collectSymbols]
    have hwalk := visitNode_eq hpath root [] [] [] 0 [] h
    rw [map_nil] at hwalk
    rw [hwalk]
    exact hmap _

end Loop

section Counting

variable [Unicode] {path : Str} {lineCount : Nat}

/-- If the walk ends, it has emitted so many symbols. -/
def Counts (w : Walk) (n : Nat) : Prop :=
  ∀ r, w = .ok r → (symbolKeys r.1).length = n

/-- How many of some declarations have their span in the file. -/
def inFileCount (lineCount : Nat) (ps : List (Place Declaration)) : Nat :=
  ps.countP (fun p => decide (InFile lineCount p.label.startLine p.label.endLine))

omit [Unicode] in
theorem symbolKeys_append (es es' : List Emitted) :
    symbolKeys (es ++ es') = symbolKeys es ++ symbolKeys es' :=
  filterMap_append

omit [Unicode] in
theorem Counts.append {w : Walk} {f : List Str → Walk} {m n : Nat} (hw : Counts w m)
    (hf : ∀ counted, Counts (f counted) n) :
    Counts (w >>= fun here => f here.2 >>= fun rest => .ok (here.1 ++ rest.1, rest.2)) (m + n) := by
  intro r hr
  cases w with
  | error e => cases hr
  | ok here =>
    rw [ok_bind] at hr
    cases hrest : f here.2 with
    | error e =>
      rw [hrest] at hr
      cases hr
    | ok rest =>
      rw [hrest, ok_bind] at hr
      cases hr
      change (symbolKeys (here.1 ++ rest.1)).length = m + n
      rw [symbolKeys_append, length_append, hw here rfl, hf _ rest hrest]

omit [Unicode] in
theorem inFileCount_cons (p : Place Declaration) (ps : List (Place Declaration)) :
    inFileCount lineCount (p :: ps) =
      (if InFile lineCount p.label.startLine p.label.endLine then 1 else 0) +
        inFileCount lineCount ps := by
  rw [inFileCount, countP_cons, Nat.add_comm]
  simp only [decide_eq_true_eq]
  rfl

theorem pythonSymbol_count (scope : List Str) (name : Str) (startLine endLine : Nat)
    (counted : List Str) :
    Counts (pythonSymbol path lineCount scope name startLine endLine counted)
      (if InFile lineCount startLine endLine then 1 else 0) := by
  intro r hr
  rw [pythonSymbol] at hr
  cases hbase : symbolStableKey path scope name with
  | error e =>
    rw [hbase] at hr
    cases hr
  | ok base =>
    simp only [hbase, ok_bind] at hr
    cases hkey : normalizeStableKey "symbol".toList (assignKey counted base).1 with
    | error e =>
      simp only [hkey, error_bind] at hr
      split at hr
      · cases hr
      · split at hr
        · cases hr
        · rename_i hin _
          rw [← Except.ok.inj hr, if_neg hin]
          rfl
    | ok key =>
      simp only [hkey, ok_bind] at hr
      split at hr
      · rename_i hin
        split at hr
        · rw [← Except.ok.inj hr, if_pos hin]
          rfl
        · rw [← Except.ok.inj hr, if_pos hin]
          rfl
      · rename_i hin
        split at hr
        · rw [← Except.ok.inj hr, if_neg hin]
          rfl
        · rw [← Except.ok.inj hr, if_neg hin]
          rfl

theorem typescriptSymbol_count {scope : List Str} {d : Declaration} {counted : List Str}
    {here : Option (List Emitted) × List Str}
    (h : typescriptSymbol path lineCount scope d counted = .ok here) :
    (symbolKeys (here.1.getD [])).length =
      if InFile lineCount d.startLine d.endLine then 1 else 0 := by
  rw [typescriptSymbol] at h
  cases hbase : symbolStableKey path scope d.name with
  | error e =>
    rw [hbase] at h
    cases h
  | ok base =>
    simp only [hbase, ok_bind] at h
    cases hkey : normalizeStableKey "symbol".toList (assignKey counted base).1 with
    | error e =>
      rw [hkey] at h
      cases h
    | ok key =>
      rw [hkey, ok_bind] at h
      split at h
      · rename_i hin
        rw [← Except.ok.inj h, if_pos hin]
        cases (assignKey counted base).2 with
        | true => rfl
        | false => rfl
      · rename_i hin
        rw [← Except.ok.inj h, if_neg hin]
        rfl

mutual

/-- Python has a symbol for each definition that is in the file. -/
theorem visitStatement_count :
    ∀ (statement : Statement) (scope : List Str) (around : List Declaration) (address : List Nat)
      (i : Nat) (counted : List Str),
      Counts (visitStatement path lineCount scope statement counted)
        (inFileCount lineCount (placesAll around address i statement.declarations))
  | .definition name startLine endLine body, scope, around, address, i, counted => by
    rw [Statement.declarations, placesAll, placesAll, append_nil, places, inFileCount_cons,
      visitStatement]
    exact Counts.append (pythonSymbol_count scope name startLine endLine counted)
      (visitBody_count body _ _ _ _)
  | .other, _, _, _, _, counted => fun r hr => by
    cases hr
    rfl

theorem visitBody_count :
    ∀ (body : List Statement) (scope : List Str) (around : List Declaration) (address : List Nat)
      (i : Nat) (counted : List Str),
      Counts (visitBody path lineCount scope body counted)
        (inFileCount lineCount (placesAll around address i (bodyDeclarations body)))
  | [], _, _, _, _, counted => fun r hr => by
    cases hr
    rfl
  | statement :: body, scope, around, address, i, counted => by
    rw [bodyDeclarations, placesAll_append, inFileCount, countP_append, visitBody]
    exact Counts.append (visitStatement_count statement scope around address i counted)
      (visitBody_count body scope around address _)

end

theorem visitDeclarators_count (ds : List Declaration) (scope : List Str)
    (around : List Declaration) (address : List Nat) (i : Nat) (counted : List Str) :
    Counts (visitDeclarators path lineCount scope ds counted)
      (inFileCount lineCount (placesAll around address i (ds.map (fun d => .node d [])))) := by
  induction ds generalizing i counted with
  | nil =>
    intro r hr
    cases hr
    rfl
  | cons d ds ih =>
    rw [map_cons, placesAll, places, placesAll, cons_append, nil_append,
      inFileCount_cons, visitDeclarators]
    intro r hr
    cases hhere : typescriptSymbol path lineCount scope d counted with
    | error e =>
      rw [hhere] at hr
      cases hr
    | ok here =>
      rw [hhere, ok_bind] at hr
      exact Counts.append (w := .ok (here.1.getD [], here.2))
        (fun r hr => by rw [← Except.ok.inj hr, typescriptSymbol_count hhere]) (ih _) r hr

mutual

/-- So has TypeScript. What is not in the file is no scope of what is in it. -/
theorem visitNode_count :
    ∀ (node : SyntaxNode) (scope parents : List Str) (around : List Declaration)
      (address : List Nat) (i : Nat) (counted : List Str),
      Counts (visitNode path lineCount scope parents node counted)
        (inFileCount lineCount (placesAll around address i (node.declarations parents)))
  | .node type name startRow endRow namedChildren, scope, parents, around, address, i, counted => by
    rw [SyntaxNode.declarations, visitNode]
    by_cases hlexical : type = "lexical_declaration".toList
    · rw [if_pos hlexical, if_pos hlexical]
      by_cases htop : isTopLevel parents = true
      · rw [if_pos htop, if_pos htop]
        exact visitDeclarators_count _ scope around address i counted
      · rw [if_neg htop, if_neg htop]
        intro r hr
        cases hr
        rfl
    rw [if_neg hlexical, if_neg hlexical]
    cases declaredName type name with
    | none => exact visitNodes_count namedChildren scope _ around address i counted
    | some text =>
      change Counts _ (inFileCount lineCount (placesAll around address i [.node _ _]))
      rw [placesAll, placesAll, append_nil, places, inFileCount_cons]
      intro r hr
      cases hhere : typescriptSymbol path lineCount scope
          { name := text, startLine := startRow + 1, endLine := endRow + 1 } counted with
      | error e =>
        simp only [hhere, error_bind] at hr
        cases hr
      | ok here =>
        simp only [hhere, ok_bind] at hr
        exact Counts.append (w := .ok (here.1.getD [], here.2))
          (fun r hr => by rw [← Except.ok.inj hr, typescriptSymbol_count hhere])
          (visitNodes_count namedChildren _ _ _ _ _) r hr

theorem visitNodes_count :
    ∀ (nodes : List SyntaxNode) (scope parents : List Str) (around : List Declaration)
      (address : List Nat) (i : Nat) (counted : List Str),
      Counts (visitNodes path lineCount scope parents nodes counted)
        (inFileCount lineCount (placesAll around address i (nodesDeclarations parents nodes)))
  | [], _, _, _, _, _, counted => fun r hr => by
    cases hr
    rfl
  | node :: nodes, scope, parents, around, address, i, counted => by
    rw [nodesDeclarations, placesAll_append, inFileCount, countP_append, visitNodes]
    exact Counts.append (visitNode_count node scope parents around address i counted)
      (visitNodes_count nodes scope parents around address _)

end

/-- If there is a symbol for every declaration, then all of them are in the file. -/
theorem allInFile_of_length (program : Program) {emitted : List Emitted}
    (hemitted : collectSymbols path lineCount program = .ok emitted)
    (h : (symbolKeys emitted).length = program.places.length) :
    AllInFile lineCount program.places := by
  have hcount : (symbolKeys emitted).length = inFileCount lineCount program.places := by
    cases program with
    | python body =>
      rcases map_eq_ok.mp hemitted with ⟨r, hr, rfl⟩
      exact visitBody_count body [] [] [] 0 [] r hr
    | typescript root =>
      rcases map_eq_ok.mp hemitted with ⟨r, hr, rfl⟩
      exact visitNode_count root [] [] [] [] 0 [] r hr
  intro p hp
  exact of_decide_eq_true (countP_eq_length.mp (hcount.symm.trans h) p hp)

end Counting

end Extraction

end Partha
