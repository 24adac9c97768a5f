import Partha.Extraction.Naming

/-!
# Calls of a Python File

What the Python extractor records of the calls in a file, and how observations
are numbered.

`_collect_calls` walks the syntax tree with the scopes around each node. A call
of a bare name becomes a `call` observation. If the name is bound in a scope of
the file other than the module's, a `call_shadowed` observation of the same lines
goes with it. Two calls of a name on one line are alike but for their columns,
which are not recorded. `assign_ordinals` numbers what is otherwise alike, in the
order of the source, and separately for each kind of observation.

A syntax tree keeps what the walk looks at. The parts of a signature that are
scanned (decorators, defaults, annotations) are one list in the order of the
scan, and the parameters are their names. Every node without a case of its own
is `other`, with its children.

## Main definitions

* `Ast`: A syntax tree.
* `declarations`: `_ScopeDeclarations`.
* `BindingScope`: `_BindingScope`, without its parents.
* `isLexicallyLocal`: `is_lexically_local`.
* `callSites`: The calls of a file that are recorded.
* `collectCalls`: `_collect_calls`.
* `assignOrdinals`: `assign_ordinals`.

## Theorems

* `mem_assignOrdinals`: The ordinals of an identity count its observations.
-/

namespace Partha

namespace Extraction

open Canonical

section Trees

/-- `ast.alias`. -/
structure Alias where
  name : Str
  asname : Option Str
  deriving DecidableEq, Repr

/-- A node of `ast`. -/
inductive Ast where
  | functionDef (name : Str) (signature : List Ast) (parameters : List Str)
      (body : List Ast)
  | lambda (defaults : List Ast) (parameters : List Str) (body : Ast)
  | classDef (name : Str) (heads body : List Ast)
  | name (id : Str) (store : Bool)
  | imports (names : List Alias)
  | importFrom (names : List Alias)
  | globals (names : List Str)
  | nonlocals (names : List Str)
  | call (startLine endLine : Nat) (func : Ast) (arguments keywords : List Ast)
  | other (children : List Ast)

/-- `_ScopeDeclarations`: the names that a body binds, and those that it declares
    to be bound outside. -/
structure Declarations where
  names : List Str
  globalNames : List Str
  nonlocalNames : List Str

def Declarations.none : Declarations :=
  { names := [], globalNames := [], nonlocalNames := [] }

def Declarations.append (d d' : Declarations) : Declarations :=
  { names := d.names ++ d'.names
    globalNames := d.globalNames ++ d'.globalNames
    nonlocalNames := d.nonlocalNames ++ d'.nonlocalNames }

/-- `alias.asname or alias.name.split(".", 1)[0]`. -/
def Alias.rootName (a : Alias) : Str :=
  (a.asname.filter (fun name => name ≠ [])).getD (before '.' a.name)

/-- `alias.asname or alias.name`. -/
def Alias.boundName (a : Alias) : Str :=
  (a.asname.filter (fun name => name ≠ [])).getD a.name

mutual

/-- `_ScopeDeclarations.visit`. Bodies with a scope of their own are left out. -/
def declarations : Ast → Declarations
  | .functionDef name _ _ _ => { Declarations.none with names := [name] }
  | .lambda _ _ _ => Declarations.none
  | .classDef name _ _ => { Declarations.none with names := [name] }
  | .name id store => { Declarations.none with names := if store then [id] else [] }
  | .imports names => { Declarations.none with names := names.map Alias.rootName }
  | .importFrom names =>
    { Declarations.none with
      names := (names.filter (fun a => a.name ≠ ['*'])).map Alias.boundName }
  | .globals names => { Declarations.none with globalNames := names }
  | .nonlocals names => { Declarations.none with nonlocalNames := names }
  | .call _ _ func arguments keywords =>
    ((declarations func).append (declarationsOf arguments)).append (declarationsOf keywords)
  | .other children => declarationsOf children

/-- The declarations of a body. -/
def declarationsOf : List Ast → Declarations
  | [] => Declarations.none
  | node :: nodes => (declarations node).append (declarationsOf nodes)

end

end Trees

section Scopes

inductive ScopeKind where
  | module_
  | function
  | class_
  deriving DecidableEq, Repr

/-- `_BindingScope`. What the calls ask of a binding is whether it is there. The
    parents of a scope are the scopes after it in a list. -/
structure BindingScope where
  kind : ScopeKind
  bindings : List Str
  globalNames : List Str
  nonlocalNames : List Str

/-- `is_lexically_local`. Where `enclosing`, class scopes are passed over first,
    as `_nonlocal_parent` does. -/
def isLexicallyLocal (name : Str) (enclosing : Bool) : List BindingScope → Bool
  | [] => false
  | scope :: parents =>
    if enclosing && scope.kind = .class_ then isLexicallyLocal name true parents
    else if scope.globalNames.contains name then false
    else if scope.nonlocalNames.contains name then isLexicallyLocal name true parents
    else if scope.bindings.contains name then scope.kind ≠ .module_
    else isLexicallyLocal name false parents

/-- `_module_scope().bindings`. -/
def moduleBindings (scopes : List BindingScope) : List Str :=
  (scopes.getLast?.map (·.bindings)).getD []

/-- `resolve`: whether a name has a binding. -/
def resolves (name : Str) (enclosing : Bool) : List BindingScope → Bool
  | [] => false
  | scope :: parents =>
    if enclosing && scope.kind = .class_ then resolves name true parents
    else if scope.globalNames.contains name then
      (moduleBindings (scope :: parents)).contains name
    else if scope.nonlocalNames.contains name then resolves name true parents
    else if scope.bindings.contains name then true
    else resolves name false parents

/-- `_function_scope`. -/
def functionScope (parameters : List Str) (body : List Ast) : BindingScope :=
  let declared := declarationsOf body
  { kind := .function
    bindings := (declared.names ++ parameters).filter (fun name =>
      !declared.globalNames.contains name && !declared.nonlocalNames.contains name)
    globalNames := declared.globalNames
    nonlocalNames := declared.nonlocalNames }

/-- `class_scope`. -/
def classScope (body : List Ast) : BindingScope :=
  { kind := .class_
    bindings := (declarationsOf body).names
    globalNames := []
    nonlocalNames := [] }

/-- `_function_parent`. -/
def functionParent (scopes : List BindingScope) : List BindingScope :=
  scopes.dropWhile (fun scope => scope.kind = .class_)

/-- The scope of a module, with the declarations of its statements. -/
def moduleScope (body : List Ast) : BindingScope :=
  { kind := .module_
    bindings := (declarationsOf body).names
    globalNames := []
    nonlocalNames := [] }

end Scopes

section Calls

/-- A call that is recorded. `injected` are the names among the arguments of a
    dependency marker. -/
structure CallSite where
  name : Str
  startLine : Nat
  endLine : Nat
  shadowed : Bool
  injected : List Str
  deriving DecidableEq, Repr

/-- What makes two calls of a file alike. -/
def CallSite.place (c : CallSite) : Str × Nat × Nat :=
  (c.name, c.startLine, c.endLine)

/-- The direct calls that are unsupported. -/
def reflectionCalls : List Str :=
  ["dir", "getattr", "hasattr", "setattr", "vars"].map String.toList

/-- `_DEPENDENCY_MARKERS`. -/
def dependencyMarkers : List Str :=
  ["Depends".toList]

/-- The names among arguments. -/
def argumentNames (arguments : List Ast) : List Str :=
  arguments.filterMap (fun argument => match argument with
    | .name id _ => some id
    | _ => none)

variable [Interpreter]

/-- `_PYTHON_BUILTIN_NAMES`. -/
def pythonBuiltinNames : List Str :=
  Interpreter.builtinNames.filter (fun name => !startsWith name ['_'])

/-- `emit`: the call as it is recorded. A span that is not within the file is a
    diagnostic instead. -/
def emit (lineCount : Nat) (scopes : List BindingScope) (startLine endLine : Nat)
    (func : Ast) (arguments : List Ast) : List CallSite :=
  match func with
  | .name id _ =>
    if reflectionCalls.contains id then []
    else if pythonBuiltinNames.contains id && !resolves id false scopes then []
    else if 1 ≤ startLine ∧ startLine ≤ endLine ∧ endLine ≤ lineCount then
      [{ name := id
         startLine := startLine
         endLine := endLine
         shadowed := isLexicallyLocal id false scopes
         injected := if dependencyMarkers.contains id then argumentNames arguments else [] }]
    else []
  | _ => []

mutual

/-- `scan`: the calls at a node and below it. -/
def scan (lineCount : Nat) : Ast → List BindingScope → List CallSite
  | .functionDef _ signature parameters body, scopes =>
    scanAll lineCount signature scopes ++
      scanAll lineCount body (functionScope parameters body :: functionParent scopes)
  | .lambda defaults parameters body, scopes =>
    scanAll lineCount defaults scopes ++
      scan lineCount body (functionScope parameters [] :: functionParent scopes)
  | .classDef _ heads body, scopes =>
    scanAll lineCount heads scopes ++ scanAll lineCount body (classScope body :: scopes)
  | .call startLine endLine func arguments keywords, scopes =>
    emit lineCount scopes startLine endLine func arguments ++ (scan lineCount func scopes ++
      (scanAll lineCount arguments scopes ++ scanAll lineCount keywords scopes))
  | .other children, scopes => scanAll lineCount children scopes
  | .name _ _, _ => []
  | .imports _, _ => []
  | .importFrom _, _ => []
  | .globals _, _ => []
  | .nonlocals _, _ => []

/-- The calls at a list of nodes. -/
def scanAll (lineCount : Nat) : List Ast → List BindingScope → List CallSite
  | [], _ => []
  | node :: nodes, scopes => scan lineCount node scopes ++ scanAll lineCount nodes scopes

end

/-- The calls of a file, in the order of the walk. -/
def callSites (lineCount : Nat) (body : List Ast) : List CallSite :=
  scanAll lineCount body [moduleScope body]

end Calls

section Observations

/-- `ExtractedObservation`, with the parts of its evidence that tell it apart. -/
structure ExtractedObservation where
  observedKind : Str
  subjectKind : Str
  subjectKey : Str
  referentText : Option Str
  ordinal : Nat
  path : Str
  startLine : Nat
  endLine : Nat
  deriving DecidableEq, Repr

def callKind : Str := "call".toList

def callShadowedKind : Str := "call_shadowed".toList

def injectsKind : Str := "injects".toList

/-- What a call is recorded as, with a placeholder for the ordinal. -/
def CallSite.observation (moduleKey path kind text : Str) (c : CallSite) : ExtractedObservation :=
  { observedKind := kind
    subjectKind := "module".toList
    subjectKey := moduleKey
    referentText := some text
    ordinal := 0
    path := path
    startLine := c.startLine
    endLine := c.endLine }

/-- The observations of a call. -/
def CallSite.observations (moduleKey path : Str) (c : CallSite) : List ExtractedObservation :=
  c.observation moduleKey path callKind c.name ::
    (if c.shadowed then [c.observation moduleKey path callShadowedKind c.name] else []) ++
    c.injected.map (c.observation moduleKey path injectsKind)

/-- `_collect_calls`. -/
def collectCalls [Interpreter] (moduleKey path : Str) (lineCount : Nat) (body : List Ast) :
    List ExtractedObservation :=
  (callSites lineCount body).flatMap (CallSite.observations moduleKey path)

/-- What `assign_ordinals` groups by. -/
structure Identity where
  observedKind : Str
  subjectKind : Str
  subjectKey : Str
  referentText : Option Str
  path : Str
  startLine : Nat
  endLine : Nat
  deriving DecidableEq, Repr

def ExtractedObservation.identity (o : ExtractedObservation) : Identity :=
  { observedKind := o.observedKind
    subjectKind := o.subjectKind
    subjectKey := o.subjectKey
    referentText := o.referentText
    path := o.path
    startLine := o.startLine
    endLine := o.endLine }

/-- `assign_ordinals`, after the observations whose identities are `seen`. -/
def assignOrdinals (seen : List Identity) : List ExtractedObservation → List ExtractedObservation
  | [] => []
  | o :: observations =>
    { o with ordinal := seen.count o.identity + 1 } ::
      assignOrdinals (o.identity :: seen) observations

/-- The ordinals of an identity count its observations. -/
theorem mem_assignOrdinals {seen : List Identity} {observations : List ExtractedObservation}
    {d : Identity} {k : Nat} :
    (∃ o ∈ assignOrdinals seen observations, o.identity = d ∧ o.ordinal = k) ↔
      seen.count d < k ∧
        k ≤ seen.count d + (observations.map ExtractedObservation.identity).count d := by
  induction observations generalizing seen with
  | nil =>
    simp only [assignOrdinals, List.not_mem_nil, false_and, exists_false, List.map_nil,
      List.count_nil, false_iff]
    omega
  | cons o observations ih =>
    rw [assignOrdinals, List.exists_mem_cons_iff, ih, List.map_cons, List.count_cons,
      List.count_cons]
    change (o.identity = d ∧ seen.count o.identity + 1 = k) ∨ _ ↔ _
    by_cases hd : o.identity = d
    · simp only [hd, beq_self_eq_true, if_true, true_and]
      omega
    · simp only [hd, beq_eq_false_iff_ne.mpr hd, Bool.false_eq_true, if_false, false_and,
        false_or]
      omega

end Observations

end Extraction

end Partha
