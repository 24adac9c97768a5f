import Partha.Extraction.PythonCalls

/-!
# Lexical Scopes

What Python makes of a bare name, and what `_collect_calls` makes of it.

The compiler has a block for every module, class, function and lambda, and one for every
comprehension, whose first iterable still belongs to the block around it. A name is local to
the block that binds it, and is looked up in the blocks around its own but for the classes
among them. A name in `:=` is bound past the comprehensions around it.

The extractor has no scope for a comprehension and takes its variables for those of the
function. It sees a name that is stored by a `Name` node, imported or defined. It does not see
the name of an `except` clause or of a pattern, nor anything that is bound in a decorator, a
default, an annotation or a base of a nested definition, nor in the body of a lambda. A call
of such a name is not marked and can be resolved to a module-level symbol.

A syntax tree has what the scan of the extractor looks at and what the compiler binds. The
bounds of type parameters are in neither.

## Main definitions

* `PyAst`: A syntax tree.
* `erase`: What the extractor sees of it.
* `Frame`: A block of the compiler.
* `deciding`: The block that a name is looked up in.
* `LocalName`: A name that is local to a function.
* `Seen`: The extractor sees where a name is bound.

## Theorems

* `isLexicallyLocal_of_seen`: A name that is seen to be local is found to be.
* `local_calls_shadowed`: Its calls are marked.
* `local_calls_missed`: A call that is not.
-/

namespace Partha

namespace Scoping

open Canonical Extraction List

section Trees

/-- A node of `ast`, with what it binds. -/
inductive PyAst where
  | functionDef (name : Str) (typeParams : List Str) (heads annotations : List PyAst)
      (parameters : List Str) (body : List PyAst)
  | lambda (defaults : List PyAst) (parameters : List Str) (body : PyAst)
  | classDef (name : Str) (typeParams : List Str) (decorators bases body : List PyAst)
  | comprehension (elements : List PyAst) (target iter : PyAst) (rest : List PyAst)
  | namedExpr (target : Str) (value : PyAst)
  | name (id : Str) (store : Bool)
  | imports (names : List Alias)
  | importFrom (names : List Alias)
  | globals (names : List Str)
  | nonlocals (names : List Str)
  | call (startLine endLine : Nat) (func : PyAst) (arguments keywords : List PyAst)
  | exceptHandler (name : Option Str) (children : List PyAst)
  | matchCapture (name : Option Str) (patterns : List PyAst)
  | typeAlias (name : Str) (typeParams : List Str) (value : PyAst)
  | other (children : List PyAst)

mutual

/-- What the extractor sees of a node. -/
def erase : PyAst → Ast
  | .functionDef name _ heads annotations parameters body =>
    .functionDef name (eraseAll heads ++ eraseAll annotations) parameters (eraseAll body)
  | .lambda defaults parameters body => .lambda (eraseAll defaults) parameters (erase body)
  | .classDef name _ decorators bases body =>
    .classDef name (eraseAll decorators ++ eraseAll bases) (eraseAll body)
  | .comprehension elements target iter rest =>
    .other (eraseAll elements ++ erase target :: erase iter :: eraseAll rest)
  | .namedExpr target value => .other [.name target true, erase value]
  | .name id store => .name id store
  | .imports names => .imports names
  | .importFrom names => .importFrom names
  | .globals names => .globals names
  | .nonlocals names => .nonlocals names
  | .call startLine endLine func arguments keywords =>
    .call startLine endLine (erase func) (eraseAll arguments) (eraseAll keywords)
  | .exceptHandler _ children => .other (eraseAll children)
  | .matchCapture _ patterns => .other (eraseAll patterns)
  | .typeAlias name _ value => .other [.name name true, erase value]
  | .other children => .other (eraseAll children)

def eraseAll : List PyAst → List Ast
  | [] => []
  | node :: nodes => erase node :: eraseAll nodes

end

end Trees

section Symbols

mutual

/-- The names that a node binds in its block. Within a comprehension these are the ones in
    `:=`, whatever comprehension they stand in. -/
def boundNames (within : Bool) : PyAst → List Str
  | .functionDef name _ heads annotations _ _ =>
    name :: (boundAll within heads ++ boundAll within annotations)
  | .lambda defaults _ _ => boundAll within defaults
  | .classDef name _ decorators bases _ =>
    name :: (boundAll within decorators ++ boundAll within bases)
  | .comprehension elements target iter rest =>
    boundAll true elements ++
      (boundNames true target ++ (boundNames true iter ++ boundAll true rest))
  | .namedExpr target value => target :: boundNames within value
  | .name id store => if store && !within then [id] else []
  | .imports names => names.map Alias.rootName
  | .importFrom names => (names.filter (fun a => a.name ≠ ['*'])).map Alias.boundName
  | .globals _ => []
  | .nonlocals _ => []
  | .call _ _ func arguments keywords =>
    boundNames within func ++ (boundAll within arguments ++ boundAll within keywords)
  | .exceptHandler name children => name.toList ++ boundAll within children
  | .matchCapture name patterns => name.toList ++ boundAll within patterns
  | .typeAlias name _ _ => [name]
  | .other children => boundAll within children

def boundAll (within : Bool) : List PyAst → List Str
  | [] => []
  | node :: nodes => boundNames within node ++ boundAll within nodes

end

mutual

/-- Those of them that are stored by a `Name` node, imported or defined, but not within a
    signature, a base or a lambda. -/
def seenNames (within : Bool) : PyAst → List Str
  | .functionDef name _ _ _ _ _ => [name]
  | .lambda _ _ _ => []
  | .classDef name _ _ _ _ => [name]
  | .comprehension elements target iter rest =>
    seenAll true elements ++ (seenNames true target ++ (seenNames true iter ++ seenAll true rest))
  | .namedExpr target value => target :: seenNames within value
  | .name id store => if store && !within then [id] else []
  | .imports names => names.map Alias.rootName
  | .importFrom names => (names.filter (fun a => a.name ≠ ['*'])).map Alias.boundName
  | .globals _ => []
  | .nonlocals _ => []
  | .call _ _ func arguments keywords =>
    seenNames within func ++ (seenAll within arguments ++ seenAll within keywords)
  | .exceptHandler _ children => seenAll within children
  | .matchCapture _ patterns => seenAll within patterns
  | .typeAlias name _ _ => [name]
  | .other children => seenAll within children

def seenAll (within : Bool) : List PyAst → List Str
  | [] => []
  | node :: nodes => seenNames within node ++ seenAll within nodes

end

mutual

/-- The names that the comprehensions at a node bind for themselves, where the extractor
    looks. -/
def iterationNames (within : Bool) : PyAst → List Str
  | .comprehension elements target iter rest =>
    iterationAll true elements ++
      (iterationNames true target ++ (iterationNames within iter ++ iterationAll true rest))
  | .namedExpr _ value => iterationNames within value
  | .name id store => if store && within then [id] else []
  | .call _ _ func arguments keywords =>
    iterationNames within func ++ (iterationAll within arguments ++ iterationAll within keywords)
  | .exceptHandler _ children => iterationAll within children
  | .matchCapture _ patterns => iterationAll within patterns
  | .typeAlias _ _ value => iterationNames within value
  | .other children => iterationAll within children
  | _ => []

def iterationAll (within : Bool) : List PyAst → List Str
  | [] => []
  | node :: nodes => iterationNames within node ++ iterationAll within nodes

end

mutual

/-- The names that a part of a comprehension binds in the block of the comprehension. -/
def storedNames : PyAst → List Str
  | .name id store => if store then [id] else []
  | .namedExpr _ value => storedNames value
  | .call _ _ func arguments keywords =>
    storedNames func ++ (storedAll arguments ++ storedAll keywords)
  | .other children => storedAll children
  | _ => []

def storedAll : List PyAst → List Str
  | [] => []
  | node :: nodes => storedNames node ++ storedAll nodes

end

mutual

/-- The names that are declared `global` in a block, or else those that are declared
    `nonlocal`. -/
def declaredNames (isGlobal : Bool) : PyAst → List Str
  | .globals names => if isGlobal then names else []
  | .nonlocals names => if isGlobal then [] else names
  | .comprehension elements target iter rest =>
    declaredAll isGlobal elements ++
      (declaredNames isGlobal target ++ (declaredNames isGlobal iter ++ declaredAll isGlobal rest))
  | .namedExpr _ value => declaredNames isGlobal value
  | .call _ _ func arguments keywords =>
    declaredNames isGlobal func ++
      (declaredAll isGlobal arguments ++ declaredAll isGlobal keywords)
  | .exceptHandler _ children => declaredAll isGlobal children
  | .matchCapture _ patterns => declaredAll isGlobal patterns
  | .typeAlias _ _ value => declaredNames isGlobal value
  | .other children => declaredAll isGlobal children
  | _ => []

def declaredAll (isGlobal : Bool) : List PyAst → List Str
  | [] => []
  | node :: nodes => declaredNames isGlobal node ++ declaredAll isGlobal nodes

end

end Symbols

section Blocks

/-- A block of the compiler. A comprehension has its parts but for the first iterable. -/
inductive Frame where
  | module_ (body : List PyAst)
  | class_ (body : List PyAst)
  | function (parameters : List Str) (body : List PyAst)
  | lambda (parameters : List Str) (body : PyAst)
  | comprehension (parts : List PyAst)
  | typeParams (names : List Str)

/-- The names that are bound in a block. -/
def Frame.bound : Frame → List Str
  | .module_ body => boundAll false body
  | .class_ body => boundAll false body
  | .function parameters body => parameters ++ boundAll false body
  | .lambda parameters body => parameters ++ boundNames false body
  | .comprehension parts => storedAll parts
  | .typeParams names => names

/-- The names that a block declares `global`, or `nonlocal`. -/
def Frame.declared (isGlobal : Bool) : Frame → List Str
  | .module_ body => declaredAll isGlobal body
  | .class_ body => declaredAll isGlobal body
  | .function _ body => declaredAll isGlobal body
  | _ => []

def Frame.isClass : Frame → Bool
  | .class_ _ => true
  | _ => false

def Frame.isModule : Frame → Bool
  | .module_ _ => true
  | _ => false

/-- A function, a lambda or a comprehension. -/
def Frame.isFunction : Frame → Bool
  | .function _ _ => true
  | .lambda _ _ => true
  | .comprehension _ => true
  | _ => false

/-- Whether a block does not see the names of a class around it. Type parameters see them, as
    far as they are not themselves around another block. -/
def Frame.passesClass (enclosing : Bool) : Frame → Bool
  | .typeParams _ => enclosing
  | _ => true

/-- The block that decides about a name, with those around it. There is none if the name is
    global. Where `enclosing`, a class is passed over. -/
def deciding (name : Str) (enclosing : Bool) : List Frame → Option (Frame × List Frame)
  | [] => none
  | f :: frames =>
    if f.isModule then none
    else if enclosing && f.isClass then deciding name true frames
    else if (f.declared true).contains name then none
    else if (f.declared false).contains name then deciding name true frames
    else if f.bound.contains name then some (f, frames)
    else deciding name (f.passesClass enclosing) frames

/-- A name that is local to a function or to one around it. -/
def LocalName (name : Str) (frames : List Frame) : Prop :=
  ∃ f rest, deciding name false frames = some (f, rest) ∧ f.isFunction = true

/-- The blocks of type parameters, if there are any. -/
def withTypeParams (names : List Str) (frames : List Frame) : List Frame :=
  if names = [] then frames else .typeParams names :: frames

/-- A call of a bare name, with the blocks around it. -/
structure Site where
  name : Str
  startLine : Nat
  endLine : Nat
  arguments : List PyAst
  frames : List Frame

/-- A call, if it is one of a bare name. -/
def namedCall (startLine endLine : Nat) (func : PyAst) (arguments : List PyAst)
    (frames : List Frame) : List Site :=
  match func with
  | .name id _ =>
    [{ name := id
       startLine := startLine
       endLine := endLine
       arguments := arguments
       frames := frames }]
  | _ => []

mutual

/-- The calls of bare names at a node and below it. -/
def sites : PyAst → List Frame → List Site
  | .functionDef _ typeParams heads annotations parameters body, frames =>
    sitesAll heads frames ++ (sitesAll annotations (withTypeParams typeParams frames) ++
      sitesAll body (.function parameters body :: withTypeParams typeParams frames))
  | .lambda defaults parameters body, frames =>
    sitesAll defaults frames ++ sites body (.lambda parameters body :: frames)
  | .classDef _ typeParams decorators bases body, frames =>
    sitesAll decorators frames ++ (sitesAll bases (withTypeParams typeParams frames) ++
      sitesAll body (.class_ body :: withTypeParams typeParams frames))
  | .comprehension elements target iter rest, frames =>
    let inner := .comprehension (elements ++ target :: rest) :: frames
    sitesAll elements inner ++ (sites target inner ++ (sites iter frames ++ sitesAll rest inner))
  | .namedExpr _ value, frames => sites value frames
  | .call startLine endLine func arguments keywords, frames =>
    namedCall startLine endLine func arguments frames ++
      (sites func frames ++ (sitesAll arguments frames ++ sitesAll keywords frames))
  | .exceptHandler _ children, frames => sitesAll children frames
  | .matchCapture _ patterns, frames => sitesAll patterns frames
  | .typeAlias _ typeParams value, frames => sites value (withTypeParams typeParams frames)
  | .other children, frames => sitesAll children frames
  | .name _ _, _ => []
  | .imports _, _ => []
  | .importFrom _, _ => []
  | .globals _, _ => []
  | .nonlocals _, _ => []

def sitesAll : List PyAst → List Frame → List Site
  | [], _ => []
  | node :: nodes, frames => sites node frames ++ sitesAll nodes frames

end

/-- The calls of bare names in a module. -/
def moduleSites (body : List PyAst) : List Site :=
  sitesAll body [.module_ body]

end Blocks

section Statements

/-- The blocks from the innermost one on that the extractor has a scope for. -/
def around (frames : List Frame) : List Frame :=
  frames.dropWhile (fun f => match f with
    | .comprehension _ => true
    | .typeParams _ => true
    | _ => false)

/-- The extractor sees where a block binds a name: it is a parameter, or stored by a `Name`
    node, imported or defined in the statements of a function. A variable of a comprehension is
    one of the function that the comprehension stands in. If that function declares it
    `nonlocal`, the extractor has to see where it is bound outside. -/
inductive Seen (name : Str) : Frame → List Frame → Prop
  | parameter {parameters : List Str} {body : List PyAst} {rest : List Frame} :
      name ∈ parameters → Seen name (.function parameters body) rest
  | stored {parameters : List Str} {body : List PyAst} {rest : List Frame} :
      name ∈ seenAll false body → Seen name (.function parameters body) rest
  | lambda {parameters : List Str} {body : PyAst} {rest : List Frame} :
      name ∈ parameters → Seen name (.lambda parameters body) rest
  | iteration {parts body : List PyAst} {parameters : List Str} {rest outer : List Frame} :
      around rest = .function parameters body :: outer → name ∉ declaredAll true body →
        name ∉ declaredAll false body → name ∈ iterationAll false body →
        Seen name (.comprehension parts) rest
  | outer {parts body : List PyAst} {parameters : List Str} {rest outer rest' : List Frame}
      {f : Frame} :
      around rest = .function parameters body :: outer → name ∉ declaredAll true body →
        name ∈ declaredAll false body → deciding name true outer = some (f, rest') →
        f.isFunction = true → Seen name f rest' → Seen name (.comprehension parts) rest

/-- A variable of a comprehension in the statements of a class, where no function is between. -/
def SeenInClass (name : Str) (frames : List Frame) : Prop :=
  ∃ body outer, around frames = .class_ body :: outer ∧ name ∈ iterationAll false body

/-- A name that the extractor sees to be local to a function. -/
def SeenLocal (name : Str) (frames : List Frame) : Prop :=
  ∃ f rest, deciding name false frames = some (f, rest) ∧ f.isFunction = true ∧
    (Seen name f rest ∨ SeenInClass name frames)

end Statements

section Declared

theorem names_declarationsOf_append (l l' : List Ast) :
    (declarationsOf (l ++ l')).names = (declarationsOf l).names ++ (declarationsOf l').names := by
  induction l with
  | nil => rfl
  | cons n l ih =>
    change (declarations n).names ++ (declarationsOf (l ++ l')).names = _
    rw [ih, ← append_assoc]
    rfl

mutual

/-- What is seen to be bound is among the declarations. -/
theorem seen_declared (x : Str) (within : Bool) :
    ∀ node : PyAst, x ∈ seenNames within node → x ∈ (declarations (erase node)).names
  | .functionDef _ _ _ _ _ _, h => h
  | .lambda _ _ _, h => absurd h not_mem_nil
  | .classDef _ _ _ _ _, h => h
  | .comprehension elements target iter rest, h => by
    change x ∈ (declarationsOf
      (eraseAll elements ++ erase target :: erase iter :: eraseAll rest)).names
    rw [names_declarationsOf_append]
    rcases mem_append.mp h with h | h
    · exact mem_append_left _ (seenAll_declared x true elements h)
    refine mem_append_right _ ?_
    rcases mem_append.mp h with h | h
    · exact mem_append_left _ (seen_declared x true target h)
    refine mem_append_right _ ?_
    rcases mem_append.mp h with h | h
    · exact mem_append_left _ (seen_declared x true iter h)
    · exact mem_append_right _ (seenAll_declared x true rest h)
  | .namedExpr target value, h => by
    rcases mem_cons.mp h with rfl | h
    · exact mem_cons_self
    · exact mem_append_right [target]
        (mem_append_left [] (seen_declared x within value h))
  | .name id store, h => by
    cases store with
    | false => cases h
    | true =>
      cases within with
      | false => exact h
      | true => cases h
  | .imports _, h => h
  | .importFrom _, h => h
  | .globals _, h => absurd h not_mem_nil
  | .nonlocals _, h => absurd h not_mem_nil
  | .call _ _ func arguments keywords, h => by
    rcases mem_append.mp h with h | h
    · exact mem_append_left _ (mem_append_left _ (seen_declared x within func h))
    rcases mem_append.mp h with h | h
    · exact mem_append_left _
        (mem_append_right _ (seenAll_declared x within arguments h))
    · exact mem_append_right _ (seenAll_declared x within keywords h)
  | .exceptHandler _ children, h => seenAll_declared x within children h
  | .matchCapture _ patterns, h => seenAll_declared x within patterns h
  | .typeAlias _ _ _, h => by
    rw [mem_singleton.mp h]
    exact mem_cons_self
  | .other children, h => seenAll_declared x within children h

theorem seenAll_declared (x : Str) (within : Bool) :
    ∀ nodes : List PyAst, x ∈ seenAll within nodes → x ∈ (declarationsOf (eraseAll nodes)).names
  | [], h => absurd h not_mem_nil
  | node :: nodes, h => by
    rcases mem_append.mp h with h | h
    · exact mem_append_left _ (seen_declared x within node h)
    · exact mem_append_right _ (seenAll_declared x within nodes h)

end

mutual

/-- The variables of comprehensions are among the declarations. -/
theorem iteration_declared (x : Str) (within : Bool) :
    ∀ node : PyAst, x ∈ iterationNames within node → x ∈ (declarations (erase node)).names
  | .functionDef _ _ _ _ _ _, h => absurd h not_mem_nil
  | .lambda _ _ _, h => absurd h not_mem_nil
  | .classDef _ _ _ _ _, h => absurd h not_mem_nil
  | .comprehension elements target iter rest, h => by
    change x ∈ (declarationsOf
      (eraseAll elements ++ erase target :: erase iter :: eraseAll rest)).names
    rw [names_declarationsOf_append]
    rcases mem_append.mp h with h | h
    · exact mem_append_left _ (iterationAll_declared x true elements h)
    refine mem_append_right _ ?_
    rcases mem_append.mp h with h | h
    · exact mem_append_left _ (iteration_declared x true target h)
    refine mem_append_right _ ?_
    rcases mem_append.mp h with h | h
    · exact mem_append_left _ (iteration_declared x within iter h)
    · exact mem_append_right _ (iterationAll_declared x true rest h)
  | .namedExpr target value, h =>
    mem_append_right [target] (mem_append_left [] (iteration_declared x within value h))
  | .name id store, h => by
    cases store with
    | false => cases h
    | true =>
      cases within with
      | false => cases h
      | true => exact h
  | .imports _, h => absurd h not_mem_nil
  | .importFrom _, h => absurd h not_mem_nil
  | .globals _, h => absurd h not_mem_nil
  | .nonlocals _, h => absurd h not_mem_nil
  | .call _ _ func arguments keywords, h => by
    rcases mem_append.mp h with h | h
    · exact mem_append_left _ (mem_append_left _ (iteration_declared x within func h))
    rcases mem_append.mp h with h | h
    · exact mem_append_left _
        (mem_append_right _ (iterationAll_declared x within arguments h))
    · exact mem_append_right _ (iterationAll_declared x within keywords h)
  | .exceptHandler _ children, h => iterationAll_declared x within children h
  | .matchCapture _ patterns, h => iterationAll_declared x within patterns h
  | .typeAlias name _ value, h =>
    mem_append_right [name] (mem_append_left [] (iteration_declared x within value h))
  | .other children, h => iterationAll_declared x within children h

theorem iterationAll_declared (x : Str) (within : Bool) :
    ∀ nodes : List PyAst, x ∈ iterationAll within nodes →
      x ∈ (declarationsOf (eraseAll nodes)).names
  | [], h => absurd h not_mem_nil
  | node :: nodes, h => by
    rcases mem_append.mp h with h | h
    · exact mem_append_left _ (iteration_declared x within node h)
    · exact mem_append_right _ (iterationAll_declared x within nodes h)

end

/-- The names that are declared `global`, or else those that are declared `nonlocal`. -/
def outside (isGlobal : Bool) (d : Declarations) : List Str :=
  if isGlobal then d.globalNames else d.nonlocalNames

theorem outside_append (isGlobal : Bool) (d d' : Declarations) :
    outside isGlobal (d.append d') = outside isGlobal d ++ outside isGlobal d' := by
  cases isGlobal with
  | false => rfl
  | true => rfl

theorem outside_cons (isGlobal : Bool) (n : Ast) (l : List Ast) :
    outside isGlobal (declarationsOf (n :: l)) =
      outside isGlobal (declarations n) ++ outside isGlobal (declarationsOf l) :=
  outside_append isGlobal _ _

/-- A node that declares nothing, whatever it binds. -/
theorem outside_names (isGlobal : Bool) (names : List Str) :
    outside isGlobal { Declarations.none with names := names } = [] := by
  cases isGlobal with
  | false => rfl
  | true => rfl

theorem outside_nil (isGlobal : Bool) : outside isGlobal (declarationsOf []) = [] :=
  outside_names isGlobal []

theorem outside_declarationsOf_append (isGlobal : Bool) (l l' : List Ast) :
    outside isGlobal (declarationsOf (l ++ l')) =
      outside isGlobal (declarationsOf l) ++ outside isGlobal (declarationsOf l') := by
  induction l with
  | nil => rw [nil_append, outside_nil, nil_append]
  | cons n l ih => rw [cons_append, outside_cons, outside_cons, ih, append_assoc]

/-- What a node with a name and a value declares. -/
theorem outside_named (isGlobal : Bool) (name : Str) (n : Ast) :
    outside isGlobal (declarations (.other [.name name true, n])) =
      outside isGlobal (declarations n) := by
  change outside isGlobal (declarationsOf [.name name true, n]) = _
  rw [outside_cons, outside_cons, outside_nil, append_nil]
  change outside isGlobal { Declarations.none with names := [name] } ++ _ = _
  rw [outside_names, nil_append]

mutual

/-- The extractor and the compiler find the same `global` and `nonlocal` declarations. -/
theorem declared_eq (isGlobal : Bool) :
    ∀ node : PyAst, outside isGlobal (declarations (erase node)) = declaredNames isGlobal node
  | .functionDef _ _ _ _ _ _ => outside_names isGlobal _
  | .lambda _ _ _ => outside_nil isGlobal
  | .classDef _ _ _ _ _ => outside_names isGlobal _
  | .comprehension elements target iter rest => by
    change outside isGlobal (declarationsOf
      (eraseAll elements ++ erase target :: erase iter :: eraseAll rest)) = _
    rw [outside_declarationsOf_append, outside_cons, outside_cons,
      declaredAll_eq isGlobal elements, declared_eq isGlobal target, declared_eq isGlobal iter,
      declaredAll_eq isGlobal rest]
    rfl
  | .namedExpr target value => by
    change outside isGlobal (declarations (.other [.name target true, erase value])) = _
    rw [outside_named, declared_eq isGlobal value]
    rfl
  | .name _ _ => outside_names isGlobal _
  | .imports _ => outside_names isGlobal _
  | .importFrom _ => outside_names isGlobal _
  | .globals _ => rfl
  | .nonlocals _ => rfl
  | .call _ _ func arguments keywords => by
    change outside isGlobal (((declarations (erase func)).append
      (declarationsOf (eraseAll arguments))).append (declarationsOf (eraseAll keywords))) = _
    rw [outside_append, outside_append, declared_eq isGlobal func,
      declaredAll_eq isGlobal arguments, declaredAll_eq isGlobal keywords, append_assoc]
    rfl
  | .exceptHandler _ children => declaredAll_eq isGlobal children
  | .matchCapture _ patterns => declaredAll_eq isGlobal patterns
  | .typeAlias name _ value => by
    change outside isGlobal (declarations (.other [.name name true, erase value])) = _
    rw [outside_named, declared_eq isGlobal value]
    rfl
  | .other children => declaredAll_eq isGlobal children

theorem declaredAll_eq (isGlobal : Bool) :
    ∀ nodes : List PyAst,
      outside isGlobal (declarationsOf (eraseAll nodes)) = declaredAll isGlobal nodes
  | [] => outside_nil isGlobal
  | node :: nodes => by
    rw [eraseAll, outside_cons, declared_eq isGlobal node, declaredAll_eq isGlobal nodes]
    rfl

end

theorem globalNames_eq (nodes : List PyAst) :
    (declarationsOf (eraseAll nodes)).globalNames = declaredAll true nodes :=
  declaredAll_eq true nodes

theorem nonlocalNames_eq (nodes : List PyAst) :
    (declarationsOf (eraseAll nodes)).nonlocalNames = declaredAll false nodes :=
  declaredAll_eq false nodes

end Declared

section Scopes

/-- The scopes that the extractor has for some blocks. -/
def codeScopes : List Frame → List BindingScope
  | [] => []
  | .module_ body :: frames => moduleScope (eraseAll body) :: codeScopes frames
  | .class_ body :: frames => classScope (eraseAll body) :: codeScopes frames
  | .function parameters body :: frames =>
    functionScope parameters (eraseAll body) :: functionParent (codeScopes frames)
  | .lambda parameters _ :: frames =>
    functionScope parameters [] :: functionParent (codeScopes frames)
  | .comprehension _ :: frames => codeScopes frames
  | .typeParams _ :: frames => codeScopes frames

theorem codeScopes_around (frames : List Frame) :
    codeScopes (around frames) = codeScopes frames := by
  induction frames with
  | nil => rfl
  | cons f frames ih =>
    cases f with
    | module_ body => rfl
    | class_ body => rfl
    | function parameters body => rfl
    | lambda parameters body => rfl
    | comprehension parts => exact ih
    | typeParams names => exact ih

/-- The scope of a class declares nothing. -/
theorem codeScopes_class {frames : List Frame} :
    ∀ s ∈ codeScopes frames, s.kind = .class_ → s.globalNames = [] ∧ s.nonlocalNames = [] := by
  induction frames with
  | nil => exact fun s hs => absurd hs not_mem_nil
  | cons f frames ih =>
    have hparent : ∀ s ∈ functionParent (codeScopes frames), s.kind = .class_ →
        s.globalNames = [] ∧ s.nonlocalNames = [] :=
      fun s hs => ih s ((dropWhile_sublist _).subset hs)
    cases f with
    | module_ body =>
      intro s hs hkind
      rcases mem_cons.mp hs with rfl | hs
      · cases hkind
      · exact ih s hs hkind
    | class_ body =>
      intro s hs hkind
      rcases mem_cons.mp hs with rfl | hs
      · exact ⟨rfl, rfl⟩
      · exact ih s hs hkind
    | function parameters body | lambda parameters body =>
      intro s hs hkind
      rcases mem_cons.mp hs with rfl | hs
      · cases hkind
      · exact hparent s hs hkind
    | comprehension parts => exact ih
    | typeParams names => exact ih

variable {name : Str}

/-- Passing over the classes first is the same as having passed over them. -/
theorem isLexicallyLocal_functionParent (enclosing : Bool) (scopes : List BindingScope) :
    isLexicallyLocal name enclosing (functionParent scopes) =
      isLexicallyLocal name true scopes := by
  induction scopes with
  | nil => rfl
  | cons s scopes ih =>
    by_cases hkind : s.kind = .class_
    · have hdrop : functionParent (s :: scopes) = functionParent scopes := by
        simp only [functionParent, dropWhile_cons, hkind, decide_true, if_true]
      rw [hdrop, ih]
      simp only [isLexicallyLocal, hkind, decide_true, Bool.and_self, if_true]
    · have hkeep : functionParent (s :: scopes) = s :: scopes := by
        simp only [functionParent, dropWhile_cons, hkind, decide_false, Bool.false_eq_true,
          if_false]
      rw [hkeep]
      simp only [isLexicallyLocal, hkind, decide_false, Bool.and_false]

/-- What is local past the classes is local. -/
theorem isLexicallyLocal_of_enclosing {scopes : List BindingScope}
    (hclass : ∀ s ∈ scopes, s.kind = .class_ → s.globalNames = [] ∧ s.nonlocalNames = [])
    (h : isLexicallyLocal name true scopes = true) (enclosing : Bool) :
    isLexicallyLocal name enclosing scopes = true := by
  cases enclosing with
  | true => exact h
  | false =>
    induction scopes with
    | nil => exact h
    | cons s scopes ih =>
      by_cases hkind : s.kind = .class_
      · have hnone := hclass s mem_cons_self hkind
        have hrest : isLexicallyLocal name true scopes = true := by
          simpa only [isLexicallyLocal, hkind, decide_true, Bool.and_self, if_true] using h
        have hih := ih (fun t ht => hclass t (mem_cons_of_mem s ht)) hrest
        simp only [isLexicallyLocal, Bool.false_and, Bool.false_eq_true, if_false, hnone.1,
          hnone.2, contains_nil]
        by_cases hmem : s.bindings.contains name = true
        · rw [if_pos hmem, hkind]
          rfl
        · rw [if_neg hmem]
          exact hih
      · simpa only [isLexicallyLocal, hkind, decide_false, Bool.and_false] using h

variable {parameters : List Str} {body : List PyAst}

/-- A name that a function binds, in the sight of the extractor. -/
theorem functionScope_local (enclosing : Bool) (parents : List BindingScope)
    (hname : name ∈ (declarationsOf (eraseAll body)).names ++ parameters)
    (hglobal : name ∉ declaredAll true body) (hnonlocal : name ∉ declaredAll false body) :
    isLexicallyLocal name enclosing
      (functionScope parameters (eraseAll body) :: parents) = true := by
  have hglobals : (declarationsOf (eraseAll body)).globalNames.contains name = false := by
    rw [globalNames_eq, contains_eq_mem, decide_eq_false_iff_not]
    exact hglobal
  have hnonlocals : (declarationsOf (eraseAll body)).nonlocalNames.contains name = false := by
    rw [nonlocalNames_eq, contains_eq_mem, decide_eq_false_iff_not]
    exact hnonlocal
  have hbound : (((declarationsOf (eraseAll body)).names ++ parameters).filter (fun name =>
      !(declarationsOf (eraseAll body)).globalNames.contains name &&
        !(declarationsOf (eraseAll body)).nonlocalNames.contains name)).contains name = true := by
    rw [contains_eq_mem, decide_eq_true_eq, mem_filter, hglobals, hnonlocals]
    exact ⟨hname, rfl⟩
  have hkind : ScopeKind.function ≠ ScopeKind.class_ := by decide
  have hmodule : ScopeKind.function ≠ ScopeKind.module_ := by decide
  simp only [isLexicallyLocal, functionScope, hkind, decide_false, Bool.and_false,
    Bool.false_eq_true, if_false, hglobals, hnonlocals, hbound, if_true, ne_eq, hmodule,
    not_false_eq_true, decide_true]

/-- A name that a function declares `nonlocal` is looked up around it. -/
theorem functionScope_nonlocal (enclosing : Bool) (parents : List BindingScope)
    (hglobal : name ∉ declaredAll true body) (hnonlocal : name ∈ declaredAll false body) :
    isLexicallyLocal name enclosing (functionScope parameters (eraseAll body) :: parents) =
      isLexicallyLocal name true parents := by
  have hglobals : (declarationsOf (eraseAll body)).globalNames.contains name = false := by
    rw [globalNames_eq, contains_eq_mem, decide_eq_false_iff_not]
    exact hglobal
  have hnonlocals : (declarationsOf (eraseAll body)).nonlocalNames.contains name = true := by
    rw [nonlocalNames_eq, contains_eq_mem, decide_eq_true_eq]
    exact hnonlocal
  have hkind : ScopeKind.function ≠ ScopeKind.class_ := by decide
  simp only [isLexicallyLocal, functionScope, hkind, decide_false, Bool.and_false,
    Bool.false_eq_true, if_false, hglobals, hnonlocals, if_true]

/-- A name that is local around a function is local in it, unless the function declares it
    otherwise. -/
theorem functionScope_outer (enclosing : Bool) {parents : List BindingScope}
    (hglobal : name ∉ declaredAll true body) (hnonlocal : name ∉ declaredAll false body)
    (houter : isLexicallyLocal name false parents = true) :
    isLexicallyLocal name enclosing
      (functionScope parameters (eraseAll body) :: parents) = true := by
  by_cases hname : name ∈ (declarationsOf (eraseAll body)).names ++ parameters
  · exact functionScope_local enclosing parents hname hglobal hnonlocal
  · have hglobals : (declarationsOf (eraseAll body)).globalNames.contains name = false := by
      rw [globalNames_eq, contains_eq_mem, decide_eq_false_iff_not]
      exact hglobal
    have hnonlocals : (declarationsOf (eraseAll body)).nonlocalNames.contains name = false := by
      rw [nonlocalNames_eq, contains_eq_mem, decide_eq_false_iff_not]
      exact hnonlocal
    have hbound : (((declarationsOf (eraseAll body)).names ++ parameters).filter (fun name =>
        !(declarationsOf (eraseAll body)).globalNames.contains name &&
          !(declarationsOf (eraseAll body)).nonlocalNames.contains name)).contains name =
            false := by
      rw [contains_eq_mem, decide_eq_false_iff_not, mem_filter]
      exact fun h => hname h.1
    have hkind : ScopeKind.function ≠ ScopeKind.class_ := by decide
    simp only [isLexicallyLocal, functionScope, hkind, decide_false, Bool.and_false,
      Bool.false_eq_true, if_false, hglobals, hnonlocals, hbound, houter]

/-- A class passes on what is local around it. -/
theorem classScope_outer {body : List Ast} {parents : List BindingScope} (enclosing : Bool)
    (houter : ∀ e, isLexicallyLocal name e parents = true) :
    isLexicallyLocal name enclosing (classScope body :: parents) = true := by
  cases enclosing with
  | true => simpa only [isLexicallyLocal, classScope, decide_true, Bool.and_self, if_true] using
      houter true
  | false =>
    change (if (declarationsOf body).names.contains name then true
      else isLexicallyLocal name false parents) = true
    rw [houter false, ite_self]

end Scopes

section Deciding

variable {name : Str}

theorem around_length (frames : List Frame) : (around frames).length ≤ frames.length :=
  (dropWhile_sublist _).length_le

variable {enclosing : Bool} {frames rest : List Frame} {f : Frame}

/-- A block that does not decide about a name passes it on. -/
theorem deciding_cons {g : Frame} (h : deciding name enclosing (g :: frames) = some (f, rest)) :
    g.isModule = false ∧
      ((enclosing = true ∧ g.isClass = true ∧ deciding name true frames = some (f, rest)) ∨
        (name ∉ g.declared true ∧ name ∈ g.declared false ∧
          deciding name true frames = some (f, rest)) ∨
        (name ∉ g.declared true ∧ name ∉ g.declared false ∧ name ∈ g.bound ∧ g = f ∧
          frames = rest) ∨
        (name ∉ g.declared true ∧ name ∉ g.declared false ∧
          deciding name (g.passesClass enclosing) frames = some (f, rest))) := by
  rw [deciding] at h
  split at h
  · cases h
  rename_i hmodule
  refine ⟨Bool.not_eq_true _ ▸ hmodule, ?_⟩
  split at h
  · rename_i hclass
    rw [Bool.and_eq_true] at hclass
    exact .inl ⟨hclass.1, hclass.2, h⟩
  refine .inr ?_
  split at h
  · cases h
  rename_i hglobal
  rw [contains_eq_mem, decide_eq_true_eq] at hglobal
  split at h
  · rename_i hnonlocal
    rw [contains_eq_mem, decide_eq_true_eq] at hnonlocal
    exact .inl ⟨hglobal, hnonlocal, h⟩
  rename_i hnonlocal
  rw [contains_eq_mem, decide_eq_true_eq] at hnonlocal
  refine .inr ?_
  split at h
  · rename_i hbound
    rw [contains_eq_mem, decide_eq_true_eq] at hbound
    have hpair := Prod.mk.inj (Option.some.inj h)
    exact .inl ⟨hglobal, hnonlocal, hbound, hpair.1, hpair.2⟩
  · exact .inr ⟨hglobal, hnonlocal, h⟩

/-- A name that is seen to be bound in a function is found there. -/
theorem isLexicallyLocal_of_binding {parameters : List Str} {body : List PyAst}
    {parents : List BindingScope} (enclosing : Bool)
    (hseen : Seen name (.function parameters body) rest) (hglobal : name ∉ declaredAll true body)
    (hnonlocal : name ∉ declaredAll false body) :
    isLexicallyLocal name enclosing
      (functionScope parameters (eraseAll body) :: parents) = true := by
  refine functionScope_local enclosing parents ?_ hglobal hnonlocal
  rcases hseen with hmem | hmem
  · exact mem_append_right _ hmem
  · exact mem_append_left _ (seenAll_declared name false body hmem)

/-- A name that is seen to be local is found to be, from whatever block it is looked up. -/
theorem isLexicallyLocal_of_seen (hdeciding : deciding name enclosing frames = some (f, rest))
    (hfunction : f.isFunction = true) (hseen : Seen name f rest) :
    isLexicallyLocal name enclosing (codeScopes frames) = true := by
  induction hn : frames.length using Nat.strong_induction_on
    generalizing enclosing frames rest f with
  | _ n ih =>
    cases frames with
    | nil => cases hdeciding
    | cons g frames =>
      -- the same name, looked up from the blocks around this one
      have hlt : frames.length < n := by
        rw [← hn]
        exact Nat.lt_succ_self _
      have houter : deciding name true frames = some (f, rest) → ∀ e,
          isLexicallyLocal name e (codeScopes frames) = true := fun h e =>
        isLexicallyLocal_of_enclosing codeScopes_class
          (ih frames.length hlt h hfunction hseen rfl) e
      have hparent : deciding name true frames = some (f, rest) → ∀ e,
          isLexicallyLocal name e (functionParent (codeScopes frames)) = true := by
        intro h e
        rw [isLexicallyLocal_functionParent]
        exact houter h true
      have hcons := deciding_cons hdeciding
      -- A block passes the name on to the blocks around it, unless it decides.
      cases g with
      | module_ body => cases hcons.1
      | class_ body =>
        rcases hcons.2 with ⟨-, -, h⟩ | ⟨-, -, h⟩ | ⟨-, -, -, rfl, -⟩ | ⟨-, -, h⟩
        · exact classScope_outer enclosing (houter h)
        · exact classScope_outer enclosing (houter h)
        · cases hfunction
        · exact classScope_outer enclosing (houter h)
      | function parameters body =>
        rcases hcons.2 with ⟨-, h, -⟩ | ⟨hg, hl, h⟩ | ⟨hg, hl, -, rfl, rfl⟩ | ⟨hg, hl, h⟩
        · cases h
        · exact (functionScope_nonlocal enclosing _ hg hl).trans (hparent h true)
        · exact isLexicallyLocal_of_binding enclosing hseen hg hl
        · exact functionScope_outer enclosing hg hl (hparent h false)
      | lambda parameters body =>
        rcases hcons.2 with ⟨-, h, -⟩ | ⟨-, hl, -⟩ | ⟨-, -, -, rfl, rfl⟩ | ⟨-, -, h⟩
        · cases h
        · cases hl
        · rcases hseen with _ | _ | hmem
          exact @functionScope_local name parameters [] enclosing _ (mem_append_right _ hmem)
            not_mem_nil not_mem_nil
        · exact @functionScope_outer name parameters [] enclosing _ not_mem_nil
            not_mem_nil (hparent h false)
      | comprehension parts =>
        rcases hcons.2 with ⟨-, h, -⟩ | ⟨-, hl, -⟩ | ⟨-, -, -, rfl, rfl⟩ | ⟨-, -, h⟩
        · cases h
        · cases hl
        · change isLexicallyLocal name enclosing (codeScopes frames) = true
          rw [← codeScopes_around]
          rcases hseen with _ | _ | _ | ⟨haround, hg, hl, hmem⟩ |
            ⟨haround, hg, hl, h, hfunction', hseen'⟩
          · rw [haround]
            exact functionScope_local enclosing _
              (mem_append_left _ (iterationAll_declared name false _ hmem)) hg hl
          · rename_i body parameters outer rest' f'
            have hlt : outer.length < n := by
              have hlength := around_length frames
              rw [haround, length_cons] at hlength
              rw [← hn, length_cons]
              omega
            rw [haround]
            refine (functionScope_nonlocal enclosing _ hg hl).trans ?_
            rw [isLexicallyLocal_functionParent]
            exact ih outer.length hlt h hfunction' hseen' rfl
        · exact houter h enclosing
      | typeParams names =>
        rcases hcons.2 with ⟨-, h, -⟩ | ⟨-, hl, -⟩ | ⟨-, -, -, rfl, -⟩ | ⟨-, -, h⟩
        · cases h
        · cases hl
        · cases hfunction
        · change isLexicallyLocal name enclosing (codeScopes frames) = true
          exact ih frames.length hlt h hfunction hseen rfl

/-- So is a name that a class is taken to bind. -/
theorem isLexicallyLocal_of_seenInClass (hseen : SeenInClass name frames) :
    isLexicallyLocal name false (codeScopes frames) = true := by
  rcases hseen with ⟨body, outer, haround, hmem⟩
  rw [← codeScopes_around, haround]
  have hbound : (declarationsOf (eraseAll body)).names.contains name = true := by
    rw [contains_eq_mem, decide_eq_true_eq]
    exact iterationAll_declared name false body hmem
  change (if (declarationsOf (eraseAll body)).names.contains name then true
    else isLexicallyLocal name false (codeScopes outer)) = true
  rw [hbound, if_pos rfl]

theorem isLexicallyLocal_of_seenLocal (hseen : SeenLocal name frames) :
    isLexicallyLocal name false (codeScopes frames) = true := by
  rcases hseen with ⟨f, rest, hdeciding, hfunction, hseen | hseen⟩
  · exact isLexicallyLocal_of_seen hdeciding hfunction hseen
  · exact isLexicallyLocal_of_seenInClass hseen

/-- A name that is found to be local has a binding. -/
theorem resolves_of_isLexicallyLocal {scopes : List BindingScope}
    (h : isLexicallyLocal name enclosing scopes = true) :
    resolves name enclosing scopes = true := by
  induction scopes generalizing enclosing with
  | nil => cases h
  | cons s scopes ih =>
    rw [isLexicallyLocal] at h
    rw [resolves]
    by_cases hpass : (enclosing && decide (s.kind = .class_)) = true
    · rw [if_pos hpass] at h ⊢
      exact ih h
    rw [if_neg hpass] at h ⊢
    by_cases hglobal : s.globalNames.contains name = true
    · rw [if_pos hglobal] at h
      cases h
    rw [if_neg hglobal] at h ⊢
    by_cases hnonlocal : s.nonlocalNames.contains name = true
    · rw [if_pos hnonlocal] at h ⊢
      exact ih h
    rw [if_neg hnonlocal] at h ⊢
    by_cases hbound : s.bindings.contains name = true
    · rw [if_pos hbound]
    · rw [if_neg hbound] at h ⊢
      exact ih h

end Deciding

section Walk

variable [Interpreter]

/-- What is recorded of a call. -/
def Site.calls (lineCount : Nat) (site : Site) : List CallSite :=
  emit lineCount (codeScopes site.frames) site.startLine site.endLine (.name site.name false)
    (eraseAll site.arguments)

/-- What is recorded at a call. -/
theorem emit_namedCall (lineCount startLine endLine : Nat) (func : PyAst) (arguments : List PyAst)
    (frames : List Frame) :
    emit lineCount (codeScopes frames) startLine endLine (erase func) (eraseAll arguments) =
      (namedCall startLine endLine func arguments frames).flatMap (Site.calls lineCount) := by
  cases func with
  | name id store =>
    rw [namedCall, flatMap_cons, flatMap_nil, append_nil]
    rfl
  | _ => rfl

theorem scanAll_append (lineCount : Nat) (l l' : List Ast) (scopes : List BindingScope) :
    scanAll lineCount (l ++ l') scopes =
      scanAll lineCount l scopes ++ scanAll lineCount l' scopes := by
  induction l with
  | nil => rfl
  | cons n l ih => rw [cons_append, scanAll, ih, scanAll, append_assoc]

/-- The walk at a node with a name and a value. -/
theorem scan_named (lineCount : Nat) (name : Str) (n : Ast) (scopes : List BindingScope) :
    scan lineCount (.other [.name name true, n]) scopes = scan lineCount n scopes :=
  (nil_append _).trans (append_nil _)

omit [Interpreter] in
/-- Type parameters have no scope. -/
theorem codeScopes_withTypeParams (names : List Str) (frames : List Frame) :
    codeScopes (withTypeParams names frames) = codeScopes frames := by
  unfold withTypeParams
  split
  · rfl
  · rfl

mutual

/-- The walk of the extractor meets the calls of bare names one after the other. -/
theorem scan_sites (lineCount : Nat) :
    ∀ (node : PyAst) (frames : List Frame), scan lineCount (erase node) (codeScopes frames) =
      (sites node frames).flatMap (Site.calls lineCount)
  | .functionDef name typeParams heads annotations parameters body, frames => by
    have hbody := scanAll_sites lineCount body
      (.function parameters body :: withTypeParams typeParams frames)
    rw [codeScopes, codeScopes_withTypeParams] at hbody
    have hannotations := scanAll_sites lineCount annotations (withTypeParams typeParams frames)
    rw [codeScopes_withTypeParams] at hannotations
    rw [erase, scan, scanAll_append, scanAll_sites lineCount heads frames, hannotations, hbody,
      sites, flatMap_append, flatMap_append, append_assoc]
  | .lambda defaults parameters body, frames => by
    have hbody := scan_sites lineCount body (.lambda parameters body :: frames)
    rw [codeScopes] at hbody
    rw [erase, scan, scanAll_sites lineCount defaults frames, hbody, sites, flatMap_append]
  | .classDef name typeParams decorators bases body, frames => by
    have hbody := scanAll_sites lineCount body (.class_ body :: withTypeParams typeParams frames)
    rw [codeScopes, codeScopes_withTypeParams] at hbody
    have hbases := scanAll_sites lineCount bases (withTypeParams typeParams frames)
    rw [codeScopes_withTypeParams] at hbases
    rw [erase, scan, scanAll_append, scanAll_sites lineCount decorators frames, hbases, hbody,
      sites, flatMap_append, flatMap_append, append_assoc]
  | .comprehension elements target iter rest, frames => by
    have hinner : ∀ parts, codeScopes (.comprehension parts :: frames) = codeScopes frames :=
      fun _ => rfl
    have helements := scanAll_sites lineCount elements
      (.comprehension (elements ++ target :: rest) :: frames)
    have htarget := scan_sites lineCount target
      (.comprehension (elements ++ target :: rest) :: frames)
    have hrest := scanAll_sites lineCount rest
      (.comprehension (elements ++ target :: rest) :: frames)
    rw [hinner] at helements htarget hrest
    rw [erase, scan, scanAll_append, scanAll, scanAll, helements, htarget, hrest,
      scan_sites lineCount iter frames, sites, flatMap_append, flatMap_append,
      flatMap_append]
  | .namedExpr target value, frames => by
    rw [erase, scan_named, scan_sites lineCount value frames, sites]
  | .call startLine endLine func arguments keywords, frames => by
    rw [erase, scan, scan_sites lineCount func frames, scanAll_sites lineCount arguments frames,
      scanAll_sites lineCount keywords frames, emit_namedCall, sites, flatMap_append,
      flatMap_append, flatMap_append]
  | .exceptHandler name children, frames => by
    rw [erase, scan, scanAll_sites lineCount children frames, sites]
  | .matchCapture name patterns, frames => by
    rw [erase, scan, scanAll_sites lineCount patterns frames, sites]
  | .typeAlias name typeParams value, frames => by
    have hvalue := scan_sites lineCount value (withTypeParams typeParams frames)
    rw [codeScopes_withTypeParams] at hvalue
    rw [erase, scan_named, hvalue, sites]
  | .other children, frames => by
    rw [erase, scan, scanAll_sites lineCount children frames, sites]
  | .name _ _, _ => rfl
  | .imports _, _ => rfl
  | .importFrom _, _ => rfl
  | .globals _, _ => rfl
  | .nonlocals _, _ => rfl

theorem scanAll_sites (lineCount : Nat) :
    ∀ (nodes : List PyAst) (frames : List Frame),
      scanAll lineCount (eraseAll nodes) (codeScopes frames) =
        (sitesAll nodes frames).flatMap (Site.calls lineCount)
  | [], _ => rfl
  | node :: nodes, frames => by
    rw [eraseAll, scanAll, scan_sites lineCount node frames, scanAll_sites lineCount nodes frames,
      sitesAll, flatMap_append]

end

/-- The calls that are recorded of a module, one after the other. -/
theorem callSites_eq (lineCount : Nat) (body : List PyAst) :
    callSites lineCount (eraseAll body) = (moduleSites body).flatMap (Site.calls lineCount) :=
  scanAll_sites lineCount body [.module_ body]

end Walk

section Calls

/-- What a call is recorded as. -/
def Site.observation (moduleKey path kind : Str) (site : Site) : ExtractedObservation :=
  { observedKind := kind
    subjectKind := "module".toList
    subjectKey := moduleKey
    referentText := some site.name
    ordinal := 0
    path := path
    startLine := site.startLine
    endLine := site.endLine }

variable [Interpreter]

/-- The observations of a call. -/
def Site.observations (moduleKey path : Str) (lineCount : Nat) (site : Site) :
    List ExtractedObservation :=
  (site.calls lineCount).flatMap (CallSite.observations moduleKey path)

/-- The observations of a module are those of its calls, one after the other. -/
theorem collectCalls_eq (moduleKey path : Str) (lineCount : Nat) (body : List PyAst) :
    collectCalls moduleKey path lineCount (eraseAll body) =
      (moduleSites body).flatMap (Site.observations moduleKey path lineCount) := by
  rw [collectCalls, callSites_eq, flatMap_assoc]
  rfl

/-- A name that is found to be local is recorded, and marked. -/
theorem calls_of_local {lineCount : Nat} {site : Site} (hname : site.name ∉ reflectionCalls)
    (hlines : 1 ≤ site.startLine ∧ site.startLine ≤ site.endLine ∧ site.endLine ≤ lineCount)
    (hlocal : isLexicallyLocal site.name false (codeScopes site.frames) = true) :
    ∃ injected, site.calls lineCount =
      [{ name := site.name, startLine := site.startLine, endLine := site.endLine,
         shadowed := true, injected := injected }] := by
  refine ⟨if dependencyMarkers.contains site.name then argumentNames (eraseAll site.arguments)
    else [], ?_⟩
  have hreflection : ¬ reflectionCalls.contains site.name = true := by
    rw [contains_eq_mem, decide_eq_true_eq]
    exact hname
  have hbuiltin : ¬ (pythonBuiltinNames.contains site.name &&
      !resolves site.name false (codeScopes site.frames)) = true := by
    rw [resolves_of_isLexicallyLocal hlocal, Bool.not_true, Bool.and_false]
    exact Bool.false_ne_true
  rw [Site.calls, emit, if_neg hreflection, if_neg hbuiltin, if_pos hlines, hlocal]

/-- A call of a name that the extractor sees to be local is marked: its `call_shadowed` stands
    right after it among the observations of the module. This leaves out the calls by
    reflection, which are not recorded, and a span that is not within the file. -/
theorem local_calls_shadowed (moduleKey path : Str) (lineCount : Nat) (body : List PyAst)
    {earlier later : List Site} {site : Site} (hsites : moduleSites body = earlier ++ site :: later)
    (hname : site.name ∉ reflectionCalls)
    (hlines : 1 ≤ site.startLine ∧ site.startLine ≤ site.endLine ∧ site.endLine ≤ lineCount)
    (hseen : SeenLocal site.name site.frames) :
    ∃ injects, collectCalls moduleKey path lineCount (eraseAll body) =
      earlier.flatMap (Site.observations moduleKey path lineCount) ++
        (site.observation moduleKey path callKind ::
          site.observation moduleKey path callShadowedKind :: injects) ++
        later.flatMap (Site.observations moduleKey path lineCount) := by
  rcases calls_of_local hname hlines (isLexicallyLocal_of_seenLocal hseen) with ⟨injected, hcalls⟩
  have hobservations : ∃ injects, site.observations moduleKey path lineCount =
      site.observation moduleKey path callKind ::
        site.observation moduleKey path callShadowedKind :: injects := by
    rw [Site.observations, hcalls, flatMap_cons, flatMap_nil, append_nil]
    exact ⟨_, rfl⟩
  rcases hobservations with ⟨injects, hobservations⟩
  refine ⟨injects, ?_⟩
  rw [collectCalls_eq, hsites, flatMap_append, flatMap_cons, hobservations,
    append_assoc]

end Calls

section Samples

local instance scopesInterpreter : Interpreter := cpython

/-- A call without arguments. -/
def plainCall (line : Nat) (name : Str) : PyAst :=
  .call line line (.name name false) [] []

/-- `[f() for x in y]`. -/
def listing : List PyAst :=
  [.other [.comprehension [plainCall 3 "f".toList] (.name "x".toList true)
    (.name "y".toList false) []]]

/-- `def h():` around it. -/
def nested : List PyAst :=
  [.functionDef "h".toList [] [] [] [] listing]

/-- `def g(f):` around that. -/
def passedOn : List PyAst :=
  [.functionDef "g".toList [] [] [] ["f".toList] nested]

/-- The call of the parameter. -/
def passedOnSite : Site :=
  { name := "f".toList
    startLine := 3
    endLine := 3
    arguments := []
    frames := [.comprehension [plainCall 3 "f".toList, .name "x".toList true],
      .function [] listing, .function ["f".toList] nested, .module_ passedOn] }

theorem local_calls_shadowed_parameter :
    ∃ injects, collectCalls "mod:".toList "a.py".toList 3 (eraseAll passedOn) =
      [] ++ (passedOnSite.observation "mod:".toList "a.py".toList callKind ::
        passedOnSite.observation "mod:".toList "a.py".toList callShadowedKind :: injects) ++ [] :=
  local_calls_shadowed "mod:".toList "a.py".toList 3 passedOn
    (show moduleSites passedOn = [] ++ passedOnSite :: [] from rfl) (by decide) (by decide)
    ⟨_, _, rfl, rfl, .inl (Seen.parameter mem_cons_self)⟩

/-- `def g():` with a `try` whose handler is `except E as f: f()`. -/
def caught : List PyAst :=
  [.functionDef "g".toList [] [] [] []
    [.other [.exceptHandler (some "f".toList)
      [.name "E".toList false, .other [plainCall 5 "f".toList]]]]]

/-- `def g(getattr): getattr()`. -/
def reflected : List PyAst :=
  [.functionDef "g".toList [] [] [] ["getattr".toList] [.other [plainCall 2 "getattr".toList]]]

/-- The name of an `except` clause is local to the function, but its call is not marked. A call
    by reflection is not recorded, whatever the name is bound to. -/
theorem local_calls_missed :
    ((moduleSites caught).map (·.name) = ["f".toList] ∧
      (∀ site ∈ moduleSites caught, LocalName site.name site.frames) ∧
      (collectCalls "mod:".toList "a.py".toList 5 (eraseAll caught)).map (·.observedKind) =
        [callKind]) ∧
    ((moduleSites reflected).map (·.name) = ["getattr".toList] ∧
      (∀ site ∈ moduleSites reflected, LocalName site.name site.frames) ∧
      collectCalls "mod:".toList "a.py".toList 2 (eraseAll reflected) = []) := by
  refine ⟨⟨rfl, fun site hsite => ?_, rfl⟩, rfl, fun site hsite => ?_, rfl⟩
  · rw [mem_singleton.mp hsite]
    exact ⟨_, _, rfl, rfl⟩
  · rw [mem_singleton.mp hsite]
    exact ⟨_, _, rfl, rfl⟩

end Samples

end Scoping

end Partha
