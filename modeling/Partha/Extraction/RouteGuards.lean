import Partha.Extraction.LexicalScopes
import Partha.Extraction.Symbols

/-!
# Guards of Routes

What the Python extractor records of the guards that a route is declared with.

A guard is the name in `Depends(name)`. There are two passes. The scan of the calls records the
names among the arguments of every such call. The collection of the symbols records, for a
function whose decorator declares a route, the guards in the `dependencies` of the decorator,
and those in the `dependencies` of the router that the decorator is called on. The routers are
the names that a statement of the module assigns a router to. What counts is how they are
spelled: the scopes around the decorator are not asked.

A syntax tree has what either pass looks at. `view` is the tree with its blocks, so a handler
comes with the blocks around its decorators.

## Main definitions

* `PyNode`: A syntax tree.
* `view`: The tree with its blocks.
* `routerDependencies`: `_router_dependencies`.
* `Handler`: A function or a class with its decorators.
* `collectGuards`: `emit_route_dependencies`, at every handler.

## Theorems

* `mem_collectGuards`: A guard that is recorded is one of its handler.
* `collectGuards_complete`: Every guard of a handler is recorded.
* `site_of_decorator`, `site_of_router`: A guard is an argument of a call in its block.
-/

namespace Partha

namespace RouteGuards

open Canonical Extraction Scoping List

section Trees

/-- A node of `ast`. A `display` is a list or a tuple. -/
inductive PyNode where
  | functionDef (name : Str) (startLine endLine : Nat) (typeParams : List Str)
      (decorators defaults annotations : List PyNode) (parameters : List Str)
      (body : List PyNode)
  | classDef (name : Str) (startLine endLine : Nat) (typeParams : List Str)
      (decorators bases body : List PyNode)
  | lambda (defaults : List PyNode) (parameters : List Str) (body : PyNode)
  | comprehension (elements : List PyNode) (target iter : PyNode) (rest : List PyNode)
  | namedExpr (target : Str) (value : PyNode)
  | name (id : Str) (store : Bool)
  | attribute (value : PyNode) (attr : Str)
  | display (elts : List PyNode)
  | string (value : Str)
  | keyword (arg : Option Str) (value : PyNode)
  | call (startLine endLine : Nat) (func : PyNode) (arguments keywords : List PyNode)
  | assign (targets : List PyNode) (value : PyNode)
  | annAssign (target annotation : PyNode) (value : Option PyNode)
  | imports (names : List Alias)
  | importFrom (names : List Alias)
  | globals (names : List Str)
  | nonlocals (names : List Str)
  | exceptHandler (name : Option Str) (children : List PyNode)
  | matchCapture (name : Option Str) (patterns : List PyNode)
  | typeAlias (name : Str) (typeParams : List Str) (value : PyNode)
  | other (children : List PyNode)

mutual

/-- A node, as it is where blocks are told apart. -/
def view : PyNode → PyAst
  | .functionDef name _ _ typeParams decorators defaults annotations parameters body =>
    .functionDef name typeParams (viewAll decorators ++ viewAll defaults) (viewAll annotations)
      parameters (viewAll body)
  | .classDef name _ _ typeParams decorators bases body =>
    .classDef name typeParams (viewAll decorators) (viewAll bases) (viewAll body)
  | .lambda defaults parameters body => .lambda (viewAll defaults) parameters (view body)
  | .comprehension elements target iter rest =>
    .comprehension (viewAll elements) (view target) (view iter) (viewAll rest)
  | .namedExpr target value => .namedExpr target (view value)
  | .name id store => .name id store
  | .attribute value _ => .other [view value]
  | .display elts => .other (viewAll elts)
  | .string _ => .other []
  | .keyword _ value => .other [view value]
  | .call startLine endLine func arguments keywords =>
    .call startLine endLine (view func) (viewAll arguments) (viewAll keywords)
  | .assign targets value => .other (viewAll targets ++ [view value])
  | .annAssign target annotation none => .other [view target, view annotation]
  | .annAssign target annotation (some value) => .other [view target, view annotation, view value]
  | .imports names => .imports names
  | .importFrom names => .importFrom names
  | .globals names => .globals names
  | .nonlocals names => .nonlocals names
  | .exceptHandler name children => .exceptHandler name (viewAll children)
  | .matchCapture name patterns => .matchCapture name (viewAll patterns)
  | .typeAlias name typeParams value => .typeAlias name typeParams (view value)
  | .other children => .other (viewAll children)

def viewAll : List PyNode → List PyAst
  | [] => []
  | node :: nodes => view node :: viewAll nodes

end

/-- The blocks around the statements of a module. -/
def moduleFrames (body : List PyNode) : List Frame :=
  [.module_ (viewAll body)]

end Trees

section Guards

/-- The name in a `Depends`, with the lines of the call. -/
structure Guard where
  name : Str
  startLine : Nat
  endLine : Nat
  deriving DecidableEq, Repr

/-- `_ROUTE_METHODS`. -/
def routeMethods : List Str :=
  ["get", "post", "put", "patch", "delete", "options", "head"].map String.toList

/-- `_ROUTER_CONSTRUCTORS`. -/
def routerConstructors : List Str :=
  ["APIRouter", "FastAPI"].map String.toList

/-- `_depends_guard`. -/
def dependsGuard : PyNode → Option Guard
  | .call startLine endLine (.name id _) (.name guard _ :: _) _ =>
    if dependencyMarkers.elem id then
      some { name := guard, startLine := startLine, endLine := endLine }
    else none
  | _ => none

/-- The guards of a keyword. -/
def keywordGuards : PyNode → List Guard
  | .keyword (some arg) (.display elts) =>
    if arg = "dependencies".toList then elts.filterMap dependsGuard else []
  | _ => []

/-- `_keyword_dependencies`. -/
def keywordDependencies : PyNode → List Guard
  | .call _ _ _ _ keywords => keywords.flatMap keywordGuards
  | _ => []

/-- The name that a call is made by. -/
def constructorName : PyNode → Option Str
  | .call _ _ (.attribute _ attr) _ _ => some attr
  | .call _ _ (.name id _) _ _ => some id
  | _ => none

/-- A name with the guards of the router that is assigned to it. -/
def routerOf (target value : PyNode) : Option (Str × List Guard) :=
  match target with
  | .name id _ =>
    if (constructorName value).any routerConstructors.elem && !(keywordDependencies value).isEmpty
    then some (id, keywordDependencies value)
    else none
  | _ => none

/-- The router that a statement assigns, if there is one with guards. -/
def routerStatement : PyNode → Option (Str × List Guard)
  | .assign [target] value => routerOf target value
  | .annAssign target _ (some value) => routerOf target value
  | _ => none

/-- `_router_dependencies(tree).get(name, ())`. -/
def routerDependencies (body : List PyNode) (name : Str) : List Guard :=
  ((body.filterMap routerStatement).reverse.lookup name).getD []

/-- `_route_paths`, of one decorator. -/
def isRoute : PyNode → Bool
  | .call _ _ (.attribute _ attr) (.string _ :: _) _ => routeMethods.elem attr
  | _ => false

/-- The name that a method of a decorator is called on. -/
def receiver : PyNode → Option Str
  | .call _ _ (.attribute (.name id _) _) _ _ => some id
  | _ => none

/-- The guards of the router that a decorator is called on. -/
def inheritedGuards (body : List PyNode) (decorator : PyNode) : List Guard :=
  match receiver decorator with
  | some name => routerDependencies body name
  | none => []

/-- The guards of a route, in the order in which they are recorded. -/
def decoratorGuards (body : List PyNode) (decorator : PyNode) : List Guard :=
  keywordDependencies decorator ++ inheritedGuards body decorator

end Guards

section Handlers

/-- A function or a class, with the blocks around it. -/
structure Handler where
  name : Str
  startLine : Nat
  endLine : Nat
  decorators : List PyNode
  frames : List Frame

mutual

/-- The functions and the classes that `_collect_symbols` visits. -/
def handlers : PyNode → List Frame → List Handler
  | .functionDef name startLine endLine typeParams decorators _ _ parameters body, frames =>
    { name := name, startLine := startLine, endLine := endLine, decorators := decorators
      frames := frames } ::
      handlersAll body (.function parameters (viewAll body) :: withTypeParams typeParams frames)
  | .classDef name startLine endLine typeParams decorators _ body, frames =>
    { name := name, startLine := startLine, endLine := endLine, decorators := decorators
      frames := frames } ::
      handlersAll body (.class_ (viewAll body) :: withTypeParams typeParams frames)
  | _, _ => []

def handlersAll : List PyNode → List Frame → List Handler
  | [], _ => []
  | node :: nodes, frames => handlers node frames ++ handlersAll nodes frames

end

def moduleHandlers (body : List PyNode) : List Handler :=
  handlersAll body (moduleFrames body)

/-- The decorators of a handler that declare a route. -/
def Handler.routes (h : Handler) : List PyNode :=
  h.decorators.filter isRoute

/-- The guards of a handler. -/
def Handler.guards (body : List PyNode) (h : Handler) : List Guard :=
  h.routes.flatMap (decoratorGuards body)

end Handlers

section Recording

/-- What tells two guards of a handler apart. -/
def marker (key : Str) (g : Guard) : Str × Str × Nat :=
  (key, g.name, g.startLine)

/-- What a guard is recorded as, with a placeholder for the ordinal. -/
def guardObservation (path key : Str) (g : Guard) : ExtractedObservation :=
  { observedKind := injectsKind
    subjectKind := "symbol".toList
    subjectKey := key
    referentText := some g.name
    ordinal := 0
    path := path
    startLine := g.startLine
    endLine := g.endLine }

variable (path : Str) (lineCount : Nat)

/-- The guards of a handler after the markers that were `injected`, with all the markers. -/
def emitGuards (key : Str) (injected : List (Str × Str × Nat)) :
    List Guard → List ExtractedObservation × List (Str × Str × Nat)
  | [] => ([], injected)
  | g :: guards =>
    if injected.elem (marker key g) then emitGuards key injected guards
    else
      let rest := emitGuards key (marker key g :: injected) guards
      (if InFile lineCount g.startLine g.endLine then guardObservation path key g :: rest.1
        else rest.1, rest.2)

/-- The guards of handlers with their keys. -/
def emitHandlers (body : List PyNode) (injected : List (Str × Str × Nat)) :
    List (Handler × Str) → List ExtractedObservation
  | [] => []
  | q :: rest =>
    if InFile lineCount q.1.startLine q.1.endLine then
      (emitGuards path lineCount q.2 injected (q.1.guards body)).1 ++
        emitHandlers body (emitGuards path lineCount q.2 injected (q.1.guards body)).2 rest
    else emitHandlers body injected rest

/-- `emit_route_dependencies`, at every handler of a module whose symbols have these keys. -/
def collectGuards (body : List PyNode) (keys : List Str) : List ExtractedObservation :=
  emitHandlers path lineCount body [] ((moduleHandlers body).zip keys)

end Recording

section Emission

variable {path : Str} {lineCount : Nat} {body : List PyNode} {key : Str}

variable {injected : List (Str × Str × Nat)} {guards : List Guard} {o : ExtractedObservation}
  {g : Guard} {qs : List (Handler × Str)} {q : Handler × Str} {keys : List Str}

/-- The markers after the guards of a handler are those before and those of the guards. -/
theorem mem_emitGuards_injected {m : Str × Str × Nat} :
    m ∈ (emitGuards path lineCount key injected guards).2 ↔
      m ∈ injected ∨ ∃ g ∈ guards, marker key g = m := by
  induction guards generalizing injected with
  | nil => simp only [emitGuards, not_mem_nil, false_and, exists_false, or_false]
  | cons g guards ih =>
    rw [emitGuards, exists_mem_cons_iff]
    by_cases hg : injected.elem (marker key g) = true
    · rw [if_pos hg, ih]
      constructor
      · rintro (hm | hm)
        · exact .inl hm
        · exact .inr (.inr hm)
      · rintro (hm | hm | hm)
        · exact .inl hm
        · rw [← hm]
          exact .inl (elem_iff.mp hg)
        · exact .inr hm
    · rw [if_neg hg]
      dsimp only
      rw [ih, mem_cons, eq_comm, or_assoc, or_left_comm]

theorem mem_emitGuards (h : o ∈ (emitGuards path lineCount key injected guards).1) :
    ∃ g ∈ guards, o = guardObservation path key g := by
  induction guards generalizing injected with
  | nil => cases h
  | cons g guards ih =>
    rw [emitGuards] at h
    by_cases hg : injected.elem (marker key g) = true
    · rw [if_pos hg] at h
      rcases ih h with ⟨g', hg', ho⟩
      exact ⟨g', mem_cons_of_mem g hg', ho⟩
    · rw [if_neg hg] at h
      dsimp only at h
      by_cases hlines : InFile lineCount g.startLine g.endLine
      · rw [if_pos hlines] at h
        rcases mem_cons.mp h with rfl | h
        · exact ⟨g, mem_cons_self, rfl⟩
        · rcases ih h with ⟨g', hg', ho⟩
          exact ⟨g', mem_cons_of_mem g hg', ho⟩
      · rw [if_neg hlines] at h
        rcases ih h with ⟨g', hg', ho⟩
        exact ⟨g', mem_cons_of_mem g hg', ho⟩

/-- A guard is recorded, or was before, or another one in its place. -/
theorem emitGuards_complete (hlines : ∀ g ∈ guards, InFile lineCount g.startLine g.endLine)
    (hg : g ∈ guards) (hnew : marker key g ∉ injected) :
    ∃ g' ∈ guards, marker key g' = marker key g ∧
      guardObservation path key g' ∈ (emitGuards path lineCount key injected guards).1 := by
  induction guards generalizing injected with
  | nil => cases hg
  | cons g' guards ih =>
    have hrest := fun e he => hlines e (mem_cons_of_mem g' he)
    rw [emitGuards]
    by_cases hseen : injected.elem (marker key g') = true
    · rw [if_pos hseen]
      have hg' : g ∈ guards := by
        rcases mem_cons.mp hg with rfl | hg
        · exact absurd (elem_iff.mp hseen) hnew
        · exact hg
      rcases ih hrest hg' hnew with ⟨e, he, hmarker, ho⟩
      exact ⟨e, mem_cons_of_mem g' he, hmarker, ho⟩
    · rw [if_neg hseen]
      dsimp only
      rw [if_pos (hlines g' mem_cons_self)]
      by_cases hsame : marker key g' = marker key g
      · exact ⟨g', mem_cons_self, hsame, mem_cons_self⟩
      · have hg' : g ∈ guards := by
          rcases mem_cons.mp hg with rfl | hg
          · exact absurd rfl hsame
          · exact hg
        have hnew' : marker key g ∉ marker key g' :: injected := by
          intro hmem
          rcases mem_cons.mp hmem with heq | hmem
          · exact hsame heq.symm
          · exact hnew hmem
        rcases ih hrest hg' hnew' with ⟨e, he, hmarker, ho⟩
        exact ⟨e, mem_cons_of_mem g' he, hmarker, mem_cons_of_mem _ ho⟩

theorem mem_emitHandlers (h : o ∈ emitHandlers path lineCount body injected qs) :
    ∃ q ∈ qs, ∃ g ∈ q.1.guards body, o = guardObservation path q.2 g := by
  induction qs generalizing injected with
  | nil => cases h
  | cons q qs ih =>
    have hlater : (∃ injected', o ∈ emitHandlers path lineCount body injected' qs) →
        ∃ q' ∈ q :: qs, ∃ g ∈ q'.1.guards body, o = guardObservation path q'.2 g := by
      rintro ⟨injected', hin⟩
      rcases ih hin with ⟨q', hq', hg⟩
      exact ⟨q', mem_cons_of_mem q hq', hg⟩
    rw [emitHandlers] at h
    by_cases hlines : InFile lineCount q.1.startLine q.1.endLine
    · rw [if_pos hlines, mem_append] at h
      rcases h with h | h
      · exact ⟨q, mem_cons_self, mem_emitGuards h⟩
      · exact hlater ⟨_, h⟩
    · rw [if_neg hlines] at h
      exact hlater ⟨_, h⟩

theorem emitHandlers_complete (hlines : ∀ q ∈ qs, InFile lineCount q.1.startLine q.1.endLine ∧
      ∀ g ∈ q.1.guards body, InFile lineCount g.startLine g.endLine) (hq : q ∈ qs)
    (hg : g ∈ q.1.guards body) (hnew : marker q.2 g ∉ injected) :
    ∃ q' ∈ qs, ∃ g' ∈ q'.1.guards body,
      marker q'.2 g' = marker q.2 g ∧
        guardObservation path q'.2 g' ∈ emitHandlers path lineCount body injected qs := by
  induction qs generalizing injected with
  | nil => cases hq
  | cons e qs ih =>
    have hhere := hlines e mem_cons_self
    rw [emitHandlers, if_pos hhere.1]
    by_cases hearly : ∃ g' ∈ e.1.guards body, marker e.2 g' = marker q.2 g
    · rcases hearly with ⟨g', hg', hsame⟩
      rcases emitGuards_complete hhere.2 hg' (hsame ▸ hnew) with ⟨g'', hg'', hmarker, ho⟩
      exact ⟨e, mem_cons_self, g'', hg'', hmarker.trans hsame, mem_append_left _ ho⟩
    · have hq' : q ∈ qs := by
        rcases mem_cons.mp hq with rfl | hq
        · exact absurd ⟨g, hg, rfl⟩ hearly
        · exact hq
      have hnew' : marker q.2 g ∉
          (emitGuards path lineCount e.2 injected (e.1.guards body)).2 := by
        intro hmem
        rcases mem_emitGuards_injected.mp hmem with hmem | hmem
        · exact hnew hmem
        · exact hearly hmem
      rcases ih (fun p hp => hlines p (mem_cons_of_mem e hp)) hq' hnew' with
        ⟨q', hq', g', hg', hmarker, ho⟩
      exact ⟨q', mem_cons_of_mem e hq', g', hg', hmarker, mem_append_right _ ho⟩

/-- What is recorded is a guard of its handler. -/
theorem mem_collectGuards (h : o ∈ collectGuards path lineCount body keys) :
    ∃ q ∈ (moduleHandlers body).zip keys, ∃ g ∈ q.1.guards body,
      o = guardObservation path q.2 g :=
  mem_emitHandlers h

/-- Every guard of a handler is recorded, or another of its name and its line. -/
theorem collectGuards_complete
    (hlines : ∀ q ∈ (moduleHandlers body).zip keys, InFile lineCount q.1.startLine q.1.endLine ∧
      ∀ g ∈ q.1.guards body, InFile lineCount g.startLine g.endLine)
    (hq : q ∈ (moduleHandlers body).zip keys) (hg : g ∈ q.1.guards body) :
    ∃ q' ∈ (moduleHandlers body).zip keys,
      ∃ g' ∈ q'.1.guards body, marker q'.2 g' = marker q.2 g ∧
        guardObservation path q'.2 g' ∈ collectGuards path lineCount body keys :=
  emitHandlers_complete hlines hq hg not_mem_nil

end Emission

section Sites

/-- A guard is an argument of a call with these blocks around it. -/
def GuardSite (g : Guard) (frames : List Frame) (site : Site) : Prop :=
  dependencyMarkers.elem site.name = true ∧ site.startLine = g.startLine ∧
    site.endLine = g.endLine ∧ site.frames = frames ∧ ∃ store, .name g.name store ∈ site.arguments

variable {node : PyNode} {g : Guard} {body : List PyNode}

theorem sites_subset_all {nodes : List PyNode} (h : node ∈ nodes) {frames : List Frame}
    {site : Site} (hsite : site ∈ sites (view node) frames) :
    site ∈ sitesAll (viewAll nodes) frames := by
  induction nodes with
  | nil => cases h
  | cons n nodes ih =>
    rw [viewAll, sitesAll, mem_append]
    rcases mem_cons.mp h with rfl | h
    · exact .inl hsite
    · exact .inr (ih h)

theorem sitesAll_append (nodes nodes' : List PyAst) (frames : List Frame) :
    sitesAll (nodes ++ nodes') frames = sitesAll nodes frames ++ sitesAll nodes' frames := by
  induction nodes with
  | nil => rfl
  | cons n nodes ih => rw [cons_append, sitesAll, sitesAll, ih, append_assoc]

theorem site_of_depends (h : dependsGuard node = some g) (frames : List Frame) :
    ∃ site ∈ sites (view node) frames, GuardSite g frames site := by
  unfold dependsGuard at h
  split at h
  · rename_i startLine endLine id store guard store' arguments keywords
    split at h
    · rename_i hmarker
      cases h
      refine ⟨{ name := id, startLine := startLine, endLine := endLine
                arguments := viewAll (.name guard store' :: arguments), frames := frames }, ?_,
        hmarker, rfl, rfl, rfl, store', mem_cons_self⟩
      rw [view, view, sites]
      exact mem_append_left _ mem_cons_self
    · cases h
  · cases h

/-- A guard in a keyword of a call is an argument of a call within it. -/
theorem site_of_keyword {call : PyNode} (h : g ∈ keywordDependencies call) (frames : List Frame) :
    ∃ site ∈ sites (view call) frames, GuardSite g frames site := by
  unfold keywordDependencies at h
  split at h
  · rename_i startLine endLine func arguments keywords
    rcases mem_flatMap.mp h with ⟨keyword, hkeyword, hg⟩
    have hin : ∃ site ∈ sites (view keyword) frames, GuardSite g frames site := by
      unfold keywordGuards at hg
      split at hg
      · rename_i arg elts
        split at hg
        · rcases mem_filterMap.mp hg with ⟨element, helement, hdepends⟩
          rcases site_of_depends hdepends frames with ⟨site, hsite, hguard⟩
          refine ⟨site, ?_, hguard⟩
          rw [view, sites, sitesAll, sitesAll, append_nil, view, sites]
          exact sites_subset_all helement hsite
        · cases hg
      · cases hg
    rcases hin with ⟨site, hsite, hguard⟩
    refine ⟨site, ?_, hguard⟩
    rw [view, sites]
    exact mem_append_right _ (mem_append_right _ (mem_append_right _
      (sites_subset_all hkeyword hsite)))
  · cases h

mutual

/-- The calls in the decorators of a handler are calls of the module. -/
theorem sites_of_handlers : ∀ (node : PyNode) (frames : List Frame), ∀ h ∈ handlers node frames,
    ∀ site ∈ sitesAll (viewAll h.decorators) h.frames, site ∈ sites (view node) frames
  | .functionDef _ _ _ typeParams decorators defaults annotations parameters body, frames, h, hh,
      site, hsite => by
      have hbody := sites_of_handlersAll body
        (.function parameters (viewAll body) :: withTypeParams typeParams frames)
      rw [view, sites, sitesAll_append]
      rw [handlers] at hh
      rcases mem_cons.mp hh with rfl | hh
      · exact mem_append_left _ (mem_append_left _ hsite)
      · exact mem_append_right _ (mem_append_right _ (hbody h hh site hsite))
  | .classDef _ _ _ typeParams decorators bases body, frames, h, hh, site, hsite => by
    have hbody := sites_of_handlersAll body
      (.class_ (viewAll body) :: withTypeParams typeParams frames)
    rw [view, sites]
    rw [handlers] at hh
    rcases mem_cons.mp hh with rfl | hh
    · exact mem_append_left _ hsite
    · exact mem_append_right _ (mem_append_right _ (hbody h hh site hsite))
  | .lambda _ _ _, _, _, hh, _, _ => absurd hh not_mem_nil
  | .comprehension _ _ _ _, _, _, hh, _, _ => absurd hh not_mem_nil
  | .namedExpr _ _, _, _, hh, _, _ => absurd hh not_mem_nil
  | .name _ _, _, _, hh, _, _ => absurd hh not_mem_nil
  | .attribute _ _, _, _, hh, _, _ => absurd hh not_mem_nil
  | .display _, _, _, hh, _, _ => absurd hh not_mem_nil
  | .string _, _, _, hh, _, _ => absurd hh not_mem_nil
  | .keyword _ _, _, _, hh, _, _ => absurd hh not_mem_nil
  | .call _ _ _ _ _, _, _, hh, _, _ => absurd hh not_mem_nil
  | .assign _ _, _, _, hh, _, _ => absurd hh not_mem_nil
  | .annAssign _ _ _, _, _, hh, _, _ => absurd hh not_mem_nil
  | .imports _, _, _, hh, _, _ => absurd hh not_mem_nil
  | .importFrom _, _, _, hh, _, _ => absurd hh not_mem_nil
  | .globals _, _, _, hh, _, _ => absurd hh not_mem_nil
  | .nonlocals _, _, _, hh, _, _ => absurd hh not_mem_nil
  | .exceptHandler _ _, _, _, hh, _, _ => absurd hh not_mem_nil
  | .matchCapture _ _, _, _, hh, _, _ => absurd hh not_mem_nil
  | .typeAlias _ _ _, _, _, hh, _, _ => absurd hh not_mem_nil
  | .other _, _, _, hh, _, _ => absurd hh not_mem_nil

theorem sites_of_handlersAll : ∀ (nodes : List PyNode) (frames : List Frame),
    ∀ h ∈ handlersAll nodes frames, ∀ site ∈ sitesAll (viewAll h.decorators) h.frames,
      site ∈ sitesAll (viewAll nodes) frames
  | [], _, _, hh, _, _ => absurd hh not_mem_nil
  | node :: nodes, frames, h, hh, site, hsite => by
    rw [viewAll, sitesAll, mem_append]
    rw [handlersAll, mem_append] at hh
    rcases hh with hh | hh
    · exact .inl (sites_of_handlers node frames h hh site hsite)
    · exact .inr (sites_of_handlersAll nodes frames h hh site hsite)

end

/-- A guard in a decorator is an argument of a call in the block of the handler. -/
theorem site_of_decorator {h : Handler} (hh : h ∈ moduleHandlers body) {decorator : PyNode}
    (hdecorator : decorator ∈ h.decorators) (hg : g ∈ keywordDependencies decorator) :
    ∃ site ∈ moduleSites (viewAll body), GuardSite g h.frames site := by
  rcases site_of_keyword hg h.frames with ⟨site, hsite, hguard⟩
  exact ⟨site, sites_of_handlersAll body (moduleFrames body) h hh site
    (sites_subset_all hdecorator hsite), hguard⟩

theorem routerOf_value {target value : PyNode} {r : Str × List Guard}
    (h : routerOf target value = some r) : r.2 = keywordDependencies value := by
  unfold routerOf at h
  split at h
  · split at h
    · rw [← Option.some.inj h]
    · cases h
  · cases h

/-- A guard of a router is an argument of a call in the block of the module. -/
theorem site_of_router {name : Str} (h : g ∈ routerDependencies body name) :
    ∃ site ∈ moduleSites (viewAll body), GuardSite g (moduleFrames body) site := by
  unfold routerDependencies at h
  cases hlookup : (body.filterMap routerStatement).reverse.lookup name with
  | none =>
    rw [hlookup] at h
    cases h
  | some guards =>
    rw [hlookup] at h
    rcases lookup_eq_some_iff.mp hlookup with ⟨before, after, hsplit, -⟩
    have hmem : (name, guards) ∈ (body.filterMap routerStatement).reverse := by
      rw [hsplit]
      exact mem_append_right before mem_cons_self
    rcases mem_filterMap.mp (mem_reverse.mp hmem) with ⟨statement, hstatement, hrouter⟩
    have hin : ∃ site ∈ sites (view statement) (moduleFrames body),
        GuardSite g (moduleFrames body) site := by
      unfold routerStatement at hrouter
      split at hrouter
      · rename_i target value
        have hg : g ∈ keywordDependencies value := by
          rw [← routerOf_value hrouter]
          exact h
        rcases site_of_keyword hg (moduleFrames body) with ⟨site, hsite, hguard⟩
        refine ⟨site, ?_, hguard⟩
        rw [view, sites, sitesAll_append, sitesAll, sitesAll, append_nil]
        exact mem_append_right _ hsite
      · rename_i target annotation value
        have hg : g ∈ keywordDependencies value := by
          rw [← routerOf_value hrouter]
          exact h
        rcases site_of_keyword hg (moduleFrames body) with ⟨site, hsite, hguard⟩
        refine ⟨site, ?_, hguard⟩
        rw [view, sites, sitesAll, sitesAll, sitesAll, sitesAll, append_nil]
        exact mem_append_right _ (mem_append_right _ hsite)
      · cases hrouter
    rcases hin with ⟨site, hsite, hguard⟩
    exact ⟨site, sites_subset_all hstatement hsite, hguard⟩

end Sites

end RouteGuards

end Partha
