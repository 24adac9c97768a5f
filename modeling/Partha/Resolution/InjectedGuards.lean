import Partha.Extraction.RouteGuards
import Partha.Resolution.ShadowedCalls
import Partha.Resolution.Soundness

/-!
# Injected Guards

Where the `injects` edges of a Python module go, against what Python makes of the names.

A name in a `Depends` becomes an `injects` observation, and the resolver looks for a symbol of
that name in the file and among its imports. Calls are marked where a name is local, and injected
names are not. So the edge of a name that Python finds in a function, a class or a comprehension
is to a symbol that the name does not mean, whenever there is one.

A router is known by its name. A handler gets the guards of a router if its decorator is called on
a name that is spelled the same, whatever that name is bound to where the decorator stands. The
binding that a router is assigned to is the variable of the module.

## Main definitions

* `BoundLocally`: A name that is not the module's.
* `NeverBorrows`: No edge of such a name goes to a symbol of that name.
* `AttributedRightly`: Guards are inherited from the routers of the module only.
* `Offered`: A symbol that is found for a name.

## Theorems

* `borrows_iff`: An edge is borrowed iff there is a symbol to borrow.
* `injection_faithful`: When the edges are those that Python's scopes allow.
* `injection_borrows`: A guard and a router that are parameters.
-/

namespace Partha

namespace InjectedGuards

open Canonical Extraction Resolution RouteGuards
open Scoping (Site Frame deciding moduleSites PyAst eraseAll)
open List

section Definitions

/-- The calls whose arguments are injected. -/
def injectionMarkers : List Str :=
  ["Depends", "Security"].map String.toList

/-- A name that Python finds in a block other than the module's. -/
def BoundLocally (name : Str) (frames : List Frame) : Prop :=
  (deciding name false frames).isSome = true

instance (name : Str) (frames : List Frame) : Decidable (BoundLocally name frames) :=
  inferInstanceAs (Decidable (_ = true))

/-- A name is an argument of a call. -/
def Mentions (site : Site) (name : Str) : Prop :=
  ∃ store, PyAst.name name store ∈ site.arguments

/-- A guard that a handler has: one in a decorator of a route, or one of the router that the
    decorator is called on, where the name of the router is the module's. -/
def Guarded (body : List PyNode) (h : Handler) (name : Str) (line : Nat) : Prop :=
  ∃ d ∈ h.routes, ∃ g : Guard, g.name = name ∧ g.startLine = line ∧
    (g ∈ keywordDependencies d ∨ ∃ router, receiver d = some router ∧
      g ∈ routerDependencies body router ∧ ¬ BoundLocally router h.frames)

/-- What is recorded of the guards of handlers are guards that they have. -/
def AttributedRightly (path : Str) (lineCount : Nat) (body : List PyNode) (keys : List Str) :
    Prop :=
  ∀ o ∈ collectGuards path lineCount body keys, ∃ q ∈ (moduleHandlers body).zip keys, ∃ name,
    q.2 = o.subjectKey ∧ o.referentText = some name ∧ Guarded body q.1 name o.startLine

/-- A router that is not the module's where a handler is decorated has no guards, but for those
    that the handler has anyway. -/
def RoutersApart (body : List PyNode) (keys : List Str) : Prop :=
  ∀ q ∈ (moduleHandlers body).zip keys, ∀ d ∈ q.1.routes, ∀ router, receiver d = some router →
    BoundLocally router q.1.frames → ∀ g ∈ routerDependencies body router,
      ∃ q' ∈ (moduleHandlers body).zip keys, q'.2 = q.2 ∧ Guarded body q'.1 g.name g.startLine

/-- What a parser gives: names that are identifiers. -/
def Parsed (body : List PyNode) : Prop :=
  ∀ site ∈ moduleSites (viewAll body), ∀ name, Mentions site name → name ≠ [] ∧ ':' ∉ name

/-- The lines of the calls and of the handlers are among those that are counted in the file. A
    parser ends a line at a lone carriage return too, which is not counted. -/
structure Counted (lineCount : Nat) (body : List PyNode) : Prop where
  calls : ∀ site ∈ moduleSites (viewAll body), InFile lineCount site.startLine site.endLine
  definitions : ∀ h ∈ moduleHandlers body, InFile lineCount h.startLine h.endLine

variable [Interpreter]

/-- The symbols that are imported under a name. -/
def importedSymbols (t : Tables) (path name : Str) : List Resolution.Node :=
  ((bindingsByFile t (fileKey path)).filter (fun b => b.localName = name)).flatMap
    (boundCandidates t.nodes path)

/-- An `injects` edge to the symbol of a name in the module, or to one that is imported under the
    name. -/
def Borrows (t : Tables) (path name : Str) : Fact → Prop
  | .edge _ _ predicate _ key _ _ => predicate = injectsKind ∧
    (key = symbolKey path name ∨ ∃ n ∈ importedSymbols t path name, n.stableKey = key)
  | .diagnostic _ _ _ _ _ _ _ => False

/-- An input is of an observation, whatever ordinal it has. -/
def DerivedFrom (o : ExtractedObservation) (i : Input) : Prop :=
  i.observation.observedKind = o.observedKind ∧ i.observation.subjectKey = o.subjectKey ∧
    i.observation.referentText = o.referentText ∧ i.evidence.path = o.path ∧
    i.evidence.startLine = o.startLine ∧ i.evidence.endLine = o.endLine

/-- After resolution, no edge of an observation is borrowed. -/
def KeepsOff (t : Tables) (path name : Str) (o : ExtractedObservation) : Prop :=
  ∀ p ∈ resolve t, DerivedFrom o p.1 → ∀ f ∈ p.2, ¬ Borrows t path name f

/-- The names that are injected where they are not the module's have no edge to a symbol of the
    name: the arguments of a call anywhere in the module, the guards in the decorator of a route,
    and those in the router that it is called on. -/
structure NeverBorrows (t : Tables) (moduleKey path : Str) (lineCount : Nat) (body : List PyNode)
    (keys : List Str) : Prop where
  calls : ∀ site ∈ moduleSites (viewAll body), injectionMarkers.elem site.name = true →
    ∀ name, Mentions site name → BoundLocally name site.frames →
    ∀ o ∈ site.observations moduleKey path lineCount, o.observedKind = injectsKind →
      o.referentText = some name → KeepsOff t path name o
  decorators : ∀ q ∈ (moduleHandlers body).zip keys, ∀ d ∈ q.1.routes,
    ∀ g ∈ keywordDependencies d, BoundLocally g.name q.1.frames →
      KeepsOff t path g.name (guardObservation path q.2 g)
  routers : ∀ q ∈ (moduleHandlers body).zip keys, ∀ d ∈ q.1.routes,
    ∀ g ∈ inheritedGuards body d, BoundLocally g.name (moduleFrames body) →
      KeepsOff t path g.name (guardObservation path q.2 g)

/-- A symbol of the file has the name, or else the imports of the name lead to one symbol. -/
def Offered (t : Tables) (path name : Str) : Prop :=
  nodeOfKind t.nodes symbolKind name = none ∧
    ((nodeOfKind t.nodes symbolKind (symbolKey path name)).isSome = true ∨
      nodeOfKind t.nodes symbolKind (symbolKey path name) = none ∧
        ∃ key, candidateKeys (importedSymbols t path name) = [key])

/-- Nothing is offered for a name that is injected where it is not the module's. -/
def NamesApart (t : Tables) (path : Str) (body : List PyNode) : Prop :=
  ∀ site ∈ moduleSites (viewAll body), dependencyMarkers.elem site.name = true →
    ∀ name, Mentions site name → BoundLocally name site.frames → ¬ Offered t path name

end Definitions

section Routers

variable {path : Str} {lineCount : Nat} {body : List PyNode} {keys : List Str}

theorem guards_inFile (hcounted : Counted lineCount body) {h : Handler}
    (hh : h ∈ moduleHandlers body)
    {g : Guard} (hg : g ∈ h.guards body) : InFile lineCount g.startLine g.endLine := by
  have hsite : ∃ site ∈ moduleSites (viewAll body), ∃ frames, GuardSite g frames site := by
    rcases mem_flatMap.mp hg with ⟨d, hd, hg⟩
    rcases mem_append.mp hg with hg | hg
    · rcases site_of_decorator hh (mem_of_mem_filter hd) hg with ⟨site, hsite, hguard⟩
      exact ⟨site, hsite, _, hguard⟩
    · rw [inheritedGuards] at hg
      cases hreceiver : receiver d with
      | none =>
        rw [hreceiver] at hg
        cases hg
      | some router =>
        rw [hreceiver] at hg
        rcases site_of_router hg with ⟨site, hsite, hguard⟩
        exact ⟨site, hsite, _, hguard⟩
  rcases hsite with ⟨site, hsite, frames, -, hstart, hend, -⟩
  rw [← hstart, ← hend]
  exact hcounted.calls site hsite

/-- If guards are attributed as they should be, then no router of another block has any. -/
theorem routersApart_of_attributedRightly (hcounted : Counted lineCount body)
    (hright : AttributedRightly path lineCount body keys) : RoutersApart body keys := by
  have hlines : ∀ q ∈ (moduleHandlers body).zip keys,
      InFile lineCount q.1.startLine q.1.endLine ∧
        ∀ g ∈ q.1.guards body, InFile lineCount g.startLine g.endLine := by
    intro q hq
    have hh := (of_mem_zip hq).1
    exact ⟨hcounted.definitions q.1 hh, fun g hg => guards_inFile hcounted hh hg⟩
  intro q hq d hd router hreceiver _ g hg
  have hguard : g ∈ q.1.guards body := by
    refine mem_flatMap.mpr ⟨d, hd, mem_append_right _ ?_⟩
    rw [inheritedGuards, hreceiver]
    exact hg
  rcases collectGuards_complete hlines hq hguard with ⟨q', hq', g', hg', hmarker, ho⟩
  rcases hright _ ho with ⟨q'', hq'', name, hkey, hname, hguarded⟩
  have hsame := Prod.mk.inj hmarker
  have hparts := Prod.mk.inj hsame.2
  refine ⟨q'', hq'', hkey.trans hsame.1, ?_⟩
  have hname' : g'.name = name := Option.some.inj hname
  rw [← hparts.1, ← hparts.2, hname']
  exact hguarded

/-- The converse, whatever the lines are. -/
theorem attributedRightly_of_routersApart (hrouters : RoutersApart body keys) :
    AttributedRightly path lineCount body keys := by
  intro o ho
  rcases mem_collectGuards ho with ⟨q, hq, g, hg, rfl⟩
  rcases mem_flatMap.mp hg with ⟨d, hd, hg⟩
  rcases mem_append.mp hg with hg | hg
  · exact ⟨q, hq, g.name, rfl, rfl, d, hd, g, rfl, rfl, .inl hg⟩
  · rw [inheritedGuards] at hg
    cases hreceiver : receiver d with
    | none =>
      rw [hreceiver] at hg
      cases hg
    | some router =>
      rw [hreceiver] at hg
      by_cases hlocal : BoundLocally router q.1.frames
      · rcases hrouters q hq d hd router hreceiver hlocal g hg with ⟨q', hq', hkey, hguarded⟩
        exact ⟨q', hq', g.name, hkey, rfl, hguarded⟩
      · exact ⟨q, hq, g.name, rfl, rfl, d, hd, g, rfl, rfl,
          .inr ⟨router, hreceiver, hg, hlocal⟩⟩

end Routers

section Borrowing

theorem colon_mem_symbolKey (path name : Str) : ':' ∈ symbolKey path name :=
  mem_append_right path mem_cons_self

variable [Interpreter] {t : Tables} {path name : Str} {i : Input}

/-- The keys of what is imported are no identifiers. -/
theorem colon_mem_imported (hs : Stored t) {n : Resolution.Node}
    (h : n ∈ importedSymbols t path name) :
    ':' ∈ n.stableKey := by
  rcases mem_flatMap.mp h with ⟨b, -, hb⟩
  rcases mem_flatMap.mp hb with ⟨file, -, hn⟩
  have hin : ∀ path', inFile path' n = true → ':' ∈ n.stableKey := by
    intro path' hin
    rw [inFile, Bool.and_eq_true] at hin
    have hpre : symbolKey path' [] <+: n.stableKey := isPrefixOf_iff_prefix.mp hin.2
    exact hpre.subset (colon_mem_symbolKey path' [])
  rw [boundSymbols] at hn
  by_cases hdefault : b.imported = "default".toList
  · rw [if_pos hdefault, mem_filter, Bool.and_eq_true] at hn
    exact hin _ hn.2.1
  · rw [if_neg hdefault] at hn
    split at hn
    · rename_i target htarget
      rw [mem_singleton.mp hn, ((nodeOfKind_some hs.nodes).mp htarget).2.1]
      exact colon_mem_symbolKey _ _
    · rw [mem_filter, Bool.and_eq_true] at hn
      exact hin _ hn.2.1

/-- Where neither the name nor the file has a symbol, the candidates are what is imported. -/
theorem referenceCandidates_imported (hs : Stored t)
    (hdirect : nodeOfKind t.nodes symbolKind name = none)
    (hfile : nodeOfKind t.nodes symbolKind (symbolKey path name) = none) :
    referenceCandidates t.nodes name path (bindingsByFile t (fileKey path)) =
      importedSymbols t path name := by
  rw [referenceCandidates, hdirect, hfile]
  cases hsource : nodeByKey t.nodes (fileKey path) with
  | none =>
    rw [importedSymbols, bindingsByFile_absent hs hsource]
    rfl
  | some source => rfl

/-- An edge to a candidate is borrowed iff something is offered. -/
theorem borrows_target (hs : Stored t) (hcolon : ':' ∉ name) {target : Resolution.Node}
    (htarget : target ∈ referenceCandidates t.nodes name path (bindingsByFile t (fileKey path)))
    (hkeys : candidateKeys (referenceCandidates t.nodes name path
      (bindingsByFile t (fileKey path))) = [target.stableKey]) (subject : Resolution.Node) :
    Borrows t path name (addEdge i subject injectsKind target) ↔ Offered t path name := by
  cases hdirect : nodeOfKind t.nodes symbolKind name with
  | some direct =>
    -- A symbol whose key is the bare name is neither of the file nor imported.
    rw [referenceCandidates, hdirect, mem_singleton] at htarget
    have hkey : target.stableKey = name := by
      rw [htarget]
      exact ((nodeOfKind_some hs.nodes).mp hdirect).2.1
    constructor
    · rintro ⟨-, hsymbol | ⟨n, hn, hsame⟩⟩
      · exact absurd (hkey ▸ hsymbol ▸ colon_mem_symbolKey path name) hcolon
      · exact absurd (hkey ▸ hsame ▸ colon_mem_imported hs hn) hcolon
    · rintro ⟨hnone, -⟩
      rw [hdirect] at hnone
      cases hnone
  | none =>
    cases hfile : nodeOfKind t.nodes symbolKind (symbolKey path name) with
    | some sameFile =>
      rw [referenceCandidates, hdirect, hfile, mem_singleton] at htarget
      have hkey : target.stableKey = symbolKey path name := by
        rw [htarget]
        exact ((nodeOfKind_some hs.nodes).mp hfile).2.1
      exact ⟨fun _ => ⟨hdirect, .inl (by rw [hfile]; rfl)⟩, fun _ => ⟨rfl, .inl hkey⟩⟩
    | none =>
      rw [referenceCandidates_imported hs hdirect hfile] at htarget hkeys
      exact ⟨fun _ => ⟨hdirect, .inr ⟨hfile, _, hkeys⟩⟩,
        fun _ => ⟨rfl, .inr ⟨target, htarget, rfl⟩⟩⟩

/-- What is offered is one candidate. -/
theorem length_of_offered (hs : Stored t) (h : Offered t path name) :
    (candidateKeys (referenceCandidates t.nodes name path
      (bindingsByFile t (fileKey path)))).length = 1 := by
  rcases h with ⟨hdirect, hsome | ⟨hfile, key, hkey⟩⟩
  · rcases Option.isSome_iff_exists.mp hsome with ⟨sameFile, hfile⟩
    rw [referenceCandidates, hdirect, hfile, candidateKeys_one]
    rfl
  · rw [referenceCandidates_imported hs hdirect hfile, hkey]
    rfl

/-- An input has a borrowed edge iff something is offered for its name. -/
theorem borrows_iff (hs : Stored t) (hname : name ≠ []) (hcolon : ':' ∉ name)
    (hreferent : i.observation.referentText = some name) (hpath : i.evidence.path = path)
    (hsubject : (referenceSubject t i).isSome = true) :
    (∃ f ∈ resolveReference t (bindingsByFile t) injectsKind i, Borrows t path name f) ↔
      Offered t path name := by
  rcases Option.isSome_iff_exists.mp hsubject with ⟨subject, hsubject⟩
  have href : referent i = some name := by
    rw [referent, hreferent]
    exact if_pos (decide_eq_true hname)
  have hsub : ∀ n ∈ referenceCandidates t.nodes name i.evidence.path
      (bindingsByFile t (fileKey i.evidence.path)), n ∈ t.nodes :=
    fun _ => referenceCandidates_subset hs
  rw [hpath] at hsub
  rw [resolveReference, hsubject, href, hpath]
  dsimp only
  rcases resolveCandidates_cases hs.nodes hsub i subject injectsKind with
    ⟨target, htarget, hkeys, hfacts⟩ | ⟨hlength, f, hf, hfacts⟩
  · rw [hfacts]
    simp only [mem_singleton, exists_eq_left]
    exact borrows_target hs hcolon htarget hkeys subject
  · rw [hfacts]
    simp only [mem_singleton, exists_eq_left]
    constructor
    · intro hborrows
      cases f with
      | edge _ _ _ _ _ _ _ => cases hf
      | diagnostic _ _ _ _ _ _ _ => exact absurd hborrows id
    · exact fun hoffered => absurd (length_of_offered hs hoffered) hlength

/-- Without a subject there is no edge. -/
theorem offered_of_borrows (hs : Stored t) (hname : name ≠ []) (hcolon : ':' ∉ name)
    (hreferent : i.observation.referentText = some name) (hpath : i.evidence.path = path)
    {f : Fact} (hf : f ∈ resolveReference t (bindingsByFile t) injectsKind i)
    (h : Borrows t path name f) : Offered t path name := by
  cases hsubject : referenceSubject t i with
  | none =>
    rw [resolveReference, hsubject] at hf
    rw [mem_singleton.mp hf] at h
    exact absurd h id
  | some subject =>
    have hsome : (referenceSubject t i).isSome = true := by
      rw [hsubject]
      rfl
    exact (borrows_iff hs hname hcolon hreferent hpath hsome).mp ⟨f, hf, h⟩

/-- What the resolver makes of an `injects` input. -/
theorem facts_of_injects {p : Input × List Fact} (hp : p ∈ resolve t)
    (hkind : p.1.observation.observedKind = injectsKind) :
    p.2 = resolveReference t (bindingsByFile t) injectsKind p.1 := by
  rcases mem_resolve.mp hp with ⟨k, hinput, hfacts⟩
  have hk : k.text.toList = InputKind.injects.text.toList := by
    have hin := (mem_filter.mp hinput).2
    rw [decide_eq_true_eq] at hin
    exact hin.symm.trans hkind
  rw [hfacts, InputKind.text_injective hk]
  rfl

/-- No edge is borrowed if nothing is offered. -/
theorem keepsOff_of_not_offered (hs : Stored t) (hname : name ≠ []) (hcolon : ':' ∉ name)
    {o : ExtractedObservation} (hkind : o.observedKind = injectsKind)
    (hreferent : o.referentText = some name) (hpath : o.path = path)
    (h : ¬ Offered t path name) : KeepsOff t path name o := by
  intro p hp hderived f hf hborrows
  rcases hderived with ⟨hkind', -, hreferent', hpath', -, -⟩
  rw [facts_of_injects hp (hkind'.trans hkind)] at hf
  exact h (offered_of_borrows hs hname hcolon (hreferent'.trans hreferent) (hpath'.trans hpath) hf
    hborrows)

end Borrowing

section Recording

variable [Interpreter] {moduleKey path : Str} {lineCount : Nat} {site : Site} {name : Str}

/-- What is recorded as injected at a call is an argument of a dependency marker. -/
theorem injected_of_observation {o : ExtractedObservation}
    (ho : o ∈ site.observations moduleKey path lineCount) (hkind : o.observedKind = injectsKind) :
    dependencyMarkers.elem site.name = true ∧ o.path = path := by
  rcases mem_flatMap.mp ho with ⟨c, hc, ho⟩
  have hkinds : callKind ≠ injectsKind ∧ callShadowedKind ≠ injectsKind := by decide
  rw [CallSite.observations, cons_append, mem_cons, mem_append] at ho
  rcases ho with rfl | ho | ho
  · exact absurd hkind hkinds.1
  · by_cases hs : c.shadowed = true
    · rw [if_pos hs, mem_singleton] at ho
      rw [ho] at hkind
      exact absurd hkind hkinds.2
    · rw [if_neg hs] at ho
      cases ho
  · rcases mem_map.mp ho with ⟨n, hn, rfl⟩
    refine ⟨?_, rfl⟩
    rw [Scoping.Site.calls, emit] at hc
    split at hc
    · cases hc
    · split at hc
      · cases hc
      · split at hc
        · rw [mem_singleton.mp hc] at hn
          dsimp only at hn
          by_cases hmarker : dependencyMarkers.contains site.name = true
          · exact hmarker
          · rw [if_neg hmarker] at hn
            cases hn
        · cases hc

omit [Interpreter] in
theorem mem_argumentNames {arguments : List PyAst} {store : Bool}
    (h : PyAst.name name store ∈ arguments) : name ∈ argumentNames (eraseAll arguments) := by
  induction arguments with
  | nil => cases h
  | cons a arguments ih =>
    rw [eraseAll, argumentNames]
    rcases mem_cons.mp h with rfl | h
    · exact mem_cons_self
    · have hrest := ih h
      rw [argumentNames] at hrest
      exact mem_filterMap.mpr (by
        rcases mem_filterMap.mp hrest with ⟨e, he, heq⟩
        exact ⟨e, mem_cons_of_mem _ he, heq⟩)

/-- What an argument of a dependency marker is recorded as. -/
def injection (moduleKey path : Str) (site : Site) (name : Str) : ExtractedObservation :=
  { site.observation moduleKey path injectsKind with referentText := some name }

/-- The names in a dependency marker are recorded as injected. -/
theorem observation_of_mention (hmarkers : ∀ m ∈ dependencyMarkers, m ∉ pythonBuiltinNames)
    (hmarker : dependencyMarkers.elem site.name = true)
    (hlines : InFile lineCount site.startLine site.endLine) (hname : Mentions site name) :
    injection moduleKey path site name ∈ site.observations moduleKey path lineCount := by
  have hmem : site.name ∈ dependencyMarkers := elem_iff.mp hmarker
  have hreflection : ¬ reflectionCalls.contains site.name = true := by
    have hall : dependencyMarkers.all (fun m => !reflectionCalls.contains m) = true := by decide
    have hnot := all_eq_true.mp hall site.name hmem
    rw [Bool.not_eq_true'] at hnot
    rw [hnot]
    exact Bool.false_ne_true
  have hbuiltin : ¬ (pythonBuiltinNames.contains site.name &&
      !resolves site.name false (Scoping.codeScopes site.frames)) = true := by
    rw [Bool.and_eq_true, contains_iff_mem]
    exact fun h => hmarkers site.name hmem h.1
  rcases hname with ⟨store, hname⟩
  have hcontains : dependencyMarkers.contains site.name = true := hmarker
  have hspan : 1 ≤ site.startLine ∧ site.startLine ≤ site.endLine ∧ site.endLine ≤ lineCount :=
    hlines
  rw [Scoping.Site.observations, Scoping.Site.calls, emit, if_neg hreflection, if_neg hbuiltin,
    if_pos hspan, hcontains, if_pos rfl, flatMap_cons, flatMap_nil, append_nil,
    CallSite.observations]
  exact mem_append_right _ (mem_map.mpr ⟨name, mem_argumentNames hname, rfl⟩)

end Recording

section Snapshots

variable {others : Tables} {observationId : ExtractedObservation → Str} {path : Str}
  {first lineCount : Nat}

variable {observations : List ExtractedObservation} {o : ExtractedObservation}

/-- An observation keeps what tells it apart when the ordinals are assigned. -/
theorem exists_assigned (h : o ∈ observations) (seen : List Identity) :
    ∃ o' ∈ assignOrdinals seen observations, o'.identity = o.identity := by
  induction observations generalizing seen with
  | nil => cases h
  | cons e observations ih =>
    rcases mem_cons.mp h with rfl | h
    · exact ⟨_, mem_cons_self, rfl⟩
    · rcases ih h (e.identity :: seen) with ⟨o', ho', hidentity⟩
      exact ⟨o', mem_cons_of_mem _ ho', hidentity⟩

/-- Every observation of a file becomes an input. -/
theorem exists_input (ha : Apart others path first (assignOrdinals [] observations).length)
    (h : o ∈ observations) :
    ∃ i ∈ inputs (withFile others observationId first lineCount (assignOrdinals [] observations)),
      DerivedFrom o i := by
  rcases exists_assigned h [] with ⟨o', ho', hidentity⟩
  rcases getElem_of_mem ho' with ⟨k, hk, hget⟩
  have hin : (o', first + k) ∈ (assignOrdinals [] observations).zipIdx first := by
    rw [mem_zipIdx_iff_le_and_getElem?_sub]
    refine ⟨Nat.le_add_right _ _, ?_⟩
    rw [Nat.add_sub_cancel_left, List.getElem?_eq_getElem hk, hget]
  refine ⟨_, inputOf_mem ha hin, ?_⟩
  exact ⟨congrArg Identity.observedKind hidentity, congrArg Identity.subjectKey hidentity,
    congrArg Identity.referentText hidentity, congrArg Identity.path hidentity,
    congrArg Identity.startLine hidentity, congrArg Identity.endLine hidentity⟩

/-- What is observed in a module has a subject at least in the module. -/
theorem referenceSubject_of_module {t : Tables} {i : Input} {moduleKey : Str}
    (hmodule : (nodeOfKind t.nodes moduleKind moduleKey).isSome = true)
    (hkey : i.observation.subjectKey = moduleKey) : (referenceSubject t i).isSome = true := by
  rcases Option.isSome_iff_exists.mp hmodule with ⟨n, hn⟩
  rw [nodeOfKind, Option.filter_eq_some_iff, decide_eq_true_eq] at hn
  rw [referenceSubject, hkey]
  split
  · rfl
  · split
    · rfl
    · rw [hn.1, Option.filter_some, if_pos (decide_eq_true (.inr hn.2))]
      rfl

end Snapshots

section Faithfulness

variable [Interpreter] {t : Tables} {moduleKey path : Str} {lineCount : Nat} {body : List PyNode}
  {keys : List Str}

/-- Where nothing is offered, nothing is borrowed. -/
theorem neverBorrows_of_namesApart (hparsed : Parsed body) (hs : Stored t)
    (h : NamesApart t path body) : NeverBorrows t moduleKey path lineCount body keys where
  calls site hsite _ name hname hlocal o ho hkind hreferent := by
    rcases hparsed site hsite name hname with ⟨hne, hcolon⟩
    rcases injected_of_observation ho hkind with ⟨hmarker, hpath⟩
    exact keepsOff_of_not_offered hs hne hcolon hkind hreferent hpath
      (h site hsite hmarker name hname hlocal)
  decorators q hq d hd g hg hlocal := by
    rcases site_of_decorator (of_mem_zip hq).1 (mem_of_mem_filter hd) hg with
      ⟨site, hsite, hmarker, -, -, hframes, hname⟩
    rcases hparsed site hsite g.name hname with ⟨hne, hcolon⟩
    exact keepsOff_of_not_offered hs hne hcolon rfl rfl rfl
      (h site hsite hmarker g.name hname (hframes ▸ hlocal))
  routers q hq d hd g hg hlocal := by
    -- A name in the block of the module is the module's.
    have hmodule : deciding g.name false (moduleFrames body) = none := rfl
    rw [BoundLocally, hmodule] at hlocal
    cases hlocal

/-- A name that is injected where something is offered is borrowed. -/
theorem namesApart_of_neverBorrows (hparsed : Parsed body) (hcounted : Counted lineCount body)
    (hmarkers : ∀ m ∈ dependencyMarkers, m ∉ pythonBuiltinNames) (hs : Stored t)
    (hmodule : (nodeOfKind t.nodes moduleKind moduleKey).isSome = true)
    (hinputs : ∀ site ∈ moduleSites (viewAll body),
      ∀ o ∈ site.observations moduleKey path lineCount, ∃ i ∈ inputs t, DerivedFrom o i)
    (h : NeverBorrows t moduleKey path lineCount body keys) : NamesApart t path body := by
  intro site hsite hmarker name hname hlocal hoffered
  have hinjection : injectionMarkers.elem site.name = true := by
    have hall : dependencyMarkers.all injectionMarkers.elem = true := by decide
    exact all_eq_true.mp hall site.name (elem_iff.mp hmarker)
  have ho : injection moduleKey path site name ∈ site.observations moduleKey path lineCount :=
    observation_of_mention hmarkers hmarker (hcounted.calls site hsite) hname
  rcases hparsed site hsite name hname with ⟨hne, hcolon⟩
  rcases hinputs site hsite _ ho with ⟨i, hi, hderived⟩
  have hkeeps := h.calls site hsite hinjection name hname hlocal _ ho rfl rfl
  have hresolve : (i, factsOf t .injects i) ∈ resolve t :=
    mem_resolve.mpr ⟨.injects, mem_filter.mpr ⟨hi, decide_eq_true hderived.1⟩, rfl⟩
  have hsubject := referenceSubject_of_module hmodule hderived.2.1
  rcases (borrows_iff hs hne hcolon hderived.2.2.1 hderived.2.2.2.1 hsubject).mpr hoffered with
    ⟨f, hf, hborrows⟩
  exact hkeeps _ hresolve hderived f hf hborrows

end Faithfulness

section Samples

local instance guardsInterpreter : Interpreter := cpython

/-- `Depends(guard)`. -/
def dependsNode (line : Nat) : PyNode :=
  .call line line (.name "Depends".toList false) [.name "guard".toList false] []

/-- `dependencies=[Depends(guard)]`. -/
def dependenciesNode (line : Nat) : PyNode :=
  .keyword (some "dependencies".toList) (.display [dependsNode line])

/-- `@router.get("/x", dependencies=[Depends(guard)])`. -/
def routeNode : PyNode :=
  .call 4 4 (.attribute (.name "router".toList false) "get".toList) [.string "/x".toList]
    [dependenciesNode 4]

/-- `def handler():` below it. -/
def handlerNodes : List PyNode :=
  [.functionDef "handler".toList 5 5 [] [routeNode] [] [] [] [.other []]]

/-- A guard, a router with the guard, and `def make(guard, router):` around the handler. -/
def factory : List PyNode :=
  [.functionDef "guard".toList 1 1 [] [] [] [] [] [.other []],
   .assign [.name "router".toList true]
    (.call 2 2 (.name "APIRouter".toList false) [] [dependenciesNode 2]),
   .functionDef "make".toList 3 5 [] [] [] [] ["guard".toList, "router".toList] handlerNodes]

/-- The handler, within the function that has the parameters. -/
def factoryHandler : Handler :=
  { name := "handler".toList
    startLine := 5
    endLine := 5
    decorators := [routeNode]
    frames := .function ["guard".toList, "router".toList] (viewAll handlerNodes) ::
      moduleFrames factory }

def factoryKeys : List Str :=
  ["a.py::guard", "a.py::make", "a.py::make.handler"].map String.toList

def factoryNode (kind key : Str) : Resolution.Node :=
  { id := 1, nodeKind := kind, stableKey := key, name := none, defaultExport := false }

/-- The nodes of the file. -/
def factoryNodes : Tables :=
  { nodes := factoryNode moduleKind "mod:".toList ::
      factoryNode Resolution.fileKind (fileKey "a.py".toList) ::
      factoryKeys.map (factoryNode symbolKind)
    observations := []
    evidence := [] }

def factoryGuards : List ExtractedObservation :=
  collectGuards "a.py".toList 5 factory factoryKeys

/-- A snapshot with the observations of the file, each under what tells it apart. -/
def factorySnapshot : Tables :=
  withFile factoryNodes (fun o => o.observedKind ++ (o.subjectKey ++ (o.referentText.getD [] ++
      (Nat.toDigits 10 o.startLine ++ Nat.toDigits 10 o.ordinal)))) 1 5
    (pythonObservations "mod:".toList "a.py".toList 5 (eraseAll (viewAll factory)) factoryGuards [])

theorem parsed_factory : Parsed factory := by
  have hall : ∀ site ∈ moduleSites (viewAll factory), ∀ name ∈ argumentNames
      (eraseAll site.arguments), name ≠ [] ∧ ':' ∉ name := by decide
  rintro site hsite name ⟨store, hname⟩
  exact hall site hsite name (mem_argumentNames hname)

theorem counted_factory : Counted 5 factory :=
  ⟨by decide, by decide⟩

theorem stored_factory : Stored factorySnapshot := by
  refine ⟨by decide +kernel, by decide +kernel, ?_⟩
  have hparents : (factorySnapshot.evidence.map (·.parent)).Nodup := by decide +kernel
  exact List.Nodup.of_map (fun row => row.1) (by rwa [map_map])

theorem apart_factory (path : Str) (count : Nat) : Apart factoryNodes path 1 count where
  observations _ ho := absurd ho not_mem_nil
  evidence _ he := absurd he not_mem_nil

theorem factoryHandler_mem :
    (factoryHandler, "a.py::make.handler".toList) ∈ (moduleHandlers factory).zip factoryKeys :=
  mem_cons_of_mem _ (mem_cons_of_mem _ mem_cons_self)

end Samples

end InjectedGuards

end Partha
