import Partha.Insights.RelationshipDiagnostics
import Partha.Library.Checked

/-!
# Imports that Cannot Be Judged

When `classify_unresolved` fails.

To ask whether an import names a declared package, its stable key is derived, and a stable
key with a control character is refused. The text between the quotes of an import is stored
as it is written, so it can hold one. A relative specifier and one of the platform are
judged without a key.

## Main definitions

* `judgedSpecifier`: The specifier that a diagnostic is judged by.
* `Judgeable`: The key of the package has no control character.
* `Classifiable`: A diagnostic is not judged by an import that is not.

## Theorems

* `dependencyStableKey_ok`: When a key is derived.
* `dispositionOf_ok`: When a diagnostic is judged.
* `isArchitectureRelevant_ok`: When the Architecture view can tell whether to show it.
-/

namespace Partha

namespace Insights

open Canonical Extraction Checked List

/-- What `str.lower` does on ASCII text. -/
class LawfulLower [Interpreter] : Prop where
  lower_ascii : ∀ s, Ascii s → lower s = s.map Char.toLower

instance : @LawfulLower cpython :=
  @LawfulLower.mk cpython (fun _ _ => rfl)

/-- Text without control characters. -/
def ControlFree (s : Str) : Prop :=
  ∀ c ∈ s, ¬ c.toNat < 0x20

instance (s : Str) : Decidable (ControlFree s) :=
  List.decidableBAll (fun c : Char => ¬ c.toNat < 0x20) s

section Keys

/-- The names under which some packages are published are plain. -/
theorem distribution_plain :
    ∀ entry ∈ pypiDistributionsByImportName, ∀ distribution ∈ entry.2,
      Ascii (collapseSeparators false distribution) ∧
        ControlFree ((collapseSeparators false distribution).map Char.toLower) ∧
          Ascii ((collapseSeparators false distribution).map Char.toLower) := by
  decide

variable [Unicode]

/-- The form of a dependency key asks for no more than its prefix. -/
theorem normalizeKindKey_dependency (ecosystem : Ecosystem) (name : Str) :
    normalizeKindKey "dependency".toList ("dep:".toList ++ ecosystem.name ++ ':' :: name) =
      .ok ("dep:".toList ++ ecosystem.name ++ ':' :: name) := by
  have hstart : stripPrefix "dep:".toList ("dep:".toList ++ ecosystem.name ++ ':' :: name) ≠
      none := by
    rw [stripPrefix, append_assoc, if_pos (prefix_append _ _)]
    exact Option.some_ne_none _
  have hcount : ¬ ("dep:".toList ++ ecosystem.name ++ ':' :: name).count ':' < 2 := by
    have hdep : "dep:".toList.count ':' = 1 := by decide
    simp only [count_append, count_cons_self, hdep]
    omega
  have hrefused : ¬ (stripPrefix "dep:".toList ("dep:".toList ++ ecosystem.name ++ ':' :: name) =
      none ∨ ("dep:".toList ++ ecosystem.name ++ ':' :: name).count ':' < 2) :=
    not_or.mpr ⟨hstart, hcount⟩
  rw [normalizeKindKey, if_neg (by decide), if_neg (by decide), if_neg (by decide),
    if_neg (by decide), if_pos rfl, if_neg hrefused]

variable [Interpreter]

/-- The name of a package as it stands in its key. -/
def foldedName : Ecosystem → Str → Str
  | .pypi, name => lower (collapseSeparators false name)
  | .npm, name => name

/-- The key of a package before it is normalized. -/
def dependencyKeyText (ecosystem : Ecosystem) (name : Str) : Str :=
  "dep:".toList ++ ecosystem.name ++ ':' :: foldedName ecosystem name

theorem dependencyStableKey_eq (ecosystem : Ecosystem) (name : Str) :
    dependencyStableKey ecosystem name =
      normalizeStableKey "dependency".toList (dependencyKeyText ecosystem name) := by
  cases ecosystem with
  | pypi => rfl
  | npm => rfl

/-- The separators of a key stay where they are. -/
theorem nfc_dependencyKeyText (ecosystem : Ecosystem) (name : Str) :
    nfc (dependencyKeyText ecosystem name) =
      "dep:".toList ++ ecosystem.name ++ ':' :: nfc (foldedName ecosystem name) := by
  have hcolon : ':' ∈ separators := by decide
  have hascii : Ascii ("dep:".toList ++ ecosystem.name) := by
    cases ecosystem with
    | pypi => decide
    | npm => decide
  rw [dependencyKeyText, nfc_append _ _ ':' hcolon, nfc_ascii _ hascii]

theorem dependencyStableKey_ok {ecosystem : Ecosystem} {name : Str} :
    (∃ key, dependencyStableKey ecosystem name = .ok key) ↔
      ControlFree (nfc (dependencyKeyText ecosystem name)) := by
  have hkind : nfc "dependency".toList = "dependency".toList := nfc_ascii _ (by decide)
  have hne : nfc (dependencyKeyText ecosystem name) ≠ [] := by
    rw [nfc_dependencyKeyText]
    exact append_ne_nil_of_right_ne_nil _ (cons_ne_nil _ _)
  have htoken : ¬ (isToken "dependency".toList = false ∨
      nfc (dependencyKeyText ecosystem name) = []) :=
    not_or.mpr ⟨by decide, hne⟩
  rw [dependencyStableKey_eq, normalizeStableKey, hkind, if_neg htoken]
  by_cases hcontrol : (nfc (dependencyKeyText ecosystem name)).any (fun c => c.toNat < 0x20)
  · rw [if_pos hcontrol]
    rcases any_eq_true.mp hcontrol with ⟨c, hc, hlow⟩
    refine ⟨fun h => ?_, fun h => absurd (of_decide_eq_true hlow) (h c hc)⟩
    rcases h with ⟨key, hkey⟩
    cases hkey
  · rw [if_neg hcontrol]
    refine ⟨fun _ c hc hlow => hcontrol ?_, fun _ => ?_⟩
    · exact any_eq_true.mpr ⟨c, hc, decide_eq_true hlow⟩
    · rw [nfc_dependencyKeyText, normalizeKindKey_dependency]
      exact ⟨_, rfl⟩

/-- A specifier whose package can be asked for. -/
def Judgeable (specifier sourcePath : Str) : Prop :=
  isPlatformImport specifier sourcePath = false → startsWith specifier ['.'] = false →
    packageRoot specifier sourcePath ≠ [] →
      ControlFree (nfc (dependencyKeyText (ecosystemOf sourcePath)
        (packageRoot specifier sourcePath)))

theorem declaredDependencyKey_ok {specifier sourcePath : Str} :
    (∃ key, declaredDependencyKey specifier sourcePath = .ok key) ↔
      (startsWith specifier ['.'] = false → packageRoot specifier sourcePath ≠ [] →
        ControlFree (nfc (dependencyKeyText (ecosystemOf sourcePath)
          (packageRoot specifier sourcePath)))) := by
  rw [declaredDependencyKey]
  by_cases hrel : startsWith specifier ['.'] = true
  · rw [if_pos hrel]
    simp only [hrel, Bool.true_eq_false, false_implies, iff_true]
    exact ⟨none, rfl⟩
  · rw [if_neg hrel]
    simp only [Bool.not_eq_true] at hrel
    by_cases hroot : packageRoot specifier sourcePath = []
    · simp only [hroot, if_true, ne_eq, not_true_eq_false, false_implies, implies_true, iff_true]
      exact ⟨none, rfl⟩
    · simp only [hrel, true_implies, ne_eq, hroot, not_false_eq_true,
        ← dependencyStableKey_ok]
      constructor
      · rintro ⟨key, hkey⟩
        rcases map_eq_ok.mp hkey with ⟨k, hk, -⟩
        exact ⟨k, hk⟩
      · rintro ⟨k, hk⟩
        exact ⟨some k, map_eq_ok.mpr ⟨k, hk, rfl⟩⟩

theorem distribution_ok [LawfulLower] {root distribution : Str}
    (h : distribution ∈ (pypiDistributionsByImportName.lookup root).getD []) :
    ∃ key, dependencyStableKey .pypi distribution = .ok key := by
  have hentry : ∃ entry ∈ pypiDistributionsByImportName, distribution ∈ entry.2 := by
    cases hlookup : pypiDistributionsByImportName.lookup root with
    | none =>
      rw [hlookup] at h
      cases h
    | some distributions =>
      rw [hlookup] at h
      rcases lookup_eq_some_iff.mp hlookup with ⟨_, _, hsplit, -⟩
      refine ⟨(root, distributions), ?_, h⟩
      rw [hsplit]
      exact mem_append_right _ mem_cons_self
  rcases hentry with ⟨entry, hentry, hdistribution⟩
  rcases distribution_plain entry hentry distribution hdistribution with ⟨hin, hfree, hout⟩
  refine dependencyStableKey_ok.mpr ?_
  have hname : foldedName .pypi distribution =
      (collapseSeparators false distribution).map Char.toLower :=
    LawfulLower.lower_ascii _ hin
  rw [nfc_dependencyKeyText, hname, nfc_ascii _ hout]
  have hstart : ControlFree ("dep:".toList ++ Ecosystem.pypi.name) := by decide
  have hcolon : ¬ ':'.toNat < 0x20 := by decide
  intro c hc
  rcases mem_append.mp hc with hc | hc
  · exact hstart c hc
  · rcases mem_cons.mp hc with rfl | hc
    · exact hcolon
    · exact hfree c hc

theorem isRecognizedExternalImport_ok [LawfulLower] {specifier sourcePath : Str}
    {keys : List Str} :
    (∃ b, isRecognizedExternalImport specifier sourcePath keys = .ok b) ↔
      Judgeable specifier sourcePath := by
  rw [isRecognizedExternalImport, Judgeable]
  by_cases hplatform : isPlatformImport specifier sourcePath = true
  · simp only [hplatform, if_true, Bool.true_eq_false, false_implies, iff_true]
    exact ⟨true, rfl⟩
  · simp only [Bool.not_eq_true] at hplatform
    simp only [hplatform, Bool.false_eq_true, if_false, true_implies, ← declaredDependencyKey_ok]
    constructor
    · rintro ⟨b, hb⟩
      rcases bind_eq_ok.mp hb with ⟨key, hkey, -⟩
      exact ⟨key, hkey⟩
    · rintro ⟨key, hkey⟩
      rw [hkey, ok_bind]
      split
      · exact ⟨true, rfl⟩
      · split
        · refine anyM_eq_ok (fun distribution h => ?_)
          rcases distribution_ok h with ⟨k, hk⟩
          exact ⟨_, map_eq_ok.mpr ⟨k, hk, rfl⟩⟩
        · exact ⟨false, rfl⟩

end Keys

section Diagnostics

variable {d : RiDiagnostic} {ctx : Context}

theorem unresolved_code (h : d.unresolved = true) :
    architectureDiagnosticCodes.elem d.code = true := by
  rw [RiDiagnostic.unresolved, decide_eq_true_eq] at h
  rw [h]
  decide

variable [Unicode] [Interpreter]

/-- The import that a diagnostic is judged by, and the file that has it. -/
def judgedSpecifier (ctx : Context) (d : RiDiagnostic) : Option (Str × Str) :=
  let path := d.path.getD []
  if path = [] then none
  else if d.message = shadowedCallMessage then none
  else
    let kind := ctx.observedKindByObservation.lookup (d.observationId.getD [])
    let referent := ((ctx.referentByObservation.lookup (d.observationId.getD [])).join).getD []
    if referent = [] then none
    else if kind = some "import".toList then some (referent, path)
    else if kind.any (fun kind => referenceKinds.elem kind) then
      (ctx.importSpecifierByLocalName.lookup (path, referent)).map (fun s => (s, path))
    else none

/-- A diagnostic that is judged by an import that can be. -/
def Classifiable (ctx : Context) (d : RiDiagnostic) : Prop :=
  d.unresolved = true →
    ∀ j, judgedSpecifier ctx d = some j → Judgeable j.1 j.2

theorem judgeSpecifier_ok [LawfulLower] {specifier sourcePath : Str} :
    (∃ x, judgeSpecifier specifier sourcePath ctx = .ok x) ↔ Judgeable specifier sourcePath := by
  rw [← @isRecognizedExternalImport_ok _ _ _ specifier sourcePath ctx.declaredDependencyKeys,
    judgeSpecifier]
  constructor
  · rintro ⟨x, hx⟩
    rcases bind_eq_ok.mp hx with ⟨b, hb, -⟩
    exact ⟨b, hb⟩
  · rintro ⟨b, hb⟩
    rw [hb, ok_bind]
    split
    · exact ⟨_, rfl⟩
    · split
      · exact ⟨_, rfl⟩
      · split
        · exact ⟨_, rfl⟩
        · exact ⟨_, rfl⟩

theorem dispositionOf_ok [LawfulLower] :
    (∃ x, dispositionOf ctx d = .ok x) ↔
      ∀ j, judgedSpecifier ctx d = some j → Judgeable j.1 j.2 := by
  have hnone : ∀ {x : Except CanonicalError Disposition}, (∃ y, x = .ok y) →
      ((∃ y, x = .ok y) ↔
        ∀ j, (none : Option (Str × Str)) = some j → Judgeable j.1 j.2) :=
    fun h => ⟨fun _ _ hj => absurd hj (Option.some_ne_none _).symm, fun _ => h⟩
  have hsome : ∀ {specifier path : Str},
      (∃ y, judgeSpecifier specifier path ctx = .ok y) ↔
        ∀ j, some (specifier, path) = some j → Judgeable j.1 j.2 := by
    intro specifier path
    rw [judgeSpecifier_ok]
    refine ⟨fun h j hj => ?_, fun h => h _ rfl⟩
    cases hj
    exact h
  -- both functions ask the same questions in the same order
  rw [dispositionOf, classifyUnresolved, judgedSpecifier]
  by_cases hpath : d.path.getD [] = []
  · simp only [hpath, if_true]
    exact hnone ⟨_, rfl⟩
  simp only [if_neg hpath, Option.some.injEq]
  by_cases hmessage : d.message = shadowedCallMessage
  · simp only [hmessage, if_true]
    exact hnone ⟨_, rfl⟩
  simp only [if_neg hmessage]
  by_cases href : ((ctx.referentByObservation.lookup (d.observationId.getD [])).join).getD [] = []
  · simp only [href, if_true]
    exact hnone ⟨_, rfl⟩
  simp only [if_neg href]
  by_cases himport : ctx.observedKindByObservation.lookup (d.observationId.getD []) =
      some "import".toList
  · simp only [himport, if_true]
    exact hsome
  simp only [if_neg himport]
  by_cases hkind : (ctx.observedKindByObservation.lookup (d.observationId.getD [])).any
      (fun kind => referenceKinds.elem kind) = true
  · simp only [if_pos hkind]
    cases ctx.importSpecifierByLocalName.lookup (d.path.getD [],
        ((ctx.referentByObservation.lookup (d.observationId.getD [])).join).getD []) with
    | none =>
      refine hnone ?_
      by_cases hplatform : isPlatformReference
          (((ctx.referentByObservation.lookup (d.observationId.getD [])).join).getD [])
          (d.path.getD []) = true
      · exact ⟨_, if_pos hplatform⟩
      · exact ⟨_, if_neg hplatform⟩
    | some specifier => exact hsome
  · simp only [if_neg hkind]
    exact hnone ⟨_, rfl⟩

theorem isArchitectureRelevant_ok [LawfulLower] :
    (∃ b, isArchitectureRelevant ctx d = .ok b) ↔ Classifiable ctx d := by
  rw [isArchitectureRelevant, Classifiable]
  by_cases hunresolved : d.unresolved = true
  · simp only [unresolved_code hunresolved, hunresolved, Bool.not_true, Bool.false_eq_true,
      if_false, true_implies, ← dispositionOf_ok]
    constructor
    · rintro ⟨b, hb⟩
      rcases bind_eq_ok.mp hb with ⟨x, hx, -⟩
      exact ⟨x, hx⟩
    · rintro ⟨x, hx⟩
      rw [hx]
      exact ⟨_, rfl⟩
  · simp only [Bool.not_eq_true] at hunresolved
    simp only [hunresolved, Bool.false_eq_true, false_implies, iff_true, Bool.not_false, if_true]
    split
    · exact ⟨_, rfl⟩
    · exact ⟨_, rfl⟩

end Diagnostics

end Insights

end Partha
