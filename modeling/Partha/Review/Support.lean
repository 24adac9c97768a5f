import Mathlib.Data.List.Pairwise
import Partha.Review.EngineeringReview

/-!
# Support for Findings

When there is evidence for a diagnostic, said without the order in which it is
looked for.

`supportFor` goes through the facts that a diagnostic names and through the
evidence of each. `supportFor_isSome_iff` says that it finds something exactly
if some evidence row of the snapshot belongs to one of these facts and is at the
place of the diagnostic. What it finds is such a row.

## Main definitions

* `Attached`: An evidence row of a fact.
* `AtPlace`: An evidence row at the place that a diagnostic recorded.
* `Supported`: A diagnostic with such a row.

## Theorems

* `supportFor_eq_some`: What `supportFor` finds.
* `supportFor_isSome_iff`: When it finds something.
* `promoted_eq_some`: A promoted diagnostic has a rule and support.
-/

namespace Partha

namespace Review

open Canonical Insights Checked SortKeys

/-- An evidence row that belongs to the observation or the node `factId`. -/
def Attached (rows : Rows) (e : RiEvidence) (factId : Str) : Prop :=
  (∃ o ∈ rows.observations, e.parent = .observation o.id ∧ o.observationId = factId) ∨
    ∃ n ∈ rows.nodes, e.parent = .node n.id ∧ n.stableKey = factId

/-- An evidence row at the place that a diagnostic recorded. A diagnostic without
    a span is about its file. -/
structure AtPlace (d : RiDiagnostic) (e : RiEvidence) : Prop where
  path : d.path = some e.path
  span : ∀ line, d.spanStartLine = some line → line = e.startLine ∧ d.spanEndLine = some e.endLine
  file : d.spanStartLine = none → e.granularity = .file

/-- Some evidence belongs to a fact that the diagnostic names and is at its place. -/
def Supported (rows : Rows) (d : RiDiagnostic) : Prop :=
  ∃ factId ∈ candidates d, ∃ e ∈ rows.evidence,
    factOf rows (ruled rows) e = some factId ∧ AtPlace d e

variable {d : RiDiagnostic} {path factId : Str} {e : RiEvidence} {supported : SupportedEvidence}
  {rows : Rows} {diagnostics : List RiDiagnostic}

theorem addresses_eq_some (hpath : d.path = some path)
    (h : addresses d path factId e = some supported) :
    supported.factId = factId ∧ supported.evidence = e ∧ AtPlace d e := by
  unfold addresses at h
  by_cases he : e.path ≠ path
  · rw [if_pos he] at h
    cases h
  · rw [if_neg he] at h
    have hep : d.path = some e.path := by
      rw [hpath, not_not.mp he]
    cases hspan : d.spanStartLine with
    | some line =>
      rw [hspan] at h
      dsimp only at h
      by_cases hout : e.startLine ≠ line ∨ some e.endLine ≠ d.spanEndLine
      · rw [if_pos hout] at h
        cases h
      · rw [if_neg hout] at h
        cases h
        refine ⟨rfl, rfl, hep, fun line' hline' => ?_, fun hnone => ?_⟩
        · rw [hspan] at hline'
          cases hline'
          exact ⟨(not_not.mp (fun hne => hout (.inl hne))).symm,
            (not_not.mp (fun hne => hout (.inr hne))).symm⟩
        · rw [hspan] at hnone
          cases hnone
    | none =>
      rw [hspan] at h
      dsimp only at h
      by_cases hfile : e.granularity ≠ .file
      · rw [if_pos hfile] at h
        cases h
      · rw [if_neg hfile] at h
        cases h
        refine ⟨rfl, rfl, hep, fun line hline => ?_, fun _ => not_not.mp hfile⟩
        rw [hspan] at hline
        cases hline

theorem addresses_isSome (hpath : d.path = some path) (h : AtPlace d e) :
    (addresses d path factId e).isSome = true := by
  have hep : ¬ e.path ≠ path := by
    rw [h.path] at hpath
    exact fun hne => hne (Option.some.inj hpath)
  unfold addresses
  rw [if_neg hep]
  cases hspan : d.spanStartLine with
  | some line =>
    rcases h.span line hspan with ⟨hstart, hend⟩
    dsimp only
    rw [if_neg (by rw [hstart, hend]; simp only [ne_eq, not_true_eq_false, or_self,
      not_false_eq_true])]
    rfl
  | none =>
    dsimp only
    rw [if_neg (not_not.mpr (h.file hspan))]
    rfl

theorem factOf_attached (h : factOf rows diagnostics e = some factId) : Attached rows e factId := by
  unfold factOf at h
  split at h
  · rename_i ref hparent
    rw [Option.bind_eq_some_iff] at h
    rcases h with ⟨o, ho, h⟩
    split at h
    · cases h
      have hid := List.find?_some ho
      exact .inl ⟨o, List.mem_of_find?_eq_some ho,
        by rw [hparent, of_decide_eq_true hid], rfl⟩
    · cases h
  · rename_i ref hparent
    rw [Option.bind_eq_some_iff] at h
    rcases h with ⟨n, hn, h⟩
    split at h
    · cases h
      have hid := List.find?_some hn
      exact .inr ⟨n, List.mem_of_find?_eq_some hn,
        by rw [hparent, of_decide_eq_true hid], rfl⟩
    · cases h
  · cases h

theorem mem_evidenceByFact : e ∈ evidenceByFact rows diagnostics factId ↔
      e ∈ rows.evidence ∧ factOf rows diagnostics e = some factId := by
  rw [evidenceByFact, mem_sortBy, List.mem_filter,
    decide_eq_true_eq]

/-- The evidence that supports a diagnostic is a row of the snapshot, at the
    place of the diagnostic. -/
theorem supportFor_eq_some (h : supportFor d (evidenceByFact rows diagnostics) = some supported) :
    supported.factId ∈ candidates d ∧ supported.evidence ∈ rows.evidence ∧
      factOf rows diagnostics supported.evidence = some supported.factId ∧
      AtPlace d supported.evidence := by
  unfold supportFor at h
  cases hpath : d.path with
  | none =>
    rw [hpath] at h
    cases h
  | some path =>
    rw [hpath] at h
    rcases List.exists_of_findSome?_eq_some h with ⟨factId, hcandidate, h⟩
    rcases List.exists_of_findSome?_eq_some h with ⟨e, he, h⟩
    rcases addresses_eq_some hpath h with ⟨hfact, hevidence, hplace⟩
    rcases mem_evidenceByFact.mp he with ⟨hrow, hof⟩
    rw [hfact, hevidence]
    exact ⟨hcandidate, hrow, hof, hplace⟩

/-- Support is found exactly where there is some. -/
theorem supportFor_isSome_iff :
    (supportFor d (evidenceByFact rows (ruled rows))).isSome = true ↔ Supported rows d := by
  constructor
  · intro h
    rcases Option.isSome_iff_exists.mp h with ⟨supported, h⟩
    rcases supportFor_eq_some h with ⟨hcandidate, hrow, hof, hplace⟩
    exact ⟨supported.factId, hcandidate, supported.evidence, hrow, hof, hplace⟩
  · rintro ⟨factId, hcandidate, e, hrow, hof, hplace⟩
    unfold supportFor
    rw [hplace.path]
    rw [List.findSome?_isSome_iff]
    refine ⟨factId, hcandidate, ?_⟩
    rw [List.findSome?_isSome_iff]
    exact ⟨e, mem_evidenceByFact.mpr ⟨hrow, hof⟩, addresses_isSome hplace.path hplace⟩

section Promotion

variable [Unicode] [Interpreter]

theorem promoted_eq_some {byFact : Str → List RiEvidence} {ctx : Context} {d : RiDiagnostic}
    {rule : Rule} {supported : SupportedEvidence}
    (h : promoted byFact ctx d = .ok (some (rule, supported))) :
    ruleOf d.code = some rule ∧ supportFor d byFact = some supported := by
  unfold promoted at h
  cases hrule : ruleOf d.code with
  | none =>
    rw [hrule] at h
    cases h
  | some rule' =>
    cases hsupport : supportFor d byFact with
    | none =>
      rw [hrule, hsupport] at h
      cases h
    | some supported' =>
      rw [hrule, hsupport] at h
      simp only [bind_eq_ok, Except.ok.injEq] at h
      rcases h with ⟨expected, _, h⟩
      split at h
      · cases h
      · cases h
        exact ⟨rfl, rfl⟩

end Promotion

end Review

end Partha
