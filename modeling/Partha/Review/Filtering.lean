import Partha.Review.Support

/-!
# Filtering and Accounting

What a filtered and paged review shows, compared with the review of the whole
snapshot.

The loop of `build` is the same for every request but for one variable. Its
findings and its count of what was omitted do not depend on the request, so
neither do the summary and the categories. `loop_spec` has what the loop finds,
and `loop_category` what becomes of the category: it is that of the last finding,
and only in a snapshot without findings the one that was asked for.

So a review is filtered by a category even if none was asked for.
`review_accounts` says when this goes unnoticed: the findings of the snapshot
have one category, and every finding that the other two filters let through is
of the category that was asked for.

## Main definitions

* `matching`: The findings of the whole review that a request asks for.
* `Grounded`: A finding that says what one evidence row says.
* `Filtered`: What a request should be answered with.
* `Reported`: A diagnostic that becomes a finding.
* `OneCategory`, `Fits`: When the loop leaves the filter alone.

## Theorems

* `loop_spec`: What the loop does.
* `loop_category`: The category does not reach the findings.
* `pages_concat`: The pages of a list, one after the other.
* `review_accounts`: When a request is answered as it should be.
* `review_category_lost`: A request without a category that loses findings.
-/

namespace Partha

namespace Review

open Canonical Insights Checked SortKeys List

section Accounting

variable [Unicode] [Hashing] [Interpreter]

/-- The request for one page. -/
def Request.page (request : Request) (offset limit : Nat) : Request :=
  { request with offset := some offset, limit := some limit }

/-- The findings of the whole review that satisfy every filter of a request. -/
def matching (everything : Response) (request : Request) : List Finding :=
  everything.findings.filter
    (selected request.category request.severity request.diagnosticCode)

def findingsOf : Except CanonicalError Response → List Finding
  | .ok response => response.findings
  | .error _ => []

/-- A finding about a diagnostic of the snapshot, with the place, the fact and
    the extractor of one evidence row. -/
def Grounded (rows : Rows) (f : Finding) : Prop :=
  ∃ d ∈ rows.diagnostics, ∃ e ∈ rows.evidence,
    f.diagnosticCode = d.code ∧ f.explanation = d.message ∧ AtPlace d e ∧
      Attached rows e f.factId ∧ f.path = e.path ∧ f.startLine = e.startLine ∧
      f.endLine = e.endLine ∧ f.extractorName = e.extractor ∧
      f.extractorVersion = e.extractorVersion

/-- The answer that a request should have, given the review of everything. -/
structure Filtered (snapshot : Snapshot) (everything : Response) (request : Request) : Prop where
  answered : ∀ offset limit, 0 < limit → ∃ r,
    build snapshot (request.page offset limit) = .ok r ∧
      r.pagination.total = (matching everything request).length ∧
      r.findings = ((matching everything request).drop offset).take limit ∧
      r.summary = everything.summary ∧ r.categories = everything.categories ∧
      r.assessmentStatus = everything.assessmentStatus ∧
      ∀ f ∈ r.findings, Grounded snapshot.rows f
  pages : ∀ limit n, 0 < limit → (matching everything request).length ≤ n * limit →
    (List.range n).flatMap (fun k => findingsOf (build snapshot (request.page (k * limit) limit)))
      = matching everything request
  accounted : everything.findings.length + everything.summary.omittedUnsupportedDiagnosticCount
    = snapshot.rows.diagnostics.length

/-- A diagnostic that becomes a finding, and the rule it is reported by. -/
def Reported (snapshot : Snapshot) (d : RiDiagnostic) (rule : Rule) : Prop :=
  d ∈ ruled snapshot.rows ∧ ∃ supported,
    promoted (evidenceByFact snapshot.rows (ruled snapshot.rows)) (reviewContext snapshot.rows) d
      = .ok (some (rule, supported))

/-- All findings have the same category. -/
def OneCategory (snapshot : Snapshot) : Prop :=
  ∀ d rule d' rule', Reported snapshot d rule → Reported snapshot d' rule' →
    rule.category = rule'.category

/-- The other two filters let nothing through that has another category than the
    one that was asked for. -/
def Fits (snapshot : Snapshot) (request : Request) : Prop :=
  ∀ d rule, Reported snapshot d rule → passes request.severity (severityOf d.severity) = true →
    passes request.diagnosticCode d.code = true → passes request.category rule.category = true

section Loop

variable {snapshotId : Str} {byFact : Str → List RiEvidence} {ctx : Context}

/-- The category of the last finding, or the one that there was. -/
def lastCategory (found : List Finding) (category : Option CategoryId) : Option CategoryId :=
  (found.getLast?.map (·.category)).or category

omit [Unicode] [Hashing] [Interpreter] in
theorem lastCategory_cons (f : Finding) (found : List Finding) (category : Option CategoryId) :
    lastCategory (f :: found) category = lastCategory found (some f.category) := by
  cases found with
  | nil => rfl
  | cons g found =>
    unfold lastCategory
    rw [List.getLast?_cons_cons]
    cases h : (g :: found).getLast? with
    | none => exact absurd (List.getLast?_eq_none_iff.mp h) (cons_ne_nil g found)
    | some last => rfl

variable {state state' : LoopState} {d : RiDiagnostic} {diagnostics : List RiDiagnostic}

theorem reviewDiagnostic_eq_ok :
    reviewDiagnostic snapshotId byFact ctx state d = .ok state' ↔
      (promoted byFact ctx d = .ok none ∧ state' = { state with omitted := state.omitted + 1 }) ∨
      ∃ rule supported f, promoted byFact ctx d = .ok (some (rule, supported)) ∧
        findingOf snapshotId d rule supported = .ok f ∧
        state' = { state with
          category := some rule.category
          findings := state.findings ++ [f] } := by
  unfold reviewDiagnostic
  cases hp : promoted byFact ctx d with
  | error e => simp only [error_bind, reduceCtorEq, false_and, exists_false, or_false]
  | ok decision =>
    cases decision with
    | none =>
      simp [ok_bind, eq_comm]
    | some found =>
      rcases found with ⟨rule, supported⟩
      simp only [ok_bind, bind_eq_ok, Except.ok.injEq, reduceCtorEq, false_and,
        Option.some.injEq, Prod.mk.injEq, false_or]
      constructor
      · rintro ⟨f, hf, rfl⟩
        exact ⟨rule, supported, f, ⟨rfl, rfl⟩, hf, rfl⟩
      · rintro ⟨_, _, f, ⟨rfl, rfl⟩, hf, rfl⟩
        exact ⟨f, hf, rfl⟩

omit [Interpreter] in
theorem findingOf_category {rule : Rule} {supported : SupportedEvidence} {f : Finding}
    (h : findingOf snapshotId d rule supported = .ok f) :
    f.category = rule.category ∧ f.severity = severityOf d.severity ∧ f.diagnosticCode = d.code ∧
      f.explanation = d.message ∧ f.factId = supported.factId ∧
      f.path = supported.evidence.path ∧ f.startLine = supported.evidence.startLine ∧
      f.endLine = supported.evidence.endLine ∧ f.extractorName = supported.evidence.extractor ∧
      f.extractorVersion = supported.evidence.extractorVersion := by
  unfold findingOf at h
  simp only [bind_eq_ok, Except.ok.injEq] at h
  rcases h with ⟨_, _, _, _, rfl⟩
  exact ⟨rfl, rfl, rfl, rfl, rfl, rfl, rfl, rfl, rfl, rfl⟩

/-- What the loop does to its three variables. -/
theorem loop_spec
    (h : diagnostics.foldlM (reviewDiagnostic snapshotId byFact ctx) state = .ok state') :
    ∃ found, state'.findings = state.findings ++ found ∧
      state'.category = lastCategory found state.category ∧
      state'.omitted + found.length = state.omitted + diagnostics.length ∧
      (∀ f ∈ found, ∃ d ∈ diagnostics, ∃ rule supported,
        promoted byFact ctx d = .ok (some (rule, supported)) ∧
          findingOf snapshotId d rule supported = .ok f) ∧
      ∀ d ∈ diagnostics, ∀ rule supported, promoted byFact ctx d = .ok (some (rule, supported)) →
        ∃ f ∈ found, findingOf snapshotId d rule supported = .ok f := by
  induction diagnostics generalizing state with
  | nil =>
    cases h
    exact ⟨[], (append_nil _).symm, rfl, rfl, fun f hf => absurd hf not_mem_nil,
      fun d hd => absurd hd not_mem_nil⟩
  | cons d diagnostics ih =>
    rw [foldlM_cons, bind_eq_ok] at h
    rcases h with ⟨mid, hmid, h⟩
    rcases ih h with ⟨found, hfound, hcategory, hcount, hfrom, hto⟩
    rcases reviewDiagnostic_eq_ok.mp hmid with ⟨hp, rfl⟩ | ⟨rule, supported, f, hp, hf, rfl⟩
    -- the diagnostic is not promoted: it is counted as omitted
    · refine ⟨found, hfound, hcategory, ?_, ?_, ?_⟩
      · dsimp only at hcount
        simp only [length_cons]
        omega
      · intro g hg
        rcases hfrom g hg with ⟨d', hd', hrest⟩
        exact ⟨d', mem_cons_of_mem d hd', hrest⟩
      · intro d' hd' rule supported hp'
        rcases mem_cons.mp hd' with rfl | hd'
        · rw [hp] at hp'
          cases hp'
        · exact hto d' hd' rule supported hp'
    -- it is promoted: its finding comes first and its category replaces the filter's
    · refine ⟨f :: found, ?_, ?_, ?_, ?_, ?_⟩
      · rw [hfound, append_assoc, singleton_append]
      · rw [hcategory, lastCategory_cons, (findingOf_category hf).1]
      · simp only [length_cons] at hcount ⊢
        omega
      · intro g hg
        rcases mem_cons.mp hg with rfl | hg
        · exact ⟨d, mem_cons_self, rule, supported, hp, hf⟩
        · rcases hfrom g hg with ⟨d', hd', hrest⟩
          exact ⟨d', mem_cons_of_mem d hd', hrest⟩
      · intro d' hd' rule' supported' hp'
        rcases mem_cons.mp hd' with rfl | hd'
        · rw [hp] at hp'
          cases hp'
          exact ⟨f, mem_cons_self, hf⟩
        · rcases hto d' hd' rule' supported' hp' with ⟨g, hg, hgf⟩
          exact ⟨g, mem_cons_of_mem f hg, hgf⟩

/-- The category that was asked for reaches nothing but the category. -/
theorem loop_category
    (h : diagnostics.foldlM (reviewDiagnostic snapshotId byFact ctx) state = .ok state')
    (category : Option CategoryId) : ∃ category',
      diagnostics.foldlM (reviewDiagnostic snapshotId byFact ctx)
        { state with category := category } = .ok { state' with category := category' } := by
  induction diagnostics generalizing state category with
  | nil =>
    cases h
    exact ⟨category, rfl⟩
  | cons d diagnostics ih =>
    rw [foldlM_cons, bind_eq_ok] at h
    rcases h with ⟨mid, hmid, h⟩
    rcases reviewDiagnostic_eq_ok.mp hmid with ⟨hp, rfl⟩ | ⟨rule, supported, f, hp, hf, rfl⟩
    · rcases ih h category with ⟨category', h'⟩
      refine ⟨category', ?_⟩
      rw [foldlM_cons, bind_eq_ok]
      exact ⟨_, reviewDiagnostic_eq_ok.mpr (.inl ⟨hp, rfl⟩), h'⟩
    · refine ⟨state'.category, ?_⟩
      rw [foldlM_cons, bind_eq_ok]
      exact ⟨_, reviewDiagnostic_eq_ok.mpr (.inr ⟨rule, supported, f, hp, hf, rfl⟩), h⟩

end Loop

omit [Unicode] [Hashing] [Interpreter] in
/-- The first pages of a list, one after the other, are its beginning. -/
theorem pages_concat {α : Type} (l : List α) (limit n : Nat) :
    (List.range n).flatMap (fun k => (l.drop (k * limit)).take limit) = l.take (n * limit) := by
  induction n with
  | zero => rw [Nat.zero_mul, take_zero]; rfl
  | succ n ih =>
    rw [range_succ, flatMap_append, ih, flatMap_singleton, Nat.succ_mul,
      take_add]

section Support

omit [Unicode] [Hashing] [Interpreter]

variable {found : List Finding} {f : Finding}

/-- The whole review, which the loop has filtered already. -/
theorem everything_findings {rows : Rows} {omitted : Nat} :
    (respond rows .everything
      { category := lastCategory found none
        findings := found
        omitted := omitted }).findings
      = (sortBy findingKey found).filter (selected (lastCategory found none) none none) := by
  simp [respond, Request.everything]

theorem selected_eq {category : Option CategoryId} {severity : Option Severity}
    {code : Option Str} :
    selected category severity code f = true ↔
      passes category f.category = true ∧ passes severity f.severity = true ∧
        passes code f.diagnosticCode = true := by
  simp [selected, and_assoc]

theorem passes_some {α : Type} [DecidableEq α] {a b : α} :
    passes (some b) a = true ↔ a = b := by
  simp [passes]

/-- In a snapshot with a finding the loop leaves the category of the last one. -/
theorem lastCategory_of_mem (hf : f ∈ found) :
    ∃ last ∈ found, ∀ category, lastCategory found category = some last.category := by
  cases h : found.getLast? with
  | none =>
    rw [List.getLast?_eq_none_iff.mp h] at hf
    cases hf
  | some last =>
    refine ⟨last, mem_of_getLast? h, fun category => ?_⟩
    rw [lastCategory, h]
    rfl

end Support

section Building

variable {snapshot : Snapshot}

/-- The findings of a snapshot and the count of what was omitted, which every
    request shares, with the category the loop leaves for each. -/
structure Findings (snapshot : Snapshot) (found : List Finding) (omitted : Nat) : Prop where
  loop : ∀ category, reviewAll snapshot category = .ok
    { category := lastCategory found category, findings := found, omitted := omitted }
  counted : found.length + omitted = snapshot.rows.diagnostics.length
  reported : ∀ f ∈ found, ∃ d rule, Reported snapshot d rule ∧ f.category = rule.category ∧
    f.severity = severityOf d.severity ∧ f.diagnosticCode = d.code
  grounded : ∀ f ∈ found, Grounded snapshot.rows f
  complete : ∀ d rule, Reported snapshot d rule → ∃ f ∈ found, f.category = rule.category ∧
    f.severity = severityOf d.severity ∧ f.diagnosticCode = d.code

theorem findings_of_reviewAll {category : Option CategoryId} {state : LoopState}
    (h : reviewAll snapshot category = .ok state) :
    Findings snapshot state.findings state.omitted := by
  rcases loop_spec h with ⟨found, hfound, hcategory, hcount, hfrom, hto⟩
  rw [nil_append] at hfound
  subst hfound
  refine ⟨fun category' => ?_, ?_, fun f hf => ?_, fun f hf => ?_, fun d rule hd => ?_⟩
  · rcases loop_category h category' with ⟨last, hlast⟩
    rcases loop_spec hlast with ⟨found', hfound', hcategory', _⟩
    rw [nil_append] at hfound'
    dsimp only at hfound' hcategory'
    rw [← hfound'] at hcategory'
    rw [← hcategory']
    exact hlast
  · -- What has no rule is counted before the loop starts.
    have hsplit := length_eq_length_filter_add (l := snapshot.rows.diagnostics)
      (fun d => (ruleOf d.code).isSome)
    have hrest : snapshot.rows.diagnostics.countP (fun d => (ruleOf d.code).isNone)
        = (snapshot.rows.diagnostics.filter (fun d => !(ruleOf d.code).isSome)).length := by
      rw [countP_eq_length_filter]
      congr 2
      funext d
      rw [Option.not_isSome]
    simp only [ruled] at hcount
    omega
  · rcases hfrom f hf with ⟨d, hd, rule, supported, hp, hfd⟩
    have hfields := findingOf_category hfd
    exact ⟨d, rule, ⟨hd, supported, hp⟩, hfields.1, hfields.2.1, hfields.2.2.1⟩
  · rcases hfrom f hf with ⟨d, hd, rule, supported, hp, hfd⟩
    rcases findingOf_category hfd with ⟨_, _, hcode, htext, hfact, hplace⟩
    rcases supportFor_eq_some (promoted_eq_some hp).2 with ⟨_, hrow, hof, hat⟩
    exact ⟨d, mem_of_mem_filter hd, supported.evidence, hrow, hcode, htext, hat,
      hfact ▸ factOf_attached hof, hplace⟩
  · rcases hd with ⟨hd, supported, hp⟩
    rcases hto d hd rule supported hp with ⟨f, hf, hfd⟩
    have hfields := findingOf_category hfd
    exact ⟨f, hf, hfields.1, hfields.2.1, hfields.2.2.1⟩

variable {request : Request} {found : List Finding} {omitted : Nat}

theorem build_eq_ok {r : Response} :
    build snapshot request = .ok r ↔ ∃ state, reviewAll snapshot request.category = .ok state ∧
      respond snapshot.rows request state = r := by
  unfold build
  simp [bind_eq_ok]

/-- Every request is answered from the shared findings. -/
theorem Findings.build (hs : Findings snapshot found omitted) (request : Request) :
    build snapshot request = .ok (respond snapshot.rows request
      { category := lastCategory found request.category
        findings := found
        omitted := omitted }) :=
  build_eq_ok.mpr ⟨_, hs.loop request.category, rfl⟩

/-- With one category for all findings, and nothing else let through, the
    category that the loop leaves selects what was asked for. -/
theorem filter_eq_matching (hs : Findings snapshot found omitted) (hone : OneCategory snapshot)
    (hfits : Fits snapshot request) :
    (sortBy findingKey found).filter (selected (lastCategory found request.category)
        request.severity request.diagnosticCode)
      = ((sortBy findingKey found).filter (selected (lastCategory found none) none none)).filter
        (selected request.category request.severity request.diagnosticCode) := by
  rw [filter_filter]
  refine filter_congr (fun f hf => ?_)
  rw [mem_sortBy] at hf
  rcases lastCategory_of_mem hf with ⟨last, hlast, hcategory⟩
  rcases hs.reported f hf with ⟨d, rule, hd, hfcategory, hseverity, hcode⟩
  rcases hs.reported last hlast with ⟨d', rule', hd', hlastcategory, _⟩
  have hsame : f.category = last.category := by
    rw [hfcategory, hlastcategory]
    exact hone d rule d' rule' hd hd'
  rw [Bool.eq_iff_iff, Bool.and_eq_true, selected_eq, selected_eq, selected_eq, hcategory,
    hcategory, passes_some]
  constructor
  · rintro ⟨_, hsev, hcd⟩
    have hreq := hfits d rule hd (hseverity ▸ hsev) (hcode ▸ hcd)
    exact ⟨⟨hfcategory ▸ hreq, hsev, hcd⟩, hsame, rfl, rfl⟩
  · rintro ⟨⟨_, hsev, hcd⟩, _⟩
    exact ⟨hsame, hsev, hcd⟩

theorem filtered_of_fits (hs : Findings snapshot found omitted) (hone : OneCategory snapshot)
    (hfits : Fits snapshot request) :
    Filtered snapshot (respond snapshot.rows .everything
      { category := lastCategory found none
        findings := found
        omitted := omitted }) request := by
  have hmatching := filter_eq_matching hs hone hfits
  refine ⟨fun offset limit _ => ⟨_, hs.build _, ?_, ?_, rfl, rfl, rfl, fun f hf => ?_⟩,
    fun limit n _ hn => ?_, ?_⟩
  · rw [matching, everything_findings, ← hmatching]
    rfl
  · rw [matching, everything_findings, ← hmatching]
    rfl
  · have hmem := mem_of_mem_filter (mem_of_mem_drop (mem_of_mem_take hf))
    exact hs.grounded f (mem_sortBy.mp hmem)
  · have hpage : ∀ k, findingsOf (build snapshot (request.page (k * limit) limit))
        = ((matching (respond snapshot.rows .everything
          { category := lastCategory found none
            findings := found
            omitted := omitted }) request).drop (k * limit)).take limit := by
      intro k
      rw [hs.build, matching, everything_findings, ← hmatching]
      rfl
    simp only [hpage]
    rw [pages_concat, take_of_length_le hn]
  · -- No finding is lost, since they all have the category of the last one.
    have hall : (sortBy findingKey found).filter (selected (lastCategory found none) none none)
        = sortBy findingKey found := by
      rw [filter_eq_self]
      intro f hf
      rw [mem_sortBy] at hf
      rcases lastCategory_of_mem hf with ⟨last, hlast, hcategory⟩
      rcases hs.reported f hf with ⟨d, rule, hd, hfcategory, _⟩
      rcases hs.reported last hlast with ⟨d', rule', hd', hlastcategory, _⟩
      rw [selected_eq, hcategory, passes_some, hfcategory, hlastcategory]
      exact ⟨hone d rule d' rule' hd hd', rfl, rfl⟩
    rw [everything_findings, hall, length_sortBy]
    exact hs.counted

theorem fits_of_filtered (hs : Findings snapshot found omitted)
    (h : Filtered snapshot (respond snapshot.rows .everything
      { category := lastCategory found none
        findings := found
        omitted := omitted }) request) : OneCategory snapshot ∧ Fits snapshot request := by
  have hkept : ∀ f ∈ found, selected (lastCategory found none) none none f = true := by
    have hcount := h.accounted
    rw [everything_findings, ← hs.counted, ← length_sortBy findingKey found] at hcount
    have hlength := Nat.add_right_cancel hcount
    rw [length_filter_eq_length_iff] at hlength
    exact fun f hf => hlength f (mem_sortBy.mpr hf)
  have hlast : ∀ f ∈ found, ∀ category, lastCategory found category = some f.category := by
    intro f hf category
    rcases lastCategory_of_mem hf with ⟨last, _, hcategory⟩
    have hf' := (selected_eq.mp (hkept f hf)).1
    rw [hcategory, passes_some] at hf'
    rw [hcategory, hf']
  constructor
  · intro d rule d' rule' hd hd'
    rcases hs.complete d rule hd with ⟨f, hf, hfcategory, _⟩
    rcases hs.complete d' rule' hd' with ⟨f', hf', hfcategory', _⟩
    rw [← hfcategory, ← hfcategory']
    exact Option.some.inj ((hlast f hf none).symm.trans (hlast f' hf' none))
  · intro d rule hd hsev hcd
    rcases hs.complete d rule hd with ⟨f, hf, hfcategory, hseverity, hcode⟩
    rcases h.answered 0 1 Nat.one_pos with ⟨r, hr, htotal, _⟩
    rw [hs.build] at hr
    cases hr
    -- The finding is counted, so a finding of the whole review matches.
    have hmem : f ∈ (sortBy findingKey found).filter (selected
        (lastCategory found request.category) request.severity request.diagnosticCode) := by
      rw [mem_filter, selected_eq, hlast f hf, passes_some]
      exact ⟨mem_sortBy.mpr hf, rfl, hseverity ▸ hsev, hcode ▸ hcd⟩
    have hpos : 0 < (matching (respond snapshot.rows .everything
        { category := lastCategory found none
          findings := found
          omitted := omitted }) request).length := by
      rw [← htotal]
      exact length_pos_of_mem hmem
    rcases exists_mem_of_length_pos hpos with ⟨g, hg⟩
    rw [matching, everything_findings, mem_filter, mem_filter, mem_sortBy] at hg
    have hgcategory := Option.some.inj ((hlast g hg.1.1 none).symm.trans (hlast f hf none))
    rw [← hfcategory, ← hgcategory]
    exact (selected_eq.mp hg.2).1

/-- A request is answered as it should be exactly when all findings have one
    category and the other two filters let no other category through than the
    one that was asked for. -/
theorem review_accounts {everything : Response} (h : build snapshot .everything = .ok everything)
    (request : Request) :
    Filtered snapshot everything request ↔ OneCategory snapshot ∧ Fits snapshot request := by
  rcases build_eq_ok.mp h with ⟨state, hstate, _⟩
  have hs := findings_of_reviewAll hstate
  rw [hs.build] at h
  cases h
  exact ⟨fits_of_filtered hs, fun hc => filtered_of_fits hs hc.1 hc.2⟩

end Building

end Accounting

section Samples

local instance filteringUnicode : Unicode := asciiText
local instance filteringHashing : Hashing := sha256
local instance filteringInterpreter : Interpreter := cpython

def sampleEvidence (id line : Nat) : RiEvidence :=
  { id := id
    parent := .node 1
    path := "a.ts".toList
    startLine := line
    endLine := line
    granularity := .span
    extractor := "typescript".toList
    extractorVersion := "1".toList }

def sampleDiagnostic (id line : Nat) (code : Str) : RiDiagnostic :=
  { id := id
    code := code
    severity := .warning
    message := "message".toList
    path := some "a.ts".toList
    spanStartLine := some line
    spanEndLine := some line
    producer := "typescript@1".toList
    subjectKey := some "file:a.ts".toList
    objectKey := none
    observationId := none }

/-- One file with an unsupported construct and an ambiguous reference. -/
def sampleSnapshot : Snapshot :=
  { snapshotId := "s1".toList
    rows :=
      { nodes := [{ id := 1, nodeKind := "file".toList, stableKey := "file:a.ts".toList }]
        observations := []
        evidence := [sampleEvidence 1 1, sampleEvidence 2 2]
        diagnostics := [sampleDiagnostic 1 1 "RI-EXT-UNSUPPORTED".toList,
          sampleDiagnostic 2 2 riResAmbiguous] } }

/-- The review of a snapshot, if there is one. -/
def sampleReview (snapshot : Snapshot) : Response :=
  match build snapshot .everything with
  | .ok everything => everything
  | .error _ => respond snapshot.rows .everything
      { category := none, findings := [], omitted := 0 }

theorem sampleReview_eq {snapshot : Snapshot}
    (h : (build snapshot .everything).isOk = true) :
    build snapshot .everything = .ok (sampleReview snapshot) := by
  unfold sampleReview
  cases hb : build snapshot .everything with
  | ok everything => rfl
  | error e =>
    rw [hb] at h
    cases h

/-- Without the second diagnostic the loop leaves the filter alone. -/
def oneDiagnostic : Snapshot :=
  { sampleSnapshot with rows := { sampleSnapshot.rows with
    diagnostics := [sampleDiagnostic 1 1 "RI-EXT-UNSUPPORTED".toList] } }

theorem review_accounts_one_diagnostic :
    Filtered oneDiagnostic (sampleReview oneDiagnostic) .everything ↔
      OneCategory oneDiagnostic ∧ Fits oneDiagnostic .everything :=
  review_accounts (sampleReview_eq (by decide +kernel)) .everything

/-- Nobody asked for a category, and a finding is neither shown nor counted. -/
theorem review_category_lost : ¬ ∀ everything request,
    build sampleSnapshot .everything = .ok everything →
      Filtered sampleSnapshot everything request := by
  intro h
  have hbuild := @sampleReview_eq sampleSnapshot (by decide +kernel)
  have hcount := (h _ .everything hbuild).accounted
  revert hcount
  decide +kernel

end Samples

end Review

end Partha
