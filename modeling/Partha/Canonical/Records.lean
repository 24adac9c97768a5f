import Mathlib.Data.Prod.Lex
import Partha.Canonical.Paths

/-!
# Canonical Records

Every fact enters the canonical document as a record: a mapping with fixed
property names, normalized, without duplicates among its kind, and sorted by a
rank of its fields with the encoded record as the last tie-breaker.

A record is a structure here, `toValue` is the mapping that the source builds,
and `Record` ties the two together: normalizing the structure is normalizing
the mapping, and no two structures are the same mapping. Records are parametric
in the lists of evidence and derivations that they contain, so that the same
structure also describes a record over sets.

`arrange` is the scheme of all the lists of the canonical document. What it
returns depends on the set of results alone: `arrange_eq_iff`.

## Main definitions

* `Record`: A structure that stands for a mapping.
* `arrange`: The distinct results of a list, sorted.
* `orderRecords`, `orderEvidence`, `sortDerivedFrom`: The functions of the source
  that follow the scheme.

## Theorems

* `normalized_idem`: Normalizing a record twice is normalizing it once.
* `arrange_eq_iff`: Two arranged lists agree exactly when the results do.
* `arrange_toOption`: A list with the same elements is arranged the same.
-/

namespace Partha

namespace Canonical

open Checked List

section Scheme

/-- A structure that stands for a mapping with fixed property names. -/
class Record (α : Type) where
  toValue : α → Value
  normalized : [Unicode] → α → Except CanonicalError α
  normalize_toValue : ∀ [Unicode] (r : α) (w : Value),
    normalize (toValue r) = .ok w ↔ ∃ r', normalized r = .ok r' ∧ w = toValue r'
  toValue_injective : Function.Injective toValue

export Record (toValue normalized normalize_toValue toValue_injective)

variable {α β ρ : Type} [Record β] [LinearOrder ρ]

/-- The bytes by which a record is told apart. -/
def code (r : β) : List Nat :=
  encoded (toValue r)

theorem code_injective : Function.Injective (code (β := β)) :=
  fun _ _ h => toValue_injective (encoded_injective h)

/-- The results of a list, without duplicates and sorted. -/
def arrange (prepare : α → Except CanonicalError β) (rank : β → ρ) (l : List α) :
    Except CanonicalError (List β) := do
  let prepared ← collect prepare l
  .ok (Ordering.ordered rank code prepared)

/-- The results that a list gives. -/
def results (prepare : α → Except CanonicalError β) (l : List α) : Set β :=
  {b | ∃ a ∈ l, prepare a = .ok b}

variable {prepare prepare' : α → Except CanonicalError β} {rank : β → ρ} {l l' : List α}
  {m : List β}

theorem arrange_eq_ok : arrange prepare rank l = .ok m ↔
      ∃ prepared, collect prepare l = .ok prepared ∧
        m = Ordering.ordered rank code prepared := by
  rw [arrange, bind_eq_ok]
  constructor
  · rintro ⟨prepared, hp, h⟩
    exact ⟨prepared, hp, (Except.ok.inj h).symm⟩
  · rintro ⟨prepared, hp, rfl⟩
    exact ⟨prepared, hp, rfl⟩

theorem arrange_ok_iff :
    (∃ m, arrange prepare rank l = .ok m) ↔ ∀ a ∈ l, ∃ b, prepare a = .ok b := by
  rw [← collect_ok_iff]
  constructor
  · rintro ⟨m, h⟩
    rcases arrange_eq_ok.mp h with ⟨prepared, hp, _⟩
    exact ⟨prepared, hp⟩
  · rintro ⟨prepared, hp⟩
    exact ⟨_, arrange_eq_ok.mpr ⟨prepared, hp, rfl⟩⟩

theorem mem_arrange (h : arrange prepare rank l = .ok m) {b : β} :
    b ∈ m ↔ b ∈ results prepare l := by
  rcases arrange_eq_ok.mp h with ⟨prepared, hp, rfl⟩
  rw [Ordering.mem_ordered code_injective, mem_collect hp]
  rfl

theorem arrange_eq_iff {m' : List β} (h : arrange prepare rank l = .ok m)
    (h' : arrange prepare' rank l' = .ok m') :
    m = m' ↔ results prepare l = results prepare' l' := by
  rcases arrange_eq_ok.mp h with ⟨prepared, hp, rfl⟩
  rcases arrange_eq_ok.mp h' with ⟨prepared', hp', rfl⟩
  rw [Ordering.ordered_eq_iff code_injective, Set.ext_iff]
  refine forall_congr' (fun b => ?_)
  rw [mem_collect hp, mem_collect hp']
  rfl

/-- What a list is arranged to, and whether it is, depends on what its elements
    are prepared to. -/
theorem arrange_toOption (h : ∀ a ∈ l, ∃ a' ∈ l', (prepare a).toOption = (prepare' a').toOption)
    (h' : ∀ a' ∈ l', ∃ a ∈ l, (prepare a).toOption = (prepare' a').toOption) :
    (arrange prepare rank l).toOption = (arrange prepare' rank l').toOption := by
  have hok : ∀ {a a' : α} {b : β}, (prepare a).toOption = (prepare' a').toOption →
      (prepare a = .ok b ↔ prepare' a' = .ok b) := by
    intro a a' b hab
    cases ha : prepare a <;> cases ha' : prepare' a' <;> simp_all [Except.toOption]
  by_cases hl : ∀ a ∈ l, ∃ b, prepare a = .ok b
  · have hl' : ∀ a' ∈ l', ∃ b, prepare' a' = .ok b := by
      intro a' ha'
      rcases h' a' ha' with ⟨a, ha, hab⟩
      rcases hl a ha with ⟨b, hb⟩
      exact ⟨b, (hok hab).mp hb⟩
    rcases collect_ok_iff.mpr hl with ⟨m, hm⟩
    rcases collect_ok_iff.mpr hl' with ⟨m', hm'⟩
    have hsame : Ordering.ordered rank code m = Ordering.ordered rank code m' := by
      refine (Ordering.ordered_eq_iff code_injective).mpr (fun b => ?_)
      rw [mem_collect hm, mem_collect hm']
      constructor
      · rintro ⟨a, ha, hb⟩
        rcases h a ha with ⟨a', ha', hab⟩
        exact ⟨a', ha', (hok hab).mp hb⟩
      · rintro ⟨a', ha', hb⟩
        rcases h' a' ha' with ⟨a, ha, hab⟩
        exact ⟨a, ha, (hok hab).mpr hb⟩
    rw [arrange, arrange, hm, hm', ok_bind, ok_bind, hsame]
  · have hl' : ¬ ∀ a' ∈ l', ∃ b, prepare' a' = .ok b := by
      intro hl'
      refine hl (fun a ha => ?_)
      rcases h a ha with ⟨a', ha', hab⟩
      rcases hl' a' ha' with ⟨b, hb⟩
      exact ⟨b, (hok hab).mpr hb⟩
    have hfail : ∀ x : Except CanonicalError (List β), (¬ ∃ m, x = .ok m) → x.toOption = none := by
      intro x hx
      cases x with
      | error e => rfl
      | ok m => exact absurd ⟨m, rfl⟩ hx
    rw [hfail _ (fun hm => hl (arrange_ok_iff.mp hm)),
      hfail _ (fun hm => hl' (arrange_ok_iff.mp hm))]

end Scheme

section Normalized

variable [Unicode] {α β ρ : Type} [Record β] [LinearOrder ρ]

/-- `_order_records`. -/
def orderRecords (rank : β → ρ) (records : List β) : Except CanonicalError (List β) :=
  arrange normalized rank records

theorem normalized_idem {r r' : β} (h : normalized r = .ok r') : normalized r' = .ok r' := by
  have hw := normalize_idem ((normalize_toValue r (toValue r')).mpr ⟨r', h, rfl⟩)
  rcases (normalize_toValue r' (toValue r')).mp hw with ⟨r'', h', he⟩
  rw [h', toValue_injective he]

/-- Two passes over a list, the second of which normalizes. -/
theorem orderRecords_collect {f : α → Except CanonicalError β} {rank : β → ρ} {l : List α}
    {m : List β} : (do let prepared ← collect f l; orderRecords rank prepared) = .ok m ↔
      arrange (fun a => f a >>= normalized) rank l = .ok m := by
  rw [bind_eq_ok]
  simp only [orderRecords, arrange_eq_ok]
  constructor
  · rintro ⟨prepared, hp, ordered, ho, rfl⟩
    exact ⟨ordered, collect_bind.mp ⟨prepared, hp, ho⟩, rfl⟩
  · rintro ⟨ordered, ho, rfl⟩
    rcases collect_bind.mpr ho with ⟨prepared, hp, ho⟩
    exact ⟨prepared, hp, ordered, ho, rfl⟩

/-- The mappings of a list of records. -/
theorem collect_toValue {l : List β} {ws : List Value} :
    collect normalize (l.map toValue) = .ok ws ↔
      ∃ l', collect normalized l = .ok l' ∧ ws = l'.map toValue := by
  rw [collect_eq_ok, List.forall₂_map_left_iff]
  constructor
  · intro h
    induction h with
    | nil => exact ⟨[], rfl, rfl⟩
    | @cons r w l ws hr _ ih =>
      rcases (normalize_toValue r w).mp hr with ⟨r', hr', rfl⟩
      rcases ih with ⟨l', hl', rfl⟩
      refine ⟨r' :: l', ?_, rfl⟩
      rw [collect, hr', ok_bind, hl', ok_bind]
  · rintro ⟨l', hl', rfl⟩
    rw [List.forall₂_map_right_iff]
    exact (collect_eq_ok.mp hl').imp
      (fun r r' h => (normalize_toValue r (toValue r')).mpr ⟨r', h, rfl⟩)

end Normalized

section Mappings

variable [Unicode]

/-- `_normalize` of a mapping, as a mapping. -/
def normalizeMapping (fields : List (Str × Value)) :
    Except CanonicalError (List (Str × Value)) := do
  let gs ← normalizeFields [] fields
  .ok (sortKeys gs)

variable {w : Value}

@[simp]
theorem normalize_mapping {fields : List (Str × Value)} :
    normalize (.obj fields) = .ok w ↔ ∃ gs, normalizeMapping fields = .ok gs ∧ w = .obj gs := by
  rw [normalize_obj]
  constructor
  · rintro ⟨gs, hgs, rfl⟩
    exact ⟨sortKeys gs, by rw [normalizeMapping, hgs, ok_bind], rfl⟩
  · rintro ⟨gs, hgs, rfl⟩
    rcases bind_eq_ok.mp hgs with ⟨hs, hhs, he⟩
    exact ⟨hs, hhs, by rw [Except.ok.inj he]⟩

@[simp]
theorem normalize_text {s : Str} : normalize (.str s) = .ok w ↔ w = .str (nfc s) := by
  rw [normalize, Except.ok.injEq]
  exact eq_comm

@[simp]
theorem normalize_integer {i : Int} : normalize (.num i) = .ok w ↔ ExactInteger i ∧ w = .num i := by
  rw [normalize]
  by_cases hi : ExactInteger i
  · rw [if_pos hi, Except.ok.injEq]
    exact ⟨fun h => ⟨hi, h.symm⟩, fun h => h.2.symm⟩
  · rw [if_neg hi]
    constructor
    · intro h
      cases h
    · exact fun h => absurd h.1 hi

@[simp]
theorem normalize_null : normalize .null = .ok w ↔ w = .null := by
  rw [normalize, Except.ok.injEq]
  exact eq_comm

/-- A property of an object. -/
def field (name : String) : Value → Option Value
  | .obj fields => fields.lookup name.toList
  | _ => none

def strField (name : String) (v : Value) : Str :=
  match field name v with
  | some (.str s) => s
  | _ => []

end Mappings

section Evidence

/-- An evidence mapping. -/
structure Evidence where
  path : Str
  startLine : Int
  endLine : Int
  granularity : Option Str
  extractor : Str
  extractorVersion : Str
  deriving DecidableEq

/-- An evidence record, with its granularity filled in. -/
structure EvidenceRecord where
  path : Str
  startLine : Int
  endLine : Int
  granularity : Str
  extractor : Str
  extractorVersion : Str
  deriving DecidableEq

def EvidenceRecord.asMapping (r : EvidenceRecord) : Evidence :=
  { path := r.path, startLine := r.startLine, endLine := r.endLine,
    granularity := some r.granularity, extractor := r.extractor,
    extractorVersion := r.extractorVersion }

def EvidenceRecord.rank (r : EvidenceRecord) : Str ×ₗ Int ×ₗ Int ×ₗ Str ×ₗ Str ×ₗ Str :=
  toLex (r.path, toLex (r.startLine, toLex (r.endLine, toLex (r.granularity,
    toLex (r.extractor, r.extractorVersion)))))

/-- `evidence.get("granularity") or "span"`. -/
def granularityOrSpan : Option Str → Str
  | some (c :: s) => c :: s
  | _ => "span".toList

theorem granularityOrSpan_ne_nil (granularity : Option Str) : granularityOrSpan granularity ≠
    [] := by
  unfold granularityOrSpan
  split
  · exact cons_ne_nil _ _
  · decide

theorem granularityOrSpan_some {s : Str} (h : s ≠ []) : granularityOrSpan (some s) = s := by
  cases s with
  | nil => exact absurd rfl h
  | cons c s => rfl

instance : Record EvidenceRecord where
  toValue r := .obj [("end_line".toList, .num r.endLine), ("extractor".toList, .str r.extractor),
    ("extractor_version".toList, .str r.extractorVersion),
    ("granularity".toList, .str r.granularity), ("path".toList, .str r.path),
    ("start_line".toList, .num r.startLine)]
  normalized r :=
    if ExactInteger r.startLine ∧ ExactInteger r.endLine then
      .ok { r with
        path := nfc r.path
        granularity := nfc r.granularity
        extractor := nfc r.extractor
        extractorVersion := nfc r.extractorVersion }
    else .error (.canonicalization
      "integers outside the exact JSON/IEEE-754 range are not permitted")
  normalize_toValue r w := by
    rw [normalize_keyed (of_decide_eq_true rfl)]
    by_cases hi : ExactInteger r.startLine ∧ ExactInteger r.endLine
    · simp [List.forall₂_cons_left_iff, hi]
    · rw [if_neg hi]
      simp only [List.forall₂_cons_left_iff, normalize_integer]
      grind
  toValue_injective r r' h := by
    cases r
    cases r'
    simpa [and_comm, and_assoc, and_left_comm] using h

variable [Unicode]

/-- `canonical_evidence_record`. -/
def canonicalEvidenceRecord (evidence : Evidence) : Except CanonicalError EvidenceRecord := do
  let path ← normalizeRepoPath evidence.path
  .ok {
    path := path
    startLine := evidence.startLine
    endLine := evidence.endLine
    granularity := granularityOrSpan evidence.granularity
    extractor := evidence.extractor
    extractorVersion := evidence.extractorVersion }

/-- `order_evidence`. -/
def orderEvidence (evidenceRecords : List Evidence) :
    Except CanonicalError (List EvidenceRecord) := do
  let prepared ← collect canonicalEvidenceRecord evidenceRecords
  orderRecords EvidenceRecord.rank prepared

end Evidence

section References

/-- The kinds of facts that a derivation refers to. -/
inductive ReferenceKind where
  | observation
  | node
  | edge
  | assertion
  deriving DecidableEq

namespace ReferenceKind

def name : ReferenceKind → Str
  | .observation => "observation".toList
  | .node => "node".toList
  | .edge => "edge".toList
  | .assertion => "assertion".toList

def ofName? (s : Str) : Option ReferenceKind :=
  if s = "observation".toList then some .observation
  else if s = "node".toList then some .node
  else if s = "edge".toList then some .edge
  else if s = "assertion".toList then some .assertion
  else none

/-- `_REFERENCE_RANK`. -/
def rank : ReferenceKind → Nat
  | .observation => 0
  | .node => 1
  | .edge => 2
  | .assertion => 3

/-- `_REFERENCE_IDENTITY_FIELD`. -/
def identityField : ReferenceKind → String
  | .observation => "observation_id"
  | .node => "stable_key"
  | .edge => "edge_id"
  | .assertion => "assertion_id"

end ReferenceKind

/-- A reference mapping, from strings to strings. -/
abbrev Reference := List (Str × Str)

/-- A reference of one of the four tagged shapes. -/
structure DerivedFrom where
  kind : ReferenceKind
  identity : Str
  deriving DecidableEq

def DerivedFrom.asMapping (d : DerivedFrom) : Reference :=
  [("kind".toList, d.kind.name), (d.kind.identityField.toList, d.identity)]

def DerivedFrom.rank (d : DerivedFrom) : Nat ×ₗ Str :=
  toLex (d.kind.rank, d.identity)

variable [Unicode]

theorem ReferenceKind.nfc_name (kind : ReferenceKind) : nfc kind.name = kind.name := by
  refine nfc_ascii _ ?_
  cases kind <;> decide

instance : Record DerivedFrom where
  toValue
    | ⟨.observation, identity⟩ => .obj [("kind".toList, .str ReferenceKind.observation.name),
        ("observation_id".toList, .str identity)]
    | ⟨.node, identity⟩ => .obj [("kind".toList, .str ReferenceKind.node.name),
        ("stable_key".toList, .str identity)]
    | ⟨.edge, identity⟩ => .obj [("edge_id".toList, .str identity),
        ("kind".toList, .str ReferenceKind.edge.name)]
    | ⟨.assertion, identity⟩ => .obj [("assertion_id".toList, .str identity),
        ("kind".toList, .str ReferenceKind.assertion.name)]
  normalized d := .ok { d with identity := nfc d.identity }
  normalize_toValue d w := by
    rcases d with ⟨kind, identity⟩
    cases kind
    all_goals
      rw [normalize_keyed (of_decide_eq_true rfl)]
      simp [List.forall₂_cons_left_iff, ReferenceKind.nfc_name]
  toValue_injective d d' h := by
    rcases d with ⟨kind, identity⟩
    rcases d' with ⟨kind', identity'⟩
    cases kind <;> cases kind'
    all_goals simp at h
    all_goals rw [h]

/-- A reference checked against the shape that its kind asks for. -/
def prepareReference (reference : Reference) : Except CanonicalError DerivedFrom := do
  let record ← normalizeMapping (reference.map (fun f => (f.1, .str f.2)))
  match ReferenceKind.ofName? (strField "kind" (.obj record)) with
  | none => .error (.canonicalization "derived_from contains an unsupported reference kind")
  | some kind =>
    let identity := strField kind.identityField (.obj record)
    if (∀ f ∈ record, f.1 = "kind".toList ∨ f.1 = kind.identityField.toList) ∧ identity ≠ [] then
      .ok { kind := kind, identity := identity }
    else .error (.canonicalization
      "derived_from reference does not match the RFC tagged shape")

/-- `sort_derived_from`. -/
def sortDerivedFrom (references : List Reference) : Except CanonicalError (List DerivedFrom) :=
  arrange prepareReference DerivedFrom.rank references

end References

section Properties

/-- A property that is left out when there is no value. -/
def optional (name : String) (value : Option Value) : List (Str × Value) :=
  match value with
  | none => []
  | some v => [(name.toList, v)]

theorem optional_names (name : String) (value : Option Value) :
    ((optional name value).map Prod.fst).Sublist [name.toList] := by
  cases value with
  | none => exact nil_sublist _
  | some v => exact List.Sublist.refl _

/-- A string, or `null`. -/
def textOrNull : Option Str → Value
  | none => .null
  | some s => .str s

@[simp]
theorem textOrNull_inj {s s' : Option Str} : textOrNull s = textOrNull s' ↔ s = s' := by
  cases s <;> cases s' <;> simp [textOrNull]

/-- A span, or `null`. -/
def spanOrNull : Option (Int × Int) → Value
  | none => .null
  | some span => .obj [("end_line".toList, .num span.2), ("start_line".toList, .num span.1)]

@[simp]
theorem spanOrNull_inj {span span' : Option (Int × Int)} :
    spanOrNull span = spanOrNull span' ↔ span = span' := by
  cases span <;> cases span' <;> simp [spanOrNull, Prod.ext_iff, and_comm]

/-- `{"kind": .., "stable_key": ..}`. -/
def endpoint (kind stableKey : Str) : Value :=
  .obj [("kind".toList, .str kind), ("stable_key".toList, .str stableKey)]

@[simp]
theorem endpoint_inj {kind kind' key key' : Str} :
    endpoint kind key = endpoint kind' key' ↔ kind = kind' ∧ key = key' := by
  unfold endpoint
  simp

/-- `_normalize` of an integer. -/
def exactInteger (i : Int) : Except CanonicalError Int :=
  if ExactInteger i then .ok i
  else .error (.canonicalization
    "integers outside the exact JSON/IEEE-754 range are not permitted")

@[simp]
theorem exactInteger_eq_ok {i j : Int} : exactInteger i = .ok j ↔ ExactInteger i ∧ j = i := by
  unfold exactInteger
  by_cases hi : ExactInteger i
  · rw [if_pos hi, Except.ok.injEq]
    exact ⟨fun h => ⟨hi, h.symm⟩, fun h => h.2.symm⟩
  · rw [if_neg hi]
    constructor
    · intro h
      cases h
    · exact fun h => absurd h.1 hi

end Properties

section Lists

variable {β : Type} [Record β]

/-- An array of records. -/
def arrayOf (l : List β) : Value :=
  .arr (l.map toValue)

variable {l : List β} {w : Value} {s : Option Str} {v : Option Value}

@[simp]
theorem arrayOf_inj {l' : List β} : arrayOf l = arrayOf l' ↔ l = l' := by
  unfold arrayOf
  rw [Value.arr.injEq]
  exact (map_injective_iff.mpr toValue_injective).eq_iff

variable [Unicode]

/-- `_normalize` of an array of records. -/
def normalizeAll (l : List β) : Except CanonicalError (List β) :=
  collect normalized l

@[simp]
theorem normalize_arrayOf :
    normalize (arrayOf l) = .ok w ↔ ∃ l', normalizeAll l = .ok l' ∧ w = arrayOf l' := by
  unfold arrayOf normalizeAll
  rw [normalize_arr]
  constructor
  · rintro ⟨ws, hws, rfl⟩
    rcases collect_toValue.mp hws with ⟨l', hl', rfl⟩
    exact ⟨l', hl', rfl⟩
  · rintro ⟨l', hl', rfl⟩
    exact ⟨_, collect_toValue.mpr ⟨l', hl', rfl⟩, rfl⟩

@[simp]
theorem optionRel_text :
    Option.Rel (fun v v' => normalize v = .ok v') (s.map .str) v ↔ v = (s.map nfc).map .str := by
  cases s <;> cases v <;> simp

@[simp]
theorem normalize_textOrNull : normalize (textOrNull s) = .ok w ↔ w = textOrNull (s.map nfc) := by
  cases s <;> simp [textOrNull]

/-- `_normalize` of a span that may be missing. -/
def normalizeSpan : Option (Int × Int) → Except CanonicalError (Option (Int × Int))
  | none => .ok none
  | some span => do
    let startLine ← exactInteger span.1
    let endLine ← exactInteger span.2
    .ok (some (startLine, endLine))

@[simp]
theorem normalize_spanOrNull {span : Option (Int × Int)} :
    normalize (spanOrNull span) = .ok w ↔
      ∃ span', normalizeSpan span = .ok span' ∧ w = spanOrNull span' := by
  cases span with
  | none => simp [spanOrNull, normalizeSpan]
  | some span =>
    unfold spanOrNull
    rw [normalize_keyed (of_decide_eq_true rfl)]
    simp [List.forall₂_cons_left_iff, normalizeSpan, bind_eq_ok, and_assoc]
    grind

/-- `_normalize` of a mapping that may be missing. -/
def normalizeOptional : Option (List (Str × Value)) →
    Except CanonicalError (Option (List (Str × Value)))
  | none => .ok none
  | some fields => do
    let fields ← normalizeMapping fields
    .ok (some fields)

@[simp]
theorem optionRel_mapping {m : Option (List (Str × Value))} :
    Option.Rel (fun v v' => normalize v = .ok v') (m.map .obj) v ↔
      ∃ m', normalizeOptional m = .ok m' ∧ v = m'.map .obj := by
  cases m with
  | none => cases v <;> simp [normalizeOptional]
  | some fields =>
    cases v with
    | none => simp [normalizeOptional, bind_eq_ok]
    | some v => simp [normalizeOptional, bind_eq_ok, eq_comm (a := v)]

/-- Two normalized properties, of which both or none are there. -/
theorem forall₂_optional {name : String} {value : Option Value} {gs : List (Str × Value)} :
    List.Forall₂ (fun f g => g.1 = f.1 ∧ normalize f.2 = .ok g.2) (optional name value) gs ↔
      ∃ value' : Option Value, gs = optional name value' ∧
        Option.Rel (fun v v' => normalize v = .ok v') value value' := by
  cases value with
  | none =>
    rw [optional, List.forall₂_nil_left_iff]
    constructor
    · rintro rfl
      exact ⟨none, rfl, Option.Rel.none⟩
    · rintro ⟨_, rfl, h⟩
      cases h
      rfl
  | some v =>
    rw [optional, List.forall₂_cons_left_iff]
    constructor
    · rintro ⟨⟨key, v'⟩, _, ⟨rfl, hv⟩, h, rfl⟩
      rw [List.forall₂_nil_left_iff.mp h]
      exact ⟨some v', rfl, Option.Rel.some hv⟩
    · rintro ⟨_, rfl, h⟩
      cases h with
      | @some _ v' hv => exact ⟨(name.toList, v'), [], ⟨rfl, hv⟩, List.Forall₂.nil, rfl⟩

@[simp]
theorem normalize_endpoint {kind stableKey : Str} :
    normalize (endpoint kind stableKey) = .ok w ↔ w = endpoint (nfc kind) (nfc stableKey) := by
  unfold endpoint
  rw [normalize_keyed (of_decide_eq_true rfl)]
  simp [List.forall₂_cons_left_iff]

end Lists

section Preparation

variable [Unicode]

/-- An evidence mapping on its way into a record. -/
def prepareEvidence (evidence : Evidence) : Except CanonicalError EvidenceRecord :=
  canonicalEvidenceRecord evidence >>= normalized

theorem orderEvidence_eq_ok {l : List Evidence} {m : List EvidenceRecord} :
    orderEvidence l = .ok m ↔ arrange prepareEvidence EvidenceRecord.rank l = .ok m :=
  orderRecords_collect

variable {e : Evidence} {x : EvidenceRecord} {d : DerivedFrom}

theorem prepareEvidence_eq_ok :
    prepareEvidence e = .ok x ↔
      ∃ path, normalizeRepoPath e.path = .ok path ∧
        (ExactInteger e.startLine ∧ ExactInteger e.endLine) ∧
        x = { path := path
              startLine := e.startLine
              endLine := e.endLine
              granularity := nfc (granularityOrSpan e.granularity)
              extractor := nfc e.extractor
              extractorVersion := nfc e.extractorVersion } := by
  unfold prepareEvidence canonicalEvidenceRecord
  simp only [bind_eq_ok, normalized]
  constructor
  · rintro ⟨r, ⟨path, hpath, hr⟩, h⟩
    rw [← Except.ok.inj hr] at h
    by_cases hi : ExactInteger e.startLine ∧ ExactInteger e.endLine
    · rw [if_pos hi] at h
      refine ⟨path, hpath, hi, ?_⟩
      rw [← Except.ok.inj h, normalizeRepoPath_nfc hpath]
    · rw [if_neg hi] at h
      cases h
  · rintro ⟨path, hpath, hi, rfl⟩
    refine ⟨_, ⟨path, hpath, rfl⟩, ?_⟩
    rw [if_pos hi, normalizeRepoPath_nfc hpath]

/-- A record is prepared to itself, unless its path has come to look like a drive. -/
theorem prepareEvidence_again (h : prepareEvidence e = .ok x) :
    prepareEvidence x.asMapping = .ok x ↔ driveLike x.path = false := by
  rcases prepareEvidence_eq_ok.mp h with ⟨path, hpath, hi, rfl⟩
  have hagain := normalizeRepoPath_again hpath
  rw [prepareEvidence_eq_ok]
  constructor
  · rintro ⟨path', hpath', _, _⟩
    by_cases hd : driveLike path = true
    · rw [if_pos hd] at hagain
      exact absurd (hagain.symm.trans hpath') (by intro e; cases e)
    · exact Bool.eq_false_iff.mpr hd
  · intro hd
    rw [if_neg (by rw [hd]; decide)] at hagain
    refine ⟨path, hagain, hi, ?_⟩
    have hgranularity := nfc_ne_nil _ (granularityOrSpan_ne_nil e.granularity)
    simp only [EvidenceRecord.asMapping, granularityOrSpan_some hgranularity, nfc_nfc]

theorem prepareReference_eq_ok {r : Reference} (h : prepareReference r = .ok d) :
    nfc d.identity = d.identity ∧ d.identity ≠ [] := by
  rcases bind_eq_ok.mp h with ⟨record, hrecord, h⟩
  split at h
  · cases h
  · simp only at h
    split at h
    · rename_i kind _ hshape
      cases h
      refine ⟨?_, hshape.2⟩
      rcases bind_eq_ok.mp hrecord with ⟨gs, hgs, he⟩
      rcases normalizeFields_ok.mp hgs with ⟨_, hall⟩
      simp only [strField, field]
      split
      · rename_i s hs
        rcases lookup_eq_some_iff.mp hs with ⟨before, after, hrecord, _⟩
        have hmem : (kind.identityField.toList, Value.str s) ∈ record := by
          rw [hrecord]
          exact mem_append_right _ mem_cons_self
        rw [← Except.ok.inj he, (sortKeys_perm gs).mem_iff] at hmem
        rcases forall₂_mem_right hall hmem with ⟨f, hf, _, hval⟩
        rcases mem_map.mp hf with ⟨g, _, rfl⟩
        rw [normalize_text, Value.str.injEq] at hval
        rw [hval, nfc_nfc]
      · exact nfc_ascii _ (fun c hc => absurd hc not_mem_nil)
    · cases h

/-- A reference in its tagged shape is prepared to itself. -/
theorem prepareReference_asMapping (hd : nfc d.identity = d.identity) (hne : d.identity ≠ []) :
    prepareReference d.asMapping = .ok d := by
  rcases d with ⟨kind, identity⟩
  simp only at hd hne
  have hkind : nfc "kind".toList = "kind".toList := nfc_ascii _ (by decide)
  have hfield : nfc kind.identityField.toList = kind.identityField.toList := by
    refine nfc_ascii _ ?_
    cases kind <;> decide
  have hdistinct : kind.identityField.toList ≠ "kind".toList := by
    cases kind <;> decide
  have hmapping : normalizeFields [] ((DerivedFrom.asMapping ⟨kind, identity⟩).map
      (fun f => (f.1, .str f.2))) =
        .ok [("kind".toList, .str kind.name), (kind.identityField.toList, .str identity)] := by
    simp only [DerivedFrom.asMapping, map_cons, map_nil, normalizeFields, hkind, hfield,
      not_mem_nil, if_false, mem_singleton, hdistinct, normalize, ok_bind, hd,
      ReferenceKind.nfc_name]
  have hsorted : sortKeys [("kind".toList, .str kind.name),
      (kind.identityField.toList, .str identity)] =
        [("kind".toList, .str kind.name), (kind.identityField.toList, .str identity)] ∨
      sortKeys [("kind".toList, .str kind.name), (kind.identityField.toList, .str identity)] =
        [(kind.identityField.toList, .str identity), ("kind".toList, .str kind.name)] := by
    cases kind
    · exact .inl rfl
    · exact .inl rfl
    · exact .inr rfl
    · exact .inr rfl
  have hname : ReferenceKind.ofName? kind.name = some kind := by
    cases kind <;> decide
  have hne' : ("kind".toList == kind.identityField.toList) = false :=
    beq_eq_false_iff_ne.mpr hdistinct.symm
  have hne'' : (kind.identityField.toList == "kind".toList) = false :=
    beq_eq_false_iff_ne.mpr hdistinct
  unfold prepareReference normalizeMapping
  rw [hmapping, ok_bind, ok_bind]
  rcases hsorted with hsorted | hsorted
  all_goals
    rw [hsorted]
    simp only [strField, field, lookup_cons, beq_self_eq_true, hname, hne', hne'']
    rw [if_pos]
    refine ⟨fun f hf => ?_, hne⟩
    simp only [mem_cons, not_mem_nil, or_false] at hf
    rcases hf with rfl | rfl
    · first | exact .inl rfl | exact .inr rfl
    · first | exact .inl rfl | exact .inr rfl

end Preparation

end Canonical

end Partha
