import Partha.Canonical.GraphHash
import Partha.Library.Utf8

/-!
# The Evidence of Extractors

How every extractor reads a source, and which spans it can cite.

A source is decoded strictly, and a source that is not text is cited by nobody.
The lines of a text are the line feeds in it and one more, and a span has to lie
within them. A file node carries the hash of the bytes themselves.

`Cites` gathers the ways in which the extractors and the inventory come by
evidence. Whatever the extractor, the evidence is within the lines of the decoded
source, under the normalized path.

## Main definitions

* `decodeSource`: `decode_source`.
* `logicalLineCount`: `logical_line_count`.
* `buildEvidence`: `build_evidence`.
* `Cites`: The evidence there can be for a source.

## Theorems

* `Cites.within`: Evidence lies within the lines of the decoded source.
-/

namespace Partha

namespace Extraction

open Canonical Checked JsonText

/-- `ExtractedEvidence`. -/
structure ExtractedEvidence where
  path : Str
  startLine : Int
  endLine : Int
  logicalLineCount : Int
  granularity : Str
  deriving DecidableEq

/-- `ExtractedDiagnostic`, without details. -/
structure ExtractedDiagnostic where
  code : Str
  category : Str
  severity : Str
  message : Str
  path : Option Str
  span : Option (Int × Int)
  subject : Option Str
  deriving DecidableEq

/-- `logical_line_count`. -/
def logicalLineCount (text : Str) : Int :=
  1 + text.count '\n'

section Sources

variable [Unicode]

/-- The path and the subject that a diagnostic on a source names. -/
def sourceSubject (path : Str) : Option Str × Option Str :=
  match normalizeRepoPath path with
  | .error _ => (none, none)
  | .ok normalized =>
    match normalizeStableKey "file".toList ("file:".toList ++ normalized) with
    | .error _ => (none, none)
    | .ok subject => (some normalized, some subject)

/-- `decode_source`. -/
def decodeSource (path : Str) (source : List UInt8) : Except ExtractedDiagnostic Str :=
  let (normalized, subject) := sourceSubject path
  if 0 ∈ source then
    .error
      { code := "RI-SRC-BINARY".toList
        category := "binary source".toList
        severity := "info".toList
        message :=
          "file contains a NUL byte and is excluded from line-addressed extraction".toList
        path := normalized
        span := none
        subject := subject }
  else
    match Utf8.decode source with
    | some text => .ok text
    | none =>
      .error
        { code := "RI-SRC-MALFORMED".toList
          category := "malformed source".toList
          severity := "error".toList
          message := "file is not valid UTF-8 and could not be decoded".toList
          path := normalized
          span := none
          subject := subject }

/-- `build_evidence`. -/
def buildEvidence (path : Str) (startLine endLine lineCount : Int) (granularity : Str) :
    Except ExtractedDiagnostic ExtractedEvidence :=
  match normalizeRepoPath path with
  | .error _ =>
    .error
      { code := "RI-SEC-PATH-ESCAPE".toList
        category := "path escape".toList
        severity := "error".toList
        message := "evidence path is absolute or escapes the repository root".toList
        path := none
        span := none
        subject := none }
  | .ok normalized =>
    if 1 ≤ startLine ∧ startLine ≤ endLine ∧ endLine ≤ lineCount then
      .ok
        { path := normalized
          startLine := startLine
          endLine := endLine
          logicalLineCount := lineCount
          granularity := granularity }
    else
      .error
        { code := "RI-SPAN-INVALID".toList
          category := "invalid span".toList
          severity := "error".toList
          message := "span ".toList ++ decimal startLine ++ "..".toList ++ decimal endLine ++
            " is not within 1..".toList ++ decimal lineCount
          path := some normalized
          span := some (startLine, endLine)
          subject := none }

/-- `_whole_file_evidence`. -/
def wholeFileEvidence (path : Str) (source : List UInt8) : Option ExtractedEvidence :=
  match decodeSource path source with
  | .error _ => none
  | .ok text =>
    some
      { path := path
        startLine := 1
        endLine := logicalLineCount text
        logicalLineCount := logicalLineCount text
        granularity := "file".toList }

/-- `_repo_evidence`. -/
def repoEvidence (evidence : ExtractedEvidence) : ExtractedEvidence :=
  { path := evidence.path
    startLine := 1
    endLine := 1
    logicalLineCount := evidence.logicalLineCount
    granularity := "span".toList }

/-- The evidence there can be for the source that is stored under a path. -/
inductive Cites (path : Str) (source : List UInt8) : ExtractedEvidence → Prop
  /-- An extractor, under the path that it was called with. -/
  | span {raw text : Str} {startLine endLine : Int} {granularity : Str} {e : ExtractedEvidence} :
      normalizeRepoPath raw = .ok path → decodeSource raw source = .ok text →
        buildEvidence raw startLine endLine (logicalLineCount text) granularity = .ok e →
        Cites path source e
  /-- The inventory, for the file itself. -/
  | whole {raw : Str} {e : ExtractedEvidence} :
      normalizeRepoPath raw = .ok path → wholeFileEvidence path source = some e →
        Cites path source e
  /-- The inventory, for the root of the repository. -/
  | root {raw : Str} {e : ExtractedEvidence} :
      normalizeRepoPath raw = .ok path → wholeFileEvidence path source = some e →
        Cites path source (repoEvidence e)

variable {path : Str} {source : List UInt8} {e : ExtractedEvidence}

theorem decodeSource_eq_ok {text : Str} :
    decodeSource path source = .ok text ↔ 0 ∉ source ∧ source = utf8 text := by
  unfold decodeSource
  rw [← Utf8.decode_eq_some]
  by_cases hzero : 0 ∈ source
  · simp only [hzero, if_true, not_true, false_and, iff_false]
    exact fun h => by cases h
  · simp only [hzero, if_false, not_false_eq_true, true_and]
    cases hdecode : Utf8.decode source with
    | none => exact iff_of_false (fun h => by cases h) (fun h => by cases h)
    | some t => simp only [Except.ok.injEq, Option.some.injEq]

theorem buildEvidence_eq_ok {granularity : Str} {startLine endLine lineCount : Int}
    (h : buildEvidence path startLine endLine lineCount granularity = .ok e) :
    normalizeRepoPath path = .ok e.path ∧ 1 ≤ e.startLine ∧ e.startLine ≤ e.endLine ∧
      e.endLine ≤ lineCount := by
  unfold buildEvidence at h
  cases hnorm : normalizeRepoPath path with
  | error err =>
    simp only [hnorm] at h
    cases h
  | ok normalized =>
    simp only [hnorm] at h
    split at h
    · rename_i hspan
      cases h
      exact ⟨rfl, hspan⟩
    · cases h

omit [Unicode] in
theorem one_le_logicalLineCount (text : Str) : 1 ≤ logicalLineCount text := by
  unfold logicalLineCount
  omega

theorem wholeFileEvidence_eq_some (h : wholeFileEvidence path source = some e) :
    ∃ text, decodeSource path source = .ok text ∧ e.path = path ∧ e.startLine = 1 ∧
      e.endLine = logicalLineCount text := by
  unfold wholeFileEvidence at h
  cases hdecode : decodeSource path source with
  | error d =>
    simp only [hdecode] at h
    cases h
  | ok text =>
    simp only [hdecode, Option.some.injEq] at h
    rw [← h]
    exact ⟨text, rfl, rfl, rfl, rfl⟩

/-- Evidence is under the path of its source, which is normalized, and lies within
    the lines of the decoded source. -/
theorem Cites.within (h : Cites path source e) :
    (∃ raw, normalizeRepoPath raw = .ok path) ∧ e.path = path ∧
      ∃ text, 0 ∉ source ∧ source = utf8 text ∧ 1 ≤ e.startLine ∧ e.startLine ≤ e.endLine ∧
        e.endLine ≤ logicalLineCount text := by
  cases h with
  | span hpath hdecode hbuild =>
    rename_i raw text startLine endLine granularity
    rcases buildEvidence_eq_ok hbuild with ⟨hnorm, hspan⟩
    rcases decodeSource_eq_ok.mp hdecode with ⟨hzero, hsource⟩
    refine ⟨⟨raw, hpath⟩, ?_, text, hzero, hsource, hspan⟩
    rw [hpath] at hnorm
    exact (Except.ok.inj hnorm).symm
  | whole hpath hwhole =>
    rename_i raw
    rcases wholeFileEvidence_eq_some hwhole with ⟨text, hdecode, hname, hstart, hend⟩
    rcases decodeSource_eq_ok.mp hdecode with ⟨hzero, hsource⟩
    refine ⟨⟨raw, hpath⟩, hname, text, hzero, hsource, ?_⟩
    have hone := one_le_logicalLineCount text
    omega
  | root hpath hwhole =>
    rename_i raw f
    rcases wholeFileEvidence_eq_some hwhole with ⟨text, hdecode, hname, _, _⟩
    rcases decodeSource_eq_ok.mp hdecode with ⟨hzero, hsource⟩
    refine ⟨⟨raw, hpath⟩, hname, text, hzero, hsource, le_rfl, le_rfl, ?_⟩
    exact one_le_logicalLineCount text

end Sources

section Files

variable [Hashing]

/-- The property of a file node that binds it to the bytes of the file. -/
def contentProperty (source : List UInt8) : List (Str × Value) :=
  [("content_sha256".toList, .str (sha256Prefixed source))]

end Files

end Extraction

end Partha
