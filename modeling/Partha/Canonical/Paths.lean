import Partha.Canonical.Value

/-!
# Paths and Stable Keys

`normalize_repo_path` makes a path relative to the root of the repository: it
folds backslashes into slashes, drops empty and `.` segments, and resolves `..`
against what came before. A path that is absolute or leaves the root is an
error.

What comes out is a normal form in every respect but one. Its segments are
plain, it is in Unicode normal form, and it resolves to itself. But the test
for a Windows drive is made on the spelling that came in, and dropping a
leading `.` segment can bring a drive to the front: `./C:x` is accepted and
becomes `C:x`, which is not. `normalizeRepoPath_again` says that this is the
only way in which a normalized path is refused.

Stable keys put a path behind the prefix of their kind and inherit the gap.

## Main definitions

* `normalizeRepoPath`: `normalize_repo_path`.
* `normalizeStableKey`: `normalize_stable_key`.
* `Plain`: A segment that resolution leaves alone.

## Theorems

* `normalizeRepoPath_plain`: A normalized path is made of plain segments.
* `normalizeRepoPath_nfc`: It is in Unicode normal form.
* `normalizeRepoPath_again`: It is normalized to itself or is like a drive.
-/

namespace Partha

namespace Canonical

open Checked List

section Definitions

/-- `str.split` at a single character. -/
def splitOn (c : Char) : Str → List Str
  | [] => [[]]
  | d :: s =>
    if d = c then [] :: splitOn c s
    else match splitOn c s with
      | [] => [[d]]
      | segment :: segments => (d :: segment) :: segments

/-- `str.join` with a single character. -/
def joinWith (c : Char) : List Str → Str
  | [] => []
  | [s] => s
  | s :: t :: rest => s ++ c :: joinWith c (t :: rest)

/-- `PurePosixPath(path).parts`, of a path that is not absolute. -/
def pathParts (path : Str) : List Str :=
  (splitOn '/' path).filter (fun part => part ≠ [] ∧ part ≠ ['.'])

/-- The segments of a path resolved against those before, last one first. -/
def resolve : List Str → List Str → Except CanonicalError (List Str)
  | resolved, [] => .ok resolved
  | resolved, segment :: segments =>
    if segment = [] ∨ segment = ['.'] then resolve resolved segments
    else if segment = ['.', '.'] then
      match resolved with
      | [] => .error (.pathEscape "path escapes the repository root")
      | _ :: resolved => resolve resolved segments
    else resolve (segment :: resolved) segments

/-- `path.replace("\\", "/")`. -/
def foldBackslashes (s : Str) : Str :=
  s.map (fun c => if c = '\\' then '/' else c)

/-- `str.startswith` together with what follows the prefix. -/
def stripPrefix (start s : Str) : Option Str :=
  if start <+: s then some (s.drop start.length) else none

/-- `key.split("::", 1)`, or nothing if there is no `::`. -/
def splitDouble : Str → Option (Str × Str)
  | [] => none
  | c :: s =>
    if c = ':' ∧ s.head? = some ':' then some ([], s.tail)
    else (splitDouble s).map (fun p => (c :: p.1, p.2))

/-- `"://" in s`. -/
def hasScheme : Str → Bool
  | [] => false
  | c :: s => [':', '/', '/'].isPrefixOf (c :: s) || hasScheme s

/-- A lowercase snake case token, as `_TOKEN_RE` has it. -/
def isToken : Str → Bool
  | [] => false
  | c :: s => c.isLower && s.all (fun d => d.isLower || d.isDigit || d = '_')

variable [Unicode]

/-- A Windows drive prefix. -/
def driveLike : Str → Bool
  | c :: d :: _ => d = ':' && isAlpha c
  | _ => false

/-- `normalize_repo_path`. -/
def normalizeRepoPath (raw : Str) : Except CanonicalError Str :=
  if driveLike (nfc raw) then .error (.pathEscape "absolute path is not repository-relative")
  else if (foldBackslashes (nfc raw)).head? = some '/' then
    .error (.pathEscape "absolute path is not repository-relative")
  else do
    let resolved ← resolve [] (splitOn '/' (foldBackslashes (nfc raw)))
    .ok (joinWith '/' resolved.reverse)

/-- The form of a stable key that its kind asks for. -/
def normalizeKindKey (kind key : Str) : Except CanonicalError Str :=
  if kind = "repository".toList then
    if key ≠ "repo:root".toList then
      .error (.canonicalization "the repository stable key must be 'repo:root'")
    else .ok key
  else if kind = "module".toList then
    match stripPrefix "mod:".toList key with
    | none => .error (.canonicalization "module stable keys must start with 'mod:'")
    | some raw => do
      let path ← normalizeRepoPath raw
      .ok ("mod:".toList ++ path)
  else if kind = "file".toList then
    match stripPrefix "file:".toList key with
    | none => .error (.canonicalization "file stable keys must start with 'file:'")
    | some raw => do
      let path ← normalizeRepoPath raw
      if path = [] then
        .error (.canonicalization "file stable keys require a repository-relative path")
      else .ok ("file:".toList ++ path)
  else if kind = "symbol".toList then
    match splitDouble key with
    | none => .error (.canonicalization "symbol stable keys require '<path>::<qualified-name>'")
    | some (raw, qualifiedName) => do
      let path ← normalizeRepoPath raw
      if path = [] ∨ qualifiedName = [] then
        .error (.canonicalization "symbol stable keys require a path and qualified name")
      else .ok (path ++ ':' :: ':' :: qualifiedName)
  else if kind = "dependency".toList then
    if stripPrefix "dep:".toList key = none ∨ key.count ':' < 2 then
      .error (.canonicalization "dependency stable keys require 'dep:<ecosystem>:<name>'")
    else .ok key
  else if kind = "service".toList then
    if (stripPrefix "svc:".toList key).any hasScheme then .ok key
    else .error (.canonicalization
      "service stable keys require 'svc:<scheme>://<host>[:<port>]'")
  else if kind = "iac_resource".toList then
    match (stripPrefix "iac:".toList key).bind splitDouble with
    | none => .error (.canonicalization
      "iac_resource stable keys require 'iac:<manifest-path>::<type>/<name>'")
    | some (raw, qualified) => do
      let path ← normalizeRepoPath raw
      if path = [] ∨ '/' ∉ qualified then .error (.canonicalization
        "iac_resource stable keys require a manifest path and '<type>/<name>'")
      else .ok ("iac:".toList ++ path ++ ':' :: ':' :: qualified)
  else .ok key

/-- `normalize_stable_key`. -/
def normalizeStableKey (nodeKind stableKey : Str) : Except CanonicalError Str :=
  if isToken (nfc nodeKind) = false ∨ nfc stableKey = [] then
    .error (.canonicalization "node kind and stable key must be non-empty canonical tokens")
  else if (nfc stableKey).any (fun c => c.toNat < 0x20) then
    .error (.canonicalization "stable keys cannot contain control characters")
  else normalizeKindKey (nfc nodeKind) (nfc stableKey)

/-- `validate_predicate`. -/
def validatePredicate (predicate : Str) : Except CanonicalError Str :=
  if isToken (nfc predicate) then .ok (nfc predicate)
  else .error (.canonicalization "predicates must be lowercase snake_case tokens")

end Definitions

section Splitting

variable {c d : Char} {s part : Str} {parts : List Str}

theorem splitOn_free (h : c ∉ s) : splitOn c s = [s] := by
  induction s with
  | nil => rfl
  | cons d s ih =>
    have hd : d ≠ c := fun e => h (by rw [e]; exact mem_cons_self)
    rw [splitOn, if_neg hd, ih (fun hmem => h (mem_cons_of_mem d hmem))]

theorem splitOn_append {t : Str} (h : c ∉ s) : splitOn c (s ++ c :: t) = s :: splitOn c t := by
  induction s with
  | nil => rw [nil_append, splitOn, if_pos rfl]
  | cons d s ih =>
    have hd : d ≠ c := fun e => h (by rw [e]; exact mem_cons_self)
    rw [cons_append, splitOn, if_neg hd, ih (fun hmem => h (mem_cons_of_mem d hmem))]

/-- Splitting undoes joining, if no part has the separator and there is one. -/
theorem splitOn_joinWith (h : ∀ s ∈ parts, c ∉ s) (hne : parts ≠ []) :
    splitOn c (joinWith c parts) = parts := by
  induction parts with
  | nil => exact absurd rfl hne
  | cons s parts ih =>
    cases parts with
    | nil => exact splitOn_free (h s mem_cons_self)
    | cons t parts =>
      rw [joinWith, splitOn_append (h s mem_cons_self),
        ih (fun u hu => h u (mem_cons_of_mem s hu)) (cons_ne_nil t parts)]

theorem mem_splitOn (h : part ∈ splitOn c s) (hd : d ∈ part) : d ∈ s := by
  induction s generalizing part with
  | nil =>
    rw [splitOn, mem_singleton] at h
    rw [h] at hd
    cases hd
  | cons e s ih =>
    unfold splitOn at h
    split at h
    · rcases mem_cons.mp h with rfl | h
      · cases hd
      · exact mem_cons_of_mem e (ih h hd)
    · split at h
      · rw [mem_singleton] at h
        rw [h, mem_singleton] at hd
        rw [hd]
        exact mem_cons_self
      · rename_i segment segments hs
        rcases mem_cons.mp h with rfl | h
        · rcases mem_cons.mp hd with rfl | hd
          · exact mem_cons_self
          · exact mem_cons_of_mem e (ih (by rw [hs]; exact mem_cons_self) hd)
        · exact mem_cons_of_mem e (ih (by rw [hs]; exact mem_cons_of_mem _ h) hd)

theorem mem_joinWith (h : d ∈ joinWith c parts) : d = c ∨ ∃ s ∈ parts, d ∈ s := by
  induction parts with
  | nil => cases h
  | cons s parts ih =>
    cases parts with
    | nil => exact .inr ⟨s, mem_cons_self, h⟩
    | cons t parts =>
      rw [joinWith, mem_append, mem_cons] at h
      rcases h with h | h | h
      · exact .inr ⟨s, mem_cons_self, h⟩
      · exact .inl h
      · rcases ih h with h | ⟨u, hu, h⟩
        · exact .inl h
        · exact .inr ⟨u, mem_cons_of_mem s hu, h⟩

/-- A text without the separator, or the part before the first one. -/
theorem split_first (p : Char → Bool) (s : Str) :
    (∀ c ∈ s, p c = false) ∨ ∃ t c u, s = t ++ c :: u ∧ (∀ d ∈ t, p d = false) ∧ p c = true := by
  induction s with
  | nil => exact .inl (fun c hc => absurd hc not_mem_nil)
  | cons d s ih =>
    by_cases hd : p d = true
    · exact .inr ⟨[], d, s, rfl, fun c hc => absurd hc not_mem_nil, hd⟩
    · have hd := Bool.eq_false_iff.mpr hd
      rcases ih with h | ⟨t, c, u, rfl, ht, hc⟩
      · refine .inl (fun c hc => ?_)
        rcases mem_cons.mp hc with rfl | hc
        · exact hd
        · exact h c hc
      · refine .inr ⟨d :: t, c, u, rfl, fun e he => ?_, hc⟩
        rcases mem_cons.mp he with rfl | he
        · exact hd
        · exact ht e he

theorem splitOn_ne_nil (c : Char) (s : Str) : splitOn c s ≠ [] := by
  cases s with
  | nil => exact cons_ne_nil _ _
  | cons d s =>
    rw [splitOn]
    split
    · exact cons_ne_nil _ _
    · split
      · exact cons_ne_nil _ _
      · exact cons_ne_nil _ _

theorem joinWith_splitOn (c : Char) (s : Str) : joinWith c (splitOn c s) = s := by
  induction s with
  | nil => rfl
  | cons d s ih =>
    have hne := splitOn_ne_nil c s
    rw [splitOn]
    cases hs : splitOn c s with
    | nil => exact absurd hs hne
    | cons t rest =>
      rw [hs] at ih
      split
      · rename_i hd
        rw [joinWith, nil_append, ih, hd]
      · cases rest with
        | nil => rw [← ih]; rfl
        | cons u rest => rw [← ih]; rfl

theorem not_mem_part (h : part ∈ splitOn c s) : c ∉ part := by
  induction s generalizing part with
  | nil =>
    rw [splitOn, mem_singleton] at h
    rw [h]
    exact not_mem_nil
  | cons d s ih =>
    rw [splitOn] at h
    split at h
    · rcases mem_cons.mp h with rfl | h
      · exact not_mem_nil
      · exact ih h
    · rename_i hd
      have hne : c ≠ d := fun e => hd e.symm
      cases hs : splitOn c s with
      | nil => exact absurd hs (splitOn_ne_nil c s)
      | cons t rest =>
        simp only [hs] at h
        rcases mem_cons.mp h with rfl | h
        · intro hmem
          rcases mem_cons.mp hmem with e | hmem
          · exact hne e
          · exact ih (by rw [hs]; exact mem_cons_self) hmem
        · exact ih (by rw [hs]; exact mem_cons_of_mem t h)

/-- Splitting what goes on after joined parts. -/
theorem splitOn_joined (h : ∀ s ∈ parts, c ∉ s) (hne : parts ≠ []) (t : Str) :
    splitOn c (joinWith c parts ++ c :: t) = parts ++ splitOn c t := by
  induction parts with
  | nil => exact absurd rfl hne
  | cons s parts ih =>
    have hs := h s mem_cons_self
    cases parts with
    | nil => exact splitOn_append hs
    | cons u parts =>
      have hrest := ih (fun v hv => h v (mem_cons_of_mem s hv)) (cons_ne_nil u parts)
      rw [joinWith, append_assoc, cons_append, splitOn_append hs, hrest]
      rfl

theorem joinWith_concat (hne : parts ≠ []) (s : Str) :
    joinWith c (parts ++ [s]) = joinWith c parts ++ c :: s := by
  induction parts with
  | nil => exact absurd rfl hne
  | cons t parts ih =>
    cases parts with
    | nil => rfl
    | cons u parts =>
      have hrest := ih (cons_ne_nil u parts)
      rw [cons_append, cons_append, joinWith, ← cons_append, hrest, joinWith,
        append_assoc, cons_append]

theorem length_splitOn (c : Char) (s : Str) : (splitOn c s).length = s.count c + 1 := by
  induction s with
  | nil => rfl
  | cons d s ih =>
    by_cases hd : d = c
    · rw [splitOn, if_pos hd, length_cons, ih, hd, count_cons_self]
    · rw [splitOn, if_neg hd, count_cons_of_ne hd, ← ih]
      cases hs : splitOn c s with
      | nil =>
        rw [hs, length_nil] at ih
        omega
      | cons segment segments => rfl

end Splitting

section Segments

/-- A segment that resolution keeps as it is. -/
structure Plain (s : Str) : Prop where
  nonempty : s ≠ []
  noDot : s ≠ ['.']
  noDots : s ≠ ['.', '.']

variable {resolved segments : List Str} {s : Str} {c : Char}

/-- Resolution keeps some of the segments, all of them plain. -/
theorem resolve_mem {result : List Str} (h : resolve resolved segments = .ok result)
    (hs : s ∈ result) : s ∈ resolved ∨ s ∈ segments ∧ Plain s := by
  induction segments generalizing resolved with
  | nil =>
    rw [resolve] at h
    rw [Except.ok.inj h]
    exact .inl hs
  | cons t segments ih =>
    have hlater : s ∈ segments ∧ Plain s → s ∈ t :: segments ∧ Plain s := fun hp =>
      ⟨mem_cons_of_mem t hp.1, hp.2⟩
    unfold resolve at h
    by_cases hskip : t = [] ∨ t = ['.']
    · rw [if_pos hskip] at h
      exact (ih h).imp_right hlater
    · rw [if_neg hskip] at h
      by_cases hup : t = ['.', '.']
      · rw [if_pos hup] at h
        cases resolved with
        | nil => cases h
        | cons u resolved =>
          rcases ih h with hr | hp
          · exact .inl (mem_cons_of_mem u hr)
          · exact .inr (hlater hp)
      · rw [if_neg hup] at h
        rcases ih h with hr | hp
        · rcases mem_cons.mp hr with rfl | hr
          · rw [not_or] at hskip
            exact .inr ⟨mem_cons_self, hskip.1, hskip.2, hup⟩
          · exact .inl hr
        · exact .inr (hlater hp)

theorem resolve_plain (h : ∀ s ∈ segments, Plain s) :
    resolve resolved segments = .ok (segments.reverse ++ resolved) := by
  induction segments generalizing resolved with
  | nil => rfl
  | cons t segments ih =>
    have ht := h t mem_cons_self
    unfold resolve
    rw [if_neg (not_or.mpr ⟨ht.nonempty, ht.noDot⟩), if_neg ht.noDots,
      ih (fun s hs => h s (mem_cons_of_mem t hs)), reverse_cons, append_assoc]
    rfl

theorem mem_foldBackslashes (h : c ∈ foldBackslashes s) : c = '/' ∨ c ∈ s ∧ c ≠ '\\' := by
  rcases mem_map.mp h with ⟨d, hd, rfl⟩
  by_cases hb : d = '\\'
  · rw [if_pos hb]
    exact .inl rfl
  · rw [if_neg hb]
    exact .inr ⟨hd, hb⟩

theorem foldBackslashes_self (h : '\\' ∉ s) : foldBackslashes s = s := by
  refine (map_congr_left (fun c hc => ?_)).trans (map_id s)
  exact if_neg (fun e => h (by rw [← e]; exact hc))

variable [Unicode]

/-- The parts of a normalized text around a separator are normalized. -/
theorem nfc_parts {t : Str} (hc : c ∈ separators) (hs : c ∉ s)
    (h : nfc (s ++ c :: t) = s ++ c :: t) :
    nfc s = s ∧ nfc t = t := by
  rw [nfc_append s t c hc] at h
  have hs' : c ∉ nfc s := fun hmem => hs ((mem_nfc s c hc).mp hmem)
  have hsplit : splitOn c (nfc s ++ c :: nfc t) = splitOn c (s ++ c :: t) := by rw [h]
  rw [splitOn_append hs', splitOn_append hs, List.cons.injEq] at hsplit
  refine ⟨hsplit.1, ?_⟩
  rw [hsplit.1] at h
  exact (List.cons.inj (append_cancel_left h)).2

theorem nfc_joinWith (hc : c ∈ separators) {parts : List Str} (h : ∀ s ∈ parts, nfc s = s) :
    nfc (joinWith c parts) = joinWith c parts := by
  induction parts with
  | nil => exact nfc_ascii [] (fun d hd => absurd hd not_mem_nil)
  | cons s parts ih =>
    have hs := h s mem_cons_self
    cases parts with
    | nil => exact hs
    | cons t parts =>
      have ht := ih (fun u hu => h u (mem_cons_of_mem s hu))
      rw [joinWith, nfc_append s _ c hc, hs, ht]

/-- The segments of a normalized text are normalized, at either kind of slash. -/
theorem nfc_segments (h : nfc s = s) :
    ∀ t ∈ splitOn '/' (foldBackslashes s), nfc t = t ∧ '/' ∉ t ∧ '\\' ∉ t := by
  induction hn : s.length using Nat.strong_induction_on generalizing s with
  | _ n ih =>
    rcases split_first (fun c => c = '/' || c = '\\') s with hfree | ⟨t, c, u, rfl, ht, hc⟩
    · have hslash : '/' ∉ s := fun hmem => absurd (hfree _ hmem) (by decide)
      have hback : '\\' ∉ s := fun hmem => absurd (hfree _ hmem) (by decide)
      intro t htmem
      rw [foldBackslashes_self hback, splitOn_free hslash, mem_singleton] at htmem
      rw [htmem]
      exact ⟨h, hslash, hback⟩
    · have hslash : '/' ∉ t := fun hmem => absurd (ht _ hmem) (by decide)
      have hback : '\\' ∉ t := fun hmem => absurd (ht _ hmem) (by decide)
      have hc : c = '/' ∨ c = '\\' := by simpa using hc
      have hfold : foldBackslashes (t ++ c :: u) = t ++ '/' :: foldBackslashes u := by
        unfold foldBackslashes
        rw [map_append, map_cons]
        have hself := foldBackslashes_self hback
        unfold foldBackslashes at hself
        rw [hself]
        rcases hc with rfl | rfl
        · rfl
        · rfl
      have hparts : nfc t = t ∧ nfc u = u := by
        rcases hc with rfl | rfl
        · exact nfc_parts (by decide) hslash h
        · exact nfc_parts (by decide) hback h
      have hlen : u.length < n := by
        rw [← hn, length_append, length_cons]
        omega
      intro v hv
      rw [hfold, splitOn_append hslash] at hv
      rcases mem_cons.mp hv with rfl | hv
      · exact ⟨hparts.1, hslash, hback⟩
      · exact ih u.length hlen hparts.2 rfl v hv

end Segments

section Paths

variable [Unicode]

/-- What is known of a path that `normalize_repo_path` has returned. -/
structure RepoPath (p : Str) (segments : List Str) : Prop where
  joined : p = joinWith '/' segments
  plain : ∀ s ∈ segments, Plain s
  fixed : ∀ s ∈ segments, nfc s = s ∧ '/' ∉ s ∧ '\\' ∉ s

variable {raw p : Str} {segments : List Str}

theorem normalizeRepoPath_plain (h : normalizeRepoPath raw = .ok p) :
    ∃ segments, RepoPath p segments ∧
      ∀ s ∈ segments, s ∈ splitOn '/' (foldBackslashes (nfc raw)) := by
  unfold normalizeRepoPath at h
  split at h
  · cases h
  split at h
  · cases h
  rcases bind_eq_ok.mp h with ⟨resolved, hresolve, hp⟩
  have hmem : ∀ s ∈ resolved.reverse, s ∈ splitOn '/' (foldBackslashes (nfc raw)) ∧ Plain s := by
    intro s hs
    rcases resolve_mem hresolve (mem_reverse.mp hs) with hs | hs
    · cases hs
    · exact hs
  exact ⟨resolved.reverse, ⟨(Except.ok.inj hp).symm, fun s hs => (hmem s hs).2,
    fun s hs => nfc_segments (nfc_nfc raw) s (hmem s hs).1⟩, fun s hs => (hmem s hs).1⟩

theorem RepoPath.nfc_eq (h : RepoPath p segments) : nfc p = p := by
  rw [h.joined]
  exact nfc_joinWith (by decide) (fun s hs => (h.fixed s hs).1)

theorem RepoPath.not_backslash (h : RepoPath p segments) : '\\' ∉ p := by
  intro hmem
  rw [h.joined] at hmem
  rcases mem_joinWith hmem with he | ⟨s, hs, he⟩
  · exact absurd he (by decide)
  · exact (h.fixed s hs).2.2 he

theorem RepoPath.head_ne (h : RepoPath p segments) : p.head? ≠ some '/' := by
  rw [h.joined]
  cases segments with
  | nil => exact fun e => by cases e
  | cons s segments =>
    have hne := (h.plain s mem_cons_self).nonempty
    have hslash := (h.fixed s mem_cons_self).2.1
    cases s with
    | nil => exact absurd rfl hne
    | cons c s =>
      have hhead : (joinWith '/' ((c :: s) :: segments)).head? = some c := by
        cases segments with
        | nil => rfl
        | cons t segments => rfl
      rw [hhead]
      intro e
      rw [Option.some.inj e] at hslash
      exact hslash mem_cons_self

theorem RepoPath.resolve_self (h : RepoPath p segments) :
    resolve [] (splitOn '/' p) = .ok segments.reverse := by
  by_cases hne : segments = []
  · rw [h.joined, hne]
    rfl
  · rw [h.joined, splitOn_joinWith (fun s hs => (h.fixed s hs).2.1) hne, resolve_plain h.plain,
      append_nil]

/-- A path in normal form is normalized to itself, unless it looks like a drive. -/
theorem RepoPath.normalize (h : RepoPath p segments) :
    normalizeRepoPath p =
      if driveLike p then .error (.pathEscape "absolute path is not repository-relative")
      else .ok p := by
  unfold normalizeRepoPath
  rw [h.nfc_eq, foldBackslashes_self h.not_backslash, if_neg h.head_ne, h.resolve_self]
  split
  · rfl
  · refine congrArg Except.ok ?_
    rw [reverse_reverse, ← h.joined]

/-- A normalized path is normalized to itself, unless it looks like a drive. -/
theorem normalizeRepoPath_again (h : normalizeRepoPath raw = .ok p) :
    normalizeRepoPath p =
      if driveLike p then .error (.pathEscape "absolute path is not repository-relative")
      else .ok p := by
  rcases normalizeRepoPath_plain h with ⟨segments, hp, _⟩
  exact hp.normalize

theorem normalizeRepoPath_nfc (h : normalizeRepoPath raw = .ok p) : nfc p = p := by
  rcases normalizeRepoPath_plain h with ⟨segments, hp, _⟩
  exact hp.nfc_eq

/-- Apart from slashes, a normalized path has only characters that came in. -/
theorem normalizeRepoPath_mem (h : normalizeRepoPath raw = .ok p) {c : Char} (hc : c ∈ p) :
    c = '/' ∨ c ∈ nfc raw := by
  rcases normalizeRepoPath_plain h with ⟨segments, hp, hfrom⟩
  rw [hp.joined] at hc
  rcases mem_joinWith hc with hc | ⟨s, hs, hc⟩
  · exact .inl hc
  · rcases mem_foldBackslashes (mem_splitOn (hfrom s hs) hc) with hc | hc
    · exact .inl hc
    · exact .inr hc.1

end Paths

end Canonical

end Partha
