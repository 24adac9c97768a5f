import Mathlib.Data.List.Chain
import Partha.Canonical.StableKeys

/-!
# Normalizing Once More

When what `normalize_repo_path` and `normalize_stable_key` return is returned again for itself.

A path denotes a location below the root: the names that are walked along. Two spellings of one
location are normalized to one path, which is the names joined. The path is a fixed point unless
its first name looks like a drive, since that is asked of a spelling before anything else, and
`./C:x` has a spelling that does not.

A key with a path goes the same way. In the keys of symbols and of resources the path is cut off
again at the first `::`. If the path ends with a colon, that is one character too early, and the
names that are read again are those without it.

## Main definitions

* `Denotes`: The location of a spelling.
* `PathProjected`, `KeyProjected`: What is returned is normal, and returned for itself.
* `PathStable`, `KeyStable`: The names have no drive in front, and are names if read again.

## Theorems

* `normalizeRepoPath_iff`: The path of a location.
* `normalizeStableKey_iff`: The key around a path.
* `normalize_projects`: When normalization is a projection, and that spellings of one location
  agree.
-/

namespace Partha

namespace Canonical

open Checked List

section Definitions

/-- Walking along the segments of a path, from one location to another. -/
inductive Walk : List Str → List Str → List Str → Prop
  | done (location : List Str) : Walk location [] location
  | stay {location segments target : List Str} {s : Str} : s = [] ∨ s = ['.'] →
      Walk location segments target → Walk location (s :: segments) target
  | up {location segments target : List Str} {name : Str} :
      Walk location segments target → Walk (location ++ [name]) (['.', '.'] :: segments) target
  | down {location segments target : List Str} {s : Str} : Plain s →
      Walk (location ++ [s]) segments target → Walk location (s :: segments) target

/-- The names of a path, of which the root has none. -/
def names (p : Str) : List Str :=
  if p = [] then [] else splitOn '/' p

/-- The names of a path that is read again up to the first `::`. -/
def cutNames (location : List Str) : List Str :=
  match location.getLast? with
  | some name => if name.getLast? = some ':' then location.dropLast ++ [name.dropLast] else location
  | none => location

/-- A kind whose keys have a `::` after the path. -/
def cutKind (kind : Str) : Bool :=
  kind = "symbol".toList || kind = "iac_resource".toList

/-- The names of the path of a key when it is read again. -/
def namesAgain (kind : Str) (location : List Str) : List Str :=
  if cutKind kind then cutNames location else location

/-- What is before the path of a key, the path, and what is after it. -/
def keyParts (kind key : Str) : Option (Str × Str × Str) :=
  if kind = "module".toList then
    (stripPrefix "mod:".toList key).map (fun raw => ("mod:".toList, raw, []))
  else if kind = "file".toList then
    (stripPrefix "file:".toList key).map (fun raw => ("file:".toList, raw, []))
  else if kind = "symbol".toList then
    (splitDouble key).bind (fun p => if p.2 = [] then none else some ([], p.1, ':' :: ':' :: p.2))
  else if kind = "iac_resource".toList then
    ((stripPrefix "iac:".toList key).bind splitDouble).bind
      (fun p => if '/' ∈ p.2 then some ("iac:".toList, p.1, ':' :: ':' :: p.2) else none)
  else none

variable [Unicode]

/-- A spelling that is refused as absolute. -/
def Absolute (raw : Str) : Prop :=
  driveLike (nfc raw) = true ∨ (foldBackslashes (nfc raw)).head? = some '/'

/-- A spelling of a location below the root. -/
def Denotes (raw : Str) (location : List Str) : Prop :=
  ¬ Absolute raw ∧ Walk [] (splitOn '/' (foldBackslashes (nfc raw))) location

/-- A location whose path has a drive in front. -/
def startsWithDrive : List Str → Bool
  | [] => false
  | name :: _ => driveLike name

/-- What is returned for a path is normal, and returned for itself. -/
def PathProjected (raw : Str) : Prop :=
  ∀ p, normalizeRepoPath raw = .ok p →
    (∀ s ∈ names p, Plain s) ∧ '\\' ∉ p ∧ p.head? ≠ some '/' ∧ normalizeRepoPath p = .ok p

/-- What is returned for a key is returned for itself. -/
def KeyProjected (kind key : Str) : Prop :=
  ∀ k, normalizeStableKey kind key = .ok k → normalizeStableKey kind k = .ok k

/-- Spellings of one location are normalized to one path. -/
def SameLocation (raw raw' : Str) : Prop :=
  ∀ location, Denotes raw location → Denotes raw' location →
    ∃ p, normalizeRepoPath raw = .ok p ∧ normalizeRepoPath raw' = .ok p

/-- The location of a spelling, if any, has no drive in front. -/
def PathStable (raw : Str) : Prop :=
  ∀ location, Denotes raw location → startsWithDrive location = false

/-- The names of the path in a key, if any, are names with no drive in front if read again. -/
def KeyStable (kind key : Str) : Prop :=
  (∀ c ∈ nfc key, 0x20 ≤ c.toNat) → ∀ before raw after location,
    keyParts (nfc kind) (nfc key) = some (before, raw, after) → Denotes raw location →
    (∀ s ∈ namesAgain (nfc kind) location, Plain s) ∧
      startsWithDrive (namesAgain (nfc kind) location) = false

end Definitions

section Locations

variable {location : List Str} {raw p : Str}

theorem walk_iff {segments target : List Str} :
    Walk location segments target ↔ resolve location.reverse segments = .ok target.reverse := by
  constructor
  · intro h
    induction h with
    | done location => rfl
    | stay hs _ ih =>
      unfold resolve
      rw [if_pos hs]
      exact ih
    | up _ ih =>
      rw [reverse_append]
      exact ih
    | down hs _ ih =>
      rw [reverse_append] at ih
      unfold resolve
      rw [if_neg (not_or.mpr ⟨hs.nonempty, hs.noDot⟩), if_neg hs.noDots]
      exact ih
  · intro h
    induction segments generalizing location with
    | nil =>
      rw [resolve, Except.ok.injEq, reverse_inj] at h
      rw [h]
      exact Walk.done target
    | cons s segments ih =>
      unfold resolve at h
      by_cases hskip : s = [] ∨ s = ['.']
      · rw [if_pos hskip] at h
        exact Walk.stay hskip (ih h)
      · rw [if_neg hskip] at h
        rw [not_or] at hskip
        -- one step up needs a location to leave: the stack of the code is the location reversed
        by_cases hup : s = ['.', '.']
        · rw [if_pos hup] at h
          rw [hup]
          cases hlocation : location.reverse with
          | nil =>
            rw [hlocation] at h
            cases h
          | cons name rest =>
            rw [hlocation] at h
            have hback : location = rest.reverse ++ [name] := by
              rw [← reverse_reverse location, hlocation, reverse_cons]
            rw [hback]
            exact Walk.up (ih (by rw [reverse_reverse]; exact h))
        · rw [if_neg hup] at h
          refine Walk.down ⟨hskip.1, hskip.2, hup⟩ (ih ?_)
          rw [reverse_append]
          exact h

variable [Unicode]

/-- The path of a location. -/
theorem normalizeRepoPath_iff :
    normalizeRepoPath raw = .ok p ↔
      ∃ location, Denotes raw location ∧ p = joinWith '/' location := by
  rw [normalizeRepoPath]
  by_cases hdrive : driveLike (nfc raw) = true
  · rw [if_pos hdrive]
    exact iff_of_false (fun h => by cases h) (fun h => h.choose_spec.1.1 (.inl hdrive))
  rw [if_neg hdrive]
  by_cases hslash : (foldBackslashes (nfc raw)).head? = some '/'
  · rw [if_pos hslash]
    exact iff_of_false (fun h => by cases h) (fun h => h.choose_spec.1.1 (.inr hslash))
  rw [if_neg hslash, bind_eq_ok]
  constructor
  · rintro ⟨resolved, hresolve, hp⟩
    refine ⟨resolved.reverse, ⟨not_or.mpr ⟨hdrive, hslash⟩, walk_iff.mpr ?_⟩,
      (Except.ok.inj hp).symm⟩
    rw [reverse_reverse]
    exact hresolve
  · rintro ⟨location, hdenotes, rfl⟩
    exact ⟨location.reverse, walk_iff.mp hdenotes.2, by rw [reverse_reverse]⟩

/-- The names of a location are those of its path, and some of those of its spellings. -/
theorem Denotes.repoPath (h : Denotes raw location) :
    RepoPath (joinWith '/' location) location ∧
      ∀ s ∈ location, s ∈ splitOn '/' (foldBackslashes (nfc raw)) := by
  have hmem : ∀ s ∈ location, s ∈ splitOn '/' (foldBackslashes (nfc raw)) ∧ Plain s := by
    intro s hs
    rcases resolve_mem (walk_iff.mp h.2) (mem_reverse.mpr hs) with hs | hs
    · cases hs
    · exact hs
  exact ⟨⟨rfl, fun s hs => (hmem s hs).2, fun s hs => nfc_segments (nfc_nfc raw) s (hmem s hs).1⟩,
    fun s hs => (hmem s hs).1⟩

theorem driveLike_joinWith (h : ∀ s ∈ location, s ≠ []) :
    driveLike (joinWith '/' location) = startsWithDrive location := by
  cases location with
  | nil => rfl
  | cons name rest =>
    have hne := h name mem_cons_self
    cases rest with
    | nil => rfl
    | cons name' rest =>
      cases name with
      | nil => exact absurd rfl hne
      | cons c name =>
        cases name with
        | nil => rfl
        | cons d name => rfl

theorem RepoPath.names_eq (h : RepoPath p location) : names p = location := by
  cases location with
  | nil => rw [h.joined]; rfl
  | cons name rest =>
    have hne : p ≠ [] := by
      intro hp
      have hname := (h.plain name mem_cons_self).nonempty
      cases rest with
      | nil => exact hname (h.joined.symm.trans hp)
      | cons name' rest =>
        rw [hp] at h
        exact absurd h.joined.symm (append_ne_nil_of_left_ne_nil hname _)
    rw [names, if_neg hne, h.joined,
      splitOn_joinWith (fun s hs => (h.fixed s hs).2.1) (cons_ne_nil name rest)]

/-- Paths are projected iff the location has no drive in front. -/
theorem pathProjected_iff (raw : Str) : PathProjected raw ↔ PathStable raw := by
  constructor
  · intro h location hdenotes
    have hrepo := hdenotes.repoPath.1
    have hagain := (h _ (normalizeRepoPath_iff.mpr ⟨location, hdenotes, rfl⟩)).2.2.2
    rw [hrepo.normalize] at hagain
    rw [← driveLike_joinWith (fun s hs => (hrepo.plain s hs).nonempty)]
    by_contra hdrive
    rw [Bool.not_eq_false] at hdrive
    rw [if_pos hdrive] at hagain
    cases hagain
  · intro h p hp
    rcases normalizeRepoPath_iff.mp hp with ⟨location, hdenotes, rfl⟩
    have hrepo := hdenotes.repoPath.1
    have hdrive : driveLike (joinWith '/' location) = false := by
      rw [driveLike_joinWith (fun s hs => (hrepo.plain s hs).nonempty)]
      exact h location hdenotes
    refine ⟨?_, hrepo.not_backslash, hrepo.head_ne, ?_⟩
    · rw [hrepo.names_eq]
      exact hrepo.plain
    · rw [hrepo.normalize, hdrive]
      rfl

/-- The walk along the segments of a path has one end. -/
theorem sameLocation (raw raw' : Str) : SameLocation raw raw' :=
  fun location h h' => ⟨joinWith '/' location, normalizeRepoPath_iff.mpr ⟨location, h, rfl⟩,
    normalizeRepoPath_iff.mpr ⟨location, h', rfl⟩⟩

end Locations

section Doubles

/-- No two colons stand next to each other. -/
def Apart (s : Str) : Prop :=
  s.IsChain (fun c d => ¬ (c = ':' ∧ d = ':'))

variable {s : Str} {c : Char} {parts : List Str}

theorem apart_of_splitDouble {a b : Str} (h : splitDouble s = some (a, b)) : Apart a := by
  induction s generalizing a with
  | nil => cases h
  | cons c s ih =>
    rw [splitDouble] at h
    by_cases hc : c = ':' ∧ s.head? = some ':'
    · rw [if_pos hc, Option.some.injEq] at h
      rw [← (Prod.mk.inj h).1]
      exact List.IsChain.nil
    · rw [if_neg hc] at h
      rcases Option.map_eq_some_iff.mp h with ⟨⟨a', b'⟩, hsplit, heq⟩
      have hparts := splitDouble_parts hsplit
      rcases Prod.mk.inj heq with ⟨rfl, rfl⟩
      cases a' with
      | nil => exact List.IsChain.singleton c
      | cons d a' =>
        refine isChain_cons_cons.mpr ⟨fun hcd => hc ⟨hcd.1, ?_⟩, ih hsplit⟩
        rw [hparts, hcd.2]
        rfl

/-- Such a text is cut off again where it ends, unless that is a colon. -/
theorem splitDouble_apart {p : Str} (h : Apart p) (hlast : p.getLast? ≠ some ':') (q : Str) :
    splitDouble (p ++ ':' :: ':' :: q) = some (p, q) := by
  induction p with
  | nil => rfl
  | cons c p ih =>
    have hnot : ¬ (c = ':' ∧ (p ++ ':' :: ':' :: q).head? = some ':') := by
      rintro ⟨hc, hhead⟩
      cases p with
      | nil =>
        rw [hc] at hlast
        exact hlast rfl
      | cons d p => exact (isChain_cons_cons.mp h).1 ⟨hc, Option.some.inj hhead⟩
    have htail : Apart p := by
      cases p with
      | nil => exact List.IsChain.nil
      | cons d p => exact (isChain_cons_cons.mp h).2
    have hlast' : p.getLast? ≠ some ':' := by
      cases p with
      | nil => exact fun h => by cases h
      | cons d p =>
        rw [List.getLast?_cons_cons] at hlast
        exact hlast
    rw [cons_append, splitDouble, if_neg hnot, ih htail hlast']
    rfl

theorem apart_foldBackslashes (h : Apart s) : Apart (foldBackslashes s) := by
  have hcolon : ∀ c : Char, (if c = '\\' then '/' else c) = ':' → c = ':' := by
    intro c hc
    by_cases hb : c = '\\'
    · rw [if_pos hb] at hc
      exact absurd hc (by decide)
    · rw [if_neg hb] at hc
      exact hc
  exact (isChain_map _).mpr (List.IsChain.imp
    (fun c d hcd hboth => hcd ⟨hcolon c hboth.1, hcolon d hboth.2⟩) h)

theorem infix_joinWith (h : s ∈ parts) : s <:+: joinWith c parts := by
  induction parts with
  | nil => cases h
  | cons t parts ih =>
    cases parts with
    | nil =>
      rw [mem_singleton.mp h]
      exact ⟨[], [], append_nil _⟩
    | cons u parts =>
      rw [joinWith]
      rcases mem_cons.mp h with rfl | h
      · exact ⟨[], c :: joinWith c (u :: parts), rfl⟩
      · rcases ih h with ⟨before, after, hparts⟩
        refine ⟨t ++ c :: before, after, ?_⟩
        rw [← hparts]
        simp

/-- Neither do the segments of a text, nor what they are joined to. -/
theorem apart_splitOn {t : Str} (h : Apart t) (hs : s ∈ splitOn c t) : Apart s := by
  rw [← joinWith_splitOn c t] at h
  exact List.IsChain.infix h (infix_joinWith hs)

theorem apart_joinWith (h : ∀ s ∈ parts, Apart s) : Apart (joinWith '/' parts) := by
  induction parts with
  | nil => exact List.IsChain.nil
  | cons s parts ih =>
    have hs := h s mem_cons_self
    cases parts with
    | nil => exact hs
    | cons t parts =>
      have hrest := ih (fun u hu => h u (mem_cons_of_mem s hu))
      rw [joinWith]
      refine List.IsChain.append hs (isChain_cons.mpr ⟨fun d _ hcd => ?_, hrest⟩)
        (fun c _ d hd hcd => ?_)
      · exact absurd hcd.1 (by decide)
      · rw [← Option.some.inj hd] at hcd
        exact absurd hcd.2 (by decide)

end Doubles

section Cuts

theorem joinWith_last (c : Char) (first : List Str) (s t : Str) :
    joinWith c (first ++ [s ++ t]) = joinWith c (first ++ [s]) ++ t := by
  cases first with
  | nil => rfl
  | cons u first =>
    rw [joinWith_concat (cons_ne_nil u first), joinWith_concat (cons_ne_nil u first),
      append_assoc, cons_append]

theorem cutNames_concat (first : List Str) (name : Str) :
    cutNames (first ++ [name]) =
      if name.getLast? = some ':' then first ++ [name.dropLast] else first ++ [name] := by
  rw [cutNames, List.getLast?_concat]
  simp

variable {location : List Str}

/-- Where a path is cut off again. -/
theorem splitDouble_cut (h : Apart (joinWith '/' location)) (hne : ∀ s ∈ location, s ≠ [])
    (q : Str) :
    ∃ colon, splitDouble (joinWith '/' location ++ ':' :: ':' :: q) =
      some (joinWith '/' (cutNames location), colon ++ q) := by
  rcases eq_nil_or_concat location with rfl | ⟨first, name, rfl⟩
  · exact ⟨[], rfl⟩
  · rw [concat_eq_append] at h hne ⊢
    rw [cutNames_concat]
    by_cases hcolon : name.getLast? = some ':'
    · rcases List.getLast?_eq_some_iff.mp hcolon with ⟨t, rfl⟩
      rw [if_pos hcolon, dropLast_concat, joinWith_last] at *
      refine ⟨[':'], ?_⟩
      have hsplit := isChain_append.mp h
      rw [append_assoc]
      exact splitDouble_apart hsplit.1 (fun hlast => hsplit.2.2 ':' hlast ':' rfl ⟨rfl, rfl⟩)
        (':' :: q)
    · rw [if_neg hcolon]
      refine ⟨[], splitDouble_apart h (fun hlast => hcolon ?_) q⟩
      have hname : name ≠ [] := hne name (mem_append_right _ (mem_singleton_self name))
      have hjoin : joinWith '/' (first ++ [name]) = joinWith '/' (first ++ [[]]) ++ name :=
        joinWith_last '/' first [] name
      rw [hjoin, List.getLast?_append_of_ne_nil _ hname] at hlast
      exact hlast

theorem namesAgain_nil_iff (kind : Str) (location : List Str) :
    namesAgain kind location = [] ↔ location = [] := by
  rw [namesAgain]
  split
  · rcases eq_nil_or_concat location with rfl | ⟨first, name, rfl⟩
    · rfl
    · rw [concat_eq_append, cutNames_concat]
      split
      · exact iff_of_false (append_ne_nil_of_right_ne_nil _ (cons_ne_nil _ _))
          (append_ne_nil_of_right_ne_nil _ (cons_ne_nil _ _))
      · rfl
  · rfl

variable [Unicode]

theorem cutNames_fixed (h : ∀ s ∈ location, nfc s = s ∧ '/' ∉ s ∧ '\\' ∉ s) :
    ∀ s ∈ cutNames location, nfc s = s ∧ '/' ∉ s ∧ '\\' ∉ s := by
  rcases eq_nil_or_concat location with rfl | ⟨first, name, rfl⟩
  · exact fun s hs => absurd hs not_mem_nil
  · rw [concat_eq_append] at h ⊢
    rw [cutNames_concat]
    by_cases hcolon : name.getLast? = some ':'
    · rcases List.getLast?_eq_some_iff.mp hcolon with ⟨t, rfl⟩
      rw [if_pos hcolon, dropLast_concat]
      intro s hs
      rcases mem_append.mp hs with hs | hs
      · exact h s (mem_append_left _ hs)
      · rw [mem_singleton.mp hs]
        have hname := h (t ++ [':']) (mem_append_right _ (mem_singleton_self _))
        exact ⟨nfc_before (by decide) hname.1, fun hmem => hname.2.1 (mem_append_left _ hmem),
          fun hmem => hname.2.2 (mem_append_left _ hmem)⟩
    · rw [if_neg hcolon]
      exact h

/-- When names are those of a path that is normalized to itself. -/
theorem normalize_names_iff (hne : location ≠ [])
    (h : ∀ s ∈ location, nfc s = s ∧ '/' ∉ s ∧ '\\' ∉ s) :
    (normalizeRepoPath (joinWith '/' location) = .ok (joinWith '/' location) ∧
      joinWith '/' location ≠ []) ↔
      (∀ s ∈ location, Plain s) ∧ startsWithDrive location = false := by
  constructor
  · rintro ⟨hfixed, hpath⟩
    rcases normalizeRepoPath_plain hfixed with ⟨segments, hrepo, -⟩
    have hsame : segments = location := by
      rw [← hrepo.names_eq, names, if_neg hpath, splitOn_joinWith (fun s hs => (h s hs).2.1) hne]
    rw [hsame] at hrepo
    refine ⟨hrepo.plain, ?_⟩
    rw [← driveLike_joinWith (fun s hs => (hrepo.plain s hs).nonempty)]
    by_contra hdrive
    rw [Bool.not_eq_false] at hdrive
    rw [hrepo.normalize, if_pos hdrive] at hfixed
    cases hfixed
  · rintro ⟨hplain, hdrive⟩
    have hrepo : RepoPath (joinWith '/' location) location := ⟨rfl, hplain, h⟩
    rw [← driveLike_joinWith (fun s hs => (hplain s hs).nonempty)] at hdrive
    refine ⟨by rw [hrepo.normalize, hdrive]; rfl, fun hpath => hne ?_⟩
    rw [← hrepo.names_eq, names, if_pos hpath]

end Cuts

section Keys

variable {before key raw kind after k : Str} {location : List Str}

theorem stripPrefix_iff : stripPrefix before key = some raw ↔ key = before ++ raw := by
  rw [stripPrefix]
  constructor
  · intro h
    split at h
    · rename_i hstart
      rcases hstart with ⟨t, rfl⟩
      rw [drop_left, Option.some.injEq] at h
      rw [h]
    · cases h
  · rintro rfl
    rw [if_pos (prefix_append _ _), drop_left]

/-- The kinds whose keys have a path, and how the parts of the key are found. -/
theorem keyParts_cases (h : keyParts kind key = some (before, raw, after)) :
    (kind = "module".toList ∧ stripPrefix "mod:".toList key = some raw ∧
      before = "mod:".toList ∧ after = []) ∨
    (kind = "file".toList ∧ stripPrefix "file:".toList key = some raw ∧
      before = "file:".toList ∧ after = []) ∨
    (kind = "symbol".toList ∧ before = [] ∧ ∃ q, splitDouble key = some (raw, q) ∧ q ≠ [] ∧
      after = ':' :: ':' :: q) ∨
    (kind = "iac_resource".toList ∧ before = "iac:".toList ∧ ∃ rest q,
      stripPrefix "iac:".toList key = some rest ∧ splitDouble rest = some (raw, q) ∧ '/' ∈ q ∧
      after = ':' :: ':' :: q) := by
  rw [keyParts] at h
  split at h
  · rcases Option.map_eq_some_iff.mp h with ⟨raw', hstrip, hparts⟩
    simp only [Prod.mk.injEq] at hparts
    rcases hparts with ⟨rfl, rfl, rfl⟩
    exact .inl ⟨‹_›, hstrip, rfl, rfl⟩
  split at h
  · rcases Option.map_eq_some_iff.mp h with ⟨raw', hstrip, hparts⟩
    simp only [Prod.mk.injEq] at hparts
    rcases hparts with ⟨rfl, rfl, rfl⟩
    exact .inr (.inl ⟨‹_›, hstrip, rfl, rfl⟩)
  split at h
  · rcases Option.bind_eq_some_iff.mp h with ⟨⟨raw', q⟩, hsplit, hparts⟩
    split at hparts
    · cases hparts
    · rename_i hq
      simp only [Option.some.injEq, Prod.mk.injEq] at hparts
      rcases hparts with ⟨rfl, rfl, rfl⟩
      exact .inr (.inr (.inl ⟨‹_›, rfl, q, hsplit, hq, rfl⟩))
  split at h
  · rcases Option.bind_eq_some_iff.mp h with ⟨⟨raw', q⟩, hbind, hparts⟩
    rcases Option.bind_eq_some_iff.mp hbind with ⟨rest, hstrip, hsplit⟩
    split at hparts
    · rename_i hq
      simp only [Option.some.injEq, Prod.mk.injEq] at hparts
      rcases hparts with ⟨rfl, rfl, rfl⟩
      exact .inr (.inr (.inr ⟨‹_›, rfl, rest, q, hstrip, hsplit, hq, rfl⟩))
    · cases hparts
  · cases h

/-- A key with a path is its parts, which stand at colons. -/
theorem keyParts_whole (h : keyParts kind key = some (before, raw, after)) :
    key = before ++ raw ++ after ∧ before ++ after ≠ [] ∧
      (before = [] ∨ ∃ t, before = t ++ [':']) ∧ (after = [] ∨ ∃ t, after = ':' :: t) := by
  rcases keyParts_cases h with ⟨rfl, hstrip, rfl, rfl⟩ | ⟨rfl, hstrip, rfl, rfl⟩ |
    ⟨rfl, rfl, q, hsplit, hq, rfl⟩ | ⟨rfl, rfl, rest, q, hstrip, hsplit, hq, rfl⟩
  · refine ⟨?_, by decide, .inr ⟨"mod".toList, rfl⟩, .inl rfl⟩
    rw [append_nil]
    exact stripPrefix_iff.mp hstrip
  · refine ⟨?_, by decide, .inr ⟨"file".toList, rfl⟩, .inl rfl⟩
    rw [append_nil]
    exact stripPrefix_iff.mp hstrip
  · exact ⟨splitDouble_parts hsplit, cons_ne_nil _ _, .inl rfl, .inr ⟨_, rfl⟩⟩
  · refine ⟨?_, append_ne_nil_of_left_ne_nil (by decide) _, .inr ⟨"iac".toList, rfl⟩,
      .inr ⟨_, rfl⟩⟩
    rw [stripPrefix_iff.mp hstrip, splitDouble_parts hsplit, append_assoc]

theorem keyParts_token (h : keyParts kind key = some (before, raw, after)) :
    isToken kind = true := by
  rcases keyParts_cases h with ⟨rfl, -⟩ | ⟨rfl, -⟩ | ⟨rfl, -⟩ | ⟨rfl, -⟩
  · decide
  · decide
  · decide
  · decide

/-- A result that is refused in one case. -/
theorem ite_error_iff {ε α : Type} {c : Prop} [Decidable c] {e : ε} {a b : α} :
    (if c then .error e else .ok a : Except ε α) = .ok b ↔ ¬ c ∧ b = a := by
  by_cases h : c
  · rw [if_pos h]
    exact iff_of_false (fun h => by cases h) (fun hc => hc.1 h)
  · rw [if_neg h, Except.ok.injEq]
    exact ⟨fun hb => ⟨h, hb.symm⟩, fun hb => hb.2.symm⟩

variable [Unicode]

/-- The key around a path. -/
theorem normalizeKindKey_iff (h : keyParts kind key = some (before, raw, after)) :
    normalizeKindKey kind key = .ok k ↔ ∃ p, normalizeRepoPath raw = .ok p ∧
      (p = [] → kind = "module".toList) ∧ k = before ++ p ++ after := by
  rcases keyParts_cases h with ⟨rfl, hstrip, rfl, rfl⟩ | ⟨rfl, hstrip, rfl, rfl⟩ |
    ⟨rfl, rfl, q, hsplit, hq, rfl⟩ | ⟨rfl, rfl, rest, q, hstrip, hsplit, hq, rfl⟩
  · rw [normalizeKindKey, if_neg (by decide), if_pos rfl, hstrip]
    refine bind_eq_ok.trans (exists_congr (fun p => and_congr_right (fun _ => ?_)))
    rw [Except.ok.injEq, append_nil]
    exact ⟨fun hk => ⟨fun _ => rfl, hk.symm⟩, fun hk => hk.2.symm⟩
  · rw [normalizeKindKey, if_neg (by decide), if_neg (by decide), if_pos rfl, hstrip]
    refine bind_eq_ok.trans (exists_congr (fun p => and_congr_right (fun _ => ?_)))
    rw [ite_error_iff, append_nil]
    exact and_congr_left (fun _ =>
      ⟨fun hp hnil => absurd hnil hp, fun hp hnil => absurd (hp hnil) (by decide)⟩)
  · rw [normalizeKindKey, if_neg (by decide), if_neg (by decide), if_neg (by decide), if_pos rfl,
      hsplit]
    refine bind_eq_ok.trans (exists_congr (fun p => and_congr_right (fun _ => ?_)))
    rw [ite_error_iff]
    refine and_congr_left (fun _ => ⟨fun hp hnil => absurd (.inl hnil) hp, ?_⟩)
    rintro hp (hnil | hnil)
    · exact absurd (hp hnil) (by decide)
    · exact hq hnil
  · have hbind : (stripPrefix "iac:".toList key).bind splitDouble = some (raw, q) := by
      rw [hstrip]
      exact hsplit
    rw [normalizeKindKey, if_neg (by decide), if_neg (by decide), if_neg (by decide),
      if_neg (by decide), if_neg (by decide), if_neg (by decide), if_pos rfl, hbind]
    refine bind_eq_ok.trans (exists_congr (fun p => and_congr_right (fun _ => ?_)))
    rw [ite_error_iff]
    refine and_congr ⟨fun hp hnil => absurd (.inl hnil) hp, ?_⟩ Iff.rfl
    rintro hp (hnil | hslash)
    · exact absurd (hp hnil) (by decide)
    · exact hslash hq

/-- A key without a path is kept as it is. -/
theorem normalizeKindKey_none (h : keyParts kind key = none)
    (hk : normalizeKindKey kind key = .ok k) : k = key := by
  rw [normalizeKindKey] at hk
  rw [keyParts] at h
  -- the kinds in the order of the source: an accepted key that holds a path has parts
  split at hk
  · exact (ite_error_iff.mp hk).2
  split at hk
  · rename_i hkind
    rw [if_pos hkind, Option.map_eq_none_iff] at h
    rw [h] at hk
    cases hk
  rename_i hmodule
  rw [if_neg hmodule] at h
  split at hk
  · rename_i hkind
    rw [if_pos hkind, Option.map_eq_none_iff] at h
    rw [h] at hk
    cases hk
  rename_i hfile
  rw [if_neg hfile] at h
  split at hk
  · rename_i hkind
    rw [if_pos hkind] at h
    -- a symbol's key: what is not empty behind the double colon gives the parts
    cases hsplit : splitDouble key with
    | none =>
      rw [hsplit] at hk
      cases hk
    | some p =>
      rw [hsplit] at h hk
      rcases bind_eq_ok.mp hk with ⟨path, -, hpath⟩
      have hq := (ite_error_iff.mp hpath).1
      rw [Option.bind_some, if_neg (fun hq' => hq (.inr hq'))] at h
      cases h
  rename_i hsymbol
  rw [if_neg hsymbol] at h
  split at hk
  · exact (ite_error_iff.mp hk).2
  split at hk
  · split at hk
    · exact (Except.ok.inj hk).symm
    · cases hk
  split at hk
  · rename_i hkind
    rw [if_pos hkind] at h
    -- the same for a resource of an infrastructure file, behind its prefix
    cases hsplit : (stripPrefix "iac:".toList key).bind splitDouble with
    | none =>
      rw [hsplit] at hk
      cases hk
    | some p =>
      rw [hsplit] at h hk
      rcases bind_eq_ok.mp hk with ⟨path, -, hpath⟩
      have hq := (ite_error_iff.mp hpath).1
      rw [Option.bind_some, if_pos (by_contra (fun hq' => hq (.inr hq')))] at h
      cases h
  · exact (Except.ok.inj hk).symm

/-- The key that is made of one that has no control characters. -/
theorem normalizeStableKey_iff :
    normalizeStableKey kind key = .ok k ↔ (isToken (nfc kind) = true ∧ nfc key ≠ []) ∧
      (∀ c ∈ nfc key, 0x20 ≤ c.toNat) ∧ normalizeKindKey (nfc kind) (nfc key) = .ok k := by
  rw [normalizeStableKey]
  by_cases htoken : isToken (nfc kind) = false ∨ nfc key = []
  · rw [if_pos htoken]
    refine iff_of_false (fun h => by cases h) (fun h => ?_)
    rcases htoken with htoken | hkey
    · exact absurd h.1.1 (by rw [htoken]; exact Bool.false_ne_true)
    · exact h.1.2 hkey
  rw [if_neg htoken]
  rw [not_or, Bool.not_eq_false] at htoken
  by_cases hcontrol : (nfc key).any (fun c => c.toNat < 0x20) = true
  · rw [if_pos hcontrol]
    rcases any_eq_true.mp hcontrol with ⟨c, hc, hlow⟩
    exact iff_of_false (fun h => by cases h)
      (fun h => absurd (of_decide_eq_true hlow) (Nat.not_lt.mpr (h.2.1 c hc)))
  · rw [if_neg hcontrol]
    have hfree : ∀ c ∈ nfc key, 0x20 ≤ c.toNat := fun c hc => Nat.not_lt.mp (fun hlow =>
      hcontrol (any_eq_true.mpr ⟨c, hc, decide_eq_true hlow⟩))
    exact ⟨fun h => ⟨htoken, hfree, h⟩, fun h => h.2.2⟩

/-- Another path in the place of one in a normalized text. -/
theorem nfc_around (hbefore : before = [] ∨ ∃ t, before = t ++ [':'])
    (hafter : after = [] ∨ ∃ t, after = ':' :: t)
    (h : nfc (before ++ raw ++ after) = before ++ raw ++ after) :
    nfc raw = raw ∧ ∀ p, nfc p = p → nfc (before ++ p ++ after) = before ++ p ++ after := by
  have hcolon : ':' ∈ separators := by decide
  have hend : nfc (raw ++ after) = raw ++ after → nfc raw = raw ∧
      ∀ p, nfc p = p → nfc (p ++ after) = p ++ after := by
    intro hrest
    rcases hafter with rfl | ⟨t, rfl⟩
    · rw [append_nil] at hrest
      exact ⟨hrest, fun p hp => by rw [append_nil, hp]⟩
    · have ht := nfc_after hcolon hrest
      exact ⟨nfc_before hcolon hrest, fun p hp => by rw [nfc_append p t _ hcolon, hp, ht]⟩
  rcases hbefore with rfl | ⟨t, rfl⟩
  · exact hend h
  · have hsplit : ∀ p : Str, t ++ [':'] ++ p ++ after = t ++ ':' :: (p ++ after) := by
      intro p
      simp
    rw [hsplit] at h
    have ht := nfc_before hcolon h
    rcases hend (nfc_after hcolon h) with ⟨hraw, hrest⟩
    refine ⟨hraw, fun p hp => ?_⟩
    rw [hsplit, nfc_append t _ _ hcolon, ht, hrest p hp]

/-- The parts of a key when it is read again. -/
theorem keyParts_again (h : keyParts kind key = some (before, raw, after)) (hraw : nfc raw = raw)
    (hdenotes : Denotes raw location) :
    ∃ after', keyParts kind (before ++ joinWith '/' location ++ after) =
        some (before, joinWith '/' (namesAgain kind location), after') ∧
      joinWith '/' (namesAgain kind location) ++ after' = joinWith '/' location ++ after := by
  rcases hdenotes.repoPath with ⟨hrepo, hfrom⟩
  have hne : ∀ s ∈ location, s ≠ [] := fun s hs => (hrepo.plain s hs).nonempty
  have hcut : ∀ {text q : Str}, splitDouble text = some (raw, q) → ∃ colon,
      splitDouble (joinWith '/' location ++ ':' :: ':' :: q) =
        some (joinWith '/' (cutNames location), colon ++ q) := by
    intro text q hsplit
    refine splitDouble_cut (apart_joinWith (fun s hs => ?_)) hne q
    have hs := hfrom s hs
    rw [hraw] at hs
    exact apart_splitOn (apart_foldBackslashes (apart_of_splitDouble hsplit)) hs
  rcases keyParts_cases h with ⟨rfl, hstrip, rfl, rfl⟩ | ⟨rfl, hstrip, rfl, rfl⟩ |
    ⟨rfl, rfl, q, hsplit, hq, rfl⟩ | ⟨rfl, rfl, rest, q, hstrip, hsplit, hq, rfl⟩
  · refine ⟨[], ?_, rfl⟩
    rw [keyParts, if_pos rfl, append_nil, stripPrefix_iff.mpr rfl]
    rfl
  · refine ⟨[], ?_, rfl⟩
    rw [keyParts, if_neg (by decide), if_pos rfl, append_nil, stripPrefix_iff.mpr rfl]
    rfl
  · rcases hcut hsplit with ⟨colon, hagain⟩
    refine ⟨':' :: ':' :: (colon ++ q), ?_, (splitDouble_parts hagain).symm⟩
    rw [keyParts, if_neg (by decide), if_neg (by decide), if_pos rfl, nil_append, hagain,
      Option.bind_some, if_neg (append_ne_nil_of_right_ne_nil colon hq)]
    rfl
  · rcases hcut hsplit with ⟨colon, hagain⟩
    refine ⟨':' :: ':' :: (colon ++ q), ?_, (splitDouble_parts hagain).symm⟩
    rw [keyParts, if_neg (by decide), if_neg (by decide), if_neg (by decide), if_pos rfl,
      append_assoc, stripPrefix_iff.mpr rfl, Option.bind_some, hagain, Option.bind_some,
      if_pos (mem_append_right colon hq)]
    rfl

/-- When the path of a key is read again as it is. -/
theorem namesAgain_iff (hdenotes : Denotes raw location) (hne : location ≠ []) :
    (normalizeRepoPath (joinWith '/' (namesAgain kind location)) =
        .ok (joinWith '/' (namesAgain kind location)) ∧
      (joinWith '/' (namesAgain kind location) = [] → kind = "module".toList)) ↔
    (∀ s ∈ namesAgain kind location, Plain s) ∧
      startsWithDrive (namesAgain kind location) = false := by
  have hrepo := hdenotes.repoPath.1
  have hagain : namesAgain kind location ≠ [] :=
    fun h => hne ((namesAgain_nil_iff kind location).mp h)
  have hfixed : ∀ s ∈ namesAgain kind location, nfc s = s ∧ '/' ∉ s ∧ '\\' ∉ s := by
    rw [namesAgain]
    split
    · exact cutNames_fixed hrepo.fixed
    · exact hrepo.fixed
  rw [← normalize_names_iff hagain hfixed]
  refine and_congr_right (fun _ => ⟨fun h hpath => ?_, fun h hpath => absurd hpath h⟩)
  -- A module has the path it had, which is not that of the root.
  rw [namesAgain, h hpath, if_neg (by decide)] at hpath
  have hnames := hrepo.names_eq
  rw [hpath] at hnames
  exact hne hnames.symm

/-- The key that is made of a key with a path, when the path has been read. -/
theorem normalizeStableKey_location (h : keyParts (nfc kind) (nfc key) = some (before, raw, after))
    (hcontrol : ∀ c ∈ nfc key, 0x20 ≤ c.toNat) (hdenotes : Denotes raw location)
    (hroot : location = [] → nfc kind = "module".toList) :
    normalizeStableKey kind key = .ok (before ++ joinWith '/' location ++ after) ∧
      (normalizeStableKey kind (before ++ joinWith '/' location ++ after) =
          .ok (before ++ joinWith '/' location ++ after) ↔
        (∀ s ∈ namesAgain (nfc kind) location, Plain s) ∧
          startsWithDrive (namesAgain (nfc kind) location) = false) := by
  have hrepo := hdenotes.repoPath.1
  have hpath := normalizeRepoPath_iff.mpr ⟨location, hdenotes, rfl⟩
  rcases keyParts_whole h with ⟨hwhole, hends, hbefore, hafter⟩
  -- The path stands between characters that no normalization crosses.
  have hnfc := nfc_nfc key
  rw [hwhole] at hnfc
  rcases nfc_around hbefore hafter hnfc with ⟨hraw, hother⟩
  have hempty : joinWith '/' location = [] → location = [] := by
    intro hnil
    have hnames := hrepo.names_eq
    rw [hnil] at hnames
    exact hnames.symm
  have hne : before ++ joinWith '/' location ++ after ≠ [] := by
    intro hnil
    rcases append_eq_nil_iff.mp hnil with ⟨hstart, hafter'⟩
    rw [(append_eq_nil_iff.mp hstart).1, hafter'] at hends
    exact hends rfl
  have hne' : nfc key ≠ [] := by
    intro hnil
    rw [hwhole] at hnil
    rcases append_eq_nil_iff.mp hnil with ⟨hstart, hafter'⟩
    rw [(append_eq_nil_iff.mp hstart).1, hafter'] at hends
    exact hends rfl
  -- The new key has no character that the old one has not, but for the separators.
  have hcontrol' : ∀ c ∈ before ++ joinWith '/' location ++ after, 0x20 ≤ c.toNat := by
    intro c hc
    rcases mem_append.mp hc with hc | hc
    · rcases mem_append.mp hc with hc | hc
      · exact hcontrol c (by rw [hwhole]; exact mem_append_left _ (mem_append_left _ hc))
      · rcases normalizeRepoPath_mem hpath hc with rfl | hc
        · decide
        · rw [hraw] at hc
          exact hcontrol c (by
            rw [hwhole]
            exact mem_append_left _ (mem_append_right _ hc))
    · exact hcontrol c (by rw [hwhole]; exact mem_append_right _ hc)
  have htoken := keyParts_token h
  refine ⟨normalizeStableKey_iff.mpr ⟨⟨htoken, hne'⟩, hcontrol, (normalizeKindKey_iff h).mpr
    ⟨_, hpath, fun hnil => hroot (hempty hnil), rfl⟩⟩, ?_⟩
  -- The new key is cut elsewhere if its path has the separator of a symbol.
  rcases keyParts_again h hraw hdenotes with ⟨after', hagain, hsame⟩
  rw [normalizeStableKey_iff, hother _ hrepo.nfc_eq, and_iff_right ⟨htoken, hne⟩,
    and_iff_right hcontrol', normalizeKindKey_iff hagain]
  have hcut : (∃ p, normalizeRepoPath (joinWith '/' (namesAgain (nfc kind) location)) = .ok p ∧
      (p = [] → nfc kind = "module".toList) ∧
      before ++ joinWith '/' location ++ after = before ++ p ++ after') ↔
      normalizeRepoPath (joinWith '/' (namesAgain (nfc kind) location)) =
        .ok (joinWith '/' (namesAgain (nfc kind) location)) ∧
      (joinWith '/' (namesAgain (nfc kind) location) = [] → nfc kind = "module".toList) := by
    rw [append_assoc, ← hsame, ← append_assoc]
    constructor
    · rintro ⟨p, hp, hnil, heq⟩
      have hpath' := append_cancel_left (append_cancel_right heq)
      rw [← hpath'] at hp hnil
      exact ⟨hp, hnil⟩
    · rintro ⟨hp, hnil⟩
      exact ⟨_, hp, hnil, rfl⟩
  rw [hcut]
  by_cases hlocation : location = []
  · rw [(namesAgain_nil_iff (nfc kind) location).mpr hlocation]
    refine iff_of_true ⟨?_, fun _ => hroot hlocation⟩
      ⟨fun s hs => absurd hs not_mem_nil, rfl⟩
    exact (RepoPath.normalize ⟨rfl, fun s hs => absurd hs not_mem_nil,
      fun s hs => absurd hs not_mem_nil⟩)
  · exact namesAgain_iff hdenotes hlocation

/-- Keys are projected iff the names of their path, if any, are names when read again. -/
theorem keyProjected_iff (kind key : Str) : KeyProjected kind key ↔ KeyStable kind key := by
  constructor
  · intro h hcontrol before raw after location hparts hdenotes
    by_cases hroot : location = [] → nfc kind = "module".toList
    · have hkey := normalizeStableKey_location hparts hcontrol hdenotes hroot
      exact hkey.2.mp (h _ hkey.1)
    · rw [Classical.not_imp] at hroot
      rw [(namesAgain_nil_iff (nfc kind) location).mpr hroot.1]
      exact ⟨fun s hs => absurd hs not_mem_nil, rfl⟩
  · intro h k hk
    rcases normalizeStableKey_iff.mp hk with ⟨⟨htoken, hne⟩, hcontrol, hkind⟩
    cases hparts : keyParts (nfc kind) (nfc key) with
    | none =>
      have hsame := normalizeKindKey_none hparts hkind
      rw [hsame] at hkind ⊢
      rw [normalizeStableKey_iff, nfc_nfc]
      exact ⟨⟨htoken, hne⟩, hcontrol, hkind⟩
    | some parts =>
      rcases parts with ⟨before, raw, after⟩
      rcases (normalizeKindKey_iff hparts).mp hkind with ⟨p, hp, hnil, rfl⟩
      rcases normalizeRepoPath_iff.mp hp with ⟨location, hdenotes, rfl⟩
      have hkey := normalizeStableKey_location hparts hcontrol hdenotes
        (fun hroot => hnil (by rw [hroot]; rfl))
      exact hkey.2.mpr (h hcontrol before raw after location hparts hdenotes)

/-- What is returned for a path or a key is returned for itself iff the names of the location are
    still those of a path when they are read again, and spellings of one location agree. -/
theorem normalize_projects (raw raw' kind key : Str) :
    (PathProjected raw ↔ PathStable raw) ∧ (KeyProjected kind key ↔ KeyStable kind key) ∧
      SameLocation raw raw' :=
  ⟨pathProjected_iff raw, keyProjected_iff kind key, sameLocation raw raw'⟩

end Keys

/-- A drive behind a dot is accepted, but not once more. -/
theorem normalize_not_projected :
    ¬ ((∀ raw, @PathProjected asciiText raw) ∧ (∀ kind key, @KeyProjected asciiText kind key) ∧
      ∀ raw raw', @SameLocation asciiText raw raw') := by
  intro h
  have hagain := (h.1 "./C:x".toList "C:x".toList (by decide)).2.2.2
  exact absurd hagain (by decide)

end Canonical

end Partha
