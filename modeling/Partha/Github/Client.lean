import Mathlib.Tactic.ByContra
import Partha.Egress.Urls

/-!
# GitHub URLs

`GitHubClient.validate_public_url`, and the key that a live import looks its lineage
up by.

The URL of a repository is normalised before it is stored: trailing slashes are
removed, then one `.git`. The pattern that is matched afterwards still allows a slash,
a `.git` and a line break at the end. What the removal uncovers is therefore kept:
`b.git.git` becomes `b.git`, and `b/.git` becomes `b/`. The key is computed from the
stored URL as if nothing could be left at its end.

A URL is `Plain` if there is nothing.

## Main definitions

* `validatePublicUrl`: `validate_public_url`.
* `canonicalGithubSource`: `_canonical_github_source` of a live import.
* `Shape`: The URLs that match the pattern.
* `Plain`: Those that end with the name of the repository.

## Theorems

* `matchesGithub_iff`: The pattern in terms of the parts of a URL.
* `validatePublicUrl_plain`: Plain URLs stay as they are.
-/

namespace Partha

namespace Github

open Canonical (Str)
open Egress (rstripSlashes rstripSlashes_self)
open UrlParse List

section Definitions

/-- `[A-Za-z0-9_.-]`. -/
def isNameChar (c : Char) : Bool :=
  c.isAlphanum || c = '_' || c = '.' || c = '-'

/-- A match of `[A-Za-z0-9_.-]+`. -/
def isName (s : Str) : Bool :=
  s ≠ [] && s.all isNameChar

def origin : Str :=
  "https://github.com/".toList

def gitSuffix : Str :=
  ".git".toList

/-- `$` matches before a line break at the end. -/
def beforeEnd (s : Str) : Str :=
  if s.getLast? = some '\n' then s.dropLast else s

/-- What follows the origin in `GITHUB_RE`. -/
def matchesPath (path : Str) : Bool :=
  match cut '/' path with
  | (_, none) => false
  | (owner, some rest) =>
    isName owner && isName (cut '/' rest).1 &&
      ((cut '/' rest).2 = none || (cut '/' rest).2 = some [] || (cut '/' rest).2 = some gitSuffix)

/-- `GITHUB_RE.match`. -/
def matchesGithub (url : Str) : Bool :=
  origin.isPrefixOf (beforeEnd url) && matchesPath ((beforeEnd url).drop origin.length)

/-- `ValidationServiceError`. -/
structure ValidationServiceError where
  message : String
  deriving DecidableEq, Repr

/-- One `.git` is removed. -/
def removeGit (url : Str) : Str :=
  if gitSuffix.isSuffixOf url then url.take (url.length - 4) else url

/-- `validate_public_url`. -/
def validatePublicUrl (url : Str) : Except ValidationServiceError Str :=
  let normalized := removeGit (rstripSlashes url)
  if matchesGithub normalized then .ok normalized
  else .error ⟨"Only public GitHub repository HTTPS URLs are supported."⟩

/-- `lower` of ASCII text. -/
def lower (s : Str) : Str :=
  s.map Char.toLower

def site : Str :=
  "github.com/".toList

/-- The key of an owner and a repository. -/
def sourceKey (owner repo : Str) : Str :=
  site ++ (lower owner ++ '/' :: lower repo)

def removePrefix (start url : Str) : Str :=
  if start.isPrefixOf url then url.drop start.length else url

/-- `_canonical_github_source` of a live import. It raises if there is no slash. -/
def canonicalGithubSource (url : Str) : Option Str :=
  match cut '/' (removePrefix origin url) with
  | (owner, some repo) => some (sourceKey owner repo)
  | (_, none) => none

end Definitions

section Shapes

/-- What may follow the name of a repository, before a line break. -/
def slashed (tail : Option Str) : Str :=
  (tail.map (fun t => '/' :: t)).getD []

/-- The parts of a URL that matches the pattern. -/
structure Shape (url owner repo : Str) (tail : Option Str) (newline : Str) : Prop where
  ownerName : isName owner = true
  repoName : isName repo = true
  tails : tail = none ∨ tail = some [] ∨ tail = some gitSuffix
  newlines : newline = [] ∨ newline = ['\n']
  eq : url = origin ++ (owner ++ '/' :: (repo ++ slashed tail)) ++ newline

/-- A URL that ends with the name of the repository. -/
structure Plain (url owner repo : Str) : Prop where
  ownerName : isName owner = true
  repoName : isName repo = true
  noGit : ∀ t, t ≠ [] → repo ≠ t ++ gitSuffix
  eq : url = origin ++ (owner ++ '/' :: repo)

variable {s repo owner url v : Str} {c : Char} {tail : Option Str}

theorem isName_iff : isName s = true ↔ s ≠ [] ∧ ∀ c ∈ s, isNameChar c = true := by
  simp [isName]

theorem not_mem_name (h : isName s = true) (hc : isNameChar c = false) : c ∉ s := by
  intro hmem
  have hchar := (isName_iff.mp h).2 c hmem
  rw [hc] at hchar
  exact Bool.false_ne_true hchar

theorem slash_not_mem (h : isName s = true) : '/' ∉ s :=
  not_mem_name h (by decide)

/-- What ends with a name does not end with another character. -/
theorem getLast?_name (h : isName s = true) (hc : isNameChar c = false) (t : Str) :
    (t ++ s).getLast? ≠ some c := by
  rw [List.getLast?_append_of_ne_nil _ (isName_iff.mp h).1]
  intro hlast
  exact not_mem_name h hc (mem_of_getLast? hlast)

theorem cut_slashed (h : '/' ∉ repo) (tail : Option Str) :
    cut '/' (repo ++ slashed tail) = (repo, tail) := by
  cases tail with
  | none => rw [slashed, Option.map_none, Option.getD_none, append_nil, cut_free h]
  | some t => exact cut_append h

theorem matchesPath_iff {path : Str} : matchesPath path = true ↔ ∃ owner repo tail,
    isName owner = true ∧ isName repo = true ∧
      (tail = none ∨ tail = some [] ∨ tail = some gitSuffix) ∧
      path = owner ++ '/' :: (repo ++ slashed tail) := by
  constructor
  · intro h
    unfold matchesPath at h
    split at h
    · exact absurd h Bool.false_ne_true
    · rename_i owner rest hcut
      simp only [Bool.and_eq_true, Bool.or_eq_true, decide_eq_true_eq, or_assoc] at h
      have hpath := (cut_eq (c := '/') path).2
      rw [hcut] at hpath
      refine ⟨owner, _, _, h.1.1, h.1.2, h.2, ?_⟩
      rw [hpath]
      exact congrArg (fun t => owner ++ '/' :: t) (cut_eq (c := '/') rest).2
  · rintro ⟨owner, repo, tail, howner, hrepo, htail, rfl⟩
    unfold matchesPath
    rw [cut_append (slash_not_mem howner)]
    simp only [cut_slashed (slash_not_mem hrepo), howner, hrepo, Bool.true_and, Bool.or_eq_true,
      decide_eq_true_eq, or_assoc]
    exact htail

theorem beforeEnd_newline (s : Str) : beforeEnd (s ++ ['\n']) = s := by
  unfold beforeEnd
  rw [List.getLast?_concat, if_pos rfl, dropLast_concat]

theorem beforeEnd_self (h : s.getLast? ≠ some '\n') : beforeEnd s = s :=
  if_neg h

theorem beforeEnd_eq (s : Str) : ∃ newline, (newline = [] ∨ newline = ['\n']) ∧
    s = beforeEnd s ++ newline := by
  by_cases h : s.getLast? = some '\n'
  · refine ⟨['\n'], .inr rfl, ?_⟩
    rw [beforeEnd, if_pos h]
    exact (dropLast_append_getLast? '\n' h).symm
  · exact ⟨[], .inl rfl, by rw [beforeEnd_self h, append_nil]⟩

/-- A tail has no line break at its end. -/
theorem getLast?_shape (hrepo : isName repo = true)
    (htail : tail = none ∨ tail = some [] ∨ tail = some gitSuffix) :
    (origin ++ (owner ++ '/' :: (repo ++ slashed tail))).getLast? ≠ some '\n' := by
  have hassoc : origin ++ (owner ++ '/' :: (repo ++ slashed tail)) =
      (origin ++ (owner ++ '/' :: repo)) ++ slashed tail := by
    simp
  rw [hassoc]
  rcases htail with rfl | rfl | rfl
  · have hname := getLast?_name hrepo (c := '\n') (by decide) (origin ++ (owner ++ ['/']))
    simpa [slashed] using hname
  · rw [List.getLast?_append_of_ne_nil _ (by decide)]
    decide
  · rw [List.getLast?_append_of_ne_nil _ (by decide)]
    decide

/-- The pattern, in terms of the parts of a URL. -/
theorem matchesGithub_iff : matchesGithub url = true ↔
    ∃ owner repo tail newline, Shape url owner repo tail newline := by
  constructor
  · intro h
    simp only [matchesGithub, Bool.and_eq_true, isPrefixOf_iff_prefix] at h
    rcases h with ⟨⟨path, hpath⟩, hmatch⟩
    rw [← hpath, drop_left] at hmatch
    rcases matchesPath_iff.mp hmatch with ⟨owner, repo, tail, howner, hrepo, htail, rfl⟩
    rcases beforeEnd_eq url with ⟨newline, hnewline, hurl⟩
    refine ⟨owner, repo, tail, newline, howner, hrepo, htail, hnewline, ?_⟩
    rw [hpath]
    exact hurl
  · rintro ⟨owner, repo, tail, newline, h⟩
    have hend : beforeEnd url = origin ++ (owner ++ '/' :: (repo ++ slashed tail)) := by
      rw [h.eq]
      rcases h.newlines with hn | hn
      · rw [hn, append_nil, beforeEnd_self (getLast?_shape h.repoName h.tails)]
      · rw [hn, beforeEnd_newline]
    simp only [matchesGithub, hend, Bool.and_eq_true, isPrefixOf_iff_prefix, drop_left]
    exact ⟨prefix_append _ _,
      matchesPath_iff.mpr ⟨owner, repo, tail, h.ownerName, h.repoName, h.tails, rfl⟩⟩

theorem Plain.shape (h : Plain url owner repo) : Shape url owner repo none [] where
  ownerName := h.ownerName
  repoName := h.repoName
  tails := .inl rfl
  newlines := .inl rfl
  eq := by
    rw [h.eq]
    simp [slashed]

theorem rstripSlashes_name (h : isName repo = true) :
    rstripSlashes (origin ++ (owner ++ '/' :: repo)) = origin ++ (owner ++ '/' :: repo) := by
  refine rstripSlashes_self ?_
  have hname := getLast?_name h (c := '/') (by decide) (origin ++ (owner ++ ['/']))
  simpa using hname

/-- Nothing is removed from a plain URL, unless it would not be accepted without it. -/
theorem removeGit_plain (h : Plain url owner repo) :
    removeGit url = url ∨ matchesGithub (removeGit url) = false := by
  by_cases hgit : gitSuffix <:+ url
  · have hrepo : '/' :: repo <:+ url := by
      rw [h.eq, ← append_assoc]
      exact suffix_append _ _
    -- The suffix has no slash, so it is one of the name, and that is all of it.
    have hname : gitSuffix <:+ repo := by
      rcases suffix_or_suffix_of_suffix hgit hrepo with hlong | hshort
      · rcases suffix_cons_iff.mp hlong with he | hname
        · exact absurd (List.cons.inj he).1 (by decide)
        · exact hname
      · exact absurd (hshort.subset mem_cons_self) (by decide)
    rcases hname with ⟨t, ht⟩
    have hnil : t = [] := by
      by_contra hne
      exact h.noGit t hne ht.symm
    rw [hnil, nil_append] at ht
    have hurl : url = (origin ++ (owner ++ ['/'])) ++ gitSuffix := by
      rw [h.eq, ← ht]
      simp
    have hremoved : removeGit url = origin ++ (owner ++ ['/']) := by
      rw [removeGit, if_pos (isSuffixOf_iff_suffix.mpr hgit), hurl]
      exact take_left' (by simp only [length_append, gitSuffix]; rfl)
    have hend : (origin ++ (owner ++ ['/'])).getLast? ≠ some '\n' := by
      rw [← append_assoc, List.getLast?_concat]
      decide
    have hpath : matchesPath (owner ++ ['/']) = false := by
      rw [matchesPath, cut_append (slash_not_mem h.ownerName)]
      simp only [h.ownerName, Bool.true_and, Bool.and_eq_false_iff]
      exact .inl rfl
    right
    rw [hremoved, matchesGithub, beforeEnd_self hend, drop_left, hpath, Bool.and_false]
  · left
    exact if_neg (fun hsuffix => hgit (isSuffixOf_iff_suffix.mp hsuffix))

/-- A plain URL that is accepted again stays as it is. -/
theorem validatePublicUrl_plain (h : Plain url owner repo) (hv : validatePublicUrl url = .ok v) :
    v = url := by
  have hstrip : rstripSlashes url = url := by
    rw [h.eq]
    exact rstripSlashes_name h.repoName
  simp only [validatePublicUrl, hstrip] at hv
  split at hv
  · rename_i hmatch
    cases hv
    rcases removeGit_plain h with hsame | hrefused
    · exact hsame
    · rw [hrefused] at hmatch
      exact absurd hmatch Bool.false_ne_true
  · cases hv

theorem matches_of_validatePublicUrl (h : validatePublicUrl url = .ok v) :
    matchesGithub v = true := by
  simp only [validatePublicUrl] at h
  split at h
  · rename_i hmatch
    cases h
    exact hmatch
  · cases h

/-- The key of a live import. -/
theorem canonicalGithubSource_shape {newline : Str} (h : Shape url owner repo tail newline) :
    canonicalGithubSource url = some (sourceKey owner (repo ++ slashed tail ++ newline)) := by
  have hprefix : origin <+: url := by
    rw [h.eq, append_assoc]
    exact prefix_append _ _
  have hremove : removePrefix origin url = owner ++ '/' :: (repo ++ slashed tail ++ newline) := by
    rw [removePrefix, if_pos (List.isPrefixOf_iff_prefix.mpr hprefix), h.eq]
    simp
  rw [canonicalGithubSource, hremove, cut_append (slash_not_mem h.ownerName)]

theorem canonicalGithubSource_plain (h : Plain url owner repo) :
    canonicalGithubSource url = some (sourceKey owner repo) := by
  rw [canonicalGithubSource_shape h.shape]
  simp [slashed]

end Shapes

end Github

end Partha
