import Partha.Github.Client

/-!
# Source Keys

The canonical form of a GitHub URL, as the migration that introduced lineages
computes it.

The migration reads URLs of all times, so its patterns accept more than a live import
stores: surrounding whitespace, a host in any case, the form for SSH, and a `.git` and
a slash at the end, which it drops. It refuses names with two dots in a row. The key of
a live import is computed from the URL that was just normalised.

On plain URLs without such names both give the same key. On every other URL that
`validate_public_url` may return, they give different ones, or the migration gives
none, or the URL is not one that a later import would store again.

## Main definitions

* `canonicalGithubSource`: `_canonical_github_source` of the migration.
* `lazyRepo`: A lazy group, followed by one of several ends.

## Theorems

* `canonicalGithubSource_plain`: The keys of plain URLs.
* `agree_iff`: When the two keys agree.
-/

namespace Partha

namespace Backfill

open List
open Canonical (Str)
open Github (isName isNameChar sourceKey gitSuffix origin slashed Plain Shape slash_not_mem
  not_mem_name validatePublicUrl)
open UrlParse

section Definitions

/-- The characters that `str.strip` removes. -/
def isSpace (c : Char) : Bool :=
  (9 ≤ c.toNat && c.toNat ≤ 13) || (28 ≤ c.toNat && c.toNat ≤ 32) || c.toNat = 0x85 ||
    c.toNat = 0xA0 || c.toNat = 0x1680 || (0x2000 ≤ c.toNat && c.toNat ≤ 0x200A) ||
    c.toNat = 0x2028 || c.toNat = 0x2029 || c.toNat = 0x202F || c.toNat = 0x205F ||
    c.toNat = 0x3000

/-- `source_url.strip()`. -/
def strip (s : Str) : Str :=
  ((s.dropWhile isSpace).reverse.dropWhile isSpace).reverse

/-- A character matches one of the host without regard to case. Two forms of `i` that are
    not ASCII do so, too. -/
def foldsTo (c d : Char) : Bool :=
  c.toLower = d || (d = 'i' && (c.toNat = 0x130 || c.toNat = 0x131))

def host : Str :=
  "github.com".toList

/-- What follows the host and a separator. -/
def afterHost (start : Str) (separator : Char) (s : Str) : Option Str :=
  let rest := s.drop start.length
  if start.isPrefixOf s && (rest.take host.length).length = host.length &&
      ((rest.take host.length).zip host).all (fun p => foldsTo p.1 p.2) &&
      rest[host.length]? = some separator then
    some (rest.drop (host.length + 1))
  else none

/-- `([^/]+?)`, followed by one of the ends. The group is as short as it can be. -/
def lazyRepo (ends : List Str) : Str → Option Str
  | [] => none
  | c :: s =>
    if c = '/' then none
    else if ends.elem s then some [c]
    else (lazyRepo ends s).map (c :: ·)

/-- `([^/]+)/([^/]+?)`, followed by one of the ends. -/
def ownerAndRepo (ends : List Str) (path : Str) : Option (Str × Str) :=
  match cut '/' path with
  | (_, none) => none
  | (owner, some rest) =>
    if owner = [] then none else (lazyRepo ends rest).map (fun repo => (owner, repo))

/-- The ends that `(?:\.git)?/?$` matches. -/
def httpsEnds : List Str :=
  [[], ['/'], gitSuffix, gitSuffix ++ ['/']]

/-- The ends that `(?:\.git)?$` matches. -/
def sshEnds : List Str :=
  [[], gitSuffix]

/-- The groups of `_HTTPS_GITHUB_RE`. -/
def httpsGithub (s : Str) : Option (Str × Str) :=
  (afterHost "https://".toList '/' s).bind (ownerAndRepo httpsEnds)

/-- The groups of `_SSH_GITHUB_RE`. -/
def sshGithub (s : Str) : Option (Str × Str) :=
  (afterHost "git@".toList ':' s).bind (ownerAndRepo sshEnds)

/-- `".." in value`. -/
def hasDots : Str → Bool
  | '.' :: '.' :: _ => true
  | _ :: s => hasDots s
  | [] => false

/-- `_safe_component`. -/
def safeComponent (value : Str) : Bool :=
  isName value && !hasDots value

/-- `_canonical_github_source` of the migration. -/
def canonicalGithubSource (sourceUrl : Option Str) : Option Str :=
  match sourceUrl with
  | none => none
  | some [] => none
  | some url =>
    match (httpsGithub (strip url)).or (sshGithub (strip url)) with
    | none => none
    | some (owner, repo) =>
      if safeComponent owner && safeComponent repo then some (sourceKey owner repo) else none

end Definitions

section Matching

variable {ends : List Str} {s repo : Str}

theorem lazyRepo_eq_some (h : lazyRepo ends s = some repo) :
    '/' ∉ repo ∧ ∃ e ∈ ends, s = repo ++ e := by
  induction s generalizing repo with
  | nil => cases h
  | cons c s ih =>
    rw [lazyRepo] at h
    split at h
    · cases h
    rename_i hc
    have hslash : ∀ {t : Str}, '/' ∉ t → '/' ∉ c :: t := by
      intro t ht hmem
      rcases mem_cons.mp hmem with he | hmem
      · exact hc he.symm
      · exact ht hmem
    split at h
    · rename_i hend
      cases h
      exact ⟨hslash not_mem_nil, s, elem_iff.mp hend, rfl⟩
    · rcases Option.map_eq_some_iff.mp h with ⟨t, ht, rfl⟩
      rcases ih ht with ⟨hfree, e, he, rfl⟩
      exact ⟨hslash hfree, e, he, rfl⟩

/-- The group is no longer than another one that is followed by an end. -/
theorem lazyRepo_le {t e : Str} (h : lazyRepo ends s = some repo) (hne : t ≠ []) (he : e ∈ ends)
    (hs : s = t ++ e) : repo.length ≤ t.length := by
  induction s generalizing repo t with
  | nil => cases h
  | cons c s ih =>
    rcases exists_cons_of_ne_nil hne with ⟨d, t, rfl⟩
    rw [cons_append, List.cons.injEq] at hs
    rw [lazyRepo] at h
    split at h
    · cases h
    split at h
    · cases h
      exact Nat.succ_le_succ (Nat.zero_le _)
    · rename_i hend
      rcases Option.map_eq_some_iff.mp h with ⟨r, hr, rfl⟩
      have ht : t ≠ [] := by
        intro hnil
        rw [hnil, nil_append] at hs
        rw [hs.2] at hend
        exact hend (elem_iff.mpr he)
      exact Nat.succ_le_succ (ih hr ht hs.2)

/-- A name is the group itself, if none of its ends is one of the pattern. -/
theorem lazyRepo_self (hne : repo ≠ []) (hslash : '/' ∉ repo)
    (hgit : ∀ t, t ≠ [] → repo ≠ t ++ gitSuffix) : lazyRepo httpsEnds repo = some repo := by
  induction repo with
  | nil => exact absurd rfl hne
  | cons c s ih =>
    have hc : c ≠ '/' := fun e => hslash (by rw [e]; exact mem_cons_self)
    have hs : '/' ∉ s := fun hmem => hslash (mem_cons_of_mem c hmem)
    rw [lazyRepo, if_neg hc]
    by_cases hnil : s = []
    · rw [hnil]
      rfl
    · have hend : s ∉ httpsEnds := by
        simp only [httpsEnds, mem_cons, not_mem_nil, or_false, not_or]
        refine ⟨hnil, fun e => hs (by rw [e]; decide), fun e => ?_,
          fun e => hs (by rw [e]; decide)⟩
        exact hgit [c] (cons_ne_nil _ _) (by rw [e]; rfl)
      rw [if_neg (fun e => hend (elem_iff.mp e)), ih hnil hs (fun t ht e => ?_), Option.map_some]
      exact hgit (c :: t) (cons_ne_nil _ _) (by rw [e]; rfl)

theorem afterHost_origin (path : Str) :
    afterHost "https://".toList '/' (origin ++ path) = some path := by
  rfl

theorem sshGithub_origin (path : Str) : sshGithub (origin ++ path) = none := by
  rfl

theorem ownerAndRepo_append {owner : Str} (hne : owner ≠ []) (hslash : '/' ∉ owner) (rest : Str) :
    ownerAndRepo ends (owner ++ '/' :: rest) =
      (lazyRepo ends rest).map (fun repo => (owner, repo)) := by
  rw [ownerAndRepo, cut_append hslash]
  exact if_neg hne

/-- What is left of a text with whitespace behind it, and none elsewhere at its ends. -/
theorem strip_append {space : Str} (hhead : ∀ c, s.head? = some c → isSpace c = false)
    (hlast : ∀ c, s.getLast? = some c → isSpace c = false) (hne : s ≠ [])
    (hspace : ∀ c ∈ space, isSpace c = true) : strip (s ++ space) = s := by
  rcases exists_cons_of_ne_nil hne with ⟨c, t, rfl⟩
  have hc : isSpace c = false := hhead c rfl
  have hfront : (c :: t ++ space).dropWhile isSpace = c :: t ++ space := by
    rw [cons_append, dropWhile_cons_of_neg (by rw [hc]; exact Bool.false_ne_true)]
  have hback : ((c :: t).reverse).dropWhile isSpace = (c :: t).reverse := by
    cases hr : (c :: t).reverse with
    | nil => rfl
    | cons d r =>
      have hd : isSpace d = false := hlast d (by rw [← List.head?_reverse, hr]; rfl)
      rw [dropWhile_cons_of_neg (by rw [hd]; exact Bool.false_ne_true)]
  have hall : ∀ a ∈ space.reverse, isSpace a = true :=
    fun a ha => hspace a (mem_reverse.mp ha)
  rw [strip, hfront, reverse_append, dropWhile_append_of_pos hall, hback,
    reverse_reverse]

end Matching

section Agreement

variable {c : Char} {url owner repo newline : Str} {tail : Option Str}

theorem isAlphanum_bounds (h : c.isAlphanum = true) : 32 < c.toNat ∧ c.toNat < 127 := by
  have hrange : ∀ low high : Char, low.val ≤ c.val ∧ c.val ≤ high.val →
      low.toNat ≤ c.toNat ∧ c.toNat ≤ high.toNat := by
    intro low high hc
    exact ⟨UInt32.le_iff_toNat_le.mp hc.1, UInt32.le_iff_toNat_le.mp hc.2⟩
  have hboth : ∀ low high : Char, (decide (low.val ≤ c.val) && decide (c.val ≤ high.val)) = true →
      low.val ≤ c.val ∧ c.val ≤ high.val := by
    intro low high hc
    simp only [Bool.and_eq_true, decide_eq_true_eq] at hc
    exact hc
  rcases Bool.or_eq_true_iff.mp h with h | h
  · rcases Bool.or_eq_true_iff.mp h with h | h
    · have hupper : 65 ≤ c.toNat ∧ c.toNat ≤ 90 := hrange 'A' 'Z' (of_decide_eq_true h)
      omega
    · have hlower : 97 ≤ c.toNat ∧ c.toNat ≤ 122 := hrange 'a' 'z' (hboth 'a' 'z' h)
      omega
  · have hdigit : 48 ≤ c.toNat ∧ c.toNat ≤ 57 := hrange '0' '9' (hboth '0' '9' h)
    omega

theorem isNameChar_bounds (h : isNameChar c = true) : 32 < c.toNat ∧ c.toNat < 127 := by
  simp only [isNameChar, Bool.or_eq_true, decide_eq_true_eq] at h
  rcases h with ((h | rfl) | rfl) | rfl
  · exact isAlphanum_bounds h
  · decide
  · decide
  · decide

theorem isSpace_name (h : isNameChar c = true) : isSpace c = false := by
  have hbounds := isNameChar_bounds h
  simp only [isSpace, Bool.or_eq_false_iff, Bool.and_eq_false_iff, decide_eq_false_iff_not]
  omega

/-- The text that the patterns are matched with is the URL without its line break. -/
theorem strip_shape (h : Shape url owner repo tail newline) :
    strip url = origin ++ (owner ++ '/' :: (repo ++ slashed tail)) := by
  rw [h.eq]
  refine strip_append (fun c hc => ?_) (fun c hc => ?_) ?_ ?_
  · have hh : some 'h' = some c := hc
    cases hh
    decide
  · have hassoc : origin ++ (owner ++ '/' :: (repo ++ slashed tail)) =
        (origin ++ (owner ++ '/' :: repo)) ++ slashed tail := by
      simp
    rw [hassoc] at hc
    rcases h.tails with ht | ht | ht
    · have hname := Github.isName_iff.mp h.repoName
      have hmem : c ∈ repo := by
        have hwhole : (origin ++ (owner ++ ['/'])) ++ repo = origin ++ (owner ++ '/' :: repo) := by
          simp
        rw [ht, slashed, Option.map_none, Option.getD_none, append_nil, ← hwhole,
          List.getLast?_append_of_ne_nil _ hname.1] at hc
        exact mem_of_getLast? hc
      exact isSpace_name (hname.2 c hmem)
    · rw [ht, List.getLast?_append_of_ne_nil _ (by decide)] at hc
      have hslash : some '/' = some c := hc
      cases hslash
      decide
    · rw [ht, List.getLast?_append_of_ne_nil _ (by decide)] at hc
      have ht : some 't' = some c := hc
      cases ht
      decide
  · exact cons_ne_nil _ _
  · intro c hc
    rcases h.newlines with hn | hn
    · rw [hn] at hc
      cases hc
    · rw [hn] at hc
      rw [mem_singleton.mp hc]
      decide

/-- What the migration computes for a URL that matches the pattern. -/
theorem canonicalGithubSource_shape (h : Shape url owner repo tail newline) :
    canonicalGithubSource (some url) =
      (lazyRepo httpsEnds (repo ++ slashed tail)).bind (fun group =>
        if safeComponent owner && safeComponent group then some (sourceKey owner group)
        else none) := by
  rcases h with ⟨howner, hrepo, htail, hnewline, heq⟩
  have hshape : Shape url owner repo tail newline := ⟨howner, hrepo, htail, hnewline, heq⟩
  have hhttps : httpsGithub (strip url) =
      (lazyRepo httpsEnds (repo ++ slashed tail)).map (fun group => (owner, group)) := by
    rw [strip_shape hshape, httpsGithub, afterHost_origin, Option.bind_some,
      ownerAndRepo_append (Github.isName_iff.mp howner).1 (slash_not_mem howner)]
  have hssh : sshGithub (strip url) = none := by
    rw [strip_shape hshape, sshGithub_origin]
  have hne : url ≠ [] := by
    rw [heq]
    exact cons_ne_nil _ _
  unfold canonicalGithubSource
  split
  · cases ‹some url = none›
  · rename_i hnil
    exact absurd (Option.some.inj hnil) hne
  · rename_i v _ hv
    rw [← Option.some.inj hv, hhttps, hssh]
    cases lazyRepo httpsEnds (repo ++ slashed tail) with
    | none => rfl
    | some group => rfl

theorem length_sourceKey (owner repo : Str) :
    (sourceKey owner repo).length =
      Github.site.length + (owner.length + (repo.length + 1)) := by
  simp [sourceKey, Github.lower]

theorem toLower_eq {d : Char} (h : c.toLower = d) (hd : d.toNat < 97) : c = d := by
  unfold Char.toLower at h
  split at h
  · rename_i hc
    have hval := congrArg (fun c : Char => c.val.toNat) h
    have hlow := UInt32.le_iff_toNat_le.mp hc.1
    have hhigh := UInt32.le_iff_toNat_le.mp hc.2
    simp only [UInt32.toNat_add] at hval
    change 65 ≤ c.val.toNat at hlow
    change c.val.toNat ≤ 90 at hhigh
    change (c.val.toNat + 32) % 4294967296 = d.toNat at hval
    omega
  · exact h

theorem slash_not_mem_lower {s : Str} (h : isName s = true) : '/' ∉ Github.lower s := by
  intro hmem
  rcases mem_map.mp hmem with ⟨c, hc, he⟩
  rw [toLower_eq he (by decide)] at hc
  exact slash_not_mem h hc

/-- A key tells the owner and the repository apart, up to their case. -/
theorem sourceKey_eq_iff {owner' repo' : Str} (h : isName owner = true)
    (h' : isName owner' = true) :
    sourceKey owner repo = sourceKey owner' repo' ↔
      Github.lower owner = Github.lower owner' ∧ Github.lower repo = Github.lower repo' := by
  constructor
  · intro he
    have hcut := congrArg (cut '/') (append_cancel_left he)
    rw [cut_append (slash_not_mem_lower h), cut_append (slash_not_mem_lower h')] at hcut
    exact ⟨(Prod.mk.inj hcut).1, Option.some.inj (Prod.mk.inj hcut).2⟩
  · rintro ⟨ho, hr⟩
    rw [sourceKey, sourceKey, ho, hr]

/-- The key of a plain URL, unless a name has two dots in a row. -/
theorem canonicalGithubSource_plain (h : Plain url owner repo) :
    canonicalGithubSource (some url) =
      if hasDots owner = false ∧ hasDots repo = false then some (sourceKey owner repo)
      else none := by
  have hname := Github.isName_iff.mp h.repoName
  rw [canonicalGithubSource_shape h.shape, slashed, Option.map_none, Option.getD_none,
    append_nil, lazyRepo_self hname.1 (slash_not_mem h.repoName) h.noGit, Option.bind_some]
  simp [safeComponent, h.ownerName, h.repoName]

/-- Of the URLs that `validate_public_url` returns, the two keys agree on those that are
    plain and have no two dots in a row. -/
theorem agree_iff {raw : Str} (hvalid : validatePublicUrl raw = .ok url) :
    (∃ key, canonicalGithubSource (some url) = some key ∧
        Github.canonicalGithubSource url = some key) ↔
      ∃ owner repo, Plain url owner repo ∧ hasDots owner = false ∧ hasDots repo = false := by
  constructor
  · rintro ⟨key, hkey, hlive⟩
    rcases Github.matchesGithub_iff.mp (Github.matches_of_validatePublicUrl hvalid) with
      ⟨owner, repo, tail, newline, h⟩
    rw [canonicalGithubSource_shape h] at hkey
    rw [Github.canonicalGithubSource_shape h] at hlive
    rcases Option.bind_eq_some_iff.mp hkey with ⟨group, hgroup, hsafe⟩
    rw [Option.ite_none_right_eq_some] at hsafe
    rcases lazyRepo_eq_some hgroup with ⟨hslash, e, he, happ⟩
    -- The keys have the same length, so nothing is left out of the group.
    have hlength : group.length = (repo ++ slashed tail ++ newline).length := by
      have hboth := congrArg List.length (Option.some.inj (hsafe.2.trans hlive.symm))
      rw [length_sourceKey, length_sourceKey] at hboth
      omega
    have htotal := congrArg List.length happ
    simp only [length_append] at hlength htotal
    have hnewline : newline = [] := eq_nil_of_length_eq_zero (by omega)
    have hend : e = [] := eq_nil_of_length_eq_zero (by omega)
    rw [hend, append_nil] at happ
    have htail : tail = none := by
      cases tail with
      | none => rfl
      | some t =>
        refine absurd ?_ hslash
        rw [← happ]
        exact mem_append_right _ mem_cons_self
    rw [htail, slashed, Option.map_none, Option.getD_none, append_nil] at happ hgroup
    rw [← happ] at hgroup hsafe
    simp only [safeComponent, Bool.and_eq_true, Bool.not_eq_true'] at hsafe
    refine ⟨owner, repo, ⟨h.ownerName, h.repoName, fun t ht hgit => ?_, ?_⟩, hsafe.1.1.2,
      hsafe.1.2.2⟩
    · have hshort := lazyRepo_le hgroup ht (by decide : gitSuffix ∈ httpsEnds) hgit
      have hgitlen : gitSuffix.length = 4 := by decide
      rw [hgit, length_append, hgitlen] at hshort
      omega
    · have heq := h.eq
      rw [htail, hnewline, slashed, Option.map_none, Option.getD_none, append_nil,
        append_nil] at heq
      exact heq
  · rintro ⟨owner, repo, h, howner, hrepo⟩
    refine ⟨sourceKey owner repo, ?_, Github.canonicalGithubSource_plain h⟩
    rw [canonicalGithubSource_plain h, if_pos ⟨howner, hrepo⟩]

end Agreement

end Backfill

end Partha
