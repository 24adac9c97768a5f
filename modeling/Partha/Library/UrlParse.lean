import Mathlib.Data.List.Basic
import Mathlib.Data.List.TakeWhile

/-!
# Splitting URLs

The parts of a URL, as `urllib.parse` splits them off and puts them together.

A URL is taken apart from the front: the scheme, the network location, then from
what is left the fragment and the query. Which network locations are valid is a
parameter. The host and the port are split off the network location, where a host
with colons in it stands in brackets.

`urlsplit_unsplit` says that the parts come back if they do not have each other's
delimiters, and `hostinfo_netlocText` says the same of the network location.

## Main definitions

* `cut`: The text before and after a delimiter.
* `urlsplit`, `urlunsplit`: The parts of a URL, and back.
* `hostinfo`: The host and the port of a network location.
* `netlocText`: A network location, with brackets if it needs them.

## Theorems

* `urlsplit_unsplit`: The parts come back.
* `urlsplit_mem`: The parts have no characters but those of the URL.
* `urlsplit_append`: What follows the path does not move the network location.
* `hostinfo_netlocText`: The host and the port come back.
* `port_netlocText`: The number of the port comes back.
-/

namespace UrlParse

open List

/-- What holds of all elements of a list, by evaluation. -/
theorem forall_mem_of_all {α : Type} {p : α → Prop} [DecidablePred p] {l : List α}
    (h : l.all (fun a => decide (p a)) = true) : ∀ a ∈ l, p a :=
  fun a ha => of_decide_eq_true (all_eq_true.mp h a ha)

section Cutting

/-- `str.partition`, with nothing in place of what follows if there is no delimiter. -/
def cut (c : Char) : List Char → List Char × Option (List Char)
  | [] => ([], none)
  | d :: s => if d = c then ([], some s) else (d :: (cut c s).1, (cut c s).2)

variable {c d : Char} {s : List Char}

theorem cut_free (h : c ∉ s) : cut c s = (s, none) := by
  induction s with
  | nil => rfl
  | cons d s ih =>
    have hd : d ≠ c := fun e => h (by rw [e]; exact mem_cons_self)
    rw [cut, if_neg hd, ih (fun hmem => h (mem_cons_of_mem d hmem))]

theorem cut_append {t : List Char} (h : c ∉ s) : cut c (s ++ c :: t) = (s, some t) := by
  induction s with
  | nil => rw [nil_append, cut, if_pos rfl]
  | cons d s ih =>
    have hd : d ≠ c := fun e => h (by rw [e]; exact mem_cons_self)
    rw [cons_append, cut, if_neg hd, ih (fun hmem => h (mem_cons_of_mem d hmem))]

/-- A delimiter that is there is the first one of a longer text too. -/
theorem cut_append_some {r : List Char} (h : (cut c s).2 = some r) (t : List Char) :
    cut c (s ++ t) = ((cut c s).1, some (r ++ t)) := by
  induction s generalizing r with
  | nil => cases h
  | cons d s ih =>
    by_cases hd : d = c
    · rw [cut, if_pos hd] at h
      rw [cons_append, cut, if_pos hd, cut, if_pos hd, Option.some.inj h]
    · rw [cut, if_neg hd] at h
      rw [cons_append, cut, if_neg hd, ih h, cut, if_neg hd]

/-- A text is what is before the delimiter, or that with the delimiter and the rest. -/
theorem cut_eq (s : List Char) :
    c ∉ (cut c s).1 ∧ s = (cut c s).1 ++ ((cut c s).2.map (fun t => c :: t)).getD [] := by
  induction s with
  | nil => exact ⟨not_mem_nil, rfl⟩
  | cons d s ih =>
    by_cases hd : d = c
    · rw [cut, if_pos hd, hd]
      exact ⟨not_mem_nil, rfl⟩
    · rw [cut, if_neg hd]
      refine ⟨?_, ?_⟩
      · intro h
        rcases mem_cons.mp h with e | h
        · exact hd e.symm
        · exact ih.1 h
      · rw [cons_append, ← ih.2]

theorem mem_cut_fst (h : d ∈ (cut c s).1) : d ∈ s := by
  rw [(cut_eq (c := c) s).2]
  exact mem_append_left _ h

theorem mem_cut_snd (h : d ∈ (cut c s).2.getD []) : d ∈ s := by
  rw [(cut_eq (c := c) s).2]
  cases ht : (cut c s).2 with
  | none =>
    rw [ht] at h
    cases h
  | some t =>
    rw [ht] at h
    exact mem_append_right _ (mem_cons_of_mem c h)

end Cutting

section Parts

/-- `SplitResult`. -/
structure SplitResult where
  scheme : List Char
  netloc : List Char
  path : List Char
  query : List Char
  fragment : List Char
  deriving DecidableEq

def isSchemeChar (c : Char) : Bool :=
  c.isAlphanum || c = '+' || c = '-' || c = '.'

/-- A scheme in lower case, and what follows its colon. -/
def splitScheme (url : List Char) : List Char × List Char :=
  match url, cut ':' url with
  | first :: _, (scheme, some rest) =>
    if first.isAlpha && scheme.all isSchemeChar then (scheme.map Char.toLower, rest) else ([], url)
  | _, _ => ([], url)

/-- A network location after two slashes, and what follows it. -/
def splitNetloc : List Char → List Char × List Char
  | '/' :: '/' :: url =>
    (url.takeWhile (fun c => c ≠ '/' ∧ c ≠ '?' ∧ c ≠ '#'),
      url.dropWhile (fun c => c ≠ '/' ∧ c ≠ '?' ∧ c ≠ '#'))
  | url => ([], url)

/-- What is removed from a URL before it is split. -/
def stripUnsafe (url : List Char) : List Char :=
  (url.dropWhile (fun c => c.toNat ≤ 0x20)).filter (fun c => c ≠ '\t' ∧ c ≠ '\r' ∧ c ≠ '\n')

/-- `urlsplit`, or nothing if the network location is not valid. -/
def urlsplit (valid : List Char → Bool) (url : List Char) : Option SplitResult :=
  let scheme := splitScheme (stripUnsafe url)
  let netloc := splitNetloc scheme.2
  let fragment := cut '#' netloc.2
  let query := cut '?' fragment.1
  if valid netloc.1 then
    some
      { scheme := scheme.1
        netloc := netloc.1
        path := query.1
        query := query.2.getD []
        fragment := fragment.2.getD [] }
  else none

/-- `urlunsplit`, of parts with a network location or without a scheme. -/
def urlunsplit (s : SplitResult) : List Char :=
  let path := if s.path ≠ [] ∧ s.path.head? ≠ some '/' then '/' :: s.path else s.path
  let url := if s.netloc ≠ [] then '/' :: '/' :: (s.netloc ++ path) else s.path
  let url := if s.scheme ≠ [] then s.scheme ++ ':' :: url else url
  let url := if s.query ≠ [] then url ++ '?' :: s.query else url
  if s.fragment ≠ [] then url ++ '#' :: s.fragment else url

variable {url scheme netloc path : List Char} {c : Char} {valid : List Char → Bool}
  {s : SplitResult}

theorem stripUnsafe_self (h : ∀ c ∈ url, 0x20 < c.toNat) : stripUnsafe url = url := by
  have hdrop : url.dropWhile (fun c => decide (c.toNat ≤ 0x20)) = url := by
    cases url with
    | nil => rfl
    | cons c url =>
      have hc := h c mem_cons_self
      rw [dropWhile_cons, if_neg]
      rw [decide_eq_true_eq]
      omega
  rw [stripUnsafe, hdrop, filter_eq_self]
  intro c hc
  have hlarge := h c hc
  refine decide_eq_true ⟨?_, ?_, ?_⟩
  · rintro rfl
    exact absurd hlarge (by decide)
  · rintro rfl
    exact absurd hlarge (by decide)
  · rintro rfl
    exact absurd hlarge (by decide)

theorem mem_splitScheme (h : c ∈ (splitScheme url).2) : c ∈ url := by
  unfold splitScheme at h
  split at h
  · rename_i first rest scheme after hcut
    split at h
    · refine mem_cut_snd (c := ':') ?_
      rw [hcut]
      exact h
    · exact h
  · exact h

theorem mem_splitNetloc_fst (h : c ∈ (splitNetloc url).1) : c ∈ url := by
  unfold splitNetloc at h
  split at h
  · exact mem_cons_of_mem _ (mem_cons_of_mem _ ((takeWhile_sublist _).subset h))
  · cases h

theorem mem_splitNetloc (h : c ∈ (splitNetloc url).2) : c ∈ url := by
  unfold splitNetloc at h
  split at h
  · exact mem_cons_of_mem _ (mem_cons_of_mem _ ((dropWhile_sublist _).subset h))
  · exact h

/-- The parts come from the URL, and the path ends before the query. -/
theorem urlsplit_mem (h : urlsplit valid url = some s) :
    (∀ c ∈ s.netloc, c ∈ url) ∧ (∀ c ∈ s.path, c ∈ url) ∧ (∀ c ∈ s.query, c ∈ url) ∧
      '?' ∉ s.path := by
  have hstrip : ∀ c ∈ stripUnsafe url, c ∈ url := fun c hc =>
    (dropWhile_sublist _).subset (mem_of_mem_filter hc)
  unfold urlsplit at h
  simp only at h
  split at h
  · cases h
    have hrest : ∀ c ∈ (cut '#' (splitNetloc (splitScheme (stripUnsafe url)).2).2).1, c ∈ url :=
      fun c hc => hstrip c (mem_splitScheme (mem_splitNetloc (mem_cut_fst hc)))
    exact ⟨fun c hc => hstrip c (mem_splitScheme (mem_splitNetloc_fst hc)),
      fun c hc => hrest c (mem_cut_fst hc), fun c hc => hrest c (mem_cut_snd hc), (cut_eq _).1⟩
  · cases h

/-- A test that stops in a text stops in a longer one at the same place. -/
theorem span_append {p : Char → Bool} {s : List Char} (h : s.dropWhile p ≠ []) (t : List Char) :
    (s ++ t).takeWhile p = s.takeWhile p ∧ (s ++ t).dropWhile p = s.dropWhile p ++ t := by
  induction s with
  | nil => exact absurd rfl h
  | cons c s ih =>
    by_cases hc : p c = true
    · rw [dropWhile_cons_of_pos hc] at h
      rw [cons_append, takeWhile_cons_of_pos hc, takeWhile_cons_of_pos hc,
        dropWhile_cons_of_pos hc, dropWhile_cons_of_pos hc, (ih h).1, (ih h).2]
      exact ⟨rfl, rfl⟩
    · rw [cons_append, takeWhile_cons_of_neg hc, takeWhile_cons_of_neg hc,
        dropWhile_cons_of_neg hc, dropWhile_cons_of_neg hc]
      exact ⟨rfl, rfl⟩

theorem stripUnsafe_append (h : stripUnsafe url ≠ []) (t : List Char) :
    stripUnsafe (url ++ t) =
      stripUnsafe url ++ t.filter (fun c => c ≠ '\t' ∧ c ≠ '\r' ∧ c ≠ '\n') := by
  have hdrop : url.dropWhile (fun c => decide (c.toNat ≤ 0x20)) ≠ [] := by
    intro hnil
    rw [stripUnsafe, hnil] at h
    exact h rfl
  rw [stripUnsafe, (span_append hdrop t).2, filter_append, stripUnsafe]

theorem splitScheme_append (h : (splitScheme url).1 ≠ []) (t : List Char) :
    splitScheme (url ++ t) = ((splitScheme url).1, (splitScheme url).2 ++ t) := by
  cases url with
  | nil => exact absurd rfl h
  | cons first url =>
    cases hcut : cut ':' (first :: url) with
    | mk scheme after =>
      cases after with
      | none =>
        simp only [splitScheme, hcut] at h
        exact absurd rfl h
      | some rest =>
        have hlong : cut ':' (first :: (url ++ t)) = (scheme, some (rest ++ t)) := by
          have hsome : (cut ':' (first :: url)).2 = some rest := by rw [hcut]
          have happ := cut_append_some hsome t
          rw [hcut] at happ
          exact happ
        by_cases hletters : (first.isAlpha && scheme.all isSchemeChar) = true
        · simp [splitScheme, hcut, hlong, hletters]
        · simp only [splitScheme, hcut, hletters] at h
          exact absurd rfl h

theorem splitNetloc_append_rest (hnetloc : (splitNetloc url).1 ≠ [])
    (hrest : (splitNetloc url).2 ≠ []) (t : List Char) :
    splitNetloc (url ++ t) = ((splitNetloc url).1, (splitNetloc url).2 ++ t) := by
  unfold splitNetloc at hnetloc hrest ⊢
  split at hnetloc
  · rename_i rest
    simp only at hrest
    have hspan := span_append hrest t
    simp only [cons_append, hspan.1, hspan.2]
  · exact absurd rfl hnetloc

/-- What follows the path does not move the scheme or the network location. -/
theorem urlsplit_append (h : urlsplit valid url = some s) (hscheme : s.scheme ≠ [])
    (hnetloc : s.netloc ≠ []) (hpath : s.path ≠ []) (t : List Char) :
    ∃ s', urlsplit valid (url ++ t) = some s' ∧ s'.scheme = s.scheme ∧ s'.netloc = s.netloc := by
  unfold urlsplit at h
  simp only at h
  split at h
  · rename_i hvalid
    rw [← Option.some.inj h] at hscheme hnetloc hpath ⊢
    simp only at hscheme hnetloc hpath
    have hstrip : stripUnsafe url ≠ [] := by
      intro hnil
      rw [hnil] at hscheme
      exact hscheme rfl
    have hrest : (splitNetloc (splitScheme (stripUnsafe url)).2).2 ≠ [] := by
      intro hnil
      rw [hnil] at hpath
      exact hpath rfl
    unfold urlsplit
    rw [stripUnsafe_append hstrip, splitScheme_append hscheme]
    simp only [splitNetloc_append_rest hnetloc hrest, hvalid, if_true]
    exact ⟨_, rfl, rfl, rfl⟩
  · cases h

/-- The schemes of the web, which are in lower case. -/
def IsWeb (scheme : List Char) : Prop :=
  scheme = "http".toList ∨ scheme = "https".toList

theorem splitScheme_web (h : IsWeb scheme) (url : List Char) :
    splitScheme (scheme ++ ':' :: url) = (scheme, url) := by
  have hcut : cut ':' (scheme ++ ':' :: url) = (scheme, some url) :=
    cut_append (by rcases h with rfl | rfl <;> decide)
  rcases h with rfl | rfl
  · unfold splitScheme
    rw [hcut]
    rfl
  · unfold splitScheme
    rw [hcut]
    rfl

theorem splitNetloc_append (h : ∀ c ∈ netloc, c ≠ '/' ∧ c ≠ '?' ∧ c ≠ '#') :
    splitNetloc ('/' :: '/' :: (netloc ++ '/' :: path)) = (netloc, '/' :: path) := by
  have hall : ∀ c ∈ netloc, decide (c ≠ '/' ∧ c ≠ '?' ∧ c ≠ '#') = true := fun c hc =>
    decide_eq_true (h c hc)
  have hstop : decide ('/' ≠ '/' ∧ '/' ≠ '?' ∧ '/' ≠ '#') = false := by decide
  rw [splitNetloc, takeWhile_append_of_pos hall, dropWhile_append_of_pos hall,
    takeWhile_cons, dropWhile_cons, hstop]
  simp

/-- What follows the path: nothing, or a question mark and the query. -/
def querySuffix (query : List Char) : List Char :=
  if query ≠ [] then '?' :: query else []

/-- The text of a URL with a network location. -/
theorem urlunsplit_eq (hscheme : IsWeb scheme) (hne : netloc ≠ []) (path query : List Char) :
    urlunsplit ⟨scheme, netloc, '/' :: path, query, []⟩
      = scheme ++ ':' :: '/' :: '/' :: (netloc ++ '/' :: (path ++ querySuffix query)) := by
  have hschemene : scheme ≠ [] := by
    rcases hscheme with rfl | rfl <;> decide
  unfold urlunsplit querySuffix
  simp only [hne, hschemene, ne_eq, not_true, not_false_eq_true, if_true, if_false,
    List.head?_cons, and_false]
  by_cases hq : query = []
  · simp [hq]
  · simp [hq]

theorem cut_querySuffix (h : '?' ∉ path) (query : List Char) :
    (cut '?' (path ++ querySuffix query)).1 = path ∧
      (cut '?' (path ++ querySuffix query)).2.getD [] = query := by
  unfold querySuffix
  by_cases hq : query = []
  · rw [if_neg (not_not.mpr hq), append_nil, cut_free h, hq]
    exact ⟨rfl, rfl⟩
  · rw [if_pos hq, cut_append h]
    exact ⟨rfl, rfl⟩

/-- The parts of a URL come back, if they do not have each other's delimiters. -/
theorem urlsplit_unsplit {query : List Char} (hscheme : IsWeb scheme) (hvalid : valid netloc = true)
    (hne : netloc ≠ []) (hnetloc : ∀ c ∈ netloc, 0x20 < c.toNat ∧ c ≠ '/' ∧ c ≠ '?' ∧ c ≠ '#')
    (hpath : ∀ c ∈ path, 0x20 < c.toNat ∧ c ≠ '?' ∧ c ≠ '#')
    (hquery : ∀ c ∈ query, 0x20 < c.toNat ∧ c ≠ '#') :
    urlsplit valid (urlunsplit ⟨scheme, netloc, '/' :: path, query, []⟩)
      = some ⟨scheme, netloc, '/' :: path, query, []⟩ := by
  have hfree : '?' ∉ '/' :: path := by
    intro h
    rcases mem_cons.mp h with e | h
    · exact absurd e (by decide)
    · exact (hpath _ h).2.1 rfl
  have hclean : ∀ c ∈ querySuffix query, 0x20 < c.toNat ∧ c ≠ '#' := by
    intro c hc
    unfold querySuffix at hc
    split at hc
    · rcases mem_cons.mp hc with rfl | hc
      · decide
      · exact hquery c hc
    · cases hc
  -- nothing is stripped from the text, and no part of it holds a mark that ends it
  have hlarge : ∀ c ∈ scheme ++ ':' :: '/' :: '/' :: (netloc ++ '/' :: (path ++ querySuffix query)),
      0x20 < c.toNat := by
    intro c hc
    simp only [mem_append, mem_cons] at hc
    rcases hc with hc | rfl | rfl | rfl | hc | rfl | hc | hc
    · rcases hscheme with rfl | rfl
      · revert c
        exact forall_mem_of_all (by decide)
      · revert c
        exact forall_mem_of_all (by decide)
    · decide
    · decide
    · decide
    · exact (hnetloc c hc).1
    · decide
    · exact (hpath c hc).1
    · exact (hclean c hc).1
  have hsharp : '#' ∉ '/' :: (path ++ querySuffix query) := by
    intro h
    simp only [mem_cons, mem_append] at h
    rcases h with e | h | h
    · exact absurd e (by decide)
    · exact (hpath _ h).2.2 rfl
    · exact (hclean _ h).2 rfl
  have hcut := cut_querySuffix hfree query
  rw [cons_append] at hcut
  unfold urlsplit
  rw [urlunsplit_eq hscheme hne, stripUnsafe_self hlarge, splitScheme_web hscheme]
  simp [splitNetloc_append (fun c hc => (hnetloc c hc).2), cut_free hsharp, hvalid, hcut.1, hcut.2]

end Parts

section Hosts

/-- What is after the last `@`. -/
def afterAt (netloc : List Char) : List Char :=
  (netloc.reverse.takeWhile (fun c => c ≠ '@')).reverse

/-- A port that is not empty. -/
def portText : Option (List Char) → Option (List Char)
  | some (c :: port) => some (c :: port)
  | _ => none

/-- `_hostinfo`. -/
def hostinfo (netloc : List Char) : List Char × Option (List Char) :=
  match cut '[' (afterAt netloc) with
  | (_, some bracketed) =>
    let host := cut ']' bracketed
    (host.1, portText (cut ':' (host.2.getD [])).2)
  | (plain, none) =>
    let host := cut ':' plain
    (host.1, portText host.2)

/-- `SplitResult.hostname`, in lower case but for a zone. -/
def hostname (lower : List Char → List Char) (netloc : List Char) : Option (List Char) :=
  let host := (hostinfo netloc).1
  if host = [] then none
  else some (lower (cut '%' host).1 ++ ((cut '%' host).2.map (fun zone => '%' :: zone)).getD [])

/-- `SplitResult.port`, or nothing if it is not a number of a port. -/
def port (netloc : List Char) : Option (Option Nat) :=
  match (hostinfo netloc).2 with
  | none => some none
  | some text =>
    if text.all Char.isDigit ∧ Nat.ofDigitChars 10 text 0 ≤ 65535 then
      some (some (Nat.ofDigitChars 10 text 0))
    else none

/-- What follows the host: nothing, or a colon and a number. -/
def portSuffix (port : Option Nat) : List Char :=
  (port.map (fun n => ':' :: Nat.toDigits 10 n)).getD []

/-- A network location, with the host in brackets if it has a colon. -/
def netlocText (host : List Char) (port : Option Nat) : List Char :=
  (if ':' ∈ host then '[' :: host ++ [']'] else host) ++ portSuffix port

/-- A host without the delimiters of a network location, apart from colons. -/
def HostText (host : List Char) : Prop :=
  ∀ c ∈ host, c ≠ '@' ∧ c ≠ '[' ∧ c ≠ ']' ∧ c ≠ '%'

variable {netloc host : List Char} {c : Char} {n : Nat}

theorem afterAt_self (h : '@' ∉ netloc) : afterAt netloc = netloc := by
  have hall : ∀ c ∈ netloc.reverse, decide (c ≠ '@') = true := by
    intro c hc
    refine decide_eq_true (fun e => h ?_)
    rw [← e]
    exact mem_reverse.mp hc
  rw [afterAt, takeWhile_eq_self_iff.mpr hall, reverse_reverse]

theorem mem_hostinfo (h : c ∈ (hostinfo netloc).1) : c ∈ netloc := by
  have hat : ∀ d ∈ afterAt netloc, d ∈ netloc := fun d hd =>
    mem_reverse.mp ((takeWhile_sublist _).subset (mem_reverse.mp hd))
  unfold hostinfo at h
  cases hcut : cut '[' (afterAt netloc) with
  | mk plain bracketed =>
    cases bracketed with
    | none =>
      simp only [hcut] at h
      refine hat c (mem_cut_fst (c := '[') ?_)
      rw [hcut]
      exact mem_cut_fst h
    | some bracketed =>
      simp only [hcut] at h
      refine hat c (mem_cut_snd (c := '[') ?_)
      rw [hcut]
      exact mem_cut_fst h

theorem digit_of_mem (h : c ∈ Nat.toDigits 10 n) : c.isDigit = true :=
  Nat.isDigit_of_mem_toDigits (by omega) (by omega) h

theorem not_mem_digits (hc : c.isDigit = false) : c ∉ Nat.toDigits 10 n := by
  intro h
  rw [digit_of_mem h] at hc
  cases hc

/-- A text with a number behind a character that is no digit is told apart at the last one. -/
theorem append_digits_inj {s s' : List Char} {n' : Nat} (hc : c.isDigit = false)
    (h : s ++ c :: Nat.toDigits 10 n = s' ++ c :: Nat.toDigits 10 n') : s = s' ∧ n = n' := by
  have hreverse : ∀ (t : List Char) (k : Nat), (t ++ c :: Nat.toDigits 10 k).reverse =
      (Nat.toDigits 10 k).reverse ++ c :: t.reverse := by
    intro t k
    simp
  have hfree : ∀ k : Nat, c ∉ (Nat.toDigits 10 k).reverse := fun k hmem =>
    not_mem_digits hc (mem_reverse.mp hmem)
  have hcut : cut c (s ++ c :: Nat.toDigits 10 n).reverse =
      cut c (s' ++ c :: Nat.toDigits 10 n').reverse := by rw [h]
  rw [hreverse, hreverse, cut_append (hfree n), cut_append (hfree n')] at hcut
  rcases Prod.mk.inj hcut with ⟨hdigits, hrest⟩
  refine ⟨reverse_injective (Option.some.inj hrest), ?_⟩
  have hsame := reverse_injective hdigits
  rw [← Nat.ofDigitChars_ten_toDigits (n := n), hsame, Nat.ofDigitChars_ten_toDigits]

theorem not_mem_portSuffix {port : Option Nat} (hcolon : c ≠ ':') (hc : c.isDigit = false) :
    c ∉ portSuffix port := by
  cases port with
  | none => exact not_mem_nil
  | some n =>
    intro h
    rcases mem_cons.mp h with e | h
    · exact hcolon e
    · exact not_mem_digits hc h

theorem cut_portSuffix (h : ':' ∉ host) (port : Option Nat) :
    (cut ':' (host ++ portSuffix port)).1 = host ∧
      portText (cut ':' (host ++ portSuffix port)).2 = port.map (Nat.toDigits 10) := by
  cases port with
  | none =>
    have hnil : host ++ portSuffix none = host := append_nil host
    rw [hnil, cut_free h]
    exact ⟨rfl, rfl⟩
  | some n =>
    have hcut : cut ':' (host ++ portSuffix (some n)) = (host, some (Nat.toDigits 10 n)) :=
      cut_append h
    rw [hcut]
    refine ⟨rfl, ?_⟩
    cases hn : Nat.toDigits 10 n with
    | nil => exact absurd hn Nat.toDigits_ne_nil
    | cons c digits =>
      change some (c :: digits) = some (Nat.toDigits 10 n)
      rw [hn]

/-- The host and the port of a network location come back. -/
theorem hostinfo_netlocText (h : HostText host) (port : Option Nat) :
    hostinfo (netlocText host port) = (host, port.map (Nat.toDigits 10)) := by
  have hfree : ∀ c : Char, c = '@' ∨ c = '[' ∨ c = ']' → c ∉ host ∧ c ∉ portSuffix port := by
    intro c hc
    rcases hc with rfl | rfl | rfl
    · exact ⟨fun hmem => (h _ hmem).1 rfl, not_mem_portSuffix (by decide) (by decide)⟩
    · exact ⟨fun hmem => (h _ hmem).2.1 rfl, not_mem_portSuffix (by decide) (by decide)⟩
    · exact ⟨fun hmem => (h _ hmem).2.2.1 rfl, not_mem_portSuffix (by decide) (by decide)⟩
  by_cases hcolon : ':' ∈ host
  · have htext : netlocText host port = '[' :: (host ++ ']' :: portSuffix port) := by
      rw [netlocText, if_pos hcolon, cons_append, cons_append,
        append_assoc, singleton_append]
    have hat : '@' ∉ '[' :: (host ++ ']' :: portSuffix port) := by
      simp only [mem_cons, mem_append, not_or]
      exact ⟨by decide, (hfree '@' (.inl rfl)).1, by decide, (hfree '@' (.inl rfl)).2⟩
    have hopen : cut '[' ('[' :: (host ++ ']' :: portSuffix port))
        = ([], some (host ++ ']' :: portSuffix port)) := by
      rw [cut, if_pos rfl]
    have hclose : cut ']' (host ++ ']' :: portSuffix port) = (host, some (portSuffix port)) :=
      cut_append (hfree ']' (.inr (.inr rfl))).1
    have hport := @cut_portSuffix [] not_mem_nil port
    rw [nil_append] at hport
    unfold hostinfo
    rw [htext, afterAt_self hat, hopen]
    simp [hclose, hport.2]
  · have htext : netlocText host port = host ++ portSuffix port := by
      rw [netlocText, if_neg hcolon]
    have hat : '@' ∉ host ++ portSuffix port := by
      rw [mem_append, not_or]
      exact hfree '@' (.inl rfl)
    have hopen : cut '[' (host ++ portSuffix port) = (host ++ portSuffix port, none) := by
      refine cut_free ?_
      rw [mem_append, not_or]
      exact hfree '[' (.inr (.inl rfl))
    have hport := cut_portSuffix hcolon port
    unfold hostinfo
    rw [htext, afterAt_self hat, hopen]
    simp only [hport.1, hport.2]

theorem hostname_netlocText {lower : List Char → List Char} (h : HostText host) (hne : host ≠ [])
    (port : Option Nat) : hostname lower (netlocText host port) = some (lower host) := by
  have hfree : '%' ∉ host := fun hmem => (h _ hmem).2.2.2 rfl
  unfold hostname
  rw [hostinfo_netlocText h]
  simp [hne, cut_free hfree]

/-- The number of the port comes back. -/
theorem port_netlocText (h : HostText host) {p : Option Nat} (hp : ∀ n, p = some n → n ≤ 65535) :
    port (netlocText host p) = some p := by
  unfold port
  rw [hostinfo_netlocText h]
  cases p with
  | none => rfl
  | some n =>
    have hdigits : (Nat.toDigits 10 n).all Char.isDigit = true :=
      all_eq_true.mpr (fun c hc => digit_of_mem hc)
    simp [hdigits, hp n rfl]

end Hosts

end UrlParse
