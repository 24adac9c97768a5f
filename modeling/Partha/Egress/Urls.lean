import Partha.Canonical.Paths
import Partha.Library.UrlParse

/-!
# Canonical Destinations

How the egress policy brings the URL of a provider into one form, so that two of
them can be compared exactly.

The URL is refused if it has characters that parsers treat differently, and is
then split. The host is an address in its canonical spelling, or a DNS name in its
ASCII form. Numeric names are refused before the ASCII form is made, because
libraries do not agree on the address that is meant. The path consists of whole
segments.

The form is meant to be final, but it is not for every host and every path. The
ASCII form of a name can look numeric, when the name is written with other
digits, and then it is refused when it comes back. And a slash at the end of the
path is dropped, which can bring a blank to the end of the URL.
`normalizeBaseUrl_again` says that nothing else happens to it.

What is taken from the standard library is taken as given, with what is known
about it: the encodings of texts and the addresses.

## Main definitions

* `Codecs`, `Ipaddress`: What is taken as given.
* `canonicalHost`: `_canonical_host`.
* `normalisePath`: `_normalise_path`.
* `normaliseUrl`: `_normalise_url`.
* `Normal`: The form of a destination.
* `Stable`: A URL whose form is final.

## Theorems

* `normaliseUrl_normal`: Destinations have the form.
* `normalizeBaseUrl_again`: When the form of a base URL is final.
-/

namespace Partha

namespace Egress

open List hiding splitOn
open Canonical Checked UrlParse

section Given

/-- The lengths of the labels of a name, as a DNS name must have them. -/
def LabelLengths (name : Str) : Prop :=
  ∀ label ∈ splitOn '.' name, 0 < label.length ∧ label.length < 64

/-- What is used of `str` and of the codecs. -/
class Codecs where
  /-- `str.lower`. -/
  lower : Str → Str
  /-- `str.isspace`, of a character. -/
  isSpace : Char → Bool
  /-- `host.encode("idna").decode("ascii")`, if there is no error. -/
  idna : Str → Option Str
  /-- The test that `urlsplit` makes on the compatibility form of a network location. -/
  nfkcAllows : Str → Bool
  lower_ascii : ∀ s, Ascii s → lower s = s.map Char.toLower
  lower_percent : ∀ s, '%' ∉ s → '%' ∉ lower s
  isSpace_ascii : ∀ c : Char, 0x20 < c.toNat → c.toNat < 128 → isSpace c = false
  idna_ascii : ∀ s e, idna s = some e → Ascii e
  idna_self : ∀ s, Ascii s → LabelLengths s → idna s = some s

export Codecs (lower isSpace idna nfkcAllows)

/-- The characters of an address. -/
def addressChars : List Char :=
  "0123456789abcdef:.".toList

/-- What is used of `ipaddress`: the two kinds of addresses, and their classes. -/
class Ipaddress where
  V4 : Type
  V6 : Type
  decV4 : DecidableEq V4
  decV6 : DecidableEq V6
  /-- `ip_address`, if there is no error. -/
  parse : Str → Option (V4 ⊕ V6)
  /-- `str`. -/
  text : V4 ⊕ V6 → Str
  scopeId : V6 → Option Str
  ipv4Mapped : V6 → Option V4
  isUnspecified : V4 ⊕ V6 → Bool
  isMulticast : V4 ⊕ V6 → Bool
  isLinkLocal : V4 ⊕ V6 → Bool
  isLoopback : V4 ⊕ V6 → Bool
  isReserved : V4 ⊕ V6 → Bool
  isGlobal : V4 ⊕ V6 → Bool
  isPrivate : V4 ⊕ V6 → Bool
  /-- A network, by the membership test. -/
  Network : Type
  parseNetwork : Str → Option Network
  contains : Network → V4 ⊕ V6 → Bool
  parse_text : ∀ a, (∀ b, a = .inr b → scopeId b = none) → parse (text a) = some a
  parse_scope : ∀ s b, parse s = some (.inr b) → '%' ∉ s → scopeId b = none
  text_chars : ∀ a, (∀ b, a = .inr b → scopeId b = none) → ∀ c ∈ text a, c ∈ addressChars
  text_colon : ∀ a, ':' ∈ text a ↔ ∃ b, a = .inr b
  text_end : ∀ a, (∀ b, a = .inr b → scopeId b = none) →
    text a ≠ [] ∧ (text a).getLast? ≠ some '.'
  parse_canonical : ∀ s a, parse s = some a → ':' ∉ s → text a = s

export Ipaddress (V4 V6 Network)

instance [Ipaddress] : DecidableEq V4 := Ipaddress.decV4

instance [Ipaddress] : DecidableEq V6 := Ipaddress.decV6

/-- `IPv4Address | IPv6Address`. -/
abbrev IPAddress [Ipaddress] := V4 ⊕ V6

/-- An address without a scope. -/
def Unscoped [Ipaddress] (a : IPAddress) : Prop :=
  ∀ b, a = .inr b → Ipaddress.scopeId b = none

end Given

section Definitions

/-- `DestinationPolicyError`, with its hint. -/
structure DestinationPolicyError where
  hint : Option Str
  deriving DecidableEq

/-- `str` of the error, whose `MESSAGE` comes first. -/
def DestinationPolicyError.message (e : DestinationPolicyError) : Str :=
  match e.hint with
  | some hint => "AI provider destination is not permitted. ".toList ++ hint
  | none => "AI provider destination is not permitted.".toList

/-- `_deny()`. -/
def deny {α : Type} : Except DestinationPolicyError α :=
  .error ⟨none⟩

/-- `NormalizedDestination`. -/
structure NormalizedDestination where
  scheme : Str
  host : Str
  port : Nat
  path : Str
  query : Str
  deriving DecidableEq

/-- `_DEFAULT_PORTS`. -/
def defaultPort (scheme : Str) : Nat :=
  if scheme = "https".toList then 443 else 80

/-- The port, if it is written out. -/
def NormalizedDestination.explicitPort (d : NormalizedDestination) : Option Nat :=
  if d.port = defaultPort d.scheme then none else some d.port

/-- `authority`. -/
def NormalizedDestination.authority (d : NormalizedDestination) : Str :=
  netlocText d.host d.explicitPort

/-- `base_url`. -/
def NormalizedDestination.baseUrl (d : NormalizedDestination) : Str :=
  urlunsplit ⟨d.scheme, d.authority, d.path, [], []⟩

def isLowerAlnum (c : Char) : Bool :=
  c.isLower || c.isDigit

/-- `_HOST_LABEL`. -/
def isHostLabel (label : Str) : Bool :=
  label.length ≤ 63 && label.head?.any isLowerAlnum && label.getLast?.any isLowerAlnum &&
    label.all (fun c => isLowerAlnum c || c = '-')

/-- `path.rstrip("/")`. -/
def rstripSlashes (path : Str) : Str :=
  (path.reverse.dropWhile (fun c => c = '/')).reverse

/-- `_normalise_path`. -/
def normalisePath (path : Str) : Except DestinationPolicyError Str :=
  if path = [] then .ok ['/']
  else if path.head? ≠ some '/' ∨ '\\' ∈ path ∨ '%' ∈ path then deny
  else if (splitOn '/' path).any (fun s => s = ['.'] ∨ s = ['.', '.']) then deny
  else if ((splitOn '/' path).drop 1).dropLast.any (fun s => s = []) then deny
  else .ok (if rstripSlashes path = [] then ['/'] else rstripSlashes path)

/-- The checks on a name in its ASCII form. -/
def checkName (host : Str) : Except DestinationPolicyError Str :=
  if 253 < host.length ∨ host = [] ∨ host.head? = some '.' ∨ host.getLast? = some '.' then deny
  else if (splitOn '.' host).any (fun label => isHostLabel label = false) then deny
  else .ok host

variable [Codecs]

/-- A host that libraries read as different addresses. -/
def looksNumeric (host : Str) : Bool :=
  host.all (fun c => c.isDigit || c = '.') || ['0', 'x'].isPrefixOf (lower host)

/-- `value.strip()`. -/
def strip (value : Str) : Str :=
  ((value.dropWhile isSpace).reverse.dropWhile isSpace).reverse

variable [Ipaddress]

/-- `_check_bracketed_host`. -/
def validBracketed (host : Str) : Bool :=
  match host with
  | 'v' :: rest =>
    let version := cut '.' rest
    version.1 ≠ [] && version.1.all (fun c => c.isDigit || 'a' ≤ c.toLower && c.toLower ≤ 'f') &&
      version.2.getD [] ≠ []
  | host =>
    match Ipaddress.parse host with
    | some (.inr _) => true
    | _ => false

/-- The brackets of a network location, as `urlsplit` checks them. -/
def validBrackets (netloc : Str) : Bool :=
  if '[' ∈ netloc then
    ']' ∈ netloc &&
      match cut '[' (afterAt netloc) with
      | ([], some bracketed) =>
        let host := cut ']' bracketed
        (host.2.getD []).head?.all (fun c => c = ':') && validBracketed host.1
      | (_, some _) => false
      | (plain, none) => validBracketed (cut ':' plain).1
  else ']' ∉ netloc

/-- The network locations that `urlsplit` allows. -/
def validNetloc (netloc : Str) : Bool :=
  validBrackets netloc && (netloc.all (fun c => c.toNat < 128) || nfkcAllows netloc)

/-- The host without the dot of a fully qualified name. -/
def trimDot (rawHost : Str) : Str :=
  if rawHost.getLast? = some '.' then rawHost.dropLast else rawHost

/-- `_canonical_host`. -/
def canonicalHost (rawHost : Str) : Except DestinationPolicyError Str :=
  if ['.', '.'].isSuffixOf rawHost then deny
  else if trimDot rawHost = [] then deny
  else
    match Ipaddress.parse (trimDot rawHost) with
    | some a => .ok (Ipaddress.text a)
    | none =>
      if looksNumeric (trimDot rawHost) then deny
      else
        match idna (trimDot rawHost) with
        | none => deny
        | some encoded => checkName (encoded.map Char.toLower)

/-- `_normalise_url`, once the value is split. -/
def normaliseParts (parsed : SplitResult) (allowQuery : Bool) :
    Except DestinationPolicyError NormalizedDestination :=
  let scheme := lower parsed.scheme
  if (scheme ≠ "http".toList ∧ scheme ≠ "https".toList) ∨ parsed.netloc = [] ∨
      parsed.fragment ≠ [] then deny
  -- Without an at sign there is neither a username nor a password.
  else if '@' ∈ parsed.netloc then deny
  else if allowQuery = false ∧ parsed.query ≠ [] then deny
  else
    match hostname lower parsed.netloc, UrlParse.port parsed.netloc with
    | some rawHost, some port =>
      if (afterAt parsed.netloc).getLast? = some ':' then deny
      else do
        let host ← canonicalHost rawHost
        let port := port.getD (defaultPort scheme)
        if port < 1 ∨ 65535 < port then deny
        else do
          let path ← normalisePath parsed.path
          .ok
            { scheme := scheme
              host := host
              port := port
              path := path
              query := if allowQuery then parsed.query else [] }
    | _, _ => deny

/-- `_normalise_url`, of a string. -/
def normaliseText (value : Str) (allowQuery : Bool) :
    Except DestinationPolicyError NormalizedDestination :=
  if value = [] ∨ value ≠ strip value then deny
  else if value.any (fun c => c.toNat ≤ 0x20) ∨ '\\' ∈ value ∨ '%' ∈ value then deny
  else if '#' ∈ value ∨ allowQuery = false ∧ '?' ∈ value then deny
  else
    match urlsplit validNetloc value with
    | none => deny
    | some parsed => normaliseParts parsed allowQuery

/-- `_normalise_url`. -/
def normaliseUrl (value : Option Str) (allowQuery : Bool) :
    Except DestinationPolicyError NormalizedDestination :=
  match value with
  | none => deny
  | some value => normaliseText value allowQuery

/-- `normalize_base_url`. -/
def normalizeBaseUrl (value : Option Str) : Except DestinationPolicyError NormalizedDestination :=
  normaliseUrl value false

/-- `normalize_request_url`. -/
def normalizeRequestUrl (value : Option Str) :
    Except DestinationPolicyError NormalizedDestination :=
  normaliseUrl value true

end Definitions

section Paths

theorem deny_ne_ok {α : Type} {a : α} : (deny : Except DestinationPolicyError α) ≠ .ok a :=
  fun h => by cases h

/-- The path that is made of whole segments. -/
structure PathOf (segments : List Str) (path : Str) : Prop where
  joined : path = '/' :: joinWith '/' segments
  plain : ∀ s ∈ segments, Plain s ∧ '/' ∉ s
  noPercent : '%' ∉ path
  noBackslash : '\\' ∉ path

variable {path q : Str} {segments : List Str}

theorem rstripSlashes_self (h : path.getLast? ≠ some '/') : rstripSlashes path = path := by
  unfold rstripSlashes
  rw [← List.head?_reverse] at h
  cases hr : path.reverse with
  | nil =>
    rw [reverse_eq_nil_iff.mp hr]
    rfl
  | cons c rest =>
    rw [hr] at h
    have hc : ¬ (decide (c = '/') = true) := by
      rw [decide_eq_true_eq]
      exact fun e => h (by rw [e]; rfl)
    rw [dropWhile_cons, if_neg hc, ← hr, reverse_reverse]

theorem rstripSlashes_slash (path : Str) : rstripSlashes (path ++ ['/']) = rstripSlashes path := by
  unfold rstripSlashes
  rw [reverse_append]
  rfl

theorem getLast?_joinWith {c : Char} {parts : List Str} {s : Str} (hs : s ≠ []) :
    (joinWith c (parts ++ [s])).getLast? = s.getLast? := by
  cases parts with
  | nil => rfl
  | cons t parts =>
    rw [joinWith_concat (cons_ne_nil t parts),
      List.getLast?_append_of_ne_nil _ (cons_ne_nil c s)]
    cases s with
    | nil => exact absurd rfl hs
    | cons d s => rw [List.getLast?_cons_cons]

/-- A path of whole segments does not end with a slash, unless there are none. -/
theorem PathOf.rstrip (h : PathOf segments path) (hne : segments ≠ []) :
    rstripSlashes path = path := by
  refine rstripSlashes_self ?_
  rcases eq_nil_or_concat segments with rfl | ⟨init, s, rfl⟩
  · exact absurd rfl hne
  rw [concat_eq_append] at h
  have hs := h.plain s (mem_append_right _ (mem_singleton_self s))
  have hlast : path.getLast? = s.getLast? := by
    rw [h.joined, ← getLast?_joinWith (c := '/') hs.1.nonempty]
    cases hj : joinWith '/' (init ++ [s]) with
    | nil =>
      have hnone := @getLast?_joinWith '/' init s hs.1.nonempty
      rw [hj] at hnone
      exact absurd (List.getLast?_eq_none_iff.mp hnone.symm) hs.1.nonempty
    | cons d rest => rw [List.getLast?_cons_cons]
  rw [hlast]
  intro e
  exact hs.2 (mem_of_getLast? e)

theorem splitOn_slash (rest : Str) : splitOn '/' ('/' :: rest) = [] :: splitOn '/' rest := by
  rw [splitOn, if_pos rfl]

theorem PathOf.ne_nil (h : PathOf segments path) : path ≠ [] := by
  rw [h.joined]
  exact cons_ne_nil _ _

theorem pathOf_root : PathOf [] ['/'] :=
  ⟨rfl, fun s h => absurd h not_mem_nil, by decide, by decide⟩

theorem PathOf.rstrip_or (h : PathOf segments path) :
    (if rstripSlashes path = [] then ['/'] else rstripSlashes path) = path := by
  by_cases hne : segments = []
  · rw [h.joined, hne]
    rfl
  · rw [h.rstrip hne, if_neg h.ne_nil]

/-- Segments of which the last may be empty are a path, perhaps with a slash behind. -/
theorem pathOf_segments {parts : List Str} {rest : Str} (hrest : rest = joinWith '/' parts)
    (hslash : ∀ s ∈ parts, '/' ∉ s) (hdots : ∀ s ∈ parts, s ≠ ['.'] ∧ s ≠ ['.', '.'])
    (hinner : ∀ s ∈ parts.dropLast, s ≠ []) (hpercent : '%' ∉ '/' :: rest)
    (hback : '\\' ∉ '/' :: rest) (hne : parts ≠ []) :
    ∃ segments q, PathOf segments q ∧ ('/' :: rest = q ∨ '/' :: rest = q ++ ['/']) := by
  rcases eq_nil_or_concat parts with hnil | ⟨init, last, hparts⟩
  · exact absurd hnil hne
  rw [concat_eq_append] at hparts
  rw [hparts, dropLast_concat] at hinner
  have hplain : ∀ s ∈ init, Plain s ∧ '/' ∉ s := by
    intro s hs
    have hmem : s ∈ parts := by
      rw [hparts]
      exact mem_append_left _ hs
    exact ⟨⟨hinner s hs, (hdots s hmem).1, (hdots s hmem).2⟩, hslash s hmem⟩
  have hlast : last ∈ parts := by
    rw [hparts]
    exact mem_append_right _ (mem_singleton_self last)
  by_cases hempty : last = []
  · -- The last segment is empty, so there is a slash at the end.
    rw [hempty] at hparts
    by_cases hinit : init = []
    · rw [hparts, hinit] at hrest
      rw [hrest]
      exact ⟨[], ['/'], pathOf_root, .inl rfl⟩
    · have hjoin : '/' :: rest = ('/' :: joinWith '/' init) ++ ['/'] := by
        rw [hrest, hparts, joinWith_concat hinit]
        rfl
      rw [hjoin, mem_append, not_or] at hpercent hback
      exact ⟨init, '/' :: joinWith '/' init, ⟨rfl, hplain, hpercent.1, hback.1⟩, .inr hjoin⟩
  · refine ⟨parts, '/' :: rest, ⟨by rw [hrest], ?_, hpercent, hback⟩, .inl rfl⟩
    intro s hs
    rw [hparts] at hs
    rcases mem_append.mp hs with hs | hs
    · exact hplain s hs
    · rw [mem_singleton.mp hs]
      exact ⟨⟨hempty, (hdots last hlast).1, (hdots last hlast).2⟩, hslash last hlast⟩

/-- A path that is accepted is brought to whole segments. -/
theorem normalisePath_eq_ok (h : normalisePath path = .ok q) :
    (∃ segments, PathOf segments q) ∧ ∀ c ∈ q, c = '/' ∨ c ∈ path := by
  unfold normalisePath at h
  by_cases hnil : path = []
  · rw [if_pos hnil] at h
    cases h
    exact ⟨⟨[], pathOf_root⟩, fun c hc => .inl (mem_singleton.mp hc)⟩
  rw [if_neg hnil] at h
  by_cases hchars : path.head? ≠ some '/' ∨ '\\' ∈ path ∨ '%' ∈ path
  · rw [if_pos hchars] at h
    exact absurd h deny_ne_ok
  rw [if_neg hchars] at h
  rw [not_or, not_or, not_not] at hchars
  cases path with
  | nil => exact absurd rfl hnil
  | cons c rest =>
    have hc : c = '/' := Option.some.inj hchars.1
    rw [hc] at h hchars ⊢
    rw [splitOn_slash] at h
    by_cases hdots : (([] :: splitOn '/' rest).any fun s => s = ['.'] ∨ s = ['.', '.']) = true
    · rw [if_pos hdots] at h
      exact absurd h deny_ne_ok
    rw [if_neg hdots] at h
    by_cases hinner : ((([] :: splitOn '/' rest).drop 1).dropLast.any fun s => s = []) = true
    · rw [if_pos hinner] at h
      exact absurd h deny_ne_ok
    rw [if_neg hinner] at h
    -- the parts that passed: no dots, and none empty but perhaps the last
    have hnodots : ∀ s ∈ splitOn '/' rest, s ≠ ['.'] ∧ s ≠ ['.', '.'] := by
      intro s hs
      refine not_or.mp (fun e => hdots (any_eq_true.mpr ⟨s, ?_, decide_eq_true e⟩))
      exact mem_cons_of_mem _ hs
    have hnonempty : ∀ s ∈ (splitOn '/' rest).dropLast, s ≠ [] := fun s hs e =>
      hinner (any_eq_true.mpr ⟨s, hs, decide_eq_true e⟩)
    rcases pathOf_segments (joinWith_splitOn '/' rest).symm (fun s hs => not_mem_part hs)
      hnodots hnonempty hchars.2.2 hchars.2.1 (splitOn_ne_nil '/' rest) with
      ⟨segments, p, hp, heq⟩
    -- a trailing slash is dropped, so that with or without one the path is the same
    have hq : q = p := by
      rcases heq with heq | heq
      · rw [heq, hp.rstrip_or] at h
        exact (Except.ok.inj h).symm
      · rw [heq, rstripSlashes_slash, hp.rstrip_or] at h
        exact (Except.ok.inj h).symm
    rw [hq]
    refine ⟨⟨segments, hp⟩, fun d hd => .inr ?_⟩
    rcases heq with heq | heq
    · rw [heq]
      exact hd
    · rw [heq]
      exact mem_append_left _ hd

theorem normalisePath_rstrip (h : normalisePath path = .ok q) :
    q = if rstripSlashes path = [] then ['/'] else rstripSlashes path := by
  unfold normalisePath at h
  split at h
  · rename_i hnil
    rw [← Except.ok.inj h, hnil]
    rfl
  split at h
  · exact absurd h deny_ne_ok
  split at h
  · exact absurd h deny_ne_ok
  split at h
  · exact absurd h deny_ne_ok
  · exact (Except.ok.inj h).symm

theorem PathOf.split_eq (h : PathOf segments path) :
    splitOn '/' path = [] :: (if segments = [] then [[]] else segments) := by
  rw [h.joined, splitOn_slash]
  by_cases hne : segments = []
  · rw [if_pos hne, hne]
    rfl
  · rw [if_neg hne, splitOn_joinWith (fun s hs => (h.plain s hs).2) hne]

/-- A path of whole segments stays as it is. -/
theorem PathOf.again (h : PathOf segments path) : normalisePath path = .ok path := by
  have hhead : ¬ (path.head? ≠ some '/' ∨ '\\' ∈ path ∨ '%' ∈ path) := by
    rw [not_or, not_or, not_not]
    exact ⟨by rw [h.joined]; rfl, h.noBackslash, h.noPercent⟩
  have hsegments : ∀ s ∈ [] :: (if segments = [] then [[]] else segments), s = [] ∨ Plain s := by
    intro s hs
    rcases mem_cons.mp hs with hs | hs
    · exact .inl hs
    · by_cases hne : segments = []
      · rw [if_pos hne] at hs
        exact .inl (mem_singleton.mp hs)
      · rw [if_neg hne] at hs
        exact .inr (h.plain s hs).1
  have hdots : ¬ ((splitOn '/' path).any (fun s => s = ['.'] ∨ s = ['.', '.']) = true) := by
    rw [h.split_eq, any_eq_true]
    rintro ⟨s, hs, e⟩
    rcases hsegments s hs with rfl | hplain
    · exact absurd e (by decide)
    · rcases of_decide_eq_true e with e | e
      · exact hplain.noDot e
      · exact hplain.noDots e
  have hinner : ¬ (((splitOn '/' path).drop 1).dropLast.any (fun s => s = []) = true) := by
    rw [h.split_eq, drop_one, tail_cons, any_eq_true]
    rintro ⟨s, hs, e⟩
    by_cases hne : segments = []
    · rw [if_pos hne] at hs
      cases hs
    · rw [if_neg hne] at hs
      exact (h.plain s ((dropLast_sublist _).subset hs)).1.nonempty (of_decide_eq_true e)
  rw [normalisePath, if_neg h.ne_nil, if_neg hhead, if_neg hdots, if_neg hinner, h.rstrip_or]

/-- One path goes on from another by whole segments, if it does after a slash. -/
theorem PathOf.goes_on {base : List Str} {basePath : Str} (hb : PathOf base basePath)
    (h : PathOf segments path) (hpre : basePath ++ ['/'] <+: path) (hne : base ≠ []) :
    base <+: segments := by
  rcases hpre with ⟨t, ht⟩
  have hsegne : segments ≠ [] := by
    rintro rfl
    rw [h.joined, hb.joined, append_assoc] at ht
    have hlen := congrArg List.length ht
    simp only [length_cons, length_append, joinWith, length_nil] at hlen
    omega
  have hjoin : joinWith '/' base ++ '/' :: t = joinWith '/' segments := by
    rw [h.joined, hb.joined, append_assoc] at ht
    exact (List.cons.inj ht).2
  have hsplit := splitOn_joined (fun s hs => (hb.plain s hs).2) hne t
  rw [hjoin, splitOn_joinWith (fun s hs => (h.plain s hs).2) hsegne] at hsplit
  exact ⟨splitOn '/' t, hsplit.symm⟩

end Paths

section Hosts

/-- A DNS name in lower case. -/
structure DnsName (host : Str) : Prop where
  labels : ∀ label ∈ splitOn '.' host, isHostLabel label = true
  short : host.length ≤ 253

variable {c : Char} {label host raw : Str}

theorem isLowerAlnum_range (h : isLowerAlnum c = true) :
    (48 ≤ c.toNat ∧ c.toNat ≤ 57) ∨ (97 ≤ c.toNat ∧ c.toNat ≤ 122) := by
  rcases Bool.or_eq_true_iff.mp h with h | h
  · change (decide ('a'.val ≤ c.val) && decide (c.val ≤ 'z'.val)) = true at h
    simp only [Bool.and_eq_true, decide_eq_true_eq, UInt32.le_iff_toNat_le] at h
    exact .inr h
  · simp only [Char.isDigit, Bool.and_eq_true, decide_eq_true_eq, ge_iff_le,
      UInt32.le_iff_toNat_le] at h
    exact .inl h

/-- The characters of hosts. -/
def HostChar (c : Char) : Prop :=
  isLowerAlnum c = true ∨ c = '-' ∨ c = '.' ∨ c = ':'

theorem HostChar.range (h : HostChar c) :
    45 ≤ c.toNat ∧ c.toNat ≠ 47 ∧ (c.toNat ≤ 58 ∨ 97 ≤ c.toNat) ∧ c.toNat ≤ 122 := by
  rcases h with h | rfl | rfl | rfl
  · have hrange := isLowerAlnum_range h
    omega
  · decide
  · decide
  · decide

/-- The characters that a host does not have. -/
theorem HostChar.ne (h : HostChar c) : ∀ d ∈ ['/', '?', '#', '@', '[', ']', '%', '\\'], c ≠ d := by
  have hout : ∀ d ∈ ['/', '?', '#', '@', '[', ']', '%', '\\'],
      ¬ (45 ≤ d.toNat ∧ d.toNat ≠ 47 ∧ (d.toNat ≤ 58 ∨ 97 ≤ d.toNat) ∧ d.toNat ≤ 122) :=
    forall_mem_of_all (by decide)
  intro d hd e
  exact hout d hd (e ▸ h.range)

theorem addressChars_host : ∀ c ∈ addressChars, HostChar c := by
  intro c hc
  have hall : ∀ c ∈ addressChars, (isLowerAlnum c || c = '-' || c = '.' || c = ':') = true :=
    forall_mem_of_all (by decide)
  have h := hall c hc
  simp only [Bool.or_eq_true, decide_eq_true_eq] at h
  rcases h with ((h | h) | h) | h
  · exact .inl h
  · exact .inr (.inl h)
  · exact .inr (.inr (.inl h))
  · exact .inr (.inr (.inr h))

theorem isHostLabel_iff :
    isHostLabel label = true ↔
      label.length ≤ 63 ∧ (∃ c, label.head? = some c ∧ isLowerAlnum c = true) ∧
      (∃ c, label.getLast? = some c ∧ isLowerAlnum c = true) ∧
      ∀ c ∈ label, isLowerAlnum c = true ∨ c = '-' := by
  simp [isHostLabel, Option.any_eq_true, and_assoc]

theorem isHostLabel_ne_nil (h : isHostLabel label = true) : label ≠ [] := by
  rintro rfl
  exact absurd h (by decide)

theorem DnsName.chars (h : DnsName host) :
    ∀ c ∈ host, isLowerAlnum c = true ∨ c = '-' ∨ c = '.' := by
  intro c hc
  rw [← joinWith_splitOn '.' host] at hc
  rcases mem_joinWith hc with hdot | ⟨label, hlabel, hc⟩
  · exact .inr (.inr hdot)
  · rcases (isHostLabel_iff.mp (h.labels label hlabel)).2.2.2 c hc with hc | hc
    · exact .inl hc
    · exact .inr (.inl hc)

theorem DnsName.hostChars (h : DnsName host) : ∀ c ∈ host, HostChar c := by
  intro c hc
  rcases h.chars c hc with hc | hc | hc
  · exact .inl hc
  · exact .inr (.inl hc)
  · exact .inr (.inr (.inl hc))

theorem DnsName.noColon (h : DnsName host) : ':' ∉ host := by
  intro hc
  rcases h.chars ':' hc with hc | hc | hc
  · exact absurd hc (by decide)
  · exact absurd hc (by decide)
  · exact absurd hc (by decide)

theorem DnsName.ne_nil (h : DnsName host) : host ≠ [] := by
  rintro rfl
  exact absurd (h.labels [] (mem_singleton_self [])) (by decide)

theorem alnum_ne_dot (h : isLowerAlnum c = true) : c ≠ '.' := by
  rintro rfl
  exact absurd h (by decide)

theorem DnsName.getLast_ne (h : DnsName host) : host.getLast? ≠ some '.' := by
  rcases eq_nil_or_concat (splitOn '.' host) with hnil | ⟨init, label, hsplit⟩
  · exact absurd hnil (splitOn_ne_nil '.' host)
  rw [concat_eq_append] at hsplit
  have hlabel := h.labels label (by
    rw [hsplit]
    exact mem_append_right _ (mem_singleton_self label))
  rcases (isHostLabel_iff.mp hlabel).2.2.1 with ⟨c, hc, halnum⟩
  rw [← joinWith_splitOn '.' host, hsplit, getLast?_joinWith (isHostLabel_ne_nil hlabel), hc]
  exact fun e => alnum_ne_dot halnum (Option.some.inj e)

theorem DnsName.head_ne (h : DnsName host) : host.head? ≠ some '.' := by
  intro hdot
  cases host with
  | nil => cases hdot
  | cons c rest =>
    have hsplit : [] ∈ splitOn '.' (c :: rest) := by
      rw [splitOn, if_pos (Option.some.inj hdot)]
      exact mem_cons_self
    exact isHostLabel_ne_nil (h.labels [] hsplit) rfl

theorem DnsName.ascii (h : DnsName host) : Ascii host := by
  intro c hc
  have hrange := (h.hostChars c hc).range
  omega

theorem DnsName.labelLengths (h : DnsName host) : LabelLengths host := by
  intro label hlabel
  have hok := h.labels label hlabel
  have hlen := (isHostLabel_iff.mp hok).1
  have hpos := length_pos_iff.mpr (isHostLabel_ne_nil hok)
  omega

theorem HostChar.toLower (h : HostChar c) : c.toLower = c := by
  have hrange := h.range
  have hupper : ¬ (c.val ≥ 'A'.val ∧ c.val ≤ 'Z'.val) := by
    intro hupper
    have hlow : 65 ≤ c.toNat := UInt32.le_iff_toNat_le.mp hupper.1
    have hhigh : c.toNat ≤ 90 := UInt32.le_iff_toNat_le.mp hupper.2
    omega
  exact dif_neg hupper

theorem DnsName.lowered (h : DnsName host) : host.map Char.toLower = host := by
  refine (map_congr_left (fun c hc => ?_)).trans (map_id host)
  exact (h.hostChars c hc).toLower

theorem checkName_eq_ok {h : Str} : checkName host = .ok h ↔ h = host ∧ DnsName host := by
  unfold checkName
  by_cases hshape : 253 < host.length ∨ host = [] ∨ host.head? = some '.' ∨ host.getLast? = some '.'
  · rw [if_pos hshape]
    refine iff_of_false deny_ne_ok (fun hd => ?_)
    rcases hshape with hlen | hnil | hhead | hlast
    · have hshort := hd.2.short
      omega
    · exact hd.2.ne_nil hnil
    · exact hd.2.head_ne hhead
    · exact hd.2.getLast_ne hlast
  rw [if_neg hshape]
  by_cases hlabels : (splitOn '.' host).any (fun label => isHostLabel label = false) = true
  · rw [if_pos hlabels]
    refine iff_of_false deny_ne_ok (fun hd => ?_)
    rcases any_eq_true.mp hlabels with ⟨label, hlabel, hbad⟩
    rw [hd.2.labels label hlabel] at hbad
    exact absurd hbad (by decide)
  · rw [if_neg hlabels, Except.ok.injEq]
    rw [not_or] at hshape
    have hname : DnsName host := by
      refine ⟨fun label hlabel => ?_, Nat.not_lt.mp hshape.1⟩
      by_contra hbad
      refine hlabels (any_eq_true.mpr ⟨label, hlabel, decide_eq_true ?_⟩)
      exact Bool.eq_false_iff.mpr hbad
    exact ⟨fun e => ⟨e.symm, hname⟩, fun e => e.1.symm⟩

theorem trimDot_self (h : host.getLast? ≠ some '.') : trimDot host = host :=
  if_neg h

theorem not_dots (h : host.getLast? ≠ some '.') : ¬ (['.', '.'].isSuffixOf host = true) := by
  rw [isSuffixOf_iff_suffix]
  rintro ⟨t, rfl⟩
  refine h ?_
  rw [List.getLast?_append_of_ne_nil _ (by decide)]
  rfl

theorem mem_trimDot (h : c ∈ trimDot host) : c ∈ host := by
  unfold trimDot at h
  split at h
  · exact (dropLast_sublist _).subset h
  · exact h

variable [Ipaddress]

/-- What is known of a host in its final form. -/
def HostShape (host : Str) : Prop :=
  (∃ a, Unscoped a ∧ host = Ipaddress.text a) ∨ DnsName host

theorem HostShape.chars (h : HostShape host) : ∀ c ∈ host, HostChar c := by
  rcases h with ⟨a, ha, rfl⟩ | h
  · exact fun c hc => addressChars_host c (Ipaddress.text_chars a ha c hc)
  · exact h.hostChars

/-- A host with a colon is an address of the second kind. -/
theorem HostShape.parse (h : HostShape host) (hcolon : ':' ∈ host) :
    ∃ b, Ipaddress.parse host = some (.inr b) := by
  rcases h with ⟨a, ha, rfl⟩ | h
  · rcases (Ipaddress.text_colon a).mp hcolon with ⟨b, rfl⟩
    exact ⟨b, Ipaddress.parse_text _ ha⟩
  · exact absurd hcolon h.noColon

/-- A host with a colon is allowed in brackets. -/
theorem HostShape.bracketed (h : HostShape host) (hcolon : ':' ∈ host) :
    validBracketed host = true := by
  rcases h.parse hcolon with ⟨b, hb⟩
  cases host with
  | nil => cases hcolon
  | cons c rest =>
    -- No address begins with the letter of the future versions.
    have hc : c ≠ 'v' := by
      rintro rfl
      rcases h with ⟨a, ha, htext⟩ | hname
      · have hmem : 'v' ∈ Ipaddress.text a := by
          rw [← htext]
          exact mem_cons_self
        exact absurd (Ipaddress.text_chars a ha _ hmem) (by decide)
      · exact absurd hcolon hname.noColon
    unfold validBracketed
    split
    · rename_i rest' heq
      exact absurd (List.cons.inj heq).1 hc
    · rw [hb]

theorem HostShape.ne_nil (h : HostShape host) : host ≠ [] := by
  rcases h with ⟨a, ha, rfl⟩ | h
  · exact (Ipaddress.text_end a ha).1
  · exact h.ne_nil

variable [Codecs]

/-- A host comes from an address, or from a name in its ASCII form. -/
theorem canonicalHost_eq_ok (h : canonicalHost raw = .ok host) :
    (∃ a, Ipaddress.parse (trimDot raw) = some a ∧ host = Ipaddress.text a) ∨
      Ipaddress.parse (trimDot raw) = none ∧ DnsName host ∧
        ∃ encoded, idna (trimDot raw) = some encoded ∧ host = encoded.map Char.toLower := by
  unfold canonicalHost at h
  by_cases hdots : ['.', '.'].isSuffixOf raw = true
  · rw [if_pos hdots] at h
    exact absurd h deny_ne_ok
  rw [if_neg hdots] at h
  by_cases hnil : trimDot raw = []
  · rw [if_pos hnil] at h
    exact absurd h deny_ne_ok
  rw [if_neg hnil] at h
  cases hparse : Ipaddress.parse (trimDot raw) with
  | some a =>
    simp only [hparse] at h
    exact .inl ⟨a, rfl, (Except.ok.inj h).symm⟩
  | none =>
    simp only [hparse] at h
    by_cases hnumeric : looksNumeric (trimDot raw) = true
    · rw [if_pos hnumeric] at h
      exact absurd h deny_ne_ok
    rw [if_neg hnumeric] at h
    cases hidna : idna (trimDot raw) with
    | none =>
      simp only [hidna] at h
      exact absurd h deny_ne_ok
    | some encoded =>
      simp only [hidna] at h
      rcases checkName_eq_ok.mp h with ⟨rfl, hname⟩
      exact .inr ⟨rfl, hname, encoded, rfl, rfl⟩

theorem canonicalHost_shape (h : canonicalHost raw = .ok host) (hscope : '%' ∉ raw) :
    HostShape host := by
  rcases canonicalHost_eq_ok h with ⟨a, hparse, rfl⟩ | ⟨_, hname, _⟩
  · refine .inl ⟨a, fun b hb => ?_, rfl⟩
    rw [hb] at hparse
    exact Ipaddress.parse_scope _ b hparse (fun hmem => hscope (mem_trimDot hmem))
  · exact .inr hname

/-- The text of an address is its own canonical form. -/
theorem canonicalHost_text {a : IPAddress} (ha : Unscoped a) :
    canonicalHost (Ipaddress.text a) = .ok (Ipaddress.text a) := by
  have hend := Ipaddress.text_end a ha
  unfold canonicalHost
  rw [if_neg (not_dots hend.2), trimDot_self hend.2, if_neg hend.1]
  simp only [Ipaddress.parse_text a ha]

/-- A name in its ASCII form stays as it is, unless it looks numeric. -/
theorem canonicalHost_name (h : DnsName host) :
    canonicalHost host = .ok host ↔
      (Ipaddress.parse host).isSome = true ∨ looksNumeric host = false := by
  unfold canonicalHost
  rw [if_neg (not_dots h.getLast_ne), trimDot_self h.getLast_ne, if_neg h.ne_nil]
  cases hparse : Ipaddress.parse host with
  | some a =>
    simp only [Option.isSome_some, true_or, iff_true]
    rw [Ipaddress.parse_canonical host a hparse h.noColon]
  | none =>
    simp only [Option.isSome_none, Bool.false_eq_true, false_or]
    by_cases hnumeric : looksNumeric host = true
    · rw [if_pos hnumeric, hnumeric]
      exact iff_of_false deny_ne_ok (by decide)
    · rw [if_neg hnumeric, Codecs.idna_self host h.ascii h.labelLengths]
      simp only [h.lowered]
      exact iff_of_true (checkName_eq_ok.mpr ⟨rfl, h⟩) (Bool.eq_false_iff.mpr hnumeric)

/-- The host of a URL, if its form is final. -/
def StableHost (rawHost : Str) : Prop :=
  (Ipaddress.parse (trimDot rawHost)).isSome = true ∨
    ∀ encoded, idna (trimDot rawHost) = some encoded →
      (Ipaddress.parse (encoded.map Char.toLower)).isSome = true ∨
        looksNumeric (encoded.map Char.toLower) = false

/-- When the form of a host is final. -/
theorem canonicalHost_again (h : canonicalHost raw = .ok host) (hscope : '%' ∉ raw) :
    canonicalHost host = .ok host ↔ StableHost raw := by
  have hshape := canonicalHost_shape h hscope
  rcases canonicalHost_eq_ok h with ⟨a, hparse, rfl⟩ | ⟨hparse, hname, encoded, hidna, rfl⟩
  · have ha : Unscoped a := by
      intro b hb
      rw [hb] at hparse
      exact Ipaddress.parse_scope _ b hparse (fun hmem => hscope (mem_trimDot hmem))
    refine iff_of_true (canonicalHost_text ha) (.inl ?_)
    rw [hparse]
    rfl
  · rw [canonicalHost_name hname, StableHost, hparse]
    simp [hidna]

end Hosts

section Authorities

variable {host : Str} {port : Option Nat} {c : Char}

/-- The characters of a network location. -/
theorem netlocText_chars (h : ∀ c ∈ host, HostChar c) (hc : c ∈ netlocText host port) :
    HostChar c ∨ c = '[' ∨ c = ']' := by
  have hsuffix : ∀ c ∈ portSuffix port, HostChar c := by
    intro c hc
    cases port with
    | none => cases hc
    | some n =>
      rcases mem_cons.mp hc with rfl | hc
      · exact .inr (.inr (.inr rfl))
      · exact .inl (Bool.or_eq_true_iff.mpr (.inr (digit_of_mem hc)))
  unfold netlocText at hc
  rcases mem_append.mp hc with hc | hc
  · split at hc
    · simp only [cons_append, mem_cons, mem_append, not_mem_nil, or_false] at hc
      rcases hc with hc | hc | hc
      · exact .inr (.inl hc)
      · exact .inl (h c hc)
      · exact .inr (.inr hc)
    · exact .inl (h c hc)
  · exact .inl (hsuffix c hc)

/-- A network location has none of the characters that end it or that are refused. -/
theorem netlocText_clean (h : ∀ c ∈ host, HostChar c) (hc : c ∈ netlocText host port) :
    0x20 < c.toNat ∧ c.toNat < 128 ∧
      ∀ d ∈ ['/', '?', '#', '@', '%', '\\'], c ≠ d := by
  rcases netlocText_chars h hc with hc | rfl | rfl
  · have hrange := hc.range
    have hsub : ∀ d ∈ ['/', '?', '#', '@', '%', '\\'],
        d ∈ ['/', '?', '#', '@', '[', ']', '%', '\\'] := forall_mem_of_all (by decide)
    exact ⟨by omega, by omega, fun d hd => hc.ne d (hsub d hd)⟩
  · exact ⟨by decide, by decide, forall_mem_of_all (by decide)⟩
  · exact ⟨by decide, by decide, forall_mem_of_all (by decide)⟩

theorem netlocText_ne_nil (h : host ≠ []) (port : Option Nat) : netlocText host port ≠ [] := by
  unfold netlocText
  split
  · exact cons_ne_nil _ _
  · exact append_ne_nil_of_left_ne_nil h _

/-- A network location does not end with a colon. -/
theorem netlocText_end (host : Str) (port : Option Nat) :
    (netlocText host port).getLast? ≠ some ':' := by
  intro e
  unfold netlocText at e
  cases port with
  | some n =>
    have hsuffix : portSuffix (some n) = ':' :: Nat.toDigits 10 n := rfl
    have hlast : (':' :: Nat.toDigits 10 n).getLast? = (Nat.toDigits 10 n).getLast? := by
      cases hd : Nat.toDigits 10 n with
      | nil => exact absurd hd Nat.toDigits_ne_nil
      | cons c digits => rw [List.getLast?_cons_cons]
    rw [hsuffix, List.getLast?_append_of_ne_nil _ (cons_ne_nil _ _), hlast] at e
    exact not_mem_digits (by decide) (mem_of_getLast? e)
  | none =>
    have hnil : portSuffix none = [] := rfl
    rw [hnil, append_nil] at e
    split at e
    · rw [List.getLast?_append_of_ne_nil _ (cons_ne_nil ']' [])] at e
      exact absurd e (by decide)
    · rename_i hcolon
      exact hcolon (mem_of_getLast? e)

variable [Ipaddress]

theorem HostShape.hostText (h : HostShape host) : HostText host := by
  intro c hc
  have hne := (h.chars c hc).ne
  exact ⟨hne '@' (by decide), hne '[' (by decide), hne ']' (by decide), hne '%' (by decide)⟩

variable [Codecs]

/-- The network location of a host in its final form is valid. -/
theorem validNetloc_netlocText (h : HostShape host) (port : Option Nat) :
    validNetloc (netlocText host port) = true := by
  have hascii : (netlocText host port).all (fun c => c.toNat < 128) = true :=
    all_eq_true.mpr (fun c hc => decide_eq_true (netlocText_clean h.chars hc).2.1)
  have hfree : ∀ c : Char, c = '[' ∨ c = ']' → c ∉ host ∧ c ∉ portSuffix port := by
    intro c hc
    rcases hc with rfl | rfl
    · exact ⟨fun hmem => (h.hostText _ hmem).2.1 rfl, not_mem_portSuffix (by decide) (by decide)⟩
    · exact ⟨fun hmem => (h.hostText _ hmem).2.2.1 rfl,
        not_mem_portSuffix (by decide) (by decide)⟩
  rw [validNetloc, hascii, Bool.true_or, Bool.and_true]
  by_cases hcolon : ':' ∈ host
  · have htext : netlocText host port = '[' :: (host ++ ']' :: portSuffix port) := by
      rw [netlocText, if_pos hcolon, cons_append, cons_append, append_assoc,
        singleton_append]
    have hat : '@' ∉ '[' :: (host ++ ']' :: portSuffix port) := by
      rw [← htext]
      exact fun hmem => (netlocText_clean h.chars hmem).2.2 '@' (by decide) rfl
    have hopen : cut '[' ('[' :: (host ++ ']' :: portSuffix port))
        = ([], some (host ++ ']' :: portSuffix port)) := by
      rw [cut, if_pos rfl]
    have hclose : cut ']' (host ++ ']' :: portSuffix port) = (host, some (portSuffix port)) :=
      cut_append (hfree ']' (.inr rfl)).1
    have hafter : (portSuffix port).head?.all (fun c => c = ':') = true := by
      cases port <;> rfl
    have hboth : '[' ∈ '[' :: (host ++ ']' :: portSuffix port) ∧
        ']' ∈ '[' :: (host ++ ']' :: portSuffix port) :=
      ⟨mem_cons_self, mem_cons_of_mem _ (mem_append_right _ mem_cons_self)⟩
    rw [htext, validBrackets, if_pos hboth.1, decide_eq_true hboth.2, Bool.true_and,
      afterAt_self hat, hopen]
    simp [hclose, hafter, h.bracketed hcolon]
  · have htext : netlocText host port = host ++ portSuffix port := by
      rw [netlocText, if_neg hcolon]
    have hopen : '[' ∉ host ++ portSuffix port := by
      rw [mem_append, not_or]
      exact hfree '[' (.inl rfl)
    have hclose : ']' ∉ host ++ portSuffix port := by
      rw [mem_append, not_or]
      exact hfree ']' (.inr rfl)
    rw [htext, validBrackets, if_neg hopen, decide_eq_true hclose]

end Authorities

section Destinations

variable [Codecs] [Ipaddress]

/-- The form of a destination. -/
structure Normal (d : NormalizedDestination) : Prop where
  scheme : IsWeb d.scheme
  host : HostShape d.host
  port : 1 ≤ d.port ∧ d.port ≤ 65535
  path : ∃ segments, PathOf segments d.path
  pathChars : ∀ c ∈ d.path, 0x20 < c.toNat ∧ c ≠ '?' ∧ c ≠ '#'
  queryChars : ∀ c ∈ d.query, 0x20 < c.toNat ∧ c ≠ '#'

variable {allowQuery : Bool} {d : NormalizedDestination} {value : Option Str} {c : Char}

/-- What is known of a URL that is split and accepted. -/
theorem normaliseParts_eq_ok {parsed : SplitResult} (h : normaliseParts parsed allowQuery = .ok d) :
    IsWeb d.scheme ∧ (1 ≤ d.port ∧ d.port ≤ 65535) ∧ normalisePath parsed.path = .ok d.path ∧
      d.query = (if allowQuery then parsed.query else []) ∧
      ∃ rawHost, hostname lower parsed.netloc = some rawHost ∧
        canonicalHost rawHost = .ok d.host := by
  unfold normaliseParts at h
  simp only at h
  by_cases hscheme : (lower parsed.scheme ≠ "http".toList ∧ lower parsed.scheme ≠ "https".toList) ∨
      parsed.netloc = [] ∨ parsed.fragment ≠ []
  · rw [if_pos hscheme] at h
    exact absurd h deny_ne_ok
  rw [if_neg hscheme] at h
  by_cases hat : '@' ∈ parsed.netloc
  · rw [if_pos hat] at h
    exact absurd h deny_ne_ok
  rw [if_neg hat] at h
  by_cases hquery : allowQuery = false ∧ parsed.query ≠ []
  · rw [if_pos hquery] at h
    exact absurd h deny_ne_ok
  rw [if_neg hquery] at h
  cases hhost : hostname lower parsed.netloc with
  | none =>
    simp only [hhost] at h
    exact absurd h deny_ne_ok
  | some rawHost =>
    cases hport : UrlParse.port parsed.netloc with
    | none =>
      simp only [hhost, hport] at h
      exact absurd h deny_ne_ok
    | some port =>
      simp only [hhost, hport] at h
      split at h
      · exact absurd h deny_ne_ok
      rcases bind_eq_ok.mp h with ⟨host, hcanonical, h⟩
      split at h
      · exact absurd h deny_ne_ok
      · rename_i hrange
        rcases bind_eq_ok.mp h with ⟨path, hpath, h⟩
        cases h
        rw [not_or, not_lt, not_lt] at hrange
        rw [not_or, not_and_or, not_not, not_not] at hscheme
        exact ⟨hscheme.1, hrange, hpath, rfl, rawHost, rfl, hcanonical⟩

/-- What is known of a value that is accepted. -/
theorem normaliseUrl_eq_ok (h : normaliseUrl value allowQuery = .ok d) :
    ∃ v parsed, value = some v ∧ (∀ c ∈ v, 0x20 < c.toNat) ∧ '%' ∉ v ∧ '#' ∉ v ∧
      urlsplit validNetloc v = some parsed ∧ normaliseParts parsed allowQuery = .ok d := by
  unfold normaliseUrl at h
  cases value with
  | none => exact absurd h deny_ne_ok
  | some v =>
    simp only [normaliseText] at h
    split at h
    · exact absurd h deny_ne_ok
    split at h
    · exact absurd h deny_ne_ok
    rename_i hchars
    split at h
    · exact absurd h deny_ne_ok
    rename_i hsharp
    cases hsplit : urlsplit validNetloc v with
    | none =>
      simp only [hsplit] at h
      exact absurd h deny_ne_ok
    | some parsed =>
      simp only [hsplit] at h
      rw [not_or, not_or] at hchars
      rw [not_or] at hsharp
      refine ⟨v, parsed, rfl, fun c hc => ?_, hchars.2.2, hsharp.1, hsplit, h⟩
      by_contra hsmall
      exact hchars.1 (any_eq_true.mpr ⟨c, hc, decide_eq_true (Nat.not_lt.mp hsmall)⟩)

omit [Ipaddress] in
theorem not_mem_hostname {netloc rawHost : Str} (h : hostname lower netloc = some rawHost)
    (hpercent : '%' ∉ netloc) : '%' ∉ rawHost := by
  have hhost : '%' ∉ (hostinfo netloc).1 := fun hmem => hpercent (mem_hostinfo hmem)
  unfold hostname at h
  simp only [cut_free hhost, Option.map_none, Option.getD_none, append_nil] at h
  split at h
  · cases h
  · cases h
    exact Codecs.lower_percent _ hhost

/-- The destinations of accepted values have the form. -/
theorem normaliseUrl_normal (h : normaliseUrl value allowQuery = .ok d) : Normal d := by
  rcases normaliseUrl_eq_ok h with ⟨v, parsed, _, hlarge, hpercent, hsharp, hsplit, hparts⟩
  rcases normaliseParts_eq_ok hparts with ⟨hscheme, hport, hpath, hquery, rawHost, hraw, hhost⟩
  rcases urlsplit_mem hsplit with ⟨hnetloc, hpathmem, hquerymem, hquestion⟩
  rcases normalisePath_eq_ok hpath with ⟨hsegments, hfrom⟩
  have hclean : ∀ c ∈ v, 0x20 < c.toNat ∧ c ≠ '#' := fun c hc =>
    ⟨hlarge c hc, fun e => hsharp (by rw [← e]; exact hc)⟩
  refine ⟨hscheme, ?_, hport, hsegments, fun c hc => ?_, fun c hc => ?_⟩
  · exact canonicalHost_shape hhost
      (not_mem_hostname hraw (fun hmem => hpercent (hnetloc _ hmem)))
  · rcases hfrom c hc with rfl | hmem
    · decide
    · have hv := hclean c (hpathmem c hmem)
      exact ⟨hv.1, fun e => hquestion (by rw [← e]; exact hmem), hv.2⟩
  · rw [hquery] at hc
    split at hc
    · exact hclean c (hquerymem c hc)
    · cases hc

omit [Ipaddress] in
/-- A text that does not begin or end with a blank is not stripped. -/
theorem strip_eq_self {s : Str} (hc : isSpace c = false) :
    c :: s = strip (c :: s) ↔ ∀ e, (c :: s).getLast? = some e → isSpace e = false := by
  have hdrop : (c :: s).dropWhile isSpace = c :: s := by
    rw [dropWhile_cons, hc, if_neg Bool.false_ne_true]
  rw [strip, hdrop]
  constructor
  · intro h e he
    rw [← List.head?_reverse] at he
    have hrev := congrArg List.reverse h
    rw [reverse_reverse] at hrev
    cases hr : (c :: s).reverse with
    | nil => exact absurd (reverse_eq_nil_iff.mp hr) (cons_ne_nil c s)
    | cons d rest =>
      rw [hr] at he hrev
      have hde : d = e := Option.some.inj he
      rw [dropWhile_cons] at hrev
      split at hrev
      · have hlen := congrArg List.length hrev
        have hle := (dropWhile_sublist isSpace (l := rest)).length_le
        rw [length_cons] at hlen
        omega
      · rename_i hspace
        rw [← hde]
        exact Bool.eq_false_iff.mpr hspace
  · intro h
    cases hr : (c :: s).reverse with
    | nil => exact absurd (reverse_eq_nil_iff.mp hr) (cons_ne_nil c s)
    | cons d rest =>
      have hlast : (c :: s).getLast? = some d := by
        rw [← List.head?_reverse, hr]
        rfl
      rw [dropWhile_cons, h d hlast, if_neg Bool.false_ne_true, ← hr, reverse_reverse]

omit [Ipaddress] in
theorem IsWeb.lowered {scheme : Str} (h : IsWeb scheme) : lower scheme = scheme := by
  rcases h with rfl | rfl
  · rw [Codecs.lower_ascii _ (by decide)]
    rfl
  · rw [Codecs.lower_ascii _ (by decide)]
    rfl

theorem HostShape.lowered {host : Str} (h : HostShape host) : lower host = host := by
  have hascii : Ascii host := by
    intro c hc
    have hrange := (h.chars c hc).range
    omega
  rw [Codecs.lower_ascii host hascii]
  refine (map_congr_left (fun c hc => ?_)).trans (map_id host)
  exact (h.chars c hc).toLower

omit [Codecs] [Ipaddress] in
theorem explicitPort_getD (d : NormalizedDestination) :
    d.explicitPort.getD (defaultPort d.scheme) = d.port := by
  unfold NormalizedDestination.explicitPort
  split
  · rename_i h
    exact h.symm
  · rfl

omit [Codecs] in
theorem explicitPort_le (h : Normal d) {n : Nat} (hn : d.explicitPort = some n) : n ≤ 65535 := by
  unfold NormalizedDestination.explicitPort at hn
  split at hn
  · cases hn
  · cases hn
    exact h.port.2

/-- The parts of a destination in its form stay as they are, if the host does. -/
theorem normaliseParts_again (h : Normal d) (hquery : d.query = []) :
    normaliseParts ⟨d.scheme, d.authority, d.path, [], []⟩ false = .ok d ↔
      canonicalHost d.host = .ok d.host := by
  rcases h.path with ⟨segments, hpath⟩
  have hweb : ¬ ((lower d.scheme ≠ "http".toList ∧ lower d.scheme ≠ "https".toList) ∨
      d.authority = [] ∨ ([] : Str) ≠ []) := by
    rw [IsWeb.lowered h.scheme, not_or, not_or, not_and_or, not_not, not_not]
    exact ⟨h.scheme, netlocText_ne_nil h.host.ne_nil _, fun e => e rfl⟩
  have hat : '@' ∉ d.authority := fun hmem =>
    (netlocText_clean h.host.chars hmem).2.2 '@' (by decide) rfl
  have hnoquery : ¬ (false = false ∧ ([] : Str) ≠ []) := fun e => e.2 rfl
  have hhost : hostname lower d.authority = some d.host := by
    rw [NormalizedDestination.authority, hostname_netlocText h.host.hostText h.host.ne_nil,
      h.host.lowered]
  have hport : UrlParse.port d.authority = some d.explicitPort :=
    port_netlocText h.host.hostText (fun n hn => explicitPort_le h hn)
  have hend : ¬ ((afterAt d.authority).getLast? = some ':') := by
    rw [afterAt_self hat]
    exact netlocText_end _ _
  have hrange : ¬ (d.port < 1 ∨ 65535 < d.port) := by
    have hp := h.port
    omega
  unfold normaliseParts
  rw [if_neg hweb, if_neg hat, if_neg hnoquery]
  simp only [hhost, hport, if_neg hend, IsWeb.lowered h.scheme, explicitPort_getD, if_neg hrange,
    hpath.again, ok_bind, Bool.false_eq_true, if_false]
  cases hcanonical : canonicalHost d.host with
  | error e => exact iff_of_false (fun e => by cases e) (fun e => by cases e)
  | ok host =>
    simp only [ok_bind, Except.ok.injEq]
    constructor
    · intro e
      exact congrArg NormalizedDestination.host e
    · intro e
      cases d
      simp only at e hquery
      simp only [e, hquery]

omit [Codecs] in
/-- The text of a base URL. -/
theorem baseUrl_eq (h : Normal d) :
    d.baseUrl = d.scheme ++ ':' :: '/' :: '/' :: (d.authority ++ d.path) := by
  rcases h.path with ⟨segments, hpath⟩
  have hne : d.authority ≠ [] := netlocText_ne_nil h.host.ne_nil _
  have htext := urlunsplit_eq h.scheme hne (joinWith '/' segments) []
  rw [← hpath.joined] at htext
  rw [NormalizedDestination.baseUrl, htext, querySuffix, if_neg (not_not.mpr rfl), append_nil,
    ← hpath.joined]

omit [Codecs] in
/-- The last character of a base URL is the last one of its path. -/
theorem baseUrl_getLast? (h : Normal d) : d.baseUrl.getLast? = d.path.getLast? := by
  rcases h.path with ⟨segments, hpath⟩
  have hsplit : d.baseUrl = (d.scheme ++ ':' :: '/' :: '/' :: d.authority) ++ d.path := by
    rw [baseUrl_eq h, append_assoc]
    rfl
  rw [hsplit, List.getLast?_append_of_ne_nil _ hpath.ne_nil]

omit [Codecs] in
/-- The characters of a base URL. -/
theorem baseUrl_chars (h : Normal d) (hc : c ∈ d.baseUrl) :
    0x20 < c.toNat ∧ c ≠ '?' ∧ c ≠ '#' ∧ c ≠ '%' ∧ c ≠ '\\' := by
  rcases h.path with ⟨segments, hpath⟩
  rw [baseUrl_eq h] at hc
  simp only [mem_append, mem_cons] at hc
  rcases hc with hc | rfl | rfl | rfl | hc | hc
  · have hweb : ∀ c ∈ "https".toList, 0x20 < c.toNat ∧ c ≠ '?' ∧ c ≠ '#' ∧ c ≠ '%' ∧ c ≠ '\\' :=
      forall_mem_of_all (by decide)
    have hshort : ∀ c ∈ "http".toList, c ∈ "https".toList := forall_mem_of_all (by decide)
    rcases h.scheme with he | he
    · rw [he] at hc
      exact hweb c (hshort c hc)
    · rw [he] at hc
      exact hweb c hc
  · decide
  · decide
  · decide
  · have hclean := netlocText_clean h.host.chars hc
    exact ⟨hclean.1, hclean.2.2 '?' (by decide), hclean.2.2 '#' (by decide),
      hclean.2.2 '%' (by decide), hclean.2.2 '\\' (by decide)⟩
  · have hclean := h.pathChars c hc
    refine ⟨hclean.1, hclean.2.1, hclean.2.2, ?_, ?_⟩
    · rintro rfl
      exact hpath.noPercent hc
    · rintro rfl
      exact hpath.noBackslash hc

/-- A base URL is split into its parts again. -/
theorem urlsplit_baseUrl (h : Normal d) :
    urlsplit validNetloc d.baseUrl = some ⟨d.scheme, d.authority, d.path, [], []⟩ := by
  rcases h.path with ⟨segments, hpath⟩
  have hnetloc : ∀ c ∈ d.authority, 0x20 < c.toNat ∧ c ≠ '/' ∧ c ≠ '?' ∧ c ≠ '#' := by
    intro c hc
    have hclean := netlocText_clean h.host.chars hc
    exact ⟨hclean.1, hclean.2.2 '/' (by decide), hclean.2.2 '?' (by decide),
      hclean.2.2 '#' (by decide)⟩
  have hchars : ∀ c ∈ joinWith '/' segments, 0x20 < c.toNat ∧ c ≠ '?' ∧ c ≠ '#' := by
    intro c hc
    refine h.pathChars c ?_
    rw [hpath.joined]
    exact mem_cons_of_mem _ hc
  have hsplit := urlsplit_unsplit h.scheme (validNetloc_netlocText h.host d.explicitPort)
    (netlocText_ne_nil h.host.ne_nil _) hnetloc hchars
    (fun c hc => absurd hc not_mem_nil)
  rw [← hpath.joined] at hsplit
  exact hsplit

/-- When a base URL in its form is accepted as it is. -/
theorem normalizeBaseUrl_baseUrl (h : Normal d) (hquery : d.query = []) :
    normalizeBaseUrl (some d.baseUrl) = .ok d ↔
      (∀ c, d.path.getLast? = some c → isSpace c = false) ∧ canonicalHost d.host = .ok d.host := by
  have hhead : ∃ rest, d.baseUrl = 'h' :: rest := by
    rw [baseUrl_eq h]
    rcases h.scheme with he | he
    · rw [he]
      exact ⟨_, rfl⟩
    · rw [he]
      exact ⟨_, rfl⟩
  rcases hhead with ⟨rest, hrest⟩
  have hspace : isSpace 'h' = false := Codecs.isSpace_ascii 'h' (by decide) (by decide)
  have hstrip := strip_eq_self (s := rest) hspace
  rw [← hrest, baseUrl_getLast? h] at hstrip
  have hne : d.baseUrl ≠ [] := by
    rw [hrest]
    exact cons_ne_nil _ _
  have hlarge : ¬ (d.baseUrl.any (fun c => c.toNat ≤ 0x20) = true ∨ '\\' ∈ d.baseUrl ∨
      '%' ∈ d.baseUrl) := by
    rw [not_or, not_or]
    refine ⟨?_, fun hmem => (baseUrl_chars h hmem).2.2.2.2 rfl,
      fun hmem => (baseUrl_chars h hmem).2.2.2.1 rfl⟩
    rw [any_eq_true]
    rintro ⟨c, hc, hsmall⟩
    exact absurd (of_decide_eq_true hsmall) (Nat.not_le.mpr (baseUrl_chars h hc).1)
  have hplain : ¬ ('#' ∈ d.baseUrl ∨ false = false ∧ '?' ∈ d.baseUrl) := by
    rw [not_or]
    exact ⟨fun hmem => (baseUrl_chars h hmem).2.2.1 rfl,
      fun hmem => (baseUrl_chars h hmem.2).2.1 rfl⟩
  change normaliseText d.baseUrl false = .ok d ↔ _
  unfold normaliseText
  by_cases hblank : ∀ c, d.path.getLast? = some c → isSpace c = false
  · have hok : ¬ (d.baseUrl = [] ∨ d.baseUrl ≠ strip d.baseUrl) := by
      rw [not_or, not_not]
      exact ⟨hne, hstrip.mpr hblank⟩
    rw [if_neg hok, if_neg hlarge, if_neg hplain, urlsplit_baseUrl h]
    simp only [normaliseParts_again h hquery]
    exact ⟨fun hhost => ⟨hblank, hhost⟩, fun hboth => hboth.2⟩
  · have hbad : d.baseUrl = [] ∨ d.baseUrl ≠ strip d.baseUrl := .inr (fun e => hblank (hstrip.mp e))
    rw [if_pos hbad]
    exact iff_of_false deny_ne_ok (fun hboth => hblank hboth.1)

/-- A URL whose form is final: the ASCII form of its host does not look numeric unless
    it is an address, and its path does not end with a blank before the slash. -/
def Stable (url : Str) : Prop :=
  ∀ parsed, urlsplit validNetloc url = some parsed →
    (∀ c, (rstripSlashes parsed.path).getLast? = some c → isSpace c = false) ∧
    ∀ rawHost, hostname lower parsed.netloc = some rawHost → StableHost rawHost

/-- When the form of a base URL is final. -/
theorem normalizeBaseUrl_again {url : Str} (h : normalizeBaseUrl (some url) = .ok d) :
    normalizeBaseUrl (some d.baseUrl) = .ok d ↔ Stable url := by
  have hnormal := normaliseUrl_normal h
  rcases normaliseUrl_eq_ok h with ⟨v, parsed, hv, _, hpercent, _, hsplit, hparts⟩
  rcases normaliseParts_eq_ok hparts with ⟨_, _, hpath, hquery, rawHost, hraw, hhost⟩
  rw [← Option.some.inj hv] at hsplit hpercent
  have hscope : '%' ∉ rawHost :=
    not_mem_hostname hraw (fun hmem => hpercent ((urlsplit_mem hsplit).1 _ hmem))
  rw [normalizeBaseUrl_baseUrl hnormal hquery, canonicalHost_again hhost hscope]
  have hpaths : (∀ c, d.path.getLast? = some c → isSpace c = false) ↔
      ∀ c, (rstripSlashes parsed.path).getLast? = some c → isSpace c = false := by
    rw [normalisePath_rstrip hpath]
    by_cases hnil : rstripSlashes parsed.path = []
    · rw [if_pos hnil, hnil]
      refine iff_of_true (fun c hc => ?_) (fun c hc => by cases hc)
      cases hc
      exact Codecs.isSpace_ascii '/' (by decide) (by decide)
    · rw [if_neg hnil]
  rw [hpaths]
  constructor
  · rintro ⟨hblank, hstable⟩ parsed' hsplit'
    rw [hsplit] at hsplit'
    cases hsplit'
    refine ⟨hblank, fun rawHost' hraw' => ?_⟩
    rw [hraw] at hraw'
    cases hraw'
    exact hstable
  · intro hstable
    rcases hstable parsed hsplit with ⟨hblank, hhosts⟩
    exact ⟨hblank, hhosts rawHost hraw⟩

end Destinations

end Egress

end Partha
