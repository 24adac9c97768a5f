import Mathlib.Data.List.DropRight
import Partha.Canonical.Paths
import Partha.Library.UrlParse

/-!
# HTTP Destinations

The identity of an outbound service: `describe_destination`, the literal prefix of a URL
that is not a constant, and the record that carries a destination to the resolver.

The identity is the origin. It is put together without brackets, so the port of one address
can be the end of another: `http://[::1]:8080` and `http://[::1:8080]` are one service.
`origin_eq_iff` says that there is no other way in which two services become one. The record
has three parts with a bar between them, and a URL may have a bar in its host or its path.
What is known before the first interpolation stays known, whatever follows.

The characters that `str.strip` removes, `str.lower`, `str.upper` and the test of `urlsplit`
on a network location are parameters.

## Main definitions

* `Text`: What is taken from the running interpreter.
* `Address`: The parts of a URL that a destination is made of.
* `describeDestination`: `describe_destination`.
* `describeLiteralPrefix`: `describe_destination_from_literal_prefix`.
* `parseReferent`: `parse_referent`.

## Theorems

* `parseReferent_iff`: When a record is read back.
* `origin_eq_iff`: When two addresses have one origin.
* `destination_exact`: Both, for every URL.
* `prefix_origin_sound`: The origin of a prefix is the one of the whole URL.
-/

namespace Partha

namespace Http

open List hiding splitOn
open Canonical UrlParse

/-- What is used of the functions on strings and of `urlsplit`. -/
class Text where
  lower : Str → Str
  upper : Str → Str
  isSpace : Char → Bool
  validNetloc : Str → Bool

/-- What they do on ASCII text, for a network location without brackets or with a pair. -/
@[reducible]
def asciiUrls : Text :=
  { lower := List.map Char.toLower
    upper := List.map Char.toUpper
    isSpace := Char.isWhitespace
    validNetloc := fun netloc => netloc.elem '[' = netloc.elem ']' }

section Definitions

/-- `HttpDestination`. -/
structure HttpDestination where
  method : Str
  origin : Str
  path : Str
  deriving DecidableEq, Repr

/-- `referent_text`. -/
def HttpDestination.referentText (d : HttpDestination) : Str :=
  d.method ++ '|' :: (d.origin ++ '|' :: d.path)

/-- `_SUPPORTED_SCHEMES`. -/
def supportedSchemes : List Str :=
  ["http", "https"].map String.toList

/-- `_DEFAULT_PORTS`. -/
def defaultPort (scheme : Str) : Nat :=
  if scheme = "https".toList then 443 else 80

/-- `host.rstrip(".")`. -/
def rstripDots (host : Str) : Str :=
  (host.reverse.dropWhile (fun c => c = '.')).reverse

/-- What a destination is made of: the parts of a URL as they are compared. -/
structure Address where
  scheme : Str
  host : Str
  port : Option Nat
  path : Str
  deriving DecidableEq, Repr

/-- The port, if it is not the one of the scheme. -/
def Address.shownPort (a : Address) : Option Nat :=
  a.port.filter (fun n => n ≠ defaultPort a.scheme)

/-- The origin of an address. -/
def Address.origin (a : Address) : Str :=
  a.scheme ++ "://".toList ++ (a.host ++ portSuffix a.shownPort)

/-- `referent.split("|")`, if it has exactly three parts and none is empty. -/
def parseReferent (referent : Str) : Option HttpDestination :=
  match splitOn '|' referent with
  | [method, origin, path] =>
    if method = [] ∨ origin = [] ∨ path = [] then none
    else some { method := method, origin := origin, path := path }
  | _ => none

variable [Text]

/-- `value.strip()`. -/
def strip (value : Str) : Str :=
  ((value.dropWhile Text.isSpace).reverse.dropWhile Text.isSpace).reverse

/-- `normalize_method`. -/
def normalizeMethod (raw : Str) : Option Str :=
  let token := Text.upper (strip raw)
  if token ≠ [] ∧ token.all Char.isAlpha then some token else none

/-- The address of a URL, which `_split_origin` returns as the origin and the path. -/
def splitAddress (url : Str) : Option Address := do
  let parts ← urlsplit Text.validNetloc (strip url)
  let scheme := parts.scheme.map Char.toLower
  let hostname ← UrlParse.hostname Text.lower parts.netloc
  let host := rstripDots (Text.lower hostname)
  let port ← UrlParse.port parts.netloc
  if supportedSchemes.elem scheme ∧ host ≠ [] then
    some { scheme := scheme, host := host, port := port, path := parts.path }
  else none

/-- `_split_origin`. -/
def splitOrigin (url : Str) : Option (Str × Str) :=
  (splitAddress url).map (fun a => (a.origin, a.path))

/-- `describe_destination`. -/
def describeDestination (method url : Str) : Option HttpDestination := do
  let method ← normalizeMethod method
  let split ← splitOrigin url
  some
    { method := method
      origin := split.1
      path := if split.2 = [] then ['/'] else split.2 }

/-- `describe_destination_from_literal_prefix`. -/
def describeLiteralPrefix (method literal : Str) : Option HttpDestination := do
  let method ← normalizeMethod method
  let split ← splitOrigin literal
  if split.2 = [] then none
  else some { method := method, origin := split.1, path := split.2 }

end Definitions

section Records

variable {d : HttpDestination}

/-- What is read back has as many bars as a record. -/
theorem count_of_parseReferent {referent : Str} (h : parseReferent referent = some d) :
    referent.count '|' = 2 := by
  unfold parseReferent at h
  split at h
  · rename_i method origin path hsplit
    have hlength := length_splitOn '|' referent
    rw [hsplit] at hlength
    simp only [length_cons, length_nil] at hlength
    omega
  · cases h

/-- A record is read back exactly if its origin and its path have no bar. -/
theorem parseReferent_iff (hmethod : d.method ≠ [] ∧ '|' ∉ d.method) (horigin : d.origin ≠ [])
    (hpath : d.path ≠ []) :
    parseReferent d.referentText = some d ↔ '|' ∉ d.origin ∧ '|' ∉ d.path := by
  constructor
  · intro h
    have hcount := count_of_parseReferent h
    rw [HttpDestination.referentText, count_append, count_cons_self,
      count_append, count_cons_self] at hcount
    refine ⟨fun hmem => ?_, fun hmem => ?_⟩
    · have hpos := count_pos_iff.mpr hmem
      omega
    · have hpos := count_pos_iff.mpr hmem
      omega
  · rintro ⟨hfree, hfree'⟩
    rw [parseReferent, HttpDestination.referentText, splitOn_append hmethod.2,
      splitOn_append hfree, splitOn_free hfree']
    simp [hmethod.1, horigin, hpath]

end Records

section Origins

variable {a b : Address}

theorem shownPort_none :
    a.shownPort = none ↔ a.port.getD (defaultPort a.scheme) = defaultPort a.scheme := by
  rw [Address.shownPort]
  cases a.port with
  | none => exact ⟨fun _ => rfl, fun _ => rfl⟩
  | some n =>
    simp

theorem shownPort_some {n : Nat} :
    a.shownPort = some n ↔ a.port = some n ∧ n ≠ defaultPort a.scheme := by
  rw [Address.shownPort, Option.filter_eq_some_iff, decide_eq_true_eq]

/-- The port that a request goes to. -/
def Address.effectivePort (a : Address) : Nat :=
  a.port.getD (defaultPort a.scheme)

theorem effectivePort_eq_iff (h : a.scheme = b.scheme) :
    a.effectivePort = b.effectivePort ↔ a.shownPort = b.shownPort := by
  have hport : ∀ x : Address, x.effectivePort = x.shownPort.getD (defaultPort x.scheme) := by
    intro x
    cases hx : x.shownPort with
    | none => exact shownPort_none.mp hx
    | some n =>
      rw [Address.effectivePort, (shownPort_some.mp hx).1]
  rw [hport, hport, h]
  constructor
  · intro heq
    cases ha : a.shownPort with
    | none =>
      cases hb : b.shownPort with
      | none => rfl
      | some n =>
        rw [ha, hb] at heq
        exact absurd heq.symm (shownPort_some.mp hb).2
    | some m =>
      cases hb : b.shownPort with
      | none =>
        rw [ha, hb, ← h] at heq
        exact absurd heq (shownPort_some.mp ha).2
      | some n =>
        rw [ha, hb] at heq
        exact congrArg some heq
  · intro heq
    rw [heq]

/-- One service: the scheme, the host and the port that a request goes to agree. -/
def SameService (a b : Address) : Prop :=
  a.scheme = b.scheme ∧ a.host = b.host ∧ a.effectivePort = b.effectivePort

/-- The port of one address reads as the end of the other's host. -/
def EndsLikePort (a b : Address) : Prop :=
  a.scheme = b.scheme ∧ ∃ n, a.shownPort = some n ∧ b.shownPort = none ∧
    b.host = a.host ++ ':' :: Nat.toDigits 10 n

theorem scheme_eq_of_origin (ha : a.scheme ∈ supportedSchemes) (hb : b.scheme ∈ supportedSchemes)
    (h : a.origin = b.origin) : a.scheme = b.scheme := by
  have hcut : ∀ x : Address, x.scheme ∈ supportedSchemes → (cut ':' x.origin).1 = x.scheme := by
    intro x hx
    have hcolon : ':' ∉ x.scheme := by
      revert hx
      generalize x.scheme = scheme
      revert scheme
      exact forall_mem_of_all (by decide)
    have htext : x.origin =
        x.scheme ++ ':' :: ('/' :: '/' :: (x.host ++ portSuffix x.shownPort)) := by
      rw [Address.origin, append_assoc]
      rfl
    rw [htext, cut_append hcolon]
  rw [← hcut a ha, h, hcut b hb]

/-- Two addresses have one origin if they are one service, or if the port of one reads as the
    end of the other's host. -/
theorem origin_eq_iff (ha : a.scheme ∈ supportedSchemes) (hb : b.scheme ∈ supportedSchemes) :
    a.origin = b.origin ↔ SameService a b ∨ EndsLikePort a b ∨ EndsLikePort b a := by
  constructor
  · intro h
    have hscheme := scheme_eq_of_origin ha hb h
    rw [Address.origin, Address.origin, hscheme] at h
    have hrest := append_cancel_left h
    -- which of the two shows a port: a host may end like a port that the other one shows
    cases hpa : a.shownPort with
    | none =>
      cases hpb : b.shownPort with
      | none =>
        rw [hpa, hpb] at hrest
        left
        refine ⟨hscheme, append_cancel_right hrest, ?_⟩
        rw [effectivePort_eq_iff hscheme, hpa, hpb]
      | some n =>
        rw [hpa, hpb] at hrest
        right; right
        refine ⟨hscheme.symm, n, hpb, hpa, ?_⟩
        rw [show portSuffix none = [] from rfl, append_nil] at hrest
        exact hrest
    | some m =>
      cases hpb : b.shownPort with
      | none =>
        rw [hpa, hpb] at hrest
        right; left
        refine ⟨hscheme, m, hpa, hpb, ?_⟩
        rw [show portSuffix none = [] from rfl, append_nil] at hrest
        exact hrest.symm
      | some n =>
        rw [hpa, hpb] at hrest
        rcases append_digits_inj (by decide) hrest with ⟨hhost, hn⟩
        left
        refine ⟨hscheme, hhost, ?_⟩
        rw [effectivePort_eq_iff hscheme, hpa, hpb, hn]
  · have hlike : ∀ {x y : Address}, EndsLikePort x y → x.origin = y.origin := by
      rintro x y ⟨hscheme, n, hx, hy, hhost⟩
      rw [Address.origin, Address.origin, hscheme, hx, hy, hhost]
      rw [show portSuffix none = [] from rfl, append_nil]
      rfl
    rintro (⟨hscheme, hhost, hport⟩ | h | h)
    · rw [Address.origin, Address.origin, hscheme, hhost, (effectivePort_eq_iff hscheme).mp hport]
    · exact hlike h
    · exact (hlike h).symm

/-- A host is not the end of itself. -/
theorem not_sameService (h : EndsLikePort a b) : ¬ SameService a b := by
  rintro ⟨-, hhost, -⟩
  rcases h with ⟨-, n, -, -, hend⟩
  have hlength := congrArg List.length (hhost.trans hend)
  rw [length_append, length_cons] at hlength
  omega

theorem mem_portSuffix_bar {port : Option Nat} : '|' ∉ portSuffix port :=
  not_mem_portSuffix (by decide) (by decide)

/-- The origin has a bar exactly if the host has one. -/
theorem bar_mem_origin (h : a.scheme ∈ supportedSchemes) : '|' ∈ a.origin ↔ '|' ∈ a.host := by
  have hscheme : '|' ∉ a.scheme := by
    revert h
    generalize a.scheme = scheme
    revert scheme
    exact forall_mem_of_all (by decide)
  have hslashes : '|' ∉ "://".toList := by decide
  simp [Address.origin, hscheme, mem_portSuffix_bar]

end Origins

section Destinations

variable [Text]

variable {method url : Str} {a : Address} {d : HttpDestination}

theorem normalizeMethod_letters {raw : Str} (h : normalizeMethod raw = some method) :
    method ≠ [] ∧ '|' ∉ method := by
  unfold normalizeMethod at h
  simp only at h
  split at h
  · rename_i htoken
    cases h
    refine ⟨htoken.1, fun hmem => ?_⟩
    exact absurd (all_eq_true.mp htoken.2 '|' hmem) (by decide)
  · cases h

theorem splitAddress_eq_some :
    splitAddress url = some a ↔ ∃ parts hostname,
      urlsplit Text.validNetloc (strip url) = some parts ∧
      UrlParse.hostname Text.lower parts.netloc = some hostname ∧
      UrlParse.port parts.netloc = some a.port ∧
      a.scheme = parts.scheme.map Char.toLower ∧ a.host = rstripDots (Text.lower hostname) ∧
      a.path = parts.path ∧ a.scheme ∈ supportedSchemes ∧ a.host ≠ [] := by
  unfold splitAddress
  simp only [Option.bind_eq_bind, Option.bind_eq_some_iff]
  constructor
  · rintro ⟨parts, hparts, hostname, hhost, port, hport, h⟩
    split at h
    · rename_i htest
      cases h
      exact ⟨parts, hostname, hparts, hhost, hport, rfl, rfl, rfl, elem_iff.mp htest.1,
        htest.2⟩
    · cases h
  · rintro ⟨parts, hostname, hparts, hhost, hport, hscheme, hname, hpath, hin, hne⟩
    refine ⟨parts, hparts, hostname, hhost, a.port, hport, ?_⟩
    rw [← hscheme, ← hname, ← hpath, if_pos ⟨elem_iff.mpr hin, hne⟩]

/-- A destination is the method and the address of its URL. -/
theorem describeDestination_eq_some :
    describeDestination method url = some d ↔ ∃ a, normalizeMethod method = some d.method ∧
      splitAddress url = some a ∧ d.origin = a.origin ∧
      d.path = if a.path = [] then ['/'] else a.path := by
  unfold describeDestination splitOrigin
  simp only [Option.bind_eq_bind, Option.bind_eq_some_iff, Option.map_eq_some_iff]
  constructor
  · rintro ⟨token, htoken, _, ⟨a, ha, rfl⟩, h⟩
    cases h
    exact ⟨a, htoken, ha, rfl, rfl⟩
  · rintro ⟨a, htoken, ha, horigin, hpath⟩
    refine ⟨d.method, htoken, _, ⟨a, ha, rfl⟩, ?_⟩
    rw [← horigin, ← hpath]

theorem origin_of_address (hd : describeDestination method url = some d)
    (ha : splitAddress url = some a) : d.origin = a.origin := by
  rcases describeDestination_eq_some.mp hd with ⟨a', -, ha', horigin, -⟩
  rw [ha] at ha'
  rw [horigin, Option.some.inj ha']

/-- A destination is read back from its record exactly if its host and its path have no bar,
    and two URLs have one origin exactly if they are one service, unless the port of one reads
    as the end of the other's host. -/
theorem destination_exact :
    (∀ method url d a, describeDestination method url = some d → splitAddress url = some a →
      (parseReferent d.referentText = some d ↔ '|' ∉ a.host ∧ '|' ∉ a.path)) ∧
    ∀ method method' url url' d d' a a', describeDestination method url = some d →
      describeDestination method' url' = some d' → splitAddress url = some a →
      splitAddress url' = some a' →
        ((d.origin = d'.origin ↔ SameService a a') ↔
          ¬ (EndsLikePort a a' ∨ EndsLikePort a' a)) := by
  constructor
  · intro method url d a hd ha
    rcases describeDestination_eq_some.mp hd with ⟨a', hmethod, ha', horigin, hpath⟩
    rw [ha] at ha'
    rw [← Option.some.inj ha'] at horigin hpath
    rcases splitAddress_eq_some.mp ha with ⟨_, _, _, _, _, _, _, _, hscheme, _⟩
    have hne : d.origin ≠ [] := by
      rw [horigin, Address.origin, append_assoc]
      exact append_ne_nil_of_right_ne_nil _ (cons_ne_nil _ _)
    have hpathne : d.path ≠ [] := by
      rw [hpath]
      by_cases hnil : a.path = []
      · rw [if_pos hnil]
        exact cons_ne_nil _ _
      · rw [if_neg hnil]
        exact hnil
    have hbar : '|' ∈ d.path ↔ '|' ∈ a.path := by
      rw [hpath]
      by_cases hnil : a.path = []
      · rw [if_pos hnil, hnil]
        decide
      · rw [if_neg hnil]
    rw [parseReferent_iff (normalizeMethod_letters hmethod) hne hpathne, horigin,
      bar_mem_origin hscheme, hbar]
  · intro method method' url url' d d' a a' hd hd' ha ha'
    rcases splitAddress_eq_some.mp ha with ⟨_, _, _, _, _, _, _, _, hscheme, _⟩
    rcases splitAddress_eq_some.mp ha' with ⟨_, _, _, _, _, _, _, _, hscheme', _⟩
    rw [origin_of_address hd ha, origin_of_address hd' ha', origin_eq_iff hscheme hscheme']
    constructor
    · rintro h (hlike | hlike)
      · exact not_sameService hlike (h.mp (.inr (.inl hlike)))
      · rcases h.mp (.inr (.inr hlike)) with ⟨hs, hh, hp⟩
        exact not_sameService hlike ⟨hs.symm, hh.symm, hp.symm⟩
    · intro hno
      exact ⟨fun h => h.resolve_right hno, .inl⟩

end Destinations

/-- A destination of a URL without a bar. -/
def apiCall : HttpDestination :=
  { method := "GET".toList, origin := "https://api.h".toList, path := "/v1".toList }

/-- An address of the local host. -/
def localAddress (host : String) (port : Option Nat) : Address :=
  { scheme := "http".toList, host := host.toList, port := port, path := ['/'] }

/-- A call of the local host. -/
def localCall (host : String) (port : Option Nat) : HttpDestination :=
  { method := "GET".toList, origin := (localAddress host port).origin, path := ['/'] }

theorem destination_exact_sample :
    (parseReferent apiCall.referentText = some apiCall ↔
      '|' ∉ "api.h".toList ∧ '|' ∉ "/v1".toList) ∧
    (((localCall "::1" (some 80)).origin = (localCall "::1" none).origin ↔
      SameService (localAddress "::1" (some 80)) (localAddress "::1" none)) ↔
        ¬ (EndsLikePort (localAddress "::1" (some 80)) (localAddress "::1" none) ∨
          EndsLikePort (localAddress "::1" none) (localAddress "::1" (some 80)))) := by
  refine ⟨(@destination_exact asciiUrls).1 "get".toList "https://api.h:443/v1".toList apiCall
    { scheme := "https".toList, host := "api.h".toList, port := some 443, path := "/v1".toList }
    (by decide) (by decide), ?_⟩
  exact (@destination_exact asciiUrls).2 "get".toList "get".toList "http://[::1]:80/".toList
    "http://[::1]/".toList _ _ _ _ (by decide) (by decide) (by decide) (by decide)

/-- The call of a path with a bar. -/
def barredCall : HttpDestination :=
  { method := "GET".toList, origin := "http://h".toList, path := "/a|b".toList }

/-- A path with a bar is not read back, and two services have one origin. -/
theorem destination_mixed :
    ¬ (∀ method url d, @describeDestination asciiUrls method url = some d →
      parseReferent d.referentText = some d) ∧
    ¬ ∀ method method' url url' d d' a a', @describeDestination asciiUrls method url = some d →
      @describeDestination asciiUrls method' url' = some d' →
      @splitAddress asciiUrls url = some a → @splitAddress asciiUrls url' = some a' →
        (d.origin = d'.origin ↔ SameService a a') := by
  constructor
  · intro h
    have hread := h "get".toList "http://h/a|b".toList barredCall (by decide)
    exact absurd hread (by decide)
  · intro h
    have hsame := (h "get".toList "get".toList "http://[::1]:8080/".toList
      "http://[::1:8080]/".toList (localCall "::1" (some 8080)) (localCall "::1:8080" none)
      (localAddress "::1" (some 8080)) (localAddress "::1:8080" none) (by decide) (by decide)
      (by decide) (by decide)).mp (by decide)
    exact absurd hsame.2.1 (by decide)

section Prefixes

variable [Text]

/-- What is stripped of a text is where a longer text starts. -/
theorem strip_append {s : Str} (h : strip s ≠ []) (t : Str) :
    ∃ t', strip (s ++ t) = strip s ++ t' := by
  have hstart : s.dropWhile Text.isSpace ≠ [] := by
    intro hnil
    rw [strip, hnil] at h
    exact h rfl
  have hend : ((s.dropWhile Text.isSpace).reverse.dropWhile Text.isSpace) ≠ [] := by
    intro hnil
    rw [strip, hnil] at h
    exact h rfl
  have hsplit : s.dropWhile Text.isSpace =
      strip s ++ ((s.dropWhile Text.isSpace).reverse.takeWhile Text.isSpace).reverse := by
    have hreverse := congrArg List.reverse
      (takeWhile_append_dropWhile (p := Text.isSpace) (l := (s.dropWhile Text.isSpace).reverse))
    rw [reverse_append, reverse_reverse] at hreverse
    exact hreverse.symm
  have hlast : ∀ tail : Str, ∃ t', ((strip s ++ tail).reverse.dropWhile Text.isSpace).reverse =
      strip s ++ t' := by
    intro tail
    rw [reverse_append]
    by_cases hnil : tail.reverse.dropWhile Text.isSpace = []
    · rw [dropWhile_append, hnil, isEmpty_nil, if_pos rfl]
      refine ⟨[], ?_⟩
      have hagain : (strip s).reverse.dropWhile Text.isSpace = (strip s).reverse := by
        rw [strip, reverse_reverse]
        exact dropWhile_idempotent _ _
      rw [hagain, reverse_reverse, append_nil]
    · rw [(span_append hnil _).2, reverse_append, reverse_reverse]
      exact ⟨_, rfl⟩
  rw [strip, (span_append hstart t).2, hsplit, append_assoc]
  exact hlast _

/-- What follows the path of a URL does not change its address, but for the path. -/
theorem splitAddress_append {url : Str} {a : Address} (h : splitAddress url = some a)
    (hpath : a.path ≠ []) (t : Str) :
    ∃ a', splitAddress (url ++ t) = some a' ∧ a'.origin = a.origin := by
  rcases splitAddress_eq_some.mp h with
    ⟨parts, hostname, hparts, hhost, hport, hscheme, hname, hpartpath, hin, hne⟩
  have hschemene : parts.scheme ≠ [] := by
    intro hnil
    rw [hscheme, hnil] at hin
    exact absurd hin (by decide)
  have hnetloc : parts.netloc ≠ [] := by
    intro hnil
    rw [hnil] at hhost
    cases hhost
  have hstrip : strip url ≠ [] := by
    intro hnil
    rw [hnil] at hparts
    unfold urlsplit at hparts
    simp only at hparts
    split at hparts
    · rw [← Option.some.inj hparts] at hschemene
      exact hschemene rfl
    · cases hparts
  rcases strip_append hstrip t with ⟨t', ht'⟩
  rcases urlsplit_append hparts hschemene hnetloc (hpartpath ▸ hpath) t' with
    ⟨parts', hparts', hscheme', hnetloc'⟩
  refine ⟨{ a with path := parts'.path }, ?_, rfl⟩
  refine splitAddress_eq_some.mpr ⟨parts', hostname, ?_, ?_, ?_, ?_, hname, rfl, hin, hne⟩
  · rw [ht']
    exact hparts'
  · rw [hnetloc']
    exact hhost
  · rw [hnetloc']
    exact hport
  · rw [hscheme']
    exact hscheme

theorem describeLiteralPrefix_eq_some {method literal : Str} {d : HttpDestination} :
    describeLiteralPrefix method literal = some d ↔ ∃ a, normalizeMethod method = some d.method ∧
      splitAddress literal = some a ∧ d.origin = a.origin ∧ d.path = a.path ∧ a.path ≠ [] := by
  unfold describeLiteralPrefix splitOrigin
  simp only [Option.bind_eq_bind, Option.bind_eq_some_iff, Option.map_eq_some_iff]
  constructor
  · rintro ⟨token, htoken, _, ⟨a, ha, rfl⟩, h⟩
    by_cases hnil : a.path = []
    · rw [if_pos hnil] at h
      cases h
    · rw [if_neg hnil] at h
      cases h
      exact ⟨a, htoken, ha, rfl, rfl, hnil⟩
  · rintro ⟨a, htoken, ha, horigin, hpath, hne⟩
    refine ⟨d.method, htoken, _, ⟨a, ha, rfl⟩, ?_⟩
    rw [if_neg hne, ← horigin, ← hpath]

/-- Whatever follows a literal prefix, the whole URL has its method and its origin. -/
theorem prefix_origin_sound {method literal : Str} {d : HttpDestination}
    (h : describeLiteralPrefix method literal = some d) (suffix : Str) :
    ∃ d', describeDestination method (literal ++ suffix) = some d' ∧ d'.method = d.method ∧
      d'.origin = d.origin := by
  rcases describeLiteralPrefix_eq_some.mp h with ⟨a, hmethod, ha, horigin, -, hpath⟩
  rcases splitAddress_append ha hpath suffix with ⟨a', ha', hsame⟩
  refine ⟨{ method := d.method
            origin := a'.origin
            path := if a'.path = [] then ['/'] else a'.path }, ?_, rfl, ?_⟩
  · exact describeDestination_eq_some.mpr ⟨a', hmethod, ha', rfl, rfl⟩
  · rw [horigin]
    exact hsame

end Prefixes

/-- The value between the literal parts of a URL is text with delimiters. -/
theorem prefix_origin_sound_at_sign :
    ∃ d', @describeDestination asciiUrls "get".toList
        ("http://h/u/".toList ++ "x@[y]:9/?z".toList) = some d' ∧
      d'.method = "GET".toList ∧ d'.origin = "http://h".toList :=
  @prefix_origin_sound asciiUrls "get".toList "http://h/u/".toList
    { method := "GET".toList, origin := "http://h".toList, path := "/u/".toList } (by decide)
    "x@[y]:9/?z".toList

end Http

end Partha
