import Mathlib.Data.List.Dedup
import Partha.Egress.Urls

/-!
# Pinned Destinations

`ProviderEgressPolicy.prepare_request` decides where a request to an AI provider
may go. What it returns has the address that the connection is made to, so that
nothing is resolved again between the check and the request.

The origin and the path are checked on the canonical form of the URL. Cloud
providers have origins that are part of the code. For a configurable provider the
administrator allows base URLs. Then every answer of the resolver is checked, not
only the one that is used. An address that stands for an address of the other kind
is checked as that one.

## Main definitions

* `createPolicy`: `ProviderEgressPolicy`.
* `isPermittedAddressClass`: `_is_permitted_address_class`.
* `prepareRequest`, `validateConfig`: `prepare_request` and `validate_config`.
* `Pinned`: What is known of a pinned destination.

## Theorems

* `prepareRequest_pinned`: Destinations that are returned are pinned.
* `egress_pinned`: That, and when the form of a base URL is final.
-/

namespace Partha

namespace Egress

open List hiding splitOn
open Canonical Checked UrlParse

section Policy

variable [Codecs] [Ipaddress]

/-- `ProviderConfigLike`. -/
structure ProviderConfig where
  provider : Str
  baseUrl : Option Str

inductive Mode where
  | hosted
  | selfHosted
  deriving DecidableEq, Repr

/-- `DestinationPolicyConfigurationError`. -/
structure DestinationPolicyConfigurationError where
  message : String

/-- `ProviderEgressPolicy`. The resolver gives no answers if it raises. -/
structure ProviderEgressPolicy where
  mode : Mode
  allowedBaseUrls : List Str
  allowedCidrs : List Network
  resolver : Str → Nat → Option (List Str)

/-- The mode of a setting. -/
def parseMode (mode : Str) : Option Mode :=
  if lower mode = "hosted".toList then some .hosted
  else if lower mode = "self_hosted".toList then some .selfHosted
  else none

/-- `ProviderEgressPolicy.__init__`. -/
def createPolicy (mode : Str) (allowedBaseUrls allowedCidrs : List Str)
    (resolver : Str → Nat → Option (List Str)) :
    Except DestinationPolicyConfigurationError ProviderEgressPolicy :=
  match parseMode mode with
  | none => .error ⟨"AI_EGRESS_MODE must be either 'hosted' or 'self_hosted'."⟩
  | some mode =>
    match collect (fun url => normalizeBaseUrl (some url)) allowedBaseUrls with
    | .error _ => .error ⟨"AI_EGRESS_ALLOWED_BASE_URLS contains an invalid URL."⟩
    | .ok bases =>
      match allowedCidrs.mapM Ipaddress.parseNetwork with
      | none => .error ⟨"AI_EGRESS_ALLOWED_CIDRS contains an invalid CIDR."⟩
      | some networks =>
        .ok
          { mode := mode
            allowedBaseUrls := bases.map NormalizedDestination.baseUrl
            allowedCidrs := networks
            resolver := resolver }

/-- `_FixedProviderDestination`. -/
structure FixedProviderDestination where
  scheme : Str
  host : Str
  basePath : Str
  deriving DecidableEq

/-- `FIXED_PROVIDER_DESTINATIONS`. -/
def fixedProviderDestinations : List (Str × FixedProviderDestination) :=
  [("openai".toList, ⟨"https".toList, "api.openai.com".toList, "/v1".toList⟩),
    ("anthropic".toList, ⟨"https".toList, "api.anthropic.com".toList, "/v1".toList⟩),
    ("gemini".toList,
      ⟨"https".toList, "generativelanguage.googleapis.com".toList, "/v1beta".toList⟩),
    ("openrouter".toList, ⟨"https".toList, "openrouter.ai".toList, "/api/v1".toList⟩)]

def fixedDestination (provider : Str) : Option FixedProviderDestination :=
  (fixedProviderDestinations.find? (fun p => p.1 = provider)).map (·.2)

/-- `PinnedDestination`. -/
structure PinnedDestination where
  destination : NormalizedDestination
  address : IPAddress

/-- `connection_url`. -/
def PinnedDestination.connectionUrl (p : PinnedDestination) : Str :=
  let host := Ipaddress.text p.address
  let authority := (if p.address.isRight then '[' :: host ++ [']'] else host) ++
    portSuffix p.destination.explicitPort
  urlunsplit ⟨p.destination.scheme, authority, p.destination.path, p.destination.query, []⟩

/-- The address of the first kind that an address stands for. -/
def underlying (a : IPAddress) : IPAddress :=
  match a with
  | .inl b => .inl b
  | .inr b => ((Ipaddress.ipv4Mapped b).map .inl).getD (.inr b)

/-- The classes that `_is_permitted_address_class` tells apart, of an address that stands
    for no other. -/
def isPermittedClass (a : IPAddress) (allowInternal : Bool) : Bool :=
  if Ipaddress.isUnspecified a || Ipaddress.isMulticast a || Ipaddress.isLinkLocal a then false
  else if allowInternal && Ipaddress.isLoopback a then true
  else if Ipaddress.isReserved a then false
  else if allowInternal then Ipaddress.isGlobal a || Ipaddress.isPrivate a
  else Ipaddress.isGlobal a

/-- `_is_permitted_address_class`. -/
def isPermittedAddressClass (a : IPAddress) (allowInternal : Bool) : Bool :=
  match a with
  | .inl b => isPermittedClass (.inl b) allowInternal
  | .inr b =>
    if Ipaddress.scopeId b ≠ none then false
    else
      match Ipaddress.ipv4Mapped b with
      | some mapped => isPermittedClass (.inl mapped) allowInternal
      | none => isPermittedClass (.inr b) allowInternal

/-- `_HINT_NOT_ALLOWLISTED`. -/
def hintNotAllowlisted : Str :=
  ("This server only connects to AI endpoints the administrator has allowed. Add this exact " ++
    "base URL to AI_EGRESS_ALLOWED_BASE_URLS; for a server on this machine or a private " ++
    "network also set AI_EGRESS_MODE=self_hosted and add its address range to " ++
    "AI_EGRESS_ALLOWED_CIDRS. Then restart the backend.").toList

/-- `_HINT_HOSTED_MODE`. -/
def hintHostedMode : Str :=
  ("AI_EGRESS_MODE is 'hosted', which blocks local and private-network addresses. Set " ++
    "AI_EGRESS_MODE=self_hosted and add the address range to AI_EGRESS_ALLOWED_CIDRS, then " ++
    "restart the backend.").toList

/-- `_HINT_OUTSIDE_CIDRS`. -/
def hintOutsideCidrs : Str :=
  ("The address this host name resolves to is outside AI_EGRESS_ALLOWED_CIDRS. Add the range " ++
    "that contains it (for example 127.0.0.1/32 for this machine), then restart the backend.").toList

/-- `_HINT_UNRESOLVED`. -/
def hintUnresolved : Str :=
  "The host name could not be resolved from this server.".toList

/-- `is_ip_literal`. -/
def NormalizedDestination.isIpLiteral (d : NormalizedDestination) : Bool :=
  (Ipaddress.parse d.host).isSome

/-- The answers that are checked for a destination. -/
def answersFor (policy : ProviderEgressPolicy) (d : NormalizedDestination) : Option (List Str) :=
  if d.isIpLiteral then some [d.host] else policy.resolver d.host d.port

/-- `_validated_addresses`. -/
def validatedAddresses (policy : ProviderEgressPolicy) (d : NormalizedDestination)
    (configurable : Bool) : Except DestinationPolicyError (List IPAddress) :=
  match answersFor policy d with
  | none => .error ⟨if configurable then some hintUnresolved else none⟩
  | some [] => deny
  | some answers =>
    match answers.mapM Ipaddress.parse with
    | none => deny
    | some addresses =>
      -- The first of equal addresses is kept.
      let resolved := addresses.reverse.dedup.reverse
      let allowInternal := configurable && policy.mode = .selfHosted
      if resolved.any (fun a => !isPermittedAddressClass a allowInternal) then
        .error ⟨if configurable && policy.mode = .hosted then some hintHostedMode else none⟩
      else if allowInternal && (policy.allowedCidrs.isEmpty ||
          resolved.any (fun a => !policy.allowedCidrs.any (fun n => Ipaddress.contains n a))) then
        .error ⟨some hintOutsideCidrs⟩
      else .ok resolved

/-- The path is the base path or goes on from it. -/
def isUnder (basePath path : Str) : Bool :=
  path = basePath || (basePath ++ ['/']).isPrefixOf path

/-- `_validate_fixed_request`. -/
def validateFixedRequest (config : ProviderConfig) (expected : FixedProviderDestination)
    (d : NormalizedDestination) : Except DestinationPolicyError Unit :=
  if config.baseUrl ≠ none then deny
  else if d.scheme ≠ expected.scheme ∨ d.host ≠ expected.host then deny
  else if d.port ≠ defaultPort expected.scheme then deny
  else if isUnder expected.basePath d.path = false then deny
  else .ok ()

/-- `_configurable_base`. -/
def configurableBase (policy : ProviderEgressPolicy) (config : ProviderConfig) :
    Except DestinationPolicyError NormalizedDestination :=
  if config.provider ≠ "ollama".toList then deny
  else do
    let base ← normalizeBaseUrl config.baseUrl
    if policy.allowedBaseUrls.contains base.baseUrl then .ok base
    else .error ⟨some hintNotAllowlisted⟩

/-- `_require_under_base`. -/
def requireUnderBase (d base : NormalizedDestination) : Except DestinationPolicyError Unit :=
  if d.scheme ≠ base.scheme ∨ d.host ≠ base.host ∨ d.port ≠ base.port ∨
      base.path ≠ ['/'] ∧ isUnder base.path d.path = false then deny
  else .ok ()

/-- `PinnedDestination(destination=destination, address=addresses[0])`. -/
def pin (d : NormalizedDestination) (addresses : List IPAddress) :
    Except DestinationPolicyError PinnedDestination :=
  match addresses with
  | [] => deny
  | address :: _ => .ok ⟨d, address⟩

/-- `prepare_request`. -/
def prepareRequest (policy : ProviderEgressPolicy) (config : ProviderConfig) (requestUrl : Str) :
    Except DestinationPolicyError PinnedDestination := do
  let d ← normalizeRequestUrl (some requestUrl)
  match fixedDestination config.provider with
  | some expected => do
    validateFixedRequest config expected d
    let addresses ← validatedAddresses policy d false
    pin d addresses
  | none => do
    let base ← configurableBase policy config
    requireUnderBase d base
    let addresses ← validatedAddresses policy d true
    pin d addresses

/-- `validate_config`. -/
def validateConfig (policy : ProviderEgressPolicy) (config : ProviderConfig) :
    Except DestinationPolicyError Unit :=
  match fixedDestination config.provider with
  | some _ => if config.baseUrl ≠ none then deny else .ok ()
  | none => do
    let base ← configurableBase policy config
    let _ ← validatedAddresses policy base true
    .ok ()

end Policy

section Soundness

variable [Codecs] [Ipaddress]

/-- A path that is made of whole segments and begins with those of another. -/
def GoesOn (basePath path : Str) : Prop :=
  ∃ base segments, PathOf base basePath ∧ PathOf segments path ∧ base <+: segments

/-- An address that requests of a provider may be sent to. An address that stands for one
    of the other kind has the classes of that one. -/
structure Allowed (policy : ProviderEgressPolicy) (configurable : Bool) (a : IPAddress) : Prop where
  unscoped : Unscoped a
  notUnspecified : Ipaddress.isUnspecified (underlying a) = false
  notMulticast : Ipaddress.isMulticast (underlying a) = false
  notLinkLocal : Ipaddress.isLinkLocal (underlying a) = false
  global : configurable = false ∨ policy.mode = .hosted →
    Ipaddress.isGlobal (underlying a) = true ∧ Ipaddress.isReserved (underlying a) = false
  inside : configurable = true ∧ policy.mode = .selfHosted →
    ∃ network ∈ policy.allowedCidrs, Ipaddress.contains network a = true

/-- Every answer for a destination is allowed, and one of them is used. -/
def Answered (policy : ProviderEgressPolicy) (configurable : Bool) (p : PinnedDestination) : Prop :=
  ∃ answers, answersFor policy p.destination = some answers ∧
    (∃ answer ∈ answers, Ipaddress.parse answer = some p.address) ∧
    ∀ answer ∈ answers, ∃ a, Ipaddress.parse answer = some a ∧ Allowed policy configurable a

/-- The URL of the connection names the address itself, so that there is nothing to resolve. -/
def Literal (p : PinnedDestination) : Prop :=
  ∃ netloc, urlsplit validNetloc p.connectionUrl
      = some ⟨p.destination.scheme, netloc, p.destination.path, p.destination.query, []⟩ ∧
    hostname lower netloc = some (Ipaddress.text p.address) ∧
    UrlParse.port netloc = some p.destination.explicitPort ∧
    Ipaddress.parse (Ipaddress.text p.address) = some p.address

/-- What is known of a pinned destination. -/
inductive Pinned (policy : ProviderEgressPolicy) (urls : List Str) (config : ProviderConfig)
    (p : PinnedDestination) : Prop
  /-- A provider whose origin is part of the code. -/
  | fixed (f : FixedProviderDestination) :
      fixedDestination config.provider = some f → p.destination.scheme = f.scheme →
      p.destination.host = f.host → p.destination.port = defaultPort f.scheme →
      GoesOn f.basePath p.destination.path → Answered policy false p → Literal p →
      Pinned policy urls config p
  /-- A provider whose base URL the administrator has allowed. -/
  | configurable (url : Str) (base : NormalizedDestination) :
      fixedDestination config.provider = none → url ∈ urls →
      normalizeBaseUrl (some url) = .ok base → normalizeBaseUrl config.baseUrl = .ok base →
      p.destination.scheme = base.scheme → p.destination.host = base.host →
      p.destination.port = base.port → GoesOn base.path p.destination.path →
      Answered policy true p → Literal p → Pinned policy urls config p

variable {a : IPAddress} {allowInternal configurable : Bool} {policy : ProviderEgressPolicy}
  {d base : NormalizedDestination} {addresses : List IPAddress} {p : PinnedDestination} {mode : Str}
  {urls cidrs : List Str} {resolver : Str → Nat → Option (List Str)} {config : ProviderConfig}
  {f : FixedProviderDestination}

omit [Codecs] in
theorem isPermittedClass_eq_true (h : isPermittedClass a allowInternal = true) :
    Ipaddress.isUnspecified a = false ∧ Ipaddress.isMulticast a = false ∧
      Ipaddress.isLinkLocal a = false ∧
      (allowInternal = false → Ipaddress.isGlobal a = true ∧ Ipaddress.isReserved a = false) := by
  unfold isPermittedClass at h
  split at h
  · cases h
  rename_i hclass
  rw [Bool.not_eq_true, Bool.or_eq_false_iff, Bool.or_eq_false_iff] at hclass
  refine ⟨hclass.1.1, hclass.1.2, hclass.2, ?_⟩
  rintro rfl
  rw [Bool.false_and, if_neg Bool.false_ne_true] at h
  split at h
  · cases h
  · rename_i hreserved
    exact ⟨by rw [if_neg Bool.false_ne_true] at h; exact h, Bool.eq_false_iff.mpr hreserved⟩

omit [Codecs] in
/-- An address passes the class test as the address that it stands for. -/
theorem isPermittedAddressClass_eq_true (h : isPermittedAddressClass a allowInternal = true) :
    Unscoped a ∧ isPermittedClass (underlying a) allowInternal = true := by
  unfold isPermittedAddressClass at h
  cases a with
  | inl b => exact ⟨(fun c hc => by cases hc), h⟩
  | inr b =>
    simp only at h
    split at h
    · cases h
    rename_i hscope
    rw [not_not] at hscope
    refine ⟨fun c hc => ?_, ?_⟩
    · rw [← Sum.inr.inj hc]
      exact hscope
    · change isPermittedClass (((Ipaddress.ipv4Mapped b).map .inl).getD (.inr b)) allowInternal
        = true
      cases hmapped : Ipaddress.ipv4Mapped b with
      | none | some c =>
        simp only [hmapped] at h
        exact h

omit [Codecs] [Ipaddress] in
theorem mem_of_mapM {α β : Type} {f : α → Option β} {l : List α} {m : List β}
    (h : l.mapM f = some m) :
    (∀ a ∈ l, ∃ b ∈ m, f a = some b) ∧ ∀ b ∈ m, ∃ a ∈ l, f a = some b := by
  induction l generalizing m with
  | nil =>
    rw [mapM_nil] at h
    cases h
    exact ⟨fun a ha => absurd ha not_mem_nil, fun b hb => absurd hb not_mem_nil⟩
  | cons a l ih =>
    rw [mapM_cons] at h
    rcases Option.bind_eq_some_iff.mp h with ⟨b, hb, h⟩
    rcases Option.bind_eq_some_iff.mp h with ⟨m', hm, h⟩
    cases h
    rcases ih hm with ⟨hto, hfrom⟩
    constructor
    · intro c hc
      rcases mem_cons.mp hc with rfl | hc
      · exact ⟨b, mem_cons_self, hb⟩
      · rcases hto c hc with ⟨d, hd, hcd⟩
        exact ⟨d, mem_cons_of_mem b hd, hcd⟩
    · intro d hd
      rcases mem_cons.mp hd with rfl | hd
      · exact ⟨a, mem_cons_self, hb⟩
      · rcases hfrom d hd with ⟨c, hc, hcd⟩
        exact ⟨c, mem_cons_of_mem a hc, hcd⟩

omit [Codecs] in
/-- Every answer has been checked, and the addresses are those of the answers. -/
theorem validatedAddresses_eq_ok (h : validatedAddresses policy d configurable = .ok addresses) :
    ∃ answers, answersFor policy d = some answers ∧
      (∀ a ∈ addresses, ∃ answer ∈ answers, Ipaddress.parse answer = some a) ∧
      ∀ answer ∈ answers, ∃ a, Ipaddress.parse answer = some a ∧ Allowed policy configurable a := by
  unfold validatedAddresses at h
  cases hanswers : answersFor policy d with
  | none =>
    simp only [hanswers] at h
    cases h
  | some answers =>
    cases answers with
    | nil =>
      simp only [hanswers] at h
      exact absurd h deny_ne_ok
    | cons first rest =>
      simp only [hanswers] at h
      cases hparse : (first :: rest).mapM Ipaddress.parse with
      | none =>
        simp only [hparse] at h
        exact absurd h deny_ne_ok
      | some parsed =>
        simp only [hparse] at h
        split at h
        · cases h
        rename_i hclass
        split at h
        · cases h
        rename_i hcidrs
        -- every answer parses, no address is of a refused class, and the deployment's CIDRs are
        -- kept
        rcases mem_of_mapM hparse with ⟨hto, hfrom⟩
        have hmem : ∀ a, a ∈ parsed.reverse.dedup.reverse ↔ a ∈ parsed := by
          intro a
          rw [mem_reverse, mem_dedup, mem_reverse]
        cases h
        refine ⟨first :: rest, rfl, fun a ha => hfrom a ((hmem a).mp ha), ?_⟩
        intro answer hanswer
        rcases hto answer hanswer with ⟨a, ha, hpa⟩
        have hpermitted : isPermittedAddressClass a
            (configurable && decide (policy.mode = .selfHosted)) = true := by
          by_contra hbad
          refine hclass (any_eq_true.mpr ⟨a, (hmem a).mpr ha, ?_⟩)
          rw [Bool.not_eq_true] at hbad
          rw [hbad, Bool.not_false]
        rcases isPermittedAddressClass_eq_true hpermitted with ⟨hscope, hunderlying⟩
        rcases isPermittedClass_eq_true hunderlying with ⟨hu, hm, hl, hglobal⟩
        refine ⟨a, hpa, hscope, hu, hm, hl, fun hcase => hglobal ?_, fun hcase => ?_⟩
        · rcases hcase with hcase | hcase
          · rw [hcase, Bool.false_and]
          · rw [hcase]
            exact Bool.and_false _
        -- a configured address of a self-hosted instance lies in one of the CIDRs
        · rw [hcase.1, hcase.2] at hcidrs
          by_contra hnone
          refine hcidrs ?_
          rw [Bool.and_eq_true, Bool.or_eq_true]
          refine ⟨rfl, .inr (any_eq_true.mpr ⟨a, (hmem a).mpr ha, ?_⟩)⟩
          rw [Bool.not_eq_true', Bool.eq_false_iff, ne_eq, any_eq_true]
          exact hnone

omit [Codecs] in
theorem pin_eq_ok (h : pin d addresses = .ok p) : p.destination = d ∧ p.address ∈ addresses := by
  cases addresses with
  | nil => exact absurd h deny_ne_ok
  | cons a rest =>
    cases h
    exact ⟨rfl, mem_cons_self⟩

omit [Codecs] in
theorem answered_of_validated (h : validatedAddresses policy d configurable = .ok addresses)
    (hp : pin d addresses = .ok p) : Answered policy configurable p := by
  rcases validatedAddresses_eq_ok h with ⟨answers, hanswers, hfrom, hall⟩
  rcases pin_eq_ok hp with ⟨hd, hmem⟩
  rw [← hd] at hanswers
  exact ⟨answers, hanswers, hfrom p.address hmem, hall⟩

omit [Codecs] in
theorem Answered.unscoped (h : Answered policy configurable p) : Unscoped p.address := by
  rcases h with ⟨answers, _, ⟨answer, hmem, hparse⟩, hall⟩
  rcases hall answer hmem with ⟨a, hparse', hallowed⟩
  rw [hparse] at hparse'
  rw [Option.some.inj hparse']
  exact hallowed.unscoped

omit [Codecs] in
/-- The network location of a connection is the text of the address. -/
theorem connectionUrl_eq (p : PinnedDestination) :
    p.connectionUrl = urlunsplit ⟨p.destination.scheme,
      netlocText (Ipaddress.text p.address) p.destination.explicitPort, p.destination.path,
      p.destination.query, []⟩ := by
  have hbrackets : p.address.isRight = true ↔ ':' ∈ Ipaddress.text p.address := by
    rw [Ipaddress.text_colon, Sum.isRight_iff]
  unfold PinnedDestination.connectionUrl netlocText
  simp only [hbrackets]

theorem literal_of_normal (h : Normal p.destination) (ha : Unscoped p.address) : Literal p := by
  have hshape : HostShape (Ipaddress.text p.address) := .inl ⟨p.address, ha, rfl⟩
  rcases h.path with ⟨segments, hpath⟩
  refine ⟨netlocText (Ipaddress.text p.address) p.destination.explicitPort, ?_, ?_, ?_,
    Ipaddress.parse_text _ ha⟩
  · rw [connectionUrl_eq]
    have hnetloc : ∀ c ∈ netlocText (Ipaddress.text p.address) p.destination.explicitPort,
        0x20 < c.toNat ∧ c ≠ '/' ∧ c ≠ '?' ∧ c ≠ '#' := by
      intro c hc
      have hclean := netlocText_clean hshape.chars hc
      exact ⟨hclean.1, hclean.2.2 '/' (by decide), hclean.2.2 '?' (by decide),
        hclean.2.2 '#' (by decide)⟩
    have hchars : ∀ c ∈ joinWith '/' segments, 0x20 < c.toNat ∧ c ≠ '?' ∧ c ≠ '#' := by
      intro c hc
      refine h.pathChars c ?_
      rw [hpath.joined]
      exact mem_cons_of_mem _ hc
    have hsplit := urlsplit_unsplit h.scheme
      (validNetloc_netlocText hshape p.destination.explicitPort)
      (netlocText_ne_nil hshape.ne_nil _) hnetloc hchars h.queryChars
    rw [← hpath.joined] at hsplit
    exact hsplit
  · rw [hostname_netlocText hshape.hostText hshape.ne_nil, hshape.lowered]
  · exact port_netlocText hshape.hostText (fun n hn => explicitPort_le h hn)

/-- Two base URLs in their form are the same if their texts are. -/
theorem eq_of_baseUrl_eq {d' : NormalizedDestination} (h : Normal d) (h' : Normal d')
    (hquery : d.query = d'.query) (hurl : d.baseUrl = d'.baseUrl) : d = d' := by
  have hsplit := urlsplit_baseUrl h
  rw [hurl, urlsplit_baseUrl h', Option.some.injEq, SplitResult.mk.injEq] at hsplit
  rcases hsplit with ⟨hscheme, hauthority, hpath, _, _⟩
  have hhost := hostinfo_netlocText h.host.hostText d.explicitPort
  have hhost' := hostinfo_netlocText h'.host.hostText d'.explicitPort
  have hport := port_netlocText h.host.hostText (fun n hn => explicitPort_le h hn)
  have hport' := port_netlocText h'.host.hostText (fun n hn => explicitPort_le h' hn)
  change d'.authority = d.authority at hauthority
  change hostinfo d.authority = _ at hhost
  change hostinfo d'.authority = _ at hhost'
  change UrlParse.port d.authority = _ at hport
  change UrlParse.port d'.authority = _ at hport'
  rw [hauthority, hhost] at hhost'
  rw [hauthority, hport] at hport'
  have hports : d.port = d'.port := by
    rw [← explicitPort_getD d, ← explicitPort_getD d', hscheme, Option.some.inj hport']
  have hhosts : d.host = d'.host := (Prod.mk.inj hhost').1
  cases d
  cases d'
  simp only at hscheme hpath hquery hports hhosts
  rw [hscheme, hpath, hquery, hports, hhosts]

omit [Codecs] [Ipaddress] in
/-- A path under another, both made of whole segments. -/
theorem goesOn_of_isUnder {basePath path : Str} {base segments : List Str}
    (hb : PathOf base basePath) (h : PathOf segments path)
    (hunder : basePath = ['/'] ∨ isUnder basePath path = true) : GoesOn basePath path := by
  refine ⟨base, segments, hb, h, ?_⟩
  by_cases hne : base = []
  · rw [hne]
    exact nil_prefix
  rcases hunder with hroot | hunder
  · have hj := hb.joined
    rw [hroot] at hj
    have hnil : joinWith '/' base = [] := (List.cons.inj hj).2.symm
    have hsplit := splitOn_joinWith (fun s hs => (hb.plain s hs).2) hne
    rw [hnil] at hsplit
    have hmem : [] ∈ base := by
      rw [← hsplit]
      exact mem_singleton_self []
    exact absurd rfl (hb.plain [] hmem).1.nonempty
  · rcases Bool.or_eq_true_iff.mp hunder with heq | hpre
    · have heq := of_decide_eq_true heq
      have hsegments := h.split_eq
      rw [heq, hb.split_eq, if_neg hne] at hsegments
      by_cases hnil : segments = []
      · rw [if_pos hnil] at hsegments
        have hmem : [] ∈ base := by
          rw [(List.cons.inj hsegments).2]
          exact mem_singleton_self []
        exact absurd rfl (hb.plain [] hmem).1.nonempty
      · rw [if_neg hnil] at hsegments
        have hsame : base = segments := (List.cons.inj hsegments).2
        exact hsame ▸ prefix_rfl
    · exact hb.goes_on h (List.isPrefixOf_iff_prefix.mp hpre) hne

theorem allowedBaseUrls_of_createPolicy (h : createPolicy mode urls cidrs resolver = .ok policy)
    {url : Str} (hurl : url ∈ policy.allowedBaseUrls) :
    ∃ allowed ∈ urls, ∃ base, normalizeBaseUrl (some allowed) = .ok base ∧ url = base.baseUrl := by
  unfold createPolicy at h
  cases hmode : parseMode mode with
  | none =>
    simp only [hmode] at h
    cases h
  | some m =>
    cases hbases : collect (fun url => normalizeBaseUrl (some url)) urls with
    | error e =>
      simp only [hmode, hbases] at h
      cases h
    | ok bases =>
      cases hcidrs : cidrs.mapM Ipaddress.parseNetwork with
      | none =>
        simp only [hmode, hbases, hcidrs] at h
        cases h
      | some networks =>
        simp only [hmode, hbases, hcidrs] at h
        rw [← Except.ok.inj h] at hurl
        rcases mem_map.mp hurl with ⟨base, hbase, rfl⟩
        rcases (mem_collect hbases).mp hbase with ⟨allowed, hallowed, hok⟩
        exact ⟨allowed, hallowed, base, hok, rfl⟩

omit [Codecs] [Ipaddress] in
theorem validateFixedRequest_eq_ok (h : validateFixedRequest config f d = .ok ()) :
    d.scheme = f.scheme ∧ d.host = f.host ∧ d.port = defaultPort f.scheme ∧
      isUnder f.basePath d.path = true := by
  unfold validateFixedRequest at h
  split at h
  · exact absurd h deny_ne_ok
  split at h
  · exact absurd h deny_ne_ok
  rename_i horigin
  split at h
  · exact absurd h deny_ne_ok
  rename_i hport
  split at h
  · exact absurd h deny_ne_ok
  rename_i hunder
  rw [not_or, not_not, not_not] at horigin
  exact ⟨horigin.1, horigin.2, not_not.mp hport, Bool.eq_true_of_not_eq_false hunder⟩

omit [Codecs] [Ipaddress] in
theorem requireUnderBase_eq_ok (h : requireUnderBase d base = .ok ()) :
    d.scheme = base.scheme ∧ d.host = base.host ∧ d.port = base.port ∧
      (base.path = ['/'] ∨ isUnder base.path d.path = true) := by
  unfold requireUnderBase at h
  split at h
  · exact absurd h deny_ne_ok
  · rename_i hsame
    rw [not_or, not_or, not_or, not_not, not_not, not_not, not_and_or, not_not,
      Bool.not_eq_false] at hsame
    exact hsame

theorem configurableBase_eq_ok (h : configurableBase policy config = .ok base) :
    normalizeBaseUrl config.baseUrl = .ok base ∧ base.baseUrl ∈ policy.allowedBaseUrls := by
  unfold configurableBase at h
  split at h
  · exact absurd h deny_ne_ok
  rcases bind_eq_ok.mp h with ⟨base', hbase, h⟩
  split at h
  · rename_i hmem
    cases h
    exact ⟨hbase, contains_iff_mem.mp hmem⟩
  · cases h

omit [Codecs] [Ipaddress] in
/-- The base paths of the fixed providers are made of whole segments. -/
theorem fixed_basePath {provider : Str} (h : fixedDestination provider = some f) :
    ∃ base, PathOf base f.basePath := by
  rcases Option.map_eq_some_iff.mp h with ⟨entry, hfind, rfl⟩
  have hall : ∀ entry ∈ fixedProviderDestinations,
      normalisePath entry.2.basePath = .ok entry.2.basePath := by decide
  exact (normalisePath_eq_ok (hall entry (mem_of_find?_eq_some hfind))).1

theorem query_of_normalizeBaseUrl {value : Option Str} (h : normalizeBaseUrl value = .ok d) :
    d.query = [] := by
  rcases normaliseUrl_eq_ok h with ⟨_, parsed, _, _, _, _, _, hparts⟩
  exact (normaliseParts_eq_ok hparts).2.2.2.1

/-- Destinations that are returned are pinned. -/
theorem prepareRequest_pinned (hpolicy : createPolicy mode urls cidrs resolver = .ok policy)
    {requestUrl : Str} (h : prepareRequest policy config requestUrl = .ok p) :
    Pinned policy urls config p := by
  unfold prepareRequest at h
  rcases bind_eq_ok.mp h with ⟨d, hd, h⟩
  have hnormal := normaliseUrl_normal hd
  rcases hnormal.path with ⟨segments, hpath⟩
  cases hfixed : fixedDestination config.provider with
  | some f =>
    simp only [hfixed] at h
    rcases bind_eq_ok.mp h with ⟨_, hvalid, h⟩
    rcases bind_eq_ok.mp h with ⟨addresses, haddresses, hpin⟩
    rcases validateFixedRequest_eq_ok hvalid with ⟨hscheme, hhost, hport, hunder⟩
    rcases fixed_basePath hfixed with ⟨base, hbase⟩
    have hanswered := answered_of_validated haddresses hpin
    have hpd := (pin_eq_ok hpin).1
    rw [← hpd] at hscheme hhost hport hunder hpath hnormal
    exact Pinned.fixed f hfixed hscheme hhost hport (goesOn_of_isUnder hbase hpath (.inr hunder))
      hanswered (literal_of_normal hnormal hanswered.unscoped)
  | none =>
    simp only [hfixed] at h
    rcases bind_eq_ok.mp h with ⟨base, hbase, h⟩
    rcases bind_eq_ok.mp h with ⟨_, hunder, h⟩
    rcases bind_eq_ok.mp h with ⟨addresses, haddresses, hpin⟩
    rcases configurableBase_eq_ok hbase with ⟨hbaseok, hallowed⟩
    rcases requireUnderBase_eq_ok hunder with ⟨hscheme, hhost, hport, hunder⟩
    rcases allowedBaseUrls_of_createPolicy hpolicy hallowed with ⟨url, hurl, base', hok, htext⟩
    -- The allowed base URL is the one of the configuration, as their texts are the same.
    have hsame : base' = base := by
      refine eq_of_baseUrl_eq (normaliseUrl_normal hok) (normaliseUrl_normal hbaseok) ?_ htext.symm
      rw [query_of_normalizeBaseUrl hok, query_of_normalizeBaseUrl hbaseok]
    rw [hsame] at hok
    rcases (normaliseUrl_normal hbaseok).path with ⟨segs, hsegs⟩
    have hanswered := answered_of_validated haddresses hpin
    have hpd := (pin_eq_ok hpin).1
    rw [← hpd] at hscheme hhost hport hunder hpath hnormal
    exact Pinned.configurable url base hfixed hurl hok hbaseok hscheme hhost hport
      (goesOn_of_isUnder hsegs hpath hunder) hanswered
      (literal_of_normal hnormal hanswered.unscoped)

/-- Destinations that are returned are pinned, and the form of a base URL is final exactly
    if the URL is stable. -/
theorem egress_pinned {mode : Str} {urls cidrs : List Str}
    {resolver : Str → Nat → Option (List Str)} {policy : ProviderEgressPolicy}
    (hpolicy : createPolicy mode urls cidrs resolver = .ok policy) :
    (∀ config requestUrl p, prepareRequest policy config requestUrl = .ok p →
        Pinned policy urls config p) ∧
      ∀ url d, normalizeBaseUrl (some url) = .ok d →
        (normalizeBaseUrl (some d.baseUrl) = .ok d ↔ Stable url) :=
  ⟨fun _ _ _ h => prepareRequest_pinned hpolicy h, fun _ _ h => normalizeBaseUrl_again h⟩

end Soundness

section Examples

/-- The narrow form of a digit in its wide form. -/
def narrow (c : Char) : Char :=
  if 0xFF10 ≤ c.toNat ∧ c.toNat ≤ 0xFF19 then Char.ofNat (c.toNat - 0xFEE0) else c

theorem map_narrow {s : Str} (h : Ascii s) : s.map narrow = s := by
  refine (map_congr_left fun c hc => ?_).trans (map_id s)
  have hc := h c hc
  exact if_neg (by omega)

theorem toLower_eq_percent {c : Char} (h : c.toLower = '%') : c = '%' := by
  unfold Char.toLower at h
  split at h
  · rename_i hc
    have hval := congrArg (fun c : Char => c.val.toNat) h
    have hlow := UInt32.le_iff_toNat_le.mp hc.1
    have hhigh := UInt32.le_iff_toNat_le.mp hc.2
    simp only [UInt32.toNat_add] at hval
    change 65 ≤ c.val.toNat at hlow
    change c.val.toNat ≤ 90 at hhigh
    change (c.val.toNat + 32) % 4294967296 = 37 at hval
    omega
  · exact h

instance (name : Str) : Decidable (LabelLengths name) :=
  List.decidableBAll (fun label : Str => 0 < label.length ∧ label.length < 64) (splitOn '.' name)

/-- The codecs on ASCII text, and on digits in their wide forms. -/
@[reducible]
def asciiCodecs : Codecs :=
  { lower := fun s => s.map Char.toLower
    isSpace := fun c => c.toNat ≤ 0x20 || c.toNat = 0x85 || c.toNat = 0xA0 || c.toNat = 0x3000
    idna := fun s =>
      if Ascii (s.map narrow) ∧ LabelLengths (s.map narrow) then some (s.map narrow) else none
    nfkcAllows := fun _ => true
    lower_ascii := fun _ _ => rfl
    lower_percent := by
      intro s h hmem
      rcases List.mem_map.mp hmem with ⟨c, hc, he⟩
      rw [toLower_eq_percent he] at hc
      exact h hc
    isSpace_ascii := by
      intro c h h'
      simp only [Bool.or_eq_false_iff, decide_eq_false_iff_not]
      omega
    idna_ascii := by
      intro s e h
      rw [Option.ite_none_right_eq_some] at h
      rw [← Option.some.inj h.2]
      exact h.1.1
    idna_self := by
      intro s h h'
      rw [map_narrow h, if_pos ⟨h, h'⟩] }

/-- Two of the addresses. -/
inductive SampleAddress where
  | loopback
  | dns
  deriving DecidableEq

/-- Two of the addresses, with their classes. -/
@[reducible]
def sampleAddresses : Ipaddress :=
  { V4 := SampleAddress
    V6 := Empty
    decV4 := inferInstance
    decV6 := inferInstance
    parse := fun s =>
      if s = "127.0.0.1".toList then some (.inl .loopback)
      else if s = "8.8.8.8".toList then some (.inl .dns)
      else none
    text := fun a =>
      match a with
      | .inl .loopback => "127.0.0.1".toList
      | .inl .dns => "8.8.8.8".toList
    scopeId := nofun
    ipv4Mapped := nofun
    isUnspecified := fun _ => false
    isMulticast := fun _ => false
    isLinkLocal := fun _ => false
    isLoopback := fun a => a = .inl .loopback
    isReserved := fun _ => false
    isGlobal := fun a => a = .inl .dns
    isPrivate := fun a => a = .inl .loopback
    Network := Unit
    parseNetwork := fun s => if s = "127.0.0.0/8".toList then some () else none
    contains := fun _ a => a = .inl .loopback
    parse_text := by
      rintro (a | a) _
      · cases a <;> decide
      · cases a
    parse_scope := nofun
    text_chars := by
      rintro (a | a) _
      · cases a <;> exact forall_mem_of_all (by decide)
      · cases a
    text_colon := by
      rintro (a | a)
      · cases a <;> exact ⟨fun h => absurd h (by decide), fun ⟨b, _⟩ => b.elim⟩
      · cases a
    text_end := by
      rintro (a | a) _
      · cases a <;> decide
      · cases a
    parse_canonical := by
      intro s a h _
      split at h
      · rename_i hs
        rw [hs, ← Option.some.inj h]
      · rw [Option.ite_none_right_eq_some] at h
        rw [h.1, ← Option.some.inj h.2] }

local instance exampleCodecs : Codecs := asciiCodecs

local instance exampleAddresses : Ipaddress := sampleAddresses

/-- A policy for a local server. -/
def localPolicy : ProviderEgressPolicy :=
  { mode := .selfHosted
    allowedBaseUrls := ["http://localhost/v1".toList]
    allowedCidrs := [()]
    resolver := fun _ _ => some ["127.0.0.1".toList] }

/-- A request to a model on this machine is pinned to its address. -/
theorem egress_pinned_local :
    (∃ p, prepareRequest localPolicy ⟨"ollama".toList, some "http://localhost/v1/".toList⟩
        "http://LOCALHOST/v1/chat".toList = .ok p ∧
      Pinned localPolicy ["http://localhost/v1".toList]
        ⟨"ollama".toList, some "http://localhost/v1/".toList⟩ p) ∧
      ∀ url d, normalizeBaseUrl (some url) = .ok d →
        (normalizeBaseUrl (some d.baseUrl) = .ok d ↔ Stable url) := by
  have hpolicy : createPolicy "self_hosted".toList ["http://localhost/v1".toList]
      ["127.0.0.0/8".toList] localPolicy.resolver = .ok localPolicy := rfl
  have hrequest : prepareRequest localPolicy
      ⟨"ollama".toList, some "http://localhost/v1/".toList⟩ "http://LOCALHOST/v1/chat".toList =
        .ok ⟨⟨"http".toList, "localhost".toList, 80, "/v1/chat".toList, []⟩, .inl .loopback⟩ := by
    rfl
  exact ⟨⟨_, hrequest, (egress_pinned hpolicy).1 _ _ _ hrequest⟩, (egress_pinned hpolicy).2⟩

/-- A host in wide digits is allowed, but not its form. -/
theorem normalizeBaseUrl_wide :
    ∃ d, normalizeBaseUrl (some ("http://".toList ++ ['１', '２', '７'] ++ ".1".toList)) = .ok d ∧
      normalizeBaseUrl (some d.baseUrl) ≠ .ok d := by
  refine ⟨⟨"http".toList, "127.1".toList, 80, "/".toList, []⟩, by decide +kernel, ?_⟩
  have hrefused : normalizeBaseUrl (some "http://127.1/".toList) = deny := by decide +kernel
  have hbase : NormalizedDestination.baseUrl
      ⟨"http".toList, "127.1".toList, 80, "/".toList, []⟩ = "http://127.1/".toList := by
    decide +kernel
  rw [hbase, hrefused]
  exact deny_ne_ok

end Examples

end Egress

end Partha
