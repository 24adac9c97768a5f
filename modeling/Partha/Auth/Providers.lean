import Partha.Auth.Accounts
import Partha.Extraction.Structured
import Partha.Library.Raises

/-!
# OAuth Provider Clients

What the clients of Google and GitHub make of the answers they get.

A provider is a function from requests to answers, and an answer is a status and bytes.
What the bytes decode to is walked with `.get` and `for`, so a body that is not JSON, a
value that is not a mapping or cannot be iterated, and a token that does not fit into a
header raise errors of their own. A client translates only the errors of the connection,
and the library of the tokens has its errors translated where it is called.

The decoder of bodies, `str`, the truth of a float and the library of the tokens are
parameters. A float is kept as it is written. The library checks that the `kid` of a header
is text. Nothing else is known of its results.

## Main definitions

* `Json`, `Object`: What a body decodes to.
* `resolveGoogle`, `resolveGithub`: `resolve_identity` of the two clients.
* `Legible`, `SaysObject`, `ReadableUpTo`: What the walks need.
* `GoogleReadable`, `GithubReadable`: What the answers have to look like.
* `GoogleReports`, `GithubReports`: What the answers say about who signed in.

## Theorems

* `firstWhere_raises`, `firstWhere_eq_some`: A search through a list.
* `objectAnswer_raises`, `objectAnswer_eq_ok`: A mapping that is asked for.
-/

namespace Partha

namespace Providers

open Checked
open Structured (PyChar PyStr ofStr)
open List

section Definitions

/-- What `json.loads` returns. -/
inductive Json where
  | null
  | bool (b : Bool)
  | int (i : Int)
  | float (text : String)
  | str (s : PyStr)
  | array (items : List Json)
  | object (fields : List (PyStr × Json))

/-- A decoded mapping. -/
abbrev Object := List (PyStr × Json)

/-- Text of the source. -/
def text (s : String) : PyStr :=
  ofStr s.toList

/-- `get` of a mapping, with its default. -/
def getOr (o : Object) (key : String) (default : Json) : Json :=
  ((o.find? (fun f => decide (f.1 = text key))).map (fun f => f.2)).getD default

def get (o : Object) (key : String) : Json :=
  getOr o key .null

/-- What is raised while a callback is handled. -/
inductive Raised where
  | providerError (message : PyStr)
  | httpError
  | valueError
  | attributeError
  | typeError
  | unicodeEncodeError
  | validationError (message : String)
  | conflictError (message : String)
  | integrityError
  | statementError
  deriving DecidableEq, Repr

inductive HttpRequest where
  | post (url : String) (accept : Option String) (data : List (String × String))
  | get (url : String) (authorization : Option PyStr)
  deriving DecidableEq, Repr

structure Response where
  statusCode : Nat
  content : List UInt8
  deriving DecidableEq, Repr

/-- A provider, as a function of the requests. No answer is an `httpx.HTTPError`. -/
abbrev World := HttpRequest → Option Response

/-- The libraries: `Response.json`, `str`, the truth of a float, and the functions of `jwt`,
    of which `none` is a `PyJWTError`. -/
structure Library (Key : Type) where
  loads : List UInt8 → Option Json
  str : Json → PyStr
  floatTruthy : String → Bool
  unverifiedKid : Json → Option (Option PyStr)
  fromJwk : Object → Option Key
  isPublic : Key → Bool
  decode : Json → Key → List String → String → List String → Option Object

/-- What is registered with a provider. An empty text stands for none. -/
structure Credentials where
  clientId : String
  clientSecret : String
  deriving DecidableEq, Repr

/-- `is_configured`. -/
def Credentials.isConfigured (c : Credentials) : Bool :=
  c.clientId ≠ "" && c.clientSecret ≠ ""

/-- The arguments of `resolve_identity`. -/
structure Arguments where
  code : String
  redirectUri : String
  codeVerifier : Option String
  nonce : Option String
  deriving DecidableEq, Repr

/-- `OAuthIdentityInfo`, with what the provider wrote. -/
structure IdentityInfo where
  subject : PyStr
  email : Json
  emailVerified : Bool
  displayName : Json

def googleTokenUrl : String :=
  "https://oauth2.googleapis.com/token"

def googleJwksUrl : String :=
  "https://www.googleapis.com/oauth2/v3/certs"

def googleIssuers : List String :=
  ["https://accounts.google.com", "accounts.google.com"]

def githubTokenUrl : String :=
  "https://github.com/login/oauth/access_token"

def githubUserUrl : String :=
  "https://api.github.com/user"

def githubEmailsUrl : String :=
  "https://api.github.com/user/emails"

/-- `v is None`. -/
def isNone : Json → Bool
  | .null => true
  | _ => false

/-- `v == s` for text or `None`. -/
def sameText (v : Json) (s : Option PyStr) : Bool :=
  match v, s with
  | .str t, some s => decide (t = s)
  | .null, none => true
  | _, _ => false

def hasKid (kid : Option PyStr) (key : Object) : Bool :=
  sameText (get key "kid") kid

/-- A text that can stand in a header. -/
def isHeader (s : PyStr) : Bool :=
  s.all (fun c => match c with
    | .scalar c => decide (c.toNat < 128)
    | .surrogate _ => false)

/-- The attribute `get` of a value. -/
def asObject : Json → Except Raised Object
  | .object o => .ok o
  | _ => .error .attributeError

/-- The values that `for` goes through. -/
def iterate : Json → Except Raised (List Json)
  | .array items => .ok items
  | .object fields => .ok (fields.map (fun f => .str f.1))
  | .str s => .ok (s.map (fun c => .str [c]))
  | _ => .error .typeError

/-- The first mapping that passes a test, if all before it are mappings. -/
def firstWhere (p : Object → Bool) : List Json → Except Raised (Option Object)
  | [] => .ok none
  | v :: rest => do
      let o ← asObject v
      if p o then .ok (some o) else firstWhere p rest

variable {Key : Type} (lib : Library Key) (world : World)

/-- `bool`. -/
def truthy : Json → Bool
  | .null => false
  | .bool b => b
  | .int i => i ≠ 0
  | .float written => lib.floatTruthy written
  | .str s => !s.isEmpty
  | .array items => !items.isEmpty
  | .object fields => !fields.isEmpty

def json (response : Response) : Except Raised Json :=
  match lib.loads response.content with
  | some v => .ok v
  | none => .error .valueError

/-- A request. The headers are encoded before anything is sent. -/
def send (q : HttpRequest) : Except Raised Response :=
  match q with
  | .get _ (some authorization) =>
    if isHeader authorization then
      match world q with
      | some response => .ok response
      | none => .error .httpError
    else .error .unicodeEncodeError
  | _ => match world q with
    | some response => .ok response
    | none => .error .httpError

/-- The body of an answer whose status has to be 200. -/
def jsonAnswer (failed : String) (q : HttpRequest) : Except Raised Json := do
  let response ← send world q
  if response.statusCode = 200 then json lib response
  else .error (.providerError (text (failed ++ toString response.statusCode)))

/-- `except httpx.HTTPError`. -/
def isHttpError : Raised → Bool
  | .httpError => true
  | _ => false

def googleTokenRequest (c : Credentials) (a : Arguments) : HttpRequest :=
  .post googleTokenUrl none
    [("client_id", c.clientId), ("client_secret", c.clientSecret), ("code", a.code),
      ("code_verifier", a.codeVerifier.getD ""), ("redirect_uri", a.redirectUri),
      ("grant_type", "authorization_code")]

def googleJwksRequest : HttpRequest :=
  .get googleJwksUrl none

/-- The token and the keys it is verified with. -/
def googleExchange (c : Credentials) (a : Arguments) : Except Raised (Json × Json) := do
  let tokenBody ← jsonAnswer lib world "Google token exchange failed: " (googleTokenRequest c a)
  let fields ← asObject tokenBody
  if truthy lib (get fields "id_token") then do
    let jwks ← jsonAnswer lib world "Failed to fetch Google JWKS: " googleJwksRequest
    .ok (get fields "id_token", jwks)
  else .error (.providerError (text "Google token response missing id_token."))

/-- The claims of a token, once the key is found. -/
def decodeWith (c : Credentials) (idToken : Json) (key : Object) : Except Raised Object :=
  match lib.fromJwk key with
  | none => .error (.providerError (text "Google id_token failed verification."))
  | some publicKey =>
    if lib.isPublic publicKey then
      match lib.decode idToken publicKey ["RS256"] c.clientId googleIssuers with
      | none => .error (.providerError (text "Google id_token failed verification."))
      | some claims => .ok claims
    else .error (.providerError (text "Google JWKS key is not a usable RSA public key."))

/-- `_verify_google_id_token`. -/
def verifyGoogleIdToken (c : Credentials) (idToken jwks : Json) : Except Raised Object :=
  match lib.unverifiedKid idToken with
  | none => .error (.providerError (text "Malformed Google id_token."))
  | some kid => do
      let fields ← asObject jwks
      let keys ← iterate (getOr fields "keys" (.array []))
      let matching ← firstWhere (hasKid kid) keys
      match matching with
      | none => .error (.providerError (text "No matching Google JWKS key for id_token."))
      | some key => decodeWith lib c idToken key

/-- The identity that verified claims are about. -/
def googleIdentity (claims : Object) : IdentityInfo :=
  { subject := lib.str (get claims "sub")
    email := get claims "email"
    emailVerified := truthy lib (getOr claims "email_verified" (.bool false))
    displayName := get claims "name" }

/-- `GoogleOAuthClient.resolve_identity`. -/
def resolveGoogle (c : Credentials) (a : Arguments) : Except Raised IdentityInfo := do
  let exchanged ← translate isHttpError (.providerError (text "Network error talking to Google."))
    (googleExchange lib world c a)
  let claims ← verifyGoogleIdToken lib c exchanged.1 exchanged.2
  if sameText (get claims "nonce") (a.nonce.map text) then
    if truthy lib (get claims "sub") then .ok (googleIdentity lib claims)
    else .error (.providerError (text "Google id_token missing sub claim."))
  else .error (.providerError (text "Google id_token nonce mismatch."))

def githubTokenRequest (c : Credentials) (a : Arguments) : HttpRequest :=
  .post githubTokenUrl (some "application/json")
    [("client_id", c.clientId), ("client_secret", c.clientSecret), ("code", a.code),
      ("redirect_uri", a.redirectUri)]

/-- The header that an access token is sent in. -/
def bearer (accessToken : Json) : PyStr :=
  text "Bearer " ++ lib.str accessToken

def githubUserRequest (accessToken : Json) : HttpRequest :=
  .get githubUserUrl (some (bearer lib accessToken))

def githubEmailsRequest (accessToken : Json) : HttpRequest :=
  .get githubEmailsUrl (some (bearer lib accessToken))

def isPrimaryVerified (entry : Object) : Bool :=
  truthy lib (get entry "primary") && truthy lib (get entry "verified")

/-- The identity of an account, with the address that is taken for it. -/
def githubIdentity (user : Object) (email : Json) (emailVerified : Bool) : IdentityInfo :=
  { subject := lib.str (get user "id")
    email := email
    emailVerified := emailVerified
    displayName :=
      if truthy lib (get user "name") then get user "name" else get user "login" }

/-- The addresses that are looked up when the account shows none. -/
def fallbackEmail (user : Object) (response : Response) : Except Raised IdentityInfo :=
  if response.statusCode = 200 then do
    let body ← json lib response
    let entries ← iterate body
    let found ← firstWhere (isPrimaryVerified lib) entries
    match found with
    | some entry => .ok (githubIdentity lib user (get entry "email") true)
    | none => .ok (githubIdentity lib user (get user "email") false)
  else .ok (githubIdentity lib user (get user "email") false)

/-- The identity of an account that was looked up. -/
def accountOf (accessToken : Json) (user : Object) : Except Raised IdentityInfo :=
  if isNone (get user "id") then
    .error (.providerError (text "GitHub user response missing id."))
  else if truthy lib (get user "email") then
    .ok (githubIdentity lib user (get user "email") true)
  else do
    let response ← send world (githubEmailsRequest lib accessToken)
    fallbackEmail lib user response

/-- The account behind an access token. -/
def githubAccount (accessToken : Json) : Except Raised IdentityInfo := do
  let userBody ← jsonAnswer lib world "GitHub user lookup failed: "
    (githubUserRequest lib accessToken)
  let user ← asObject userBody
  accountOf lib world accessToken user

/-- A token response that is no denial. -/
def granted (fields : Object) : Bool :=
  truthy lib (get fields "access_token") && !truthy lib (get fields "error")

/-- `GitHubOAuthClient.resolve_identity`. -/
def resolveGithub (c : Credentials) (a : Arguments) : Except Raised IdentityInfo :=
  translate isHttpError (.providerError (text "Network error talking to GitHub.")) do
    let tokenBody ← jsonAnswer lib world "GitHub token exchange failed: " (githubTokenRequest c a)
    let fields ← asObject tokenBody
    if granted lib fields then githubAccount lib world (get fields "access_token")
    else .error (.providerError (text "GitHub token exchange denied: " ++
      lib.str (getOr fields "error" (.str (text "unknown")))))

end Definitions

section Reading

/-- The first mapping of a list that passes a test. -/
def FirstWhere (p : Object → Bool) (items : List Json) (o : Object) : Prop :=
  ∃ before after, items = before ++ .object o :: after ∧ p o = true ∧
    ∀ v ∈ before, ∃ o', v = .object o' ∧ p o' = false

/-- Every value that is looked at on the way to the first that passes a test is a mapping. -/
def ReadableUpTo (p : Object → Bool) (items : List Json) : Prop :=
  ∀ before v after, items = before ++ v :: after → (∀ o, .object o ∈ before → p o = false) →
    ∃ o, v = .object o

/-- A request whose headers have an encoding. -/
def Sendable : HttpRequest → Prop
  | .get _ (some authorization) => isHeader authorization = true
  | _ => True

variable {Key : Type} (lib : Library Key) (world : World)

/-- A request that is answered with 200. -/
def Succeeds (q : HttpRequest) (r : Response) : Prop :=
  Sendable q ∧ world q = some r ∧ r.statusCode = 200

/-- What the answer to a request says. -/
def Says (q : HttpRequest) (v : Json) : Prop :=
  ∃ r, Succeeds world q r ∧ lib.loads r.content = some v

/-- An answer that succeeds is JSON. -/
def Legible (q : HttpRequest) : Prop :=
  ∀ r, Succeeds world q r → ∃ v, lib.loads r.content = some v

/-- An answer that succeeds is a mapping. -/
def SaysObject (q : HttpRequest) : Prop :=
  ∀ r, Succeeds world q r → ∃ o, lib.loads r.content = some (.object o)

/-- A token that Google returns. -/
def GoogleToken (c : Credentials) (a : Arguments) (idToken : Json) : Prop :=
  ∃ fields, Says lib world (googleTokenRequest c a) (.object fields) ∧
    idToken = get fields "id_token" ∧ truthy lib idToken = true

/-- The keys that are searched. -/
def KeysReadable (kid : Option PyStr) (jwks : Json) : Prop :=
  ∃ fields keys, jwks = .object fields ∧ iterate (getOr fields "keys" (.array [])) = .ok keys ∧
    ReadableUpTo (hasKid kid) keys

/-- The answers of Google can be walked. -/
structure GoogleReadable (c : Credentials) (a : Arguments) : Prop where
  token : SaysObject lib world (googleTokenRequest c a)
  jwks : ∀ idToken, GoogleToken lib world c a idToken → Legible lib world googleJwksRequest
  keys : ∀ idToken jwks kid, GoogleToken lib world c a idToken →
    Says lib world googleJwksRequest jwks → lib.unverifiedKid idToken = some kid →
      KeysReadable kid jwks

/-- The claims of a token that verifies against the key it names. -/
def Verifies (c : Credentials) (idToken jwks : Json) (claims : Object) : Prop :=
  ∃ kid fields keys key publicKey, lib.unverifiedKid idToken = some kid ∧
    jwks = .object fields ∧ iterate (getOr fields "keys" (.array [])) = .ok keys ∧
    FirstWhere (hasKid kid) keys key ∧ lib.fromJwk key = some publicKey ∧
    lib.isPublic publicKey = true ∧
    lib.decode idToken publicKey ["RS256"] c.clientId googleIssuers = some claims

/-- The claims that Google makes about who signed in. -/
def GoogleClaims (c : Credentials) (a : Arguments) (claims : Object) : Prop :=
  ∃ idToken jwks, GoogleToken lib world c a idToken ∧ Says lib world googleJwksRequest jwks ∧
    Verifies lib c idToken jwks claims ∧ sameText (get claims "nonce") (a.nonce.map text) = true ∧
    truthy lib (get claims "sub") = true

/-- A token that GitHub grants. -/
def GithubToken (c : Credentials) (a : Arguments) (accessToken : Json) : Prop :=
  ∃ fields, Says lib world (githubTokenRequest c a) (.object fields) ∧
    accessToken = get fields "access_token" ∧ granted lib fields = true

/-- The account that GitHub reports. -/
def GithubUser (accessToken : Json) (user : Object) : Prop :=
  Says lib world (githubUserRequest lib accessToken) (.object user) ∧
    isNone (get user "id") = false

/-- The addresses that are searched. -/
def EntriesReadable (q : HttpRequest) : Prop :=
  ∀ r, Succeeds world q r → ∃ v entries, lib.loads r.content = some v ∧ iterate v = .ok entries ∧
    ReadableUpTo (isPrimaryVerified lib) entries

/-- The answers of GitHub can be walked, and its token fits into a header. -/
structure GithubReadable (c : Credentials) (a : Arguments) : Prop where
  token : SaysObject lib world (githubTokenRequest c a)
  header : ∀ accessToken, GithubToken lib world c a accessToken →
    isHeader (bearer lib accessToken) = true
  user : ∀ accessToken, GithubToken lib world c a accessToken →
    SaysObject lib world (githubUserRequest lib accessToken)
  emails : ∀ accessToken user, GithubToken lib world c a accessToken →
    GithubUser lib world accessToken user → truthy lib (get user "email") = false →
      EntriesReadable lib world (githubEmailsRequest lib accessToken)

/-- The first address that GitHub calls primary and verified. -/
def GithubEntry (accessToken : Json) (entry : Object) : Prop :=
  ∃ v entries, Says lib world (githubEmailsRequest lib accessToken) v ∧
    iterate v = .ok entries ∧ FirstWhere (isPrimaryVerified lib) entries entry

/-- There is no such address, or the addresses are not shown. -/
def GithubNoEntry (accessToken : Json) : Prop :=
  ∃ r, Sendable (githubEmailsRequest lib accessToken) ∧
    world (githubEmailsRequest lib accessToken) = some r ∧
    (r.statusCode = 200 → ∃ v entries, lib.loads r.content = some v ∧ iterate v = .ok entries ∧
      ∀ x ∈ entries, ∃ o, x = .object o ∧ isPrimaryVerified lib o = false)

/-- The identity that Google reports. -/
def GoogleReports (c : Credentials) (a : Arguments) (identity : IdentityInfo) : Prop :=
  ∃ claims, GoogleClaims lib world c a claims ∧ identity = googleIdentity lib claims

/-- The identity that GitHub reports. -/
def GithubReports (c : Credentials) (a : Arguments) (identity : IdentityInfo) : Prop :=
  ∃ accessToken user, GithubToken lib world c a accessToken ∧
    GithubUser lib world accessToken user ∧
    (truthy lib (get user "email") = true ∧
        identity = githubIdentity lib user (get user "email") true ∨
      truthy lib (get user "email") = false ∧
        ((∃ entry, GithubEntry lib world accessToken entry ∧
            identity = githubIdentity lib user (get entry "email") true) ∨
          GithubNoEntry lib world accessToken ∧
            identity = githubIdentity lib user (get user "email") false))

end Reading

section Walks

/-- `OAuthProviderError`. -/
def IsProviderError (e : Raised) : Prop :=
  ∃ message, e = .providerError message

/-- What the handler of a client and its caller are prepared for. -/
def Translated (e : Raised) : Prop :=
  isHttpError e = true ∨ IsProviderError e

/-- Only errors of the connection and of the provider are expected. -/
def Narrow (expected : Raised → Prop) : Prop :=
  ∀ e, expected e → Translated e

theorem narrow_provider : Narrow IsProviderError :=
  fun _ => .inr

theorem narrow_translated : Narrow Translated :=
  fun _ => id

variable {e : Raised} {p : Object → Bool} {v : Json} {o : Object} {items : List Json}

theorem not_translated (hhttp : isHttpError e = false)
    (hprovider : ∀ message, e ≠ .providerError message) : ¬ Translated e := by
  rintro (h | ⟨message, h⟩)
  · rw [hhttp] at h
    cases h
  · exact hprovider message h

variable {expected : Raised → Prop} (hn : Narrow expected)

include hn

theorem unexpected (hhttp : isHttpError e = false)
    (hprovider : ∀ message, e ≠ .providerError message) {α : Type} :
    ¬ RaisesOnly expected (Except.error e : Except Raised α) := by
  intro h
  exact not_translated hhttp hprovider (hn e (raisesOnly_error.mp h))

theorem asObject_raises (v : Json) :
    RaisesOnly expected (asObject v) ↔ ∃ o, v = .object o := by
  cases v with
  | object o => exact iff_of_true (raisesOnly_ok _ o) ⟨o, rfl⟩
  | null | bool _ | int _ | float _ | str _ | array _ =>
    refine iff_of_false (unexpected hn rfl (fun _ h => by cases h)) ?_
    rintro ⟨o, h⟩
    cases h

theorem iterate_raises (v : Json) :
    RaisesOnly expected (iterate v) ↔ ∃ items, iterate v = .ok items := by
  cases v with
  | object _ | str _ | array _ => exact iff_of_true (raisesOnly_ok _ _) ⟨_, rfl⟩
  | null | bool _ | int _ | float _ =>
    refine iff_of_false (unexpected hn rfl (fun _ h => by cases h)) ?_
    rintro ⟨items, h⟩
    cases h

omit hn in
/-- The values before the first that is looked at may be any mapping that fails the test. -/
theorem readableUpTo_cons {rest : List Json} :
    ReadableUpTo p (v :: rest) ↔
      ∃ o, v = .object o ∧ (p o = false → ReadableUpTo p rest) := by
  constructor
  · intro h
    rcases h [] v rest rfl (fun o ho => absurd ho not_mem_nil) with ⟨o, rfl⟩
    refine ⟨o, rfl, ?_⟩
    intro ho before w after hrest hbefore
    refine h (.object o :: before) w after (by rw [hrest, cons_append]) ?_
    intro o' ho'
    rcases mem_cons.mp ho' with heq | ho'
    · rw [Json.object.inj heq]
      exact ho
    · exact hbefore o' ho'
  · rintro ⟨o, rfl, h⟩ before w after hsplit hbefore
    cases before with
    | nil => exact ⟨o, (List.cons.inj hsplit).1.symm⟩
    | cons b before =>
      rw [cons_append] at hsplit
      rcases List.cons.inj hsplit with ⟨hb, hrest⟩
      refine h (hbefore o (by rw [hb]; exact mem_cons_self)) before w after hrest ?_
      exact fun o' ho' => hbefore o' (mem_cons_of_mem _ ho')

theorem firstWhere_raises (p : Object → Bool) (items : List Json) :
    RaisesOnly expected (firstWhere p items) ↔ ReadableUpTo p items := by
  induction items with
  | nil =>
    refine iff_of_true (raisesOnly_ok _ _) ?_
    intro before v after h
    cases before with
    | nil => cases h
    | cons b before => cases h
  | cons v rest ih =>
    unfold firstWhere
    rw [raisesOnly_bind, asObject_raises hn, readableUpTo_cons]
    constructor
    · rintro ⟨⟨o, rfl⟩, h⟩
      refine ⟨o, rfl, ?_⟩
      intro ho
      have hrest := h o rfl
      rw [if_neg (by rw [ho]; exact Bool.false_ne_true)] at hrest
      exact ih.mp hrest
    · rintro ⟨o, rfl, h⟩
      refine ⟨⟨o, rfl⟩, ?_⟩
      intro o' ho'
      cases ho'
      by_cases ho : p o = true
      · rw [if_pos ho]
        exact raisesOnly_ok _ _
      · rw [if_neg ho]
        exact ih.mpr (h (Bool.eq_false_iff.mpr ho))

omit hn in
theorem asObject_eq_ok : asObject v = .ok o ↔ v = .object o := by
  cases v with
  | object o' =>
    constructor
    · exact fun h => congrArg Json.object (Except.ok.inj h)
    · exact fun h => congrArg Except.ok (Json.object.inj h)
  | null | bool _ | int _ | float _ | str _ | array _ =>
    constructor
    · intro h
      cases h
    · intro h
      cases h

omit hn in
theorem firstWhere_eq_some : firstWhere p items = .ok (some o) ↔ FirstWhere p items o := by
  induction items with
  | nil =>
    constructor
    · intro h
      cases h
    · rintro ⟨before, after, h, -⟩
      cases before with
      | nil => cases h
      | cons b before => cases h
  | cons v rest ih =>
    unfold firstWhere
    rw [bind_eq_ok]
    constructor
    · rintro ⟨o', ho', h⟩
      rw [asObject_eq_ok.mp ho']
      by_cases hp : p o' = true
      · rw [if_pos hp] at h
        rw [← Option.some.inj (Except.ok.inj h)]
        exact ⟨[], rest, rfl, hp, fun v hv => absurd hv not_mem_nil⟩
      · rw [if_neg hp] at h
        rcases ih.mp h with ⟨before, after, hrest, ho, hbefore⟩
        refine ⟨.object o' :: before, after, by rw [hrest, cons_append], ho, ?_⟩
        rintro w hw
        rcases mem_cons.mp hw with rfl | hw
        · exact ⟨o', rfl, Bool.eq_false_iff.mpr hp⟩
        · exact hbefore w hw
    · rintro ⟨before, after, hsplit, ho, hbefore⟩
      cases before with
      | nil =>
        rw [nil_append] at hsplit
        rcases List.cons.inj hsplit with ⟨rfl, rfl⟩
        exact ⟨o, rfl, by rw [if_pos ho]⟩
      | cons b before =>
        rw [cons_append] at hsplit
        rcases List.cons.inj hsplit with ⟨rfl, rfl⟩
        rcases hbefore v mem_cons_self with ⟨o', rfl, ho'⟩
        refine ⟨o', rfl, ?_⟩
        rw [if_neg (by rw [ho']; exact Bool.false_ne_true)]
        refine ih.mpr ⟨before, after, rfl, ho, ?_⟩
        exact fun w hw => hbefore w (mem_cons_of_mem _ hw)

omit hn in
theorem firstWhere_eq_none :
    firstWhere p items = .ok none ↔ ∀ v ∈ items, ∃ o, v = .object o ∧ p o = false := by
  induction items with
  | nil => exact iff_of_true rfl (fun v hv => absurd hv not_mem_nil)
  | cons v rest ih =>
    unfold firstWhere
    rw [bind_eq_ok, forall_mem_cons, ← ih]
    constructor
    · rintro ⟨o, ho, h⟩
      by_cases hp : p o = true
      · rw [if_pos hp] at h
        cases h
      · rw [if_neg hp] at h
        exact ⟨⟨o, asObject_eq_ok.mp ho, Bool.eq_false_iff.mpr hp⟩, h⟩
    · rintro ⟨⟨o, rfl, ho⟩, h⟩
      refine ⟨o, rfl, ?_⟩
      rw [if_neg (by rw [ho]; exact Bool.false_ne_true)]
      exact h

end Walks

section Requests

variable {Key : Type} {lib : Library Key} {world : World} {q : HttpRequest}

variable {r : Response} {v : Json} {failed : String} {α : Type} {f : Object → Except Raised α}

theorem send_eq_ok : send world q = .ok r ↔ Sendable q ∧ world q = some r := by
  have hplain : (match world q with
      | some response => Except.ok response
      | none => Except.error Raised.httpError) = .ok r ↔ world q = some r := by
    cases world q with
    | none =>
      constructor
      · intro h
        cases h
      · intro h
        cases h
    | some r' => exact ⟨fun h => congrArg some (Except.ok.inj h),
        fun h => congrArg Except.ok (Option.some.inj h)⟩
  cases q with
  | post url accept data => exact hplain.trans (and_iff_right trivial).symm
  | get url authorization =>
    cases authorization with
    | none => exact hplain.trans (and_iff_right trivial).symm
    | some authorization =>
      unfold send
      by_cases h : isHeader authorization = true
      · dsimp only
        rw [if_pos h]
        exact hplain.trans (and_iff_right h).symm
      · dsimp only
        rw [if_neg h]
        refine iff_of_false (fun h => by cases h) ?_
        exact fun hq => h hq.1

theorem send_raises : RaisesOnly Translated (send world q) ↔ Sendable q := by
  have hplain : RaisesOnly Translated (match world q with
      | some response => Except.ok response
      | none => Except.error Raised.httpError) := by
    cases world q with
    | none => exact raisesOnly_error.mpr (.inl rfl)
    | some r => exact raisesOnly_ok _ r
  cases q with
  | post url accept data => exact iff_of_true hplain trivial
  | get url authorization =>
    cases authorization with
    | none => exact iff_of_true hplain trivial
    | some authorization =>
      unfold send
      by_cases h : isHeader authorization = true
      · dsimp only
        rw [if_pos h]
        exact iff_of_true hplain h
      · dsimp only
        rw [if_neg h]
        exact iff_of_false (unexpected narrow_translated rfl (fun _ h => by cases h)) h

theorem json_eq_ok : json lib r = .ok v ↔ lib.loads r.content = some v := by
  unfold json
  cases lib.loads r.content with
  | none =>
    constructor
    · intro h
      cases h
    · intro h
      cases h
  | some w => exact ⟨fun h => congrArg some (Except.ok.inj h),
      fun h => congrArg Except.ok (Option.some.inj h)⟩

theorem json_raises : RaisesOnly Translated (json lib r) ↔ ∃ v, lib.loads r.content = some v := by
  unfold json
  cases lib.loads r.content with
  | none =>
    refine iff_of_false (unexpected narrow_translated rfl (fun _ h => by cases h)) ?_
    rintro ⟨v, h⟩
    cases h
  | some v => exact iff_of_true (raisesOnly_ok _ v) ⟨v, rfl⟩

theorem jsonAnswer_eq_ok : jsonAnswer lib world failed q = .ok v ↔ Says lib world q v := by
  unfold jsonAnswer
  rw [bind_eq_ok]
  constructor
  · rintro ⟨r, hr, h⟩
    rcases send_eq_ok.mp hr with ⟨hsend, hworld⟩
    by_cases hstatus : r.statusCode = 200
    · rw [if_pos hstatus] at h
      exact ⟨r, ⟨hsend, hworld, hstatus⟩, json_eq_ok.mp h⟩
    · rw [if_neg hstatus] at h
      cases h
  · rintro ⟨r, ⟨hsend, hworld, hstatus⟩, h⟩
    refine ⟨r, send_eq_ok.mpr ⟨hsend, hworld⟩, ?_⟩
    rw [if_pos hstatus]
    exact json_eq_ok.mpr h

theorem jsonAnswer_raises :
    RaisesOnly Translated (jsonAnswer lib world failed q) ↔ Sendable q ∧ Legible lib world q := by
  unfold jsonAnswer
  rw [raisesOnly_bind, send_raises]
  refine and_congr_right ?_
  intro hsend
  constructor
  · rintro h r ⟨-, hworld, hstatus⟩
    have hr := h r (send_eq_ok.mpr ⟨hsend, hworld⟩)
    rw [if_pos hstatus] at hr
    exact json_raises.mp hr
  · intro h r hr
    by_cases hstatus : r.statusCode = 200
    · rw [if_pos hstatus]
      exact json_raises.mpr (h r ⟨hsend, (send_eq_ok.mp hr).2, hstatus⟩)
    · rw [if_neg hstatus]
      exact raisesOnly_error.mpr (.inr ⟨_, rfl⟩)

/-- A mapping that was answered, and what is done with it. -/
theorem objectAnswer_eq_ok {a : α} :
    (jsonAnswer lib world failed q >>= fun body => asObject body >>= f) = .ok a ↔
      ∃ o, Says lib world q (.object o) ∧ f o = .ok a := by
  rw [bind_eq_ok]
  constructor
  · rintro ⟨v, hv, h⟩
    rcases bind_eq_ok.mp h with ⟨o, ho, h⟩
    rw [asObject_eq_ok.mp ho] at hv
    exact ⟨o, jsonAnswer_eq_ok.mp hv, h⟩
  · rintro ⟨o, ho, h⟩
    exact ⟨.object o, jsonAnswer_eq_ok.mpr ho, bind_eq_ok.mpr ⟨o, rfl, h⟩⟩

theorem saysObject_iff :
    SaysObject lib world q ↔
      Legible lib world q ∧ ∀ v, Says lib world q v → ∃ o, v = .object o := by
  constructor
  · intro h
    refine ⟨fun r hr => ?_, ?_⟩
    · rcases h r hr with ⟨o, ho⟩
      exact ⟨.object o, ho⟩
    · rintro v ⟨r, hr, hv⟩
      rcases h r hr with ⟨o, ho⟩
      rw [ho] at hv
      exact ⟨o, (Option.some.inj hv).symm⟩
  · rintro ⟨hlegible, h⟩ r hr
    rcases hlegible r hr with ⟨v, hv⟩
    rcases h v ⟨r, hr, hv⟩ with ⟨o, rfl⟩
    exact ⟨o, hv⟩

theorem objectAnswer_raises :
    RaisesOnly Translated
        (jsonAnswer lib world failed q >>= fun body => asObject body >>= f) ↔
      Sendable q ∧ SaysObject lib world q ∧
        ∀ o, Says lib world q (.object o) → RaisesOnly Translated (f o) := by
  rw [raisesOnly_bind, jsonAnswer_raises, saysObject_iff]
  simp only [raisesOnly_bind, asObject_raises narrow_translated, jsonAnswer_eq_ok]
  constructor
  · rintro ⟨⟨hsend, hlegible⟩, h⟩
    exact ⟨hsend, ⟨hlegible, fun v hv => (h v hv).1⟩, fun o ho => (h _ ho).2 o rfl⟩
  · rintro ⟨hsend, ⟨hlegible, hobject⟩, h⟩
    refine ⟨⟨hsend, hlegible⟩, ?_⟩
    intro v hv
    refine ⟨hobject v hv, ?_⟩
    intro o ho
    rw [asObject_eq_ok.mp ho] at hv
    exact h o hv

end Requests

end Providers

end Partha
