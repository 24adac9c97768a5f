import Partha.Auth.Flows
import Partha.Auth.ProviderReports

/-!
# The Outcome of a Callback

Whether `complete_callback` ends in a redirect.

One callback runs over the tables from the flow row to its result. A commit changes the
tables for good, and an exception leaves them as the last commit did. The driver of the
database is a parameter: which texts it can send, which of them fit into a column, and what
it makes of a value that is no text. What it refuses is no `IntegrityError`. Identifiers
come from `uuid4` and are a counter above every row.

A callback fails where an answer of the provider cannot be walked, where an address that
the provider verified is no text, and where the database refuses a value that the provider
chose. A claim or a flag that is merely truthy verifies an address.

## Main definitions

* `Tables`, `Env`: The rows, and what the deployment consists of.
* `completeLogin`, `completeLink`, `completeCallback`: The service.
* `Outcome`: The callback ends in an outcome.
* `Answerable`: What the answers and the tables have to be like.

## Theorems

* `completeLink_returns`, `completeLogin_returns`: When an identity is settled.
* `callback_outcome`: When a callback ends in an outcome.
* `callback_fails`: Some callback does not.
-/

namespace Partha

namespace Callback

open Accounts (User ApprovedEmail OAuthIdentity OAuthPendingLink Intent Approval seedUserId
  pendingLinkTtlSeconds invalidOauthState emailNotApproved emailTaken)
open Checked Providers
open Structured (PyStr)

section Definitions

/-- `OAuthFlowState`, with where the browser is sent back to. -/
structure Flow extends Flows.Flow where
  frontendRedirectBase : String
  deriving DecidableEq, Repr

structure RefreshToken where
  id : Nat
  userId : Nat
  familyId : Nat
  deriving DecidableEq, Repr

/-- The committed tables. -/
structure Tables where
  users : List User
  approvedEmails : List ApprovedEmail
  identities : List OAuthIdentity
  pendingLinks : List OAuthPendingLink
  sessions : List RefreshToken
  flows : List Flow
  now : Nat
  nextUuid : Nat
  deriving DecidableEq, Repr

/-- The columns that take what a provider says. -/
inductive Column where
  | userEmail
  | approvedEmail
  | identitySubject
  | identityEmail
  | pendingSubject
  | pendingDisplayName
  deriving DecidableEq, Repr

/-- The deployment. `normalize` is `email.strip().lower()`, `encode` is a text as the driver
    sends it, and `adapt` what it stores of a value that is neither text nor `None`. -/
structure Env (Key : Type) where
  lib : Library Key
  hashState : String → String
  normalize : PyStr → PyStr
  encode : PyStr → Option String
  fits : Column → String → Bool
  adapt : Column → Json → Option (Option String)
  google : Credentials
  github : Credentials
  publicBaseUrl : String
  development : Bool

inductive LoginResult where
  | session (userId : Nat)
  | linked (userId : Nat)
  | pendingLink (id : Nat)
  | error (errorCode : String)
  deriving DecidableEq, Repr

/-- The arguments of `complete_callback`. -/
structure Call where
  provider : String
  state : String
  code : Option String
  providerError : Option String
  deriving DecidableEq, Repr

def Tables.findUser (t : Tables) (id : Nat) : Option User :=
  t.users.find? (fun u => u.id = id)

def Tables.findEmail (t : Tables) (email : String) : Option User :=
  t.users.find? (fun u => u.email = email)

def Tables.findIdentity (t : Tables) (provider subject : String) : Option OAuthIdentity :=
  t.identities.find? (fun i => i.provider = provider ∧ i.providerSubject = subject)

def Tables.findApproval (t : Tables) (email : String) : Option ApprovedEmail :=
  t.approvedEmails.find? (fun e => e.email = email)

/-- The foreign key and the two unique constraints of `oauth_identities`. -/
def Tables.admits (t : Tables) (i : OAuthIdentity) : Bool :=
  t.users.any (fun u => u.id = i.userId) &&
    !t.identities.any (fun j => j.provider = i.provider ∧ j.providerSubject = i.providerSubject) &&
    !t.identities.any (fun j => j.provider = i.provider ∧ j.userId = i.userId)

variable {Key : Type} (env : Env Key)

/-- What a column takes of a value, unless the statement fails. -/
def stored (column : Column) : Json → Option (Option String)
  | .null => some none
  | .str s => match env.encode s with
    | some text => if env.fits column text then some (some text) else none
    | none => none
  | v => env.adapt column v

/-- `OAuthIdentity(...)`, if its values can be sent. -/
def identityRow (t : Tables) (userId : Nat) (provider : String) (identity : IdentityInfo) :
    Option OAuthIdentity :=
  match stored env .identitySubject (.str identity.subject),
      stored env .identityEmail identity.email with
  | some (some subject), some email => some
      { id := t.nextUuid
        userId := userId
        provider := provider
        providerSubject := subject
        email := email
        createdAt := t.now }
  | _, _ => none

/-- The commit of a new identity. -/
def insertIdentity (t : Tables) (row : Option OAuthIdentity) : Except Raised Tables :=
  match row with
  | none => .error .statementError
  | some i =>
    if t.admits i then
      .ok { t with identities := t.identities ++ [i], nextUuid := t.nextUuid + 1 }
    else .error .integrityError

/-- `open_session`. -/
def openSession (t : Tables) (user : User) : Tables :=
  { t with
    sessions := t.sessions ++ [{ id := t.nextUuid, userId := user.id, familyId := t.nextUuid + 1 }]
    nextUuid := t.nextUuid + 2 }

/-- `_ensure_email_available`. -/
def ensureEmailAvailable (t : Tables) (email : String) : Except Raised Unit :=
  match t.findEmail email with
  | some _ => .error (.conflictError emailTaken)
  | none => .ok ()

/-- The approval that development adds. -/
def devBypass : Approval :=
  .added "Auto-approved: local development (#384). Never happens outside APP_ENV=development."
    "dev-bypass"

/-- The approval of the first account. -/
def firstUserBootstrap : Approval :=
  .added "Auto-approved: first user on this instance becomes its owner (#388)."
    "first-user-bootstrap"

/-- `_require_approval`, and `_first_user_bootstrap`. -/
def requireApproval (t : Tables) (email : String) : Except Raised Approval :=
  match t.findApproval email with
  | some approval => .ok (.stored approval.id)
  | none =>
    if env.development then .ok devBypass
    else if t.users.any (fun u => u.id ≠ seedUserId) then
      .error (.validationError emailNotApproved)
    else .ok firstUserBootstrap

/-- The approval with the audit trail of the account that used it. -/
def stampApproval (t : Tables) (email : String) (userId : Nat) : Approval → List ApprovedEmail
  | .stored id => t.approvedEmails.map (fun e =>
    if e.id = id then { e with usedAt := some t.now, usedByUserId := some userId } else e)
  | .added note addedBy => t.approvedEmails ++
      [{ id := t.nextUuid + 1
         email := email
         note := some note
         addedBy := some addedBy
         usedAt := some t.now
         usedByUserId := some userId }]

/-- The values of a registration fit into their columns. -/
def emailFits (email : String) : Approval → Bool
  | .stored _ => env.fits .userEmail email
  | .added _ _ => env.fits .userEmail email && env.fits .approvedEmail email

/-- The unique constraints that the rows of a registration meet. -/
def registrable (t : Tables) (email : String) (approval : Approval) : Bool :=
  !t.users.any (fun u => u.email = email) &&
    match approval with
    | .stored _ => true
    | .added _ _ => !t.approvedEmails.any (fun e => e.email = email)

/-- `_create_approved_user`: the account and its approval, and then the session. -/
def createApprovedUser (t : Tables) (email : String) (approval : Approval) :
    Except Raised (Tables × User) :=
  let user : User :=
    { id := t.nextUuid
      email := email
      passwordHash := none
      isActive := true }
  if emailFits env email approval then
    if registrable t email approval then
      .ok (openSession { t with
        users := t.users ++ [user]
        approvedEmails := stampApproval t email user.id approval
        nextUuid := t.nextUuid + 2 } user, user)
    else if (t.findEmail email).isSome then .error (.conflictError emailTaken)
    else .error .integrityError
  else .error .statementError

/-- `register_oauth_user`, for a normalized address. What it raises leaves the tables. -/
def registerOauthUser (t : Tables) (email : String) : Except Raised (Tables × User) := do
  ensureEmailAvailable t email
  let approval ← requireApproval env t email
  createApprovedUser env t email approval

/-- An account that is new with its identity. -/
def signUp (t : Tables) (provider : String) (identity : IdentityInfo) (email : String) :
    Tables × Except Raised LoginResult :=
  match registerOauthUser env t email with
  | .error (.validationError _) => (t, .ok (.error "email_not_approved"))
  | .error (.conflictError _) => (t, .ok (.error "email_already_registered"))
  | .error e => (t, .error e)
  | .ok (t', user) =>
    match insertIdentity t' (identityRow env t' user.id provider identity) with
    | .error e => (t', .error e)
    | .ok t'' => (t'', .ok (.session user.id))

/-- The pending link that the account's password has to confirm. -/
def offerLink (t : Tables) (provider : String) (identity : IdentityInfo) (user : User) :
    Tables × Except Raised LoginResult :=
  match stored env .pendingSubject (.str identity.subject),
      stored env .pendingDisplayName identity.displayName with
  | some (some subject), some displayName =>
    ({ t with
      pendingLinks := t.pendingLinks ++
        [{ id := t.nextUuid
           provider := provider
           providerSubject := subject
           email := user.email
           displayName := displayName
           expiresAt := t.now + pendingLinkTtlSeconds }]
      nextUuid := t.nextUuid + 1 }, .ok (.pendingLink t.nextUuid))
  | _, _ => (t, .error .statementError)

/-- An address that counts as verified. -/
def treatedAsVerified (identity : IdentityInfo) : Bool :=
  truthy env.lib identity.email && identity.emailVerified

/-- A normalized address: it may be somebody's, or new. -/
def matchAccount (t : Tables) (provider : String) (identity : IdentityInfo) (email : String) :
    Tables × Except Raised LoginResult :=
  match t.findEmail email with
  | none => signUp env t provider identity email
  | some user =>
    if user.id ≠ seedUserId then offerLink env t provider identity user
    else signUp env t provider identity email

/-- The address that the provider verified. -/
def matchEmail (t : Tables) (provider : String) (identity : IdentityInfo) :
    Tables × Except Raised LoginResult :=
  match identity.email with
  | .str s => match env.encode (env.normalize s) with
    | none => (t, .error .statementError)
    | some email => matchAccount env t provider identity email
  | _ => (t, .error .attributeError)

/-- `_complete_login`. -/
def completeLogin (t : Tables) (provider : String) (identity : IdentityInfo) :
    Tables × Except Raised LoginResult :=
  match env.encode identity.subject with
  | none => (t, .error .statementError)
  | some subject => match t.findIdentity provider subject with
    | some existing => match t.findUser existing.userId with
      | none => (t, .ok (.error "account_unavailable"))
      | some user =>
        if !user.isActive ∨ user.id = seedUserId then (t, .ok (.error "account_unavailable"))
        else (openSession t user, .ok (.session user.id))
    | none =>
      if treatedAsVerified env identity then matchEmail env t provider identity
      else (t, .ok (.error "email_not_approved"))

/-- `_complete_link`. -/
def completeLink (t : Tables) (provider : String) (identity : IdentityInfo)
    (linkUserId : Option Nat) : Tables × Except Raised LoginResult :=
  match linkUserId with
  | none => (t, .ok (.error "missing_link_target"))
  | some userId => match t.findUser userId with
    | none => (t, .ok (.error "account_unavailable"))
    | some user =>
      if user.isActive then
        match insertIdentity t (identityRow env t user.id provider identity) with
        | .ok t' => (t', .ok (.linked user.id))
        | .error .integrityError => (t, .ok (.error "already_linked"))
        | .error e => (t, .error e)
      else (t, .ok (.error "account_unavailable"))

/-- The flow that a state was issued for, unless it has expired. -/
def liveFlow (t : Tables) (state : String) : Option Flow :=
  (t.flows.find? (fun f => f.stateHash = env.hashState state)).filter
    (fun f => !decide (f.expiresAt ≤ t.now))

/-- `_require_client`. -/
def requireClient (provider : String) : Option Credentials :=
  if provider = "google" then some env.google
  else if provider = "github" then some env.github
  else none

def configured (provider : String) : Option Credentials :=
  (requireClient env provider).filter Credentials.isConfigured

/-- What `resolve_identity` is called with. -/
def arguments (c : Call) (flow : Flow) : Arguments :=
  { code := c.code.getD ""
    redirectUri := Flows.redirectUri env.publicBaseUrl c.provider
    codeVerifier := flow.codeVerifier
    nonce := flow.nonce }

/-- `resolve_identity` of the client of a provider. -/
def resolveIdentity (world : World) (provider : String) (credentials : Credentials)
    (a : Arguments) : Except Raised IdentityInfo :=
  if provider = "google" then resolveGoogle env.lib world credentials a
  else resolveGithub env.lib world credentials a

/-- The flow is deleted and committed whatever comes of the callback. -/
def consume (t : Tables) (flow : Flow) : Tables :=
  { t with flows := t.flows.filter (fun f => f.id ≠ flow.id) }

/-- What an identity leads to. -/
def settle (t : Tables) (provider : String) (flow : Flow) (identity : IdentityInfo) :
    Tables × Except Raised LoginResult :=
  match flow.intent with
  | .link => completeLink env t provider identity flow.linkUserId
  | .login => completeLogin env t provider identity

/-- The result of a callback whose flow is consumed. -/
def finish (world : World) (t : Tables) (c : Call) (flow : Flow) :
    Tables × Except Raised LoginResult :=
  match c.providerError with
  | some reason => (t, .ok (.error reason))
  | none =>
    if c.code = none ∨ c.code = some "" then (t, .ok (.error "missing_code"))
    else match configured env c.provider with
      | none => (t, .ok (.error "provider_unavailable"))
      | some credentials =>
        match resolveIdentity env world c.provider credentials (arguments env c flow) with
        | .error (.providerError _) => (t, .ok (.error "exchange_failed"))
        | .error e => (t, .error e)
        | .ok identity => settle env t c.provider flow identity

/-- `complete_callback`. -/
def completeCallback (world : World) (t : Tables) (c : Call) :
    Tables × Except Raised (String × LoginResult) :=
  match liveFlow env t c.state with
  | none => (t, .error (.validationError invalidOauthState))
  | some flow =>
    let finished := finish env world (consume t flow) c flow
    (finished.1, finished.2.map (fun result => (flow.frontendRedirectBase, result)))

end Definitions

section Outcomes

variable {Key : Type} (env : Env Key)

/-- The foreign key of the identities, and identifiers that are all taken. -/
structure Consistent (t : Tables) : Prop where
  users : ∀ u ∈ t.users, u.id < t.nextUuid
  identities : ∀ i ∈ t.identities, ∃ u ∈ t.users, u.id = i.userId

/-- Users, identities, pending links and sessions. -/
structure SameAccounts (t t' : Tables) : Prop where
  users : t'.users = t.users
  identities : t'.identities = t.identities
  pendingLinks : t'.pendingLinks = t.pendingLinks
  sessions : t'.sessions = t.sessions

/-- The callbacks that ask the provider. -/
structure Exchanges (t : Tables) (c : Call) (flow : Flow) (credentials : Credentials) : Prop where
  live : liveFlow env t c.state = some flow
  allowed : c.providerError = none
  code : c.code ≠ none ∧ c.code ≠ some ""
  client : configured env c.provider = some credentials

/-- Google's token says of the address that it is verified. -/
def GoogleVouches (world : World) (credentials : Credentials) (a : Arguments) (email : Json) :
    Prop :=
  ∃ claims, GoogleClaims env.lib world credentials a claims ∧ get claims "email" = email ∧
    get claims "email_verified" = .bool true

/-- The address is listed as primary and as verified. -/
def Listed (world : World) (accessToken email : Json) : Prop :=
  ∃ v entries entry, Says env.lib world (githubEmailsRequest env.lib accessToken) v ∧
    iterate v = .ok entries ∧ .object entry ∈ entries ∧ get entry "primary" = .bool true ∧
    get entry "verified" = .bool true ∧ get entry "email" = email

/-- The address is the public one of the account, or it is listed. -/
def GithubVouches (world : World) (credentials : Credentials) (a : Arguments) (email : Json) :
    Prop :=
  ∃ accessToken user, GithubToken env.lib world credentials a accessToken ∧
    GithubUser env.lib world accessToken user ∧
    (get user "email" = email ∨ Listed env world accessToken email)

def Vouches (world : World) (provider : String) (credentials : Credentials) (a : Arguments)
    (email : Json) : Prop :=
  if provider = "google" then GoogleVouches env world credentials a email
  else GithubVouches env world credentials a email

/-- The callback ends in an outcome. -/
structure Outcome (world : World) (t : Tables) (c : Call) : Prop where
  raises : ∀ raised, (completeCallback env world t c).2 = .error raised →
    liveFlow env t c.state = none
  consumes : ∀ flow, liveFlow env t c.state = some flow →
    (completeCallback env world t c).1.flows = t.flows.filter (fun f => f.id ≠ flow.id)
  redirects : ∀ flow base result, liveFlow env t c.state = some flow →
    (completeCallback env world t c).2 = .ok (base, result) → base = flow.frontendRedirectBase
  unchanged : ∀ base errorCode,
    (completeCallback env world t c).2 = .ok (base, .error errorCode) →
      SameAccounts t (completeCallback env world t c).1
  verified : ∀ flow credentials identity, Exchanges env t c flow credentials →
    resolveIdentity env world c.provider credentials (arguments env c flow) = .ok identity →
    treatedAsVerified env identity = true →
      Vouches env world c.provider credentials (arguments env c flow) identity.email

/-- The database takes a value in a column. -/
def Stores (column : Column) (v : Json) : Prop :=
  (stored env column v).isSome = true

/-- The row of an identity can be written. -/
def Recordable (identity : IdentityInfo) : Prop :=
  Stores env .identitySubject (.str identity.subject) ∧ Stores env .identityEmail identity.email

/-- The account of a link can take the identity. -/
def LinkSettles (t : Tables) (identity : IdentityInfo) (linkUserId : Option Nat) : Prop :=
  ∀ userId user, linkUserId = some userId → t.findUser userId = some user →
    user.isActive = true → Recordable env identity

/-- A new address may register. -/
def Admitted (t : Tables) (email : String) : Prop :=
  (t.findApproval email).isSome = true ∨ env.development = true ∨
    ∀ u ∈ t.users, u.id = seedUserId

/-- An account with this address can be written, with the identity that created it. -/
def SignUpSettles (t : Tables) (identity : IdentityInfo) (email : String) : Prop :=
  t.findEmail email = none → Admitted env t email →
    env.fits .userEmail email = true ∧
      (t.findApproval email = none → env.fits .approvedEmail email = true) ∧
      Recordable env identity

/-- A pending link for somebody's address, or an account with a new one, can be written. -/
def AccountSettles (t : Tables) (identity : IdentityInfo) (email : String) : Prop :=
  (∀ user, t.findEmail email = some user → user.id ≠ seedUserId →
    Stores env .pendingSubject (.str identity.subject) ∧
      Stores env .pendingDisplayName identity.displayName) ∧
  SignUpSettles env t identity email

/-- A verified address is text, and what follows from it can be written. -/
def EmailSettles (t : Tables) (identity : IdentityInfo) : Prop :=
  ∃ s email, identity.email = .str s ∧ env.encode (env.normalize s) = some email ∧
    AccountSettles env t identity email

/-- What a sign-in follows up can be sent and written. -/
def LoginSettles (t : Tables) (provider : String) (identity : IdentityInfo) : Prop :=
  ∃ subject, env.encode identity.subject = some subject ∧
    (t.findIdentity provider subject = none → treatedAsVerified env identity = true →
      EmailSettles env t identity)

/-- The database takes what follows from an identity. -/
def Settles (t : Tables) (provider : String) (flow : Flow) (identity : IdentityInfo) : Prop :=
  match flow.intent with
  | .link => LinkSettles env t identity flow.linkUserId
  | .login => LoginSettles env t provider identity

/-- A flag that counts as set only when it is `True`. -/
def PlainFlag (v : Json) : Prop :=
  truthy env.lib v = true → v = .bool true

/-- What Google answers. -/
structure GoogleAnswers (world : World) (t : Tables) (c : Call) (flow : Flow)
    (credentials : Credentials) : Prop where
  readable : GoogleReadable env.lib world credentials (arguments env c flow)
  settles : ∀ identity, GoogleReports env.lib world credentials (arguments env c flow) identity →
    Settles env t c.provider flow identity
  flag : ∀ claims, GoogleClaims env.lib world credentials (arguments env c flow) claims →
    truthy env.lib (get claims "email") = true → PlainFlag env (get claims "email_verified")

/-- What GitHub answers. -/
structure GithubAnswers (world : World) (t : Tables) (c : Call) (flow : Flow)
    (credentials : Credentials) : Prop where
  readable : GithubReadable env.lib world credentials (arguments env c flow)
  settles : ∀ identity, GithubReports env.lib world credentials (arguments env c flow) identity →
    Settles env t c.provider flow identity
  listed : ∀ accessToken user entry,
    GithubToken env.lib world credentials (arguments env c flow) accessToken →
    GithubUser env.lib world accessToken user → truthy env.lib (get user "email") = false →
    GithubEntry env.lib world accessToken entry → truthy env.lib (get entry "email") = true →
      Listed env world accessToken (get entry "email")

/-- What the provider answers can be walked and written, and its flags are plain. -/
def Answerable (world : World) (t : Tables) (c : Call) : Prop :=
  ∀ flow credentials, Exchanges env t c flow credentials →
    if c.provider = "google" then GoogleAnswers env world (consume t flow) c flow credentials
    else GithubAnswers env world (consume t flow) c flow credentials

end Outcomes

section Writing

variable {Key : Type} {env : Env Key} {t : Tables} {identity : IdentityInfo}

theorem stored_str (column : Column) (s : PyStr) :
    stored env column (.str s) = ((env.encode s).filter (env.fits column)).map some := by
  cases hencode : env.encode s with
  | none => simp only [stored, hencode, Option.filter_none, Option.map_none]
  | some text =>
    by_cases hfits : env.fits column text = true
    · simp [stored, hencode, hfits, Option.filter_some]
    · simp [stored, hencode, hfits, Option.filter_some]

variable {column : Column} {s : PyStr} {provider email subject : String} {user : User}

theorem stored_text :
    Stores env column (.str s) ↔ ∃ text, stored env column (.str s) = some (some text) := by
  rw [Stores, stored_str]
  cases (env.encode s).filter (env.fits column) with
  | none => simp only [Option.map_none, Option.isSome_none, Bool.false_eq_true, reduceCtorEq,
      exists_false]
  | some text => exact iff_of_true rfl ⟨text, rfl⟩

/-- What is stored of a text is what is sent. -/
theorem stored_eq_encode {text : String} (h : stored env column (.str s) = some (some text)) :
    env.encode s = some text := by
  rw [stored_str] at h
  rcases Option.map_eq_some_iff.mp h with ⟨text', htext, heq⟩
  cases heq
  exact (Option.filter_eq_some_iff.mp htext).1

variable (env) in
/-- The row of an identity is there iff its values can be sent. -/
theorem identityRow_cases (t : Tables) (userId : Nat) (provider : String)
    (identity : IdentityInfo) :
    (¬ Recordable env identity ∧ identityRow env t userId provider identity = none) ∨
      (Recordable env identity ∧ ∃ i, identityRow env t userId provider identity = some i ∧
        i.userId = userId ∧ i.provider = provider ∧
        env.encode identity.subject = some i.providerSubject) := by
  by_cases hsubject : Stores env .identitySubject (.str identity.subject)
  · rcases stored_text.mp hsubject with ⟨subject, hstored⟩
    cases hemail : stored env .identityEmail identity.email with
    | none =>
      refine .inl ⟨?_, by rw [identityRow, hstored, hemail]⟩
      rintro ⟨-, h⟩
      rw [Stores, hemail] at h
      cases h
    | some email =>
      refine .inr ⟨⟨hsubject, by rw [Stores, hemail]; rfl⟩, ?_⟩
      exact ⟨_, by rw [identityRow, hstored, hemail], rfl, rfl, stored_eq_encode hstored⟩
  · refine .inl ⟨fun h => hsubject h.1, ?_⟩
    unfold identityRow
    cases hstored : stored env .identitySubject (.str identity.subject) with
    | none => rfl
    | some subject =>
      cases subject with
      | none => rfl
      | some subject => exact absurd (stored_text.mpr ⟨subject, hstored⟩) hsubject

/-- The result of a link. -/
theorem completeLink_returns {linkUserId : Option Nat} :
    (∃ result, (completeLink env t provider identity linkUserId).2 = .ok result) ↔
      LinkSettles env t identity linkUserId := by
  unfold completeLink LinkSettles
  cases linkUserId with
  | none => exact iff_of_true ⟨_, rfl⟩ (fun userId user h => by cases h)
  | some userId =>
    dsimp only
    cases hfind : t.findUser userId with
    | none =>
      refine iff_of_true ⟨_, rfl⟩ ?_
      intro userId' user h
      rw [← Option.some.inj h, hfind]
      intro hnone
      cases hnone
    | some user =>
      dsimp only
      by_cases hactive : user.isActive = true
      · rw [if_pos hactive]
        have hiff : (∀ userId' user', some userId = some userId' →
            t.findUser userId' = some user' → user'.isActive = true →
              Recordable env identity) ↔ Recordable env identity :=
          ⟨fun h => h userId user rfl hfind hactive, fun h _ _ _ _ _ => h⟩
        rw [hiff]
        rcases identityRow_cases env t user.id provider identity with
          ⟨hnot, hrow⟩ | ⟨hrecordable, i, hrow, -⟩
        · rw [hrow]
          refine iff_of_false ?_ hnot
          rintro ⟨result, h⟩
          cases h
        · rw [hrow, insertIdentity]
          refine iff_of_true ?_ hrecordable
          by_cases hadmits : t.admits i = true
          · rw [if_pos hadmits]
            exact ⟨_, rfl⟩
          · rw [if_neg hadmits]
            exact ⟨_, rfl⟩
      · rw [if_neg hactive]
        refine iff_of_true ⟨_, rfl⟩ ?_
        intro userId' user' huserId huser hactive'
        rw [← Option.some.inj huserId, hfind] at huser
        rw [Option.some.inj huser] at hactive
        exact absurd hactive' hactive

theorem findEmail_none (h : t.findEmail email = none) :
    t.users.any (fun u => u.email = email) = false := by
  rw [List.any_eq_false]
  exact List.find?_eq_none.mp h

theorem findApproval_none (h : t.findApproval email = none) :
    t.approvedEmails.any (fun e => e.email = email) = false := by
  rw [List.any_eq_false]
  exact List.find?_eq_none.mp h

variable (env) in
/-- Whether a new address may register, and what its rows need. -/
theorem requireApproval_cases (t : Tables) (email : String) :
    (Admitted env t email ∧ ∃ approval, requireApproval env t email = .ok approval ∧
      (emailFits env email approval = true ↔ env.fits .userEmail email = true ∧
        (t.findApproval email = none → env.fits .approvedEmail email = true)) ∧
      (t.findEmail email = none → registrable t email approval = true)) ∨
    (¬ Admitted env t email ∧
      requireApproval env t email = .error (.validationError emailNotApproved)) := by
  cases happroval : t.findApproval email with
  | some approval =>
    refine .inl ⟨.inl (by rw [happroval]; rfl), .stored approval.id, ?_, ?_, ?_⟩
    · rw [requireApproval, happroval]
    · rw [emailFits]
      exact ⟨fun h => ⟨h, fun hnone => by cases hnone⟩, fun h => h.1⟩
    · intro hemail
      rw [registrable, findEmail_none hemail]
      rfl
  | none =>
    have hadded : ∀ note addedBy,
        (emailFits env email (.added note addedBy) = true ↔ env.fits .userEmail email = true ∧
          ((none : Option ApprovedEmail) = none → env.fits .approvedEmail email = true)) ∧
        (t.findEmail email = none → registrable t email (.added note addedBy) = true) := by
      intro note addedBy
      refine ⟨?_, ?_⟩
      · rw [emailFits, Bool.and_eq_true]
        exact ⟨fun h => ⟨h.1, fun _ => h.2⟩, fun h => ⟨h.1, h.2 rfl⟩⟩
      · intro hemail
        rw [registrable, findEmail_none hemail, findApproval_none happroval]
        rfl
    -- without an approval: the development bypass, a refusal, or the first user's bootstrap
    by_cases hdevelopment : env.development = true
    · refine .inl ⟨.inr (.inl hdevelopment), devBypass, ?_, hadded _ _⟩
      rw [requireApproval, happroval]
      exact if_pos hdevelopment
    · by_cases hreal : t.users.any (fun u => u.id ≠ seedUserId) = true
      · refine .inr ⟨?_, ?_⟩
        · rintro (h | h | h)
          · rw [happroval] at h
            cases h
          · exact hdevelopment h
          · rcases List.any_eq_true.mp hreal with ⟨u, hu, hid⟩
            exact of_decide_eq_true hid (h u hu)
        · rw [requireApproval, happroval]
          exact (if_neg hdevelopment).trans (if_pos hreal)
      · refine .inl ⟨.inr (.inr ?_), firstUserBootstrap, ?_, hadded _ _⟩
        · intro u hu
          by_contra hid
          exact hreal (List.any_eq_true.mpr ⟨u, hu, decide_eq_true hid⟩)
        · rw [requireApproval, happroval]
          exact (if_neg hdevelopment).trans (if_neg hreal)

/-- An account that was registered, and what it leaves as it was. -/
structure Registered (t t' : Tables) (user : User) : Prop where
  id : user.id = t.nextUuid
  mem : user ∈ t'.users
  identities : t'.identities = t.identities
  flows : t'.flows = t.flows

variable (env) in
/-- How a registration ends. -/
theorem registerOauthUser_cases (t : Tables) (email : String) :
    (∃ e, registerOauthUser env t email = .error e ∧
      ((∃ m, e = .validationError m) ∨ ∃ m, e = .conflictError m) ∧
      ¬ (t.findEmail email = none ∧ Admitted env t email)) ∨
    (t.findEmail email = none ∧ Admitted env t email ∧
      ((registerOauthUser env t email = .error .statementError ∧
          ¬ (env.fits .userEmail email = true ∧
            (t.findApproval email = none → env.fits .approvedEmail email = true))) ∨
        ((env.fits .userEmail email = true ∧
            (t.findApproval email = none → env.fits .approvedEmail email = true)) ∧
          ∃ t' user, registerOauthUser env t email = .ok (t', user) ∧
            Registered t t' user))) := by
  unfold registerOauthUser
  cases hemail : t.findEmail email with
  | some user =>
    refine .inl ⟨.conflictError emailTaken, ?_, .inr ⟨_, rfl⟩, fun h => by cases h.1⟩
    rw [ensureEmailAvailable, hemail]
    rfl
  | none =>
    have havailable : ensureEmailAvailable t email = .ok () := by
      rw [ensureEmailAvailable, hemail]
    rw [havailable, ok_bind]
    rcases requireApproval_cases env t email with
      ⟨hadmitted, approval, happroval, hfits, hregistrable⟩ | ⟨hadmitted, happroval⟩
    · rw [happroval, ok_bind, createApprovedUser, ← hfits]
      refine .inr ⟨rfl, hadmitted, ?_⟩
      by_cases hf : emailFits env email approval = true
      · refine .inr ⟨hf, ?_⟩
        rw [if_pos hf, if_pos (hregistrable hemail)]
        exact ⟨_, _, rfl, rfl, List.mem_append_right _ (List.mem_singleton.mpr rfl), rfl, rfl⟩
      · rw [if_neg hf]
        exact .inl ⟨rfl, hf⟩
    · rw [happroval, error_bind]
      exact .inl ⟨_, rfl, .inl ⟨_, rfl⟩, fun h => hadmitted h.2⟩

/-- The identity of a new account meets no other. -/
theorem admits_registered (hc : Consistent t) {t' : Tables} (hregistered : Registered t t' user)
    (hunknown : t.findIdentity provider subject = none) {i : OAuthIdentity}
    (huser : i.userId = user.id) (hprovider : i.provider = provider)
    (hsubject : i.providerSubject = subject) : t'.admits i = true := by
  have hfind := List.find?_eq_none.mp hunknown
  have howner : t'.users.any (fun u => u.id = i.userId) = true :=
    List.any_eq_true.mpr ⟨user, hregistered.mem, decide_eq_true huser.symm⟩
  have hpair : t'.identities.any
      (fun j => j.provider = i.provider ∧ j.providerSubject = i.providerSubject) = false := by
    rw [hregistered.identities, hprovider, hsubject, List.any_eq_false]
    exact hfind
  have hone : t'.identities.any
      (fun j => j.provider = i.provider ∧ j.userId = i.userId) = false := by
    rw [hregistered.identities, List.any_eq_false]
    intro j hj h
    rcases hc.identities j hj with ⟨u, hu, hid⟩
    have hlt := hc.users u hu
    rw [hid, (of_decide_eq_true h).2, huser, hregistered.id] at hlt
    exact absurd hlt (Nat.lt_irrefl _)
  rw [Tables.admits, howner, hpair, hone]
  rfl

/-- The result of a sign-up. -/
theorem signUp_returns (hc : Consistent t) (hsubject : env.encode identity.subject = some subject)
    (hunknown : t.findIdentity provider subject = none) :
    (∃ result, (signUp env t provider identity email).2 = .ok result) ↔
      SignUpSettles env t identity email := by
  unfold signUp SignUpSettles
  rcases registerOauthUser_cases env t email with
    ⟨e, hregister, he, hnot⟩ | ⟨hemail, hadmitted, ⟨hregister, hfits⟩ |
      ⟨hfits, t', user, hregister, hregistered⟩⟩
  · rw [hregister]
    refine iff_of_true ?_ (fun hemail hadmitted => absurd ⟨hemail, hadmitted⟩ hnot)
    rcases he with ⟨m, rfl⟩ | ⟨m, rfl⟩
    · exact ⟨_, rfl⟩
    · exact ⟨_, rfl⟩
  · rw [hregister]
    refine iff_of_false ?_ ?_
    · rintro ⟨result, h⟩
      cases h
    · intro h
      rcases h hemail hadmitted with ⟨huser, happroved, -⟩
      exact hfits ⟨huser, happroved⟩
  · rw [hregister]
    dsimp only
    rcases identityRow_cases env t' user.id provider identity with
      ⟨hnot, hrow⟩ | ⟨hrecordable, i, hrow, huserId, hprovider, hencode⟩
    · rw [hrow]
      refine iff_of_false ?_ (fun h => hnot (h hemail hadmitted).2.2)
      rintro ⟨result, h⟩
      cases h
    · have hadmits := admits_registered hc hregistered hunknown huserId hprovider
        (Option.some.inj (hencode.symm.trans hsubject))
      rw [hrow, insertIdentity]
      refine iff_of_true ?_ (fun _ _ => ⟨hfits.1, hfits.2, hrecordable⟩)
      rw [if_pos hadmits]
      exact ⟨_, rfl⟩

/-- The result of an offer. -/
theorem offerLink_returns :
    (∃ result, (offerLink env t provider identity user).2 = .ok result) ↔
      Stores env .pendingSubject (.str identity.subject) ∧
        Stores env .pendingDisplayName identity.displayName := by
  unfold offerLink
  by_cases hsubject : Stores env .pendingSubject (.str identity.subject)
  · rw [and_iff_right hsubject]
    rcases stored_text.mp hsubject with ⟨subject, hstored⟩
    rw [hstored, Stores]
    cases stored env .pendingDisplayName identity.displayName with
    | none =>
      refine iff_of_false ?_ (fun h => by cases h)
      rintro ⟨result, h⟩
      cases h
    | some displayName => exact iff_of_true ⟨_, rfl⟩ rfl
  · refine iff_of_false ?_ (fun h => hsubject h.1)
    cases hstored : stored env .pendingSubject (.str identity.subject) with
    | none =>
      rintro ⟨result, h⟩
      cases h
    | some subject =>
      cases subject with
      | none =>
        rintro ⟨result, h⟩
        cases h
      | some subject => exact absurd (stored_text.mpr ⟨subject, hstored⟩) hsubject

/-- The result of a normalized address. -/
theorem matchAccount_returns (hc : Consistent t)
    (hsubject : env.encode identity.subject = some subject)
    (hunknown : t.findIdentity provider subject = none) :
    (∃ result, (matchAccount env t provider identity email).2 = .ok result) ↔
      AccountSettles env t identity email := by
  have hsignUp : (∃ result, (signUp env t provider identity email).2 = .ok result) ↔
      SignUpSettles env t identity email := signUp_returns hc hsubject hunknown
  unfold matchAccount AccountSettles
  cases hfind : t.findEmail email with
  | none =>
    dsimp only
    rw [hsignUp]
    constructor
    · refine fun h => ⟨?_, h⟩
      intro user hnone
      cases hnone
    · exact fun h => h.2
  | some user =>
    dsimp only
    have hsettles : SignUpSettles env t identity email :=
      fun hnone => absurd (hnone.symm.trans hfind) (fun h => by cases h)
    by_cases hseed : user.id ≠ seedUserId
    · rw [if_pos hseed, offerLink_returns]
      refine ⟨fun h => ⟨fun _ _ _ => h, hsettles⟩, ?_⟩
      exact fun h => h.1 user rfl hseed
    · rw [if_neg hseed, hsignUp]
      refine iff_of_true hsettles ⟨?_, hsettles⟩
      intro user' huser' hid
      rw [← Option.some.inj huser'] at hid
      exact absurd hid hseed

/-- The result of a verified address. -/
theorem matchEmail_returns (hc : Consistent t)
    (hsubject : env.encode identity.subject = some subject)
    (hunknown : t.findIdentity provider subject = none) :
    (∃ result, (matchEmail env t provider identity).2 = .ok result) ↔
      EmailSettles env t identity := by
  unfold matchEmail EmailSettles
  cases hemail : identity.email with
  | str s =>
    simp only [Json.str.injEq, exists_and_left, exists_eq_left']
    cases hencode : env.encode (env.normalize s) with
    | none =>
      refine iff_of_false ?_ ?_
      · rintro ⟨result, h⟩
        cases h
      · rintro ⟨email, h, -⟩
        cases h
    | some email =>
      simp only [Option.some.injEq, exists_eq_left']
      exact matchAccount_returns hc hsubject hunknown
  | null | bool _ | int _ | float _ | array _ | object _ =>
    refine iff_of_false ?_ ?_
    · rintro ⟨result, h⟩
      cases h
    · rintro ⟨s', email, hs, -⟩
      cases hs

/-- The result of a sign-in. -/
theorem completeLogin_returns (hc : Consistent t) :
    (∃ result, (completeLogin env t provider identity).2 = .ok result) ↔
      LoginSettles env t provider identity := by
  unfold completeLogin LoginSettles
  cases hsubject : env.encode identity.subject with
  | none =>
    refine iff_of_false ?_ ?_
    · rintro ⟨result, h⟩
      cases h
    · rintro ⟨subject, h, -⟩
      cases h
  | some subject =>
    simp only [Option.some.injEq, exists_eq_left']
    cases hfind : t.findIdentity provider subject with
    | some existing =>
      dsimp only
      refine iff_of_true ?_ (fun hnone => by cases hnone)
      cases t.findUser existing.userId with
      | none => exact ⟨_, rfl⟩
      | some user =>
        dsimp only
        by_cases hinactive : !user.isActive ∨ user.id = seedUserId
        · rw [if_pos hinactive]
          exact ⟨_, rfl⟩
        · rw [if_neg hinactive]
          exact ⟨_, rfl⟩
    | none =>
      dsimp only
      rw [forall_prop_of_true rfl]
      by_cases hverified : treatedAsVerified env identity = true
      · rw [if_pos hverified, forall_prop_of_true hverified]
        exact matchEmail_returns hc hsubject hfind
      · rw [if_neg hverified]
        exact iff_of_true ⟨_, rfl⟩ (fun h => absurd h hverified)

/-- The result of an identity. -/
theorem settle_returns (hc : Consistent t) {flow : Flow} :
    (∃ result, (settle env t provider flow identity).2 = .ok result) ↔
      Settles env t provider flow identity := by
  unfold settle Settles
  cases flow.intent with
  | link => exact completeLink_returns
  | login => exact completeLogin_returns hc

end Writing

section Frame

variable {Key : Type} {env : Env Key} {t : Tables} {identity : IdentityInfo}

/-- The flows stay, and with an error result everything does. -/
def Quiet (t : Tables) (x : Tables × Except Raised LoginResult) : Prop :=
  x.1.flows = t.flows ∧ ∀ errorCode, x.2 = .ok (.error errorCode) → x.1 = t

theorem quiet_self (t : Tables) (r : Except Raised LoginResult) : Quiet t (t, r) :=
  ⟨rfl, fun _ _ => rfl⟩

variable {t' : Tables}

/-- A result that is no error needs nothing but its flows. -/
theorem quiet_of_flows {r : Except Raised LoginResult} (h : t'.flows = t.flows)
    (hr : ∀ errorCode, r ≠ .ok (.error errorCode)) : Quiet t (t', r) :=
  ⟨h, fun errorCode herror => absurd herror (hr errorCode)⟩

theorem insertIdentity_flows {row : Option OAuthIdentity} (h : insertIdentity t row = .ok t') :
    t'.flows = t.flows := by
  unfold insertIdentity at h
  cases row with
  | none => cases h
  | some i =>
    dsimp only at h
    by_cases hadmits : t.admits i = true
    · rw [if_pos hadmits] at h
      rw [← Except.ok.inj h]
    · rw [if_neg hadmits] at h
      cases h

theorem completeLink_quiet (t : Tables) (provider : String) (identity : IdentityInfo)
    (linkUserId : Option Nat) :
    Quiet t (completeLink env t provider identity linkUserId) := by
  unfold completeLink
  cases linkUserId with
  | none => exact quiet_self t _
  | some userId =>
    dsimp only
    cases t.findUser userId with
    | none => exact quiet_self t _
    | some user =>
      dsimp only
      by_cases hactive : user.isActive = true
      · rw [if_pos hactive]
        cases hinsert : insertIdentity t (identityRow env t user.id provider identity) with
        | ok t' =>
          exact quiet_of_flows (insertIdentity_flows hinsert) (fun errorCode h => by cases h)
        | error e =>
          cases e with
          | integrityError | httpError | valueError | attributeError | typeError
          | unicodeEncodeError | statementError => exact quiet_self t _
          | providerError _ | validationError _ | conflictError _ => exact quiet_self t _
      · rw [if_neg hactive]
        exact quiet_self t _

theorem signUp_quiet (t : Tables) (provider : String) (identity : IdentityInfo) (email : String) :
    Quiet t (signUp env t provider identity email) := by
  unfold signUp
  rcases registerOauthUser_cases env t email with
    ⟨e, hregister, ⟨m, rfl⟩ | ⟨m, rfl⟩, -⟩ | ⟨-, -, ⟨hregister, -⟩ |
      ⟨-, t', user, hregister, hregistered⟩⟩
  · rw [hregister]
    exact quiet_self t _
  · rw [hregister]
    exact quiet_self t _
  · rw [hregister]
    exact quiet_self t _
  · rw [hregister]
    dsimp only
    cases hinsert : insertIdentity t' (identityRow env t' user.id provider identity) with
    | error e => exact quiet_of_flows hregistered.flows (fun errorCode h => by cases h)
    | ok t'' =>
      refine quiet_of_flows ?_ (fun errorCode h => by cases h)
      exact (insertIdentity_flows hinsert).trans hregistered.flows

theorem offerLink_quiet (t : Tables) (provider : String) (identity : IdentityInfo) (user : User) :
    Quiet t (offerLink env t provider identity user) := by
  unfold offerLink
  cases stored env .pendingSubject (.str identity.subject) with
  | none => exact quiet_self t _
  | some subject =>
    cases subject with
    | none => exact quiet_self t _
    | some subject =>
      cases stored env .pendingDisplayName identity.displayName with
      | none => exact quiet_self t _
      | some displayName => exact quiet_of_flows rfl (fun errorCode h => by cases h)

theorem matchEmail_quiet (t : Tables) (provider : String) (identity : IdentityInfo) :
    Quiet t (matchEmail env t provider identity) := by
  unfold matchEmail
  cases identity.email with
  | str s =>
    dsimp only
    cases env.encode (env.normalize s) with
    | none => exact quiet_self t _
    | some email =>
      dsimp only
      unfold matchAccount
      cases t.findEmail email with
      | none => exact signUp_quiet t provider identity email
      | some user =>
        dsimp only
        by_cases hseed : user.id ≠ seedUserId
        · rw [if_pos hseed]
          exact offerLink_quiet t provider identity user
        · rw [if_neg hseed]
          exact signUp_quiet t provider identity email
  | null | bool _ | int _ | float _ | array _ | object _ => exact quiet_self t _

theorem completeLogin_quiet (t : Tables) (provider : String) (identity : IdentityInfo) :
    Quiet t (completeLogin env t provider identity) := by
  unfold completeLogin
  cases env.encode identity.subject with
  | none => exact quiet_self t _
  | some subject =>
    dsimp only
    cases t.findIdentity provider subject with
    | some existing =>
      dsimp only
      cases t.findUser existing.userId with
      | none => exact quiet_self t _
      | some user =>
        dsimp only
        by_cases hinactive : !user.isActive ∨ user.id = seedUserId
        · rw [if_pos hinactive]
          exact quiet_self t _
        · rw [if_neg hinactive]
          exact quiet_of_flows rfl (fun errorCode h => by cases h)
    | none =>
      dsimp only
      by_cases hverified : treatedAsVerified env identity = true
      · rw [if_pos hverified]
        exact matchEmail_quiet t provider identity
      · rw [if_neg hverified]
        exact quiet_self t _

theorem settle_quiet (t : Tables) (provider : String) (flow : Flow) (identity : IdentityInfo) :
    Quiet t (settle env t provider flow identity) := by
  unfold settle
  cases flow.intent with
  | link => exact completeLink_quiet t provider identity flow.linkUserId
  | login => exact completeLogin_quiet t provider identity

variable {world : World} {c : Call} {flow : Flow}

theorem finish_quiet (t : Tables) (c : Call) (flow : Flow) :
    Quiet t (finish env world t c flow) := by
  unfold finish
  cases c.providerError with
  | some reason => exact quiet_self t _
  | none =>
    dsimp only
    by_cases hcode : c.code = none ∨ c.code = some ""
    · rw [if_pos hcode]
      exact quiet_self t _
    · rw [if_neg hcode]
      cases configured env c.provider with
      | none => exact quiet_self t _
      | some credentials =>
        dsimp only
        cases resolveIdentity env world c.provider credentials (arguments env c flow) with
        | ok identity => exact settle_quiet t c.provider flow identity
        | error e =>
          cases e with
          | integrityError | httpError | valueError | attributeError | typeError
          | unicodeEncodeError | statementError => exact quiet_self t _
          | providerError _ | validationError _ | conflictError _ => exact quiet_self t _

/-- A callback that goes on has a result iff the client fails only with its own error and
    the identity it returns can be settled. -/
theorem finish_returns :
    (∃ result, (finish env world t c flow).2 = .ok result) ↔
      ∀ credentials, c.providerError = none → c.code ≠ none ∧ c.code ≠ some "" →
        configured env c.provider = some credentials →
        RaisesOnly IsProviderError
            (resolveIdentity env world c.provider credentials (arguments env c flow)) ∧
          ∀ identity, resolveIdentity env world c.provider credentials (arguments env c flow) =
            .ok identity → ∃ result, (settle env t c.provider flow identity).2 = .ok result := by
  unfold finish
  cases hdenied : c.providerError with
  -- the three ends before the provider is asked: denied, no code, not configured
  | some reason => exact iff_of_true ⟨_, rfl⟩ (fun credentials h => by cases h)
  | none =>
    dsimp only
    by_cases hcode : c.code = none ∨ c.code = some ""
    · rw [if_pos hcode]
      refine iff_of_true ⟨_, rfl⟩ ?_
      intro credentials _ hgiven
      exact absurd hcode (not_or.mpr hgiven)
    · rw [if_neg hcode]
      cases hclient : configured env c.provider with
      | none => exact iff_of_true ⟨_, rfl⟩ (fun credentials _ _ h => by cases h)
      | some credentials =>
        dsimp only
        constructor
        -- of what the provider's client raises, its own error alone is caught
        · intro h credentials' _ _ heq
          cases heq
          cases hresolve : resolveIdentity env world c.provider credentials
              (arguments env c flow) with
          | ok identity =>
            rw [hresolve] at h
            refine ⟨raisesOnly_ok _ _, ?_⟩
            intro identity' hidentity
            cases hidentity
            exact h
          | error e =>
            rw [hresolve] at h
            refine ⟨?_, fun identity hidentity => by cases hidentity⟩
            rw [raisesOnly_error]
            cases e with
            | providerError message => exact ⟨message, rfl⟩
            | integrityError | httpError | valueError | attributeError | typeError
            | unicodeEncodeError | statementError | validationError _ | conflictError _ =>
              rcases h with ⟨result, h⟩
              cases h
        · intro h
          rcases h credentials rfl (not_or.mp hcode) rfl with ⟨hraises, hsettle⟩
          cases hresolve : resolveIdentity env world c.provider credentials
              (arguments env c flow) with
          | ok identity => exact hsettle identity hresolve
          | error e =>
            rw [hresolve, raisesOnly_error] at hraises
            rcases hraises with ⟨message, rfl⟩
            exact ⟨_, rfl⟩

end Frame

section Providers

variable {Key : Type} {env : Env Key} {world : World} {t : Tables} {c : Call} {flow : Flow}
variable {credentials : Credentials} {a : Arguments}

theorem googleClaims_unique {claims claims' : Object}
    (h : GoogleClaims env.lib world credentials a claims)
    (h' : GoogleClaims env.lib world credentials a claims') : claims = claims' := by
  rcases h with ⟨idToken, jwks, htoken, hjwks, hverifies, -⟩
  rcases h' with ⟨idToken', jwks', htoken', hjwks', hverifies', -⟩
  have hexchange := (googleExchange_eq_ok.mpr ⟨htoken, hjwks⟩).symm.trans
    (googleExchange_eq_ok.mpr ⟨htoken', hjwks'⟩)
  rcases Prod.mk.inj (Except.ok.inj hexchange) with ⟨rfl, rfl⟩
  exact Except.ok.inj ((verifyGoogleIdToken_eq_ok.mpr hverifies).symm.trans
    (verifyGoogleIdToken_eq_ok.mpr hverifies'))

theorem says_unique {q : HttpRequest} {v v' : Json} (h : Says env.lib world q v)
    (h' : Says env.lib world q v') : v = v' := by
  have hv : jsonAnswer env.lib world "" q = .ok v := jsonAnswer_eq_ok.mpr h
  exact Except.ok.inj (hv.symm.trans (jsonAnswer_eq_ok.mpr h'))

theorem githubToken_unique {accessToken accessToken' : Json}
    (h : GithubToken env.lib world credentials a accessToken)
    (h' : GithubToken env.lib world credentials a accessToken') : accessToken = accessToken' := by
  rcases h with ⟨fields, hfields, rfl, -⟩
  rcases h' with ⟨fields', hfields', rfl, -⟩
  rw [Json.object.inj (says_unique hfields hfields')]

variable (env) in
/-- A flag that is missing is not set. -/
theorem truthy_getOr (o : Object) (key : String) :
    truthy env.lib (getOr o key (.bool false)) = truthy env.lib (get o key) := by
  unfold Providers.get getOr
  cases (o.find? (fun f => decide (f.1 = text key))).map (fun f => f.2) with
  | none => rfl
  | some v => rfl

/-- An identity of Google counts as verified iff both claims are set. -/
theorem treated_google (claims : Object) :
    treatedAsVerified env (googleIdentity env.lib claims) = true ↔
      truthy env.lib (get claims "email") = true ∧
        truthy env.lib (get claims "email_verified") = true := by
  have hflag := truthy_getOr env claims "email_verified"
  unfold treatedAsVerified googleIdentity
  rw [Bool.and_eq_true, hflag]

/-- What Google has to answer. -/
theorem googleAnswers_iff :
    GoogleAnswers env world t c flow credentials ↔
      RaisesOnly IsProviderError
          (resolveGoogle env.lib world credentials (arguments env c flow)) ∧
        ∀ identity, resolveGoogle env.lib world credentials (arguments env c flow) =
            .ok identity →
          Settles env t c.provider flow identity ∧
            (treatedAsVerified env identity = true →
              GoogleVouches env world credentials (arguments env c flow) identity.email) := by
  constructor
  · intro h
    refine ⟨resolveGoogle_raises.mpr h.readable, ?_⟩
    intro identity hidentity
    have hreports := resolveGoogle_eq_ok.mp hidentity
    refine ⟨h.settles identity hreports, ?_⟩
    rcases hreports with ⟨claims, hclaims, rfl⟩
    intro htreated
    rcases (treated_google claims).mp htreated with ⟨hemail, hflag⟩
    exact ⟨claims, hclaims, rfl, h.flag claims hclaims hemail hflag⟩
  · rintro ⟨hraises, h⟩
    refine ⟨resolveGoogle_raises.mp hraises, ?_, ?_⟩
    · exact fun identity hreports => (h identity (resolveGoogle_eq_ok.mpr hreports)).1
    · intro claims hclaims hemail hflag
      have hidentity := resolveGoogle_eq_ok.mpr ⟨claims, hclaims, rfl⟩
      rcases (h _ hidentity).2 ((treated_google claims).mpr ⟨hemail, hflag⟩) with
        ⟨claims', hclaims', -, htrue⟩
      rw [googleClaims_unique hclaims hclaims']
      exact htrue

/-- What GitHub has to answer. -/
theorem githubAnswers_iff :
    GithubAnswers env world t c flow credentials ↔
      RaisesOnly IsProviderError
          (resolveGithub env.lib world credentials (arguments env c flow)) ∧
        ∀ identity, resolveGithub env.lib world credentials (arguments env c flow) =
            .ok identity →
          Settles env t c.provider flow identity ∧
            (treatedAsVerified env identity = true →
              GithubVouches env world credentials (arguments env c flow) identity.email) := by
  constructor
  · intro h
    refine ⟨resolveGithub_raises.mpr h.readable, ?_⟩
    intro identity hidentity
    have hreports := resolveGithub_eq_ok.mp hidentity
    refine ⟨h.settles identity hreports, ?_⟩
    rcases hreports with ⟨accessToken, user, htoken, huser, ⟨hemail, rfl⟩ |
      ⟨hemail, ⟨entry, hentry, rfl⟩ | ⟨-, rfl⟩⟩⟩
    · exact fun _ => ⟨accessToken, user, htoken, huser, .inl rfl⟩
    · intro htreated
      have htruthy := (Bool.and_eq_true_iff.mp htreated).1
      exact ⟨accessToken, user, htoken, huser,
        .inr (h.listed accessToken user entry htoken huser hemail hentry htruthy)⟩
    · exact fun _ => ⟨accessToken, user, htoken, huser, .inl rfl⟩
  · rintro ⟨hraises, h⟩
    refine ⟨resolveGithub_raises.mp hraises, ?_, ?_⟩
    · exact fun identity hreports => (h identity (resolveGithub_eq_ok.mpr hreports)).1
    · intro accessToken user entry htoken huser hemail hentry htruthy
      have hidentity := resolveGithub_eq_ok.mpr
        ⟨accessToken, user, htoken, huser, .inr ⟨hemail, .inl ⟨entry, hentry, rfl⟩⟩⟩
      have htreated : treatedAsVerified env
          (githubIdentity env.lib user (get entry "email") true) = true :=
        Bool.and_eq_true_iff.mpr ⟨htruthy, rfl⟩
      rcases (h _ hidentity).2 htreated with ⟨accessToken', user', htoken', huser', hvouched⟩
      rw [← githubToken_unique htoken htoken'] at huser' hvouched
      rcases hvouched with hpublic | hlisted
      · rw [← Json.object.inj (says_unique huser.1 huser'.1)] at hpublic
        have hsame : get user "email" = get entry "email" := hpublic
        rw [hsame, htruthy] at hemail
        cases hemail
      · exact hlisted

end Providers

section Main

variable {Key : Type} {env : Env Key} {world : World} {t : Tables} {c : Call}

theorem consistent_consume (hc : Consistent t) (flow : Flow) : Consistent (consume t flow) :=
  ⟨hc.users, hc.identities⟩

/-- A callback ends in an outcome iff its flow has a result, and what counts as verified is
    vouched for. -/
theorem outcome_iff :
    Outcome env world t c ↔
      (∀ flow, liveFlow env t c.state = some flow →
        ∃ result, (finish env world (consume t flow) c flow).2 = .ok result) ∧
      ∀ flow credentials identity, Exchanges env t c flow credentials →
        resolveIdentity env world c.provider credentials (arguments env c flow) = .ok identity →
        treatedAsVerified env identity = true →
          Vouches env world c.provider credentials (arguments env c flow) identity.email := by
  have hcallback : ∀ flow, liveFlow env t c.state = some flow →
      completeCallback env world t c = ((finish env world (consume t flow) c flow).1,
        (finish env world (consume t flow) c flow).2.map
          (fun result => (flow.frontendRedirectBase, result))) := by
    intro flow hflow
    rw [completeCallback, hflow]
  constructor
  · intro h
    refine ⟨?_, h.verified⟩
    intro flow hflow
    -- with a live flow the callback raises exactly what `finish` raises
    cases hresult : (finish env world (consume t flow) c flow).2 with
    | ok result => exact ⟨result, rfl⟩
    | error raised =>
      have hnone := h.raises raised (by rw [hcallback flow hflow, hresult]; rfl)
      rw [hflow] at hnone
      cases hnone
  · rintro ⟨hfinish, hverified⟩
    refine ⟨?_, ?_, ?_, ?_, hverified⟩
    -- only a state without a live flow is left to raise
    · intro raised hraised
      cases hflow : liveFlow env t c.state with
      | none => rfl
      | some flow =>
        rcases hfinish flow hflow with ⟨result, hresult⟩
        rw [hcallback flow hflow, hresult] at hraised
        cases hraised
    · intro flow hflow
      rw [hcallback flow hflow]
      exact (finish_quiet (consume t flow) c flow).1
    · intro flow base result hflow hok
      rcases hfinish flow hflow with ⟨result', hresult⟩
      rw [hcallback flow hflow, hresult] at hok
      exact (Prod.mk.inj (Except.ok.inj hok)).1.symm
    -- an error result leaves the accounts as they were, since `finish` is quiet
    · intro base errorCode hok
      cases hflow : liveFlow env t c.state with
      | none =>
        rw [completeCallback, hflow] at hok
        cases hok
      | some flow =>
        rcases hfinish flow hflow with ⟨result, hresult⟩
        rw [hcallback flow hflow, hresult] at hok
        have herror : result = .error errorCode := (Prod.mk.inj (Except.ok.inj hok)).2
        rw [herror] at hresult
        have hsame := (finish_quiet (consume t flow) c flow).2 errorCode hresult
        rw [hcallback flow hflow, hsame]
        exact ⟨rfl, rfl, rfl, rfl⟩

/-- A callback ends in an outcome iff what the provider answers can be walked and written,
    and its flags are plain. -/
theorem callback_outcome (hc : Consistent t) :
    Outcome env world t c ↔ Answerable env world t c := by
  rw [outcome_iff]
  have hfinish : (∀ flow, liveFlow env t c.state = some flow →
        ∃ result, (finish env world (consume t flow) c flow).2 = .ok result) ↔
      ∀ flow credentials, Exchanges env t c flow credentials →
        RaisesOnly IsProviderError
            (resolveIdentity env world c.provider credentials (arguments env c flow)) ∧
          ∀ identity, resolveIdentity env world c.provider credentials (arguments env c flow) =
            .ok identity → Settles env (consume t flow) c.provider flow identity := by
    simp only [finish_returns, settle_returns (consistent_consume hc _)]
    constructor
    · exact fun h flow credentials he =>
        h flow he.live credentials he.allowed he.code he.client
    · exact fun h flow hlive credentials hallowed hcode hclient =>
        h flow credentials ⟨hlive, hallowed, hcode, hclient⟩
  -- what the conditions on either provider's answers come to
  have hanswers : ∀ flow credentials,
      (if c.provider = "google" then GoogleAnswers env world (consume t flow) c flow credentials
        else GithubAnswers env world (consume t flow) c flow credentials) ↔
      RaisesOnly IsProviderError
          (resolveIdentity env world c.provider credentials (arguments env c flow)) ∧
        ∀ identity, resolveIdentity env world c.provider credentials (arguments env c flow) =
            .ok identity →
          Settles env (consume t flow) c.provider flow identity ∧
            (treatedAsVerified env identity = true →
              Vouches env world c.provider credentials (arguments env c flow) identity.email) := by
    intro flow credentials
    by_cases hgoogle : c.provider = "google"
    · rw [if_pos hgoogle, googleAnswers_iff]
      simp [resolveIdentity, Vouches, hgoogle]
    · rw [if_neg hgoogle, githubAnswers_iff]
      simp [resolveIdentity, Vouches, hgoogle]
  unfold Answerable
  simp only [hanswers]
  rw [hfinish]
  constructor
  · rintro ⟨h, hverified⟩ flow credentials he
    rcases h flow credentials he with ⟨hraises, hsettles⟩
    refine ⟨hraises, fun identity hidentity => ⟨hsettles identity hidentity, ?_⟩⟩
    exact hverified flow credentials identity he hidentity
  · intro h
    refine ⟨fun flow credentials he => ?_, fun flow credentials identity he hidentity => ?_⟩
    · exact ⟨(h flow credentials he).1, fun identity hidentity =>
        ((h flow credentials he).2 identity hidentity).1⟩
    · exact ((h flow credentials he).2 identity hidentity).2

end Main

section Samples

def ascii (s : String) : List UInt8 :=
  s.toList.map (fun c => UInt8.ofNat c.toNat)

def grantBody : String :=
  "\x7b\"access_token\":\"t\"\x7d"

def accountBody : String :=
  "\x7b\"id\":1,\"email\":\"a@b.c\"\x7d"

/-- Two documents, as they are decoded. Anything else is no JSON here. -/
def sampleLoads (content : List UInt8) : Option Json :=
  if content = ascii grantBody then
    some (.object [(text "access_token", .str (text "t"))])
  else if content = ascii accountBody then
    some (.object [(text "id", .int 1), (text "email", .str (text "a@b.c"))])
  else none

def sampleStr : Json → PyStr
  | .str s => s
  | .int i => text (toString i)
  | _ => []

def sampleLibrary : Library Unit :=
  { loads := sampleLoads
    str := sampleStr
    floatTruthy := fun _ => true
    unverifiedKid := fun _ => none
    fromJwk := fun _ => none
    isPublic := fun _ => true
    decode := fun _ _ _ _ _ => none }

def sampleEnv : Env Unit :=
  { lib := sampleLibrary
    hashState := id
    normalize := id
    encode := fun s => some (String.ofList (Structured.masked s))
    fits := fun _ _ => true
    adapt := fun _ _ => none
    google := { clientId := "id", clientSecret := "secret" }
    github := { clientId := "id", clientSecret := "secret" }
    publicBaseUrl := "https://partha"
    development := false }

def sampleApproval : ApprovedEmail where
  id := 1
  email := "a@b.c"
  note := none
  addedBy := none
  usedAt := none
  usedByUserId := none

def sampleFlow : Flow where
  id := 2
  stateHash := "s"
  provider := "github"
  intent := .login
  linkUserId := none
  expiresAt := 600
  codeVerifier := none
  nonce := none
  frontendRedirectBase := "https://app"

/-- One flow, and one approved address. -/
def sampleTables : Tables where
  users := [{ id := 0, email := "system@partha.local", passwordHash := none, isActive := true }]
  approvedEmails := [sampleApproval]
  identities := []
  pendingLinks := []
  sessions := []
  flows := [sampleFlow]
  now := 0
  nextUuid := 3

def sampleCall (provider : String) : Call :=
  { provider := provider, state := "s", code := some "code", providerError := none }

/-- A provider that grants the token and shows the account. -/
def sampleWorld : World
  | .post _ _ _ => some { statusCode := 200, content := ascii grantBody }
  | .get _ _ => some { statusCode := 200, content := ascii accountBody }

/-- A provider that answers every request with 200 and nothing else. -/
def emptyWorld : World :=
  fun _ => some { statusCode := 200, content := [] }

theorem consistent_sample : Consistent sampleTables := by
  refine ⟨by decide, ?_⟩
  intro i hi
  cases hi

theorem callback_outcome_github :
    (Outcome sampleEnv sampleWorld sampleTables (sampleCall "github") ↔
      Answerable sampleEnv sampleWorld sampleTables (sampleCall "github")) ∧
    (completeCallback sampleEnv sampleWorld sampleTables (sampleCall "github")).2 =
      .ok ("https://app", .session 3) :=
  ⟨callback_outcome consistent_sample, rfl⟩

/-- An answer with an empty body ends in another exception. -/
theorem callback_fails :
    Consistent sampleTables ∧
      (completeCallback sampleEnv emptyWorld sampleTables (sampleCall "google")).2 =
        .error .valueError ∧
      ¬ Outcome sampleEnv emptyWorld sampleTables (sampleCall "google") := by
  have hraises : (completeCallback sampleEnv emptyWorld sampleTables (sampleCall "google")).2 =
      .error .valueError := rfl
  refine ⟨consistent_sample, hraises, ?_⟩
  intro h
  cases h.raises .valueError hraises

end Samples

end Callback

end Partha
