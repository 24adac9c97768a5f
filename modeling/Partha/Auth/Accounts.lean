import Partha.Library.Steps

/-!
# Accounts and Linked Identities

How accounts come to be and how external identities are linked to them: the
password registration of `AuthService`, the callback, the link confirmation and
the unlinking of `OAuthService`.

A request is a little program over five tables. Every `SELECT` and every commit
is a step of its own, what a request has read is carried by its `Request`
value, and between two steps any other request may move or the request itself
may die. A write is in the tables only once it is committed. The flush of
`_create_approved_user` and its commit are one step: nobody sees a flushed row,
and a second insertion of the same unique value waits for the commit.

A sign-up by OAuth commits three times: the account, the session, and then the
identity that created it. An unlink reads the identity, then whether another
one remains, and then deletes. The token rows of `open_session` are not
modelled here, only the commit.

The unique constraints on `users`, `approved_emails`, `oauth_identities` and
`oauth_flow_states` are kept by the insertions, which fail at the commit that
would break them. Rows are never deleted from `users`. Identifiers come from
`uuid4` and are a counter, which starts above the seed user.

## Main definitions

* `User`, `OAuthIdentity`, `OAuthPendingLink`, `OAuthFlowState`,
  `ApprovedEmail`: The rows.
* `Request`: What a request has read and where it stands.
* `insertUser`, `insertIdentity`: The guarded insertions.
* `completeCallback`, `consumeFlow`, `completeLogin`: The steps of a callback.
* `ensureEmailAvailable`, `requireApproval`, `firstUserBootstrap`,
  `createApprovedUser`: The steps that create an account.
* `recordIdentity`, `completeLink`, `confirmPendingLink`: The steps that link.
* `unlink`, `removeIdentity`: The check and the deletion of an unlink.
* `signIns`: The system of all interleavings.
-/

namespace Partha

namespace Accounts

/-- `SEED_USER_ID`. -/
def seedUserId : Nat := 0

/-- `FLOW_TTL_SECONDS`. -/
def flowTtlSeconds : Nat := 600

/-- `PENDING_LINK_TTL_SECONDS`. -/
def pendingLinkTtlSeconds : Nat := 600

structure User where
  id : Nat
  email : String
  passwordHash : Option String
  isActive : Bool
  deriving DecidableEq, Repr

structure ApprovedEmail where
  id : Nat
  email : String
  note : Option String
  addedBy : Option String
  usedAt : Option Nat
  usedByUserId : Option Nat
  deriving DecidableEq, Repr

/-- One linked external identity of one user. -/
structure OAuthIdentity where
  id : Nat
  userId : Nat
  provider : String
  providerSubject : String
  email : Option String
  createdAt : Nat
  deriving DecidableEq, Repr

structure OAuthPendingLink where
  id : Nat
  provider : String
  providerSubject : String
  email : String
  displayName : Option String
  expiresAt : Nat
  deriving DecidableEq, Repr

inductive Intent where
  | login
  | link
  deriving DecidableEq, Repr

structure OAuthFlowState where
  id : Nat
  stateHash : String
  provider : String
  intent : Intent
  linkUserId : Option Nat
  expiresAt : Nat
  deriving DecidableEq, Repr

/-- What the provider says about who signed in. -/
structure OAuthIdentityInfo where
  subject : String
  email : Option String
  emailVerified : Bool
  displayName : Option String
  deriving DecidableEq, Repr

/-- How somebody asks for a new account. -/
inductive Door where
  | password (password : String)
  | oauth (provider : String) (identity : OAuthIdentityInfo)
  deriving DecidableEq, Repr

/-- The approval behind a registration: a row that was read, or one that is
    added together with the account. -/
inductive Approval where
  | stored (id : Nat)
  | added (note addedBy : String)
  deriving DecidableEq, Repr

/-- How a request ends. -/
inductive Answer where
  | session (userId : Nat)
  | linked (userId : Nat)
  | unlinked
  | started
  | pendingLink (id : Nat)
  | error (errorCode : String)
  | validationError (message : String)
  | conflictError (message : String)
  | unauthorizedError (message : String)
  | notFoundError (message : String)
  | serverError
  deriving DecidableEq, Repr

/-- A request, by the last step it took and what that step read. -/
inductive Request where
  | idle
  | flowRead (provider : String) (flow : OAuthFlowState) (code providerError : Option String)
  | exchanging (provider : String) (intent : Intent) (linkUserId : Option Nat)
  | identified (provider : String) (identity : OAuthIdentityInfo)
  | known (existing : OAuthIdentity)
  | unknown (provider : String) (identity : OAuthIdentityInfo)
  | matched (provider : String) (identity : OAuthIdentityInfo) (email : String)
  | registering (door : Door) (email : String)
  | available (door : Door) (email : String)
  | unapproved (door : Door) (email : String)
  | approved (door : Door) (email : String) (approval : Approval)
  | collided (door : Door) (email : String)
  | created (door : Door) (user : User)
  | opened (provider : String) (identity : OAuthIdentityInfo) (user : User)
  | linking (provider : String) (identity : OAuthIdentityInfo) (linkUserId : Nat)
  | linkable (provider : String) (identity : OAuthIdentityInfo) (user : User)
  | confirming (pending : OAuthPendingLink) (password : String)
  | confirmed (pending : OAuthPendingLink) (user : User) (now : Nat)
  | authenticated (user : User)
  | unlinking (user : User) (provider : String)
  | found (user : User) (identity : OAuthIdentity)
  | removable (identity : OAuthIdentity)
  | answered (answer : Answer)
  | crashed
  deriving DecidableEq, Repr

/-- The deployment: its configuration and the functions it calls. `normalize`
    is `email.strip().lower()`. -/
structure Settings where
  hashState : String → String
  normalize : String → String
  hashPassword : String → String
  verifyPassword : String → String → Bool
  isConfigured : String → Bool
  development : Bool

/-- The committed tables and the requests in flight. -/
structure State where
  users : List User
  approvedEmails : List ApprovedEmail
  identities : List OAuthIdentity
  pendingLinks : List OAuthPendingLink
  flows : List OAuthFlowState
  now : Nat
  nextUuid : Nat
  request : Nat → Request

namespace State

def setRequest (s : State) (r : Nat) (q : Request) : State :=
  { s with request := fun r' => if r' = r then q else s.request r' }

def answer (s : State) (r : Nat) (a : Answer) : State :=
  s.setRequest r (.answered a)

def findUser (s : State) (id : Nat) : Option User :=
  s.users.find? (fun u => u.id = id)

def findEmail (s : State) (email : String) : Option User :=
  s.users.find? (fun u => u.email = email)

/-- The commit that removes the identity row `id`. -/
def deleteIdentity (s : State) (id : Nat) : State :=
  { s with identities := s.identities.filter (fun i => i.id ≠ id) }

def deletePending (s : State) (id : Nat) : State :=
  { s with pendingLinks := s.pendingLinks.filter (fun p => p.id ≠ id) }

end State

/-- `OAuthIdentity(...)` for a user, at an insertion. -/
def newIdentity (s : State) (userId : Nat) (provider subject : String) (email : Option String)
    (createdAt : Nat) : OAuthIdentity :=
  { id := s.nextUuid
    userId := userId
    provider := provider
    providerSubject := subject
    email := email
    createdAt := createdAt }

/-- The foreign key and the two unique constraints of `oauth_identities`. -/
def admits (s : State) (i : OAuthIdentity) : Bool :=
  s.users.any (fun u => u.id = i.userId) &&
    !s.identities.any (fun j => j.provider = i.provider ∧ j.providerSubject = i.providerSubject) &&
    !s.identities.any (fun j => j.provider = i.provider ∧ j.userId = i.userId)

/-- Insert an identity row, unless a constraint refuses it. -/
def insertIdentity (s : State) (i : OAuthIdentity) : Option State :=
  if admits s i then
    some { s with identities := s.identities ++ [i], nextUuid := s.nextUuid + 1 }
  else none

/-- The row an account comes to be as. Only the password door has a hash. -/
def newUser (cfg : Settings) (s : State) (door : Door) (email : String) : User :=
  { id := s.nextUuid
    email := email
    passwordHash := match door with
      | .password password => some (cfg.hashPassword password)
      | .oauth _ _ => none
    isActive := true }

/-- The unique constraints that the rows of a registration meet. -/
def registrable (s : State) (email : String) (approval : Approval) : Bool :=
  !s.users.any (fun u => u.email = email) &&
    match approval with
    | .stored _ => true
    | .added _ _ => !s.approvedEmails.any (fun e => e.email = email)

/-- The approval with the audit trail of the account that used it. -/
def stampApproval (s : State) (email : String) (approval : Approval) (userId : Nat) :
    List ApprovedEmail :=
  match approval with
  | .stored id => s.approvedEmails.map (fun e =>
    if e.id = id then { e with usedAt := some s.now, usedByUserId := some userId } else e)
  | .added note addedBy => s.approvedEmails ++
      [{ id := s.nextUuid + 1
         email := email
         note := some note
         addedBy := some addedBy
         usedAt := some s.now
         usedByUserId := some userId }]

/-- Insert an account with its approval, unless a constraint refuses it. -/
def insertUser (s : State) (u : User) (approval : Approval) : Option State :=
  if registrable s u.email approval then
    some { s with
      users := s.users ++ [u]
      approvedEmails := stampApproval s u.email approval u.id
      nextUuid := s.nextUuid + 2 }
  else none

def invalidOauthState : String :=
  "This sign-in link has expired or was already used. Please try again."

def emailNotApproved : String :=
  "This email hasn't been approved on this PARTHA install yet. Ask whoever runs it to approve it."

def emailTaken : String :=
  "An account with this email already exists."

def providerUnavailable : String :=
  "This sign-in method isn't available right now."

/-- The answer to a sign-up that is refused: a callback reports a code where a
    registration raises. -/
def refusal (door : Door) (raised : Answer) (errorCode : String) : Answer :=
  match door with
  | .password _ => raised
  | .oauth _ _ => .error errorCode

/-- `email` when the provider has verified it. An empty one counts as none. -/
def verifiedEmail (identity : OAuthIdentityInfo) : Option String :=
  match identity.email with
  | none => none
  | some email => if email ≠ "" ∧ identity.emailVerified then some email else none

variable (cfg : Settings)

/-- `start`: the flow row of a login or of a link. -/
def start (s : State) (r : Nat) (provider : String) (intent : Intent) (linkUserId : Option Nat)
    (state : String) : State :=
  if !cfg.isConfigured provider then s.answer r (.validationError providerUnavailable)
  else if s.flows.any (fun f => f.stateHash = cfg.hashState state) then s.answer r .serverError
  else
    ({ s with
      flows := s.flows ++
        [{ id := s.nextUuid
           stateHash := cfg.hashState state
           provider := provider
           intent := intent
           linkUserId := linkUserId
           expiresAt := s.now + flowTtlSeconds }]
      nextUuid := s.nextUuid + 1 } : State).answer r .started

/-- `complete_callback` up to the flow row. -/
def completeCallback (s : State) (r : Nat) (provider state : String)
    (code providerError : Option String) : State :=
  match s.flows.find? (fun f => f.stateHash = cfg.hashState state) with
  | none => s.answer r (.validationError invalidOauthState)
  | some flow =>
    if flow.expiresAt ≤ s.now then s.answer r (.validationError invalidOauthState)
    else s.setRequest r (.flowRead provider flow code providerError)

/-- The flow row is deleted and committed whatever comes of the callback. -/
def consumeFlow (s : State) (r : Nat) (provider : String) (flow : OAuthFlowState)
    (code providerError : Option String) : State :=
  let s' := { s with flows := s.flows.filter (fun f => f.id ≠ flow.id) }
  match providerError with
  | some reason => s'.answer r (.error reason)
  | none =>
    if code = none ∨ code = some "" then s'.answer r (.error "missing_code")
    else if !cfg.isConfigured provider then s'.answer r (.error "provider_unavailable")
    else s'.setRequest r (.exchanging provider flow.intent flow.linkUserId)

/-- `resolve_identity`: the provider answers with an identity or fails. -/
def resolveIdentity (s : State) (r : Nat) (provider : String) (intent : Intent)
    (linkUserId : Option Nat) : Option OAuthIdentityInfo → State
  | none => s.answer r (.error "exchange_failed")
  | some identity => match intent, linkUserId with
    | .login, _ => s.setRequest r (.identified provider identity)
    | .link, none => s.answer r (.error "missing_link_target")
    | .link, some userId => s.setRequest r (.linking provider identity userId)

/-- `_complete_login` up to the identity row. -/
def completeLogin (s : State) (r : Nat) (provider : String) (identity : OAuthIdentityInfo) :
    State :=
  match s.identities.find? (fun i =>
    i.provider = provider ∧ i.providerSubject = identity.subject) with
  | some existing => s.setRequest r (.known existing)
  | none => s.setRequest r (.unknown provider identity)

/-- The account behind a known identity. -/
def loadAccount (s : State) (r : Nat) (existing : OAuthIdentity) : State :=
  match s.findUser existing.userId with
  | none => s.answer r (.error "account_unavailable")
  | some user =>
    if !user.isActive ∨ user.id = seedUserId then s.answer r (.error "account_unavailable")
    else s.setRequest r (.authenticated user)

/-- An unknown identity: its verified email may be somebody's, or new. -/
def matchEmail (s : State) (r : Nat) (provider : String) (identity : OAuthIdentityInfo) : State :=
  match verifiedEmail identity with
  | none => s.answer r (.error "email_not_approved")
  | some email =>
    match s.findEmail (cfg.normalize email) with
    | some user =>
      if user.id ≠ seedUserId then s.setRequest r (.matched provider identity user.email)
      else s.setRequest r (.registering (.oauth provider identity) (cfg.normalize email))
    | none => s.setRequest r (.registering (.oauth provider identity) (cfg.normalize email))

/-- The pending link that the account's password has to confirm. -/
def offerLink (s : State) (r : Nat) (provider : String) (identity : OAuthIdentityInfo)
    (email : String) : State :=
  ({ s with
    pendingLinks := s.pendingLinks ++
      [{ id := s.nextUuid
         provider := provider
         providerSubject := identity.subject
         email := email
         displayName := identity.displayName
         expiresAt := s.now + pendingLinkTtlSeconds }]
    nextUuid := s.nextUuid + 1 } : State).answer r (.pendingLink s.nextUuid)

/-- `_ensure_email_available`. -/
def ensureEmailAvailable (s : State) (r : Nat) (door : Door) (email : String) : State :=
  match s.findEmail email with
  | some _ => s.answer r (refusal door (.conflictError emailTaken) "email_already_registered")
  | none => s.setRequest r (.available door email)

/-- `_require_approval` up to the bootstrap. -/
def requireApproval (s : State) (r : Nat) (door : Door) (email : String) : State :=
  match s.approvedEmails.find? (fun e => e.email = email) with
  | some approval => s.setRequest r (.approved door email (.stored approval.id))
  | none =>
    if cfg.development then
      s.setRequest r (.approved door email (.added
        "Auto-approved: local development (#384). Never happens outside APP_ENV=development."
        "dev-bypass"))
    else s.setRequest r (.unapproved door email)

/-- `_first_user_bootstrap`: the first account of an instance needs no approval. -/
def firstUserBootstrap (s : State) (r : Nat) (door : Door) (email : String) : State :=
  if s.users.any (fun u => u.id ≠ seedUserId) then
    s.answer r (refusal door (.validationError emailNotApproved) "email_not_approved")
  else s.setRequest r (.approved door email (.added
    "Auto-approved: first user on this instance becomes its owner (#388)."
    "first-user-bootstrap"))

/-- The commit of `_create_approved_user`. -/
def createApprovedUser (s : State) (r : Nat) (door : Door) (email : String)
    (approval : Approval) : State :=
  let user := newUser cfg s door email
  match insertUser s user approval with
  | none => s.setRequest r (.collided door email)
  | some s' => s'.setRequest r (.created door user)

/-- The read after a refused insertion: it was the email, or something else. -/
def explainCollision (s : State) (r : Nat) (door : Door) (email : String) : State :=
  match s.findEmail email with
  | some _ => s.answer r (refusal door (.conflictError emailTaken) "email_already_registered")
  | none => s.answer r .serverError

/-- The commit of `open_session` for the new account. -/
def openSession (s : State) (r : Nat) (door : Door) (user : User) : State :=
  match door with
  | .password _ => s.answer r (.session user.id)
  | .oauth provider identity => s.setRequest r (.opened provider identity user)

/-- The last commit of a sign-up by OAuth: the identity that created the account. -/
def recordIdentity (s : State) (r : Nat) (provider : String) (identity : OAuthIdentityInfo)
    (user : User) : State :=
  match insertIdentity s
    (newIdentity s user.id provider identity.subject identity.email s.now) with
  | none => s.answer r .serverError
  | some s' => s'.answer r (.session user.id)

/-- `_complete_link` up to the account. -/
def loadLinkUser (s : State) (r : Nat) (provider : String) (identity : OAuthIdentityInfo)
    (linkUserId : Nat) : State :=
  match s.findUser linkUserId with
  | none => s.answer r (.error "account_unavailable")
  | some user =>
    if !user.isActive then s.answer r (.error "account_unavailable")
    else s.setRequest r (.linkable provider identity user)

/-- The commit of `_complete_link`. -/
def completeLink (s : State) (r : Nat) (provider : String) (identity : OAuthIdentityInfo)
    (user : User) : State :=
  match insertIdentity s
    (newIdentity s user.id provider identity.subject identity.email s.now) with
  | none => s.answer r (.error "already_linked")
  | some s' => s'.answer r (.linked user.id)

/-- `confirm_pending_link` up to the pending row. -/
def confirmPendingLink (s : State) (r pendingLinkId : Nat) (password : String) : State :=
  match s.pendingLinks.find? (fun p => p.id = pendingLinkId) with
  | none => s.answer r (.unauthorizedError invalidOauthState)
  | some pending =>
    if pending.expiresAt ≤ s.now then s.answer r (.unauthorizedError invalidOauthState)
    else s.setRequest r (.confirming pending password)

/-- The account a pending link is for, and its password. -/
def verifyOwner (s : State) (r : Nat) (pending : OAuthPendingLink) (password : String) : State :=
  match s.findEmail pending.email with
  | none => s.answer r (.unauthorizedError invalidOauthState)
  | some user => match user.passwordHash with
    | none => s.answer r (.unauthorizedError invalidOauthState)
    | some passwordHash =>
      if !cfg.verifyPassword passwordHash password ∨ !user.isActive then
        s.answer r (.unauthorizedError invalidOauthState)
      else s.setRequest r (.confirmed pending user s.now)

/-- The commit of `confirm_pending_link`: the identity appears and the pending
    row goes, both at once. -/
def commitConfirmed (s : State) (r : Nat) (pending : OAuthPendingLink) (user : User) (now : Nat) :
    State :=
  match insertIdentity s (newIdentity s user.id pending.provider pending.providerSubject
    (some pending.email) now) with
  | none => s.answer r (.conflictError
      "This provider account is already linked to a different account.")
  | some s' => (s'.deletePending pending.id).setRequest r (.authenticated user)

/-- `unlink` up to the identity. -/
def unlink (s : State) (r : Nat) (user : User) (provider : String) : State :=
  match s.identities.find? (fun i => i.userId = user.id ∧ i.provider = provider) with
  | none => s.answer r (.notFoundError ("No linked " ++ provider ++ " account."))
  | some identity =>
    if user.passwordHash = none then s.setRequest r (.found user identity)
    else s.setRequest r (.removable identity)

/-- Without a password another identity has to remain. -/
def checkRemaining (s : State) (r : Nat) (user : User) (identity : OAuthIdentity) : State :=
  match s.identities.find? (fun i => i.userId = user.id ∧ i.provider ≠ identity.provider) with
  | none => s.answer r (.validationError ("This is your only way to sign in to this account. " ++
      "Link another provider before removing it."))
  | some _ => s.setRequest r (.removable identity)

/-- The commit of `unlink`. -/
def removeIdentity (s : State) (r : Nat) (identity : OAuthIdentity) : State :=
  (s.deleteIdentity identity.id).answer r .unlinked

/-- What a request or its environment does next. -/
inductive Action where
  | tick
  | approveEmail (email : String)
  | startLogin (r : Nat) (provider state : String)
  | startLink (r userId : Nat) (provider state : String)
  | completeCallback (r : Nat) (provider state : String) (code providerError : Option String)
  | consumeFlow (r : Nat)
  | resolveIdentity (r : Nat) (identity : Option OAuthIdentityInfo)
  | completeLogin (r : Nat)
  | loadAccount (r : Nat)
  | matchEmail (r : Nat)
  | offerLink (r : Nat)
  | register (r : Nat) (email password : String)
  | ensureEmailAvailable (r : Nat)
  | requireApproval (r : Nat)
  | firstUserBootstrap (r : Nat)
  | createApprovedUser (r : Nat)
  | explainCollision (r : Nat)
  | openSession (r : Nat)
  | recordIdentity (r : Nat)
  | loadLinkUser (r : Nat)
  | completeLink (r : Nat)
  | confirmPendingLink (r pendingLinkId : Nat) (password : String)
  | verifyOwner (r : Nat)
  | commitConfirmed (r : Nat)
  | currentUser (r userId : Nat) (provider : String)
  | unlink (r : Nat)
  | checkRemaining (r : Nat)
  | removeIdentity (r : Nat)
  | crash (r : Nat)
  deriving DecidableEq, Repr

/-- One more approved email, unless it is approved already. -/
def approveEmail (s : State) (email : String) : State :=
  if s.approvedEmails.any (fun e => e.email = email) then s
  else { s with
    approvedEmails := s.approvedEmails ++
      [{ id := s.nextUuid
         email := email
         note := none
         addedBy := none
         usedAt := none
         usedByUserId := none }]
    nextUuid := s.nextUuid + 1 }

/-- `get_current_user`: the bearer has to exist and be active. -/
def currentUser (s : State) (userId : Nat) : Option User :=
  (s.findUser userId).filter (fun u => u.isActive)

/-- One step of one request, or of its environment. A step that does not fit
    where the request stands is refused. -/
def step (s : State) : Action → Option State
  | .tick => some { s with now := s.now + 1 }
  | .approveEmail email => some (approveEmail s email)
  | .startLogin r provider state => match s.request r with
    | .idle => some (start cfg s r provider .login none state)
    | _ => none
  | .startLink r userId provider state => match s.request r, currentUser s userId with
    | .idle, some user => some (start cfg s r provider .link (some user.id) state)
    | _, _ => none
  | .completeCallback r provider state code providerError => match s.request r with
    | .idle => some (completeCallback cfg s r provider state code providerError)
    | _ => none
  | .consumeFlow r => match s.request r with
    | .flowRead provider flow code providerError =>
      some (consumeFlow cfg s r provider flow code providerError)
    | _ => none
  | .resolveIdentity r identity => match s.request r with
    | .exchanging provider intent linkUserId =>
      some (resolveIdentity s r provider intent linkUserId identity)
    | _ => none
  | .completeLogin r => match s.request r with
    | .identified provider identity => some (completeLogin s r provider identity)
    | _ => none
  | .loadAccount r => match s.request r with
    | .known existing => some (loadAccount s r existing)
    | _ => none
  | .matchEmail r => match s.request r with
    | .unknown provider identity => some (matchEmail cfg s r provider identity)
    | _ => none
  | .offerLink r => match s.request r with
    | .matched provider identity email => some (offerLink s r provider identity email)
    | _ => none
  | .register r email password => match s.request r with
    | .idle => some (s.setRequest r (.registering (.password password) (cfg.normalize email)))
    | _ => none
  | .ensureEmailAvailable r => match s.request r with
    | .registering door email => some (ensureEmailAvailable s r door email)
    | _ => none
  | .requireApproval r => match s.request r with
    | .available door email => some (requireApproval cfg s r door email)
    | _ => none
  | .firstUserBootstrap r => match s.request r with
    | .unapproved door email => some (firstUserBootstrap s r door email)
    | _ => none
  | .createApprovedUser r => match s.request r with
    | .approved door email approval => some (createApprovedUser cfg s r door email approval)
    | _ => none
  | .explainCollision r => match s.request r with
    | .collided door email => some (explainCollision s r door email)
    | _ => none
  | .openSession r => match s.request r with
    | .created door user => some (openSession s r door user)
    | .authenticated user => some (s.answer r (.session user.id))
    | _ => none
  | .recordIdentity r => match s.request r with
    | .opened provider identity user => some (recordIdentity s r provider identity user)
    | _ => none
  | .loadLinkUser r => match s.request r with
    | .linking provider identity userId => some (loadLinkUser s r provider identity userId)
    | _ => none
  | .completeLink r => match s.request r with
    | .linkable provider identity user => some (completeLink s r provider identity user)
    | _ => none
  | .confirmPendingLink r pendingLinkId password => match s.request r with
    | .idle => some (confirmPendingLink s r pendingLinkId password)
    | _ => none
  | .verifyOwner r => match s.request r with
    | .confirming pending password => some (verifyOwner cfg s r pending password)
    | _ => none
  | .commitConfirmed r => match s.request r with
    | .confirmed pending user now => some (commitConfirmed s r pending user now)
    | _ => none
  | .currentUser r userId provider => match s.request r, currentUser s userId with
    | .idle, some user => some (s.setRequest r (.unlinking user provider))
    | _, _ => none
  | .unlink r => match s.request r with
    | .unlinking user provider => some (unlink s r user provider)
    | _ => none
  | .checkRemaining r => match s.request r with
    | .found user identity => some (checkRemaining s r user identity)
    | _ => none
  | .removeIdentity r => match s.request r with
    | .removable identity => some (removeIdentity s r identity)
    | _ => none
  | .crash r => some (s.setRequest r .crashed)

/-- A fresh database: the seed user and nothing else. -/
def initial : State :=
  { users :=
      [{ id := seedUserId
         email := "system@partha.local"
         passwordHash := none
         isActive := true }]
    approvedEmails := []
    identities := []
    pendingLinks := []
    flows := []
    now := 0
    nextUuid := seedUserId + 1
    request := fun _ => .idle }

/-- All interleavings of any number of requests. -/
def signIns : StepSystem State Action :=
  { init := fun s => s = initial
    step := step cfg }

end Accounts

end Partha
