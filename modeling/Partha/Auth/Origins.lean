import Partha.Auth.Accounts

/-!
# Origins of Identities

Why an external identity belongs to an account, and why a session was opened
through it.

`Accounts` has the tables and the requests. Here every step is also recorded with
the state it was taken in, so that a row can be traced to the requests it comes
from. What a request has read is justified by the steps it has taken: a callback
that goes on with an identity got it from the provider, one that goes on with an
account found it by an identity row, by the password, or made it itself. Nothing in
a justification is about the present state, so it stays true when the history grows.

Password logins are requests of their own here. They open sessions and touch
nothing else.

A session through a known identity is opened some time after the identity row was
read. The row can be unlinked in between, and the session is opened all the same.

## Main definitions

* `Recorded`: The state of the accounts, the password logins, and the history.
* `recorded`: The system of all interleavings, with its history.
* `LinkReturned`, `Offered`, `Confirmed`, `Registered`: What the steps of a request
  amount to.
* `Origin`: Why an identity row is there.
* `SessionOrigin`: Why a session was opened.
* `Justified`: What is behind a request that is under way.

## Theorems

* `inv_step`: Steps keep every justification.
* `identities_have_origins`: Rows and sessions have an origin.
-/

namespace Partha

namespace Origins

open Accounts List

section Definitions

/-- The steps so far, each with the state that it was taken in. -/
abbrev History := List (State × Action)

/-- A password login, by the last step it took. -/
inductive Login where
  | idle
  | verified (user : User)
  | session (userId : Nat)
  | unauthorizedError (message : String)
  | crashed
  deriving DecidableEq, Repr

structure Recorded where
  base : State
  login : Nat → Login
  history : History

def Recorded.setLogin (s : Recorded) (l : Nat) (q : Login) : Recorded :=
  { s with login := fun l' => if l' = l then q else s.login l' }

def invalidCredentials : String :=
  "Invalid email or password."

inductive Event where
  | service (a : Action)
  | login (l : Nat) (email password : String)
  | openSession (l : Nat)
  | crash (l : Nat)
  deriving DecidableEq, Repr

variable (cfg : Settings)

/-- `login`, up to the session. -/
def login (s : Recorded) (l : Nat) (email password : String) : Recorded :=
  match s.base.findEmail (cfg.normalize email) with
  | none => s.setLogin l (.unauthorizedError invalidCredentials)
  | some user =>
    match user.passwordHash with
    | none => s.setLogin l (.unauthorizedError invalidCredentials)
    | some passwordHash =>
      if cfg.verifyPassword passwordHash password = false ∨ user.isActive = false then
        s.setLogin l (.unauthorizedError invalidCredentials)
      else s.setLogin l (.verified user)

def step (s : Recorded) : Event → Option Recorded
  | .service a =>
    (Accounts.step cfg s.base a).map fun base =>
      { s with base := base, history := s.history ++ [(s.base, a)] }
  | .login l email password =>
    match s.login l with
    | .idle => some (login cfg s l email password)
    | _ => none
  | .openSession l =>
    match s.login l with
    | .verified user => some (s.setLogin l (.session user.id))
    | _ => none
  | .crash l => some (s.setLogin l .crashed)

def initial : Recorded :=
  { base := Accounts.initial
    login := fun _ => .idle
    history := [] }

/-- All interleavings of any number of requests, with their history. -/
def recorded : StepSystem Recorded Event :=
  { init := fun s => s = initial
    step := step cfg }

/-- The flow row was committed by a link flow that an authenticated user started. -/
def LinkStarted (H : History) (userId : Nat) (flow : OAuthFlowState) : Prop :=
  ∃ t r provider state user, (t, Action.startLink r userId provider state) ∈ H ∧
    currentUser t userId = some user ∧ flow.intent = .link ∧ flow.linkUserId = some userId ∧
    flow.provider = provider ∧ flow.stateHash = cfg.hashState state

/-- A link flow has been started by the account that it links. -/
def LinkOwned (H : History) (flow : OAuthFlowState) : Prop :=
  flow.intent = .link → ∀ userId, flow.linkUserId = some userId → LinkStarted cfg H userId flow

/-- The callback has read the flow row by its state. -/
def FlowRead (H : History) (r : Nat) (provider : String) (flow : OAuthFlowState) : Prop :=
  ∃ t state code providerError,
    (t, Action.completeCallback r provider state code providerError) ∈ H ∧
    flow ∈ t.flows ∧ flow.stateHash = cfg.hashState state

/-- The provider has answered the exchange of the callback with the identity. -/
def Returned (H : History) (r : Nat) (provider : String) (intent : Intent)
    (linkUserId : Option Nat) (identity : OAuthIdentityInfo) : Prop :=
  ∃ t, (t, Action.resolveIdentity r (some identity)) ∈ H ∧
    t.request r = .exchanging provider intent linkUserId

/-- The provider has returned the identity for a link flow that the user started. -/
def LinkReturned (H : History) (r : Nat) (provider : String) (identity : OAuthIdentityInfo)
    (userId : Nat) : Prop :=
  ∃ flow, FlowRead cfg H r provider flow ∧ LinkStarted cfg H userId flow ∧
    Returned H r provider .link (some userId) identity

/-- The provider has returned the identity for a login flow. -/
def LoginReturned (H : History) (r : Nat) (provider : String) (identity : OAuthIdentityInfo) :
    Prop :=
  ∃ linkUserId, Returned H r provider .login linkUserId identity

/-- The same, with a verified email. -/
def EmailReturned (H : History) (r : Nat) (provider : String) (identity : OAuthIdentityInfo)
    (email : String) : Prop :=
  LoginReturned H r provider identity ∧
    ∃ raw, verifiedEmail identity = some raw ∧ cfg.normalize raw = email

/-- The pending link was created from a verified email, which is the one it has. -/
def Offered (H : History) (pending : OAuthPendingLink) : Prop :=
  ∃ t r identity, (t, Action.offerLink r) ∈ H ∧
    t.request r = .matched pending.provider identity pending.email ∧
    identity.subject = pending.providerSubject ∧
    EmailReturned cfg H r pending.provider identity pending.email

/-- The pending link was confirmed with the password of the user that has its email. -/
def Confirmed (H : History) (r : Nat) (pending : OAuthPendingLink) (user : User) : Prop :=
  Offered cfg H pending ∧ user.email = pending.email ∧ user.id ≠ seedUserId ∧
    ∃ t t' password passwordHash,
      (t, Action.confirmPendingLink r pending.id password) ∈ H ∧ pending ∈ t.pendingLinks ∧
      (t', Action.verifyOwner r) ∈ H ∧ t'.request r = .confirming pending password ∧
      user ∈ t'.users ∧ user.passwordHash = some passwordHash ∧
      cfg.verifyPassword passwordHash password = true

/-- The email was approved when the registration looked it up, or the registration
    adds it to the list itself. -/
def Listed (H : History) (r : Nat) (email : String) : Approval → Prop
  | .stored id => ∃ t, (t, Action.requireApproval r) ∈ H ∧
      ∃ e ∈ t.approvedEmails, e.id = id ∧ e.email = email
  | .added _ _ => (cfg.development = true ∧ ∃ t, (t, Action.requireApproval r) ∈ H) ∨
      ∃ t, (t, Action.firstUserBootstrap r) ∈ H ∧ ∀ u ∈ t.users, u.id = seedUserId

/-- The registration by OAuth that created the account. -/
def Registered (H : History) (r : Nat) (provider : String) (identity : OAuthIdentityInfo)
    (user : User) : Prop :=
  EmailReturned cfg H r provider identity user.email ∧ user.id ≠ seedUserId ∧
    ∃ t approval t', (t, Action.createApprovedUser r) ∈ H ∧
      t.request r = .approved (.oauth provider identity) user.email approval ∧
      Listed cfg H r user.email approval ∧
      user = newUser cfg t (.oauth provider identity) user.email ∧
      insertUser t user approval = some t' ∧ ∃ e ∈ t'.approvedEmails, e.email = user.email

/-- The login has found an identity row of the account, by what the provider
    returned. -/
def LookedUp (H : History) (r : Nat) (existing : OAuthIdentity) : Prop :=
  ∃ t identity, (t, Action.completeLogin r) ∈ H ∧ existing ∈ t.identities ∧
    LoginReturned H r existing.provider identity ∧ existing.providerSubject = identity.subject

/-- Why an identity row is there. -/
inductive Origin (H : History) (i : OAuthIdentity) : Prop where
  | linked (t : State) (r : Nat) (identity : OAuthIdentityInfo)
      (hstep : (t, Action.completeLink r) ∈ H)
      (hreturned : LinkReturned cfg H r i.provider identity i.userId)
      (hsubject : i.providerSubject = identity.subject)
  | confirmed (t : State) (r : Nat) (pending : OAuthPendingLink) (user : User)
      (hstep : (t, Action.commitConfirmed r) ∈ H) (hconfirmed : Confirmed cfg H r pending user)
      (huser : i.userId = user.id) (hprovider : i.provider = pending.provider)
      (hsubject : i.providerSubject = pending.providerSubject)
  | registered (t : State) (r : Nat) (identity : OAuthIdentityInfo) (user : User)
      (hstep : (t, Action.recordIdentity r) ∈ H)
      (hregistered : Registered cfg H r i.provider identity user) (huser : i.userId = user.id)
      (hsubject : i.providerSubject = identity.subject)

/-- Why a session was opened through a provider. -/
inductive SessionOrigin (H : History) (r : Nat) (user : User) : Prop where
  | known (existing : OAuthIdentity) (hlooked : LookedUp H r existing)
      (huser : existing.userId = user.id) (hseed : user.id ≠ seedUserId)
  | confirmed (t : State) (pending : OAuthPendingLink) (hstep : (t, Action.commitConfirmed r) ∈ H)
      (hconfirmed : Confirmed cfg H r pending user)
  | registered (provider : String) (identity : OAuthIdentityInfo)
      (hregistered : Registered cfg H r provider identity user)

/-- The door of a registration, if it is by OAuth, has a verified email. -/
def DoorReturned (H : History) (r : Nat) (email : String) : Door → Prop
  | .password _ => True
  | .oauth provider identity => EmailReturned cfg H r provider identity email

/-- What is behind a request that is under way. -/
def Justified (H : History) (r : Nat) : Request → Prop
  | .flowRead provider flow _ _ => FlowRead cfg H r provider flow ∧ LinkOwned cfg H flow
  | .exchanging provider intent linkUserId => ∃ flow, FlowRead cfg H r provider flow ∧
      LinkOwned cfg H flow ∧ intent = flow.intent ∧ linkUserId = flow.linkUserId
  | .identified provider identity => LoginReturned H r provider identity
  | .known existing => LookedUp H r existing
  | .unknown provider identity => LoginReturned H r provider identity
  | .matched provider identity email => EmailReturned cfg H r provider identity email
  | .registering door email => DoorReturned cfg H r email door
  | .available door email => DoorReturned cfg H r email door
  | .unapproved door email => DoorReturned cfg H r email door
  | .approved door email approval => DoorReturned cfg H r email door ∧ Listed cfg H r email approval
  | .created (.oauth provider identity) user => Registered cfg H r provider identity user
  | .opened provider identity user => Registered cfg H r provider identity user
  | .linking provider identity userId => LinkReturned cfg H r provider identity userId
  | .linkable provider identity user => LinkReturned cfg H r provider identity user.id
  | .confirming pending password => Offered cfg H pending ∧
      ∃ t, (t, Action.confirmPendingLink r pending.id password) ∈ H ∧ pending ∈ t.pendingLinks
  | .confirmed pending user _ => Confirmed cfg H r pending user
  | .authenticated user => SessionOrigin cfg H r user
  | _ => True

end Definitions

section Growth

variable {cfg : Settings} {H H' : History}

variable {userId r : Nat} {flow : OAuthFlowState} {provider email : String}
  {identity : OAuthIdentityInfo} {pending : OAuthPendingLink} {user : User} {s : State}

theorem linkStarted_mono (hsub : H ⊆ H') (h : LinkStarted cfg H userId flow) :
    LinkStarted cfg H' userId flow := by
  rcases h with ⟨t, r, provider, state, user, hmem, hrest⟩
  exact ⟨t, r, provider, state, user, hsub hmem, hrest⟩

theorem linkOwned_mono (hsub : H ⊆ H') (h : LinkOwned cfg H flow) : LinkOwned cfg H' flow :=
  fun hintent userId huser => linkStarted_mono hsub (h hintent userId huser)

theorem flowRead_mono (hsub : H ⊆ H') (h : FlowRead cfg H r provider flow) :
    FlowRead cfg H' r provider flow := by
  rcases h with ⟨t, state, code, providerError, hmem, hrest⟩
  exact ⟨t, state, code, providerError, hsub hmem, hrest⟩

theorem returned_mono (hsub : H ⊆ H') {intent : Intent} {linkUserId : Option Nat}
    (h : Returned H r provider intent linkUserId identity) :
    Returned H' r provider intent linkUserId identity := by
  rcases h with ⟨t, hmem, hrequest⟩
  exact ⟨t, hsub hmem, hrequest⟩

theorem linkReturned_mono (hsub : H ⊆ H') (h : LinkReturned cfg H r provider identity userId) :
    LinkReturned cfg H' r provider identity userId := by
  rcases h with ⟨flow, hread, hstarted, hreturned⟩
  exact ⟨flow, flowRead_mono hsub hread, linkStarted_mono hsub hstarted,
    returned_mono hsub hreturned⟩

theorem loginReturned_mono (hsub : H ⊆ H') (h : LoginReturned H r provider identity) :
    LoginReturned H' r provider identity := by
  rcases h with ⟨linkUserId, hreturned⟩
  exact ⟨linkUserId, returned_mono hsub hreturned⟩

theorem emailReturned_mono (hsub : H ⊆ H') (h : EmailReturned cfg H r provider identity email) :
    EmailReturned cfg H' r provider identity email :=
  ⟨loginReturned_mono hsub h.1, h.2⟩

theorem offered_mono (hsub : H ⊆ H') (h : Offered cfg H pending) : Offered cfg H' pending := by
  rcases h with ⟨t, r, identity, hmem, hrequest, hsubject, hemail⟩
  exact ⟨t, r, identity, hsub hmem, hrequest, hsubject, emailReturned_mono hsub hemail⟩

theorem confirmed_mono (hsub : H ⊆ H') (h : Confirmed cfg H r pending user) :
    Confirmed cfg H' r pending user := by
  rcases h with ⟨hoffered, hemail, hseed, t, t', password, passwordHash, hread, hstored, hverify,
    hrest⟩
  exact ⟨offered_mono hsub hoffered, hemail, hseed, t, t', password, passwordHash, hsub hread,
    hstored, hsub hverify, hrest⟩

theorem listed_mono (hsub : H ⊆ H') {approval : Approval} (h : Listed cfg H r email approval) :
    Listed cfg H' r email approval := by
  cases approval with
  | stored id =>
    rcases h with ⟨t, hmem, hlisted⟩
    exact ⟨t, hsub hmem, hlisted⟩
  | added note addedBy =>
    rcases h with ⟨hdev, t, hmem⟩ | ⟨t, hmem, hfirst⟩
    · exact .inl ⟨hdev, t, hsub hmem⟩
    · exact .inr ⟨t, hsub hmem, hfirst⟩

theorem registered_mono (hsub : H ⊆ H') (h : Registered cfg H r provider identity user) :
    Registered cfg H' r provider identity user := by
  rcases h with ⟨hemail, hseed, t, approval, t', hmem, hrequest, hlisted, hrest⟩
  exact ⟨emailReturned_mono hsub hemail, hseed, t, approval, t', hsub hmem, hrequest,
    listed_mono hsub hlisted, hrest⟩

theorem lookedUp_mono (hsub : H ⊆ H') {existing : OAuthIdentity} (h : LookedUp H r existing) :
    LookedUp H' r existing := by
  rcases h with ⟨t, identity, hmem, hstored, hreturned, hsubject⟩
  exact ⟨t, identity, hsub hmem, hstored, loginReturned_mono hsub hreturned, hsubject⟩

theorem origin_mono (hsub : H ⊆ H') {i : OAuthIdentity} (h : Origin cfg H i) :
    Origin cfg H' i := by
  cases h with
  | linked t r identity hstep hreturned hsubject =>
    exact .linked t r identity (hsub hstep) (linkReturned_mono hsub hreturned) hsubject
  | confirmed t r pending user hstep hconfirmed huser hprovider hsubject =>
    exact .confirmed t r pending user (hsub hstep) (confirmed_mono hsub hconfirmed) huser hprovider
      hsubject
  | registered t r identity user hstep hregistered huser hsubject =>
    exact .registered t r identity user (hsub hstep) (registered_mono hsub hregistered) huser
      hsubject

theorem sessionOrigin_mono (hsub : H ⊆ H') (h : SessionOrigin cfg H r user) :
    SessionOrigin cfg H' r user := by
  cases h with
  | known existing hlooked huser hseed =>
    exact .known existing (lookedUp_mono hsub hlooked) huser hseed
  | confirmed t pending hstep hconfirmed =>
    exact .confirmed t pending (hsub hstep) (confirmed_mono hsub hconfirmed)
  | registered provider identity hregistered =>
    exact .registered provider identity (registered_mono hsub hregistered)

theorem doorReturned_mono (hsub : H ⊆ H') {door : Door} (h : DoorReturned cfg H r email door) :
    DoorReturned cfg H' r email door := by
  cases door with
  | password password => exact h
  | oauth provider identity => exact emailReturned_mono hsub h

/-- A justification stays true when the history grows. -/
theorem justified_mono (hsub : H ⊆ H') {q : Request} (h : Justified cfg H r q) :
    Justified cfg H' r q := by
  cases q with
  | flowRead provider flow code providerError =>
    exact ⟨flowRead_mono hsub h.1, linkOwned_mono hsub h.2⟩
  | exchanging provider intent linkUserId =>
    rcases h with ⟨flow, hread, howned, hrest⟩
    exact ⟨flow, flowRead_mono hsub hread, linkOwned_mono hsub howned, hrest⟩
  | identified provider identity => exact loginReturned_mono hsub h
  | known existing => exact lookedUp_mono hsub h
  | unknown provider identity => exact loginReturned_mono hsub h
  | matched provider identity email => exact emailReturned_mono hsub h
  | registering door email => exact doorReturned_mono hsub h
  | available door email => exact doorReturned_mono hsub h
  | unapproved door email => exact doorReturned_mono hsub h
  | approved door email approval => exact ⟨doorReturned_mono hsub h.1, listed_mono hsub h.2⟩
  | created door user =>
    cases door with
    | password password => trivial
    | oauth provider identity => exact registered_mono hsub h
  | opened provider identity user => exact registered_mono hsub h
  | linking provider identity userId => exact linkReturned_mono hsub h
  | linkable provider identity user => exact linkReturned_mono hsub h
  | confirming pending password =>
    rcases h with ⟨hoffered, t, hmem, hstored⟩
    exact ⟨offered_mono hsub hoffered, t, hsub hmem, hstored⟩
  | confirmed pending user now => exact confirmed_mono hsub h
  | authenticated user => exact sessionOrigin_mono hsub h
  | idle => trivial
  | collided door email => trivial
  | unlinking user provider => trivial
  | found user identity => trivial
  | removable identity => trivial
  | answered answer => trivial
  | crashed => trivial

/-- What is behind the rows and the requests. -/
structure Inv (cfg : Settings) (H : History) (s : State) : Prop where
  flows : ∀ f ∈ s.flows, LinkOwned cfg H f
  pendingLinks : ∀ p ∈ s.pendingLinks, Offered cfg H p
  identities : ∀ i ∈ s.identities, Origin cfg H i
  requests : ∀ r, Justified cfg H r (s.request r)
  past : ∀ t a, (t, a) ∈ H → ∀ r, Justified cfg H r (t.request r)
  seed : ∀ u ∈ s.users, u.id = seedUserId → u.passwordHash = none
  aboveSeed : seedUserId < s.nextUuid
  listed : ∀ t a, (t, a) ∈ H → ∀ e ∈ t.approvedEmails,
    ∃ e' ∈ s.approvedEmails, e'.id = e.id ∧ e'.email = e.email

theorem inv_mono (hsub : H ⊆ H') (h : Inv cfg H s)
    (hpast : ∀ t a, (t, a) ∈ H' → ∀ r, Justified cfg H' r (t.request r))
    (hlisted : ∀ t a, (t, a) ∈ H' → ∀ e ∈ t.approvedEmails,
      ∃ e' ∈ s.approvedEmails, e'.id = e.id ∧ e'.email = e.email) : Inv cfg H' s where
  flows f hf := linkOwned_mono hsub (h.flows f hf)
  pendingLinks p hp := offered_mono hsub (h.pendingLinks p hp)
  identities i hi := origin_mono hsub (h.identities i hi)
  requests r := justified_mono hsub (h.requests r)
  past := hpast
  seed := h.seed
  aboveSeed := h.aboveSeed
  listed := hlisted

/-- The step that is about to be taken is recorded. -/
theorem inv_record (h : Inv cfg H s) (a : Action) : Inv cfg (H ++ [(s, a)]) s := by
  have hsub : H ⊆ H ++ [(s, a)] := subset_append_left H _
  refine inv_mono hsub h (fun t b hmem r => ?_) (fun t b hmem e he => ?_)
  · rcases mem_append.mp hmem with hmem | hmem
    · exact justified_mono hsub (h.past t b hmem r)
    · cases mem_singleton.mp hmem
      exact justified_mono hsub (h.requests r)
  · rcases mem_append.mp hmem with hmem | hmem
    · exact h.listed t b hmem e he
    · cases mem_singleton.mp hmem
      exact ⟨e, he, rfl, rfl⟩

end Growth

section Steps

variable {cfg : Settings} {H : History} {s : State}

variable {r userId : Nat} {q : Request} {provider state email password : String} {intent : Intent}
  {linkUserId : Option Nat} {code providerError : Option String} {identity : OAuthIdentityInfo}
  {user u : User} {door : Door} {t : State} {approval : Approval} {pending : OAuthPendingLink}

theorem inv_setRequest (h : Inv cfg H s) (hq : Justified cfg H r q) :
    Inv cfg H (s.setRequest r q) where
  flows := h.flows
  pendingLinks := h.pendingLinks
  identities := h.identities
  requests r' := by
    by_cases hr : r' = r
    · have hself : (s.setRequest r q).request r' = q := if_pos hr
      rw [hself, hr]
      exact hq
    · have hother : (s.setRequest r q).request r' = s.request r' := if_neg hr
      rw [hother]
      exact h.requests r'
  past := h.past
  seed := h.seed
  aboveSeed := h.aboveSeed
  listed := h.listed

theorem inv_answer (h : Inv cfg H s) (r : Nat) (a : Answer) : Inv cfg H (s.answer r a) :=
  inv_setRequest h trivial

theorem justified_of (h : Inv cfg H s) (hr : s.request r = q) : Justified cfg H r q := by
  rw [← hr]
  exact h.requests r

/-- The row of a flow that is started is owned, if it is the row of a link flow. -/
theorem inv_start (h : Inv cfg H s)
    (howned : ∀ f : OAuthFlowState, f.intent = intent → f.linkUserId = linkUserId →
      f.provider = provider → f.stateHash = cfg.hashState state → LinkOwned cfg H f) :
    Inv cfg H (start cfg s r provider intent linkUserId state) := by
  unfold start
  split
  · exact inv_answer h r _
  split
  · exact inv_answer h r _
  refine inv_answer ?_ r _
  refine ⟨?_, h.pendingLinks, h.identities, h.requests, h.past, h.seed,
    Nat.lt_succ_of_lt h.aboveSeed, h.listed⟩
  intro f hf
  rcases mem_append.mp hf with hf | hf
  · exact h.flows f hf
  · rw [mem_singleton.mp hf]
    exact howned _ rfl rfl rfl rfl

theorem inv_completeCallback (h : Inv cfg H s)
    (hmem : (s, Action.completeCallback r provider state code providerError) ∈ H) :
    Inv cfg H (completeCallback cfg s r provider state code providerError) := by
  unfold completeCallback
  split
  · exact inv_answer h r _
  · rename_i flow hfind
    split
    · exact inv_answer h r _
    · have hstored := mem_of_find?_eq_some hfind
      have hhash := List.find?_some hfind
      refine inv_setRequest h ⟨⟨s, state, code, providerError, hmem, hstored, ?_⟩,
        h.flows flow hstored⟩
      exact of_decide_eq_true hhash

theorem inv_consumeFlow (h : Inv cfg H s) {flow : OAuthFlowState}
    (hr : s.request r = .flowRead provider flow code providerError) :
    Inv cfg H (consumeFlow cfg s r provider flow code providerError) := by
  have hjust : FlowRead cfg H r provider flow ∧ LinkOwned cfg H flow := justified_of h hr
  have hdeleted : Inv cfg H { s with flows := s.flows.filter (fun f => f.id ≠ flow.id) } :=
    ⟨fun f hf => h.flows f (mem_filter.mp hf).1, h.pendingLinks, h.identities, h.requests,
      h.past, h.seed, h.aboveSeed, h.listed⟩
  unfold consumeFlow
  split
  · exact inv_answer hdeleted r _
  · dsimp only
    split
    · exact inv_answer hdeleted r _
    split
    · exact inv_answer hdeleted r _
    · exact inv_setRequest hdeleted ⟨flow, hjust.1, hjust.2, rfl, rfl⟩

theorem inv_resolveIdentity (h : Inv cfg H s) {answer : Option OAuthIdentityInfo}
    (hr : s.request r = .exchanging provider intent linkUserId)
    (hmem : (s, Action.resolveIdentity r answer) ∈ H) :
    Inv cfg H (resolveIdentity s r provider intent linkUserId answer) := by
  have hjust : ∃ flow, FlowRead cfg H r provider flow ∧ LinkOwned cfg H flow ∧
      intent = flow.intent ∧ linkUserId = flow.linkUserId := justified_of h hr
  rcases hjust with ⟨flow, hread, howned, hintent, huser⟩
  unfold resolveIdentity
  split
  · exact inv_answer h r _
  · split
    · exact inv_setRequest h ⟨linkUserId, s, hmem, hr⟩
    · exact inv_answer h r _
    · exact inv_setRequest h ⟨flow, hread, howned hintent.symm _ huser.symm, s, hmem, hr⟩

theorem inv_completeLogin (h : Inv cfg H s) (hr : s.request r = .identified provider identity)
    (hmem : (s, Action.completeLogin r) ∈ H) : Inv cfg H (completeLogin s r provider identity) := by
  have hreturned : LoginReturned H r provider identity := justified_of h hr
  unfold completeLogin
  split
  · rename_i existing hfind
    have hsame := List.find?_some hfind
    rw [decide_eq_true_eq] at hsame
    refine inv_setRequest h ⟨s, identity, hmem, mem_of_find?_eq_some hfind, ?_, hsame.2⟩
    rw [hsame.1]
    exact hreturned
  · exact inv_setRequest h hreturned

theorem findUser_id (h : s.findUser userId = some user) : user ∈ s.users ∧ user.id = userId := by
  have hid := List.find?_some h
  exact ⟨mem_of_find?_eq_some h, of_decide_eq_true hid⟩

theorem findEmail_email (h : s.findEmail email = some user) :
    user ∈ s.users ∧ user.email = email := by
  have hemail := List.find?_some h
  exact ⟨mem_of_find?_eq_some h, of_decide_eq_true hemail⟩

theorem inv_loadAccount (h : Inv cfg H s) {existing : OAuthIdentity}
    (hr : s.request r = .known existing) : Inv cfg H (loadAccount s r existing) := by
  have hlooked : LookedUp H r existing := justified_of h hr
  unfold loadAccount
  split
  · exact inv_answer h r _
  · rename_i user hfind
    split
    · exact inv_answer h r _
    · rename_i hactive
      rw [not_or] at hactive
      exact inv_setRequest h (SessionOrigin.known existing hlooked (findUser_id hfind).2.symm
        hactive.2)

theorem inv_matchEmail (h : Inv cfg H s) (hr : s.request r = .unknown provider identity) :
    Inv cfg H (matchEmail cfg s r provider identity) := by
  have hreturned : LoginReturned H r provider identity := justified_of h hr
  unfold matchEmail
  split
  · exact inv_answer h r _
  · rename_i raw hraw
    have hemail : EmailReturned cfg H r provider identity (cfg.normalize raw) :=
      ⟨hreturned, raw, hraw, rfl⟩
    split
    · rename_i user hfind
      split
      · refine inv_setRequest h ?_
        change EmailReturned cfg H r provider identity user.email
        rw [(findEmail_email hfind).2]
        exact hemail
      · exact inv_setRequest h hemail
    · exact inv_setRequest h hemail

theorem inv_offerLink (h : Inv cfg H s) (hr : s.request r = .matched provider identity email)
    (hmem : (s, Action.offerLink r) ∈ H) : Inv cfg H (offerLink s r provider identity email) := by
  have hemail : EmailReturned cfg H r provider identity email := justified_of h hr
  unfold offerLink
  refine inv_answer ?_ r _
  refine ⟨h.flows, ?_, h.identities, h.requests, h.past, h.seed, Nat.lt_succ_of_lt h.aboveSeed,
    h.listed⟩
  intro p hp
  rcases mem_append.mp hp with hp | hp
  · exact h.pendingLinks p hp
  · rw [mem_singleton.mp hp]
    exact ⟨s, r, identity, hmem, hr, rfl, hemail⟩

theorem inv_ensureEmailAvailable (h : Inv cfg H s) (hr : s.request r = .registering door email) :
    Inv cfg H (ensureEmailAvailable s r door email) := by
  have hdoor : DoorReturned cfg H r email door := justified_of h hr
  unfold ensureEmailAvailable
  split
  · exact inv_answer h r _
  · exact inv_setRequest h hdoor

theorem inv_requireApproval (h : Inv cfg H s) (hr : s.request r = .available door email)
    (hmem : (s, Action.requireApproval r) ∈ H) :
    Inv cfg H (requireApproval cfg s r door email) := by
  have hdoor : DoorReturned cfg H r email door := justified_of h hr
  unfold requireApproval
  split
  · rename_i approval hfind
    have hlisted := List.find?_some hfind
    exact inv_setRequest h ⟨hdoor, s, hmem, approval, mem_of_find?_eq_some hfind, rfl,
      of_decide_eq_true hlisted⟩
  · split
    · rename_i hdev
      exact inv_setRequest h ⟨hdoor, .inl ⟨hdev, s, hmem⟩⟩
    · exact inv_setRequest h hdoor

theorem inv_firstUserBootstrap (h : Inv cfg H s) (hr : s.request r = .unapproved door email)
    (hmem : (s, Action.firstUserBootstrap r) ∈ H) :
    Inv cfg H (firstUserBootstrap s r door email) := by
  have hdoor : DoorReturned cfg H r email door := justified_of h hr
  unfold firstUserBootstrap
  split
  · exact inv_answer h r _
  · rename_i hnone
    refine inv_setRequest h ⟨hdoor, .inr ⟨s, hmem, fun u hu => ?_⟩⟩
    by_cases hid : u.id = seedUserId
    · exact hid
    · exact absurd (any_eq_true.mpr ⟨u, hu, decide_eq_true hid⟩) hnone

/-- The tables after an account was inserted. -/
theorem insertUser_tables (h : insertUser s u approval = some t) :
    t.users = s.users ++ [u] ∧ t.flows = s.flows ∧ t.pendingLinks = s.pendingLinks ∧
      t.identities = s.identities ∧ t.request = s.request ∧ t.nextUuid = s.nextUuid + 2 ∧
      t.approvedEmails = stampApproval s u.email approval u.id := by
  unfold insertUser at h
  split at h
  · cases h
    exact ⟨rfl, rfl, rfl, rfl, rfl, rfl, rfl⟩
  · cases h

/-- The stamp of an approval keeps every row of the list. -/
theorem stamped_mem {e : ApprovedEmail} (he : e ∈ s.approvedEmails) (approval : Approval)
    (u : User) :
    ∃ e' ∈ stampApproval s u.email approval u.id, e'.id = e.id ∧ e'.email = e.email := by
  cases approval with
  | stored id =>
    refine ⟨_, mem_map.mpr ⟨e, he, rfl⟩, ?_⟩
    split
    · exact ⟨rfl, rfl⟩
    · exact ⟨rfl, rfl⟩
  | added note addedBy => exact ⟨e, mem_append_left _ he, rfl, rfl⟩

/-- An account that was inserted has its email on the list. -/
theorem email_listed (h : insertUser s u approval = some t)
    (hstored : ∀ id, approval = .stored id →
      ∃ e ∈ s.approvedEmails, e.id = id ∧ e.email = u.email) :
    ∃ e ∈ t.approvedEmails, e.email = u.email := by
  rw [(insertUser_tables h).2.2.2.2.2.2]
  cases approval with
  | stored id =>
    rcases hstored id rfl with ⟨e, he, hid, hemail⟩
    refine ⟨_, mem_map.mpr ⟨e, he, rfl⟩, ?_⟩
    rw [if_pos hid]
    exact hemail
  | added note addedBy =>
    exact ⟨_, mem_append_right _ (mem_singleton_self _), rfl⟩

theorem inv_createApprovedUser (h : Inv cfg H s) (hr : s.request r = .approved door email approval)
    (hmem : (s, Action.createApprovedUser r) ∈ H) :
    Inv cfg H (createApprovedUser cfg s r door email approval) := by
  have hjust : DoorReturned cfg H r email door ∧ Listed cfg H r email approval := justified_of h hr
  -- An approval that was read is still there.
  have hkept : ∀ id, approval = .stored id →
      ∃ e ∈ s.approvedEmails, e.id = id ∧ e.email = email := by
    rintro id rfl
    rcases hjust.2 with ⟨t, ht, e, he, hid, hemail⟩
    rcases h.listed t _ ht e he with ⟨e', he', hid', hemail'⟩
    exact ⟨e', he', hid'.trans hid, hemail'.trans hemail⟩
  unfold createApprovedUser
  dsimp only
  split
  · exact inv_setRequest h trivial
  · rename_i t hinsert
    have htables := insertUser_tables hinsert
    have hnew : (newUser cfg s door email).id ≠ seedUserId := Nat.ne_of_gt h.aboveSeed
    have ht : Inv cfg H t :=
      { flows := by
          rw [htables.2.1]
          exact h.flows
        pendingLinks := by
          rw [htables.2.2.1]
          exact h.pendingLinks
        identities := by
          rw [htables.2.2.2.1]
          exact h.identities
        requests := by
          rw [htables.2.2.2.2.1]
          exact h.requests
        past := h.past
        seed := by
          intro u hu hseed
          rw [htables.1] at hu
          rcases mem_append.mp hu with hu | hu
          · exact h.seed u hu hseed
          · rw [mem_singleton.mp hu] at hseed
            exact absurd hseed hnew
        aboveSeed := by
          rw [htables.2.2.2.2.2.1]
          exact Nat.lt_of_lt_of_le h.aboveSeed (Nat.le_add_right _ 2)
        listed := by
          intro t' a ht' e he
          rcases h.listed t' a ht' e he with ⟨e', he', hid, hemail⟩
          rcases stamped_mem he' approval (newUser cfg s door email) with ⟨e'', he'', hid', hemail'⟩
          rw [htables.2.2.2.2.2.2]
          exact ⟨e'', he'', hid'.trans hid, hemail'.trans hemail⟩ }
    refine inv_setRequest ht ?_
    cases door with
    | password password => trivial
    | oauth provider identity =>
      exact ⟨hjust.1, hnew, s, approval, t, hmem, hr, hjust.2, rfl, hinsert,
        email_listed hinsert hkept⟩

theorem inv_explainCollision (h : Inv cfg H s) (r : Nat) (door : Door) (email : String) :
    Inv cfg H (explainCollision s r door email) := by
  unfold explainCollision
  split
  · exact inv_answer h r _
  · exact inv_answer h r _

theorem inv_openSession (h : Inv cfg H s) (hr : s.request r = .created door user) :
    Inv cfg H (openSession s r door user) := by
  unfold openSession
  split
  · exact inv_answer h r _
  · rename_i provider identity
    have hregistered : Registered cfg H r provider identity user := justified_of h hr
    exact inv_setRequest h hregistered

/-- The tables after an identity was inserted. -/
theorem inv_insertIdentity (h : Inv cfg H s) {i : OAuthIdentity}
    (hinsert : insertIdentity s i = some t) (horigin : Origin cfg H i) : Inv cfg H t := by
  unfold insertIdentity at hinsert
  split at hinsert
  · cases hinsert
    refine ⟨h.flows, h.pendingLinks, ?_, h.requests, h.past, h.seed,
      Nat.lt_succ_of_lt h.aboveSeed, h.listed⟩
    intro j hj
    rcases mem_append.mp hj with hj | hj
    · exact h.identities j hj
    · rw [mem_singleton.mp hj]
      exact horigin
  · cases hinsert

theorem inv_recordIdentity (h : Inv cfg H s) (hr : s.request r = .opened provider identity user)
    (hmem : (s, Action.recordIdentity r) ∈ H) :
    Inv cfg H (recordIdentity s r provider identity user) := by
  have hregistered : Registered cfg H r provider identity user := justified_of h hr
  unfold recordIdentity
  split
  · exact inv_answer h r _
  · rename_i t hinsert
    exact inv_answer (inv_insertIdentity h hinsert
      (.registered s r identity user hmem hregistered rfl rfl)) r _

theorem inv_loadLinkUser (h : Inv cfg H s) (hr : s.request r = .linking provider identity userId) :
    Inv cfg H (loadLinkUser s r provider identity userId) := by
  have hreturned : LinkReturned cfg H r provider identity userId := justified_of h hr
  unfold loadLinkUser
  split
  · exact inv_answer h r _
  · rename_i user hfind
    split
    · exact inv_answer h r _
    · refine inv_setRequest h ?_
      change LinkReturned cfg H r provider identity user.id
      rw [(findUser_id hfind).2]
      exact hreturned

theorem inv_completeLink (h : Inv cfg H s) (hr : s.request r = .linkable provider identity user)
    (hmem : (s, Action.completeLink r) ∈ H) :
    Inv cfg H (completeLink s r provider identity user) := by
  have hreturned : LinkReturned cfg H r provider identity user.id := justified_of h hr
  unfold completeLink
  split
  · exact inv_answer h r _
  · rename_i t hinsert
    exact inv_answer (inv_insertIdentity h hinsert
      (.linked s r identity hmem hreturned rfl)) r _

theorem inv_confirmPendingLink (h : Inv cfg H s) {pendingLinkId : Nat}
    (hmem : (s, Action.confirmPendingLink r pendingLinkId password) ∈ H) :
    Inv cfg H (confirmPendingLink s r pendingLinkId password) := by
  unfold confirmPendingLink
  split
  · exact inv_answer h r _
  · rename_i pending hfind
    split
    · exact inv_answer h r _
    · have hstored := mem_of_find?_eq_some hfind
      have hid := List.find?_some hfind
      rw [decide_eq_true_eq] at hid
      refine inv_setRequest h ⟨h.pendingLinks pending hstored, s, ?_, hstored⟩
      rw [hid]
      exact hmem

theorem inv_verifyOwner (h : Inv cfg H s) (hr : s.request r = .confirming pending password)
    (hmem : (s, Action.verifyOwner r) ∈ H) : Inv cfg H (verifyOwner cfg s r pending password) := by
  have hjust : Offered cfg H pending ∧
      ∃ t, (t, Action.confirmPendingLink r pending.id password) ∈ H ∧ pending ∈ t.pendingLinks :=
    justified_of h hr
  rcases hjust with ⟨hoffered, t, hread, hstored⟩
  unfold verifyOwner
  split
  · exact inv_answer h r _
  · rename_i user hfind
    split
    · exact inv_answer h r _
    · rename_i passwordHash hhash
      split
      · exact inv_answer h r _
      · rename_i hverified
        rw [not_or, Bool.not_eq_true', Bool.not_eq_false] at hverified
        have huser := findEmail_email hfind
        refine inv_setRequest h ⟨hoffered, huser.2, fun hseed => ?_, t, s, password, passwordHash,
          hread, hstored, hmem, hr, huser.1, hhash, hverified.1⟩
        -- The seed user has no password.
        rw [h.seed user huser.1 hseed] at hhash
        cases hhash

theorem inv_commitConfirmed (h : Inv cfg H s) {now : Nat}
    (hr : s.request r = .confirmed pending user now) (hmem : (s, Action.commitConfirmed r) ∈ H) :
    Inv cfg H (commitConfirmed s r pending user now) := by
  have hconfirmed : Confirmed cfg H r pending user := justified_of h hr
  unfold commitConfirmed
  split
  · exact inv_answer h r _
  · rename_i t hinsert
    have ht := inv_insertIdentity h hinsert
      (.confirmed s r pending user hmem hconfirmed rfl rfl rfl)
    have hdeleted : Inv cfg H (t.deletePending pending.id) :=
      ⟨ht.flows, fun p hp => ht.pendingLinks p (mem_filter.mp hp).1, ht.identities,
        ht.requests, ht.past, ht.seed, ht.aboveSeed, ht.listed⟩
    exact inv_setRequest hdeleted (SessionOrigin.confirmed s pending hmem hconfirmed)

theorem inv_unlink (h : Inv cfg H s) (r : Nat) (user : User) (provider : String) :
    Inv cfg H (unlink s r user provider) := by
  unfold unlink
  split
  · exact inv_answer h r _
  · split
    · exact inv_setRequest h trivial
    · exact inv_setRequest h trivial

theorem inv_checkRemaining (h : Inv cfg H s) (r : Nat) (user : User) (identity : OAuthIdentity) :
    Inv cfg H (checkRemaining s r user identity) := by
  unfold checkRemaining
  split
  · exact inv_answer h r _
  · exact inv_setRequest h trivial

theorem inv_removeIdentity (h : Inv cfg H s) (r : Nat) (identity : OAuthIdentity) :
    Inv cfg H (removeIdentity s r identity) := by
  have hremoved : Inv cfg H (s.deleteIdentity identity.id) :=
    ⟨h.flows, h.pendingLinks, fun i hi => h.identities i (mem_filter.mp hi).1, h.requests,
      h.past, h.seed, h.aboveSeed, h.listed⟩
  exact inv_answer hremoved r _

theorem inv_approveEmail (h : Inv cfg H s) (email : String) :
    Inv cfg H (approveEmail s email) := by
  unfold approveEmail
  split
  · exact h
  · refine ⟨h.flows, h.pendingLinks, h.identities, h.requests, h.past, h.seed,
      Nat.lt_succ_of_lt h.aboveSeed, fun t a ht e he => ?_⟩
    rcases h.listed t a ht e he with ⟨e', he', hsame⟩
    exact ⟨e', mem_append_left _ he', hsame⟩

end Steps

section Runs

variable {cfg : Settings}

variable {H : History} {s : Recorded}

/-- Steps keep every justification. -/
theorem inv_step {s s' : State} {a : Action} (h : Inv cfg H s)
    (hstep : Accounts.step cfg s a = some s') : Inv cfg (H ++ [(s, a)]) s' := by
  have hrec := inv_record h a
  have hmem : (s, a) ∈ H ++ [(s, a)] := mem_append_right _ (mem_singleton_self _)
  cases a with
  -- The environment: time passes, and an operator approves an address.
  | tick =>
    cases hstep
    exact ⟨hrec.flows, hrec.pendingLinks, hrec.identities, hrec.requests, hrec.past, hrec.seed,
      hrec.aboveSeed, hrec.listed⟩
  | approveEmail email =>
    cases hstep
    exact inv_approveEmail hrec email
  -- A flow is opened, by anyone or from an account, comes back and is consumed.
  | startLogin r provider state =>
    simp only [Accounts.step] at hstep
    split at hstep
    · cases hstep
      refine inv_start hrec (fun f hintent _ _ _ hlink => ?_)
      rw [hintent] at hlink
      cases hlink
    · cases hstep
  | startLink r userId provider state =>
    simp only [Accounts.step] at hstep
    split at hstep
    · rename_i user hr huser
      cases hstep
      refine inv_start hrec (fun f hintent hlink hprovider hhash _ userId' huserId => ?_)
      have hid : user.id = userId := by
        rw [currentUser, Option.filter_eq_some_iff] at huser
        exact (findUser_id huser.1).2
      have hsame : userId' = userId := by
        rw [hlink, hid] at huserId
        exact (Option.some.inj huserId).symm
      rw [hsame]
      refine ⟨s, r, provider, state, user, hmem, huser, hintent, ?_, hprovider, hhash⟩
      rw [hlink, hid]
    · cases hstep
  | completeCallback r provider state code providerError =>
    simp only [Accounts.step] at hstep
    split at hstep
    · cases hstep
      exact inv_completeCallback hrec hmem
    · cases hstep
  | consumeFlow r =>
    simp only [Accounts.step] at hstep
    split at hstep
    · rename_i hr
      cases hstep
      exact inv_consumeFlow hrec hr
    · cases hstep
  -- What the provider reports of the bearer, and whom the server takes him for.
  | resolveIdentity r identity =>
    simp only [Accounts.step] at hstep
    split at hstep
    · rename_i hr
      cases hstep
      exact inv_resolveIdentity hrec hr hmem
    · cases hstep
  | completeLogin r =>
    simp only [Accounts.step] at hstep
    split at hstep
    · rename_i hr
      cases hstep
      exact inv_completeLogin hrec hr hmem
    · cases hstep
  | loadAccount r =>
    simp only [Accounts.step] at hstep
    split at hstep
    · rename_i hr
      cases hstep
      exact inv_loadAccount hrec hr
    · cases hstep
  | matchEmail r =>
    simp only [Accounts.step] at hstep
    split at hstep
    · rename_i hr
      cases hstep
      exact inv_matchEmail hrec hr
    · cases hstep
  | offerLink r =>
    simp only [Accounts.step] at hstep
    split at hstep
    · rename_i hr
      cases hstep
      exact inv_offerLink hrec hr hmem
    · cases hstep
  -- Requests that begin and have nothing to justify yet.
  | register r email password | currentUser r userId provider =>
    simp only [Accounts.step] at hstep
    split at hstep
    · cases hstep
      exact inv_setRequest hrec trivial
    · cases hstep
  -- A registration, from its address to its session and its identity.
  | ensureEmailAvailable r =>
    simp only [Accounts.step] at hstep
    split at hstep
    · rename_i hr
      cases hstep
      exact inv_ensureEmailAvailable hrec hr
    · cases hstep
  | requireApproval r =>
    simp only [Accounts.step] at hstep
    split at hstep
    · rename_i hr
      cases hstep
      exact inv_requireApproval hrec hr hmem
    · cases hstep
  | firstUserBootstrap r =>
    simp only [Accounts.step] at hstep
    split at hstep
    · rename_i hr
      cases hstep
      exact inv_firstUserBootstrap hrec hr hmem
    · cases hstep
  | createApprovedUser r =>
    simp only [Accounts.step] at hstep
    split at hstep
    · rename_i hr
      cases hstep
      exact inv_createApprovedUser hrec hr hmem
    · cases hstep
  | explainCollision r =>
    simp only [Accounts.step] at hstep
    split at hstep
    · cases hstep
      exact inv_explainCollision hrec r _ _
    · cases hstep
  | openSession r =>
    simp only [Accounts.step] at hstep
    split at hstep
    · rename_i hr
      cases hstep
      exact inv_openSession hrec hr
    · cases hstep
      exact inv_answer hrec r _
    · cases hstep
  | recordIdentity r =>
    simp only [Accounts.step] at hstep
    split at hstep
    · rename_i hr
      cases hstep
      exact inv_recordIdentity hrec hr hmem
    · cases hstep
  -- A link, from a flow of the account or by the password of a pending link.
  | loadLinkUser r =>
    simp only [Accounts.step] at hstep
    split at hstep
    · rename_i hr
      cases hstep
      exact inv_loadLinkUser hrec hr
    · cases hstep
  | completeLink r =>
    simp only [Accounts.step] at hstep
    split at hstep
    · rename_i hr
      cases hstep
      exact inv_completeLink hrec hr hmem
    · cases hstep
  | confirmPendingLink r pendingLinkId password =>
    simp only [Accounts.step] at hstep
    split at hstep
    · cases hstep
      exact inv_confirmPendingLink hrec hmem
    · cases hstep
  | verifyOwner r =>
    simp only [Accounts.step] at hstep
    split at hstep
    · rename_i hr
      cases hstep
      exact inv_verifyOwner hrec hr hmem
    · cases hstep
  | commitConfirmed r =>
    simp only [Accounts.step] at hstep
    split at hstep
    · rename_i hr
      cases hstep
      exact inv_commitConfirmed hrec hr hmem
    · cases hstep
  -- The removal of an identity justifies nothing.
  | unlink r =>
    simp only [Accounts.step] at hstep
    split at hstep
    · cases hstep
      exact inv_unlink hrec r _ _
    · cases hstep
  | checkRemaining r =>
    simp only [Accounts.step] at hstep
    split at hstep
    · cases hstep
      exact inv_checkRemaining hrec r _ _
    · cases hstep
  | removeIdentity r =>
    simp only [Accounts.step] at hstep
    split at hstep
    · cases hstep
      exact inv_removeIdentity hrec r _
    · cases hstep
  | crash r =>
    cases hstep
    exact inv_setRequest hrec trivial

theorem inv_initial : Inv cfg [] Accounts.initial where
  flows _ h := absurd h not_mem_nil
  pendingLinks _ h := absurd h not_mem_nil
  identities _ h := absurd h not_mem_nil
  requests _ := trivial
  past _ _ h := absurd h not_mem_nil
  seed u hu _ := by
    rw [mem_singleton.mp hu]
  aboveSeed := by decide
  listed _ _ h := absurd h not_mem_nil

/-- Password logins change nothing but themselves. -/
theorem base_login (s : Recorded) (l : Nat) (email password : String) :
    (login cfg s l email password).base = s.base ∧
      (login cfg s l email password).history = s.history := by
  unfold login
  split
  · exact ⟨rfl, rfl⟩
  · split
    · exact ⟨rfl, rfl⟩
    · split
      · exact ⟨rfl, rfl⟩
      · exact ⟨rfl, rfl⟩

theorem inv_recorded {s' : Recorded} {e : Event} (h : Inv cfg s.history s.base)
    (hstep : step cfg s e = some s') : Inv cfg s'.history s'.base := by
  cases e with
  | service a =>
    rcases Option.map_eq_some_iff.mp hstep with ⟨base, hbase, rfl⟩
    exact inv_step h hbase
  | login l email password =>
    simp only [step] at hstep
    split at hstep
    · have hsame := @base_login cfg s l email password
      rw [← Option.some.inj hstep, hsame.1, hsame.2]
      exact h
    · cases hstep
  | openSession l =>
    simp only [step] at hstep
    split at hstep
    · cases hstep
      exact h
    · cases hstep
  | crash l =>
    cases hstep
    exact h

theorem inv_reachable (h : (recorded cfg).Reachable s) : Inv cfg s.history s.base := by
  refine StepSystem.reachableBy_invariant (S := recorded cfg)
    (I := fun s => Inv cfg s.history s.base)
    (fun s₀ h₀ => ?_) (fun s e s' hinv _ hstep => ?_) h
  · have h₀ : s₀ = initial := h₀
    rw [h₀]
    exact inv_initial
  · exact inv_recorded hinv hstep

theorem sessionOrigin_seed {r : Nat} {user : User} (h : SessionOrigin cfg H r user) :
    user.id ≠ seedUserId := by
  cases h with
  | known existing hlooked huser hseed => exact hseed
  | confirmed t pending hstep hconfirmed => exact hconfirmed.2.2.1
  | registered provider identity hregistered => exact hregistered.2.1

/-- Identity rows have an origin, and so have the sessions that are opened through a
    provider. The seed user has no such session. -/
theorem identities_have_origins {s : Recorded} (h : (recorded cfg).Reachable s) :
    (∀ i ∈ s.base.identities, Origin cfg s.history i) ∧
      ∀ t r user, (t, Action.openSession r) ∈ s.history →
        (t.request r = .authenticated user ∨
          ∃ provider identity, t.request r = .created (.oauth provider identity) user) →
        SessionOrigin cfg s.history r user ∧ user.id ≠ seedUserId := by
  have hinv := inv_reachable h
  refine ⟨hinv.identities, fun t r user hmem hrequest => ?_⟩
  have horigin : SessionOrigin cfg s.history r user := by
    have hjust := hinv.past t _ hmem r
    rcases hrequest with hrequest | ⟨provider, identity, hrequest⟩
    · rw [hrequest] at hjust
      exact hjust
    · rw [hrequest] at hjust
      exact SessionOrigin.registered provider identity hjust
  exact ⟨horigin, sessionOrigin_seed horigin⟩

end Runs

section Examples

def twoProviders : Settings :=
  { hashState := id
    normalize := id
    hashPassword := id
    verifyPassword := fun passwordHash password => passwordHash == password
    isConfigured := fun _ => true
    development := false }

def ownerIdentity : OAuthIdentityInfo :=
  { subject := "108234"
    email := some "owner@example.com"
    emailVerified := true
    displayName := none }

/-- An owner who links a provider, and a login by it that has found the row when the
    owner unlinks it. -/
def unlinkedLogin : List Event :=
  ([.register 0 "owner@example.com" "password", .ensureEmailAvailable 0, .requireApproval 0,
    .firstUserBootstrap 0, .createApprovedUser 0, .openSession 0,
    .startLink 1 1 "google" "link", .completeCallback 2 "google" "link" (some "code") none,
    .consumeFlow 2, .resolveIdentity 2 (some ownerIdentity), .loadLinkUser 2, .completeLink 2,
    .startLogin 3 "google" "login", .completeCallback 4 "google" "login" (some "code") none,
    .consumeFlow 4, .resolveIdentity 4 (some ownerIdentity), .completeLogin 4, .loadAccount 4,
    .currentUser 5 1 "google", .unlink 5, .removeIdentity 5] : List Action).map Event.service

def unlinkedState : Recorded :=
  ((recorded twoProviders).exec initial unlinkedLogin).getD initial

def openedState : Recorded :=
  (step twoProviders unlinkedState (.service (.openSession 4))).getD initial

/-- The account of the runs above. -/
def owner : User :=
  { id := 1, email := "owner@example.com", passwordHash := some "password", isActive := true }

theorem identities_have_origins_login :
    SessionOrigin twoProviders openedState.history 4 owner ∧ owner.id ≠ seedUserId := by
  have hrun : (recorded twoProviders).exec initial
      (unlinkedLogin ++ [.service (.openSession 4)]) = some openedState := rfl
  have hhistory : openedState.history =
      unlinkedState.history ++ [(unlinkedState.base, Action.openSession 4)] := rfl
  have hmem : (unlinkedState.base, Action.openSession 4) ∈ openedState.history := by
    rw [hhistory]
    exact mem_append_right _ (mem_singleton_self _)
  exact (identities_have_origins (StepSystem.reachable_of_exec rfl hrun)).2 _ 4 owner hmem
    (.inl rfl)

/-- A session is opened through an identity when no identity row is left, and the
    request neither confirmed a link nor created an account. -/
theorem session_after_unlink :
    (recorded twoProviders).Reachable openedState ∧
      openedState.history = unlinkedState.history ++ [(unlinkedState.base, Action.openSession 4)] ∧
      unlinkedState.base.request 4 = .authenticated owner ∧ unlinkedState.base.identities = [] ∧
      ∀ a ∈ openedState.history.map Prod.snd,
        a ≠ .commitConfirmed 4 ∧ a ≠ .createApprovedUser 4 := by
  have hrun : (recorded twoProviders).exec initial
      (unlinkedLogin ++ [.service (.openSession 4)]) = some openedState := rfl
  refine ⟨StepSystem.reachable_of_exec rfl hrun, rfl, rfl, rfl, ?_⟩
  decide

end Examples

end Origins

end Partha
