import Mathlib.Data.List.Pairwise
import Partha.Auth.Accounts

/-!
# Single-Use Flows

`start` and `complete_callback` of `OAuthService`, for the flow rows and for the
code exchanges that they lead to.

`Accounts` follows what a callback makes of the identity. Here that is left open,
and what counts is which callbacks get so far. A callback reads the flow row of
the state it was given, deletes it and commits, and then exchanges the code. These
are separate steps. The deletion is by the identifier of the row, and a deletion
that finds no row commits like any other. So what a callback knows at its exchange
is that it has read the row, not that it was the one to delete it.

The client of the exchange comes from the route. The row has a provider too, but
nothing reads it.

Raw states come from `token_urlsafe`, so a state that is issued has a hash that was
not issued before. `issued`, `exchanges` and `outcomes` are not tables. They record
what has happened.

## Main definitions

* `Flow`: The row of a flow, with its verifier and nonce.
* `Request`: What a request has read and where it stands.
* `start`, `completeCallback`, `consumeFlow`, `resolveIdentity`, `finish`: The steps.
* `flows`: The system of all interleavings.
* `SingleUse`, `OwnFlow`, `OwnProvider`: What a flow is meant to guarantee.
* `ClaimsFlow`: The steps that keep the guarantee.

## Theorems

* `inv_step`, `claimed_step`: What steps keep, and what those steps keep.
* `flows_single_use`: When a flow is used once, and by its own provider.
-/

namespace Partha

namespace Flows

open Accounts (Intent Settings flowTtlSeconds invalidOauthState providerUnavailable)
open List

section Definitions

/-- `OAuthFlowState`, with the secrets of the exchange. -/
structure Flow extends Accounts.OAuthFlowState where
  codeVerifier : Option String
  nonce : Option String
  deriving DecidableEq, Repr

/-- `OAuthLoginResult.kind`. -/
inductive Kind where
  | session
  | linked
  | pendingLink
  | error
  deriving DecidableEq, Repr

/-- A request, by the last step it took and what that step read. -/
inductive Request where
  | idle
  | started
  | flowRead (provider state : String) (flow : Flow) (code providerError : Option String)
  | exchanging (provider state : String) (flow : Flow) (code : String)
  | identified (state : String) (flow : Flow)
  | answered (kind : Kind)
  | validationError (message : String)
  | crashed
  deriving DecidableEq, Repr

/-- The arguments of `resolve_identity`, the client it is called on, and the state
    that the callback was given. -/
structure Exchange where
  state : String
  provider : String
  code : String
  redirectUri : String
  codeVerifier : Option String
  nonce : Option String
  deriving DecidableEq, Repr

/-- A session, a link or a pending link. -/
structure Outcome where
  state : String
  kind : Kind
  deriving DecidableEq, Repr

/-- The flow rows and the requests, and what has happened. -/
structure State where
  flows : List Flow
  now : Nat
  nextUuid : Nat
  request : Nat → Request
  issued : List Flow
  exchanges : List Exchange
  outcomes : List Outcome

def State.setRequest (s : State) (r : Nat) (q : Request) : State :=
  { s with request := fun r' => if r' = r then q else s.request r' }

theorem setRequest_self (s : State) (r : Nat) (q : Request) : (s.setRequest r q).request r = q :=
  if_pos rfl

theorem setRequest_other (s : State) {r r' : Nat} (q : Request) (h : r' ≠ r) :
    (s.setRequest r q).request r' = s.request r' :=
  if_neg h

/-- `_KNOWN_PROVIDERS`. -/
def knownProviders : List String :=
  ["google", "github"]

/-- `redirect_uri`. -/
def redirectUri (publicBaseUrl provider : String) : String :=
  publicBaseUrl ++ "/auth/oauth/" ++ provider ++ "/callback"

/-- What the provider and the rest of the service make of an exchange that
    succeeds: a link flow links, and a login flow does not. -/
def allows (intent : Intent) (kind : Kind) : Bool :=
  match intent, kind with
  | .link, .linked | .link, .error | .login, .session | .login, .pendingLink | .login, .error =>
    true
  | _, _ => false

variable (cfg : Settings) (publicBaseUrl : String)

/-- `start`, with the secrets that it draws. -/
def start (s : State) (r : Nat) (provider : String) (intent : Intent) (linkUserId : Option Nat)
    (state : String) (codeVerifier nonce : Option String) : Option State :=
  if provider ∉ knownProviders then
    some (s.setRequest r (.validationError ("Unsupported provider: " ++ provider)))
  else if cfg.isConfigured provider = false then
    some (s.setRequest r (.validationError providerUnavailable))
  else if ∃ f ∈ s.issued, f.stateHash = cfg.hashState state then none
  else
    let flow : Flow :=
      { id := s.nextUuid
        stateHash := cfg.hashState state
        provider := provider
        intent := intent
        linkUserId := linkUserId
        expiresAt := s.now + flowTtlSeconds
        codeVerifier := codeVerifier
        nonce := nonce }
    some (({ s with
      flows := s.flows ++ [flow]
      issued := s.issued ++ [flow]
      nextUuid := s.nextUuid + 1 } : State).setRequest r .started)

/-- The callback route, and `complete_callback` up to the flow row. -/
def completeCallback (s : State) (r : Nat) (provider : String) (state : Option String)
    (code providerError : Option String) : State :=
  if provider ∉ knownProviders then
    s.setRequest r (.validationError ("Unsupported provider: " ++ provider))
  else
    match state with
    | none => s.setRequest r (.validationError "Missing OAuth state.")
    | some state =>
      if state = "" then s.setRequest r (.validationError "Missing OAuth state.")
      else
        match s.flows.find? (fun f => f.stateHash = cfg.hashState state) with
        | none => s.setRequest r (.validationError invalidOauthState)
        | some flow =>
          if flow.expiresAt ≤ s.now then s.setRequest r (.validationError invalidOauthState)
          else s.setRequest r (.flowRead provider state flow code providerError)

/-- The code that a callback goes on to exchange, if it does. -/
def exchangedCode (provider : String) (code providerError : Option String) : Option String :=
  if providerError ≠ none then none
  else if code = none ∨ code = some "" then none
  else if cfg.isConfigured provider = false then none
  else code

/-- The deletion of the flow row and its commit. A row that another callback has
    deleted is no error. -/
def consumeFlow (s : State) (r : Nat) (provider state : String) (flow : Flow)
    (code providerError : Option String) : State :=
  let s' := { s with flows := s.flows.filter (fun f => f.id ≠ flow.id) }
  match exchangedCode cfg provider code providerError with
  | none => s'.setRequest r (.answered .error)
  | some code => s'.setRequest r (.exchanging provider state flow code)

/-- `resolve_identity`, which the provider answers with an identity or not. -/
def resolveIdentity (s : State) (r : Nat) (provider state : String) (flow : Flow) (code : String)
    (answered : Bool) : State :=
  let exchange : Exchange :=
    { state := state
      provider := provider
      code := code
      redirectUri := redirectUri publicBaseUrl provider
      codeVerifier := flow.codeVerifier
      nonce := flow.nonce }
  let s' := { s with exchanges := s.exchanges ++ [exchange] }
  if answered then s'.setRequest r (.identified state flow) else s'.setRequest r (.answered .error)

/-- `_complete_link` or `_complete_login`. -/
def finish (s : State) (r : Nat) (state : String) (flow : Flow) (kind : Kind) : Option State :=
  if allows flow.intent kind then
    if kind = .error then some (s.setRequest r (.answered .error))
    else
      some (({ s with outcomes := s.outcomes ++ [⟨state, kind⟩] } : State).setRequest r
        (.answered kind))
  else none

/-- What a request does next. -/
inductive Action where
  | tick
  | start (r : Nat) (provider : String) (intent : Intent) (linkUserId : Option Nat)
      (state : String) (codeVerifier nonce : Option String)
  | completeCallback (r : Nat) (provider : String) (state code providerError : Option String)
  | consumeFlow (r : Nat)
  | resolveIdentity (r : Nat) (answered : Bool)
  | finish (r : Nat) (kind : Kind)
  | crash (r : Nat)
  deriving DecidableEq, Repr

def step (s : State) : Action → Option State
  | .tick => some { s with now := s.now + 1 }
  | .start r provider intent linkUserId state codeVerifier nonce =>
    match s.request r with
    | .idle => start cfg s r provider intent linkUserId state codeVerifier nonce
    | _ => none
  | .completeCallback r provider state code providerError =>
    match s.request r with
    | .idle => some (completeCallback cfg s r provider state code providerError)
    | _ => none
  | .consumeFlow r =>
    match s.request r with
    | .flowRead provider state flow code providerError =>
      some (consumeFlow cfg s r provider state flow code providerError)
    | _ => none
  | .resolveIdentity r answered =>
    match s.request r with
    | .exchanging provider state flow code =>
      some (resolveIdentity publicBaseUrl s r provider state flow code answered)
    | _ => none
  | .finish r kind =>
    match s.request r with
    | .identified state flow => finish s r state flow kind
    | _ => none
  | .crash r => some (s.setRequest r .crashed)

/-- No flow has been started. -/
def initial : State :=
  { flows := []
    now := 0
    nextUuid := 0
    request := fun _ => .idle
    issued := []
    exchanges := []
    outcomes := [] }

/-- All interleavings of any number of requests. -/
def flows : StepSystem State Action :=
  { init := fun s => s = initial
    step := step cfg publicBaseUrl }

/-- A state leads to one exchange at most, and to one session, link or pending
    link at most. -/
def SingleUse (s : State) : Prop :=
  s.exchanges.Pairwise (fun e e' => cfg.hashState e.state ≠ cfg.hashState e'.state) ∧
    s.outcomes.Pairwise (fun o o' => cfg.hashState o.state ≠ cfg.hashState o'.state)

/-- The flow of an exchange, with its own verifier and nonce. -/
def OwnFlow (s : State) : Prop :=
  ∀ e ∈ s.exchanges, ∃ f ∈ s.issued, f.stateHash = cfg.hashState e.state ∧
    e.codeVerifier = f.codeVerifier ∧ e.nonce = f.nonce

/-- The provider of an exchange is the one that the state was issued for. -/
def OwnProvider (s : State) : Prop :=
  ∀ e ∈ s.exchanges, ∀ f ∈ s.issued, f.stateHash = cfg.hashState e.state →
    e.provider = f.provider

/-- A callback that goes on to an exchange deletes a row that is still there, and
    is the callback of its provider. -/
def ClaimsFlow (s : State) : Action → Prop
  | .consumeFlow r => ∀ provider state flow code providerError,
      s.request r = .flowRead provider state flow code providerError →
        exchangedCode cfg provider code providerError ≠ none →
          flow ∈ s.flows ∧ provider = flow.provider
  | _ => True

end Definitions

section Reads

variable {cfg : Settings} {publicBaseUrl : String}

/-- The state and the flow row that a request goes by. -/
def Request.reads : Request → Option (String × Flow)
  | .flowRead _ state flow _ _ => some (state, flow)
  | .exchanging _ state flow _ => some (state, flow)
  | .identified state flow => some (state, flow)
  | _ => none

/-- What holds in every interleaving. -/
structure Inv (cfg : Settings) (s : State) : Prop where
  stored : ∀ f ∈ s.flows, f ∈ s.issued
  hashes : s.issued.Pairwise (fun f f' => f.stateHash ≠ f'.stateHash)
  below : ∀ f ∈ s.issued, f.id < s.nextUuid
  reads : ∀ r state f, (s.request r).reads = some (state, f) →
    f ∈ s.issued ∧ f.stateHash = cfg.hashState state
  own : OwnFlow cfg s

theorem inv_initial : Inv cfg initial where
  stored _ h := absurd h not_mem_nil
  hashes := List.Pairwise.nil
  below _ h := absurd h not_mem_nil
  reads _ _ _ h := by cases h
  own _ h := absurd h not_mem_nil

variable {s s' : State} {q : Request} {r : Nat} {provider state : String} {flow : Flow}

theorem inv_setRequest (h : Inv cfg s) (r : Nat) (hq : ∀ state f, q.reads = some (state, f) →
      f ∈ s.issued ∧ f.stateHash = cfg.hashState state) : Inv cfg (s.setRequest r q) where
  stored := h.stored
  hashes := h.hashes
  below := h.below
  reads r' state f hr' := by
    by_cases hr : r' = r
    · rw [hr, setRequest_self] at hr'
      exact hq state f hr'
    · rw [setRequest_other s q hr] at hr'
      exact h.reads r' state f hr'
  own := h.own

theorem inv_quiet (h : Inv cfg s) (r : Nat) (hq : q.reads = none) : Inv cfg (s.setRequest r q) := by
  refine inv_setRequest h r (fun state f hread => ?_)
  rw [hq] at hread
  cases hread

/-- One row has the hash of a state. -/
theorem Inv.eq_of_hash (h : Inv cfg s) {f f' : Flow} (hf : f ∈ s.issued) (hf' : f' ∈ s.issued)
    (heq : f.stateHash = f'.stateHash) : f = f' := by
  have hsymm : Std.Symm (fun f f' : Flow => f.stateHash ≠ f'.stateHash) := ⟨fun _ _ => Ne.symm⟩
  by_contra hne
  exact h.hashes.forall hf hf' hne heq

theorem inv_start (h : Inv cfg s) {intent : Intent} {linkUserId : Option Nat}
    {codeVerifier nonce : Option String}
    (hstep : start cfg s r provider intent linkUserId state codeVerifier nonce = some s') :
    Inv cfg s' := by
  unfold start at hstep
  split at hstep
  · cases hstep
    exact inv_quiet h r rfl
  split at hstep
  · cases hstep
    exact inv_quiet h r rfl
  split at hstep
  · cases hstep
  rename_i hfresh
  cases hstep
  refine inv_quiet ?_ r rfl
  exact
    { stored := by
        intro f hf
        rcases mem_append.mp hf with hf | hf
        · exact mem_append_left _ (h.stored f hf)
        · exact mem_append_right _ hf
      hashes := by
        rw [pairwise_append]
        refine ⟨h.hashes, pairwise_singleton _ _, fun f hf f' hf' heq => hfresh ⟨f, hf, ?_⟩⟩
        rw [heq, mem_singleton.mp hf']
      below := by
        intro f hf
        rcases mem_append.mp hf with hf | hf
        · exact Nat.lt_succ_of_lt (h.below f hf)
        · rw [mem_singleton.mp hf]
          exact Nat.lt_succ_self s.nextUuid
      reads := fun r' state f hr' => by
        have hread := h.reads r' state f hr'
        exact ⟨mem_append_left _ hread.1, hread.2⟩
      own := by
        intro e he
        rcases h.own e he with ⟨f, hf, hown⟩
        exact ⟨f, mem_append_left _ hf, hown⟩ }

theorem inv_completeCallback (h : Inv cfg s) (r : Nat) (provider : String)
    (state code providerError : Option String) :
    Inv cfg (completeCallback cfg s r provider state code providerError) := by
  unfold completeCallback
  split
  · exact inv_quiet h r rfl
  split
  · exact inv_quiet h r rfl
  split
  · exact inv_quiet h r rfl
  split
  · exact inv_quiet h r rfl
  · rename_i hfind
    split
    · exact inv_quiet h r rfl
    · refine inv_setRequest h r (fun state f hread => ?_)
      cases hread
      have hhash := List.find?_some hfind
      exact ⟨h.stored _ (mem_of_find?_eq_some hfind), of_decide_eq_true hhash⟩

theorem inv_consumeFlow (h : Inv cfg s) {code providerError : Option String}
    (hr : s.request r = .flowRead provider state flow code providerError) :
    Inv cfg (consumeFlow cfg s r provider state flow code providerError) := by
  have hdeleted : Inv cfg { s with flows := s.flows.filter (fun f => f.id ≠ flow.id) } :=
    { stored := fun f hf => h.stored f (mem_filter.mp hf).1
      hashes := h.hashes
      below := h.below
      reads := h.reads
      own := h.own }
  unfold consumeFlow
  dsimp only
  split
  · exact inv_quiet hdeleted r rfl
  · refine inv_setRequest hdeleted r (fun state' f hread => ?_)
    cases hread
    exact h.reads r state flow (by rw [hr]; rfl)

theorem inv_resolveIdentity (h : Inv cfg s) {code : String}
    (hr : s.request r = .exchanging provider state flow code) (answered : Bool) :
    Inv cfg (resolveIdentity publicBaseUrl s r provider state flow code answered) := by
  have hread := h.reads r state flow (by rw [hr]; rfl)
  unfold resolveIdentity
  dsimp only
  have hmade : ∀ e : Exchange, e.state = state → e.codeVerifier = flow.codeVerifier →
      e.nonce = flow.nonce → Inv cfg { s with exchanges := s.exchanges ++ [e] } := by
    intro e hstate hverifier hnonce
    refine ⟨h.stored, h.hashes, h.below, h.reads, fun e' he' => ?_⟩
    rcases mem_append.mp he' with he' | he'
    · exact h.own e' he'
    · rw [mem_singleton.mp he', hstate]
      exact ⟨flow, hread.1, hread.2, hverifier, hnonce⟩
  split
  · refine inv_setRequest (hmade _ rfl rfl rfl) r (fun state' f hread' => ?_)
    cases hread'
    exact hread
  · exact inv_quiet (hmade _ rfl rfl rfl) r rfl

theorem inv_finish (h : Inv cfg s) {kind : Kind} (hstep : finish s r state flow kind = some s') :
    Inv cfg s' := by
  unfold finish at hstep
  split at hstep
  · split at hstep
    · cases hstep
      exact inv_quiet h r rfl
    · cases hstep
      have hmade : Inv cfg { s with outcomes := s.outcomes ++ [⟨state, kind⟩] } :=
        ⟨h.stored, h.hashes, h.below, h.reads, h.own⟩
      exact inv_quiet hmade r rfl
  · cases hstep

/-- Steps keep what holds in every interleaving. -/
theorem inv_step {a : Action} (h : Inv cfg s) (hstep : step cfg publicBaseUrl s a = some s') :
    Inv cfg s' := by
  cases a with
  | tick =>
    cases hstep
    exact ⟨h.stored, h.hashes, h.below, h.reads, h.own⟩
  | start r provider intent linkUserId state codeVerifier nonce =>
    simp only [step] at hstep
    split at hstep
    · exact inv_start h hstep
    · cases hstep
  | completeCallback r provider state code providerError =>
    simp only [step] at hstep
    split at hstep
    · cases hstep
      exact inv_completeCallback h r provider state code providerError
    · cases hstep
  | consumeFlow r =>
    simp only [step] at hstep
    split at hstep
    · rename_i hr
      cases hstep
      exact inv_consumeFlow h hr
    · cases hstep
  | resolveIdentity r answered =>
    simp only [step] at hstep
    split at hstep
    · rename_i hr
      cases hstep
      exact inv_resolveIdentity h hr answered
    · cases hstep
  | finish r kind =>
    simp only [step] at hstep
    split at hstep
    · exact inv_finish h hstep
    · cases hstep
  | crash r =>
    cases hstep
    exact inv_quiet h r rfl

theorem inv_reachable {ok : State → Action → Prop}
    (h : (flows cfg publicBaseUrl).ReachableBy ok s) :
    Inv cfg s := by
  refine StepSystem.reachableBy_invariant (fun s₀ h₀ => ?_) (fun s a s' hinv _ hstep => ?_) h
  · have h₀ : s₀ = initial := h₀
    rw [h₀]
    exact inv_initial
  · exact inv_step hinv hstep

end Reads

section Claims

variable {cfg : Settings} {publicBaseUrl : String}

/-- The flow that a request has claimed for its exchange. -/
def Request.holds : Request → Option Flow
  | .exchanging _ _ flow _ => some flow
  | .identified _ flow => some flow
  | _ => none

variable {q : Request} {s s' : State} {r : Nat} {provider state : String} {flow : Flow}

theorem reads_of_holds {f : Flow} (h : q.holds = some f) : ∃ state, q.reads = some (state, f) := by
  cases q with
  | exchanging provider state flow code | identified state flow =>
    cases h
    exact ⟨state, rfl⟩
  | idle => cases h
  | started => cases h
  | flowRead => cases h
  | answered => cases h
  | validationError => cases h
  | crashed => cases h

/-- What holds if callbacks claim their flows: one request at most holds a flow, the
    row of a flow that is held or spent is gone, and an exchange is the first. -/
structure Claimed (cfg : Settings) (s : State) : Prop where
  alone : ∀ r r' f f', (s.request r).holds = some f → (s.request r').holds = some f' →
    f.stateHash = f'.stateHash → r = r'
  gone : ∀ r f, (s.request r).holds = some f → ∀ f' ∈ s.flows, f'.stateHash ≠ f.stateHash
  spent : ∀ e ∈ s.exchanges, ∀ f ∈ s.flows, f.stateHash ≠ cfg.hashState e.state
  waiting : ∀ r provider state f code, s.request r = .exchanging provider state f code →
    provider = f.provider ∧ ∀ e ∈ s.exchanges, cfg.hashState e.state ≠ f.stateHash
  exchanged : ∀ r state f, s.request r = .identified state f →
    ∃ e ∈ s.exchanges, cfg.hashState e.state = f.stateHash
  finished : ∀ o ∈ s.outcomes, (∃ e ∈ s.exchanges, cfg.hashState e.state = cfg.hashState o.state) ∧
    ∀ r f, (s.request r).holds = some f → f.stateHash ≠ cfg.hashState o.state
  once : SingleUse cfg s
  provider : OwnProvider cfg s

theorem claimed_initial : Claimed cfg initial where
  alone _ _ _ _ h := by cases h
  gone _ _ h := by cases h
  spent _ h := absurd h not_mem_nil
  waiting _ _ _ _ _ h := by cases h
  exchanged _ _ _ h := by cases h
  finished _ h := absurd h not_mem_nil
  once := ⟨List.Pairwise.nil, List.Pairwise.nil⟩
  provider _ h := absurd h not_mem_nil

/-- A request goes on without a flow. -/
theorem claimed_quiet (h : Claimed cfg s) (r : Nat) (hq : q.holds = none) :
    Claimed cfg (s.setRequest r q) := by
  have hother : ∀ r' f, ((s.setRequest r q).request r').holds = some f →
      r' ≠ r ∧ (s.request r').holds = some f := by
    intro r' f hf
    by_cases hr : r' = r
    · rw [hr, setRequest_self, hq] at hf
      cases hf
    · rw [setRequest_other s q hr] at hf
      exact ⟨hr, hf⟩
  exact
    { alone := fun r₁ r₂ f f' h₁ h₂ =>
        h.alone r₁ r₂ f f' (hother r₁ f h₁).2 (hother r₂ f' h₂).2
      gone := fun r' f hr' => h.gone r' f (hother r' f hr').2
      spent := h.spent
      waiting := by
        intro r' provider state f code hr'
        have hne := (hother r' f (by rw [hr']; rfl)).1
        rw [setRequest_other s q hne] at hr'
        exact h.waiting r' provider state f code hr'
      exchanged := by
        intro r' state f hr'
        have hne := (hother r' f (by rw [hr']; rfl)).1
        rw [setRequest_other s q hne] at hr'
        exact h.exchanged r' state f hr'
      finished := fun o ho =>
        ⟨(h.finished o ho).1, fun r' f hr' => (h.finished o ho).2 r' f (hother r' f hr').2⟩
      once := h.once
      provider := h.provider }

/-- Rows that are deleted are in nobody's way. -/
theorem claimed_deleted (h : Claimed cfg s) (p : Flow → Bool) :
    Claimed cfg { s with flows := s.flows.filter p } where
  alone := h.alone
  gone r f hr f' hf' := h.gone r f hr f' (mem_filter.mp hf').1
  spent e he f hf := h.spent e he f (mem_filter.mp hf).1
  waiting := h.waiting
  exchanged := h.exchanged
  finished := h.finished
  once := h.once
  provider := h.provider

theorem claimed_start (hinv : Inv cfg s) (h : Claimed cfg s) {intent : Intent}
    {linkUserId : Option Nat} {codeVerifier nonce : Option String}
    (hstep : start cfg s r provider intent linkUserId state codeVerifier nonce = some s') :
    Claimed cfg s' := by
  unfold start at hstep
  split at hstep
  · cases hstep
    exact claimed_quiet h r rfl
  split at hstep
  · cases hstep
    exact claimed_quiet h r rfl
  split at hstep
  · cases hstep
  rename_i hfresh
  cases hstep
  -- The hash of the new row is not the one of a flow that is held or spent.
  have hold : ∀ f ∈ s.issued, f.stateHash ≠ cfg.hashState state :=
    fun f hf heq => hfresh ⟨f, hf, heq⟩
  refine claimed_quiet ?_ r rfl
  exact
    { alone := h.alone
      gone := by
        intro r' f hr' f' hf'
        rcases mem_append.mp hf' with hf' | hf'
        · exact h.gone r' f hr' f' hf'
        · rcases reads_of_holds hr' with ⟨state', hread⟩
          rw [mem_singleton.mp hf']
          exact (hold f (hinv.reads r' state' f hread).1).symm
      spent := by
        intro e he f hf
        rcases mem_append.mp hf with hf | hf
        · exact h.spent e he f hf
        · rcases hinv.own e he with ⟨f', hf', hhash, _⟩
          rw [mem_singleton.mp hf, ← hhash]
          exact (hold f' hf').symm
      waiting := h.waiting
      exchanged := h.exchanged
      finished := h.finished
      once := h.once
      provider := by
        intro e he f hf hhash
        rcases mem_append.mp hf with hf | hf
        · exact h.provider e he f hf hhash
        · rcases hinv.own e he with ⟨f', hf', hhash', _⟩
          rw [mem_singleton.mp hf] at hhash
          exact absurd (hhash'.trans hhash.symm) (hold f' hf') }

theorem claimed_completeCallback (h : Claimed cfg s) (r : Nat) (provider : String)
    (state code providerError : Option String) :
    Claimed cfg (completeCallback cfg s r provider state code providerError) := by
  unfold completeCallback
  split
  · exact claimed_quiet h r rfl
  split
  · exact claimed_quiet h r rfl
  split
  · exact claimed_quiet h r rfl
  split
  · exact claimed_quiet h r rfl
  · split
    · exact claimed_quiet h r rfl
    · exact claimed_quiet h r rfl

/-- A callback that deletes a row that is still there holds its flow alone. -/
theorem claimed_consumeFlow (hinv : Inv cfg s) (h : Claimed cfg s)
    {code providerError : Option String}
    (hr : s.request r = .flowRead provider state flow code providerError)
    (hok : exchangedCode cfg provider code providerError ≠ none →
      flow ∈ s.flows ∧ provider = flow.provider) :
    Claimed cfg (consumeFlow cfg s r provider state flow code providerError) := by
  have hread := hinv.reads r state flow (by rw [hr]; rfl)
  have hdeleted := claimed_deleted h (fun f => f.id ≠ flow.id)
  unfold consumeFlow
  dsimp only
  split
  · exact claimed_quiet hdeleted r rfl
  · rename_i code' hcode
    rcases hok (by rw [hcode]; nofun) with ⟨hstored, hprovider⟩
    -- While the row is there, nobody holds the flow and nothing was exchanged for it.
    have hfree : ∀ r' f, (s.request r').holds = some f → f.stateHash ≠ flow.stateHash :=
      fun r' f hf heq => h.gone r' f hf flow hstored heq.symm
    have hunspent : ∀ e ∈ s.exchanges, cfg.hashState e.state ≠ flow.stateHash :=
      fun e he heq => h.spent e he flow hstored heq.symm
    have hcleared : ∀ f ∈ s.flows.filter (fun f => f.id ≠ flow.id),
        f.stateHash ≠ flow.stateHash := by
      intro f hf heq
      rcases mem_filter.mp hf with ⟨hf, hid⟩
      have hsame := hinv.eq_of_hash (hinv.stored f hf) hread.1 heq
      rw [hsame] at hid
      exact of_decide_eq_true hid rfl
    -- The request is the first to hold the flow.
    exact
      { alone := by
          intro r₁ r₂ f f' h₁ h₂ heq
          by_cases hr₁ : r₁ = r
          · by_cases hr₂ : r₂ = r
            · rw [hr₁, hr₂]
            · rw [hr₁, setRequest_self] at h₁
              rw [setRequest_other _ _ hr₂] at h₂
              cases h₁
              exact absurd heq.symm (hfree r₂ f' h₂)
          · rw [setRequest_other _ _ hr₁] at h₁
            by_cases hr₂ : r₂ = r
            · rw [hr₂, setRequest_self] at h₂
              cases h₂
              exact absurd heq (hfree r₁ f h₁)
            · rw [setRequest_other _ _ hr₂] at h₂
              exact h.alone r₁ r₂ f f' h₁ h₂ heq
        gone := by
          intro r' f hf f' hf'
          by_cases hr' : r' = r
          · rw [hr', setRequest_self] at hf
            cases hf
            exact hcleared f' hf'
          · rw [setRequest_other _ _ hr'] at hf
            exact hdeleted.gone r' f hf f' hf'
        spent := hdeleted.spent
        waiting := by
          intro r' provider' state' f code'' hr'
          by_cases hrr : r' = r
          · rw [hrr, setRequest_self] at hr'
            cases hr'
            exact ⟨hprovider, hunspent⟩
          · rw [setRequest_other _ _ hrr] at hr'
            exact h.waiting r' provider' state' f code'' hr'
        exchanged := by
          intro r' state' f hr'
          by_cases hrr : r' = r
          · rw [hrr, setRequest_self] at hr'
            cases hr'
          · rw [setRequest_other _ _ hrr] at hr'
            exact h.exchanged r' state' f hr'
        finished := by
          intro o ho
          refine ⟨(h.finished o ho).1, fun r' f hf => ?_⟩
          by_cases hrr : r' = r
          · rw [hrr, setRequest_self] at hf
            cases hf
            rcases (h.finished o ho).1 with ⟨e, he, hhash⟩
            rw [← hhash]
            exact (hunspent e he).symm
          · rw [setRequest_other _ _ hrr] at hf
            exact (h.finished o ho).2 r' f hf
        once := h.once
        provider := h.provider }

/-- The exchange of a flow that is held is the first one for its state. -/
theorem claimed_resolveIdentity (hinv : Inv cfg s) (h : Claimed cfg s) {code : String}
    (hr : s.request r = .exchanging provider state flow code) (answered : Bool) :
    Claimed cfg (resolveIdentity publicBaseUrl s r provider state flow code answered) := by
  have hread := hinv.reads r state flow (by rw [hr]; rfl)
  have hwait := h.waiting r provider state flow code hr
  have hheld : (s.request r).holds = some flow := by
    rw [hr]
    rfl
  -- The exchange is recorded, whatever the provider makes of it.
  have hmade : ∀ (e : Exchange) (q : Request), e.state = state → e.provider = provider →
      (q.holds = none ∨ q = .identified state flow) →
      Claimed cfg (({ s with exchanges := s.exchanges ++ [e] } : State).setRequest r q) := by
    intro e q hstate hprovider hq
    have hhash : cfg.hashState e.state = flow.stateHash := by rw [hstate, hread.2]
    -- What a request holds then it held before.
    have hkeep : ∀ r' f, ((({ s with exchanges := s.exchanges ++ [e] } : State).setRequest r
        q).request r').holds = some f → (s.request r').holds = some f := by
      intro r' f hf
      by_cases hrr : r' = r
      · rw [hrr, setRequest_self] at hf
        rcases hq with hq | hq
        · rw [hq] at hf
          cases hf
        · rw [hq] at hf
          cases hf
          rw [hrr]
          exact hheld
      · rw [setRequest_other _ _ hrr] at hf
        exact hf
    exact
      { alone := fun r₁ r₂ f f' h₁ h₂ => h.alone r₁ r₂ f f' (hkeep r₁ f h₁) (hkeep r₂ f' h₂)
        gone := fun r' f hf => h.gone r' f (hkeep r' f hf)
        -- The new exchange is the one of the flow that the request holds alone.
        spent := by
          intro e' he' f hf
          rcases mem_append.mp he' with he' | he'
          · exact h.spent e' he' f hf
          · rw [mem_singleton.mp he', hhash]
            exact h.gone r flow hheld f hf
        waiting := by
          intro r' provider' state' f code' hr'
          have hrr : r' ≠ r := by
            intro hrr
            rw [hrr, setRequest_self] at hr'
            rcases hq with hq | hq
            · rw [hr'] at hq
              cases hq
            · rw [hr'] at hq
              cases hq
          rw [setRequest_other _ _ hrr] at hr'
          refine ⟨(h.waiting r' provider' state' f code' hr').1, fun e' he' => ?_⟩
          rcases mem_append.mp he' with he' | he'
          · exact (h.waiting r' provider' state' f code' hr').2 e' he'
          · rw [mem_singleton.mp he', hhash]
            intro heq
            exact hrr (h.alone r' r f flow (by rw [hr']; rfl) hheld heq.symm)
        exchanged := by
          intro r' state' f hr'
          by_cases hrr : r' = r
          · rw [hrr, setRequest_self] at hr'
            rcases hq with hq | hq
            · rw [hr'] at hq
              cases hq
            · rw [hr'] at hq
              cases hq
              exact ⟨e, mem_append_right _ (mem_singleton_self e), hhash⟩
          · rw [setRequest_other _ _ hrr] at hr'
            rcases h.exchanged r' state' f hr' with ⟨e', he', heq⟩
            exact ⟨e', mem_append_left _ he', heq⟩
        finished := by
          intro o ho
          rcases (h.finished o ho).1 with ⟨e', he', heq⟩
          exact ⟨⟨e', mem_append_left _ he', heq⟩,
            fun r' f hf => (h.finished o ho).2 r' f (hkeep r' f hf)⟩
        once := by
          refine ⟨pairwise_append.mpr ⟨h.once.1, pairwise_singleton _ _, ?_⟩, h.once.2⟩
          intro e' he' e'' he''
          rw [mem_singleton.mp he'', hhash]
          exact hwait.2 e' he'
        provider := by
          intro e' he' f hf heq
          rcases mem_append.mp he' with he' | he'
          · exact h.provider e' he' f hf heq
          · rw [mem_singleton.mp he', hhash] at heq
            rw [mem_singleton.mp he', hprovider, hwait.1,
              hinv.eq_of_hash hf hread.1 heq] }
  unfold resolveIdentity
  dsimp only
  split
  · exact hmade _ _ rfl rfl (.inr rfl)
  · exact hmade _ _ rfl rfl (.inl rfl)

/-- The outcome of a flow that is held is the first one for its state. -/
theorem claimed_finish (hinv : Inv cfg s) (h : Claimed cfg s) {kind : Kind}
    (hr : s.request r = .identified state flow) (hstep : finish s r state flow kind = some s') :
    Claimed cfg s' := by
  have hread := hinv.reads r state flow (by rw [hr]; rfl)
  have hheld : (s.request r).holds = some flow := by
    rw [hr]
    rfl
  unfold finish at hstep
  split at hstep
  · split at hstep
    · cases hstep
      exact claimed_quiet h r rfl
    · cases hstep
      have hquiet : Claimed cfg (s.setRequest r (.answered kind)) := claimed_quiet h r rfl
      refine ⟨hquiet.alone, hquiet.gone, hquiet.spent, hquiet.waiting, hquiet.exchanged, ?_, ?_,
        hquiet.provider⟩
      · intro o ho
        rcases mem_append.mp ho with ho | ho
        · exact hquiet.finished o ho
        · rw [mem_singleton.mp ho]
          rcases h.exchanged r state flow hr with ⟨e, he, heq⟩
          refine ⟨⟨e, he, heq.trans hread.2⟩, fun r' f hf heq' => ?_⟩
          -- The only holder of the flow has just answered.
          by_cases hrr : r' = r
          · rw [hrr, setRequest_self] at hf
            cases hf
          · rw [setRequest_other _ _ hrr] at hf
            exact hrr (h.alone r' r f flow hf hheld (heq'.trans hread.2.symm))
      · refine ⟨h.once.1, pairwise_append.mpr ⟨h.once.2, pairwise_singleton _ _, ?_⟩⟩
        intro o ho o' ho'
        rw [mem_singleton.mp ho', ← hread.2]
        exact ((h.finished o ho).2 r flow hheld).symm
  · cases hstep

/-- Steps that claim their flows keep what follows from it. -/
theorem claimed_step {a : Action} (hinv : Inv cfg s) (h : Claimed cfg s) (hok : ClaimsFlow cfg s a)
    (hstep : step cfg publicBaseUrl s a = some s') : Claimed cfg s' := by
  cases a with
  | tick =>
    cases hstep
    exact ⟨h.alone, h.gone, h.spent, h.waiting, h.exchanged, h.finished, h.once, h.provider⟩
  | start r provider intent linkUserId state codeVerifier nonce =>
    simp only [step] at hstep
    split at hstep
    · exact claimed_start hinv h hstep
    · cases hstep
  | completeCallback r provider state code providerError =>
    simp only [step] at hstep
    split at hstep
    · cases hstep
      exact claimed_completeCallback h r provider state code providerError
    · cases hstep
  | consumeFlow r =>
    simp only [step] at hstep
    split at hstep
    · rename_i provider state flow code providerError hr
      cases hstep
      exact claimed_consumeFlow hinv h hr (hok provider state flow code providerError hr)
    · cases hstep
  | resolveIdentity r answered =>
    simp only [step] at hstep
    split at hstep
    · rename_i hr
      cases hstep
      exact claimed_resolveIdentity hinv h hr answered
    · cases hstep
  | finish r kind =>
    simp only [step] at hstep
    split at hstep
    · rename_i hr
      exact claimed_finish hinv h hr hstep
    · cases hstep
  | crash r =>
    cases hstep
    exact claimed_quiet h r rfl

theorem claimed_reachable (h : (flows cfg publicBaseUrl).ReachableBy (ClaimsFlow cfg) s) :
    Claimed cfg s := by
  have hboth : Inv cfg s ∧ Claimed cfg s := by
    refine StepSystem.reachableBy_invariant (I := fun s => Inv cfg s ∧ Claimed cfg s)
      (fun s₀ h₀ => ?_) (fun s a s' hinv hok hstep => ?_) h
    · have h₀ : s₀ = initial := h₀
      rw [h₀]
      exact ⟨inv_initial, claimed_initial⟩
    · exact ⟨inv_step hinv.1 hstep, claimed_step hinv.1 hinv.2 hok hstep⟩
  exact hboth.2

/-- Exchanges use the verifier and the nonce of their flow. In the runs whose
    callbacks claim their flows, a state is used once, and by its own provider. -/
theorem flows_single_use (cfg : Settings) (publicBaseUrl : String) :
    (∀ s, (flows cfg publicBaseUrl).Reachable s → OwnFlow cfg s) ∧
      ∀ s, (flows cfg publicBaseUrl).ReachableBy (ClaimsFlow cfg) s →
        SingleUse cfg s ∧ OwnProvider cfg s :=
  ⟨fun _ h => (inv_reachable h).own,
    fun _ h => ⟨(claimed_reachable h).once, (claimed_reachable h).provider⟩⟩

end Claims

section Examples

/-- A deployment with both providers. -/
def sampleSettings : Settings :=
  { hashState := id
    normalize := id
    hashPassword := id
    verifyPassword := fun passwordHash password => passwordHash == password
    isConfigured := fun _ => true
    development := false }

/-- Two states for two providers, whose callbacks overlap, and one that comes again. -/
def bothProviders : List Action :=
  [.start 0 "google" .login none "state" (some "verifier") (some "nonce"),
    .start 1 "github" .login none "other" none none,
    .completeCallback 2 "google" (some "state") (some "code") none,
    .completeCallback 3 "github" (some "other") (some "code") none,
    .consumeFlow 3, .consumeFlow 2, .completeCallback 4 "google" (some "state") (some "code") none,
    .resolveIdentity 2 true, .resolveIdentity 3 true, .finish 2 .session, .finish 3 .session]

theorem claimsFlow_of_read {cfg : Settings} {s : State} {r : Nat} {provider state : String}
    {flow : Flow} {code providerError : Option String}
    (hread : s.request r = .flowRead provider state flow code providerError)
    (hflow : flow ∈ s.flows) (hprovider : provider = flow.provider) :
    ClaimsFlow cfg s (.consumeFlow r) := by
  intro _ _ _ _ _ hread' _
  cases hread.symm.trans hread'
  exact ⟨hflow, hprovider⟩

/-- Both callbacks claim their flows, and each state leads to one session. -/
theorem flows_single_use_both :
    ∃ s, (flows sampleSettings "https://partha.example").exec initial bothProviders = some s ∧
      s.exchanges.length = 2 ∧ s.outcomes.length = 2 ∧
      s.request 4 = .validationError invalidOauthState ∧
      SingleUse sampleSettings s ∧ OwnProvider sampleSettings s := by
  have hmeets : (flows sampleSettings "https://partha.example").Meets (ClaimsFlow sampleSettings)
      initial bothProviders :=
    And.intro trivial (And.intro trivial (And.intro trivial (And.intro trivial
      (And.intro (claimsFlow_of_read rfl (by decide) rfl)
        (And.intro (claimsFlow_of_read rfl (by decide) rfl)
          (And.intro trivial (And.intro trivial (And.intro trivial (And.intro trivial
            (And.intro trivial trivial))))))))))
  exact ⟨_, rfl, rfl, rfl, rfl, (flows_single_use sampleSettings "https://partha.example").2 _
    ⟨initial, rfl, StepSystem.path_of_meets rfl hmeets⟩⟩

/-- Two callbacks read the row of one state before one of them deletes it. -/
def doubleCallback : List Action :=
  [.start 0 "google" .login none "state" (some "verifier") (some "nonce"),
    .completeCallback 1 "google" (some "state") (some "code") none,
    .completeCallback 2 "google" (some "state") (some "code") none,
    .consumeFlow 1, .consumeFlow 2, .resolveIdentity 1 true, .resolveIdentity 2 true,
    .finish 1 .session, .finish 2 .session]

/-- A state that was issued for one provider comes back by the route of the other. -/
def otherRoute : List Action :=
  [.start 0 "google" .login none "state" (some "verifier") (some "nonce"),
    .completeCallback 1 "github" (some "state") (some "code") none,
    .consumeFlow 1, .resolveIdentity 1 true]

/-- A state can be used twice, and by another provider. -/
theorem flows_used_twice :
    (∃ s, (flows sampleSettings "https://partha.example").Reachable s ∧
        ¬ SingleUse sampleSettings s) ∧
      ∃ s, (flows sampleSettings "https://partha.example").Reachable s ∧
        ¬ OwnProvider sampleSettings s := by
  have htwice : (flows sampleSettings "https://partha.example").exec initial doubleCallback =
    some _ := rfl
  have hother : (flows sampleSettings "https://partha.example").exec initial otherRoute =
    some _ := rfl
  refine ⟨⟨_, StepSystem.reachable_of_exec rfl htwice, fun h => ?_⟩,
    ⟨_, StepSystem.reachable_of_exec rfl hother, fun h => ?_⟩⟩
  · exact (pairwise_cons.mp h.1).1 _ (mem_singleton_self _) rfl
  · have hsame := h _ (mem_singleton_self _) _ (mem_singleton_self _) rfl
    exact absurd hsame (by decide)

end Examples

end Flows

end Partha
