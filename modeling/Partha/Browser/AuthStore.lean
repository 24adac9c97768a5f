import Mathlib.Data.List.Basic
import Partha.Library.Steps

/-!
# The Auth Store

`useAuthStore` with everything that writes to it, in one browser tab.

A login, a registration and a logout write when their request is answered, and so do
the refresh, the bootstrap and a call that ends in 401. Each of them writes whatever
the answer says. No request knows in which session it was sent, so a late answer is
written over what the user did in the meantime.

The model keeps the number of the session beside the store, and with every request
the number that it was sent in. It is not part of the code, which has no such number.

Access tokens are numbers, and each answer that has one has a new one. A user is
named by the token that it came with, or that `/auth/me` was asked with. So a token
and a user come from one answer exactly if they are the same number. A registration
is a login. An answer that leaves the store alone is `replyError`.

## Main definitions

* `Store`: The state of the store.
* `settle`: What the end of the shared refresh does.
* `authStore`: The system of all interleavings.
* `Current`: An answer arrives in the session that it belongs to.

## Theorems

* `follows_step`: Such a step keeps what the last user action did.
* `store_follows_user`: So does every run of such steps.
* `store_overtaken`: Late answers break each part of it.
-/

namespace Partha

namespace Browser

namespace AuthStore

section Model

inductive AuthStatus where
  | initialising
  | authenticated
  | unauthenticated
  deriving DecidableEq, Repr

/-- `AuthState`. -/
structure Store where
  status : AuthStatus
  accessToken : Option Nat
  user : Option Nat
  deriving DecidableEq, Repr

/-- `clearAuthenticatedState`. -/
def cleared : Store :=
  { status := .unauthenticated, accessToken := none, user := none }

/-- The state of an `AuthResponse`. -/
def adopted (token : Nat) : Store :=
  { status := .authenticated, accessToken := some token, user := some token }

inductive CallPhase where
  | sent (isRetry : Bool)
  | recovering
  deriving DecidableEq, Repr

/-- A call of the API, with the token and the session that it was last sent with. The call of
    `/auth/me` is one of the bootstrap. -/
structure Call where
  token : Option Nat
  session : Nat
  phase : CallPhase
  bootstrap : Bool
  deriving DecidableEq, Repr

inductive Bootstrap where
  | refreshing
  | identifying
  deriving DecidableEq, Repr

/-- What the user did last. -/
inductive LastAction where
  | opened
  | signedIn
  | signedOut
  deriving DecidableEq, Repr

/-- The store, the requests and what the user did. `refresh` is the session in which the shared
    refresh was last sent, and a login knows how many times the user had signed out. The store was
    `spoiled` if an earlier session cleared or replaced the token or the user of a later one. -/
structure State where
  store : Store
  logins : List Nat
  logouts : Nat
  refresh : Option Nat
  calls : List Call
  boot : Option Bootstrap
  nextToken : Nat
  session : Nat
  signOuts : Nat
  last : LastAction
  spoiled : Bool
  deriving DecidableEq, Repr

inductive Action where
  | login
  | loginOk (i : Nat)
  | loginFail (i : Nat)
  | setSession
  | logout
  | logoutDone
  | accountDeleted
  | bootstrap
  | call
  | resend (i : Nat)
  | replyOk (i : Nat)
  | replyUnauthorized (i : Nat)
  | replyError (i : Nat)
  | refreshResend
  | refreshOk
  | refreshFail
  deriving DecidableEq, Repr

/-- The session of the user begins with a new token. -/
def signIn (s : State) (last : LastAction) : State :=
  { s with
    store := adopted s.nextToken
    nextToken := s.nextToken + 1
    session := s.session + 1
    last := last }

/-- The user signs out. -/
def signOut (s : State) : State :=
  { s with
    store := cleared
    session := s.session + 1
    signOuts := s.signOuts + 1
    last := .signedOut }

/-- An answer that was sent for in a `session` writes the store. -/
def write (s : State) (session : Nat) (store : Store) : State :=
  { s with
    store := store
    spoiled := s.spoiled || (session ≠ s.session && s.last = .signedIn &&
      (store.accessToken ≠ s.store.accessToken || store.user ≠ s.store.user)) }

/-- `requestSharedRefresh`. -/
def requestSharedRefresh (s : State) : State :=
  match s.refresh with
  | some _ => s
  | none => { s with refresh := some s.session }

/-- A call is sent, or sent again, with the token of the store. -/
def Call.send (s : State) (isRetry : Bool) (c : Call) : Call :=
  { c with token := s.store.accessToken, session := s.session, phase := .sent isRetry }

/-- The call of `/auth/me`, if the bootstrap waited for the refresh. -/
def identification (s : State) : List Call :=
  if s.boot = some .refreshing then
    [{ token := s.store.accessToken, session := s.session, phase := .sent false,
       bootstrap := true }]
  else []

/-- Who waited for the refresh goes on after it succeeded. -/
def resume (s : State) : State :=
  { s with
    refresh := none
    calls := s.calls.map (fun c => if c.phase = .recovering then c.send s true else c) ++
      identification s
    boot := if s.boot = some .refreshing then some .identifying else s.boot }

/-- Who waited for the refresh gives up after it failed. The store is cleared already. -/
def giveUp (s : State) : State :=
  { s with
    refresh := none
    calls := s.calls.filter (fun c => c.phase ≠ .recovering)
    boot :=
      if s.boot = some .refreshing ∨ s.calls.any (fun c => c.bootstrap && c.phase = .recovering)
      then none else s.boot }

/-- A call is over. -/
def finish (s : State) (i : Nat) (c : Call) : State :=
  { s with
    calls := s.calls.eraseIdx i
    boot := if c.bootstrap then none else s.boot }

/-- One step of the tab or of the server. -/
def step (s : State) : Action → Option State
  | .login => some { s with logins := s.logins ++ [s.signOuts] }
  | .loginOk i =>
    match s.logins[i]? with
    | some signOuts =>
      some { signIn s (if signOuts = s.signOuts then .signedIn else s.last) with
        logins := s.logins.eraseIdx i }
    | none => none
  | .loginFail i => some { s with logins := s.logins.eraseIdx i }
  | .setSession => some (signIn s .signedIn)
  | .logout => some { s with logouts := s.logouts + 1 }
  | .logoutDone =>
    if s.logouts = 0 then none
    else some { signOut s with logouts := s.logouts - 1 }
  | .accountDeleted => some (signOut s)
  | .bootstrap =>
    match s.boot with
    | none => some (requestSharedRefresh { s with boot := some .refreshing })
    | some _ => some s
  | .call =>
    some { s with
      calls := s.calls ++
        [{ token := s.store.accessToken, session := s.session, phase := .sent false,
           bootstrap := false }] }
  | .resend i =>
    match s.calls[i]? with
    | some c =>
      if c.phase = .recovering then none
      else some { s with calls := s.calls.set i (c.send s false) }
    | none => none
  | .replyOk i =>
    match s.calls[i]? with
    | some c =>
      if c.phase = .recovering then none
      else if c.bootstrap then
        match c.token with
        | some token =>
          some (finish (write s c.session
            { s.store with status := .authenticated, user := some token }) i c)
        | none => none
      else some (finish s i c)
    | none => none
  | .replyUnauthorized i =>
    match s.calls[i]? with
    | some c => match c.phase with
      | .sent false =>
        some (requestSharedRefresh
          { s with calls := s.calls.set i { c with phase := .recovering } })
      | .sent true => some (finish (write s c.session cleared) i c)
      | .recovering => none
    | none => none
  | .replyError i =>
    match s.calls[i]? with
    | some c =>
      if c.phase = .recovering then none
      else if c.bootstrap then some (finish (write s c.session cleared) i c)
      else some (finish s i c)
    | none => none
  | .refreshResend =>
    match s.refresh with
    | some _ => some { s with refresh := some s.session }
    | none => none
  | .refreshOk =>
    match s.refresh with
    | some session =>
      some (resume { write s session (adopted s.nextToken) with nextToken := s.nextToken + 1 })
    | none => none
  | .refreshFail =>
    match s.refresh with
    | some session => some (giveUp (write s session cleared))
    | none => none

/-- The store as it is created. -/
def initial : State :=
  { store := { status := .initialising, accessToken := none, user := none }
    logins := [], logouts := 0, refresh := none, calls := [], boot := none, nextToken := 0
    session := 0, signOuts := 0, last := .opened, spoiled := false }

/-- One browser tab. -/
def authStore : StepSystem State Action where
  init := fun s => s = initial
  step := step

/-- An authenticated store has a token, and the user that came with it or was asked for with it. -/
def Consistent (store : Store) : Prop :=
  store.status = .authenticated → ∃ token, store.accessToken = some token ∧ store.user = some token

/-- The store is what the last user action made of it. -/
structure Follows (s : State) : Prop where
  signedOut : s.last = .signedOut → s.store = cleared
  unspoiled : s.spoiled = false
  consistent : Consistent s.store

/-- An answer that writes the store arrives in the session that it was sent in: a login if the user
    did not sign out since, a refresh that succeeds if the user is not signed out, and `/auth/me`
    if its token is still the token of the store. -/
def Current (s : State) : Action → Prop
  | .loginOk i => ∀ signOuts, s.logins[i]? = some signOuts → signOuts = s.signOuts
  | .replyOk i => ∀ c, s.calls[i]? = some c → c.bootstrap = true →
      c.session = s.session ∧ c.token = s.store.accessToken
  | .replyUnauthorized i => ∀ c, s.calls[i]? = some c → c.phase = .sent true →
      c.session = s.session
  | .replyError i => ∀ c, s.calls[i]? = some c → c.bootstrap = true → c.session = s.session
  | .refreshOk => s.last ≠ .signedOut ∧ ∀ session, s.refresh = some session → session = s.session
  | .refreshFail => ∀ session, s.refresh = some session → session = s.session
  | _ => True

end Model

section Steps

variable {s s' : State} {a : Action}

theorem consistent_cleared : Consistent cleared :=
  fun h => by cases h

theorem consistent_adopted (token : Nat) : Consistent (adopted token) :=
  fun _ => ⟨token, rfl, rfl⟩

theorem follows_initial : Follows initial :=
  ⟨fun h => (by cases h), rfl, fun h => (by cases h)⟩

/-- What the requests are does not matter to the store. -/
theorem Follows.frame (h : Follows s) (hstore : s'.store = s.store) (hlast : s'.last = s.last)
    (hspoiled : s'.spoiled = s.spoiled) : Follows s' := by
  refine ⟨fun hout => ?_, ?_, ?_⟩
  · rw [hlast] at hout
    rw [hstore, h.signedOut hout]
  · rw [hspoiled, h.unspoiled]
  · rw [hstore]
    exact h.consistent

theorem follows_share (h : Follows s) : Follows (requestSharedRefresh s) := by
  unfold requestSharedRefresh
  split
  · exact h
  · exact h.frame rfl rfl rfl

theorem follows_signOut (h : Follows s) : Follows (signOut s) :=
  ⟨fun _ => rfl, h.unspoiled, consistent_cleared⟩

theorem follows_signIn (h : Follows s) : Follows (signIn s .signedIn) :=
  ⟨fun hout => (by cases hout), h.unspoiled, consistent_adopted _⟩

/-- An answer of the current session spoils nothing. -/
theorem write_spoiled (s : State) (store : Store) :
    (write s s.session store).spoiled = s.spoiled := by
  simp [write]

variable {session : Nat}

theorem follows_clear (h : Follows s) (hsession : session = s.session) :
    Follows (write s session cleared) := by
  rw [hsession]
  refine ⟨fun _ => rfl, ?_, consistent_cleared⟩
  rw [write_spoiled, h.unspoiled]

theorem follows_adopt (h : Follows s) (hlast : s.last ≠ .signedOut) (hsession : session = s.session)
    (token : Nat) : Follows (write s session (adopted token)) := by
  rw [hsession]
  refine ⟨fun hout => absurd hout hlast, ?_, consistent_adopted token⟩
  rw [write_spoiled, h.unspoiled]

/-- The answer of `/auth/me` goes with the token that it was asked with. -/
theorem follows_identify (h : Follows s) {token : Nat} (hsession : session = s.session)
    (htoken : some token = s.store.accessToken) :
    Follows (write s session { s.store with status := .authenticated, user := some token }) := by
  rw [hsession]
  refine ⟨fun hout => ?_, ?_, fun _ => ⟨token, htoken.symm, rfl⟩⟩
  · rw [h.signedOut hout] at htoken
    cases htoken
  · rw [write_spoiled, h.unspoiled]

/-- A step whose answer is of the current session keeps what the user did. -/
theorem follows_step (a : Action) (h : Follows s) (hcurrent : Current s a)
    (hstep : step s a = some s') : Follows s' := by
  cases a with
  -- Nothing is written before an answer.
  | login | loginFail i | logout | call =>
    cases hstep
    exact h.frame rfl rfl rfl
  -- The user signs in or out, and the store is written at once.
  | loginOk i =>
    simp only [step] at hstep
    split at hstep
    · rename_i signOuts hget
      rw [if_pos (hcurrent signOuts hget)] at hstep
      cases hstep
      exact (follows_signIn h).frame rfl rfl rfl
    · cases hstep
  | setSession =>
    cases hstep
    exact follows_signIn h
  | logoutDone =>
    simp only [step] at hstep
    split at hstep
    · cases hstep
    · cases hstep
      exact (follows_signOut h).frame rfl rfl rfl
  | accountDeleted =>
    cases hstep
    exact follows_signOut h
  -- The bootstrap and the calls. What an answer writes is of the session that asked.
  | bootstrap =>
    simp only [step] at hstep
    split at hstep
    · cases hstep
      exact follows_share (h.frame rfl rfl rfl)
    · cases hstep
      exact h
  | resend i =>
    simp only [step] at hstep
    split at hstep
    · split at hstep
      · cases hstep
      · cases hstep
        exact h.frame rfl rfl rfl
    · cases hstep
  | replyOk i =>
    simp only [step] at hstep
    split at hstep
    · rename_i c hget
      split at hstep
      · cases hstep
      · split at hstep
        · rename_i hboot
          rcases hcurrent c hget hboot with ⟨hsession, htoken⟩
          split at hstep
          · rename_i token hsome
            cases hstep
            rw [hsome] at htoken
            exact (follows_identify h hsession htoken).frame rfl rfl rfl
          · cases hstep
        · cases hstep
          exact h.frame rfl rfl rfl
    · cases hstep
  | replyUnauthorized i =>
    simp only [step] at hstep
    split at hstep
    · rename_i c hget
      split at hstep
      · cases hstep
        exact follows_share (h.frame rfl rfl rfl)
      · rename_i hphase
        cases hstep
        exact (follows_clear h (hcurrent c hget hphase)).frame rfl rfl rfl
      · cases hstep
    · cases hstep
  | replyError i =>
    simp only [step] at hstep
    split at hstep
    · rename_i c hget
      split at hstep
      · cases hstep
      · split at hstep
        · rename_i hboot
          cases hstep
          exact (follows_clear h (hcurrent c hget hboot)).frame rfl rfl rfl
        · cases hstep
          exact h.frame rfl rfl rfl
    · cases hstep
  -- The shared refresh, which adopts a session or clears the store.
  | refreshResend =>
    simp only [step] at hstep
    split at hstep
    · cases hstep
      exact h.frame rfl rfl rfl
    · cases hstep
  | refreshOk =>
    simp only [step] at hstep
    split at hstep
    · rename_i session hrefresh
      cases hstep
      exact (follows_adopt h hcurrent.1 (hcurrent.2 session hrefresh) _).frame rfl rfl rfl
    · cases hstep
  | refreshFail =>
    simp only [step] at hstep
    split at hstep
    · rename_i session hrefresh
      cases hstep
      exact (follows_clear h (hcurrent session hrefresh)).frame rfl rfl rfl
    · cases hstep

end Steps

section Runs

/-- In a run in which every answer arrives in its own session the store follows the user. -/
theorem store_follows_user {s : State} (h : authStore.ReachableBy Current s) : Follows s := by
  refine StepSystem.reachableBy_invariant (S := authStore) (I := Follows) (fun t ht => ?_)
    (fun t a t' hfollows hok hstep => follows_step a hfollows hok hstep) h
  rw [ht]
  exact follows_initial

/-- A user signs in, and a refresh renews the token of the session. -/
def ownSession : List Action :=
  [.login, .loginOk 0, .call, .replyUnauthorized 0, .refreshOk]

theorem store_follows_user_session :
    ∃ s, authStore.exec initial ownSession = some s ∧ s.last = .signedIn ∧ Follows s := by
  have hrun : authStore.exec initial ownSession = some _ := rfl
  have hmeets : authStore.Meets Current initial ownSession := by
    refine ⟨trivial, fun signOuts h => ?_, trivial, fun c h hphase => ?_,
      ⟨fun h => (by cases h), fun session h => ?_⟩, trivial⟩
    · exact (Option.some.inj h).symm
    · rw [← Option.some.inj h] at hphase
      cases hphase
    · exact (Option.some.inj h).symm
  exact ⟨_, hrun, rfl, store_follows_user ⟨initial, rfl, StepSystem.path_of_meets hrun hmeets⟩⟩

/-- The bootstrap asks who the user is, the user signs out, and the answer arrives. -/
def lateIdentity : List Action :=
  [.bootstrap, .refreshOk, .logout, .logoutDone, .replyOk 0]

/-- A call is answered with 401, the user signs out, and the refresh succeeds. -/
def lateRefresh : List Action :=
  [.setSession, .call, .replyUnauthorized 0, .logout, .logoutDone, .refreshOk]

/-- The bootstrap is refreshing, the user signs in, and the refresh fails. -/
def lateFailure : List Action :=
  [.bootstrap, .login, .loginOk 0, .refreshFail]

/-- The store can be authenticated without a token, it can be authenticated after the user signed
    out, and a login can be undone by a refresh from before it. -/
theorem store_overtaken :
    (∃ s, authStore.Reachable s ∧ s.last = .signedOut ∧ ¬ Consistent s.store) ∧
      (∃ s, authStore.Reachable s ∧ s.last = .signedOut ∧ s.store.status = .authenticated ∧
        Consistent s.store) ∧
      ∃ s, authStore.Reachable s ∧ s.last = .signedIn ∧ s.spoiled = true ∧ s.store = cleared := by
  have hidentity : authStore.exec initial lateIdentity = some _ := rfl
  have hrefresh : authStore.exec initial lateRefresh = some _ := rfl
  have hfailure : authStore.exec initial lateFailure = some _ := rfl
  refine ⟨⟨_, StepSystem.reachable_of_exec rfl hidentity, rfl, fun h => ?_⟩,
    ⟨_, StepSystem.reachable_of_exec rfl hrefresh, rfl, rfl, ?_⟩,
    ⟨_, StepSystem.reachable_of_exec rfl hfailure, rfl, rfl, rfl⟩⟩
  · rcases h rfl with ⟨token, htoken, -⟩
    cases htoken
  · exact consistent_adopted 1

end Runs

end AuthStore

end Browser

end Partha
