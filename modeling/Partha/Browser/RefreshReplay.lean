import Mathlib.Data.List.Basic
import Partha.Library.Steps

/-!
# The Shared Refresh of the Browser Client

The requests of one browser tab, from `client.ts`, against a server that rotates
the refresh token.

An API call that is answered with 401 waits for `requestSharedRefresh`, and so does
the bootstrap of the auth store. They all share one promise, so there is one
refresh at a time. The refresh is itself a call of `request`, with its loop over
attempts: if an answer does not arrive, the same `POST /auth/refresh` is sent again,
with whatever token the cookie has.

The cookie only changes when an answer arrives. If the server has rotated the token
and the answer is lost, late or a 5xx, then the next attempt carries the token that
was used up, and the server takes it for a replay.

Tokens are numbers. What the server answers to calls other than a refresh is picked
by the environment, and so is the fate of every request and every answer.

## Main definitions

* `Server.refresh`: `POST /auth/refresh`.
* `requestSharedRefresh`: `requestSharedRefresh`.
* `settle`: What the end of a refresh sets off.
* `tab`: The system of all interleavings.
* `Lossless`: No answer of the server to a refresh that it accepted is lost.

## Theorems

* `single_step`: There is one refresh at most, and it is the shared one.
* `fresh_step`: Without a loss the cookie has a token that was never presented.
* `refresh_never_replayed`: No token is sent again, and no family is revoked.
* `refresh_replayed`: A lost answer is enough for both.
-/

namespace Partha

namespace Browser

open List

section Model

/-- What the server knows of the tokens of one session. -/
structure Server where
  current : Option Nat
  used : List Nat
  next : Nat
  revoked : Bool
  deriving DecidableEq, Repr

/-- `POST /auth/refresh` at the server, with the token that it issues if it accepts. A used token
    revokes the family. -/
def Server.refresh (s : Server) : Option Nat → Server × Option Nat
  | none => (s, none)
  | some token =>
    if s.used.contains token then ({ s with current := none, revoked := true }, none)
    else if s.current = some token then
      ({ s with current := some s.next, used := token :: s.used, next := s.next + 1 },
        some s.next)
    else (s, none)

/-- Where the attempt of a refresh stands: on its way with a token, on its way back with what was
    issued, or asleep before the next attempt. -/
inductive RefreshPhase where
  | sent (token : Option Nat)
  | answered (issued : Option Nat)
  | asleep
  deriving DecidableEq, Repr

/-- A `refreshSession` that is running. -/
structure Refresh where
  attempt : Nat
  phase : RefreshPhase
  deriving DecidableEq, Repr

/-- Where a call of `request` stands. `isRetry` is that of `executeRequest`. -/
inductive CallPhase where
  | sent (isRetry : Bool)
  | recovering
  | asleep
  deriving DecidableEq, Repr

/-- A call of `request` to an endpoint that may be refreshed for, with its number of retries. An
    upload has none. -/
structure Call where
  retries : Nat
  attempt : Nat
  phase : CallPhase
  bootstrap : Bool
  deriving DecidableEq, Repr

/-- The bootstrap of the auth store: it waits for the refresh, and then for `/auth/me`. -/
inductive Bootstrap where
  | refreshing
  | identifying
  deriving DecidableEq, Repr

/-- A refresh that was sent, and a token that was carried to the server. -/
inductive Event where
  | sent (token : Option Nat)
  | carried (token : Nat)
  deriving DecidableEq, Repr

/-- The server, the cookie, and the tab. `shared` is whether there is an `inFlightRefresh`, and
    `orphans` are requests that the client gave up on and that may yet arrive. The log has the
    last event first. -/
structure State where
  server : Server
  cookie : Option Nat
  refreshes : List Refresh
  shared : Bool
  calls : List Call
  boot : Option Bootstrap
  orphans : List (Option Nat)
  log : List Event
  deriving DecidableEq, Repr

/-- How a call is answered. `failed` is a 5xx, a timeout or a network error, and `clientError` is
    any other answer that ends the call, or its cancellation. -/
inductive Reply where
  | ok
  | unauthorized
  | clientError
  | failed
  deriving DecidableEq, Repr

inductive Action where
  | call (retries : Nat)
  | bootstrap
  | reply (i : Nat) (r : Reply)
  | wake (i : Nat)
  | process (k : Nat)
  | deliver (k : Nat)
  | refuse (k : Nat)
  | fail (k : Nat)
  | wakeRefresh (k : Nat)
  | late (k : Nat)
  deriving DecidableEq, Repr

/-- The `POST` of a refresh leaves with the token of the cookie. -/
def send (s : State) : State :=
  { s with log := .sent s.cookie :: s.log }

/-- `requestSharedRefresh`. The first attempt leaves at once. -/
def requestSharedRefresh (s : State) : State :=
  if s.shared then s
  else
    { send s with
      shared := true
      refreshes := { attempt := 0, phase := .sent s.cookie } :: s.refreshes }

/-- A token arrives at the server. -/
def present (s : State) (token : Option Nat) : State :=
  { s with
    server := (s.server.refresh token).1
    log := (token.map Event.carried).toList ++ s.log }

/-- A call that waits for the refresh is retried if it succeeded, and is over otherwise. -/
def resumeCalls (refreshed : Bool) (calls : List Call) : List Call :=
  if refreshed then
    calls.map (fun c => if c.phase = .recovering then { c with phase := .sent true } else c)
  else calls.filter (fun c => c.phase ≠ .recovering)

/-- A bootstrap that waits for the refresh asks who the user is, or it is over. It is over too if
    its call of `/auth/me` waits for a refresh that fails. -/
def resumeBootstrap (refreshed : Bool) (calls : List Call) : Option Bootstrap → Option Bootstrap
  | some .refreshing => if refreshed then some .identifying else none
  | boot =>
    if !refreshed && calls.any (fun c => c.bootstrap && c.phase = .recovering) then none else boot

/-- The call of `/auth/me` that a bootstrap makes. -/
def identification (retries : Nat) (refreshed : Bool) : Option Bootstrap → List Call
  | some .refreshing =>
    if refreshed then
      [{ retries := retries, attempt := 0, phase := .sent false, bootstrap := true }]
    else []
  | _ => []

/-- The end of the `k`-th refresh: the promise is dropped, and who waited for it goes on. -/
def settle (retries : Nat) (s : State) (k : Nat) (refreshed : Bool) : State :=
  { s with
    refreshes := s.refreshes.eraseIdx k
    shared := false
    calls := resumeCalls refreshed s.calls ++ identification retries refreshed s.boot
    boot := resumeBootstrap refreshed s.calls s.boot }

/-- The call of a bootstrap is over, and with it the bootstrap. -/
def endBootstrap (c : Call) (boot : Option Bootstrap) : Option Bootstrap :=
  if c.bootstrap then none else boot

/-- A call is over. -/
def finish (s : State) (i : Nat) (c : Call) : State :=
  { s with calls := s.calls.eraseIdx i, boot := endBootstrap c s.boot }

/-- An attempt of a refresh failed: another one follows, as long as there are any. -/
def retryRefresh (retries : Nat) (s : State) (k : Nat) (r : Refresh) : State :=
  if r.attempt < retries then
    { s with refreshes := s.refreshes.set k { r with phase := .asleep } }
  else settle retries s k false

/-- A call is answered, or not. -/
def replyCall (s : State) (i : Nat) (c : Call) (isRetry : Bool) :
    Reply → State
  | .ok => finish s i c
  | .clientError => finish s i c
  | .failed =>
    if c.attempt < c.retries then { s with calls := s.calls.set i { c with phase := .asleep } }
    else finish s i c
  | .unauthorized =>
    if isRetry then finish s i c
    else requestSharedRefresh { s with calls := s.calls.set i { c with phase := .recovering } }

/-- One step of the tab, of the network or of the server. `retries` is `defaultRetries`. -/
def step (retries : Nat) (s : State) : Action → Option State
  | .call n =>
    some { s with
      calls := s.calls ++
        [{ retries := n, attempt := 0, phase := .sent false, bootstrap := false }] }
  | .bootstrap =>
    match s.boot with
    | none => some (requestSharedRefresh { s with boot := some .refreshing })
    | some _ => some s
  | .reply i r =>
    match s.calls[i]? with
    | some c => match c.phase with
      | .sent isRetry => some (replyCall s i c isRetry r)
      | _ => none
    | none => none
  | .wake i =>
    match s.calls[i]? with
    | some c =>
      if c.phase = .asleep then
        some { s with
          calls := s.calls.set i { c with attempt := c.attempt + 1, phase := .sent false } }
      else none
    | none => none
  | .process k =>
    match s.refreshes[k]? with
    | some r => match r.phase with
      | .sent token =>
        some { present s token with
          refreshes :=
            s.refreshes.set k { r with phase := .answered (s.server.refresh token).2 } }
      | _ => none
    | none => none
  | .deliver k =>
    match s.refreshes[k]? with
    | some r => match r.phase with
      | .answered (some issued) => some (settle retries { s with cookie := some issued } k true)
      | .answered none => some (settle retries s k false)
      | _ => none
    | none => none
  -- A 429, or another 4xx that comes before the token is looked at.
  | .refuse k =>
    match s.refreshes[k]? with
    | some r => match r.phase with
      | .sent _ => some (settle retries s k false)
      | _ => none
    | none => none
  | .fail k =>
    match s.refreshes[k]? with
    | some r => match r.phase with
      | .sent token => some (retryRefresh retries { s with orphans := token :: s.orphans } k r)
      | .answered _ => some (retryRefresh retries s k r)
      | .asleep => none
    | none => none
  | .wakeRefresh k =>
    match s.refreshes[k]? with
    | some r =>
      if r.phase = .asleep then
        some { send s with
          refreshes := s.refreshes.set k { attempt := r.attempt + 1, phase := .sent s.cookie } }
      else none
    | none => none
  | .late k =>
    match s.orphans[k]? with
    | some token => some { present s token with orphans := s.orphans.eraseIdx k }
    | none => none

/-- A tab that was just opened, with a cookie of a session or without one. -/
def Opened (s : State) : Prop :=
  s = { server := { current := s.cookie, used := [], next := s.server.next, revoked := false }
        cookie := s.cookie, refreshes := [], shared := false, calls := [], boot := none,
        orphans := [], log := [] } ∧
    ∀ token, s.cookie = some token → token < s.server.next

/-- One browser tab. -/
def tab (retries : Nat) : StepSystem State Action where
  init := Opened
  step := step retries

/-- No `POST` is sent with a token that was carried to the server before. -/
def NoReplay (log : List Event) : Prop :=
  log.Pairwise (fun later earlier => ∀ token, later = .sent (some token) → earlier ≠ .carried token)

/-- The refreshes that are sent and not yet answered to the client. -/
def inFlight (s : State) : Nat :=
  s.refreshes.countP (fun r => r.phase ≠ .asleep)

/-- No answer to an accepted refresh is lost, and no request arrives that was given up on. -/
def Lossless (s : State) : Action → Prop
  | .fail k => ∀ attempt issued,
      s.refreshes[k]? ≠ some { attempt := attempt, phase := .answered (some issued) }
  | .late _ => False
  | _ => True

end Model

section Single

variable {retries : Nat} {s s' : State} {a : Action}

/-- There is one refresh at most, and it is the one that is shared. -/
def Single (s : State) : Prop :=
  s.refreshes = [] ∧ s.shared = false ∨ ∃ r, s.refreshes = [r] ∧ s.shared = true

variable {r : Refresh}

theorem Single.get {k : Nat} (h : Single s) (hk : s.refreshes[k]? = some r) :
    k = 0 ∧ s.refreshes = [r] ∧ s.shared = true := by
  rcases h with ⟨hnil, -⟩ | ⟨r', hone, hshared⟩
  · rw [hnil] at hk
    cases hk
  · rw [hone] at hk
    cases k with
    | zero =>
      have he : r' = r := Option.some.inj hk
      rw [← he]
      exact ⟨rfl, hone, hshared⟩
    | succ k => cases hk

theorem single_share (h : Single s) : Single (requestSharedRefresh s) := by
  unfold requestSharedRefresh
  rcases h with ⟨hnil, hshared⟩ | ⟨r, hone, hshared⟩
  · rw [hshared, hnil]
    exact .inr ⟨_, rfl, rfl⟩
  · rw [if_pos hshared]
    exact .inr ⟨r, hone, hshared⟩

theorem single_settle (retries : Nat) (h : s.refreshes = [r]) (refreshed : Bool) :
    Single (settle retries s 0 refreshed) := by
  left
  rw [settle, h]
  exact ⟨rfl, rfl⟩

theorem single_retry (retries : Nat) (h : s.refreshes = [r]) (hshared : s.shared = true) :
    Single (retryRefresh retries s 0 r) := by
  unfold retryRefresh
  by_cases hattempt : r.attempt < retries
  · rw [if_pos hattempt, h]
    exact .inr ⟨_, rfl, hshared⟩
  · rw [if_neg hattempt]
    exact single_settle retries h false

/-- An answer to a call changes nothing but the calls, or it asks for a refresh. -/
theorem replyCall_cases (s : State) (i : Nat) (c : Call) (isRetry : Bool) (r : Reply) :
    ∃ calls boot, replyCall s i c isRetry r = { s with calls := calls, boot := boot } ∨
      replyCall s i c isRetry r =
        requestSharedRefresh { s with calls := calls, boot := boot } := by
  cases r with
  | ok => exact ⟨_, _, .inl rfl⟩
  | clientError => exact ⟨_, _, .inl rfl⟩
  | failed =>
    by_cases hattempt : c.attempt < c.retries
    · exact ⟨_, _, .inl (if_pos hattempt)⟩
    · exact ⟨_, _, .inl (if_neg hattempt)⟩
  | unauthorized =>
    by_cases hretry : isRetry
    · exact ⟨_, _, .inl (if_pos hretry)⟩
    · exact ⟨_, _, .inr (if_neg hretry)⟩

theorem single_step (a : Action) (h : Single s) (hstep : step retries s a = some s') :
    Single s' := by
  cases a with
  -- A call begins, is answered or wakes: it joins the refresh in flight, or opens one.
  | call n =>
    cases hstep
    exact h
  | bootstrap =>
    simp only [step] at hstep
    split at hstep
    · cases hstep
      exact single_share h
    · cases hstep
      exact h
  | reply i r =>
    simp only [step] at hstep
    split at hstep
    · rename_i c _
      split at hstep
      · rename_i isRetry _
        rcases replyCall_cases s i c isRetry r with ⟨calls, boot, he | he⟩
        · rw [← Option.some.inj hstep, he]
          exact h
        · rw [← Option.some.inj hstep, he]
          exact single_share h
      · cases hstep
    · cases hstep
  | wake i =>
    simp only [step] at hstep
    split at hstep
    · split at hstep
      · cases hstep
        exact h
      · cases hstep
    · cases hstep
  -- The one refresh goes on.
  | process k | wakeRefresh k =>
    simp only [step] at hstep
    split at hstep
    · rename_i r hget
      rcases h.get hget with ⟨rfl, hone, hshared⟩
      split at hstep
      · rw [← Option.some.inj hstep, hone]
        exact .inr ⟨_, rfl, hshared⟩
      · cases hstep
    · cases hstep
  -- The one refresh ends, unless it is tried again.
  | deliver k =>
    simp only [step] at hstep
    split at hstep
    · rename_i r hget
      rcases h.get hget with ⟨rfl, hone, hshared⟩
      split at hstep
      · cases hstep
        exact single_settle retries hone true
      · cases hstep
        exact single_settle retries hone false
      · cases hstep
    · cases hstep
  | refuse k =>
    simp only [step] at hstep
    split at hstep
    · rename_i r hget
      rcases h.get hget with ⟨rfl, hone, -⟩
      split at hstep
      · cases hstep
        exact single_settle retries hone false
      · cases hstep
    · cases hstep
  | fail k =>
    simp only [step] at hstep
    split at hstep
    · rename_i r hget
      rcases h.get hget with ⟨rfl, hone, hshared⟩
      split at hstep
      · cases hstep
        exact single_retry retries hone hshared
      · cases hstep
        exact single_retry retries hone hshared
      · cases hstep
    · cases hstep
  -- An orphan that reaches the server late is not in flight.
  | late k =>
    simp only [step] at hstep
    split at hstep
    · cases hstep
      exact h
    · cases hstep

theorem inFlight_le (h : Single s) : inFlight s ≤ 1 := by
  have hlength : s.refreshes.length ≤ 1 := by
    rcases h with ⟨hnil, -⟩ | ⟨r, hone, -⟩
    · rw [hnil]
      exact Nat.zero_le 1
    · rw [hone]
      exact Nat.le_refl 1
  exact Nat.le_trans countP_le_length hlength

end Single

section Fresh

variable {retries : Nat} {s s' : State} {a : Action}

/-- How the cookie and the live token stand to each other, by the phase of the refresh. -/
def Agrees (cookie current : Option Nat) : List Refresh → Prop
  | [{ attempt := _, phase := .answered (some issued) }] => current = some issued
  | [{ attempt := _, phase := .sent token }] => token = cookie ∧ current = cookie
  | _ => current = cookie

/-- The cookie has the live token, which nobody presented, unless a new one is on its way. -/
structure Fresh (s : State) : Prop where
  single : Single s
  live : s.server.revoked = false
  below : ∀ token ∈ s.server.used, token < s.server.next
  current_below : ∀ token, s.server.current = some token → token < s.server.next
  unused : ∀ token, s.server.current = some token → token ∉ s.server.used
  carried : ∀ token, .carried token ∈ s.log → token ∈ s.server.used
  agrees : Agrees s.cookie s.server.current s.refreshes
  noReplay : NoReplay s.log

theorem fresh_opened (h : Opened s) : Fresh s := by
  rcases h with ⟨he, hbelow⟩
  rw [he]
  refine ⟨.inl ⟨rfl, rfl⟩, rfl, fun token h => absurd h not_mem_nil, hbelow, ?_, ?_, rfl,
    List.Pairwise.nil⟩
  · exact fun token _ h => not_mem_nil h
  · exact fun token h => absurd h not_mem_nil

/-- The token of the cookie can be sent while no new one is on its way. -/
theorem Fresh.noReplay_send (h : Fresh s) (hcurrent : s.server.current = s.cookie) :
    NoReplay (.sent s.cookie :: s.log) := by
  refine pairwise_cons.mpr ⟨fun e he token hsent hcarried => ?_, h.noReplay⟩
  have hcookie : s.cookie = some token := Event.sent.inj hsent
  rw [hcarried] at he
  exact h.unused token (hcurrent.trans hcookie) (h.carried token he)

theorem carried_send {token : Nat} {sent : Option Nat} {log : List Event}
    (h : Event.carried token ∈ .sent sent :: log) : .carried token ∈ log := by
  rcases mem_cons.mp h with he | h
  · cases he
  · exact h

/-- The invariant is not about the calls, nor about the bootstrap. -/
theorem Fresh.frame (h : Fresh s) (calls : List Call) (boot : Option Bootstrap) :
    Fresh { s with calls := calls, boot := boot } :=
  ⟨h.single, h.live, h.below, h.current_below, h.unused, h.carried, h.agrees, h.noReplay⟩

theorem Fresh.share (h : Fresh s) : Fresh (requestSharedRefresh s) := by
  unfold requestSharedRefresh
  rcases h.single with ⟨hnil, hshared⟩ | ⟨r, hone, hshared⟩
  · have hcurrent : s.server.current = s.cookie := by
      have hagrees := h.agrees
      rw [hnil] at hagrees
      exact hagrees
    rw [hshared, hnil]
    exact ⟨.inr ⟨_, rfl, rfl⟩, h.live, h.below, h.current_below, h.unused,
      fun token ht => h.carried token (carried_send ht), ⟨rfl, hcurrent⟩, h.noReplay_send hcurrent⟩
  · rw [if_pos hshared]
    exact h

variable {r : Refresh}

/-- A refresh that ends without a token, where none was issued. -/
theorem Fresh.settle_refused (retries : Nat) (h : Fresh s) (hone : s.refreshes = [r])
    (hcurrent : s.server.current = s.cookie) : Fresh (settle retries s 0 false) := by
  rw [settle, hone]
  exact ⟨.inl ⟨rfl, rfl⟩, h.live, h.below, h.current_below, h.unused, h.carried, hcurrent,
    h.noReplay⟩

/-- An attempt that ends without an answer, where no token was issued. -/
theorem Fresh.retry (retries : Nat) (h : Fresh s) (hone : s.refreshes = [r])
    (hcurrent : s.server.current = s.cookie) : Fresh (retryRefresh retries s 0 r) := by
  have hshared : s.shared = true := by
    rcases h.single with ⟨hnil, -⟩ | ⟨r', -, hshared⟩
    · rw [hone] at hnil
      cases hnil
    · exact hshared
  have hsingle := single_retry retries hone hshared
  unfold retryRefresh at hsingle ⊢
  by_cases hattempt : r.attempt < retries
  · rw [if_pos hattempt, hone] at hsingle ⊢
    exact ⟨hsingle, h.live, h.below, h.current_below, h.unused, h.carried, hcurrent, h.noReplay⟩
  · rw [if_neg hattempt]
    exact h.settle_refused retries hone hcurrent

/-- The live token is accepted, and no token is answered with none. -/
theorem Fresh.refresh (h : Fresh s) (hcurrent : s.server.current = s.cookie) :
    (s.cookie = none ∧ s.server.refresh s.cookie = (s.server, none)) ∨
      ∃ token, s.cookie = some token ∧ s.server.refresh s.cookie =
        ({ s.server with
            current := some s.server.next
            used := token :: s.server.used
            next := s.server.next + 1 }, some s.server.next) := by
  cases hcookie : s.cookie with
  | none => exact .inl ⟨rfl, rfl⟩
  | some token =>
    right
    refine ⟨token, rfl, ?_⟩
    have hlive : s.server.current = some token := hcurrent.trans hcookie
    have hunused : s.server.used.contains token = false := by
      rw [Bool.eq_false_iff]
      exact fun hc => h.unused token hlive (contains_iff_mem.mp hc)
    rw [Server.refresh, hunused, hlive]
    simp

/-- The refresh reaches the server. -/
theorem Fresh.process (h : Fresh s) {token : Option Nat} (hone : s.refreshes = [r])
    (hphase : r.phase = .sent token) :
    Fresh { present s token with
      refreshes := s.refreshes.set 0
        { r with phase := .answered (s.server.refresh token).2 } } := by
  have hagrees := h.agrees
  rcases r with ⟨attempt, phase⟩
  simp only at hphase
  subst hphase
  rw [hone] at hagrees
  rcases hagrees with ⟨htoken, hcurrent⟩
  have hshared : s.shared = true := by
    rcases h.single with ⟨hnil, -⟩ | ⟨r', -, hshared⟩
    · rw [hone] at hnil
      cases hnil
    · exact hshared
  subst htoken
  rw [hone]
  -- the server has no session for the tab, or it rotates the current token
  rcases h.refresh hcurrent with ⟨hnone, hrefresh⟩ | ⟨token, hsome, hrefresh⟩
  · unfold present
    rw [hrefresh, hnone]
    refine ⟨.inr ⟨_, rfl, hshared⟩, h.live, h.below, h.current_below, h.unused, h.carried, ?_,
      h.noReplay⟩
    exact hcurrent.trans hnone
  · unfold present
    rw [hrefresh, hsome]
    have hlt : token < s.server.next := h.current_below token (hcurrent.trans hsome)
    refine ⟨.inr ⟨_, rfl, hshared⟩, h.live, ?_, ?_, ?_, ?_, rfl, ?_⟩
    · intro t ht
      rcases mem_cons.mp ht with rfl | ht
      · exact Nat.lt_succ_of_lt hlt
      · exact Nat.lt_succ_of_lt (h.below t ht)
    · intro t ht
      cases ht
      exact Nat.lt_succ_self _
    · intro t ht hmem
      rw [← Option.some.inj ht] at hmem
      rcases mem_cons.mp hmem with he | hmem
      · omega
      · exact absurd (h.below _ hmem) (Nat.lt_irrefl _)
    · intro t ht
      rcases mem_cons.mp ht with he | ht
      · rw [Event.carried.inj he]
        exact mem_cons_self
      · exact mem_cons_of_mem _ (h.carried t ht)
    · refine pairwise_cons.mpr ⟨fun e _ t hsent => ?_, h.noReplay⟩
      cases hsent

/-- Without a loss every step keeps the cookie fresh. -/
theorem fresh_step (a : Action) (h : Fresh s) (hlossless : Lossless s a)
    (hstep : step retries s a = some s') :
    Fresh s' := by
  cases a with
  -- A call begins, is answered or wakes: the refresh is at most asked for.
  | call n =>
    cases hstep
    exact h.frame _ _
  | bootstrap =>
    simp only [step] at hstep
    split at hstep
    · cases hstep
      exact (h.frame _ _).share
    · cases hstep
      exact h
  | reply i r =>
    simp only [step] at hstep
    split at hstep
    · rename_i c _
      split at hstep
      · rename_i isRetry _
        rcases replyCall_cases s i c isRetry r with ⟨calls, boot, he | he⟩
        · rw [← Option.some.inj hstep, he]
          exact h.frame _ _
        · rw [← Option.some.inj hstep, he]
          exact (h.frame _ _).share
      · cases hstep
    · cases hstep
  | wake i =>
    simp only [step] at hstep
    split at hstep
    · split at hstep
      · cases hstep
        exact h.frame _ _
      · cases hstep
    · cases hstep
  -- The server takes the token of the refresh, and issues the next one.
  | process k =>
    simp only [step] at hstep
    split at hstep
    · rename_i r hget
      rcases h.single.get hget with ⟨rfl, hone, -⟩
      split at hstep
      · rename_i token hphase
        cases hstep
        exact h.process hone hphase
      · cases hstep
    · cases hstep
  -- An answer of the server arrives, or its refusal without an answer.
  | deliver k =>
    simp only [step] at hstep
    split at hstep
    · rename_i r hget
      rcases h.single.get hget with ⟨rfl, hone, -⟩
      have hagrees := h.agrees
      rw [hone] at hagrees
      rcases r with ⟨attempt, phase⟩
      split at hstep
      · rename_i issued hphase
        simp only at hphase
        subst hphase
        rw [← Option.some.inj hstep, settle, hone]
        exact ⟨.inl ⟨rfl, rfl⟩, h.live, h.below, h.current_below, h.unused, h.carried, hagrees,
          h.noReplay⟩
      · rename_i hphase
        simp only at hphase
        subst hphase
        cases hstep
        exact h.settle_refused retries hone hagrees
      · cases hstep
    · cases hstep
  | refuse k =>
    simp only [step] at hstep
    split at hstep
    · rename_i r hget
      rcases h.single.get hget with ⟨rfl, hone, -⟩
      have hagrees := h.agrees
      rw [hone] at hagrees
      rcases r with ⟨attempt, phase⟩
      split at hstep
      · rename_i token hphase
        simp only at hphase
        subst hphase
        cases hstep
        exact h.settle_refused retries hone hagrees.2
      · cases hstep
    · cases hstep
  -- The answer is lost, or the request never came. What was on its way stays an orphan.
  | fail k =>
    simp only [step] at hstep
    split at hstep
    · rename_i r hget
      rcases h.single.get hget with ⟨rfl, hone, -⟩
      have hagrees := h.agrees
      rw [hone] at hagrees
      rcases r with ⟨attempt, phase⟩
      split at hstep
      · rename_i token hphase
        simp only at hphase
        subst hphase
        cases hstep
        have horphan : Fresh { s with orphans := token :: s.orphans } :=
          ⟨h.single, h.live, h.below, h.current_below, h.unused, h.carried, h.agrees, h.noReplay⟩
        exact horphan.retry retries hone hagrees.2
      · rename_i answer hphase
        simp only at hphase
        subst hphase
        cases hstep
        -- An answer that issued a token is not lost.
        cases answer with
        | some issued => exact absurd hget (hlossless attempt issued)
        | none => exact h.retry retries hone hagrees
      · cases hstep
    · cases hstep
  -- The refresh is sent again, with the token that the cookie has by now.
  | wakeRefresh k =>
    simp only [step] at hstep
    split at hstep
    · rename_i r hget
      rcases h.single.get hget with ⟨rfl, hone, hshared⟩
      have hagrees := h.agrees
      rw [hone] at hagrees
      split at hstep
      · rename_i hphase
        rcases r with ⟨attempt, phase⟩
        simp only at hphase
        subst hphase
        rw [← Option.some.inj hstep, hone]
        exact ⟨.inr ⟨_, rfl, hshared⟩, h.live, h.below, h.current_below, h.unused,
          fun token ht => h.carried token (carried_send ht), ⟨rfl, hagrees⟩,
          h.noReplay_send hagrees⟩
      · cases hstep
    · cases hstep
  | late k => exact absurd hlossless id

end Fresh

section Runs

/-- In a run that loses no answer of the server, no token is sent after it was carried to the
    server, and the family is not revoked. There is one refresh in flight at most in any run. -/
theorem refresh_never_replayed (retries : Nat) :
    (∀ s, (tab retries).Reachable s → inFlight s ≤ 1) ∧
      ∀ s, (tab retries).ReachableBy Lossless s → NoReplay s.log ∧ s.server.revoked = false := by
  constructor
  · intro s hs
    refine inFlight_le (StepSystem.reachableBy_invariant (S := tab retries) (I := Single)
      (fun t ht => (fresh_opened ht).single) (fun t a t' h _ hstep => ?_) hs)
    exact single_step a h hstep
  · intro s hs
    have hfresh : Fresh s := StepSystem.reachableBy_invariant (S := tab retries) (I := Fresh)
      (fun t ht => fresh_opened ht) (fun t a t' h hok hstep => fresh_step a h hok hstep) hs
    exact ⟨hfresh.noReplay, hfresh.live⟩

/-- A tab with a session. -/
def opened : State :=
  { server := { current := some 0, used := [], next := 1, revoked := false }
    cookie := some 0, refreshes := [], shared := false, calls := [], boot := none, orphans := []
    log := [] }

/-- A bootstrap whose refresh is answered. -/
def answered : List Action :=
  [.bootstrap, .process 0, .deliver 0]

theorem refresh_never_replayed_bootstrap :
    ∃ s, (tab 2).exec opened answered = some s ∧ inFlight s ≤ 1 ∧ s.cookie = some 1 ∧
      NoReplay s.log ∧ s.server.revoked = false := by
  have hinit : (tab 2).init opened := by
    refine ⟨rfl, fun token h => ?_⟩
    cases h
    exact Nat.zero_lt_one
  have hrun : (tab 2).exec opened answered = some _ := rfl
  have hmeets : (tab 2).Meets Lossless opened answered := ⟨trivial, trivial, trivial, trivial⟩
  exact ⟨_, hrun, (refresh_never_replayed 2).1 _ (StepSystem.reachable_of_exec hinit hrun), rfl,
    (refresh_never_replayed 2).2 _ ⟨opened, hinit, StepSystem.path_of_meets hrun hmeets⟩⟩

/-- The bootstrap sends a refresh, the server accepts it, the answer is lost, and the next attempt
    has the same token. -/
def lostAnswer : List Action :=
  [.bootstrap, .process 0, .fail 0, .wakeRefresh 0, .process 0]

theorem refresh_replayed :
    ∃ s, (tab 2).Reachable s ∧ ¬ NoReplay s.log ∧ s.server.revoked = true := by
  have hinit : (tab 2).init opened := by
    refine ⟨rfl, fun token h => ?_⟩
    cases h
    exact Nat.zero_lt_one
  have hexec : (tab 2).exec opened lostAnswer = some _ := rfl
  refine ⟨_, StepSystem.reachable_of_exec hinit hexec, ?_, rfl⟩
  intro h
  have hlog : NoReplay [.carried 0, .sent (some 0), .carried 0, .sent (some 0)] := h
  have hsent := rel_of_pairwise_cons (pairwise_cons.mp hlog).2 mem_cons_self
  exact hsent 0 rfl rfl

end Runs

end Browser

end Partha
