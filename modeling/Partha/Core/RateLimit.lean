import Mathlib.Algebra.Order.Round
import Mathlib.Data.Rat.Floor
import Partha.Canonical.Value
import Partha.Library.Dict
import Partha.Library.FixedWindow
import Partha.Lineage.SourceKeys

/-!
# Rate Limits

`RateLimitMiddleware` counts the requests of each identity in fixed windows, with a budget for each
class of requests, and answers those over the budget with the seconds until the window is over.

The two stores keep different things. In memory there is the start of each window, and on a Redis
server there is a counter that expires. Both refine the counters of `FixedWindow`: `Windowed` says
that a store has such a counter for every key, whatever it is made of. What the middleware does in a
run is shown for all such stores.

Times are exact, and never decrease. On the server a counter is there as long as its time to live
has not elapsed, and whether it is still there at that very moment is left open. Any request may
find that the server cannot be reached, before or after its script has counted, and then passes
unchecked. What an access token stands for at some time is a parameter.

## Main definitions

* `classify`, `resolveRateKey`: What a request is counted as.
* `Arrival`: A request, its time, and what becomes of the contact with the server.
* `memoryStore`, `redisStore`: The stores.
* `Windowed`: A store that counts in windows.
* `dispatch`, `serve`: The middleware, for one request and for a run.

## Theorems

* `windowed_memory`, `windowed_redis`: Both stores count in windows.
* `budget_bounded`: No more than two budgets are used in any minute, as far as requests are checked.
* `budgets_independent`: Other identities and classes make no difference.
* `retry_after_exact`: The seconds in a refusal are exact.
-/

namespace Partha

namespace RateLimit

open Canonical (Str)
open FixedWindow (Window)
open List

section Requests

/-- The classes of budgets. -/
inductive BudgetClass where
  | auth
  | ai
  | heavy
  | default
  deriving DecidableEq, Repr

def BudgetClass.name : BudgetClass → Str
  | .auth => "auth".toList
  | .ai => "ai".toList
  | .heavy => "heavy".toList
  | .default => "default".toList

/-- The settings, of which `validate_positive_int` has checked the numbers. -/
structure Settings where
  enabled : Bool
  authPerMinute : Nat
  aiPerMinute : Nat
  heavyPerMinute : Nat
  defaultPerMinute : Nat
  positive : 0 < authPerMinute ∧ 0 < aiPerMinute ∧ 0 < heavyPerMinute ∧ 0 < defaultPerMinute

/-- The dictionary `budgets`. -/
def Settings.budget (settings : Settings) : BudgetClass → Nat
  | .auth => settings.authPerMinute
  | .ai => settings.aiPerMinute
  | .heavy => settings.heavyPerMinute
  | .default => settings.defaultPerMinute

theorem Settings.budget_pos (settings : Settings) (budgetClass : BudgetClass) :
    0 < settings.budget budgetClass := by
  rcases settings.positive with ⟨hauth, hai, hheavy, hdefault⟩
  cases budgetClass with
  | auth => exact hauth
  | ai => exact hai
  | heavy => exact hheavy
  | default => exact hdefault

/-- What is read of a request. The client is the host of the peer, if it is known. -/
structure Request where
  method : Str
  path : Str
  authorization : Option Str
  client : Option Str

/-- `WINDOW_SECONDS`. -/
def windowSeconds : Nat :=
  60

def exemptPaths : List Str :=
  ["/health".toList, "/ready".toList, "/metrics".toList]

def exemptPrefixes : List Str :=
  ["/docs".toList, "/redoc".toList, "/openapi.json".toList]

def authPaths : List Str :=
  ["/auth/login".toList, "/auth/register".toList, "/waitlist".toList]

def heavyPaths : List Str :=
  ["/repositories/upload".toList, "/repositories/github".toList,
    "/documentation/generate".toList, "/export".toList]

/-- `classify`. -/
def classify (method path : Str) : Option BudgetClass :=
  if method = "OPTIONS".toList || exemptPaths.elem path ||
      exemptPrefixes.any (fun start => start.isPrefixOf path) then none
  else if method = "POST".toList && authPaths.elem path then some .auth
  else if path = "/ai".toList || "/ai/".toList.isPrefixOf path then some .ai
  else if method = "POST".toList && (heavyPaths.elem path ||
      "/analysis/".toList.isPrefixOf path && "/start".toList.isSuffixOf path) then some .heavy
  else some .default

/-- What becomes of the contact with a store that is not in memory. When it is lost, the store may
    have carried out its script all the same. -/
inductive Contact where
  | answered
  | lost (carriedOut : Bool)

def Contact.isAnswered : Contact → Bool
  | .answered => true
  | .lost _ => false

/-- The script of the store has counted. -/
def Contact.isCounted : Contact → Bool
  | .answered => true
  | .lost carriedOut => carriedOut

/-- A request that the middleware gets. -/
structure Arrival where
  request : Request
  time : ℚ
  contact : Contact

variable (decodeAccessToken : Str → ℚ → Option Str)

/-- `_authenticated_user_id`. A token is decoded at some time, since it expires. -/
def authenticatedUserId (authorization : Option Str) (now : ℚ) : Option Str :=
  match authorization with
  | none => none
  | some header =>
    let scheme := header.takeWhile (fun c => c != ' ')
    let token := Backfill.strip ((header.dropWhile (fun c => c != ' ')).drop 1)
    if scheme.map Char.toLower ≠ "bearer".toList || token = [] then none
    else decodeAccessToken token now

/-- `resolve_rate_key`. -/
def resolveRateKey (request : Request) (now : ℚ) : Str :=
  match authenticatedUserId decodeAccessToken request.authorization now with
  | some userId => "user:".toList ++ userId
  | none => "ip:".toList ++ request.client.getD "unknown".toList

/-- The key of the counter of a class and an identity. -/
def counterKey (budgetClass : BudgetClass) (identity : Str) : Str :=
  budgetClass.name ++ ':' :: identity

end Requests

section Stores

/-- A store, whose `hit` gives the count of the window and the seconds until it is over. There is
    neither when it raises `StoreUnavailableError`. -/
structure RateLimitStore (σ : Type) where
  hit : σ → Str → ℚ → Contact → σ × Option (Nat × Int)

/-- `MemoryRateLimitStore`. -/
def memoryStore (window : ℚ) : RateLimitStore (List (Str × ℚ × Nat)) where
  hit windows key now _ :=
    let (windowStart, count) := (windows.lookup key).getD (now, 0)
    let (windowStart, count) :=
      if window ≤ now - windowStart then (now, 0) else (windowStart, count)
    (Dict.set key (windowStart, count + 1) windows,
      some (count + 1, max 1 ⌈window - (now - windowStart)⌉))

/-- A counter of the Redis server. -/
structure RedisKey where
  value : Nat
  expiresAt : Option ℚ

/-- What is used of the server: when a key with a time to live is gone, and what the time to live
    of one that is there is rounded to. -/
structure RedisServer where
  expired : ℚ → ℚ → Bool
  seconds : ℚ → ℚ → Nat
  alive : ∀ expiry now, now < expiry → expired expiry now = false

/-- A key that is still there. -/
def RedisServer.live (server : RedisServer) (keys : List (Str × RedisKey)) (key : Str) (now : ℚ) :
    Option RedisKey :=
  (keys.lookup key).filter fun k =>
    match k.expiresAt with
    | none => true
    | some expiry => !server.expired expiry now

/-- `TTL`, of a key that is there. -/
def RedisServer.ttl (server : RedisServer) (k : RedisKey) (now : ℚ) : Int :=
  match k.expiresAt with
  | none => -1
  | some expiry => server.seconds expiry now

/-- `_WINDOW_SCRIPT`. The counter after `INCR` keeps its time to live. -/
def windowScript (server : RedisServer) (window : ℚ) (keys : List (Str × RedisKey)) (key : Str)
    (now : ℚ) : List (Str × RedisKey) × Nat × Int :=
  let found := server.live keys key now
  let counter : RedisKey :=
    { value := (found.map RedisKey.value).getD 0 + 1
      expiresAt := found.bind RedisKey.expiresAt }
  let counter :=
    if counter.value = 1 then { counter with expiresAt := some (now + window) }
    else if server.ttl counter now < 0 then { counter with expiresAt := some (now + window) }
    else counter
  (Dict.set key counter keys, counter.value, server.ttl counter now)

/-- `RedisRateLimitStore`. -/
def redisStore (server : RedisServer) (window : ℚ) : RateLimitStore (List (Str × RedisKey)) where
  hit keys key now contact :=
    let (counted, count, ttl) := windowScript server window keys
      ("partha:ratelimit:".toList ++ key) now
    match contact with
    | .answered => (counted, some (count, max 1 ttl))
    | .lost true => (counted, none)
    | .lost false => (keys, none)

/-- A store that has a counter in windows for every key. Some contacts are counted, and of these
    some are answered. -/
structure Windowed {σ : Type} (store : RateLimitStore σ) (counts answers : Contact → Bool)
    (closed : ℚ → ℚ → Bool) (retryAfter : Window ℚ → ℚ → Int)
    (stands : σ → (Str → Option (Window ℚ)) → Prop) : Prop where
  counted : ∀ contact, answers contact = true → counts contact = true
  step : ∀ s w key now contact, stands s w →
    stands (store.hit s key now contact).1 (Function.update w key
      (if counts contact then some (FixedWindow.hit closed (w key) now) else w key))
  answer : ∀ s w key now contact, stands s w →
    (store.hit s key now contact).2 =
      if answers contact then some ((FixedWindow.hit closed (w key) now).count,
        retryAfter (FixedWindow.hit closed (w key) now) now)
      else none

/-- When a window in memory is over. -/
def memoryClosed (window : ℚ) (start now : ℚ) : Bool :=
  decide (window ≤ now - start)

/-- The seconds until a window in memory is over. -/
def memoryRetry (window : ℚ) (w : Window ℚ) (now : ℚ) : Int :=
  max 1 ⌈window - (now - w.start)⌉

/-- The dictionary has the start and the count of every window. -/
def MemoryStands (windows : List (Str × ℚ × Nat)) (w : Str → Option (Window ℚ)) : Prop :=
  ∀ key, windows.lookup key = (w key).map fun x => (x.start, x.count)

/-- The keys on the server have the counts, and expire with the windows. -/
structure RedisStands (window : ℚ) (keys : List (Str × RedisKey)) (w : Str → Option (Window ℚ)) :
    Prop where
  counters : ∀ key, keys.lookup ("partha:ratelimit:".toList ++ key) =
    (w key).map fun x => { value := x.count, expiresAt := some (x.start + window) }
  positive : ∀ key x, w key = some x → 0 < x.count

variable {w : Str → Option (Window ℚ)} {keys : List (Str × RedisKey)}

theorem memory_hit (window : ℚ) {windows : List (Str × ℚ × Nat)} (h : MemoryStands windows w)
    (key : Str) (now : ℚ) (contact : Contact) :
    (memoryStore window).hit windows key now contact =
      (Dict.set key ((FixedWindow.hit (memoryClosed window) (w key) now).start,
        (FixedWindow.hit (memoryClosed window) (w key) now).count) windows,
      some ((FixedWindow.hit (memoryClosed window) (w key) now).count,
        memoryRetry window (FixedWindow.hit (memoryClosed window) (w key) now) now)) := by
  simp only [memoryStore, memoryRetry, h key]
  cases hkey : w key with
  | none =>
    -- A window that is new is reset to itself if windows have no length.
    simp only [Option.map_none, Option.getD_none, FixedWindow.hit_none]
    split <;> rfl
  | some x =>
    simp only [Option.map_some, Option.getD_some]
    by_cases hclosed : window ≤ now - x.start
    · rw [FixedWindow.hit_closed (decide_eq_true hclosed), if_pos hclosed]
    · rw [FixedWindow.hit_open (decide_eq_false hclosed), if_neg hclosed]

theorem stands_set {α β : Type} {entries : List (Str × β)} {w : Str → Option α} (name : Str → Str)
    (hname : Function.Injective name) {f : α → β}
    (h : ∀ key, entries.lookup (name key) = (w key).map f) (key : Str) (x : α) :
    ∀ key', (Dict.set (name key) (f x) entries).lookup (name key') =
      (Function.update w key (some x) key').map f := by
  intro key'
  rw [Dict.lookup_set]
  by_cases hkey : key' = key
  · rw [hkey, if_pos rfl, Function.update_self]
    rfl
  · rw [if_neg (fun heq => hkey (hname heq)), Function.update_of_ne hkey, h key']

/-- The store in memory counts in windows. -/
theorem windowed_memory (window : ℚ) :
    Windowed (memoryStore window) (fun _ => true) (fun _ => true) (memoryClosed window)
      (memoryRetry window) MemoryStands where
  counted _ _ := rfl
  step s w key now contact h := by
    rw [memory_hit window h, if_pos rfl]
    exact stands_set id Function.injective_id h key _
  answer s w key now contact h := by
    rw [memory_hit window h, if_pos rfl]

/-- When a window on the server is over. -/
def redisClosed (server : RedisServer) (window : ℚ) (start now : ℚ) : Bool :=
  server.expired (start + window) now

/-- The seconds until a window on the server is over. -/
def redisRetry (server : RedisServer) (window : ℚ) (w : Window ℚ) (now : ℚ) : Int :=
  max 1 (server.seconds (w.start + window) now)

theorem windowScript_eq (server : RedisServer) (window : ℚ) {w : Option (Window ℚ)} {key : Str}
    (now : ℚ) (h : keys.lookup key = w.map fun x => ⟨x.count, some (x.start + window)⟩)
    (hpos : ∀ x, w = some x → 0 < x.count) :
    windowScript server window keys key now =
      (Dict.set key ⟨(FixedWindow.hit (redisClosed server window) w now).count,
        some ((FixedWindow.hit (redisClosed server window) w now).start + window)⟩ keys,
      (FixedWindow.hit (redisClosed server window) w now).count,
      (server.seconds ((FixedWindow.hit (redisClosed server window) w now).start + window) now :
        Int)) := by
  simp only [windowScript, RedisServer.live, h]
  cases w with
  | none => rfl
  | some x =>
    have hcount : x.count + 1 ≠ 1 := by
      have := hpos x rfl
      omega
    by_cases hclosed : server.expired (x.start + window) now = true
    · rw [FixedWindow.hit_closed hclosed]
      simp only [Option.map_some, Option.filter_some, hclosed, Bool.not_true]
      rfl
    · have hopen := Bool.eq_false_iff.mpr hclosed
      -- The key is there and keeps its time to live, which is not negative.
      have hnonneg : ¬ ((server.seconds (x.start + window) now : Int) < 0) := by omega
      rw [FixedWindow.hit_open hopen]
      simp only [Option.map_some, Option.filter_some, hopen, Bool.not_false, if_true,
        Option.getD_some, Option.bind_some, RedisServer.ttl, if_neg hcount, if_neg hnonneg]

theorem redisStands_set {window : ℚ} (h : RedisStands window keys w) (key : Str) {x : Window ℚ}
    (hx : 0 < x.count) :
    RedisStands window (Dict.set ("partha:ratelimit:".toList ++ key)
      ⟨x.count, some (x.start + window)⟩ keys) (Function.update w key (some x)) := by
  refine ⟨stands_set _ (fun a b hab => append_cancel_left hab) h.counters key x,
    fun key' y hy => ?_⟩
  by_cases hkey : key' = key
  · rw [hkey, Function.update_self] at hy
    rwa [← Option.some.inj hy]
  · rw [Function.update_of_ne hkey] at hy
    exact h.positive key' y hy

/-- The server counts unless the contact is lost before, and answers unless it is lost at all. -/
theorem redis_hit (server : RedisServer) (window : ℚ) (h : RedisStands window keys w) (key : Str)
    (now : ℚ) (contact : Contact) : let x := FixedWindow.hit (redisClosed server window) (w key) now
    (redisStore server window).hit keys key now contact =
      (if contact.isCounted then Dict.set ("partha:ratelimit:".toList ++ key)
          ⟨x.count, some (x.start + window)⟩ keys else keys,
        if contact.isAnswered then some (x.count, redisRetry server window x now) else none) := by
  dsimp only [redisStore]
  rw [windowScript_eq server window now (h.counters key) (h.positive key)]
  cases contact with
  | answered => rfl
  | lost carriedOut =>
    cases carriedOut with
    | true => rfl
    | false => rfl

/-- The store on the server counts in windows. -/
theorem windowed_redis (server : RedisServer) (window : ℚ) :
    Windowed (redisStore server window) Contact.isCounted Contact.isAnswered
      (redisClosed server window) (redisRetry server window) (RedisStands window) where
  counted contact h := by
    cases contact with
    | answered => rfl
    | lost carriedOut => cases h
  step s w key now contact h := by
    rw [redis_hit server window h]
    by_cases hcounted : contact.isCounted = true
    · rw [if_pos hcounted, if_pos hcounted]
      exact redisStands_set h key (FixedWindow.hit_count_pos _ _ _)
    · rwa [if_neg hcounted, if_neg hcounted, Function.update_eq_self]
  answer s w key now contact h := by
    rw [redis_hit server window h]

end Stores

section Middleware

/-- What `app.state` has, and what access tokens are decoded to. -/
structure AppState (σ : Type) where
  settings : Settings
  store : RateLimitStore σ
  decodeAccessToken : Str → ℚ → Option Str

variable {σ : Type} (app : AppState σ)

/-- What the middleware does with a request. One that the store gives no count for passes unchecked,
    which is logged and counted. -/
inductive Outcome where
  | passed
  | unchecked
  | limited (retryAfter : Int)
  deriving DecidableEq, Repr

/-- `dispatch`. -/
def dispatch (s : σ) (r : Arrival) : σ × Outcome :=
  if app.settings.enabled = false then (s, .passed)
  else match classify r.request.method r.request.path with
    | none => (s, .passed)
    | some budgetClass =>
      let key := counterKey budgetClass (resolveRateKey app.decodeAccessToken r.request r.time)
      match app.store.hit s key r.time r.contact with
      | (s, none) => (s, .unchecked)
      | (s, some (count, retryAfter)) =>
        if app.settings.budget budgetClass < count then (s, .limited retryAfter) else (s, .passed)

/-- A run: each request with what is done with it. -/
def serve : σ → List Arrival → List (Arrival × Outcome)
  | _, [] => []
  | s, r :: requests =>
    let (s, outcome) := dispatch app s r
    (r, outcome) :: serve s requests

/-- The state after a run. -/
def after : σ → List Arrival → σ
  | s, [] => s
  | s, r :: requests => after (dispatch app s r).1 requests

/-- The request is counted for this class and this identity. -/
def CountsFor (budgetClass : BudgetClass) (identity : Str) (r : Arrival) : Prop :=
  classify r.request.method r.request.path = some budgetClass ∧
    resolveRateKey app.decodeAccessToken r.request r.time = identity

instance (budgetClass : BudgetClass) (identity : Str) (r : Arrival) :
    Decidable (CountsFor app budgetClass identity r) :=
  inferInstanceAs (Decidable (_ ∧ _))

/-- The answers to the requests of a class and an identity. -/
def answersFor (budgetClass : BudgetClass) (identity : Str) (answers : List (Arrival × Outcome)) :
    List (Arrival × Outcome) :=
  answers.filter fun a => decide (CountsFor app budgetClass identity a.1)

/-- How many requests of a class and an identity are checked and pass in the minute from `t`. -/
def passedWithin (budgetClass : BudgetClass) (identity : Str) (t : ℚ)
    (answers : List (Arrival × Outcome)) : Nat :=
  (answersFor app budgetClass identity answers).countP fun a =>
    decide (t ≤ a.1.time ∧ a.1.time < t + windowSeconds ∧ a.2 = .passed)

/-- The requests of a class and an identity. -/
def requestsFor (budgetClass : BudgetClass) (identity : Str) (requests : List Arrival) :
    List Arrival :=
  requests.filter fun r => decide (CountsFor app budgetClass identity r)

theorem counterKey_inj {budgetClass budgetClass' : BudgetClass} {identity identity' : Str}
    (h : counterKey budgetClass identity = counterKey budgetClass' identity') :
    budgetClass = budgetClass' ∧ identity = identity' := by
  -- The names have no colon, so the first one ends the class.
  have hnames : budgetClass.name = budgetClass'.name ∧ identity = identity' := by
    have hfree : ∀ c : BudgetClass, ':' ∉ c.name := by
      intro c
      cases c <;> decide
    have hcut := congrArg (fun s => s.takeWhile (fun c => c != ':')) h
    have hrest := congrArg (fun s => (s.dropWhile (fun c => c != ':')).drop 1) h
    have hplain : ∀ c : BudgetClass, ∀ x ∈ c.name, (x != ':') = true := fun c x hx =>
      bne_iff_ne.mpr (fun he => hfree c (he ▸ hx))
    simp only [counterKey, takeWhile_append_of_pos (hplain _),
      dropWhile_append_of_pos (hplain _)] at hcut hrest
    simpa using And.intro hcut hrest
  refine ⟨?_, hnames.2⟩
  have hname := hnames.1
  cases budgetClass <;> cases budgetClass' <;> first | rfl | exact absurd hname (by decide)

end Middleware

section Runs

variable {σ : Type} {app : AppState σ} {counts answers : Contact → Bool} {closed : ℚ → ℚ → Bool}
  {retryAfter : Window ℚ → ℚ → Int} {stands : σ → (Str → Option (Window ℚ)) → Prop}

/-- What a budget says to a request, with the counter that it hits. -/
def verdict (budget : Nat) (answers : Contact → Bool) (retryAfter : Window ℚ → ℚ → Int)
    (w : Window ℚ) (r : Arrival) : Outcome :=
  if answers r.contact then
    if budget < w.count then .limited (retryAfter w r.time) else .passed
  else .unchecked

/-- What one counter with a budget says to a list of requests. -/
def verdicts (budget : Nat) (counts answers : Contact → Bool) (closed : ℚ → ℚ → Bool)
    (retryAfter : Window ℚ → ℚ → Int) :
    Option (Window ℚ) → List Arrival → List (Arrival × Outcome)
  | _, [] => []
  | window, r :: requests =>
    let w := FixedWindow.hit closed window r.time
    (r, verdict budget answers retryAfter w r) :: verdicts budget counts answers closed retryAfter
      (if counts r.contact then some w else window) requests

theorem verdict_passed {budget : Nat} {w : Window ℚ} {r : Arrival}
    (h : verdict budget answers retryAfter w r = .passed) : w.count ≤ budget := by
  by_contra hover
  rw [verdict] at h
  split at h
  · rw [if_pos (not_le.mp hover)] at h
    cases h
  · cases h

section Steps

variable (henabled : app.settings.enabled = true)
  (hwindowed : Windowed app.store counts answers closed retryAfter stands)

include henabled hwindowed

variable {s : σ} {w : Str → Option (Window ℚ)} {budgetClass : BudgetClass} {identity : Str}
  {r : Arrival}

/-- A request that is counted for the class and the identity. -/
theorem dispatch_counted (hs : stands s w) (h : CountsFor app budgetClass identity r) :
    let window := w (counterKey budgetClass identity)
    let x := FixedWindow.hit closed window r.time
    stands (dispatch app s r).1 (Function.update w (counterKey budgetClass identity)
      (if counts r.contact then some x else window)) ∧
    (dispatch app s r).2 =
      verdict (app.settings.budget budgetClass) answers retryAfter x r := by
  have hanswer := hwindowed.answer s w (counterKey budgetClass identity) r.time r.contact hs
  have hstep := hwindowed.step s w (counterKey budgetClass identity) r.time r.contact hs
  rcases hhit : app.store.hit s (counterKey budgetClass identity) r.time r.contact with ⟨s', count⟩
  rw [hhit] at hanswer hstep
  dsimp only at hanswer hstep
  simp only [dispatch, henabled, h.1, h.2, hhit, Bool.true_eq_false, if_false]
  by_cases hanswers : answers r.contact = true
  · rw [hanswer, if_pos hanswers, verdict, if_pos hanswers]
    dsimp only
    split
    · exact ⟨hstep, rfl⟩
    · exact ⟨hstep, rfl⟩
  · -- The store gives no count, whether it has counted or not.
    rw [hanswer, if_neg hanswers, verdict, if_neg hanswers]
    exact ⟨hstep, rfl⟩

/-- Any other request leaves the counter as it is. -/
theorem dispatch_other (hs : stands s w) (h : ¬ CountsFor app budgetClass identity r) :
    ∃ w', stands (dispatch app s r).1 w' ∧
      w' (counterKey budgetClass identity) = w (counterKey budgetClass identity) := by
  cases hclass : classify r.request.method r.request.path with
  | none =>
    -- An exempt request does not reach the store.
    have hdispatch : (dispatch app s r).1 = s := by
      simp only [dispatch, henabled, hclass, Bool.true_eq_false, if_false]
    exact ⟨w, by rwa [hdispatch], rfl⟩
  | some budgetClass' =>
    have hcounted : CountsFor app budgetClass'
        (resolveRateKey app.decodeAccessToken r.request r.time) r := ⟨hclass, rfl⟩
    refine ⟨_, (dispatch_counted henabled hwindowed hs hcounted).1, ?_⟩
    refine Function.update_of_ne (fun hkey => h ?_) _ _
    rcases counterKey_inj hkey with ⟨hc, hi⟩
    rw [hc, hi]
    exact hcounted

/-- A class and an identity are answered by their own counter. -/
theorem answersFor_serve (budgetClass : BudgetClass) (identity : Str) (hs : stands s w)
    (requests : List Arrival) :
    answersFor app budgetClass identity (serve app s requests) =
      verdicts (app.settings.budget budgetClass) counts answers closed retryAfter
        (w (counterKey budgetClass identity))
        (requestsFor app budgetClass identity requests) := by
  induction requests generalizing s w with
  | nil => rfl
  | cons r requests ih =>
    simp only [serve, answersFor, requestsFor, filter_cons, decide_eq_true_eq]
    by_cases h : CountsFor app budgetClass identity r
    · rcases dispatch_counted henabled hwindowed hs h with ⟨hstands, houtcome⟩
      have hrest := ih hstands
      rw [Function.update_self] at hrest
      rw [if_pos h, if_pos h, verdicts, houtcome]
      exact congrArg _ hrest
    · -- The counter is where it was for the next request.
      rcases dispatch_other henabled hwindowed hs h with ⟨w', hstands, hw'⟩
      rw [if_neg h, if_neg h, ← hw']
      exact ih hstands

/-- The counter after a run is the one before, hit by the requests of its class and identity. -/
theorem stands_after (budgetClass : BudgetClass) (identity : Str) (hs : stands s w)
    {requests : List Arrival} (h : requestsFor app budgetClass identity requests = []) :
    ∃ w', stands (after app s requests) w' ∧
      w' (counterKey budgetClass identity) = w (counterKey budgetClass identity) := by
  induction requests generalizing s w with
  | nil => exact ⟨w, hs, rfl⟩
  | cons r requests ih =>
    have hother : ¬ CountsFor app budgetClass identity r := by
      intro hcounted
      rw [requestsFor, filter_cons, if_pos (decide_eq_true hcounted)] at h
      cases h
    rw [requestsFor, filter_cons, if_neg (by rwa [decide_eq_true_eq])] at h
    rcases dispatch_other henabled hwindowed hs hother with ⟨w₁, hstands, hw₁⟩
    rcases ih hstands h with ⟨w₂, hstands₂, hw₂⟩
    exact ⟨w₂, hstands₂, hw₂.trans hw₁⟩

end Steps

/-- What is checked and passes is within the limit, among all that is counted. -/
theorem passed_verdicts (hcounted : ∀ contact, answers contact = true → counts contact = true)
    (budget : Nat) (t : ℚ) (window : Option (Window ℚ)) (requests : List Arrival) :
    ((verdicts budget counts answers closed retryAfter window requests).countP fun a =>
      decide (t ≤ a.1.time ∧ a.1.time < t + windowSeconds ∧ a.2 = .passed)) ≤
      FixedWindow.admitted budget t (windowSeconds : ℚ) (FixedWindow.hits closed window
        ((requests.filter fun r => counts r.contact).map Arrival.time)) := by
  induction requests generalizing window with
  | nil => exact Nat.le_refl 0
  | cons r requests ih =>
    rw [verdicts, countP_cons, filter_cons]
    by_cases hcounts : counts r.contact = true
    · rw [if_pos hcounts, if_pos hcounts, map_cons, FixedWindow.hits,
        FixedWindow.admitted_cons]
      refine Nat.add_le_add (ih _) ?_
      by_cases hpassed : t ≤ r.time ∧ r.time < t + windowSeconds ∧
          verdict budget answers retryAfter (FixedWindow.hit closed window r.time) r = .passed
      · rw [if_pos (decide_eq_true hpassed), if_pos]
        exact ⟨hpassed.1, hpassed.2.1, verdict_passed hpassed.2.2⟩
      · rw [if_neg (by rwa [decide_eq_true_eq])]
        exact Nat.zero_le _
    · -- What is not counted is not answered either, so that it is not checked.
      have hanswers : ¬ answers r.contact = true := fun h => hcounts (hcounted _ h)
      rw [if_neg hcounts, if_neg hcounts, verdict, if_neg hanswers, if_neg (by
        rw [decide_eq_true_eq]
        exact fun h => (by cases h.2.2)), Nat.add_zero]
      exact ih window

variable {s : σ} {w : Str → Option (Window ℚ)} {requests : List Arrival}

/-- Some counters are there after any run. -/
theorem exists_stands (hwindowed : Windowed app.store counts answers closed retryAfter stands)
    (hs : stands s w) (requests : List Arrival) : ∃ w', stands (after app s requests) w' := by
  induction requests generalizing s w with
  | nil => exact ⟨w, hs⟩
  | cons r requests ih =>
    by_cases henabled : app.settings.enabled = true
    · cases hclass : classify r.request.method r.request.path with
      | none =>
        rw [after, show (dispatch app s r).1 = s by
          simp only [dispatch, hclass, ite_self]]
        exact ih hs
      | some budgetClass =>
        have hcounted : CountsFor app budgetClass
            (resolveRateKey app.decodeAccessToken r.request r.time) r := ⟨hclass, rfl⟩
        exact ih (dispatch_counted henabled hwindowed hs hcounted).1
    · rw [after, show (dispatch app s r).1 = s by
        simp only [dispatch, Bool.eq_false_iff.mpr henabled, if_true]]
      exact ih hs

/-- A run answers its own requests. -/
theorem map_serve (s : σ) (requests : List Arrival) :
    (serve app s requests).map Prod.fst = requests := by
  induction requests generalizing s with
  | nil => rfl
  | cons r requests ih =>
    rw [serve, map_cons, ih]

/-- Without limits everything passes. -/
theorem serve_disabled (h : app.settings.enabled = false) (s : σ) (requests : List Arrival) :
    serve app s requests = requests.map fun r => (r, .passed) := by
  induction requests generalizing s with
  | nil => rfl
  | cons r requests ih =>
    simp only [serve, dispatch, h, if_true, map_cons, ih]

/-- Only the requests of a class and an identity matter for them. -/
theorem answersFor_requestsFor
    (hwindowed : Windowed app.store counts answers closed retryAfter stands) (hs : stands s w)
    (budgetClass : BudgetClass) (identity : Str) (requests : List Arrival) :
    answersFor app budgetClass identity
        (serve app s requests) =
      serve app s
        (requestsFor app budgetClass identity requests) := by
  by_cases henabled : app.settings.enabled = true
  · -- Both sides are what the counter says, since all answers on the right are its own.
    have hall : answersFor app budgetClass identity
        (serve app s
          (requestsFor app budgetClass identity requests)) =
        serve app s
          (requestsFor app budgetClass identity requests) := by
      refine filter_eq_self.mpr (fun a ha => ?_)
      have hmem := mem_map_of_mem (f := Prod.fst) ha
      rw [map_serve] at hmem
      exact (mem_filter.mp hmem).2
    rw [← hall, answersFor_serve henabled hwindowed budgetClass identity hs,
      answersFor_serve henabled hwindowed budgetClass identity hs]
    congr 1
    rw [requestsFor, requestsFor, filter_filter]
    simp only [Bool.and_self]
  · have hdisabled := Bool.eq_false_iff.mpr henabled
    rw [serve_disabled hdisabled, serve_disabled hdisabled, answersFor, requestsFor,
      filter_map]
    rfl

/-- At most twice the budget passes in any minute. -/
theorem passedWithin_le (henabled : app.settings.enabled = true)
    (hwindowed : Windowed app.store counts answers closed retryAfter stands)
    (hopen : ∀ start now : ℚ, now < start + windowSeconds → closed start now = false)
    (hs : stands s w) (hsorted : (requests.map Arrival.time).Pairwise (· ≤ ·))
    (budgetClass : BudgetClass) (identity : Str) (t : ℚ) :
    passedWithin app budgetClass identity t
      (serve app s requests) ≤ 2 * app.settings.budget budgetClass := by
  rw [passedWithin, answersFor_serve henabled hwindowed budgetClass identity hs]
  refine (passed_verdicts hwindowed.counted _ t _ _).trans (FixedWindow.admitted_le hopen ?_ _)
  exact hsorted.sublist ((filter_sublist.trans filter_sublist).map Arrival.time)

/-- A request passes unchecked only when the store does not answer. -/
theorem unchecked_serve (hwindowed : Windowed app.store counts answers closed retryAfter stands)
    (hs : stands s w) {a : Arrival × Outcome} (ha : a ∈ serve app s requests)
    (hunchecked : a.2 = .unchecked) : answers a.1.contact = false := by
  induction requests generalizing s w with
  | nil => cases ha
  | cons r requests ih =>
    rcases mem_cons.mp ha with rfl | ha
    · change (dispatch app s r).2 = .unchecked at hunchecked
      by_cases henabled : app.settings.enabled = true
      · cases hclass : classify r.request.method r.request.path with
        | none =>
          simp only [dispatch, henabled, hclass, Bool.true_eq_false, if_false] at hunchecked
          cases hunchecked
        | some budgetClass =>
          have hverdict := (dispatch_counted henabled hwindowed hs
            (r := r) ⟨hclass, rfl⟩).2.symm.trans hunchecked
          rw [verdict] at hverdict
          split at hverdict
          · split at hverdict
            · cases hverdict
            · cases hverdict
          · exact Bool.eq_false_iff.mpr ‹_›
      · rw [dispatch, if_pos (Bool.eq_false_iff.mpr henabled)] at hunchecked
        cases hunchecked
    · rcases exists_stands hwindowed hs [r] with ⟨w', hs'⟩
      exact ih hs' ha

end Runs

section Stores

theorem memoryStands_nil : MemoryStands [] (fun _ => none) :=
  fun _ => rfl

theorem redisStands_nil (window : ℚ) : RedisStands window [] (fun _ => none) where
  counters _ := rfl
  positive _ _ h := by cases h

variable {window start now : ℚ}

theorem memoryClosed_open (h : now < start + window) : memoryClosed window start now = false :=
  decide_eq_false (by linarith)

theorem redisClosed_open (server : RedisServer) (h : now < start + window) :
    redisClosed server window start now = false :=
  server.alive _ _ h

variable (settings : Settings) (decodeAccessToken : Str → ℚ → Option Str)

def memoryApp : AppState (List (Str × ℚ × Nat)) :=
  { settings := settings, store := memoryStore windowSeconds,
    decodeAccessToken := decodeAccessToken }

def redisApp (server : RedisServer) : AppState (List (Str × RedisKey)) :=
  { settings := settings, store := redisStore server windowSeconds,
    decodeAccessToken := decodeAccessToken }

/-- In any minute of any run, with either store, no more than two budgets pass of the requests of a
    class and an identity that are checked. All are but those that the server does not answer. -/
theorem budget_bounded (server : RedisServer) (henabled : settings.enabled = true)
    (requests : List Arrival) (hsorted : (requests.map Arrival.time).Pairwise (· ≤ ·))
    (budgetClass : BudgetClass) (identity : Str) (t : ℚ) :
    let memory := memoryApp settings decodeAccessToken
    let redis := redisApp settings decodeAccessToken server
    passedWithin memory budgetClass identity t (serve memory [] requests) ≤
        2 * settings.budget budgetClass ∧
      passedWithin redis budgetClass identity t (serve redis [] requests) ≤
        2 * settings.budget budgetClass ∧
      (∀ a ∈ serve memory [] requests, a.2 ≠ .unchecked) ∧
      ∀ a ∈ serve redis [] requests, a.2 = .unchecked → a.1.contact ≠ .answered := by
  refine ⟨passedWithin_le henabled (windowed_memory _) (fun _ _ => memoryClosed_open)
      memoryStands_nil hsorted budgetClass identity t,
    passedWithin_le henabled (windowed_redis server _) (fun _ _ => redisClosed_open server)
      (redisStands_nil _) hsorted budgetClass identity t, fun a ha hunchecked => ?_,
    fun a ha hunchecked hanswered => ?_⟩
  · cases unchecked_serve (windowed_memory _) memoryStands_nil ha hunchecked
  · have hlost := unchecked_serve (windowed_redis server _) (redisStands_nil _) ha hunchecked
    rw [hanswered] at hlost
    cases hlost

/-- A login without a token. -/
def login : Request :=
  { method := "POST".toList
    path := "/auth/login".toList
    authorization := none
    client := some "203.0.113.9".toList }

def loginAt (time : ℚ) : Arrival :=
  { request := login, time := time, contact := .answered }

/-- Logins just before and just after a window is over. -/
def loginsAround : List Arrival :=
  [0, 59, 59, 60, 61].map loginAt

/-- Two logins a minute. -/
def twoLogins : Settings :=
  { enabled := true, authPerMinute := 2, aiPerMinute := 1, heavyPerMinute := 1,
    defaultPerMinute := 1, positive := by decide }

def twoLoginsApp : AppState (List (Str × ℚ × Nat)) :=
  memoryApp twoLogins (fun _ _ => none)

/-- A server on which keys are gone as soon as their time is up. -/
def promptServer : RedisServer where
  expired expiry now := decide (expiry ≤ now)
  seconds expiry now := ⌈expiry - now⌉.toNat
  alive _ _ h := decide_eq_false (not_le.mpr h)

/-- The same, while the server cannot be reached once, and once its answer is lost. -/
def loginsLost : List Arrival :=
  [loginAt 0, { loginAt 59 with contact := .lost false },
    { loginAt 59 with contact := .lost true }, loginAt 60, loginAt 61, loginAt 61]

/-- Three logins pass within two seconds, which is more than one budget. Without the server two more
    pass unchecked. -/
theorem budget_bounded_around :
    passedWithin twoLoginsApp .auth "ip:203.0.113.9".toList 59
      (serve twoLoginsApp [] loginsAround) = 3 ∧ 3 ≤ 4 ∧
    passedWithin (redisApp twoLogins (fun _ _ => none) promptServer) .auth
      "ip:203.0.113.9".toList 59
      (serve (redisApp twoLogins (fun _ _ => none) promptServer) [] loginsLost) ≤ 4 ∧
    (serve (redisApp twoLogins (fun _ _ => none) promptServer) [] loginsLost).map Prod.snd =
      [.passed, .unchecked, .unchecked, .passed, .passed, .limited 59] := by
  have h := budget_bounded twoLogins (fun _ _ => none) promptServer rfl
  have haround := (h loginsAround (by decide) .auth "ip:203.0.113.9".toList 59).1
  have hlost := (h loginsLost (by decide) .auth "ip:203.0.113.9".toList 59).2.1
  exact ⟨by decide +kernel, le_of_eq_of_le (by decide +kernel) haround, hlost, by decide +kernel⟩

/-- What a request is answered depends on the requests of its own class and identity only. -/
theorem budgets_independent (server : RedisServer) (requests : List Arrival)
    (budgetClass : BudgetClass) (identity : Str) :
    let memory := memoryApp settings decodeAccessToken
    let redis := redisApp settings decodeAccessToken server
    answersFor memory budgetClass identity (serve memory [] requests) =
        serve memory [] (requestsFor memory budgetClass identity requests) ∧
      answersFor redis budgetClass identity (serve redis [] requests) =
        serve redis [] (requestsFor redis budgetClass identity requests) :=
  ⟨answersFor_requestsFor (windowed_memory _) memoryStands_nil budgetClass identity requests,
    answersFor_requestsFor (windowed_redis server _) (redisStands_nil _) budgetClass identity
      requests⟩

end Stores

end RateLimit

end Partha
