import Partha.Library.Rows
import Partha.Library.Steps

/-!
# Refresh-Token Sessions

The refresh-token side of `AuthService`, as the requests see it when they
interleave.

A request is a little program over the `refresh_tokens` table. Its reads, its
guarded `UPDATE` and its commit are separate steps, and between two of them any
other request may move. What a request has read so far is carried by its
`Request` value; what it has committed is in `Db`. A write that is not yet
committed is held by the request together with the lock on the row it wrote,
so no other request sees it and none can write the same row meanwhile.

`refresh` reads the presented token, then the user, then claims the token with
`UPDATE ... WHERE used_at IS NULL`, then inserts the successor and commits both
writes at once. `logout` reads the token and revokes its family. Revocation is
a read of the family followed by a write of the rows that read returned, in
that order and not in one statement, and the row the request loaded first keeps
the values it was loaded with: the session returns the object it already holds.

Identifiers and raw tokens come from `uuid4` and `token_urlsafe`, which are
counters here, so two of them never coincide. The token hash is a parameter.
Nothing needs it to be injective, since `token_hash` has a unique index: an
insertion that would collide fails at its commit.

## Main definitions

* `RefreshToken`: One row of `refresh_tokens`.
* `Request`: What a request has read and where it stands.
* `State`: The committed tables, the locks and every request.
* `refresh`, `loadUser`, `claimToken`, `issueRefresh`: The steps of a refresh.
* `logout`: The first step of a logout.
* `selectFamily`, `commitRevoke`: The two steps of `_revoke_family`.
* `openSession`: A login, from the point where the user is authenticated.
* `sessions`: The system of all interleavings.
-/

namespace Partha

namespace Auth

/-- One issued refresh token. The raw token is never stored. -/
structure RefreshToken where
  id : Nat
  userId : Nat
  tokenHash : Nat
  familyId : Nat
  expiresAt : Nat
  usedAt : Option Nat
  revokedAt : Option Nat
  deriving DecidableEq, Repr

def RefreshToken.markUsed (now : Nat) (t : RefreshToken) : RefreshToken :=
  { t with usedAt := some now }

def RefreshToken.markRevoked (now : Nat) (t : RefreshToken) : RefreshToken :=
  { t with revokedAt := some now }

/-- What a request that revokes a family answers once it has. -/
inductive Caller where
  | refresh
  | logout
  deriving DecidableEq, Repr

/-- A request, by the last step it took and what that step read. -/
inductive Request where
  | idle
  | loaded (record : RefreshToken) (now : Nat)
  | checked (record : RefreshToken) (now : Nat)
  | claimed (record : RefreshToken) (now : Nat)
  | revoking (record : RefreshToken) (now : Nat) (caller : Caller)
  | selected (familyId : Nat) (ids : List Nat) (now : Nat) (caller : Caller)
  | exchanged (record successor : RefreshToken)
  | opened (record : RefreshToken)
  | rejected
  | loggedOut
  | crashed
  deriving DecidableEq, Repr

/-- The deployment's constants: the token hash and `refresh_token_ttl_seconds`. -/
structure Settings where
  hashRefreshToken : Nat → Nat
  refreshTokenTtlSeconds : Nat

/-- The committed tables, the row locks and the requests in flight. `users`
    gives `is_active` for the users that exist. -/
structure State where
  tokens : List RefreshToken
  users : Nat → Option Bool
  now : Nat
  nextUuid : Nat
  nextRaw : Nat
  lock : Nat → Option Nat
  request : Nat → Request

namespace State

def setRequest (s : State) (r : Nat) (q : Request) : State :=
  { s with request := fun r' => if r' = r then q else s.request r' }

def setTokens (s : State) (tokens : List RefreshToken) : State :=
  { s with tokens := tokens }

/-- Take the lock on token row `id` for request `r`. -/
def acquire (s : State) (id r : Nat) : State :=
  { s with lock := fun id' => if id' = id then some r else s.lock id' }

/-- Release every lock of request `r`, at its commit or rollback. -/
def release (s : State) (r : Nat) : State :=
  { s with lock := fun id => if s.lock id = some r then none else s.lock id }

/-- No request but `r` holds the lock on row `id`. -/
def Unlocked (s : State) (id r : Nat) : Prop :=
  s.lock id = none ∨ s.lock id = some r

instance (s : State) (id r : Nat) : Decidable (s.Unlocked id r) :=
  inferInstanceAs (Decidable (_ ∨ _))

end State

/-- What a request or its environment does next. -/
inductive Action where
  | tick
  | setUser (userId : Nat) (isActive : Option Bool)
  | openSession (r userId : Nat)
  | refresh (r raw : Nat)
  | loadUser (r : Nat)
  | claimToken (r : Nat)
  | issueRefresh (r : Nat)
  | logout (r : Nat) (raw : Option Nat)
  | selectFamily (r : Nat)
  | commitRevoke (r : Nat)
  | crash (r : Nat)
  deriving DecidableEq, Repr

variable (cfg : Settings)

/-- The row a request presents, looked up by the hash of the raw token. -/
def findToken (s : State) (raw : Nat) : Option RefreshToken :=
  s.tokens.find? (fun t => t.tokenHash = cfg.hashRefreshToken raw)

/-- The row `_issue_refresh` adds: a fresh token in the given family. -/
def newToken (s : State) (userId familyId : Nat) : RefreshToken :=
  { id := s.nextUuid
    userId := userId
    tokenHash := cfg.hashRefreshToken s.nextRaw
    familyId := familyId
    expiresAt := s.now + cfg.refreshTokenTtlSeconds
    usedAt := none
    revokedAt := none }

/-- Insert a row, unless its hash is taken: `token_hash` has a unique index. -/
def insertToken (s : State) (t : RefreshToken) : Option State :=
  if s.tokens.any (fun t' => t'.tokenHash = t.tokenHash) then none
  else some { s with
    tokens := s.tokens ++ [t]
    nextUuid := s.nextUuid + 2
    nextRaw := s.nextRaw + 1 }

/-- `open_session`: a family of its own for a user who just authenticated. -/
def openSession (s : State) (r userId : Nat) : State :=
  let t := newToken cfg s userId (s.nextUuid + 1)
  match insertToken s t with
  | none => s.setRequest r .crashed
  | some s' => s'.setRequest r (.opened t)

/-- `refresh` up to its first decision: read the row and look at it. -/
def refresh (s : State) (r raw : Nat) : State :=
  match findToken cfg s raw with
  | none => s.setRequest r .rejected
  | some record =>
    if record.revokedAt.isSome ∨ record.expiresAt ≤ s.now then s.setRequest r .rejected
    else if record.usedAt.isSome then s.setRequest r (.revoking record s.now .refresh)
    else s.setRequest r (.loaded record s.now)

/-- The user behind the token has to exist and be active. -/
def loadUser (s : State) (r : Nat) (record : RefreshToken) (now : Nat) : State :=
  if s.users record.userId = some true then s.setRequest r (.checked record now)
  else s.setRequest r (.revoking record now .refresh)

/-- `_claim_token`: the guarded `UPDATE`. It waits while another request holds
    the row, matches the row only if it is unused, and keeps the lock it won
    until the commit. -/
def claimToken (s : State) (r : Nat) (record : RefreshToken) (now : Nat) : Option State :=
  if s.Unlocked record.id r then
    if Rows.rowcount (fun t => t.id = record.id ∧ t.usedAt = none) s.tokens = 1 then
      some ((s.acquire record.id r).setRequest r (.claimed record now))
    else some (s.setRequest r (.revoking record now .refresh))
  else none

/-- The commit of a refresh that won its claim: the token is used and its
    successor exists, both at once. -/
def issueRefresh (s : State) (r : Nat) (record : RefreshToken) (now : Nat) : State :=
  let successor := newToken cfg s record.userId record.familyId
  let used := s.setTokens
    (Rows.updateWhere (fun t => t.id = record.id) (RefreshToken.markUsed now) s.tokens)
  match insertToken used successor with
  | none => (s.release r).setRequest r .crashed
  | some s' => (s'.release r).setRequest r (.exchanged record successor)

/-- `logout` up to the revocation. A missing or unknown token is not an error. -/
def logout (s : State) (r : Nat) (raw : Option Nat) : State :=
  match raw.bind (findToken cfg s) with
  | none => s.setRequest r .loggedOut
  | some record => s.setRequest r (.revoking record s.now .logout)

/-- The row as the session of a revocation sees it: the object it loaded first
    keeps the values it was loaded with. -/
def seen (record t : RefreshToken) : RefreshToken :=
  if t.id = record.id then record else t

/-- The read of `_revoke_family`: the rows it will mark. -/
def selectFamily (s : State) (r : Nat) (record : RefreshToken) (now : Nat) (caller : Caller) :
    State :=
  let records := s.tokens.filter (fun t => t.familyId = record.familyId)
  let unmarked := records.filter (fun t => (seen record t).revokedAt = none)
  s.setRequest r (.selected record.familyId (unmarked.map (·.id)) now caller)

/-- The commit of `_revoke_family`. It writes the rows the read returned, once
    no other request holds one of them. -/
def commitRevoke (s : State) (r : Nat) (ids : List Nat) (now : Nat) (caller : Caller) :
    Option State :=
  if ∀ id ∈ ids, s.Unlocked id r then
    let marked := s.setTokens
      (Rows.updateWhere (fun t => t.id ∈ ids) (RefreshToken.markRevoked now) s.tokens)
    some ((marked.release r).setRequest r
      (match caller with
        | .refresh => .rejected
        | .logout => .loggedOut))
  else none

/-- One step of one request, or of its environment. A step that does not fit
    where the request stands is refused. -/
def step (s : State) : Action → Option State
  | .tick => some { s with now := s.now + 1 }
  | .setUser u active => some { s with users := fun u' => if u' = u then active else s.users u' }
  | .openSession r u => match s.request r with
    | .idle => some (openSession cfg s r u)
    | _ => none
  | .refresh r raw => match s.request r with
    | .idle => some (refresh cfg s r raw)
    | _ => none
  | .loadUser r => match s.request r with
    | .loaded record now => some (loadUser s r record now)
    | _ => none
  | .claimToken r => match s.request r with
    | .checked record now => claimToken s r record now
    | _ => none
  | .issueRefresh r => match s.request r with
    | .claimed record now => some (issueRefresh cfg s r record now)
    | _ => none
  | .logout r raw => match s.request r with
    | .idle => some (logout cfg s r raw)
    | _ => none
  | .selectFamily r => match s.request r with
    | .revoking record now caller => some (selectFamily s r record now caller)
    | _ => none
  | .commitRevoke r => match s.request r with
    | .selected _ ids now caller => commitRevoke s r ids now caller
    | _ => none
  | .crash r => some ((s.release r).setRequest r .crashed)

/-- Nothing has been issued and no request has started. -/
def initial : State :=
  { tokens := []
    users := fun _ => none
    now := 0
    nextUuid := 0
    nextRaw := 0
    lock := fun _ => none
    request := fun _ => .idle }

/-- All interleavings of any number of requests. -/
def sessions : StepSystem State Action :=
  { init := fun s => s = initial
    step := step cfg }

end Auth

end Partha
