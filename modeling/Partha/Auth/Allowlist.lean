import Partha.Auth.Accounts

/-!
# The Registration Allowlist

Registrations, deletions of accounts and approvals, one after the other.

Who may register is decided by `approved_emails`. The exception is the first user
of an instance, whose address is approved on the spot. Whether there has been a
first user is decided by counting the users, and an account that is deleted does
not count. So an instance whose last account is deleted has a first user again.

The rows and the insertion of an account are those of `Accounts`, where the steps
of a registration interleave. Here a request runs from its beginning to its end,
and it commits what it has done or leaves everything as it was.

`log` is not a table. It records who was approved, who registered and who left, in
this order.

## Main definitions

* `Instance`: The tables, the sessions and the log.
* `register`, `registerOauthUser`: The two doors.
* `requireApproval`: `_require_approval`, with the bootstrap of the first user.
* `deleteAccount`: `delete_account`.
* `registrations`: The system of all histories.
* `Vetted`: Who may have registered.
* `FirstStaysFirst`: The registrations that keep the list.

## Theorems

* `guarded_step`: What such registrations keep.
* `allowlist_holds`: When nobody gets around the list.
-/

namespace Partha

namespace Allowlist

open List
open Accounts (User ApprovedEmail Approval Door OAuthIdentityInfo Settings Answer seedUserId newUser
  insertUser emailNotApproved emailTaken)

section Definitions

/-- What has happened to an address or to an account. -/
inductive Entry where
  | approved (email : String)
  | registered (userId : Nat) (email : String) (bootstrap : Bool)
  | deleted (userId : Nat)
  deriving DecidableEq, Repr

/-- `AccountDeletionAuditRecord`, once it is completed. -/
structure AccountDeletionAuditRecord where
  deletedUserId : Nat
  requestedAt : Nat
  completedAt : Nat
  deriving DecidableEq, Repr

structure Instance where
  base : Accounts.State
  sessions : List Nat
  audits : List AccountDeletionAuditRecord
  log : List Entry

/-- Why a request raises. -/
inductive ServiceError where
  | validation (message : String)
  | conflict (message : String)
  | unauthorized (message : String)
  | notFound
  | server
  deriving DecidableEq, Repr

def invalidPassword : String :=
  "Invalid password."

def confirmationMismatch : String :=
  "Confirmation email does not match your account email."

def seedUserUndeletable : String :=
  "The system account cannot be deleted."

/-- The row that `_first_user_bootstrap` adds. -/
def bootstrapApproval : Approval :=
  .added "Auto-approved: first user on this instance becomes its owner (#388)."
    "first-user-bootstrap"

variable (cfg : Settings)

/-- `_first_user_bootstrap`. -/
def firstUserBootstrap (s : Instance) : Option Approval :=
  if s.base.users.any (fun u => u.id ≠ seedUserId) then none else some bootstrapApproval

/-- `_require_approval`. -/
def requireApproval (s : Instance) (email : String) : Except ServiceError Approval :=
  match s.base.approvedEmails.find? (fun e => e.email = email) with
  | some approval => .ok (.stored approval.id)
  | none =>
    if cfg.development then
      .ok (.added
        "Auto-approved: local development (#384). Never happens outside APP_ENV=development."
        "dev-bypass")
    else
      match firstUserBootstrap s with
      | some approval => .ok approval
      | none => .error (.validation emailNotApproved)

/-- `_create_approved_user`, with the session. -/
def createApprovedUser (s : Instance) (door : Door) (email : String) (approval : Approval) :
    Except ServiceError Unit × Instance :=
  let user := newUser cfg s.base door email
  match insertUser s.base user approval with
  | none =>
    match s.base.findEmail email with
    | some _ => (.error (.conflict emailTaken), s)
    | none => (.error .server, s)
  | some base =>
    (.ok (), { s with
      base := base
      sessions := s.sessions ++ [user.id]
      log := s.log ++ [.registered user.id email (approval = bootstrapApproval)] })

/-- `register` and `register_oauth_user`, by the door. -/
def registerBy (s : Instance) (door : Door) (email : String) :
    Except ServiceError Unit × Instance :=
  let normalized := cfg.normalize email
  match s.base.findEmail normalized with
  | some _ => (.error (.conflict emailTaken), s)
  | none =>
    match requireApproval cfg s normalized with
    | .error e => (.error e, s)
    | .ok approval => createApprovedUser cfg s door normalized approval

/-- `register`. -/
def register (s : Instance) (email password : String) : Except ServiceError Unit × Instance :=
  registerBy cfg s (.password password) email

/-- `register_oauth_user`. -/
def registerOauthUser (s : Instance) (provider : String) (identity : OAuthIdentityInfo)
    (email : String) : Except ServiceError Unit × Instance :=
  registerBy cfg s (.oauth provider identity) email

/-- The row of a user is deleted, with what refers to it. -/
def deleteUser (s : Accounts.State) (userId : Nat) : Accounts.State :=
  { s with
    users := s.users.filter (fun u => u.id ≠ userId)
    identities := s.identities.filter (fun i => i.userId ≠ userId)
    flows := s.flows.filter (fun f => f.linkUserId ≠ some userId)
    approvedEmails := s.approvedEmails.map (fun e =>
      if e.usedByUserId = some userId then { e with usedByUserId := none } else e) }

/-- `delete_account`, of the account of the bearer. -/
def deleteAccount (s : Instance) (userId : Nat) (password confirmEmail : String) :
    Except ServiceError Unit × Instance :=
  match s.base.findUser userId with
  | none => (.error .notFound, s)
  | some user =>
    if user.id = seedUserId then (.error (.validation seedUserUndeletable), s)
    else if user.passwordHash.any (fun h => cfg.verifyPassword h password) = false then
      (.error (.unauthorized invalidPassword), s)
    else if cfg.normalize confirmEmail ≠ user.email then
      (.error (.validation confirmationMismatch), s)
    else
      (.ok (), { s with
        base := deleteUser s.base user.id
        sessions := s.sessions.filter (fun u => u ≠ user.id)
        audits := s.audits ++ [⟨user.id, s.base.now, s.base.now⟩]
        log := s.log ++ [.deleted user.id] })

/-- An administrator approves an address. -/
def approve (s : Instance) (email : String) : Instance :=
  { s with
    base := Accounts.approveEmail s.base (cfg.normalize email)
    log := s.log ++ [.approved (cfg.normalize email)] }

inductive Action where
  | tick
  | register (email password : String)
  | registerOauthUser (provider : String) (identity : OAuthIdentityInfo) (email : String)
  | deleteAccount (userId : Nat) (password confirmEmail : String)
  | approve (email : String)
  deriving DecidableEq, Repr

def step (s : Instance) : Action → Option Instance
  | .tick => some { s with base := { s.base with now := s.base.now + 1 } }
  | .register email password => some (register cfg s email password).2
  | .registerOauthUser provider identity email =>
    some (registerOauthUser cfg s provider identity email).2
  | .deleteAccount userId password confirmEmail =>
    some (deleteAccount cfg s userId password confirmEmail).2
  | .approve email => some (approve cfg s email)

def initial : Instance :=
  { base := Accounts.initial
    sessions := []
    audits := []
    log := [] }

/-- All histories of an instance. -/
def registrations : StepSystem Instance Action :=
  { init := fun s => s = initial
    step := step cfg }

/-- The registrations of a log, each with its address and whether it was approved on
    the spot. -/
def registered : List Entry → List (String × Bool)
  | [] => []
  | .registered _ email bootstrap :: log => (email, bootstrap) :: registered log
  | .approved _ :: log => registered log
  | .deleted _ :: log => registered log

/-- The address of the first registration. -/
def firstAddress (log : List Entry) : Option String :=
  (registered log).head?.map Prod.fst

/-- Whoever has registered was approved before, or has the address of the first
    registration. -/
def Vetted (log : List Entry) : Prop :=
  ∀ before userId email bootstrap, before ++ [.registered userId email bootstrap] <+: log →
    .approved email ∈ before ∨ firstAddress log = some email

/-- What the list is meant to guarantee. -/
structure Guarded (s : Instance) : Prop where
  vetted : Vetted s.log
  users : ∀ u ∈ s.base.users, u.id ≠ seedUserId →
    ∃ bootstrap, .registered u.id u.email bootstrap ∈ s.log
  bootstraps : ((registered s.log).filter Prod.snd).length ≤ 1

/-- An address that is not approved registers without any user only if nobody has
    registered before. -/
def FirstStaysFirst (s : Instance) : Action → Prop
  | .register email _ | .registerOauthUser _ _ email =>
    (∀ e ∈ s.base.approvedEmails, e.email ≠ cfg.normalize email) →
      (∀ u ∈ s.base.users, u.id = seedUserId) → registered s.log = []
  | _ => True

end Definitions

section Logs

theorem registered_append (log later : List Entry) :
    registered (log ++ later) = registered log ++ registered later := by
  induction log with
  | nil => rfl
  | cons e log ih =>
    cases e with
    | registered userId email bootstrap =>
      simp [registered, ih]
    | approved email => exact ih
    | deleted userId => exact ih

variable {log : List Entry}

/-- The first registration stays the first. -/
theorem firstAddress_append {email : String} (h : firstAddress log = some email)
    (later : List Entry) : firstAddress (log ++ later) = some email := by
  unfold firstAddress at h ⊢
  rw [registered_append]
  cases hreg : registered log with
  | nil =>
    rw [hreg] at h
    cases h
  | cons first rest =>
    rw [hreg] at h
    exact h

theorem vetted_append (h : Vetted log) {e : Entry}
    (he : ∀ userId email bootstrap, e = .registered userId email bootstrap →
      .approved email ∈ log ∨ firstAddress (log ++ [e]) = some email) : Vetted (log ++ [e]) := by
  intro before userId email bootstrap hprefix
  rcases prefix_concat_iff.mp hprefix with hlast | hearlier
  · have hparts := append_inj' hlast rfl
    rw [hparts.1]
    exact he userId email bootstrap (List.cons.inj hparts.2).1.symm
  · rcases h before userId email bootstrap hearlier with happroved | hfirst
    · exact .inl happroved
    · exact .inr (firstAddress_append hfirst [e])

/-- A list whose later elements are not marked has one that is, at most. -/
theorem length_filter_le_one {log : List (String × Bool)} (h : ∀ p ∈ log.tail, p.2 = false) :
    (log.filter Prod.snd).length ≤ 1 := by
  cases log with
  | nil => exact Nat.zero_le 1
  | cons p log =>
    have hnone : log.filter Prod.snd = [] := by
      rw [filter_eq_nil_iff]
      intro q hq
      rw [h q hq]
      exact Bool.false_ne_true
    rw [filter_cons, hnone]
    split
    · exact Nat.le_refl 1
    · exact Nat.zero_le 1

end Logs

section Histories

variable {cfg : Settings}

/-- What holds if first users stay first. -/
structure Inv (s : Instance) : Prop where
  vetted : Vetted s.log
  users : ∀ u ∈ s.base.users, u.id ≠ seedUserId →
    ∃ bootstrap, .registered u.id u.email bootstrap ∈ s.log
  listed : ∀ e ∈ s.base.approvedEmails,
    .approved e.email ∈ s.log ∨ firstAddress s.log = some e.email
  later : ∀ p ∈ (registered s.log).tail, p.2 = false

theorem inv_initial : Inv initial where
  vetted before userId email bootstrap h := by
    have hlen := h.length_le
    rw [length_append] at hlen
    exact absurd hlen (Nat.not_succ_le_zero _)
  users u hu hseed := by
    rw [mem_singleton.mp hu] at hseed
    exact absurd rfl hseed
  listed _ h := absurd h not_mem_nil
  later _ h := absurd h not_mem_nil

variable {email : String} {s : Instance} {approval : Approval} {door : Door}

/-- What is said of an address stays true when the log grows. -/
theorem known_append {log : List Entry} (h : .approved email ∈ log ∨ firstAddress log = some email)
    (later : List Entry) :
    .approved email ∈ log ++ later ∨ firstAddress (log ++ later) = some email := by
  rcases h with h | h
  · exact .inl (mem_append_left _ h)
  · exact .inr (firstAddress_append h later)

/-- The tables after an account was inserted. -/
theorem insertUser_eq {s t : Accounts.State} {u : User} (h : insertUser s u approval = some t) :
    t.users = s.users ++ [u] ∧
      t.approvedEmails = Accounts.stampApproval s u.email approval u.id := by
  unfold insertUser at h
  split at h
  · cases h
    exact ⟨rfl, rfl⟩
  · cases h

/-- A stamp adds the address of the account, or none. -/
theorem stamped_email {s : Accounts.State} {userId : Nat} {e : ApprovedEmail}
    (h : e ∈ Accounts.stampApproval s email approval userId) :
    (∃ e' ∈ s.approvedEmails, e'.email = e.email) ∨
      (∃ note addedBy, approval = .added note addedBy) ∧ e.email = email := by
  cases approval with
  | stored id =>
    rcases mem_map.mp h with ⟨e', he', rfl⟩
    refine .inl ⟨e', he', ?_⟩
    split
    · rfl
    · rfl
  | added note addedBy =>
    rcases mem_append.mp h with h | h
    · exact .inl ⟨e, h, rfl⟩
    · rw [mem_singleton.mp h]
      exact .inr ⟨⟨note, addedBy, rfl⟩, rfl⟩

/-- An account is inserted whose address is known, or which is the first. -/
theorem inv_created (h : Inv s) (happroval : (∃ id, approval = .stored id) ∧
        (.approved email ∈ s.log ∨ firstAddress s.log = some email) ∨
      approval = bootstrapApproval ∧ registered s.log = []) :
    Inv (createApprovedUser cfg s door email approval).2 := by
  unfold createApprovedUser
  dsimp only
  split
  · split
    · exact h
    · exact h
  · rename_i base hinsert
    have htables := insertUser_eq hinsert
    have hemail : (newUser cfg s.base door email).email = email := rfl
    have hlog : ∀ b, registered (s.log ++ [.registered (newUser cfg s.base door email).id email b])
        = registered s.log ++ [(email, b)] := fun b => registered_append s.log _
    -- In both cases the address is known after the registration.
    have hknown : ∀ b, .approved email ∈ s.log ∨ firstAddress
        (s.log ++ [.registered (newUser cfg s.base door email).id email b]) = some email := by
      intro b
      rcases happroval with ⟨_, happroved | hfirst⟩ | ⟨_, hnone⟩
      · exact .inl happroved
      · exact .inr (firstAddress_append hfirst _)
      · rw [firstAddress, hlog, hnone]
        exact .inr rfl
    exact
      { vetted := by
          refine vetted_append h.vetted (fun userId email' b he => ?_)
          rw [Entry.registered.injEq] at he
          rw [← he.2.1]
          exact hknown _
        users := by
          intro u hu hseed
          change u ∈ base.users at hu
          rw [htables.1] at hu
          rcases mem_append.mp hu with hu | hu
          · rcases h.users u hu hseed with ⟨b, hb⟩
            exact ⟨b, mem_append_left _ hb⟩
          · rw [mem_singleton.mp hu]
            exact ⟨_, mem_append_right _ (mem_singleton_self _)⟩
        listed := by
          intro e he
          change e ∈ base.approvedEmails at he
          rw [htables.2] at he
          rcases stamped_email he with ⟨e', he', hsame⟩ | ⟨_, hsame⟩
          · rw [← hsame]
            exact known_append (h.listed e' he') _
          · rw [hsame, hemail]
            rcases hknown (approval = bootstrapApproval) with happroved | hfirst
            · exact .inl (mem_append_left _ happroved)
            · exact .inr hfirst
        later := by
          intro p hp
          change p ∈ (registered (s.log ++ [_])).tail at hp
          rw [hlog] at hp
          rcases happroval with ⟨⟨id, hstored⟩, _⟩ | ⟨_, hnone⟩
          · have hflag : decide (approval = bootstrapApproval) = false := by
              rw [hstored]
              rfl
            rw [hflag] at hp
            cases hreg : registered s.log with
            | nil =>
              rw [hreg] at hp
              cases hp
            | cons first rest =>
              rw [hreg] at hp
              rcases mem_append.mp hp with hp | hp
              · exact h.later p (by rw [hreg]; exact hp)
              · rw [mem_singleton.mp hp]
          · rw [hnone] at hp
            exact absurd hp not_mem_nil }

/-- A registration keeps the list, if it does not make a second first user. -/
theorem inv_registerBy (hdev : cfg.development = false) (h : Inv s) (door : Door)
    (hok : (∀ e ∈ s.base.approvedEmails, e.email ≠ cfg.normalize email) →
      (∀ u ∈ s.base.users, u.id = seedUserId) → registered s.log = []) :
    Inv (registerBy cfg s door email).2 := by
  unfold registerBy
  dsimp only
  split
  · exact h
  · split
    · exact h
    · rename_i approval happroval
      refine inv_created h ?_
      unfold requireApproval at happroval
      split at happroval
      · rename_i e hfind
        have hsame := List.find?_some hfind
        rw [decide_eq_true_eq] at hsame
        rw [← hsame, ← Except.ok.inj happroval]
        exact .inl ⟨⟨e.id, rfl⟩, h.listed e (mem_of_find?_eq_some hfind)⟩
      · rename_i hunlisted
        rw [if_neg (by rw [hdev]; exact Bool.false_ne_true)] at happroval
        split at happroval
        · rename_i hboot
          unfold firstUserBootstrap at hboot
          split at hboot
          · cases hboot
          · rename_i hnobody
            rw [← Except.ok.inj happroval, ← Option.some.inj hboot]
            refine .inr ⟨rfl, hok (fun e he heq => ?_) (fun u hu => ?_)⟩
            · exact List.find?_eq_none.mp hunlisted e he (decide_eq_true heq)
            · by_cases hid : u.id = seedUserId
              · exact hid
              · exact absurd (any_eq_true.mpr ⟨u, hu, decide_eq_true hid⟩) hnobody
        · cases happroval

theorem inv_deleteAccount (h : Inv s) (userId : Nat) (password confirmEmail : String) :
    Inv (deleteAccount cfg s userId password confirmEmail).2 := by
  unfold deleteAccount
  split
  · exact h
  · split
    · exact h
    split
    · exact h
    split
    · exact h
    · rename_i user _ _ _ _
      exact
        { vetted := vetted_append h.vetted (fun _ _ _ he => by cases he)
          users := by
            intro u hu hseed
            rcases h.users u (mem_filter.mp hu).1 hseed with ⟨b, hb⟩
            exact ⟨b, mem_append_left _ hb⟩
          listed := by
            intro e he
            rcases mem_map.mp he with ⟨e', he', rfl⟩
            have hsame : (if e'.usedByUserId = some user.id then { e' with usedByUserId := none }
                else e').email = e'.email := by
              split
              · rfl
              · rfl
            rw [hsame]
            exact known_append (h.listed e' he') _
          later := by
            intro p hp
            change p ∈ (registered (s.log ++ [_])).tail at hp
            rw [registered_append, registered, registered, append_nil] at hp
            exact h.later p hp }

theorem inv_approve (h : Inv s) (email : String) : Inv (approve cfg s email) where
  vetted := vetted_append h.vetted (fun _ _ _ he => by cases he)
  users u hu hseed := by
    have hu : u ∈ s.base.users := by
      change u ∈ (Accounts.approveEmail s.base (cfg.normalize email)).users at hu
      unfold Accounts.approveEmail at hu
      split at hu
      · exact hu
      · exact hu
    rcases h.users u hu hseed with ⟨b, hb⟩
    exact ⟨b, mem_append_left _ hb⟩
  listed e he := by
    change e ∈ (Accounts.approveEmail s.base (cfg.normalize email)).approvedEmails at he
    unfold Accounts.approveEmail at he
    split at he
    · exact known_append (h.listed e he) _
    · rcases mem_append.mp he with he | he
      · exact known_append (h.listed e he) _
      · rw [mem_singleton.mp he]
        exact .inl (mem_append_right _ (mem_singleton_self _))
  later p hp := by
    change p ∈ (registered (s.log ++ [_])).tail at hp
    rw [registered_append, registered, registered, append_nil] at hp
    exact h.later p hp

/-- What registrations keep if first users stay first. -/
theorem guarded_step {s' : Instance} {a : Action} (hdev : cfg.development = false) (h : Inv s)
    (hok : FirstStaysFirst cfg s a) (hstep : step cfg s a = some s') : Inv s' := by
  cases a with
  | tick =>
    cases hstep
    exact ⟨h.vetted, h.users, h.listed, h.later⟩
  | register email password | registerOauthUser provider identity email =>
    cases hstep
    exact inv_registerBy hdev h _ hok
  | deleteAccount userId password confirmEmail =>
    cases hstep
    exact inv_deleteAccount h userId password confirmEmail
  | approve email =>
    cases hstep
    exact inv_approve h email

/-- A registration that is refused changes nothing. -/
theorem registerBy_error {e : ServiceError} (h : (registerBy cfg s door email).1 = .error e) :
    (registerBy cfg s door email).2 = s := by
  unfold registerBy at h ⊢
  dsimp only at h ⊢
  split
  · rfl
  · rename_i hfree
    rw [hfree] at h
    dsimp only at h
    split
    · rfl
    · rename_i approval happroval
      rw [happroval] at h
      unfold createApprovedUser at h ⊢
      dsimp only at h ⊢
      split
      · split
        · rfl
        · rfl
      · rename_i base hinsert
        rw [hinsert] at h
        cases h

/-- Outside development, nobody gets around the list in the histories whose first
    users stay first, and a registration that is refused changes nothing. -/
theorem allowlist_holds (hdev : cfg.development = false) :
    (∀ s door email e, (registerBy cfg s door email).1 = .error e →
        (registerBy cfg s door email).2 = s) ∧
      ∀ s, (registrations cfg).ReachableBy (FirstStaysFirst cfg) s → Guarded s := by
  refine ⟨fun s door email e h => registerBy_error h, fun s h => ?_⟩
  have hinv : Inv s := by
    refine StepSystem.reachableBy_invariant (I := Inv) (fun s₀ h₀ => ?_)
      (fun s a s' hinv hok hstep => guarded_step hdev hinv hok hstep) h
    have h₀ : s₀ = initial := h₀
    rw [h₀]
    exact inv_initial
  exact ⟨hinv.vetted, hinv.users, length_filter_le_one hinv.later⟩

end Histories

section Examples

def production : Settings :=
  { hashState := id
    normalize := id
    hashPassword := id
    verifyPassword := fun passwordHash password => passwordHash == password
    isConfigured := fun _ => true
    development := false }

def firstOwner : Instance :=
  (register production initial "first@example.com" "password").2

/-- The first registration keeps the list. -/
theorem allowlist_holds_first : firstOwner.sessions = [1] ∧ Guarded firstOwner := by
  have hstep : step production initial (.register "first@example.com" "password") =
      some firstOwner := rfl
  have hfirst : FirstStaysFirst production initial (.register "first@example.com" "password") :=
    fun _ _ => rfl
  have hreach : (registrations production).ReachableBy (FirstStaysFirst production) firstOwner :=
    ⟨initial, rfl, Relation.ReflTransGen.single ⟨_, hfirst, hstep⟩⟩
  exact ⟨rfl, (allowlist_holds rfl).2 firstOwner hreach⟩

/-- The first user leaves, and somebody else is first again. -/
def secondOwner : List Action :=
  [.register "first@example.com" "password", .deleteAccount 1 "password" "first@example.com",
    .register "second@example.com" "password"]

/-- An address that was never approved registers after another one has. -/
theorem allowlist_bypassed :
    ∃ s, (registrations production).exec initial secondOwner = some s ∧ ¬ Vetted s.log ∧
      ((registered s.log).filter Prod.snd).length = 2 := by
  refine ⟨_, rfl, fun h => ?_, rfl⟩
  have hentry := h [.registered 1 "first@example.com" true, .deleted 1] 3 "second@example.com" true
    prefix_rfl
  rcases hentry with happroved | hfirst
  · exact absurd happroved (by decide)
  · exact absurd hfirst (by decide)

end Examples

end Allowlist

end Partha
