import Mathlib.Data.List.Pairwise
import Mathlib.Tactic.ByContra
import Partha.Auth.Accounts

/-!
# Ways to Sign In

An account without a password can be reached only through a linked identity.
`NobodyLockedOut` says that every active account has a password or an identity,
the seed user apart, and asks it of every committed state.

Only three commits matter, and `Change` names them: an account appears, an
identity appears, an identity goes. The unique constraints are kept by the
insertions, so `UniqueIdentities` holds in every interleaving.

`NobodyLockedOut` does not. A sign-up by OAuth commits the account before the
identity, so a crash between the two leaves an account that nobody can enter:
its email now belongs to somebody, and the pending link that the next sign-in
offers asks for a password it does not have. And an unlink looks for another
identity in one statement and deletes in a later one, so two unlinks of the two
last identities can both find the other's.

`KeepsAccess` is the condition on a step that excludes the two. It is exact:
from a state in which nobody is locked out, a step leads to another one if and
only if it meets the condition.

## Main definitions

* `CanSignIn`, `NobodyLockedOut`: The ways into an account.
* `UniqueIdentities`: The two unique constraints.
* `Change`: What a step does to the accounts and identities.
* `Consistent`: The invariant of every interleaving.
* `KeepsAccess`: A step that takes nobody's last way in.

## Theorems

* `step_change`: Every step is one of the four changes.
* `consistent_of_reachable`: The invariant holds in every reachable state.
* `lockedOut_step_iff`: The condition is exact.
* `signIns_safe`: Unique identities in every run, and access in the runs that
  keep it.
* `signIns_lock_out`: A crash in a sign-up locks an account out.
-/

namespace Partha

namespace Accounts

open List

variable {cfg : Settings}

/-- The account has a password or a linked identity. -/
def CanSignIn (s : State) (u : User) : Prop :=
  u.passwordHash ≠ none ∨ ∃ i ∈ s.identities, i.userId = u.id

/-- Every active account but the seed user can be signed in to. -/
def NobodyLockedOut (s : State) : Prop :=
  ∀ u ∈ s.users, u.isActive = true → u.id ≠ seedUserId → CanSignIn s u

/-- An external identity belongs to one account, and an account has one
    identity for each provider. -/
structure UniqueIdentities (s : State) : Prop where
  subject : s.identities.Pairwise
    (fun i j => ¬ (j.provider = i.provider ∧ j.providerSubject = i.providerSubject))
  user : s.identities.Pairwise (fun i j => ¬ (j.provider = i.provider ∧ j.userId = i.userId))

/-- The identity that an unlink has set out to delete. -/
def Request.target : Request → Option OAuthIdentity
  | .found _ identity => some identity
  | .removable identity => some identity
  | _ => none

/-- A request that sets out to delete an identity has just read its row. -/
def TargetsRead (s s' : State) : Prop :=
  ∀ r i, (s'.request r).target = some i → (s.request r).target = some i ∨ i ∈ s.identities

/-- The accounts and identities are as before. -/
structure Kept (s s' : State) : Prop where
  users : s'.users = s.users
  identities : s'.identities = s.identities
  nextUuid : s.nextUuid ≤ s'.nextUuid
  targets : TargetsRead s s'

variable {s s' : State} {r : Nat} {q : Request} {i : OAuthIdentity} {u : User} {approval : Approval}
  {email : String} {a : Action}

theorem targetsRead_of_eq (h : s'.request = s.request) : TargetsRead s s' := by
  intro r i hi
  rw [h] at hi
  exact .inl hi

theorem targetsRead_update
    (hq : ∀ i, q.target = some i → (s.request r).target = some i ∨ i ∈ s.identities)
    (h : ∀ r', s'.request r' = if r' = r then q else s.request r') : TargetsRead s s' := by
  intro r' i hi
  rw [h] at hi
  by_cases hr : r' = r
  · rw [if_pos hr] at hi
    rw [hr]
    exact hq i hi
  · rw [if_neg hr] at hi
    exact .inl hi

/-- A request that moves on without an identity to delete. -/
theorem targetsRead_none (hq : q.target = none)
    (h : ∀ r', s'.request r' = if r' = r then q else s.request r') : TargetsRead s s' :=
  targetsRead_update (fun i hi => by rw [hq] at hi; cases hi) h

theorem kept_setRequest (s : State) (r : Nat) (hq : q.target = none) : Kept s (s.setRequest r q) :=
  ⟨rfl, rfl, Nat.le_refl _, targetsRead_none hq (fun _ => rfl)⟩

theorem kept_answer (s : State) (r : Nat) (a : Answer) : Kept s (s.answer r a) :=
  kept_setRequest s r rfl

theorem kept_approveEmail (s : State) (email : String) : Kept s (approveEmail s email) := by
  unfold approveEmail
  split
  · exact ⟨rfl, rfl, Nat.le_refl _, targetsRead_of_eq rfl⟩
  · exact ⟨rfl, rfl, Nat.le_succ _, targetsRead_of_eq rfl⟩

@[simp]
theorem kept_start (s : State) (r : Nat) (provider : String) (intent : Intent)
    (linkUserId : Option Nat) (state : String) :
    Kept s (start cfg s r provider intent linkUserId state) := by
  unfold start
  split
  · exact kept_answer s r _
  · split
    · exact kept_answer s r _
    · exact ⟨rfl, rfl, Nat.le_succ _, targetsRead_none rfl (fun _ => rfl)⟩

@[simp]
theorem kept_completeCallback (s : State) (r : Nat) (provider state : String)
    (code providerError : Option String) :
    Kept s (completeCallback cfg s r provider state code providerError) := by
  unfold completeCallback
  split
  · exact kept_answer s r _
  · split
    · exact kept_answer s r _
    · exact kept_setRequest s r rfl

@[simp]
theorem kept_consumeFlow (s : State) (r : Nat) (provider : String) (flow : OAuthFlowState)
    (code providerError : Option String) :
    Kept s (consumeFlow cfg s r provider flow code providerError) := by
  unfold consumeFlow
  split
  · exact ⟨rfl, rfl, Nat.le_refl _, targetsRead_none rfl (fun _ => rfl)⟩
  · dsimp only
    split
    · exact ⟨rfl, rfl, Nat.le_refl _, targetsRead_none rfl (fun _ => rfl)⟩
    · split
      · exact ⟨rfl, rfl, Nat.le_refl _, targetsRead_none rfl (fun _ => rfl)⟩
      · exact ⟨rfl, rfl, Nat.le_refl _, targetsRead_none rfl (fun _ => rfl)⟩

@[simp]
theorem kept_resolveIdentity (s : State) (r : Nat) (provider : String) (intent : Intent)
    (linkUserId : Option Nat) (identity : Option OAuthIdentityInfo) :
    Kept s (resolveIdentity s r provider intent linkUserId identity) := by
  unfold resolveIdentity
  split
  · exact kept_answer s r _
  · split
    · exact kept_setRequest s r rfl
    · exact kept_answer s r _
    · exact kept_setRequest s r rfl

@[simp]
theorem kept_completeLogin (s : State) (r : Nat) (provider : String)
    (identity : OAuthIdentityInfo) : Kept s (completeLogin s r provider identity) := by
  unfold completeLogin
  split
  · exact kept_setRequest s r rfl
  · exact kept_setRequest s r rfl

@[simp]
theorem kept_loadAccount (s : State) (r : Nat) (existing : OAuthIdentity) :
    Kept s (loadAccount s r existing) := by
  unfold loadAccount
  split
  · exact kept_answer s r _
  · split
    · exact kept_answer s r _
    · exact kept_setRequest s r rfl

@[simp]
theorem kept_matchEmail (s : State) (r : Nat) (provider : String)
    (identity : OAuthIdentityInfo) : Kept s (matchEmail cfg s r provider identity) := by
  unfold matchEmail
  split
  · exact kept_answer s r _
  · split
    · split
      · exact kept_setRequest s r rfl
      · exact kept_setRequest s r rfl
    · exact kept_setRequest s r rfl

@[simp]
theorem kept_offerLink (s : State) (r : Nat) (provider : String) (identity : OAuthIdentityInfo)
    (email : String) : Kept s (offerLink s r provider identity email) :=
  ⟨rfl, rfl, Nat.le_succ _, targetsRead_none rfl (fun _ => rfl)⟩

@[simp]
theorem kept_ensureEmailAvailable (s : State) (r : Nat) (door : Door) (email : String) :
    Kept s (ensureEmailAvailable s r door email) := by
  unfold ensureEmailAvailable
  split
  · exact kept_answer s r _
  · exact kept_setRequest s r rfl

@[simp]
theorem kept_requireApproval (s : State) (r : Nat) (door : Door) (email : String) :
    Kept s (requireApproval cfg s r door email) := by
  unfold requireApproval
  split
  · exact kept_setRequest s r rfl
  · split
    · exact kept_setRequest s r rfl
    · exact kept_setRequest s r rfl

@[simp]
theorem kept_firstUserBootstrap (s : State) (r : Nat) (door : Door) (email : String) :
    Kept s (firstUserBootstrap s r door email) := by
  unfold firstUserBootstrap
  split
  · exact kept_answer s r _
  · exact kept_setRequest s r rfl

@[simp]
theorem kept_explainCollision (s : State) (r : Nat) (door : Door) (email : String) :
    Kept s (explainCollision s r door email) := by
  unfold explainCollision
  split
  · exact kept_answer s r _
  · exact kept_answer s r _

theorem kept_openSession (s : State) (r : Nat) (door : Door) (user : User) :
    Kept s (openSession s r door user) := by
  unfold openSession
  split
  · exact kept_answer s r _
  · exact kept_setRequest s r rfl

@[simp]
theorem kept_loadLinkUser (s : State) (r : Nat) (provider : String)
    (identity : OAuthIdentityInfo) (linkUserId : Nat) :
    Kept s (loadLinkUser s r provider identity linkUserId) := by
  unfold loadLinkUser
  split
  · exact kept_answer s r _
  · split
    · exact kept_answer s r _
    · exact kept_setRequest s r rfl

@[simp]
theorem kept_confirmPendingLink (s : State) (r pendingLinkId : Nat) (password : String) :
    Kept s (confirmPendingLink s r pendingLinkId password) := by
  unfold confirmPendingLink
  split
  · exact kept_answer s r _
  · split
    · exact kept_answer s r _
    · exact kept_setRequest s r rfl

@[simp]
theorem kept_verifyOwner (s : State) (r : Nat) (pending : OAuthPendingLink) (password : String) :
    Kept s (verifyOwner cfg s r pending password) := by
  unfold verifyOwner
  split
  · exact kept_answer s r _
  · split
    · exact kept_answer s r _
    · split
      · exact kept_answer s r _
      · exact kept_setRequest s r rfl

@[simp]
theorem kept_unlink (s : State) (r : Nat) (user : User) (provider : String) :
    Kept s (unlink s r user provider) := by
  unfold unlink
  split
  · exact kept_answer s r _
  · rename_i identity hfind
    have hread : ∀ i, some identity = some i →
        (s.request r).target = some i ∨ i ∈ s.identities := by
      rintro i ⟨⟩
      exact .inr (mem_of_find?_eq_some hfind)
    split
    · exact ⟨rfl, rfl, Nat.le_refl _,
        targetsRead_update (q := .found user identity) hread (fun _ => rfl)⟩
    · exact ⟨rfl, rfl, Nat.le_refl _,
        targetsRead_update (q := .removable identity) hread (fun _ => rfl)⟩

theorem kept_checkRemaining {user : User} {identity : OAuthIdentity}
    (hr : s.request r = .found user identity) : Kept s (checkRemaining s r user identity) := by
  unfold checkRemaining
  split
  · exact kept_answer s r _
  · refine ⟨rfl, rfl, Nat.le_refl _, targetsRead_update (fun i hi => .inl ?_) (fun _ => rfl)⟩
    rw [hr]
    exact hi

/-- What a step does to the accounts and identities. -/
inductive Change (cfg : Settings) (s : State) : Action → State → Prop where
  | kept {a : Action} {s' : State} (h : Kept s s') : Change cfg s a s'
  | account {s' : State} (r : Nat) (door : Door) (email : String) (approval : Approval)
      (hr : s.request r = .approved door email approval)
      (hfree : registrable s email approval = true)
      (users : s'.users = s.users ++ [newUser cfg s door email])
      (identities : s'.identities = s.identities)
      (nextUuid : s'.nextUuid = s.nextUuid + 2) (targets : TargetsRead s s') :
      Change cfg s (.createApprovedUser r) s'
  | linked {a : Action} {s' : State} (i : OAuthIdentity) (hid : i.id = s.nextUuid)
      (hfree : admits s i = true)
      (ha : (∀ r, a ≠ .createApprovedUser r) ∧ ∀ r, a ≠ .removeIdentity r)
      (users : s'.users = s.users) (identities : s'.identities = s.identities ++ [i])
      (nextUuid : s'.nextUuid = s.nextUuid + 1) (targets : TargetsRead s s') :
      Change cfg s a s'
  | unlinked {s' : State} (r : Nat) (identity : OAuthIdentity)
      (hr : s.request r = .removable identity) (users : s'.users = s.users)
      (identities : s'.identities = s.identities.filter (fun i => i.id ≠ identity.id))
      (nextUuid : s'.nextUuid = s.nextUuid) (targets : TargetsRead s s') :
      Change cfg s (.removeIdentity r) s'

theorem insertIdentity_eq_some (h : insertIdentity s i = some s') :
    admits s i = true ∧
      s' = { s with identities := s.identities ++ [i], nextUuid := s.nextUuid + 1 } := by
  unfold insertIdentity at h
  by_cases hfree : admits s i = true
  · rw [if_pos hfree] at h
    exact ⟨hfree, (Option.some.inj h).symm⟩
  · rw [if_neg hfree] at h
    cases h

theorem insertUser_eq_some (h : insertUser s u approval = some s') :
    registrable s u.email approval = true ∧ s'.users = s.users ++ [u] ∧
      s'.identities = s.identities ∧ s'.nextUuid = s.nextUuid + 2 ∧ s'.request = s.request := by
  unfold insertUser at h
  by_cases hfree : registrable s u.email approval = true
  · rw [if_pos hfree] at h
    have he := (Option.some.inj h).symm
    subst he
    exact ⟨hfree, rfl, rfl, rfl, rfl⟩
  · rw [if_neg hfree] at h
    cases h

theorem change_createApprovedUser {door : Door} (hr : s.request r = .approved door email approval) :
    Change cfg s (.createApprovedUser r) (createApprovedUser cfg s r door email approval) := by
  unfold createApprovedUser
  dsimp only
  cases h : insertUser s (newUser cfg s door email) approval with
  | none => exact .kept (kept_setRequest s r rfl)
  | some s' =>
    rcases insertUser_eq_some h with ⟨hfree, husers, hidentities, hnext, hrequest⟩
    refine .account r door email approval hr hfree husers hidentities hnext
      (@targetsRead_none s _ r (.created door (newUser cfg s door email)) rfl (fun r' => ?_))
    rw [← hrequest]
    rfl

theorem targetsRead_moved {t t' : State} (hq : q.target = none)
    (h : ∀ r', t'.request r' = if r' = r then q else t.request r') (ht : t.request = s.request) :
    TargetsRead s t' := by
  refine targetsRead_none (r := r) hq (fun r' => ?_)
  rw [h, ht]

/-- An insertion of an identity, whatever the request makes of its failure. -/
theorem change_insertIdentity {failed : State} {done : State → State} (hid : i.id = s.nextUuid)
    (hfailed : Kept s failed)
    (hdone : ∀ t, (done t).users = t.users ∧ (done t).identities = t.identities ∧
      (done t).nextUuid = t.nextUuid ∧ (t.request = s.request → TargetsRead s (done t)))
    (ha : (∀ r, a ≠ .createApprovedUser r) ∧ ∀ r, a ≠ .removeIdentity r) :
    Change cfg s a (match insertIdentity s i with
      | none => failed
      | some s' => done s') := by
  cases h : insertIdentity s i with
  | none => exact .kept hfailed
  | some s' =>
    rcases insertIdentity_eq_some h with ⟨hfree, rfl⟩
    rcases hdone { s with identities := s.identities ++ [i], nextUuid := s.nextUuid + 1 } with
      ⟨husers, hidentities, hnext, htargets⟩
    exact .linked i hid hfree ha husers hidentities hnext (htargets rfl)

/-- A step of a request that stands elsewhere is refused. -/
theorem step_change (h : step cfg s a = some s') : Change cfg s a s' := by
  cases a with
  | tick =>
    cases h
    exact .kept ⟨rfl, rfl, Nat.le_refl _, targetsRead_of_eq rfl⟩
  | approveEmail email =>
    cases h
    exact .kept (kept_approveEmail s email)
  | crash r =>
    cases h
    exact .kept (kept_setRequest s r rfl)
  -- The commits: an account, an identity that is linked, and one that is removed.
  | createApprovedUser r =>
    simp only [step] at h
    split at h
    · rename_i door email approval hr
      cases h
      exact change_createApprovedUser hr
    · cases h
  | recordIdentity r | completeLink r | commitConfirmed r =>
    simp only [step] at h
    split at h
    · cases h
      exact change_insertIdentity rfl (kept_answer s r _)
        (fun t => ⟨rfl, rfl, rfl, targetsRead_moved (r := r) rfl (fun _ => rfl)⟩)
        ⟨fun _ => nofun, fun _ => nofun⟩
    · cases h
  | removeIdentity r =>
    simp only [step] at h
    split at h
    · rename_i identity hr
      cases h
      exact .unlinked r identity hr rfl rfl rfl (targetsRead_none rfl (fun _ => rfl))
    · cases h
  -- The other functions write neither accounts nor identities.
  | checkRemaining r =>
    simp only [step] at h
    split at h
    · rename_i hr
      cases h
      exact .kept (kept_checkRemaining hr)
    · cases h
  | openSession r =>
    simp only [step] at h
    split at h
    · cases h
      exact .kept (kept_openSession s r _ _)
    · cases h
      exact .kept (kept_answer s r _)
    · cases h
  | register r email password | currentUser r userId provider =>
    simp only [step] at h
    split at h
    · cases h
      exact .kept (kept_setRequest s r rfl)
    · cases h
  | startLogin r provider state | startLink r userId provider state
  | completeCallback r provider state code providerError | consumeFlow r
  | resolveIdentity r identity | completeLogin r | loadAccount r | matchEmail r | offerLink r
  | ensureEmailAvailable r | requireApproval r | firstUserBootstrap r | explainCollision r
  | loadLinkUser r | confirmPendingLink r pendingLinkId password | verifyOwner r | unlink r =>
    simp only [step] at h
    split at h
    · cases h
      exact .kept (by simp)
    · cases h

/-- What holds of the accounts and identities in every interleaving. -/
structure Consistent (s : State) : Prop where
  aboveSeed : seedUserId < s.nextUuid
  usersBelow : ∀ u ∈ s.users, u.id < s.nextUuid
  identitiesBelow : ∀ i ∈ s.identities, i.id < s.nextUuid
  owned : ∀ i ∈ s.identities, ∃ u ∈ s.users, u.id = i.userId
  ids : s.identities.Pairwise (fun i j => i.id ≠ j.id)
  unique : UniqueIdentities s
  targets : ∀ r i, (s.request r).target = some i →
    i.id < s.nextUuid ∧ ∀ j ∈ s.identities, j.id = i.id → j.userId = i.userId

theorem consistent_initial : Consistent initial where
  aboveSeed := by decide
  usersBelow := by
    intro u hu
    rw [mem_singleton.mp hu]
    decide
  identitiesBelow := fun i hi => absurd hi not_mem_nil
  owned := fun i hi => absurd hi not_mem_nil
  ids := List.Pairwise.nil
  unique := ⟨List.Pairwise.nil, List.Pairwise.nil⟩
  targets := fun r i hi => by cases hi

theorem admits_iff :
    admits s i = true ↔ (∃ u ∈ s.users, u.id = i.userId) ∧
      (∀ j ∈ s.identities,
        ¬ (j.provider = i.provider ∧ j.providerSubject = i.providerSubject)) ∧
      ∀ j ∈ s.identities, ¬ (j.provider = i.provider ∧ j.userId = i.userId) := by
  simp [admits, and_assoc]

/-- A row that the constraint allows leaves the rows pairwise apart. -/
theorem pairwise_concat {α : Type} {R : α → α → Prop} {l : List α} {a : α} (hl : l.Pairwise R)
    (ha : ∀ b ∈ l, R b a) : (l ++ [a]).Pairwise R := by
  rw [pairwise_append]
  refine ⟨hl, pairwise_singleton R a, fun b hb c hc => ?_⟩
  rw [mem_singleton.mp hc]
  exact ha b hb

theorem uniqueIdentities_concat (hu : UniqueIdentities s) (hfree : admits s i = true)
    (h : s'.identities = s.identities ++ [i]) : UniqueIdentities s' := by
  rcases admits_iff.mp hfree with ⟨_, hsubject, huser⟩
  refine ⟨?_, ?_⟩
  · rw [h]
    refine pairwise_concat hu.subject (fun j hj hij => ?_)
    exact hsubject j hj ⟨hij.1.symm, hij.2.symm⟩
  · rw [h]
    refine pairwise_concat hu.user (fun j hj hij => ?_)
    exact huser j hj ⟨hij.1.symm, hij.2.symm⟩

theorem Consistent.eq_of_id (hc : Consistent s) {j : OAuthIdentity} (hi : i ∈ s.identities)
    (hj : j ∈ s.identities) (h : j.id = i.id) : j = i := by
  have hsymm : Std.Symm (fun i j : OAuthIdentity => i.id ≠ j.id) := ⟨fun _ _ => Ne.symm⟩
  by_contra hne
  exact hc.ids.forall hj hi hne h

/-- Rows that are only kept or removed stay consistent. -/
theorem consistent_of_sublist (hc : Consistent s) (husers : s'.users = s.users)
    (hsub : s'.identities.Sublist s.identities) (hnext : s.nextUuid ≤ s'.nextUuid)
    (htargets : TargetsRead s s') : Consistent s' where
  aboveSeed := Nat.lt_of_lt_of_le hc.aboveSeed hnext
  usersBelow := by
    rw [husers]
    exact fun u hu => Nat.lt_of_lt_of_le (hc.usersBelow u hu) hnext
  identitiesBelow := fun i hi => Nat.lt_of_lt_of_le (hc.identitiesBelow i (hsub.mem hi)) hnext
  owned := by
    rw [husers]
    exact fun i hi => hc.owned i (hsub.mem hi)
  ids := hc.ids.sublist hsub
  unique := ⟨hc.unique.subject.sublist hsub, hc.unique.user.sublist hsub⟩
  targets := by
    intro r i hi
    rcases htargets r i hi with hold | hread
    · rcases hc.targets r i hold with ⟨hbelow, hsame⟩
      exact ⟨Nat.lt_of_lt_of_le hbelow hnext, fun j hj => hsame j (hsub.mem hj)⟩
    · refine ⟨Nat.lt_of_lt_of_le (hc.identitiesBelow i hread) hnext, fun j hj hid => ?_⟩
      rw [hc.eq_of_id hread (hsub.mem hj) hid]

theorem consistent_step (hc : Consistent s) (h : step cfg s a = some s') : Consistent s' := by
  cases step_change h with
  | kept hk =>
    exact consistent_of_sublist hc hk.users (hk.identities ▸ List.Sublist.refl _) hk.nextUuid
      hk.targets
  | unlinked r identity hr husers hidentities hnext htargets =>
    refine consistent_of_sublist hc husers ?_ (Nat.le_of_eq hnext.symm) htargets
    rw [hidentities]
    exact filter_sublist
  | account r door email approval hr hfree husers hidentities hnext htargets =>
    -- The identities are as they were, and the account is one more that may own them.
    have hkept : Consistent { s' with users := s.users } :=
      consistent_of_sublist hc rfl (hidentities ▸ List.Sublist.refl _)
        (by simp only [hnext]; omega) htargets
    refine ⟨hkept.aboveSeed, ?_, hkept.identitiesBelow, ?_, hkept.ids, ⟨hkept.unique.subject,
      hkept.unique.user⟩, hkept.targets⟩
    · rw [husers]
      intro u hu
      rcases mem_append.mp hu with hu | hu
      · exact hkept.usersBelow u hu
      · rw [mem_singleton.mp hu]
        have hid : (newUser cfg s door email).id = s.nextUuid := rfl
        omega
    · intro i hi
      rcases hkept.owned i hi with ⟨u, hu, hid⟩
      exact ⟨u, by rw [husers]; exact mem_append_left _ hu, hid⟩
  | linked i hid hfree ha husers hidentities hnext htargets =>
    have hmem : ∀ j ∈ s'.identities, j ∈ s.identities ∨ j = i := by
      intro j hj
      rw [hidentities] at hj
      exact (mem_append.mp hj).imp id mem_singleton.mp
    refine ⟨?_, ?_, ?_, ?_, ?_, uniqueIdentities_concat hc.unique hfree hidentities, ?_⟩
    · have habove := hc.aboveSeed
      omega
    · rw [husers]
      intro u hu
      have hbelow := hc.usersBelow u hu
      omega
    · intro j hj
      rcases hmem j hj with hj | rfl
      · have hbelow := hc.identitiesBelow j hj
        omega
      · omega
    · rw [husers]
      intro j hj
      rcases hmem j hj with hj | rfl
      · exact hc.owned j hj
      · exact (admits_iff.mp hfree).1
    · rw [hidentities]
      refine pairwise_concat hc.ids (fun j hj heq => ?_)
      have hbelow := hc.identitiesBelow j hj
      omega
    · -- The new row has a new identifier, so no request is about to delete it.
      intro r j hj
      have hold : j.id < s.nextUuid ∧
          ∀ k ∈ s.identities, k.id = j.id → k.userId = j.userId := by
        rcases htargets r j hj with hold | hread
        · exact hc.targets r j hold
        · exact ⟨hc.identitiesBelow j hread, fun k hk hkid => by rw [hc.eq_of_id hread hk hkid]⟩
      refine ⟨by omega, fun k hk hkid => ?_⟩
      rcases hmem k hk with hk | rfl
      · exact hold.2 k hk hkid
      · omega

theorem consistent_of_reachable {ok : State → Action → Prop} (hr : (signIns cfg).ReachableBy ok s) :
    Consistent s := by
  refine StepSystem.reachableBy_invariant (fun s₀ h₀ => ?_) (fun s a s' hc _ h => ?_) hr
  · rw [show s₀ = initial from h₀]
    exact consistent_initial
  · exact consistent_step hc h

/-- A step that commits no account without a password, and no deletion of the
    last way into one. -/
def KeepsAccess (s : State) : Action → Prop
  | .createApprovedUser r => ∀ provider identity email approval,
      s.request r = .approved (.oauth provider identity) email approval →
        registrable s email approval = false
  | .removeIdentity r => ∀ identity, s.request r = .removable identity →
      ∀ u ∈ s.users, u.id = identity.userId → u.isActive = true → u.id ≠ seedUserId →
        u.passwordHash = none → ∃ i ∈ s.identities, i.userId = u.id ∧ i.id ≠ identity.id
  | _ => True

theorem canSignIn_congr (h : ∀ i ∈ s.identities, i.userId = u.id → i ∈ s'.identities)
    (hs : CanSignIn s u) : CanSignIn s' u := by
  rcases hs with hs | ⟨i, hi, hid⟩
  · exact .inl hs
  · exact .inr ⟨i, h i hi hid, hid⟩

/-- The account of a sign-up by OAuth has no way in when it is committed. -/
theorem newUser_locked_out (hc : Consistent s) {provider : String} {identity : OAuthIdentityInfo}
    (husers : s'.users = s.users ++ [newUser cfg s (.oauth provider identity) email])
    (hidentities : s'.identities = s.identities) : ¬ NobodyLockedOut s' := by
  intro hs
  have hmem : newUser cfg s (.oauth provider identity) email ∈ s'.users := by
    rw [husers]
    exact mem_append_right _ (mem_singleton.mpr rfl)
  have hid : (newUser cfg s (.oauth provider identity) email).id = s.nextUuid := rfl
  have habove := hc.aboveSeed
  rcases hs _ hmem rfl (by omega) with hpassword | ⟨i, hi, huser⟩
  · exact hpassword rfl
  · -- Its identifier is new, so no identity that is there can belong to it.
    rw [hidentities] at hi
    rcases hc.owned i hi with ⟨u, hu, hui⟩
    have hbelow := hc.usersBelow u hu
    omega

theorem newUser_can_sign_in {password : String} :
    CanSignIn s' (newUser cfg s (.password password) email) := by
  refine .inl ?_
  simp [newUser]

/-- From a state in which nobody is locked out, a step leads to another one
    exactly when it keeps access. -/
theorem lockedOut_step_iff (hc : Consistent s) (hs : NobodyLockedOut s)
    (h : step cfg s a = some s') :
    NobodyLockedOut s' ↔ KeepsAccess s a := by
  cases step_change h with
  | kept hk =>
    -- The tables did not change, so a row that would be removed was gone.
    have hs' : NobodyLockedOut s' := by
      intro u hu hactive hseed
      rw [hk.users] at hu
      refine canSignIn_congr (fun i hi _ => ?_) (hs u hu hactive hseed)
      rw [hk.identities]
      exact hi
    refine ⟨fun _ => ?_, fun _ => hs'⟩
    cases a with
    | createApprovedUser r =>
      intro provider identity email approval hr
      by_contra hnot
      have hfree := Bool.not_eq_false _ |>.mp hnot
      simp only [step, hr, Option.some.injEq] at h
      have hlen := congrArg List.length hk.users
      rw [← h] at hlen
      simp only [createApprovedUser, insertUser, newUser, hfree, if_true] at hlen
      simp only [State.setRequest, length_append, length_cons, length_nil]
        at hlen
      omega
    | removeIdentity r =>
      intro identity hr u hu hid hactive hseed hpassword
      simp only [step, hr, Option.some.injEq] at h
      rcases hs u hu hactive hseed with hhas | ⟨i, hi, hiu⟩
      · exact absurd hpassword hhas
      · refine ⟨i, hi, hiu, ?_⟩
        rw [← hk.identities, ← h] at hi
        exact of_decide_eq_true (mem_filter.mp hi).2
    | _ => trivial
  | account r door email approval hr hfree husers hidentities hnext _ =>
    cases door with
    | oauth provider identity =>
      refine ⟨fun hs' => absurd hs' (newUser_locked_out hc husers hidentities), fun hk => ?_⟩
      rw [hk provider identity email approval hr] at hfree
      exact absurd hfree Bool.false_ne_true
    | password password =>
      refine ⟨fun _ provider identity email' approval' hr' => ?_,
        fun _ u hu hactive hseed => ?_⟩
      · rw [hr] at hr'
        exact absurd hr' (by simp [Request.approved.injEq])
      · rw [husers] at hu
        rcases mem_append.mp hu with hu | hu
        · refine canSignIn_congr (fun i hi _ => ?_) (hs u hu hactive hseed)
          rw [hidentities]
          exact hi
        · rw [mem_singleton.mp hu]
          exact newUser_can_sign_in
  | linked i hid hfree ha husers hidentities hnext _ =>
    refine ⟨fun _ => ?_, fun _ u hu hactive hseed => ?_⟩
    · cases a with
      | createApprovedUser r => exact absurd rfl (ha.1 r)
      | removeIdentity r => exact absurd rfl (ha.2 r)
      | _ => trivial
    · rw [husers] at hu
      refine canSignIn_congr (fun j hj _ => ?_) (hs u hu hactive hseed)
      rw [hidentities]
      exact mem_append_left _ hj
  | unlinked r identity hr husers hidentities hnext _ =>
    have hmem : ∀ i, i ∈ s'.identities ↔ i ∈ s.identities ∧ i.id ≠ identity.id := by
      intro i
      rw [hidentities, mem_filter, decide_eq_true_eq]
    constructor
    · intro hs' identity' hr' u hu hid hactive hseed hpassword
      rw [hr] at hr'
      cases hr'
      rcases hs' u (husers ▸ hu) hactive hseed with hhas | ⟨i, hi, hiu⟩
      · exact absurd hpassword hhas
      · exact ⟨i, ((hmem i).mp hi).1, hiu, ((hmem i).mp hi).2⟩
    · intro hk u hu hactive hseed
      rw [husers] at hu
      by_cases hpassword : u.passwordHash = none
      · by_cases hid : u.id = identity.userId
        · rcases hk identity hr u hu hid hactive hseed hpassword with ⟨i, hi, hiu, hne⟩
          exact .inr ⟨i, (hmem i).mpr ⟨hi, hne⟩, hiu⟩
        · -- A row with the identifier deleted belongs to the account it was read for.
          refine canSignIn_congr (fun i hi hiu => (hmem i).mpr ⟨hi, fun heq => ?_⟩)
            (hs u hu hactive hseed)
          have htarget := (hc.targets r identity (by rw [hr]; rfl)).2 i hi heq
          exact hid (hiu.symm.trans htarget)
      · exact .inl hpassword

theorem nobodyLockedOut_initial : NobodyLockedOut initial := by
  intro u hu _ hseed
  rw [mem_singleton.mp hu] at hseed
  exact absurd rfl hseed

/-- In every interleaving an external identity belongs to one account and an
    account has one identity for each provider. In the runs whose steps all keep
    access nobody is locked out, and it takes such steps. -/
theorem signIns_safe (cfg : Settings) :
    (∀ s, (signIns cfg).Reachable s → UniqueIdentities s) ∧
      (∀ s, (signIns cfg).ReachableBy KeepsAccess s → NobodyLockedOut s) ∧
      ∀ s a s', (signIns cfg).Reachable s → NobodyLockedOut s → step cfg s a = some s' →
        (NobodyLockedOut s' ↔ KeepsAccess s a) := by
  refine ⟨fun s hr => (consistent_of_reachable hr).unique, fun s hr => ?_,
    fun s a s' hr hs h => lockedOut_step_iff (consistent_of_reachable hr) hs h⟩
  have hboth : Consistent s ∧ NobodyLockedOut s := by
    refine StepSystem.reachableBy_invariant (I := fun s => Consistent s ∧ NobodyLockedOut s)
      (fun s₀ h₀ => ?_) (fun s a s' hs hok h => ?_) hr
    · rw [show s₀ = initial from h₀]
      exact ⟨consistent_initial, nobodyLockedOut_initial⟩
    · exact ⟨consistent_step hs.1 h, (lockedOut_step_iff hs.1 hs.2 h).mpr hok⟩
  exact hboth.2

def sampleSettings : Settings :=
  { hashState := id
    normalize := id
    hashPassword := id
    verifyPassword := fun passwordHash password => passwordHash == password
    isConfigured := fun _ => true
    development := false }

def sampleIdentity : OAuthIdentityInfo :=
  { subject := "108234"
    email := some "owner@example.com"
    emailVerified := true
    displayName := none }

/-- The first account of an instance signs up by OAuth, and the request dies
    after the account is committed. -/
def deadSignUp : List Action :=
  [.startLogin 0 "google" "state", .completeCallback 1 "google" "state" (some "code") none,
    .consumeFlow 1, .resolveIdentity 1 (some sampleIdentity), .completeLogin 1, .matchEmail 1,
    .ensureEmailAvailable 1, .requireApproval 1, .firstUserBootstrap 1, .createApprovedUser 1,
    .crash 1]

def deadSignUpState : State :=
  ((signIns sampleSettings).exec initial deadSignUp).getD initial

/-- A crash between the two commits of a sign-up locks the account out. -/
theorem signIns_lock_out : ¬ ∀ s, (signIns sampleSettings).Reachable s →
    NobodyLockedOut s ∧ UniqueIdentities s := by
  intro h
  have hrun : (signIns sampleSettings).exec initial deadSignUp = some deadSignUpState := rfl
  rcases (h deadSignUpState (StepSystem.reachable_of_exec rfl hrun)).1
    { id := 2, email := "owner@example.com", passwordHash := none, isActive := true }
    (mem_cons_of_mem _ (mem_singleton.mpr rfl)) rfl (by decide) with hhas | ⟨i, hi, _⟩
  · exact hhas rfl
  · cases hi

end Accounts

end Partha
