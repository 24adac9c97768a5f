import Partha.Auth.Refresh

/-!
# Refresh-Token Families

What holds of the token families in every interleaving of requests.

Two facts need nothing but the claim. `UPDATE ... WHERE used_at IS NULL` lets a
row be used once, whatever was read before it, so a token is exchanged at most
once; and since the commit that uses a token is the commit that adds its
successor, a family never has two unused tokens. `Consistent` is the invariant
that carries both. Its heart is what it says of a claimed request: the row is
still unused in the table and the lock on it is this request's, which is why
the two commits that could meet on one row cannot both have claimed it.

The third fact is about revocation and is not free. A request that has read a
token goes on to claim it, and the guard of the claim asks only whether the
token is used. A revocation that commits between the read and the claim is not
seen, and the claim adds a live token to a revoked family. The other window is
inside `_revoke_family`: a successor that is committed after the family was
read and before the marks are written is not among the rows marked.

`Undisturbed` says that a step falls in neither window. In a run whose steps
are all undisturbed, a revoked family is dead: `Sealed` says that all its
tokens are revoked and that none of them is claimed. `revival` is the run that
shows the first window to be real.

## Main definitions

* `Live`: A token neither used nor revoked.
* `FamilyRevoked`: Some revocation of the family has committed.
* `Exchanges`: The step by which a request exchanges a token of a family.
* `Kept`: What every step preserves of the rows.
* `RequestOk`: What a request's stand says about the table and the locks.
* `Consistent`: The invariant of every interleaving.
* `Undisturbed`: A step outside both windows.
* `Sealed`: The invariant of the runs without such a step.

## Theorems

* `step_consistent`: Every step keeps the invariant.
* `consistent_of_reachable`: It holds in every reachable state.
* `familyRevoked_mono`: A revoked family stays revoked.
* `step_sealed`: An undisturbed step keeps a revoked family dead.
* `families_safe`: Single use, one live token, and no token out of a revoked
  family in an undisturbed run.
* `families_not_safe`: Without the condition a revoked family comes back.
-/

namespace Partha

namespace Auth

open List

variable {cfg : Settings}

/-- A token that a refresh would accept, as far as use and revocation go. -/
def Live (t : RefreshToken) : Prop :=
  t.usedAt = none ∧ t.revokedAt = none

/-- A revocation of the family has committed: a logout, a replayed token, a
    lost claim or an inactive user marked one of its rows. -/
def FamilyRevoked (s : State) (f : Nat) : Prop :=
  ∃ t ∈ s.tokens, t.familyId = f ∧ t.revokedAt.isSome

/-- Between `s` and `s'` some request completed a refresh with a token of
    family `f`: it accepted that token and issued a successor. -/
def Exchanges (s s' : State) (f : Nat) : Prop :=
  ∃ r record successor, s.request r ≠ .exchanged record successor ∧
    s'.request r = .exchanged record successor ∧ record.familyId = f

/-- Rows are never removed, never change family, and never lose a mark. -/
def Kept (tokens tokens' : List RefreshToken) : Prop :=
  ∀ t ∈ tokens, ∃ t' ∈ tokens', t'.id = t.id ∧ t'.familyId = t.familyId ∧
    (t.usedAt.isSome → t'.usedAt.isSome) ∧ (t.revokedAt.isSome → t'.revokedAt.isSome)

theorem kept_refl (tokens : List RefreshToken) : Kept tokens tokens :=
  fun t ht => ⟨t, ht, rfl, rfl, id, id⟩

theorem kept_trans {a b c : List RefreshToken} (h : Kept a b) (h' : Kept b c) : Kept a c := by
  intro t ht
  rcases h t ht with ⟨u, hu, hid, hfam, hused, hrev⟩
  rcases h' u hu with ⟨v, hv, hid', hfam', hused', hrev'⟩
  exact ⟨v, hv, hid'.trans hid, hfam'.trans hfam, fun x => hused' (hused x),
    fun x => hrev' (hrev x)⟩

theorem kept_append (tokens new : List RefreshToken) : Kept tokens (tokens ++ new) :=
  fun t ht => ⟨t, mem_append_left _ ht, rfl, rfl, id, id⟩

/-- A guarded update that only adds marks keeps the rows. -/
theorem kept_updateWhere (p : RefreshToken → Bool) (f : RefreshToken → RefreshToken)
    (hid : ∀ t, (f t).id = t.id) (hfam : ∀ t, (f t).familyId = t.familyId)
    (hused : ∀ t, t.usedAt.isSome → (f t).usedAt.isSome)
    (hrev : ∀ t, t.revokedAt.isSome → (f t).revokedAt.isSome) (tokens : List RefreshToken) :
    Kept tokens (Rows.updateWhere p f tokens) := by
  intro t ht
  refine ⟨_, Rows.mem_updateWhere_of_mem ht, ?_⟩
  by_cases hp : p t
  · rw [if_pos hp]
    exact ⟨hid t, hfam t, hused t, hrev t⟩
  · rw [if_neg hp]
    exact ⟨rfl, rfl, id, id⟩

/-- What the stand of request `r` says about the table and the locks. -/
def RequestOk (tokens : List RefreshToken) (lock : Nat → Option Nat) (r : Nat) : Request → Prop
  | .loaded record _ | .checked record _ | .revoking record _ _ =>
    ∃ t ∈ tokens, t.id = record.id ∧ t.familyId = record.familyId
  | .claimed record _ =>
    lock record.id = some r ∧
      ∃ t ∈ tokens, t.id = record.id ∧ t.familyId = record.familyId ∧ t.usedAt = none
  | .selected f ids _ _ => ∀ id ∈ ids, ∃ t ∈ tokens, t.id = id ∧ t.familyId = f
  | .exchanged record _ => ∃ t ∈ tokens, t.id = record.id ∧ t.usedAt.isSome
  | _ => True

variable {r now f : Nat} {s s' : State} {record t : RefreshToken} {caller : Caller} {a : Action}
  {ok : State → Action → Prop}

/-- Keeping the rows keeps every request but one that holds a claim, which
    also depends on the mark it has not written yet and on its lock. -/
theorem requestOk_kept {tokens tokens' : List RefreshToken} {lock lock' : Nat → Option Nat}
    {q : Request} (hk : Kept tokens tokens') (h : RequestOk tokens lock r q)
    (hclaim : ∀ record now, q = .claimed record now →
      RequestOk tokens' lock' r (.claimed record now)) : RequestOk tokens' lock' r q := by
  have hrow : ∀ id f, (∃ t ∈ tokens, t.id = id ∧ t.familyId = f) →
      ∃ t ∈ tokens', t.id = id ∧ t.familyId = f := by
    rintro id f ⟨t, ht, hid, hfam⟩
    rcases hk t ht with ⟨t', ht', hid', hfam', _⟩
    exact ⟨t', ht', hid'.trans hid, hfam'.trans hfam⟩
  cases q with
  | loaded record now => exact hrow _ _ h
  | checked record now => exact hrow _ _ h
  | revoking record now caller => exact hrow _ _ h
  | claimed record now => exact hclaim record now rfl
  | selected f ids now caller => exact fun id hid => hrow _ _ (h id hid)
  | exchanged record successor =>
    rcases h with ⟨t, ht, hid, hused⟩
    rcases hk t ht with ⟨t', ht', hid', _, hused', _⟩
    exact ⟨t', ht', hid'.trans hid, hused' hused⟩
  | _ => trivial

/-- The invariant of every interleaving. -/
structure Consistent (s : State) : Prop where
  idsNodup : (s.tokens.map (·.id)).Nodup
  idsOld : ∀ t ∈ s.tokens, t.id < s.nextUuid
  familiesOld : ∀ t ∈ s.tokens, t.familyId < s.nextUuid
  held : ∀ id r, s.lock id = some r →
    ∃ record now, s.request r = .claimed record now ∧ record.id = id
  requestOk : ∀ r, RequestOk s.tokens s.lock r (s.request r)
  oneUnused : ∀ t ∈ s.tokens, ∀ t' ∈ s.tokens, t.familyId = t'.familyId →
    t.usedAt = none → t'.usedAt = none → t = t'
  once : ∀ r r' record record' successor successor',
    s.request r = .exchanged record successor → s.request r' = .exchanged record' successor' →
      record.id = record'.id → r = r'

theorem consistent_initial : Consistent initial where
  idsNodup := nodup_nil
  idsOld := fun _ h => absurd h not_mem_nil
  familiesOld := fun _ h => absurd h not_mem_nil
  held := fun _ _ h => by simp only [initial, reduceCtorEq] at h
  requestOk := fun _ => trivial
  oneUnused := fun _ h => absurd h not_mem_nil
  once := fun _ _ _ _ _ _ h => by simp only [initial, reduceCtorEq] at h

/-- Only the request that is not holding a claim moves on, to a stand that is
    right about the table and is not an exchange. -/
theorem consistent_setRequest (h : Consistent s) (r : Nat) (q : Request)
    (hold : ∀ record now, s.request r ≠ .claimed record now) (hq : RequestOk s.tokens s.lock r q)
    (hne : ∀ record successor, q ≠ .exchanged record successor) :
    Consistent (s.setRequest r q) where
  idsNodup := h.idsNodup
  idsOld := h.idsOld
  familiesOld := h.familiesOld
  held := by
    intro id r' hl
    rcases h.held id r' hl with ⟨record, now, hreq, hid⟩
    have hr : r' ≠ r := fun e => hold record now (e ▸ hreq)
    exact ⟨record, now, by simp only [State.setRequest, if_neg hr, hreq], hid⟩
  requestOk := by
    intro r'
    by_cases hr : r' = r
    · subst hr
      simpa [State.setRequest] using hq
    · simpa only [State.setRequest, if_neg hr] using h.requestOk r'
  oneUnused := h.oneUnused
  once := by
    intro a b record record' successor successor' ha hb
    simp only [State.setRequest] at ha hb
    split at ha
    · exact absurd ha (hne _ _)
    · split at hb
      · exact absurd hb (hne _ _)
      · exact h.once a b record record' successor successor' ha hb

/-- Every row a lookup returns is a row of the table. -/
theorem mem_of_findToken {raw : Nat} (h : findToken cfg s raw = some record) : record ∈ s.tokens :=
  mem_of_find?_eq_some h

theorem insertToken_eq (h : insertToken s t = some s') :
    s' = { s with
      tokens := s.tokens ++ [t]
      nextUuid := s.nextUuid + 2
      nextRaw := s.nextRaw + 1 } := by
  unfold insertToken at h
  split at h
  · cases h
  · exact (Option.some.inj h).symm

/-- A row whose identifier the counter has not reached is not in the table. -/
theorem nodup_append_new (h : Consistent s) (ht : t.id = s.nextUuid) :
    ((s.tokens ++ [t]).map (·.id)).Nodup := by
  rw [map_append, nodup_append]
  refine ⟨h.idsNodup, nodup_singleton _, ?_⟩
  intro a ha b hb
  rcases mem_map.mp ha with ⟨u, hu, rfl⟩
  simp only [map_cons, map_nil, mem_singleton] at hb
  have := h.idsOld u hu
  omega

theorem openSession_consistent (h : Consistent s) (hr : s.request r = .idle) (u : Nat) :
    Consistent (openSession cfg s r u) := by
  have hold : ∀ record now, s.request r ≠ .claimed record now := fun _ _ => by
    rw [hr]
    simp
  unfold openSession
  simp only
  cases hins : insertToken s (newToken cfg s u (s.nextUuid + 1)) with
  | none => exact consistent_setRequest h r .crashed hold trivial (fun _ _ => by simp)
  | some s' =>
    have hs' := insertToken_eq hins
    have hnew : Consistent s' := by
      subst hs'
      constructor
      · exact nodup_append_new h rfl
      · intro t ht
        rcases mem_append.mp ht with ht | ht
        · have := h.idsOld t ht
          simp only
          omega
        · rw [mem_singleton.mp ht]
          simp only [newToken]
          omega
      · intro t ht
        rcases mem_append.mp ht with ht | ht
        · have := h.familiesOld t ht
          simp only
          omega
        · rw [mem_singleton.mp ht]
          simp only [newToken]
          omega
      · exact h.held
      · intro r'
        refine requestOk_kept (kept_append _ _) (h.requestOk r') (fun record now hreq => ?_)
        -- The claimed row is still there, unmarked.
        have hclaim := h.requestOk r'
        rw [show s.request r' = .claimed record now from hreq] at hclaim
        rcases hclaim with ⟨hlock, t, ht, hrest⟩
        exact ⟨hlock, t, mem_append_left _ ht, hrest⟩
      · -- The new row is alone in its family.
        intro t ht t' ht' hfam hu hu'
        rcases mem_append.mp ht with ht | ht <;> rcases mem_append.mp ht' with ht' | ht'
        · exact h.oneUnused t ht t' ht' hfam hu hu'
        · have hold' := h.familiesOld t ht
          rw [mem_singleton.mp ht'] at hfam
          simp only [newToken] at hfam
          omega
        · have hold' := h.familiesOld t' ht'
          rw [mem_singleton.mp ht] at hfam
          simp only [newToken] at hfam
          omega
        · rw [mem_singleton.mp ht, mem_singleton.mp ht']
      · exact h.once
    refine consistent_setRequest hnew r (.opened _) ?_ trivial (fun _ _ => by simp)
    subst hs'
    exact hold

theorem refresh_consistent (h : Consistent s) (hr : s.request r = .idle) (raw : Nat) :
    Consistent (refresh cfg s r raw) := by
  have hold : ∀ record now, s.request r ≠ .claimed record now := fun _ _ => by
    rw [hr]
    simp
  unfold refresh
  cases hfind : findToken cfg s raw with
  | none => exact consistent_setRequest h r .rejected hold trivial (fun _ _ => by simp)
  | some record =>
    have hrow : ∃ t ∈ s.tokens, t.id = record.id ∧ t.familyId = record.familyId :=
      ⟨record, mem_of_findToken hfind, rfl, rfl⟩
    simp only
    split
    · exact consistent_setRequest h r .rejected hold trivial (fun _ _ => by simp)
    · split
      · exact consistent_setRequest h r (.revoking record s.now .refresh) hold hrow
          (fun _ _ => by simp)
      · exact consistent_setRequest h r (.loaded record s.now) hold hrow (fun _ _ => by simp)

/-- The lock of a claim that another request holds is not on the row that `r`
    may write. -/
theorem claim_elsewhere (h : Consistent s) {r' id : Nat} (hfree : s.Unlocked id r)
    (hreq : s.request r' = .claimed record now) (hne : r' ≠ r) : record.id ≠ id := by
  intro e
  have hclaim := h.requestOk r'
  rw [hreq] at hclaim
  have hlock : s.lock id = some r' := e ▸ hclaim.1
  rcases hfree with hf | hf
  · rw [hf] at hlock
    cases hlock
  · rw [hf, Option.some.injEq] at hlock
    exact hne hlock.symm

theorem claimToken_consistent (h : Consistent s) (hr : s.request r = .checked record now)
    (hstep : claimToken s r record now = some s') : Consistent s' := by
  have hold : ∀ record now, s.request r ≠ .claimed record now := fun _ _ => by
    rw [hr]
    simp
  have hrow := h.requestOk r
  rw [hr] at hrow
  unfold claimToken at hstep
  split at hstep
  · rename_i hfree
    split at hstep
    · rename_i hcount
      cases hstep
      -- The guard matched one row, and it is the row the request loaded.
      rcases Rows.rowcount_ne_zero.mp (by rw [hcount]; exact Nat.one_ne_zero) with ⟨t, ht, hp⟩
      simp only [Bool.decide_and, Bool.and_eq_true, decide_eq_true_eq] at hp
      rcases hrow with ⟨u, hu, huid, hufam⟩
      have htu : t = u := Rows.eq_of_key_eq h.idsNodup ht hu (hp.1.trans huid.symm)
      constructor
      · exact h.idsNodup
      · exact h.idsOld
      · exact h.familiesOld
      · intro id r' hl
        simp only [State.setRequest, State.acquire] at hl ⊢
        by_cases hid : id = record.id
        · rw [if_pos hid, Option.some.injEq] at hl
          exact ⟨record, now, by rw [if_pos hl.symm], hid.symm⟩
        · rw [if_neg hid] at hl
          rcases h.held id r' hl with ⟨record', now', hreq, hid'⟩
          have hrr : r' ≠ r := fun e => hold record' now' (e ▸ hreq)
          exact ⟨record', now', by rw [if_neg hrr, hreq], hid'⟩
      · intro r'
        by_cases hrr : r' = r
        · subst hrr
          simp only [State.setRequest, State.acquire, if_true, RequestOk]
          exact ⟨trivial, u, hu, huid, hufam, htu ▸ hp.2⟩
        · simp only [State.setRequest, State.acquire, if_neg hrr]
          refine requestOk_kept (kept_refl _) (h.requestOk r') (fun record' now' hreq => ?_)
          have hclaim := h.requestOk r'
          rw [hreq] at hclaim
          exact ⟨by simp only [if_neg (claim_elsewhere h hfree hreq hrr), hclaim.1], hclaim.2⟩
      · exact h.oneUnused
      · intro a b record₁ record₂ successor₁ successor₂ ha hb
        simp only [State.setRequest, State.acquire] at ha hb
        split at ha
        · cases ha
        · split at hb
          · cases hb
          · exact h.once a b record₁ record₂ successor₁ successor₂ ha hb
    · cases hstep
      exact consistent_setRequest h r (.revoking record now .refresh) hold hrow
        (fun _ _ => by simp)
  · cases hstep

/-- A request that ends gives up its locks. Nothing else about the table or
    about the other requests changes. -/
theorem consistent_release (h : Consistent s) (r : Nat) (q : Request)
    (hq : RequestOk s.tokens (fun _ => none) r q) (hnc : ∀ record now, q ≠ .claimed record now)
    (hne : ∀ record successor, q ≠ .exchanged record successor) :
    Consistent ((s.release r).setRequest r q) where
  idsNodup := h.idsNodup
  idsOld := h.idsOld
  familiesOld := h.familiesOld
  held := by
    intro id r' hl
    simp only [State.setRequest, State.release] at hl ⊢
    split at hl
    · cases hl
    · rename_i hl'
      have hrr : r' ≠ r := fun e => hl' (e ▸ hl)
      rw [if_neg hrr]
      exact h.held id r' hl
  requestOk := by
    intro r'
    simp only [State.setRequest, State.release]
    by_cases hrr : r' = r
    · subst hrr
      rw [if_pos rfl]
      exact requestOk_kept (kept_refl _) hq (fun record now e => absurd e (hnc record now))
    · rw [if_neg hrr]
      refine requestOk_kept (kept_refl _) (h.requestOk r') (fun record now hreq => ?_)
      have hclaim := h.requestOk r'
      rw [hreq] at hclaim
      have hother : ¬ s.lock record.id = some r := by
        rw [hclaim.1, Option.some.injEq]
        exact hrr
      refine ⟨?_, hclaim.2⟩
      change (if s.lock record.id = some r then none else s.lock record.id) = some r'
      rw [if_neg hother, hclaim.1]
  oneUnused := h.oneUnused
  once := by
    intro a b record record' successor successor' ha hb
    simp only [State.setRequest, State.release] at ha hb
    split at ha
    · exact absurd ha (hne _ _)
    · split at hb
      · exact absurd hb (hne _ _)
      · exact h.once a b record record' successor successor' ha hb

/-- The marks of a revocation touch neither uses nor locks. -/
theorem consistent_revoked (h : Consistent s) (ids : List Nat) (now : Nat) :
    Consistent (s.setTokens
      (Rows.updateWhere (fun t => t.id ∈ ids) (RefreshToken.markRevoked now)
        s.tokens)) := by
  -- a row after the update is a row before it, with the same id, family and use
  have hrow : ∀ t' ∈ Rows.updateWhere (fun t => decide (t.id ∈ ids))
      (RefreshToken.markRevoked now) s.tokens,
      ∃ t ∈ s.tokens, t'.id = t.id ∧ t'.familyId = t.familyId ∧ t'.usedAt = t.usedAt ∧
        t' = (if t.id ∈ ids then t.markRevoked now else t) := by
    intro t' ht'
    rcases mem_map.mp ht' with ⟨t, ht, rfl⟩
    refine ⟨t, ht, ?_⟩
    by_cases hin : t.id ∈ ids
    · simp [hin, RefreshToken.markRevoked]
    · simp [hin]
  have hkept : Kept s.tokens (Rows.updateWhere (fun t => decide (t.id ∈ ids))
      (RefreshToken.markRevoked now) s.tokens) :=
    kept_updateWhere _ (RefreshToken.markRevoked now) (fun _ => rfl) (fun _ => rfl)
      (fun _ h => h) (fun _ _ => rfl) _
  constructor
  · simp only [State.setTokens]
    rw [Rows.map_updateWhere (f := RefreshToken.markRevoked now) (fun _ _ => rfl)]
    exact h.idsNodup
  · intro t' ht'
    rcases hrow t' ht' with ⟨t, ht, hid, _⟩
    rw [hid]
    exact h.idsOld t ht
  · intro t' ht'
    rcases hrow t' ht' with ⟨t, ht, _, hfam, _⟩
    rw [hfam]
    exact h.familiesOld t ht
  · exact h.held
  · intro r'
    refine requestOk_kept hkept (h.requestOk r') (fun record now' hreq => ?_)
    have hclaim := h.requestOk r'
    rw [show s.request r' = .claimed record now' from hreq] at hclaim
    rcases hclaim with ⟨hlock, t, ht, hid, hfam, hused⟩
    refine ⟨hlock, _, Rows.mem_updateWhere_of_mem ht, ?_⟩
    split
    · exact ⟨hid, hfam, hused⟩
    · exact ⟨hid, hfam, hused⟩
  · intro t' ht' u' hu' hfam hused hused'
    rcases hrow t' ht' with ⟨t, ht, _, hfam₁, hused₁, heq⟩
    rcases hrow u' hu' with ⟨u, hu, _, hfam₂, hused₂, heq'⟩
    -- two unused rows of a family come from one row, and are revoked alike
    have htu : t = u := h.oneUnused t ht u hu (by rw [← hfam₁, ← hfam₂, hfam])
      (hused₁ ▸ hused) (hused₂ ▸ hused')
    rw [heq, heq', htu]
  · exact h.once

theorem commitRevoke_consistent (h : Consistent s) {ids : List Nat}
    (hstep : commitRevoke s r ids now caller = some s') : Consistent s' := by
  unfold commitRevoke at hstep
  split at hstep
  · cases hstep
    cases caller with
    | refresh =>
      exact consistent_release (consistent_revoked h ids now) r .rejected trivial
        (fun _ _ => by simp) (fun _ _ => by simp)
    | logout =>
      exact consistent_release (consistent_revoked h ids now) r .loggedOut trivial
        (fun _ _ => by simp) (fun _ _ => by simp)
  · cases hstep

/-- The commit that uses the claimed token and adds its successor. -/
theorem issueRefresh_consistent (h : Consistent s) (hr : s.request r = .claimed record now) :
    Consistent (issueRefresh cfg s r record now) := by
  unfold issueRefresh
  simp only
  cases hins : insertToken (s.setTokens (Rows.updateWhere (fun t => t.id = record.id)
      (RefreshToken.markUsed now) s.tokens))
      (newToken cfg s record.userId record.familyId) with
  | none => exact consistent_release h r .crashed trivial (fun _ _ => by simp) (fun _ _ => by simp)
  | some s' =>
    have hs' := insertToken_eq hins
    have hclaim := h.requestOk r
    rw [hr] at hclaim
    rcases hclaim with ⟨hlock, u, hu, huid, hufam, huused⟩
    -- The only row the update marks is the one that was claimed.
    have hmark : ∀ t ∈ s.tokens, t.id = record.id → t = u := fun t ht hid =>
      Rows.eq_of_key_eq h.idsNodup ht hu (hid.trans huid.symm)
    have hrow : ∀ t' ∈ Rows.updateWhere (fun t => decide (t.id = record.id))
        (RefreshToken.markUsed now) s.tokens,
        ∃ t ∈ s.tokens, t'.id = t.id ∧ t'.familyId = t.familyId ∧
          (t'.usedAt = none → t' = t ∧ t.id ≠ record.id) := by
      intro t' ht'
      rcases mem_map.mp ht' with ⟨t, ht, rfl⟩
      refine ⟨t, ht, ?_⟩
      by_cases hid : t.id = record.id
      · simp [hid, RefreshToken.markUsed]
      · simp [hid]
    have hkept : Kept s.tokens (Rows.updateWhere (fun t => decide (t.id = record.id))
        (RefreshToken.markUsed now) s.tokens ++
          [newToken cfg s record.userId record.familyId]) :=
      kept_trans (kept_updateWhere _ (RefreshToken.markUsed now) (fun _ => rfl)
        (fun _ => rfl) (fun _ _ => rfl) (fun _ h => h) _) (kept_append _ _)
    have hnodup : ((Rows.updateWhere (fun t => decide (t.id = record.id))
        (RefreshToken.markUsed now) s.tokens).map (·.id)).Nodup := by
      rw [Rows.map_updateWhere (f := RefreshToken.markUsed now) (fun _ _ => rfl)]
      exact h.idsNodup
    subst hs'
    simp only [State.setTokens]
    constructor
    · simp only [State.setRequest, State.release]
      rw [map_append, nodup_append]
      refine ⟨hnodup, nodup_singleton _, ?_⟩
      intro a ha b hb
      rcases mem_map.mp ha with ⟨t', ht', rfl⟩
      rcases hrow t' ht' with ⟨t, ht, hid, _⟩
      simp only [map_cons, map_nil, mem_singleton, newToken] at hb
      have := h.idsOld t ht
      omega
    · intro t' ht'
      simp only [State.setRequest, State.release] at ht' ⊢
      rcases mem_append.mp ht' with ht' | ht'
      · rcases hrow t' ht' with ⟨t, ht, hid, _⟩
        have := h.idsOld t ht
        omega
      · rw [mem_singleton.mp ht']
        simp only [newToken]
        omega
    · intro t' ht'
      simp only [State.setRequest, State.release] at ht' ⊢
      rcases mem_append.mp ht' with ht' | ht'
      · rcases hrow t' ht' with ⟨t, ht, _, hfam, _⟩
        have := h.familiesOld t ht
        omega
      · rw [mem_singleton.mp ht']
        have := h.familiesOld u hu
        simp only [newToken]
        omega
    · intro id r' hl
      simp only [State.setRequest, State.release] at hl ⊢
      split at hl
      · cases hl
      · rename_i hl'
        have hrr : r' ≠ r := fun e => hl' (e ▸ hl)
        rw [if_neg hrr]
        exact h.held id r' hl
    · intro r'
      simp only [State.setRequest, State.release]
      by_cases hrr : r' = r
      · subst hrr
        rw [if_pos rfl]
        refine ⟨_, mem_append_left _ (Rows.mem_updateWhere_of_mem hu), ?_⟩
        rw [if_pos (by simp [huid])]
        exact ⟨huid, rfl⟩
      · rw [if_neg hrr]
        refine requestOk_kept hkept (h.requestOk r') (fun record' now' hreq => ?_)
        have hclaim := h.requestOk r'
        rw [hreq] at hclaim
        rcases hclaim with ⟨hlock', t, ht, hid, hfam, hused⟩
        -- Another claim is on another row, so the mark did not reach it.
        have hids : record'.id ≠ record.id :=
          claim_elsewhere h (.inr hlock) hreq hrr
        have hother : ¬ s.lock record'.id = some r := by
          rw [hlock', Option.some.injEq]
          exact hrr
        refine ⟨?_, _, mem_append_left _ (Rows.mem_updateWhere_of_mem ht), ?_⟩
        · change (if s.lock record'.id = some r then none else s.lock record'.id) = some r'
          rw [if_neg hother, hlock']
        rw [if_neg (by simp [hid, hids])]
        exact ⟨hid, hfam, hused⟩
    · intro t' ht' v' hv' hfam hused hused'
      simp only [State.setRequest, State.release] at ht' hv'
      -- In this family the claimed row was the unused one, and it is used now.
      have hnone : ∀ w' ∈ Rows.updateWhere (fun t => decide (t.id = record.id))
          (RefreshToken.markUsed now) s.tokens,
          w'.familyId = record.familyId → w'.usedAt = none → False := by
        intro w' hw' hwfam hwused
        rcases hrow w' hw' with ⟨w, hw, _, _, hunused⟩
        rcases hunused hwused with ⟨rfl, hwid⟩
        exact hwid (by rw [h.oneUnused w' hw u hu (hwfam.trans hufam.symm) hwused huused, huid])
      rcases mem_append.mp ht' with ht' | ht' <;> rcases mem_append.mp hv' with hv' | hv'
      · rcases hrow t' ht' with ⟨t, ht, _, _, hunused⟩
        rcases hrow v' hv' with ⟨v, hv, _, _, hunused'⟩
        rcases hunused hused with ⟨rfl, _⟩
        rcases hunused' hused' with ⟨rfl, _⟩
        exact h.oneUnused t' ht v' hv hfam hused hused'
      · rw [mem_singleton.mp hv'] at hfam
        exact absurd (hnone t' ht' hfam hused) not_false
      · rw [mem_singleton.mp ht'] at hfam
        exact absurd (hnone v' hv' hfam.symm hused') not_false
      · rw [mem_singleton.mp ht', mem_singleton.mp hv']
    · -- A request that exchanged this token before would have left it used.
      have hfirst : ∀ a record' successor', s.request a = .exchanged record' successor' →
          record'.id ≠ record.id := by
        intro a record' successor' ha hid
        have hused := h.requestOk a
        rw [ha] at hused
        rcases hused with ⟨t, ht, htid, htused⟩
        rw [hmark t ht (htid.trans hid), huused] at htused
        exact absurd htused (by simp)
      intro a b record₁ record₂ successor₁ successor₂ ha hb hid
      simp only [State.setRequest, State.release] at ha hb
      split at ha
      · rename_i har
        split at hb
        · rename_i hbr
          rw [har, hbr]
        · rw [Request.exchanged.injEq] at ha
          exact absurd (ha.1 ▸ hid.symm) (hfirst b record₂ successor₂ hb)
      · split at hb
        · rw [Request.exchanged.injEq] at hb
          exact absurd (hb.1 ▸ hid) (hfirst a record₁ successor₁ ha)
        · exact h.once a b record₁ record₂ successor₁ successor₂ ha hb hid

theorem selectFamily_consistent (h : Consistent s)
    (hr : s.request r = .revoking record now caller) :
    Consistent (selectFamily s r record now caller) := by
  refine consistent_setRequest h r _ (fun _ _ => by simp [hr]) ?_ (fun _ _ => by simp)
  intro id hid
  rcases mem_map.mp hid with ⟨t, ht, rfl⟩
  have hrecords := (mem_filter.mp ht).1
  rcases mem_filter.mp hrecords with ⟨hmem, hfam⟩
  exact ⟨t, hmem, rfl, by simpa using hfam⟩

theorem loadUser_consistent (h : Consistent s) (hr : s.request r = .loaded record now) :
    Consistent (loadUser s r record now) := by
  have hrow := h.requestOk r
  rw [hr] at hrow
  unfold loadUser
  split
  · exact consistent_setRequest h r (.checked record now) (fun _ _ => by simp [hr]) hrow
      (fun _ _ => by simp)
  · exact consistent_setRequest h r (.revoking record now .refresh) (fun _ _ => by simp [hr]) hrow
      (fun _ _ => by simp)

theorem logout_consistent (h : Consistent s) (hr : s.request r = .idle) (raw : Option Nat) :
    Consistent (logout cfg s r raw) := by
  unfold logout
  cases hfind : raw.bind (findToken cfg s) with
  | none =>
    exact consistent_setRequest h r .loggedOut (fun _ _ => by simp [hr]) trivial
      (fun _ _ => by simp)
  | some record =>
    rcases Option.bind_eq_some_iff.mp hfind with ⟨_, _, hrecord⟩
    exact consistent_setRequest h r (.revoking record s.now .logout) (fun _ _ => by simp [hr])
      ⟨record, mem_of_findToken hrecord, rfl, rfl⟩ (fun _ _ => by simp)

/-- Every step of every request keeps the invariant. -/
theorem step_consistent (h : Consistent s) (hstep : step cfg s a = some s') : Consistent s' := by
  cases a with
  | tick | setUser u active =>
    cases hstep
    exact ⟨h.idsNodup, h.idsOld, h.familiesOld, h.held, h.requestOk, h.oneUnused, h.once⟩
  | crash r =>
    cases hstep
    exact consistent_release h r .crashed trivial (fun _ _ => by simp) (fun _ _ => by simp)
  | openSession r u =>
    simp only [step] at hstep
    split at hstep
    · rename_i hr
      exact Option.some.inj hstep ▸ openSession_consistent h hr u
    · cases hstep
  | refresh r raw =>
    simp only [step] at hstep
    split at hstep
    · rename_i hr
      exact Option.some.inj hstep ▸ refresh_consistent h hr raw
    · cases hstep
  | loadUser r =>
    simp only [step] at hstep
    split at hstep
    · rename_i hr
      exact Option.some.inj hstep ▸ loadUser_consistent h hr
    · cases hstep
  | claimToken r =>
    simp only [step] at hstep
    split at hstep
    · rename_i hr
      exact claimToken_consistent h hr hstep
    · cases hstep
  | issueRefresh r =>
    simp only [step] at hstep
    split at hstep
    · rename_i hr
      exact Option.some.inj hstep ▸ issueRefresh_consistent h hr
    · cases hstep
  | logout r raw =>
    simp only [step] at hstep
    split at hstep
    · rename_i hr
      exact Option.some.inj hstep ▸ logout_consistent h hr raw
    · cases hstep
  | selectFamily r =>
    simp only [step] at hstep
    split at hstep
    · rename_i hr
      exact Option.some.inj hstep ▸ selectFamily_consistent h hr
    · cases hstep
  | commitRevoke r =>
    simp only [step] at hstep
    split at hstep
    · exact commitRevoke_consistent h hstep
    · cases hstep

theorem consistent_of_reachable (hr : (sessions cfg).ReachableBy ok s) : Consistent s := by
  refine StepSystem.reachableBy_invariant (fun s₀ h₀ => ?_) (fun s a s' h _ hstep => ?_) hr
  · rw [show s₀ = initial from h₀]
    exact consistent_initial
  · exact step_consistent h hstep

/-- The three commits that write the table, and every other step that does
    not. -/
theorem step_tokens (hstep : step cfg s a = some s') :
    s'.tokens = s.tokens ∨
    (∃ u, s'.tokens = s.tokens ++ [newToken cfg s u (s.nextUuid + 1)]) ∨
    (∃ r record now, s.request r = .claimed record now ∧
      s'.tokens =
        Rows.updateWhere (fun t => t.id = record.id) (RefreshToken.markUsed now) s.tokens ++
        [newToken cfg s record.userId record.familyId]) ∨
    (∃ r f ids now caller, a = .commitRevoke r ∧ s.request r = .selected f ids now caller ∧
      (∀ id ∈ ids, s.Unlocked id r) ∧
      s'.tokens =
        Rows.updateWhere (fun t => t.id ∈ ids) (RefreshToken.markRevoked now) s.tokens) := by
  cases a with
  | tick => exact .inl (by rw [← Option.some.inj hstep])
  | setUser u active => exact .inl (by rw [← Option.some.inj hstep])
  | crash r => exact .inl (by rw [← Option.some.inj hstep]; rfl)
  -- A session opens a family of its own.
  | openSession r u =>
    simp only [step] at hstep
    split at hstep
    · cases hstep
      simp only [openSession]
      cases hins : insertToken s (newToken cfg s u (s.nextUuid + 1)) with
      | none => exact .inl rfl
      | some s'' =>
        refine .inr (.inl ⟨u, ?_⟩)
        rw [insertToken_eq hins]
        rfl
    · cases hstep
  -- A refresh reads until its commit, and the claim itself only locks.
  | refresh r raw =>
    simp only [step] at hstep
    split at hstep
    · cases hstep
      refine .inl ?_
      unfold refresh
      split
      · rfl
      · split
        · rfl
        · split <;> rfl
    · cases hstep
  | loadUser r =>
    simp only [step] at hstep
    split at hstep
    · cases hstep
      refine .inl ?_
      unfold loadUser
      split <;> rfl
    · cases hstep
  | claimToken r =>
    simp only [step] at hstep
    split at hstep
    · unfold claimToken at hstep
      split at hstep
      · split at hstep
        · exact .inl (by rw [← Option.some.inj hstep]; rfl)
        · exact .inl (by rw [← Option.some.inj hstep]; rfl)
      · cases hstep
    · cases hstep
  -- The commit uses the claimed token and adds the successor.
  | issueRefresh r =>
    simp only [step] at hstep
    split at hstep
    · rename_i record now hr
      cases hstep
      simp only [issueRefresh]
      cases hins : insertToken (s.setTokens (Rows.updateWhere (fun t => t.id = record.id)
          (RefreshToken.markUsed now) s.tokens))
          (newToken cfg s record.userId record.familyId) with
      | none => exact .inl rfl
      | some s'' =>
        refine .inr (.inr (.inl ⟨r, record, now, hr, ?_⟩))
        rw [insertToken_eq hins]
        rfl
    · cases hstep
  | logout r raw =>
    simp only [step] at hstep
    split at hstep
    · cases hstep
      refine .inl ?_
      unfold logout
      split <;> rfl
    · cases hstep
  | selectFamily r =>
    simp only [step] at hstep
    split at hstep
    · exact .inl (by rw [← Option.some.inj hstep]; rfl)
    · cases hstep
  -- The commit of a revocation marks the rows it has read.
  | commitRevoke r =>
    simp only [step] at hstep
    split at hstep
    · rename_i f ids now caller hr
      unfold commitRevoke at hstep
      split at hstep
      · rename_i hfree
        refine .inr (.inr (.inr ⟨r, f, ids, now, caller, rfl, hr, hfree, ?_⟩))
        cases hstep
        rfl
      · cases hstep
    · cases hstep

/-- The control flow of a request: the action it takes, where it stood and
    where it stands then. -/
inductive Moves : Action → Nat → Request → Request → Prop where
  | opens (r u : Nat) (t : RefreshToken) : Moves (.openSession r u) r .idle (.opened t)
  | openFails (r u : Nat) : Moves (.openSession r u) r .idle .crashed
  | refuses (r raw : Nat) : Moves (.refresh r raw) r .idle .rejected
  | replays (r raw : Nat) (record : RefreshToken) (now : Nat) :
      Moves (.refresh r raw) r .idle (.revoking record now .refresh)
  | loads (r raw : Nat) (record : RefreshToken) (now : Nat) :
      Moves (.refresh r raw) r .idle (.loaded record now)
  | checks (r : Nat) (record : RefreshToken) (now : Nat) :
      Moves (.loadUser r) r (.loaded record now) (.checked record now)
  | inactive (r : Nat) (record : RefreshToken) (now : Nat) :
      Moves (.loadUser r) r (.loaded record now) (.revoking record now .refresh)
  | claims (r : Nat) (record : RefreshToken) (now : Nat) :
      Moves (.claimToken r) r (.checked record now) (.claimed record now)
  | losesClaim (r : Nat) (record : RefreshToken) (now : Nat) :
      Moves (.claimToken r) r (.checked record now) (.revoking record now .refresh)
  | issues (r : Nat) (record successor : RefreshToken) (now : Nat) :
      Moves (.issueRefresh r) r (.claimed record now) (.exchanged record successor)
  | issueFails (r : Nat) (record : RefreshToken) (now : Nat) :
      Moves (.issueRefresh r) r (.claimed record now) .crashed
  | logsOut (r : Nat) (raw : Option Nat) : Moves (.logout r raw) r .idle .loggedOut
  | logoutRevokes (r : Nat) (raw : Option Nat) (record : RefreshToken) (now : Nat) :
      Moves (.logout r raw) r .idle (.revoking record now .logout)
  | selects (r : Nat) (record : RefreshToken) (f : Nat) (ids : List Nat) (now : Nat)
      (caller : Caller) :
      Moves (.selectFamily r) r (.revoking record now caller) (.selected f ids now caller)
  | revokes (r f : Nat) (ids : List Nat) (now : Nat) :
      Moves (.commitRevoke r) r (.selected f ids now .refresh) .rejected
  | revokesOut (r f : Nat) (ids : List Nat) (now : Nat) :
      Moves (.commitRevoke r) r (.selected f ids now .logout) .loggedOut
  | crashes (r : Nat) (q : Request) : Moves (.crash r) r q .crashed

/-- A step moves at most one request, along the control flow. -/
theorem step_request (hstep : step cfg s a = some s') :
    s'.request = s.request ∨
      ∃ r q, Moves a r (s.request r) q ∧
        ∀ r', s'.request r' = if r' = r then q else s.request r' := by
  cases a with
  | tick => exact .inl (by rw [← Option.some.inj hstep])
  | setUser u active => exact .inl (by rw [← Option.some.inj hstep])
  | crash r =>
    cases hstep
    exact .inr ⟨r, _, Moves.crashes r _, fun _ => rfl⟩
  -- A session, which is opened or fails.
  | openSession r u =>
    simp only [step] at hstep
    split at hstep
    · rename_i hr
      rw [← Option.some.inj hstep, openSession]
      split
      · exact .inr ⟨r, _, hr ▸ Moves.openFails r u, fun _ => rfl⟩
      · rename_i s'' hins
        rw [insertToken_eq hins]
        exact .inr ⟨r, _, hr ▸ Moves.opens r u _, fun _ => rfl⟩
    · cases hstep
  -- A refresh, from its read to its commit.
  | refresh r raw =>
    simp only [step] at hstep
    split at hstep
    · rename_i hr
      rw [← Option.some.inj hstep, refresh]
      split
      · exact .inr ⟨r, _, hr ▸ Moves.refuses r raw, fun _ => rfl⟩
      · split
        · exact .inr ⟨r, _, hr ▸ Moves.refuses r raw, fun _ => rfl⟩
        · split
          · exact .inr ⟨r, _, hr ▸ Moves.replays r raw _ _, fun _ => rfl⟩
          · exact .inr ⟨r, _, hr ▸ Moves.loads r raw _ _, fun _ => rfl⟩
    · cases hstep
  | loadUser r =>
    simp only [step] at hstep
    split at hstep
    · rename_i hr
      rw [← Option.some.inj hstep, loadUser]
      split
      · exact .inr ⟨r, _, hr ▸ Moves.checks r _ _, fun _ => rfl⟩
      · exact .inr ⟨r, _, hr ▸ Moves.inactive r _ _, fun _ => rfl⟩
    · cases hstep
  | claimToken r =>
    simp only [step] at hstep
    split at hstep
    · rename_i hr
      unfold claimToken at hstep
      split at hstep
      · split at hstep
        · cases hstep
          exact .inr ⟨r, _, hr ▸ Moves.claims r _ _, fun _ => rfl⟩
        · cases hstep
          exact .inr ⟨r, _, hr ▸ Moves.losesClaim r _ _, fun _ => rfl⟩
      · cases hstep
    · cases hstep
  | issueRefresh r =>
    simp only [step] at hstep
    split at hstep
    · rename_i hr
      rw [← Option.some.inj hstep, issueRefresh]
      split
      · exact .inr ⟨r, _, hr ▸ Moves.issueFails r _ _, fun _ => rfl⟩
      · rename_i s'' hins
        rw [insertToken_eq hins]
        exact .inr ⟨r, _, hr ▸ Moves.issues r _ _ _, fun _ => rfl⟩
    · cases hstep
  -- A logout, and the revocation that a refused refresh goes on with as well.
  | logout r raw =>
    simp only [step] at hstep
    split at hstep
    · rename_i hr
      rw [← Option.some.inj hstep, logout]
      split
      · exact .inr ⟨r, _, hr ▸ Moves.logsOut r raw, fun _ => rfl⟩
      · exact .inr ⟨r, _, hr ▸ Moves.logoutRevokes r raw _ _, fun _ => rfl⟩
    · cases hstep
  | selectFamily r =>
    simp only [step] at hstep
    split at hstep
    · rename_i hr
      cases hstep
      exact .inr ⟨r, _, hr ▸ Moves.selects r _ _ _ _ _, fun _ => rfl⟩
    · cases hstep
  | commitRevoke r =>
    simp only [step] at hstep
    split at hstep
    · rename_i f ids now caller hr
      unfold commitRevoke at hstep
      split at hstep
      · cases hstep
        cases caller with
        | refresh => exact .inr ⟨r, _, hr ▸ Moves.revokes r _ _ _, fun _ => rfl⟩
        | logout => exact .inr ⟨r, _, hr ▸ Moves.revokesOut r _ _ _, fun _ => rfl⟩
      · cases hstep
    · cases hstep

/-- A claim is either an old one or the claim this step won. -/
theorem step_claimed (hstep : step cfg s a = some s') (hr : s'.request r = .claimed record now) :
    s.request r = .claimed record now ∨
      (a = .claimToken r ∧ s.request r = .checked record now) := by
  rcases step_request hstep with hsame | ⟨r', q, hmove, hreq⟩
  · exact .inl (hsame ▸ hr)
  · rw [hreq r] at hr
    split at hr
    · rename_i he
      subst he hr
      generalize hold : s.request r = old at hmove
      cases hmove
      exact .inr ⟨rfl, rfl⟩
    · exact .inl hr

/-- An exchange is either an old one or the commit of a claim. -/
theorem step_exchanged (hstep : step cfg s a = some s') {successor : RefreshToken}
    (hr : s'.request r = .exchanged record successor) :
    s.request r = .exchanged record successor ∨ ∃ now, s.request r = .claimed record now := by
  rcases step_request hstep with hsame | ⟨r', q, hmove, hreq⟩
  · exact .inl (hsame ▸ hr)
  · rw [hreq r] at hr
    split at hr
    · rename_i he
      subst he hr
      generalize hold : s.request r = old at hmove
      cases hmove
      exact .inr ⟨_, rfl⟩
    · exact .inl hr

theorem step_kept (hstep : step cfg s a = some s') : Kept s.tokens s'.tokens := by
  rcases step_tokens hstep with h | ⟨u, h⟩ | ⟨r, record, now, _, h⟩ |
    ⟨r, f, ids, now, caller, _, _, _, h⟩
  · rw [h]
    exact kept_refl _
  · rw [h]
    exact kept_append _ _
  · rw [h]
    exact kept_trans (kept_updateWhere _ (RefreshToken.markUsed now) (fun _ => rfl) (fun _ => rfl)
      (fun _ _ => rfl) (fun _ h => h) _) (kept_append _ _)
  · rw [h]
    exact kept_updateWhere _ (RefreshToken.markRevoked now) (fun _ => rfl) (fun _ => rfl)
      (fun _ h => h) (fun _ _ => rfl) _

theorem familyRevoked_of_kept (hk : Kept s.tokens s'.tokens) (h : FamilyRevoked s f) :
    FamilyRevoked s' f := by
  rcases h with ⟨t, ht, hfam, hrev⟩
  rcases hk t ht with ⟨t', ht', _, hfam', _, hrev'⟩
  exact ⟨t', ht', hfam'.trans hfam, hrev' hrev⟩

/-- A revoked family stays revoked for the rest of the run. -/
theorem familyRevoked_mono {t : State} (h : FamilyRevoked s f) (hp : (sessions cfg).Path ok s t) :
    FamilyRevoked t f := by
  refine StepSystem.path_invariant (I := fun u => FamilyRevoked u f) (fun u a u' hu _ hstep => ?_)
    h hp
  exact familyRevoked_of_kept (step_kept hstep) hu

/-- The step falls in neither window: a token that is still unused is not claimed
    once its family is revoked, and a revocation marks every row of the family
    that is unmarked when it writes. -/
def Undisturbed (s : State) : Action → Prop
  | .claimToken r => ∀ record now, s.request r = .checked record now →
      ∀ t ∈ s.tokens, t.id = record.id → t.usedAt = none → ¬ FamilyRevoked s record.familyId
  | .commitRevoke r => ∀ f ids now caller, s.request r = .selected f ids now caller →
      ∀ t ∈ s.tokens, t.familyId = f → t.revokedAt = none → t.id ∈ ids
  | _ => True

/-- A revoked family is dead: every token of it is revoked and none is claimed. -/
def Sealed (s : State) : Prop :=
  ∀ f, FamilyRevoked s f →
    (∀ t ∈ s.tokens, t.familyId = f → t.revokedAt.isSome) ∧
      ∀ r record now, s.request r = .claimed record now → record.familyId ≠ f

theorem sealed_initial : Sealed initial := by
  rintro f ⟨t, ht, _⟩
  cases ht

/-- A claim that is won has found its row unused. -/
theorem claimToken_wins {record' : RefreshToken} {now' : Nat}
    (hstep : claimToken s r record now = some s') (hr : s'.request r = .claimed record' now') :
    ∃ t ∈ s.tokens, t.id = record.id ∧ t.usedAt = none := by
  unfold claimToken at hstep
  split at hstep
  · split at hstep
    · rename_i hcount
      rcases Rows.rowcount_ne_zero.mp (by rw [hcount]; exact Nat.one_ne_zero) with ⟨t, ht, hp⟩
      simp only [Bool.decide_and, Bool.and_eq_true, decide_eq_true_eq] at hp
      exact ⟨t, ht, hp⟩
    · rw [← Option.some.inj hstep] at hr
      simp only [State.setRequest, if_true, reduceCtorEq] at hr
  · cases hstep

/-- In an undisturbed step no claim enters a revoked family. -/
theorem claims_stay_out (hs : Sealed s) (hok : Undisturbed s a) (hstep : step cfg s a = some s')
    (hf : FamilyRevoked s f) :
    ∀ r record now, s'.request r = .claimed record now → record.familyId ≠ f := by
  intro r record now hr
  rcases step_claimed hstep hr with hold | ⟨rfl, hchecked⟩
  · exact (hs f hf).2 r record now hold
  · rintro rfl
    simp only [step, hchecked] at hstep
    rcases claimToken_wins hstep hr with ⟨t, ht, hid, hunused⟩
    exact hok record now hchecked t ht hid hunused hf

theorem step_sealed (hc : Consistent s) (hs : Sealed s) (hok : Undisturbed s a)
    (hstep : step cfg s a = some s') : Sealed s' := by
  intro f hf
  rcases step_tokens hstep with h | ⟨u, h⟩ | ⟨r, record, now, hr, h⟩ |
    ⟨r, f₀, ids, now, caller, rfl, hr, hfree, h⟩
  · have hfs : FamilyRevoked s f := by
      rwa [FamilyRevoked, h] at hf
    refine ⟨?_, claims_stay_out hs hok hstep hfs⟩
    rw [h]
    exact (hs f hfs).1
  · -- A new family has no revoked row and shares none.
    have hfs : FamilyRevoked s f := by
      rcases hf with ⟨t, ht, hfam, hrev⟩
      rw [h] at ht
      rcases mem_append.mp ht with ht | ht
      · exact ⟨t, ht, hfam, hrev⟩
      · rw [mem_singleton.mp ht] at hrev
        exact absurd hrev (by simp [newToken])
    refine ⟨fun t ht hfam => ?_, claims_stay_out hs hok hstep hfs⟩
    rw [h] at ht
    rcases mem_append.mp ht with ht | ht
    · exact (hs f hfs).1 t ht hfam
    · rcases hfs with ⟨t', ht', hfam', _⟩
      have := hc.familiesOld t' ht'
      rw [mem_singleton.mp ht] at hfam
      simp only [newToken] at hfam
      omega
  · -- The claim is in a family that is not revoked, so its successor is too.
    have hfs : FamilyRevoked s f := by
      rcases hf with ⟨t, ht, hfam, hrev⟩
      rw [h] at ht
      rcases mem_append.mp ht with ht | ht
      · rcases Rows.mem_updateWhere.mp ht with ⟨ht, _⟩ | ⟨t₀, ht₀, _, rfl⟩
        · exact ⟨t, ht, hfam, hrev⟩
        · exact ⟨t₀, ht₀, hfam, hrev⟩
      · rw [mem_singleton.mp ht] at hrev
        exact absurd hrev (by simp [newToken])
    refine ⟨fun t ht hfam => ?_, claims_stay_out hs hok hstep hfs⟩
    rw [h] at ht
    rcases mem_append.mp ht with ht | ht
    · rcases Rows.mem_updateWhere.mp ht with ⟨ht, _⟩ | ⟨t₀, ht₀, _, rfl⟩
      · exact (hs f hfs).1 t ht hfam
      · exact (hs f hfs).1 t₀ ht₀ hfam
    · rw [mem_singleton.mp ht] at hfam
      exact absurd hfam ((hs f hfs).2 r record now hr)
  · have hselected := hc.requestOk r
    rw [hr] at hselected
    -- The rows that were selected are rows of the family that was selected.
    have hids : ∀ t ∈ s.tokens, t.id ∈ ids → t.familyId = f₀ := by
      intro t ht hin
      rcases hselected t.id hin with ⟨t', ht', hid, hfam⟩
      rwa [Rows.eq_of_key_eq hc.idsNodup ht' ht hid] at hfam
    by_cases hff : f = f₀
    · subst hff
      refine ⟨?_, ?_⟩
      · intro t' ht' hfam
        rw [h] at ht'
        rcases Rows.mem_updateWhere.mp ht' with ⟨ht, hout⟩ | ⟨t, ht, _, rfl⟩
        · -- A row that was not marked had its mark already.
          by_contra hnone
          have hin := hok f ids now caller hr t' ht hfam
            (by simpa using hnone)
          simp only [hin, decide_true, reduceCtorEq] at hout
        · rfl
      · intro r' record' now' hr'
        rcases step_claimed hstep hr' with hold | ⟨he, _⟩
        · rintro rfl
          have hclaim := hc.requestOk r'
          rw [hold] at hclaim
          rcases hclaim with ⟨hlock, t, ht, hid, hfam, _⟩
          by_cases hrev : t.revokedAt = none
          · -- The claimed row is one of the rows written, so it cannot be locked.
            have hrr : r' ≠ r := by
              rintro rfl
              rw [hr] at hold
              cases hold
            have hin := hok record'.familyId ids now caller hr t ht hfam hrev
            exact claim_elsewhere hc (hfree t.id hin) hold hrr hid.symm
          · have hfs : FamilyRevoked s record'.familyId :=
              ⟨t, ht, hfam, by simpa only [Option.isSome_iff_ne_none] using hrev⟩
            exact (hs record'.familyId hfs).2 r' record' now' hold rfl
        · cases he
    · -- Another family's rows are not among those marked.
      have hfs : FamilyRevoked s f := by
        rcases hf with ⟨t, ht, hfam, hrev⟩
        rw [h] at ht
        rcases Rows.mem_updateWhere.mp ht with ⟨ht, _⟩ | ⟨t₀, ht₀, hin, rfl⟩
        · exact ⟨t, ht, hfam, hrev⟩
        · exact absurd (hfam.symm.trans (hids t₀ ht₀ (by simpa using hin)))
            hff
      refine ⟨fun t' ht' hfam => ?_, claims_stay_out hs hok hstep hfs⟩
      rw [h] at ht'
      rcases Rows.mem_updateWhere.mp ht' with ⟨ht, _⟩ | ⟨t, ht, _, rfl⟩
      · exact (hs f hfs).1 t' ht hfam
      · rfl

theorem sealed_of_reachable (hr : (sessions cfg).ReachableBy Undisturbed s) :
    Consistent s ∧ Sealed s := by
  refine StepSystem.reachableBy_invariant (I := fun s => Consistent s ∧ Sealed s)
    (fun s₀ h₀ => ?_) (fun s a s' h hok hstep => ?_) hr
  · rw [show s₀ = initial from h₀]
    exact ⟨consistent_initial, sealed_initial⟩
  · exact ⟨step_consistent h.1 hstep, step_sealed h.1 h.2 hok hstep⟩

/-- Each refresh token is exchanged by at most one request. -/
def SingleUse (s : State) : Prop :=
  ∀ r r' record record' successor successor', s.request r = .exchanged record successor →
    s.request r' = .exchanged record' successor' → record.id = record'.id → r = r'

/-- A family has at most one token that is neither used nor revoked. -/
def OneLive (s : State) : Prop :=
  ∀ t ∈ s.tokens, ∀ t' ∈ s.tokens, t.familyId = t'.familyId → Live t → Live t' → t = t'

/-- Once a family is revoked, no refresh that completes in the rest of the run
    exchanges a token of it, in the runs whose steps satisfy `ok`. -/
def RevokedForGood (cfg : Settings) (ok : State → Action → Prop) : Prop :=
  ∀ s t t' a f, (sessions cfg).ReachableBy ok s → FamilyRevoked s f →
    (sessions cfg).Path ok s t → ok t a → step cfg t a = some t' → ¬ Exchanges t t' f

/-- Single use and the one live token hold in every run. Revocation is final in
    every run in which no claim and no revocation is overtaken. -/
theorem families_safe (cfg : Settings) :
    (∀ s, (sessions cfg).Reachable s → SingleUse s ∧ OneLive s) ∧
      RevokedForGood cfg Undisturbed := by
  refine ⟨fun s hr => ?_, ?_⟩
  · have hc := consistent_of_reachable hr
    exact ⟨hc.once, fun t ht t' ht' hfam hlive hlive' =>
      hc.oneUnused t ht t' ht' hfam hlive.1 hlive'.1⟩
  · rintro s t t' a f hr hf hp hok hstep ⟨r, record, successor, hbefore, hafter, hfam⟩
    have hsealed := (sealed_of_reachable (StepSystem.reachableBy_path hr hp)).2
    rcases step_exchanged hstep hafter with hold | ⟨now, hclaimed⟩
    · exact hbefore hold
    · exact (hsealed f (familyRevoked_mono hf hp)).2 r record now hclaimed hfam

/-- A user logs in, presents the token for a refresh, and logs out before the
    refresh claims it. -/
def revival : List Action :=
  [.setUser 7 (some true), .openSession 0 7, .refresh 1 0, .loadUser 1, .logout 2 (some 0),
    .selectFamily 2, .commitRevoke 2]

def sampleSettings : Settings :=
  { hashRefreshToken := id, refreshTokenTtlSeconds := 10 }

/-- The logout has committed and the refresh has not claimed its token yet. -/
def loggedOutState : State :=
  ((sessions sampleSettings).exec initial revival).getD initial

/-- The refresh has claimed its token. The guard asked only whether it is used. -/
def revivedState : State :=
  ((sessions sampleSettings).exec loggedOutState [.claimToken 1]).getD initial

/-- Without the condition a revoked family comes back to life. -/
theorem families_not_safe : ¬ RevokedForGood sampleSettings (fun _ _ => True) := by
  intro h
  have hrun : (sessions sampleSettings).exec initial revival = some loggedOutState := rfl
  have hclaim : (sessions sampleSettings).exec loggedOutState [.claimToken 1]
      = some revivedState := rfl
  refine h loggedOutState revivedState _ (.issueRefresh 1) 1
    (StepSystem.reachable_of_exec rfl hrun) ?_ (StepSystem.path_of_exec hclaim) trivial rfl ?_
  · exact ⟨_, mem_singleton.mpr rfl, rfl, rfl⟩
  · exact ⟨1, _, _, by decide, rfl, rfl⟩

end Auth

end Partha
