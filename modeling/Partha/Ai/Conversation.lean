import Mathlib.Data.List.Range
import Mathlib.Data.List.Sort
import Partha.Library.Steps

/-!
# Conversation Turns

`AiConversationRepository`, as calls of `append_turns` that interleave.

A call reads the highest sequence of its thread, inserts its turns above it, one
row at a time, and commits. Nothing locks the thread between the read and the
commit. What orders two calls is the unique constraint on owner, repository and
sequence: the database checks it when a row is inserted, against the rows that
are committed by then, and again when the transaction commits. A violation rolls
the attempt back and the call starts over, at most `maxSequenceRetries` times.

An attempt that commits read the length of its thread. If another call has
committed turns in between, then the first row of the attempt is in the way of
one of those, since the sequences of a thread have no gaps. This is where the
absence of gaps, which is what the attempt keeps, is needed to keep it.

`history` is not a column. It records the calls that committed, in the order of
their commits, so that a thread can be compared with them.

## Main definitions

* `Turn`, `Message`: A turn, and the row that stores it.
* `nextSequence`: `_next_sequence`.
* `listConversation`: `list_conversation`.
* `Call`: Where a call of `append_turns` stands.
* `conversations`: The system of all interleavings.
* `Whole`: What a thread is, in terms of the calls.

## Theorems

* `inv_step`: Steps keep the invariant.
* `conversation_whole`: Threads are whole calls in the order of their commits.
-/

namespace Partha

namespace Conversation

open List

section Definitions

/-- `AiCitation`. -/
structure AiCitation where
  file : String
  startLine : Nat
  endLine : Nat
  content : String
  deriving DecidableEq, Repr

/-- `AiConversationTurn`. -/
structure Turn where
  role : String
  content : String
  citations : Option (List AiCitation)
  createdAt : Nat
  deriving DecidableEq, Repr

/-- `AiConversationMessageRecord`, without its identifier. -/
structure Message where
  ownerId : String
  repositoryId : String
  sequence : Nat
  turn : Turn
  deriving DecidableEq, Repr

inductive Role where
  | user
  | assistant
  deriving DecidableEq, Repr

/-- `AiMessage`. -/
structure AiMessage where
  role : Role
  content : String
  timestamp : Nat
  citations : Option (List AiCitation)
  deriving DecidableEq, Repr

/-- The roles that `AiMessage` accepts. -/
def parseRole (role : String) : Option Role :=
  if role = "user" then some .user
  else if role = "assistant" then some .assistant
  else none

/-- The message for a turn, or nothing if it is not valid. An empty list of
    citations is listed as none. -/
def aiMessage (turn : Turn) : Option AiMessage :=
  (parseRole turn.role).map fun role =>
    { role := role
      content := turn.content
      timestamp := turn.createdAt
      citations := if turn.citations = some [] then none else turn.citations }

/-- The rows of one owner and repository. -/
def thread (ownerId repositoryId : String) (rows : List Message) : List Message :=
  rows.filter (fun m => m.repositoryId = repositoryId && m.ownerId = ownerId)

/-- `list_conversation`. -/
def listConversation (rows : List Message) (repositoryId ownerId : String) :
    Option (List AiMessage) :=
  ((thread ownerId repositoryId rows).mergeSort (fun m m' => m.sequence ≤ m'.sequence)).mapM
    (fun m => aiMessage m.turn)

/-- `_next_sequence`. -/
def nextSequence (rows : List Message) (repositoryId ownerId : String) : Nat :=
  match ((thread ownerId repositoryId rows).map Message.sequence).max? with
  | none => 0
  | some currentMax => currentMax + 1

/-- `_MAX_SEQUENCE_RETRIES`. -/
def maxSequenceRetries : Nat := 5

/-- The arguments of `append_turns`. -/
structure Request where
  repositoryId : String
  ownerId : String
  turns : List Turn
  deriving DecidableEq, Repr

/-- The row that stores a turn of a request. -/
def Request.message (request : Request) (sequence : Nat) (turn : Turn) : Message :=
  { ownerId := request.ownerId
    repositoryId := request.repositoryId
    sequence := sequence
    turn := turn }

/-- A call, by the last statement that it executed. The rows that it inserted and
    has not committed belong to the call. -/
inductive Call where
  | idle
  | ready (request : Request) (attempt : Nat)
  | inserting (request : Request) (attempt next : Nat) (pending : List Message)
  | returned (request : Request)
  | raised (request : Request)
  deriving DecidableEq, Repr

/-- A call that has committed. -/
structure Commit where
  call : Nat
  request : Request
  deriving DecidableEq, Repr

/-- The committed rows, the calls, and the calls that have committed. -/
structure State where
  rows : List Message
  call : Nat → Call
  history : List Commit

def State.setCall (s : State) (c : Nat) (q : Call) : State :=
  { s with call := fun c' => if c' = c then q else s.call c' }

theorem setCall_self (s : State) (c : Nat) (q : Call) : (s.setCall c q).call c = q :=
  if_pos rfl

theorem setCall_other (s : State) {c c' : Nat} (q : Call) (h : c' ≠ c) :
    (s.setCall c q).call c' = s.call c' :=
  if_neg h

/-- `uq_ai_conversation_owner_repo_sequence`, of a row beside others. -/
def Taken (rows : List Message) (m : Message) : Prop :=
  ∃ m' ∈ rows, m'.ownerId = m.ownerId ∧ m'.repositoryId = m.repositoryId ∧
    m'.sequence = m.sequence

instance (rows : List Message) (m : Message) : Decidable (Taken rows m) :=
  inferInstanceAs (Decidable (∃ m' ∈ rows, _))

/-- Roll back after an `IntegrityError` and start over, or raise it. -/
def retry (s : State) (c : Nat) (request : Request) (attempt : Nat) : State :=
  if attempt + 1 < maxSequenceRetries then s.setCall c (.ready request (attempt + 1))
  else s.setCall c (.raised request)

/-- The read of an attempt. -/
def readMax (s : State) (c : Nat) (request : Request) (attempt : Nat) : State :=
  s.setCall c
    (.inserting request attempt (nextSequence s.rows request.repositoryId request.ownerId) [])

/-- The insertion of the next turn, if there is one. -/
def insertTurn (s : State) (c : Nat) (request : Request) (attempt next : Nat)
    (pending : List Message) : Option State :=
  match request.turns[pending.length]? with
  | none => none
  | some turn =>
    let m := request.message (next + pending.length) turn
    if Taken (s.rows ++ pending) m then some (retry s c request attempt)
    else some (s.setCall c (.inserting request attempt next (pending ++ [m])))

/-- The commit, when all turns are inserted. -/
def commitTurns (s : State) (c : Nat) (request : Request) (attempt : Nat)
    (pending : List Message) : Option State :=
  if pending.length = request.turns.length then
    if ∃ m ∈ pending, Taken s.rows m then some (retry s c request attempt)
    else
      some (({ s with
        rows := s.rows ++ pending
        history := s.history ++ [⟨c, request⟩] } : State).setCall c (.returned request))
  else none

/-- What a call does next. The database may refuse a statement for another reason
    than the constraint, with an `IntegrityError` or with another exception. -/
inductive Action where
  | begin (c : Nat) (request : Request)
  | read (c : Nat)
  | insert (c : Nat)
  | commit (c : Nat)
  | refuse (c : Nat)
  | crash (c : Nat)
  deriving DecidableEq, Repr

def step (s : State) : Action → Option State
  | .begin c request =>
    match s.call c with
    | .idle => some (s.setCall c (.ready request 0))
    | _ => none
  | .read c =>
    match s.call c with
    | .ready request attempt => some (readMax s c request attempt)
    | _ => none
  | .insert c =>
    match s.call c with
    | .inserting request attempt next pending => insertTurn s c request attempt next pending
    | _ => none
  | .commit c =>
    match s.call c with
    | .inserting request attempt _ pending => commitTurns s c request attempt pending
    | _ => none
  | .refuse c =>
    match s.call c with
    | .inserting request attempt _ _ => some (retry s c request attempt)
    | _ => none
  | .crash c =>
    match s.call c with
    | .ready request _ => some (s.setCall c (.raised request))
    | .inserting request _ _ _ => some (s.setCall c (.raised request))
    | _ => none

/-- No rows, and no call has begun. -/
def initial : State :=
  { rows := []
    call := fun _ => .idle
    history := [] }

/-- All interleavings of any number of calls. -/
def conversations : StepSystem State Action :=
  { init := fun s => s = initial
    step := step }

end Definitions

section Threads

/-- Turns as the rows that store them, from a sequence on. -/
def numbered (ownerId repositoryId : String) : Nat → List Turn → List Message
  | _, [] => []
  | n, t :: turns => ⟨ownerId, repositoryId, n, t⟩ :: numbered ownerId repositoryId (n + 1) turns

/-- The turns of the calls of one thread that have committed. -/
def turnsOf (ownerId repositoryId : String) (history : List Commit) : List Turn :=
  (history.filter (fun e => e.request.ownerId = ownerId &&
    e.request.repositoryId = repositoryId)).flatMap (fun e => e.request.turns)

variable (ownerId repositoryId : String)

theorem numbered_append (n : Nat) (turns later : List Turn) :
    numbered ownerId repositoryId n (turns ++ later) = numbered ownerId repositoryId n turns ++
      numbered ownerId repositoryId (n + turns.length) later := by
  induction turns generalizing n with
  | nil => rfl
  | cons t turns ih =>
    have hnext : n + 1 + turns.length = n + (turns.length + 1) := by omega
    simp only [cons_append, numbered, length_cons]
    rw [ih, hnext]

theorem length_numbered (n : Nat) (turns : List Turn) :
    (numbered ownerId repositoryId n turns).length = turns.length := by
  induction turns generalizing n with
  | nil => rfl
  | cons t turns ih => simp only [numbered, length_cons, ih]

theorem sequence_numbered (n : Nat) (turns : List Turn) :
    (numbered ownerId repositoryId n turns).map Message.sequence =
      List.range' n turns.length := by
  induction turns generalizing n with
  | nil => rfl
  | cons t turns ih => simp only [numbered, map_cons, length_cons, List.range'_succ, ih]

theorem turn_numbered (n : Nat) (turns : List Turn) :
    (numbered ownerId repositoryId n turns).map Message.turn = turns := by
  induction turns generalizing n with
  | nil => rfl
  | cons t turns ih => simp only [numbered, map_cons, ih]

variable {n : Nat} {turns : List Turn} {m : Message} {rows : List Message}

theorem mem_numbered (h : m ∈ numbered ownerId repositoryId n turns) :
    m.ownerId = ownerId ∧ m.repositoryId = repositoryId := by
  induction turns generalizing n with
  | nil => cases h
  | cons t turns ih =>
    rcases mem_cons.mp h with rfl | h
    · exact ⟨rfl, rfl⟩
    · exact ih h

variable {ownerId repositoryId}

theorem mem_thread :
    m ∈ thread ownerId repositoryId rows ↔
      m ∈ rows ∧ m.ownerId = ownerId ∧ m.repositoryId = repositoryId := by
  simp only [thread, mem_filter, Bool.and_eq_true, decide_eq_true_eq]
  constructor
  · rintro ⟨hm, hr, ho⟩
    exact ⟨hm, ho, hr⟩
  · rintro ⟨hm, ho, hr⟩
    exact ⟨hm, hr, ho⟩

/-- Rows of one thread are all of it, and nothing of another. -/
theorem thread_numbered (o r : String) (n : Nat) (turns : List Turn) :
    thread ownerId repositoryId (numbered o r n turns) =
      if o = ownerId ∧ r = repositoryId then numbered o r n turns else [] := by
  by_cases h : o = ownerId ∧ r = repositoryId
  · rw [if_pos h]
    refine filter_eq_self.mpr (fun m hm => ?_)
    have hkey := mem_numbered o r hm
    rw [hkey.1, hkey.2, h.1, h.2]
    simp
  · rw [if_neg h]
    refine eq_nil_iff_forall_not_mem.mpr (fun m hm => h ?_)
    have hthread := mem_thread.mp hm
    have hkey := mem_numbered o r hthread.1
    exact ⟨hkey.1.symm.trans hthread.2.1, hkey.2.symm.trans hthread.2.2⟩

theorem thread_append (rows later : List Message) :
    thread ownerId repositoryId (rows ++ later) =
      thread ownerId repositoryId rows ++ thread ownerId repositoryId later :=
  filter_append _ _

theorem turnsOf_append (history : List Commit) (e : Commit) :
    turnsOf ownerId repositoryId (history ++ [e]) = turnsOf ownerId repositoryId history ++
      if e.request.ownerId = ownerId ∧ e.request.repositoryId = repositoryId
        then e.request.turns else [] := by
  unfold turnsOf
  rw [filter_append, flatMap_append]
  congr 1
  by_cases h : e.request.ownerId = ownerId ∧ e.request.repositoryId = repositoryId
  · rw [if_pos h, filter_cons_of_pos (by simp [h.1, h.2])]
    simp
  · rw [if_neg h, filter_cons_of_neg]
    · rfl
    · rw [Bool.and_eq_true, decide_eq_true_eq, decide_eq_true_eq]
      exact h

/-- The next sequence of a thread without gaps is its length. -/
theorem nextSequence_eq
    (h : thread ownerId repositoryId rows = numbered ownerId repositoryId 0 turns) :
    nextSequence rows repositoryId ownerId = turns.length := by
  unfold nextSequence
  rw [h, sequence_numbered, ← range_eq_range']
  rcases hn : turns.length with _ | n
  · rfl
  · have hmax : (List.range (n + 1)).max? = some n := by
      rw [List.max?_eq_some_iff]
      refine ⟨mem_range.mpr (Nat.lt_succ_self n), fun k hk => ?_⟩
      have hlt := mem_range.mp hk
      omega
    rw [hmax]

/-- The listing of a thread without gaps has its turns in order. -/
theorem listConversation_eq
    (h : thread ownerId repositoryId rows = numbered ownerId repositoryId 0 turns) :
    listConversation rows repositoryId ownerId = turns.mapM aiMessage := by
  have hsorted : (numbered ownerId repositoryId 0 turns).Pairwise
      (fun m m' => decide (m.sequence ≤ m'.sequence) = true) := by
    have hrange : ((numbered ownerId repositoryId 0 turns).map Message.sequence).Pairwise
        (· ≤ ·) := by
      rw [sequence_numbered]
      exact pairwise_le_range'
    exact (pairwise_map.mp hrange).imp (fun hle => decide_eq_true hle)
  unfold listConversation
  rw [h, mergeSort_of_pairwise hsorted]
  conv_rhs => rw [← turn_numbered ownerId repositoryId 0 turns]
  rw [mapM_map]
  rfl

/-- A row with the sequence of a row in a thread without gaps is taken. -/
theorem taken_of_lt (h : thread ownerId repositoryId rows = numbered ownerId repositoryId 0 turns)
    (hn : n < turns.length) (t : Turn) : Taken rows ⟨ownerId, repositoryId, n, t⟩ := by
  have hmem : n ∈ (thread ownerId repositoryId rows).map Message.sequence := by
    rw [h, sequence_numbered]
    exact mem_range'_1.mpr ⟨Nat.zero_le n, by omega⟩
  rcases mem_map.mp hmem with ⟨m, hm, hseq⟩
  have hm := mem_thread.mp hm
  exact ⟨m, hm.1, hm.2.1, hm.2.2, hseq⟩

end Threads

section Invariant

/-- What holds between the rows, the calls and the history. -/
structure Inv (s : State) : Prop where
  threads : ∀ o r, thread o r s.rows = numbered o r 0 (turnsOf o r s.history)
  pending : ∀ c q attempt next pending, s.call c = .inserting q attempt next pending →
    next ≤ (turnsOf q.ownerId q.repositoryId s.history).length ∧
      pending = numbered q.ownerId q.repositoryId next (q.turns.take pending.length)
  returned : ∀ c q, s.call c = .returned q ↔ ⟨c, q⟩ ∈ s.history
  once : (s.history.map Commit.call).Nodup

theorem inv_initial : Inv initial where
  threads _ _ := rfl
  pending _ _ _ _ _ h := by cases h
  returned _ _ := ⟨nofun, fun h => absurd h not_mem_nil⟩
  once := nodup_nil

variable {s s' : State} {c attempt next : Nat} {request : Request} {pending : List Message}

/-- A call that is not done takes a step, and stores nothing. -/
theorem inv_setCall (h : Inv s) {q : Call} (hbefore : ∀ request, s.call c ≠ .returned request)
    (hafter : ∀ request, q ≠ .returned request)
    (hpending : ∀ request attempt next pending, q = .inserting request attempt next pending →
      next ≤ (turnsOf request.ownerId request.repositoryId s.history).length ∧
        pending = numbered request.ownerId request.repositoryId next
          (request.turns.take pending.length)) : Inv (s.setCall c q) where
  threads := h.threads
  pending c' request attempt next pending hc' := by
    by_cases hc : c' = c
    · rw [hc, setCall_self] at hc'
      exact hpending request attempt next pending hc'
    · rw [setCall_other s q hc] at hc'
      exact h.pending c' request attempt next pending hc'
  returned c' request := by
    by_cases hc : c' = c
    · rw [hc, setCall_self]
      refine iff_of_false (hafter request) (fun hmem => ?_)
      exact hbefore request ((h.returned c request).mpr hmem)
    · rw [setCall_other s q hc]
      exact h.returned c' request
  once := h.once

theorem inv_retry (h : Inv s) (request : Request) (attempt : Nat)
    (hbefore : ∀ request, s.call c ≠ .returned request) : Inv (retry s c request attempt) := by
  unfold retry
  split
  · exact inv_setCall h hbefore (fun _ => by nofun) (fun _ _ _ _ => by nofun)
  · exact inv_setCall h hbefore (fun _ => by nofun) (fun _ _ _ _ => by nofun)

theorem inv_insertTurn (h : Inv s) (hcall : s.call c = .inserting request attempt next pending)
    (hstep : insertTurn s c request attempt next pending = some s') : Inv s' := by
  have hbefore : ∀ q, s.call c ≠ .returned q := by
    intro q
    rw [hcall]
    nofun
  rcases h.pending c request attempt next pending hcall with ⟨hnext, hrows⟩
  unfold insertTurn at hstep
  cases hturn : request.turns[pending.length]? with
  | none =>
    rw [hturn] at hstep
    cases hstep
  | some turn =>
    simp only [hturn] at hstep
    split at hstep
    · cases hstep
      exact inv_retry h request attempt hbefore
    · cases hstep
      refine inv_setCall h hbefore (fun _ => by nofun) (fun q a n p hq => ?_)
      cases hq
      have hlt : pending.length < request.turns.length := by
        rcases List.getElem?_eq_some_iff.mp hturn with ⟨hlt, _⟩
        exact hlt
      -- The rows so far are the first turns, and this is the next one.
      refine ⟨hnext, ?_⟩
      rw [length_append, length_singleton, take_add_one, hturn,
        Option.toList_some, numbered_append, ← hrows, length_take,
        Nat.min_eq_left (Nat.le_of_lt hlt)]
      rfl

/-- Rows that are not in the way of committed ones begin at the end of the thread. -/
theorem start_eq (h : Inv s)
    (hnext : next ≤ (turnsOf request.ownerId request.repositoryId s.history).length)
    (hrows : pending = numbered request.ownerId request.repositoryId next request.turns)
    (hfree : ¬ ∃ m ∈ pending, Taken s.rows m) :
    pending = numbered request.ownerId request.repositoryId
      (turnsOf request.ownerId request.repositoryId s.history).length request.turns := by
  cases hturns : request.turns with
  | nil =>
    rw [hturns] at hrows
    exact hrows
  | cons t turns =>
    rw [hturns] at hrows
    by_cases hlt : next < (turnsOf request.ownerId request.repositoryId s.history).length
    · -- The first row has a sequence that the thread has already.
      refine absurd ⟨⟨request.ownerId, request.repositoryId, next, t⟩, ?_,
        taken_of_lt (h.threads _ _) hlt t⟩ hfree
      rw [hrows]
      exact mem_cons_self
    · have heq : next = (turnsOf request.ownerId request.repositoryId s.history).length := by
        omega
      rw [← heq]
      exact hrows

/-- Rows that begin at the end of the thread are committed. -/
theorem inv_commit (h : Inv s) (hbefore : ∀ q, s.call c ≠ .returned q)
    (hrows : pending = numbered request.ownerId request.repositoryId
      (turnsOf request.ownerId request.repositoryId s.history).length request.turns) :
    Inv (({ s with
      rows := s.rows ++ pending
      history := s.history ++ [⟨c, request⟩] } : State).setCall c (.returned request)) where
  threads o r := by
    change thread o r (s.rows ++ pending) = numbered o r 0 (turnsOf o r (s.history ++ [_]))
    rw [thread_append, turnsOf_append, numbered_append, h.threads o r, hrows, thread_numbered,
      Nat.zero_add]
    -- the committed rows lengthen the thread of this owner and repository, and no other
    by_cases hkey : request.ownerId = o ∧ request.repositoryId = r
    · rw [if_pos hkey, if_pos hkey, hkey.1, hkey.2]
    · rw [if_neg hkey, if_neg hkey]
      rfl
  pending c' q attempt next rows hc' := by
    change _ ≤ (turnsOf _ _ (s.history ++ [_])).length ∧ _
    by_cases hc : c' = c
    · rw [hc, setCall_self] at hc'
      cases hc'
    · rw [setCall_other _ _ hc] at hc'
      -- another call has read a prefix of what is now stored
      have hold := h.pending c' q attempt next rows hc'
      refine ⟨?_, hold.2⟩
      rw [turnsOf_append, length_append]
      omega
  returned c' q := by
    change _ ↔ _ ∈ s.history ++ [_]
    rw [mem_append, mem_singleton, Commit.mk.injEq]
    by_cases hc : c' = c
    · rw [hc, setCall_self]
      -- the call had not returned, so its commit is the one just recorded
      have hnone : ¬ (⟨c, q⟩ : Commit) ∈ s.history :=
        fun hmem => hbefore q ((h.returned c q).mpr hmem)
      constructor
      · intro hq
        exact .inr ⟨rfl, (Call.returned.inj hq).symm⟩
      · rintro (hmem | ⟨_, hq⟩)
        · exact absurd hmem hnone
        · rw [hq]
    · rw [setCall_other _ _ hc]
      constructor
      · exact fun hq => .inl ((h.returned c' q).mp hq)
      · rintro (hmem | ⟨he, _⟩)
        · exact (h.returned c' q).mpr hmem
        · exact absurd he hc
  once := by
    change ((s.history ++ [_]).map Commit.call).Nodup
    rw [map_append, map_singleton, nodup_append]
    refine ⟨h.once, nodup_singleton c, fun c' hc' c'' hc'' he => ?_⟩
    rw [mem_singleton.mp hc''] at he
    rcases mem_map.mp hc' with ⟨e, hmem, hcall⟩
    have hdone : s.call c = .returned e.request := by
      rw [h.returned]
      change c' = c at he
      rw [← he, ← hcall]
      exact hmem
    exact hbefore e.request hdone

theorem inv_commitTurns (h : Inv s) (hcall : s.call c = .inserting request attempt next pending)
    (hstep : commitTurns s c request attempt pending = some s') : Inv s' := by
  have hbefore : ∀ q, s.call c ≠ .returned q := by
    intro q
    rw [hcall]
    nofun
  rcases h.pending c request attempt next pending hcall with ⟨hnext, hrows⟩
  unfold commitTurns at hstep
  split at hstep
  · rename_i hall
    split at hstep
    · cases hstep
      exact inv_retry h request attempt hbefore
    · rename_i hfree
      cases hstep
      rw [hall, take_length] at hrows
      exact inv_commit h hbefore (start_eq h hnext hrows hfree)
  · cases hstep

theorem inv_step {a : Action} (h : Inv s) (hstep : step s a = some s') : Inv s' := by
  cases a with
  | begin c request =>
    simp only [step] at hstep
    split at hstep
    · rename_i hcall
      cases hstep
      exact inv_setCall h (fun _ => by rw [hcall]; nofun) (fun _ => by nofun)
        (fun _ _ _ _ => by nofun)
    · cases hstep
  | read c =>
    simp only [step] at hstep
    split at hstep
    · rename_i request attempt hcall
      cases hstep
      refine inv_setCall h (fun _ => by rw [hcall]; nofun) (fun _ => by nofun)
        (fun q a n p hq => ?_)
      cases hq
      refine ⟨?_, rfl⟩
      rw [nextSequence_eq (h.threads request.ownerId request.repositoryId)]
    · cases hstep
  | insert c =>
    simp only [step] at hstep
    split at hstep
    · rename_i request attempt next pending hcall
      exact inv_insertTurn h hcall hstep
    · cases hstep
  | commit c =>
    simp only [step] at hstep
    split at hstep
    · rename_i request attempt next pending hcall
      exact inv_commitTurns h hcall hstep
    · cases hstep
  | refuse c =>
    simp only [step] at hstep
    split at hstep
    · rename_i request attempt next pending hcall
      cases hstep
      exact inv_retry h request attempt (fun _ => by rw [hcall]; nofun)
    · cases hstep
  | crash c =>
    simp only [step] at hstep
    split at hstep
    · rename_i request attempt hcall
      cases hstep
      exact inv_setCall h (fun _ => by rw [hcall]; nofun) (fun _ => by nofun)
        (fun _ _ _ _ => by nofun)
    · rename_i request attempt next pending hcall
      cases hstep
      exact inv_setCall h (fun _ => by rw [hcall]; nofun) (fun _ => by nofun)
        (fun _ _ _ _ => by nofun)
    · cases hstep

theorem inv_reachable (h : conversations.Reachable s) : Inv s := by
  refine StepSystem.reachableBy_invariant (fun s₀ h₀ => ?_) (fun s a s' hinv _ hstep => ?_) h
  · have h₀ : s₀ = initial := h₀
    rw [h₀]
    exact inv_initial
  · exact inv_step hinv hstep

end Invariant

section Threads

/-- What a thread is: the turns of the calls that have committed, call after call
    in the order of their commits. -/
structure Whole (s : State) (ownerId repositoryId : String) : Prop where
  stored : (thread ownerId repositoryId s.rows).map Message.turn =
    turnsOf ownerId repositoryId s.history
  sequences : (thread ownerId repositoryId s.rows).map Message.sequence =
    List.range (thread ownerId repositoryId s.rows).length
  consecutive : ∀ e ∈ s.history, e.request.ownerId = ownerId →
    e.request.repositoryId = repositoryId → ∃ before after,
      thread ownerId repositoryId s.rows =
        before ++ numbered ownerId repositoryId before.length e.request.turns ++ after
  listed : listConversation s.rows repositoryId ownerId =
    (turnsOf ownerId repositoryId s.history).mapM aiMessage

theorem whole_of_inv {s : State} (h : Inv s) (o r : String) : Whole s o r where
  stored := by rw [h.threads, turn_numbered]
  sequences := by rw [h.threads, sequence_numbered, length_numbered, range_eq_range']
  consecutive e he ho hr := by
    -- The call splits the history, and its turns split the thread at the same place.
    rcases append_of_mem he with ⟨earlier, later, hsplit⟩
    have hturns : turnsOf o r s.history =
        turnsOf o r earlier ++ e.request.turns ++ turnsOf o r later := by
      rw [hsplit, ← singleton_append, ← append_assoc]
      conv_lhs => rw [turnsOf, filter_append, flatMap_append]
      congr 1
      have hone := @turnsOf_append o r earlier e
      rw [if_pos ⟨ho, hr⟩] at hone
      exact hone
    refine ⟨numbered o r 0 (turnsOf o r earlier),
      numbered o r (turnsOf o r earlier ++ e.request.turns).length (turnsOf o r later), ?_⟩
    rw [h.threads, hturns, numbered_append, numbered_append, length_numbered, Nat.zero_add,
      Nat.zero_add]
  listed := listConversation_eq (h.threads o r)

/-- Threads are whole calls in the order of their commits, and these are the calls
    that returned. -/
theorem conversation_whole {s : State} (h : conversations.Reachable s) :
    (∀ ownerId repositoryId, Whole s ownerId repositoryId) ∧
      (s.history.map Commit.call).Nodup ∧
      ∀ c request, (s.call c = .returned request ↔ ⟨c, request⟩ ∈ s.history) ∧
        (s.call c = .raised request → ∀ e ∈ s.history, e.call ≠ c) := by
  have hinv := inv_reachable h
  refine ⟨whole_of_inv hinv, hinv.once, fun c request => ⟨hinv.returned c request, ?_⟩⟩
  intro hraised e he hcall
  have hreturned : s.call c = .returned e.request := by
    rw [hinv.returned, ← hcall]
    exact he
  rw [hraised] at hreturned
  cases hreturned

/-- A turn of the example below. -/
def question (content : String) : Turn :=
  ⟨"user", content, none, 0⟩

/-- Two calls read the same sequence, and the one that commits last starts over. -/
def collision : List Action :=
  [.begin 0 ⟨"r", "o", [question "a", question "b"]⟩, .begin 1 ⟨"r", "o", [question "c"]⟩,
    .read 0, .read 1, .insert 1, .insert 0, .insert 0, .commit 0, .commit 1, .read 1, .insert 1,
    .commit 1]

theorem conversation_whole_collision :
    ∃ s, conversations.exec initial collision = some s ∧
      listConversation s.rows "r" "o" = some
        [⟨.user, "a", 0, none⟩, ⟨.user, "b", 0, none⟩, ⟨.user, "c", 0, none⟩] ∧
      Whole s "o" "r" := by
  have hexec : conversations.exec initial collision = some _ := rfl
  have hwhole := (conversation_whole (StepSystem.reachable_of_exec rfl hexec)).1 "o" "r"
  exact ⟨_, hexec, hwhole.listed.trans rfl, hwhole⟩

end Threads

end Conversation

end Partha
