import Partha.Github.Client

/-!
# Refs of a Remote

What `GitHubClient` asks git about a remote, and what git answers.

A remote maps full ref names to commits, and its `HEAD` names a branch. `ls-remote` answers the
commit of the ref that is named, or fails. A clone checks out the branch of the given name, else
the tag of that name, and without a name what `HEAD` names.

The client names a ref in three ways. It asks for `refs/heads/<branch>` or for `HEAD`; it
clones by the bare name; and it reads the ref that was checked out from the clone. The three
agree whenever the remote answers what it was asked for.

## Main definitions

* `validateBranch`: `validate_branch`.
* `Remote`: The refs of a remote.
* `readRemoteHeadCommit`, `clonePublicRepository`, `readHeadRef`, `gitRevision`: The functions
  of these names.
* `askedRef`: The ref that is asked for.

## Theorems

* `validateBranch_again`: A name that passed passes again.
* `gitRevision_asked`: What is asked for is what is checked out.
-/

namespace Partha

namespace Github

open Canonical (Str)

section Branches

/-- A character of `BRANCH_RE`. -/
def isBranchChar (c : Char) : Bool :=
  c.isAlphanum || c = '.' || c = '_' || c = '/' || c = '-'

/-- `BRANCH_RE.match`. -/
def matchesBranch (branch : Str) : Bool :=
  beforeEnd branch ≠ [] && (beforeEnd branch).all isBranchChar

/-- Two dots next to each other. -/
def hasDots : Str → Bool
  | '.' :: '.' :: _ => true
  | _ :: s => hasDots s
  | [] => false

/-- `validate_branch`. No name is as good as an empty one. -/
def validateBranch : Option Str → Except ValidationServiceError (Option Str)
  | none => .ok none
  | some branch =>
    if branch = [] then .ok none
    else if matchesBranch branch = false ∨ hasDots branch = true ∨
        branch.head? = some '/' ∨ branch.head? = some '-' ∨
        branch.getLast? = some '/' ∨ branch.getLast? = some '.' then
      .error ⟨"Branch name contains unsupported characters."⟩
    else .ok (some branch)

variable {branch valid : Option Str}

/-- What passes is no name, or the name that was given. -/
theorem validateBranch_eq_ok (h : validateBranch branch = .ok valid) :
    valid = none ∨ valid = branch ∧ branch ≠ some [] := by
  cases branch with
  | none => exact .inl (Except.ok.inj h).symm
  | some branch =>
    unfold validateBranch at h
    dsimp only at h
    by_cases hnil : branch = []
    · rw [if_pos hnil] at h
      exact .inl (Except.ok.inj h).symm
    · rw [if_neg hnil] at h
      split at h
      · cases h
      · exact .inr ⟨(Except.ok.inj h).symm, fun heq => hnil (Option.some.inj heq)⟩

/-- A name that passed passes again. -/
theorem validateBranch_again (h : validateBranch branch = .ok valid) :
    validateBranch valid = .ok valid := by
  rcases validateBranch_eq_ok h with hnone | ⟨hsame, -⟩
  · rw [hnone]
    rfl
  · rw [← hsame] at h
    exact h

end Branches

section Remotes

/-- `GIT_SHA_RE`. -/
def isSha (s : Str) : Bool :=
  decide (s.length = 40) && s.all "0123456789abcdef".toList.elem

def refsStart : Str :=
  "refs/".toList

def headsStart : Str :=
  "refs/heads/".toList

/-- The full name of a branch. -/
def heads (branch : Str) : Str :=
  headsStart ++ branch

/-- The full name of a tag. -/
def tags (tag : Str) : Str :=
  "refs/tags/".toList ++ tag

/-- The name of the branch of a remote in its clone. -/
def remoteHeads (branch : Str) : Str :=
  "refs/remotes/origin/".toList ++ branch

/-- The refs of a remote and the branch that `HEAD` names, which need not be there. -/
structure Remote where
  refs : Str → Option Str
  head : Str
  shas : ∀ ref c, refs ref = some c → isSha c = true
  branch : headsStart <+: head

/-- `ServiceError` and its kinds, with their messages and details. -/
inductive ServiceError where
  | validation (message : String)
  | external (message : String) (repositoryId : Option Nat)
  | service (message : String)
  | notFound (message : String) (repositoryId : Nat)
  | conflict (message : String) (repositoryId : Nat) (detail : String × Str)
  deriving DecidableEq, Repr

/-- What `ls-remote` answers about a name. -/
def lsRemote (remote : Remote) (name : Str) : Option Str :=
  if name = "HEAD".toList then remote.refs remote.head else remote.refs name

/-- `read_remote_head_commit`. -/
def readRemoteHeadCommit (remote : Remote) (branch : Option Str) :
    Except ServiceError (Option Str) :=
  let ref := match branch with
    | some branch => heads branch
    | none => "HEAD".toList
  match lsRemote remote ref with
  | none => .error (.external ("Failed to reach the GitHub repository. " ++
      "Confirm it is still public and the branch still exists.") none)
  | some sha => .ok (if isSha sha then some sha else none)

/-- A clone: what `symbolic-ref HEAD` and `rev-parse HEAD` answer in it, and its refs. -/
structure Clone where
  symbolicRef : Option Str
  commit : Option Str
  refs : Str → Option Str

/-- `clone_public_repository`, of one branch or tag. -/
def clonePublicRepository (remote : Remote) (branch : Option Str) : Except ServiceError Clone :=
  match branch with
  | none => .ok
      { symbolicRef := some remote.head
        commit := remote.refs remote.head
        refs := fun ref => if ref = remote.head then remote.refs remote.head else none }
  | some branch =>
    match remote.refs (heads branch) with
    | some sha => .ok
        { symbolicRef := some (heads branch)
          commit := some sha
          refs := fun ref => if ref = heads branch ∨ ref = remoteHeads branch then some sha
            else none }
    | none =>
      match remote.refs (tags branch) with
      | some sha => .ok
          { symbolicRef := none
            commit := some sha
            refs := fun ref => if ref = tags branch then some sha else none }
      | none => .error (.external ("Failed to clone GitHub repository. " ++
          "Confirm the repository is public and the branch exists.") none)

/-- The names that a detached clone is looked for under, each with the ref that it stands for. -/
def candidates (requested : Str) : List (Str × Str) :=
  [(heads requested, heads requested), (tags requested, tags requested),
    (remoteHeads requested, heads requested)]

/-- `read_head_ref`. -/
def readHeadRef (clone : Clone) (requested : Option Str) : Option Str :=
  match clone.symbolicRef with
  | some ref => if refsStart.isPrefixOf ref then some ref else none
  | none =>
    match requested with
    | none => none
    | some requested =>
      if requested = [] then none
      else ((candidates requested).find? (fun p =>
        (clone.refs p.1).isSome && clone.refs p.1 == clone.commit)).map Prod.snd

/-- `_git_revision`: the commit and the ref of a clone. -/
def gitRevision (clone : Clone) (requested : Option Str) : Except ServiceError (Str × Str) :=
  match clone.commit with
  | none => .error (.service
      "Unable to determine an immutable Git commit for the imported repository.")
  | some sha =>
    if isSha sha then
      match readHeadRef clone requested with
      | none => .error (.service
          "Unable to determine the resolved Git ref for the imported repository.")
      | some ref =>
        if refsStart.isPrefixOf ref then .ok (sha, ref)
        else .error (.service
          "Unable to determine the resolved Git ref for the imported repository.")
    else .error (.service
      "Unable to determine an immutable Git commit for the imported repository.")

/-- The ref that is asked for. -/
def askedRef (remote : Remote) (branch : Option Str) : Str :=
  match branch with
  | some branch => heads branch
  | none => remote.head

end Remotes

section Answers

variable {remote : Remote} {branch : Option Str} {clone : Clone} {sha ref : Str}

/-- A full name of a branch or a tag. -/
theorem refsStart_heads (branch : Str) : refsStart.isPrefixOf (heads branch) = true :=
  rfl

theorem refsStart_head (remote : Remote) : refsStart.isPrefixOf remote.head = true := by
  rcases remote.branch with ⟨branch, hbranch⟩
  rw [← hbranch]
  rfl

theorem heads_ne_head (branch : Str) : heads branch ≠ "HEAD".toList := by
  intro h
  have hfirst := congrArg List.head? h
  cases hfirst

/-- The answer is the commit of the ref that is asked for. -/
theorem readRemoteHeadCommit_eq (remote : Remote) (branch : Option Str) :
    readRemoteHeadCommit remote branch =
      match remote.refs (askedRef remote branch) with
      | none => .error (.external ("Failed to reach the GitHub repository. " ++
          "Confirm it is still public and the branch still exists.") none)
      | some sha => .ok (some sha) := by
  have hlook : lsRemote remote (match branch with
      | some branch => heads branch
      | none => "HEAD".toList) = remote.refs (askedRef remote branch) := by
    cases branch with
    | none => exact if_pos rfl
    | some branch => exact if_neg (heads_ne_head branch)
  unfold readRemoteHeadCommit
  dsimp only
  rw [hlook]
  cases hasked : remote.refs (askedRef remote branch) with
  | none => rfl
  | some sha =>
    dsimp only
    rw [if_pos (remote.shas _ _ hasked)]

/-- What is asked for is what is checked out. -/
theorem gitRevision_asked (h : remote.refs (askedRef remote branch) = some sha) :
    ∃ clone, clonePublicRepository remote branch = .ok clone ∧
      gitRevision clone branch = .ok (sha, askedRef remote branch) := by
  have hsha := remote.shas _ _ h
  cases branch with
  | none =>
    refine ⟨_, rfl, ?_⟩
    have hcommit : remote.refs remote.head = some sha := h
    unfold gitRevision readHeadRef
    dsimp only
    rw [hcommit]
    dsimp only
    rw [if_pos hsha, if_pos (refsStart_head remote)]
    dsimp only
    rw [if_pos (refsStart_head remote)]
    rfl
  | some branch =>
    have hbranch : remote.refs (heads branch) = some sha := h
    unfold clonePublicRepository
    dsimp only
    rw [hbranch]
    refine ⟨_, rfl, ?_⟩
    unfold gitRevision readHeadRef
    dsimp only
    rw [if_pos hsha, if_pos (refsStart_heads branch)]
    dsimp only
    rw [if_pos (refsStart_heads branch)]
    rfl

end Answers

end Github

end Partha
