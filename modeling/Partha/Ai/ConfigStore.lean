import Mathlib.Data.Option.Basic
import Partha.Egress.Policy
import Partha.Library.Flush
import Partha.Library.Steps

/-!
# Provider Configurations

`EncryptedProviderConfigStore`, as calls that interleave.

An owner has one row. A save validates the destination, loads the row, and either
encrypts the key that it was given or carries the stored ciphertext forward. It
carries it only if the provider stays the same, so that a key does not go to another
vendor. But what it compares is the row that it loaded. The commit writes the columns
that changed, and the others keep what is stored by then, so two saves of an owner may
leave the provider of the one beside the key of the other.

Three pairs of columns belong together: provider and key, key and last four
characters, provider and base URL. `Whole` says that a commit does not divide one of
them.

The two lists of a state are not tables. They record which keys were supplied and
which destinations were validated.

## Main definitions

* `resolveKey`: `_resolve_key`.
* `AiProviderConfigRecord.flush`: What a commit stores.
* `configs`: The system of all interleavings.
* `RowOk`: What a row says about the calls before.
* `Whole`: The commits that divide no pair.

## Theorems

* `rowOk_flush`: Such a commit stores a row as it should be.
* `inv_step`: Such steps keep the invariant.
* `keys_isolated`: Keys go to the provider that they were supplied for.
-/

namespace Partha

namespace ConfigStore

open Canonical (Str)
open Egress Flush

section Definitions

inductive AiProvider where
  | openai
  | anthropic
  | gemini
  | openrouter
  | ollama
  deriving DecidableEq, Repr

def AiProvider.name : AiProvider → Str
  | .openai => "openai".toList
  | .anthropic => "anthropic".toList
  | .gemini => "gemini".toList
  | .openrouter => "openrouter".toList
  | .ollama => "ollama".toList

/-- `capability_for(provider).requires_api_key`. -/
def AiProvider.requiresApiKey : AiProvider → Bool
  | .ollama => false
  | _ => true

/-- `DEFAULT_MODELS`. -/
def defaultModel : AiProvider → Str
  | .openai => "gpt-4.1-mini".toList
  | .anthropic => "claude-haiku-4-5-20251001".toList
  | .gemini => "gemini-2.5-flash".toList
  | .openrouter => "openai/gpt-4.1-mini".toList
  | .ollama => "llama3.2".toList

structure AiProviderConfig where
  provider : AiProvider
  apiKey : Option Str
  model : Option Str
  baseUrl : Option Str
  deriving DecidableEq, Repr

structure AiProviderTestRequest where
  provider : Option AiProvider
  apiKey : Option Str
  model : Option Str
  baseUrl : Option Str
  deriving DecidableEq, Repr

structure AiProviderPublicConfig where
  provider : Option AiProvider
  model : Option Str
  baseUrl : Option Str
  hasApiKey : Bool
  apiKeyLast4 : Option Str
  deriving DecidableEq, Repr

/-- The columns of `AiProviderConfigRecord` that are read. -/
structure AiProviderConfigRecord where
  provider : AiProvider
  encryptedApiKey : Option Str
  apiKeyLast4 : Option Str
  model : Option Str
  baseUrl : Option Str
  deriving DecidableEq, Repr

/-- `ProviderKeyCipher`. A token depends on a number that is drawn for it. -/
structure ProviderKeyCipher where
  encrypt : Str → Nat → Str
  decrypt : Str → Option Str
  decrypt_encrypt : ∀ key iv, decrypt (encrypt key iv) = some key

/-- A text that is there and is not empty. -/
def given (value : Option Str) : Option Str :=
  if value = some [] then none else value

/-- `api_key[-4:]`. -/
def lastFour (key : Str) : Str :=
  key.drop (key.length - 4)

variable (cipher : ProviderKeyCipher)

/-- `_decrypt_key`. -/
def decryptKey (record : AiProviderConfigRecord) : Option Str :=
  (given record.encryptedApiKey).bind cipher.decrypt

/-- `get_public_config`. -/
def getPublicConfig (record : Option AiProviderConfigRecord) : AiProviderPublicConfig :=
  match record with
  | none => ⟨none, none, none, false, none⟩
  | some record =>
    { provider := some record.provider
      model := record.model
      baseUrl := record.baseUrl
      hasApiKey := (given record.encryptedApiKey).isSome
      apiKeyLast4 := record.apiKeyLast4 }

/-- `read_config`. -/
def readConfig (record : Option AiProviderConfigRecord) : Option AiProviderConfig :=
  record.map fun record =>
    { provider := record.provider
      apiKey := decryptKey cipher record
      model := record.model
      baseUrl := record.baseUrl }

/-- Why a call raises. -/
inductive Failure where
  | validation (message : Str)
  | integrity
  | stale
  | crashed
  deriving DecidableEq, Repr

def apiKeyRequired : Str :=
  "API key is required for this provider.".toList

def chooseProvider : Str :=
  "Choose an AI provider before testing.".toList

/-- The stored row, if its key is carried forward. -/
def carried (config : AiProviderConfig) (record : Option AiProviderConfigRecord) :
    Option AiProviderConfigRecord :=
  record.filter fun record => config.provider.requiresApiKey &&
    record.provider = config.provider && (given record.encryptedApiKey).isSome

/-- `_resolve_key`. -/
def resolveKey (config : AiProviderConfig) (record : Option AiProviderConfigRecord) (iv : Nat) :
    Except Failure (Option Str × Option Str) :=
  match given config.apiKey with
  | some key => .ok (some (cipher.encrypt key iv), some (lastFour key))
  | none =>
    match carried config record with
    | some record => .ok (record.encryptedApiKey, record.apiKeyLast4)
    | none =>
      if config.provider.requiresApiKey then .error (.validation apiKeyRequired)
      else .ok (none, none)

/-- The row that `save_config` means to store. -/
def newRecord (config : AiProviderConfig) (key : Option Str × Option Str) :
    AiProviderConfigRecord :=
  { provider := config.provider
    encryptedApiKey := key.1
    apiKeyLast4 := key.2
    model := some ((given config.model).getD (defaultModel config.provider))
    baseUrl := config.baseUrl }

/-- What a commit stores that changes a loaded row into a new one. -/
def AiProviderConfigRecord.flush (loaded new stored : AiProviderConfigRecord) :
    AiProviderConfigRecord :=
  { provider := Flush.flush loaded.provider new.provider stored.provider
    encryptedApiKey :=
      Flush.flush loaded.encryptedApiKey new.encryptedApiKey stored.encryptedApiKey
    apiKeyLast4 := Flush.flush loaded.apiKeyLast4 new.apiKeyLast4 stored.apiKeyLast4
    model := Flush.flush loaded.model new.model stored.model
    baseUrl := Flush.flush loaded.baseUrl new.baseUrl stored.baseUrl }

/-- The configuration of a test for a provider. -/
def testConfig (request : AiProviderTestRequest) (saved : Option AiProviderConfig)
    (provider : AiProvider) : AiProviderConfig :=
  let same := saved.filter (fun saved => saved.provider = provider)
  { provider := provider
    apiKey := given request.apiKey <|> same.bind AiProviderConfig.apiKey
    model := some ((given request.model <|> given (same.bind AiProviderConfig.model)).getD
      (defaultModel provider))
    baseUrl := given request.baseUrl <|> same.bind AiProviderConfig.baseUrl }

/-- `config_for_test`. -/
def configForTest (request : AiProviderTestRequest) (record : Option AiProviderConfigRecord) :
    Except Failure AiProviderConfig :=
  let saved := readConfig cipher record
  match request.provider <|> saved.map AiProviderConfig.provider with
  | none => .error (.validation chooseProvider)
  | some provider => .ok (testConfig request saved provider)

/-- A call, by the last thing that it did. -/
inductive Call where
  | idle
  | validated (ownerId : String) (config : AiProviderConfig)
  | changed (ownerId : String) (loaded : Option AiProviderConfigRecord)
      (new : AiProviderConfigRecord)
  | committed (ownerId : String)
  | saved (ownerId : String) (config : AiProviderPublicConfig)
  | returned (ownerId : String) (config : Option AiProviderConfig)
  | failed (error : Failure)
  deriving DecidableEq, Repr

/-- A key that an owner supplied for a provider. -/
structure Supplied where
  ownerId : String
  provider : AiProvider
  key : Str
  deriving DecidableEq, Repr

/-- A destination that was validated for an owner. -/
structure Validated where
  ownerId : String
  provider : AiProvider
  baseUrl : Option Str
  deriving DecidableEq, Repr

structure State where
  row : String → Option AiProviderConfigRecord
  call : Nat → Call
  supplied : List Supplied
  validated : List Validated

def State.setCall (s : State) (c : Nat) (q : Call) : State :=
  { s with call := fun c' => if c' = c then q else s.call c' }

def State.setRow (s : State) (ownerId : String) (record : AiProviderConfigRecord) : State :=
  { s with row := fun o => if o = ownerId then some record else s.row o }

/-- A call says its key for a provider. -/
def State.supply (s : State) (ownerId : String) (provider : AiProvider) (key : Option Str) :
    State :=
  match given key with
  | none => s
  | some key => { s with supplied := s.supplied ++ [⟨ownerId, provider, key⟩] }

/-- The row is loaded and changed. -/
def loadRecord (s : State) (c : Nat) (ownerId : String) (config : AiProviderConfig) (iv : Nat) :
    State :=
  match resolveKey cipher config (s.row ownerId) iv with
  | .error e => s.setCall c (.failed e)
  | .ok key => s.setCall c (.changed ownerId (s.row ownerId) (newRecord config key))

/-- The commit. A row that was not there is inserted, and an owner has one. -/
def commitRecord (s : State) (c : Nat) (ownerId : String)
    (loaded : Option AiProviderConfigRecord) (new : AiProviderConfigRecord) : State :=
  match loaded, s.row ownerId with
  | none, none => (s.setRow ownerId new).setCall c (.committed ownerId)
  | none, some _ => s.setCall c (.failed .integrity)
  | some _, none => s.setCall c (.failed .stale)
  | some loaded, some stored =>
    (s.setRow ownerId (loaded.flush new stored)).setCall c (.committed ownerId)

/-- `config_for_test`, with the provider that it is for. -/
def test (s : State) (c : Nat) (ownerId : String) (request : AiProviderTestRequest) : State :=
  match configForTest cipher request (s.row ownerId) with
  | .error e => s.setCall c (.failed e)
  | .ok config =>
    (s.supply ownerId config.provider request.apiKey).setCall c (.returned ownerId (some config))

/-- What a call does next. -/
inductive Action where
  | save (c : Nat) (ownerId : String) (config : AiProviderConfig)
      (answers : Str → Nat → Option (List Str))
  | load (c : Nat) (iv : Nat)
  | commit (c : Nat)
  | publish (c : Nat)
  | read (c : Nat) (ownerId : String)
  | test (c : Nat) (ownerId : String) (request : AiProviderTestRequest)
  | crash (c : Nat)

/-- The call that moves. -/
def Action.call : Action → Nat
  | .save c _ _ _ => c
  | .load c _ => c
  | .commit c => c
  | .publish c => c
  | .read c _ => c
  | .test c _ _ => c
  | .crash c => c

variable [Codecs] [Ipaddress] (policy : ProviderEgressPolicy)

/-- The policy validates a destination, with the answers of a resolver. -/
def validateDestination (answers : Str → Nat → Option (List Str)) (config : AiProviderConfig) :
    Except DestinationPolicyError Unit :=
  validateConfig { policy with resolver := answers } ⟨config.provider.name, config.baseUrl⟩

/-- The beginning of `save_config`. -/
def beginSave (s : State) (c : Nat) (ownerId : String) (config : AiProviderConfig)
    (answers : Str → Nat → Option (List Str)) : State :=
  let s := s.supply ownerId config.provider config.apiKey
  match validateDestination policy answers config with
  | .error e => s.setCall c (.failed (.validation e.message))
  | .ok () =>
    ({ s with validated := s.validated ++ [⟨ownerId, config.provider, config.baseUrl⟩] } :
      State).setCall c (.validated ownerId config)

def step (s : State) : Action → Option State
  | .save c ownerId config answers =>
    match s.call c with
    | .idle => some (beginSave policy s c ownerId config answers)
    | _ => none
  | .load c iv =>
    match s.call c with
    | .validated ownerId config => some (loadRecord cipher s c ownerId config iv)
    | _ => none
  | .commit c =>
    match s.call c with
    | .changed ownerId loaded new => some (commitRecord s c ownerId loaded new)
    | _ => none
  | .publish c =>
    match s.call c with
    | .committed ownerId => some (s.setCall c (.saved ownerId (getPublicConfig (s.row ownerId))))
    | _ => none
  | .read c ownerId =>
    match s.call c with
    | .idle => some (s.setCall c (.returned ownerId (readConfig cipher (s.row ownerId))))
    | _ => none
  | .test c ownerId request =>
    match s.call c with
    | .idle => some (test cipher s c ownerId request)
    | _ => none
  | .crash c =>
    match s.call c with
    | .validated _ _ => some (s.setCall c (.failed .crashed))
    | .changed _ _ _ => some (s.setCall c (.failed .crashed))
    | _ => none

/-- No rows, and no call has begun. -/
def initial : State :=
  { row := fun _ => none
    call := fun _ => .idle
    supplied := []
    validated := [] }

/-- All interleavings of any number of calls. -/
def configs : StepSystem State Action :=
  { init := fun s => s = initial
    step := step cipher policy }

end Definitions

section Frames

theorem setCall_self (s : State) (c : Nat) (q : Call) : (s.setCall c q).call c = q :=
  if_pos rfl

variable {c : Nat} {t : State} {a : Action}

theorem setCall_other (s : State) {c' : Nat} (q : Call) (h : c' ≠ c) :
    (s.setCall c q).call c' = s.call c' :=
  if_neg h

theorem supply_call (s : State) (ownerId : String) (provider : AiProvider) (key : Option Str) :
    (s.supply ownerId provider key).call = s.call := by
  unfold State.supply
  split <;> rfl

theorem supply_row (s : State) (ownerId : String) (provider : AiProvider) (key : Option Str) :
    (s.supply ownerId provider key).row = s.row := by
  unfold State.supply
  split <;> rfl

theorem supply_validated (s : State) (ownerId : String) (provider : AiProvider)
    (key : Option Str) : (s.supply ownerId provider key).validated = s.validated := by
  unfold State.supply
  split <;> rfl

theorem subset_supply (s : State) (ownerId : String) (provider : AiProvider)
    (key : Option Str) : s.supplied ⊆ (s.supply ownerId provider key).supplied := by
  unfold State.supply
  split
  · exact List.Subset.refl _
  · exact List.subset_append_left _ _

/-- The key that a call says has been supplied. -/
theorem mem_supply (s : State) (ownerId : String) (provider : AiProvider) {value : Option Str}
    {key : Str} (h : given value = some key) :
    ⟨ownerId, provider, key⟩ ∈ (s.supply ownerId provider value).supplied := by
  unfold State.supply
  rw [h]
  exact List.mem_append_right _ List.mem_cons_self

variable {s s' : State}

/-- What a step does to the calls and to the rows: one call moves on, and the rows change
    only if it is a commit. A call that has committed returns what it has saved. -/
structure Moves (s s' : State) (c : Nat) : Prop where
  other : ∀ c', c' ≠ c → s'.call c' = s.call c'
  row : s'.row = s.row ∨ ∃ ownerId, s'.call c = .committed ownerId
  done : ∀ ownerId, s.call c = .committed ownerId → ∃ config, s'.call c = .saved ownerId config
  last : ∀ ownerId config, s.call c ≠ .saved ownerId config

theorem moves_setCall {q : Call} (hcall : t.call = s.call) (hrow : t.row = s.row)
    (hdone : ∀ ownerId, s.call c ≠ .committed ownerId)
    (hlast : ∀ ownerId config, s.call c ≠ .saved ownerId config) : Moves s (t.setCall c q) c where
  other _ h := by rw [setCall_other t q h, hcall]
  row := .inl hrow
  done ownerId h := absurd h (hdone ownerId)
  last := hlast

theorem commitRecord_moves {ownerId : String} {loaded : Option AiProviderConfigRecord}
    {new : AiProviderConfigRecord} (hc : s.call c = .changed ownerId loaded new) :
    Moves s (commitRecord s c ownerId loaded new) c := by
  have hdone : ∀ o, s.call c ≠ .committed o := by simp [hc]
  have hlast : ∀ o config, s.call c ≠ .saved o config := by simp [hc]
  have hset : ∀ record, Moves s ((s.setRow ownerId record).setCall c (.committed ownerId)) c :=
    fun record =>
      { other := fun c' h => setCall_other _ _ h
        row := .inr ⟨ownerId, setCall_self _ _ _⟩
        done := fun o h => absurd h (hdone o)
        last := hlast }
  unfold commitRecord
  split
  · exact hset _
  · exact moves_setCall rfl rfl hdone hlast
  · exact moves_setCall rfl rfl hdone hlast
  · exact hset _

variable {cipher : ProviderKeyCipher} [Codecs] [Ipaddress] {policy : ProviderEgressPolicy}

theorem step_moves (h : step cipher policy s a = some s') : Moves s s' a.call := by
  cases a with
  -- A save goes from its supply to its publication, and only the commit writes the row.
  | save c ownerId config answers =>
    simp only [step] at h
    split at h
    · rename_i hc
      cases h
      unfold beginSave
      have hcall := supply_call s ownerId config.provider config.apiKey
      have hrow := supply_row s ownerId config.provider config.apiKey
      split
      · exact moves_setCall hcall hrow (by simp [hc]) (by simp [hc])
      · exact moves_setCall hcall hrow (by simp [hc]) (by simp [hc])
    · cases h
  | load c iv =>
    simp only [step] at h
    split at h
    · rename_i hc
      cases h
      unfold loadRecord
      split
      · exact moves_setCall rfl rfl (by simp [hc]) (by simp [hc])
      · exact moves_setCall rfl rfl (by simp [hc]) (by simp [hc])
    · cases h
  | commit c =>
    simp only [step] at h
    split at h
    · rename_i hc
      cases h
      exact commitRecord_moves hc
    · cases h
  | publish c =>
    simp only [step] at h
    split at h
    · rename_i ownerId hc
      cases h
      refine ⟨fun c' hc' => setCall_other _ _ hc', .inl rfl, fun o ho => ?_,
        by simp [Action.call, hc]⟩
      have ho : s.call c = .committed o := ho
      rw [hc] at ho
      rw [← Call.committed.inj ho]
      exact ⟨_, setCall_self _ _ _⟩
    · cases h
  -- A reader, a test and a crash leave the row.
  | read c ownerId =>
    simp only [step] at h
    split at h
    · rename_i hc
      cases h
      exact moves_setCall rfl rfl (by simp [hc]) (by simp [hc])
    · cases h
  | test c ownerId request =>
    simp only [step] at h
    split at h
    · rename_i hc
      cases h
      unfold test
      split
      · exact moves_setCall rfl rfl (by simp [hc]) (by simp [hc])
      · exact moves_setCall (supply_call _ _ _ _) (supply_row _ _ _ _)
          (by simp [hc]) (by simp [hc])
    · cases h
  | crash c =>
    simp only [step] at h
    split at h
    · rename_i hc
      cases h
      exact moves_setCall rfl rfl (by simp [hc]) (by simp [hc])
    · rename_i hc
      cases h
      exact moves_setCall rfl rfl (by simp [hc]) (by simp [hc])
    · cases h

/-- The row is written, and the call has not raised. -/
def Done (s : State) (c : Nat) : Prop :=
  (∃ ownerId, s.call c = .committed ownerId) ∨ ∃ ownerId config, s.call c = .saved ownerId config

theorem done_step (hdone : Done s c) (h : step cipher policy s a = some s') : Done s' c := by
  have hmoves := step_moves h
  by_cases hc : c = a.call
  · rcases hdone with ⟨ownerId, hcommitted⟩ | ⟨ownerId, config, hsaved⟩
    · rw [hc] at hcommitted ⊢
      exact .inr ⟨ownerId, hmoves.done ownerId hcommitted⟩
    · rw [hc] at hsaved
      exact absurd hsaved (hmoves.last ownerId config)
  · unfold Done
    rw [hmoves.other c hc]
    exact hdone

/-- Whatever a call does that raises in the end, it changes no row. -/
theorem failed_row {error : Failure} (h : step cipher policy s a = some s')
    (hp : (configs cipher policy).Path (fun _ _ => True) s' t)
    (hfailed : t.call a.call = .failed error) : s'.row = s.row := by
  rcases (step_moves h).row with hrow | hcommitted
  · exact hrow
  · have hdone : Done t a.call := StepSystem.path_invariant
      (I := fun s => Done s a.call) (fun _ _ _ hd _ hstep => done_step hd hstep)
      (.inl hcommitted) hp
    rcases hdone with ⟨_, hcall⟩ | ⟨_, _, hcall⟩
    · rw [hfailed] at hcall
      cases hcall
    · rw [hfailed] at hcall
      cases hcall

end Frames

section Rows

variable (cipher : ProviderKeyCipher)

/-- A stored key is one that its owner supplied for a provider. -/
def KeyFor (supplied : List Supplied) (ownerId : String) (provider : AiProvider)
    (token : Option Str) : Prop :=
  ∀ t, token = some t → ∃ key, cipher.decrypt t = some key ∧
    (⟨ownerId, provider, key⟩ : Supplied) ∈ supplied

/-- The last four characters of a stored key. -/
def LastFourOf (token last4 : Option Str) : Prop :=
  last4 = (token.bind cipher.decrypt).map lastFour

/-- What a row says about the calls before. -/
structure RowOk (supplied : List Supplied) (validated : List Validated) (ownerId : String)
    (record : AiProviderConfigRecord) : Prop where
  key : KeyFor cipher supplied ownerId record.provider record.encryptedApiKey
  last4 : LastFourOf cipher record.encryptedApiKey record.apiKeyLast4
  baseUrl : ⟨ownerId, record.provider, record.baseUrl⟩ ∈ validated

/-- A commit that divides no pair of columns that belong together. A key that is erased
    may be erased under any provider. -/
structure Whole (loaded new stored : AiProviderConfigRecord) : Prop where
  key : new.encryptedApiKey = none ∧ loaded.encryptedApiKey ≠ none ∨
    Undivided loaded.provider new.provider stored.provider
      loaded.encryptedApiKey new.encryptedApiKey stored.encryptedApiKey
  last4 : Undivided loaded.encryptedApiKey new.encryptedApiKey stored.encryptedApiKey
    loaded.apiKeyLast4 new.apiKeyLast4 stored.apiKeyLast4
  baseUrl : Undivided loaded.provider new.provider stored.provider
    loaded.baseUrl new.baseUrl stored.baseUrl

variable {cipher} {supplied supplied' : List Supplied} {validated validated' : List Validated}
  {ownerId : String}

theorem RowOk.mono (hs : supplied ⊆ supplied') (hv : validated ⊆ validated')
    {record : AiProviderConfigRecord} (h : RowOk cipher supplied validated ownerId record) :
    RowOk cipher supplied' validated' ownerId record where
  key t ht := by
    rcases h.key t ht with ⟨key, hdecrypt, hmem⟩
    exact ⟨key, hdecrypt, hs hmem⟩
  last4 := h.last4
  baseUrl := hv h.baseUrl

/-- A commit that divides no pair stores a row as it should be. -/
theorem rowOk_flush {loaded new stored : AiProviderConfigRecord}
    (hnew : RowOk cipher supplied validated ownerId new)
    (hstored : RowOk cipher supplied validated ownerId stored)
    (hwhole : Whole loaded new stored) :
    RowOk cipher supplied validated ownerId (loaded.flush new stored) where
  key := by
    rcases hwhole.key with ⟨herased, hloaded⟩ | hpair
    · intro t ht
      have hchanged : new.encryptedApiKey ≠ loaded.encryptedApiKey := by
        rw [herased]
        exact hloaded.symm
      simp only [AiProviderConfigRecord.flush, flush_changed hchanged] at ht
      rw [herased] at ht
      cases ht
    · simp only [AiProviderConfigRecord.flush]
      rcases flush_pair hpair with ⟨hp, hk⟩ | ⟨hp, hk⟩
      · rw [hp, hk]
        exact hnew.key
      · rw [hp, hk]
        exact hstored.key
  last4 := by
    simp only [AiProviderConfigRecord.flush]
    rcases flush_pair hwhole.last4 with ⟨hk, hl⟩ | ⟨hk, hl⟩
    · rw [hk, hl]
      exact hnew.last4
    · rw [hk, hl]
      exact hstored.last4
  baseUrl := by
    simp only [AiProviderConfigRecord.flush]
    rcases flush_pair hwhole.baseUrl with ⟨hp, hb⟩ | ⟨hp, hb⟩
    · rw [hp, hb]
      exact hnew.baseUrl
    · rw [hp, hb]
      exact hstored.baseUrl

/-- A row that is stored as it was loaded is not divided. -/
theorem whole_current (loaded new : AiProviderConfigRecord) : Whole loaded new loaded where
  key := .inr ⟨fun _ _ => rfl, fun _ _ => rfl⟩
  last4 := ⟨fun _ _ => rfl, fun _ _ => rfl⟩
  baseUrl := ⟨fun _ _ => rfl, fun _ _ => rfl⟩

variable {record : Option AiProviderConfigRecord} {config : AiProviderConfig} {key : Str}
  {request : AiProviderTestRequest}

theorem carried_eq_some {r : AiProviderConfigRecord} (h : carried config record = some r) :
    record = some r ∧ r.provider = config.provider := by
  rcases Option.filter_eq_some_iff.mp h with ⟨hrecord, hcond⟩
  simp only [Bool.and_eq_true, decide_eq_true_eq] at hcond
  exact ⟨hrecord, hcond.1.2⟩

/-- The row that a save means to store is as it should be, if the loaded one is. -/
theorem rowOk_newRecord {iv : Nat} {key : Option Str × Option Str}
    (hrecord : ∀ r, record = some r → RowOk cipher supplied validated ownerId r)
    (hsupplied : ∀ k, given config.apiKey = some k → ⟨ownerId, config.provider, k⟩ ∈ supplied)
    (hvalidated : ⟨ownerId, config.provider, config.baseUrl⟩ ∈ validated)
    (h : resolveKey cipher config record iv = .ok key) :
    RowOk cipher supplied validated ownerId (newRecord config key) := by
  unfold resolveKey at h
  split at h
  · rename_i k hk
    cases h
    refine ⟨fun t ht => ⟨k, ?_, hsupplied k hk⟩, ?_, hvalidated⟩
    · cases ht
      exact cipher.decrypt_encrypt k iv
    · simp [LastFourOf, newRecord, cipher.decrypt_encrypt]
  · split at h
    · rename_i r hr
      rcases carried_eq_some hr with ⟨hloaded, hprovider⟩
      have hok := hrecord r hloaded
      cases h
      refine ⟨?_, hok.last4, hvalidated⟩
      have hkey := hok.key
      rw [hprovider] at hkey
      exact hkey
    · split at h
      · cases h
      · cases h
        exact ⟨nofun, rfl, hvalidated⟩

/-- A key that is read from a row was supplied for the provider of the row. -/
theorem supplied_of_decryptKey {record : AiProviderConfigRecord}
    (h : RowOk cipher supplied validated ownerId record)
    (hkey : decryptKey cipher record = some key) : ⟨ownerId, record.provider, key⟩ ∈ supplied := by
  rcases Option.bind_eq_some_iff.mp hkey with ⟨t, ht, hdecrypt⟩
  have htoken : record.encryptedApiKey = some t := by
    unfold given at ht
    split at ht
    · cases ht
    · exact ht
  rcases h.key t htoken with ⟨key', hdecrypt', hmem⟩
  rw [hdecrypt] at hdecrypt'
  rw [Option.some.inj hdecrypt']
  exact hmem

theorem supplied_of_readConfig
    (hrecord : ∀ r, record = some r → RowOk cipher supplied validated ownerId r)
    (h : readConfig cipher record = some config) (hkey : config.apiKey = some key) :
    ⟨ownerId, config.provider, key⟩ ∈ supplied := by
  rcases Option.map_eq_some_iff.mp h with ⟨r, hr, rfl⟩
  exact supplied_of_decryptKey (hrecord r hr) hkey

theorem provider_of_configForTest (h : configForTest cipher request record = .ok config) :
    config = testConfig request (readConfig cipher record) config.provider := by
  simp only [configForTest] at h
  split at h
  · cases h
  · cases h
    rfl

/-- The key of a test is the one of the request, or a stored one of the same provider. -/
theorem supplied_of_configForTest
    (hrecord : ∀ r, record = some r → RowOk cipher supplied validated ownerId r)
    (h : configForTest cipher request record = .ok config)
    (hsupplied : ∀ k, given request.apiKey = some k → ⟨ownerId, config.provider, k⟩ ∈ supplied)
    (hkey : config.apiKey = some key) : ⟨ownerId, config.provider, key⟩ ∈ supplied := by
  rw [provider_of_configForTest h] at hkey
  simp only [testConfig] at hkey
  rcases (Option.orElse_eq_some _ _ _).mp hkey with hgiven | ⟨_, hsaved⟩
  · exact hsupplied key hgiven
  · rcases Option.bind_eq_some_iff.mp hsaved with ⟨saved, hsame, hkey⟩
    rcases Option.filter_eq_some_iff.mp hsame with ⟨hread, hprovider⟩
    rw [← of_decide_eq_true hprovider]
    exact supplied_of_readConfig hrecord hread hkey

end Rows

section Runs

variable (cipher : ProviderKeyCipher)

/-- What a call holds is as it should be. -/
def CallOk (s : State) : Call → Prop
  | .validated ownerId config =>
    ⟨ownerId, config.provider, config.baseUrl⟩ ∈ s.validated ∧
      ∀ key, given config.apiKey = some key → ⟨ownerId, config.provider, key⟩ ∈ s.supplied
  | .changed ownerId _ new => RowOk cipher s.supplied s.validated ownerId new
  | .returned ownerId (some config) =>
    ∀ key, config.apiKey = some key → ⟨ownerId, config.provider, key⟩ ∈ s.supplied
  | _ => True

variable [Codecs] [Ipaddress] (policy : ProviderEgressPolicy)

/-- The policy has validated a destination, with the answers of some resolver. -/
def Passed (e : Validated) : Prop :=
  ∃ answers, validateConfig { policy with resolver := answers } ⟨e.provider.name, e.baseUrl⟩ =
    .ok ()

structure Inv (s : State) : Prop where
  rows : ∀ ownerId record, s.row ownerId = some record →
    RowOk cipher s.supplied s.validated ownerId record
  calls : ∀ c, CallOk cipher s (s.call c)
  passed : ∀ e ∈ s.validated, Passed policy e

/-- A commit that finds a row divides no pair of columns. -/
def Undisturbed (s : State) : Action → Prop
  | .commit c => ∀ ownerId loaded new stored, s.call c = .changed ownerId (some loaded) new →
      s.row ownerId = some stored → Whole loaded new stored
  | _ => True

variable {cipher policy} {s s' : State}

variable {q : Call} {c : Nat} {ownerId : String} {loaded : Option AiProviderConfigRecord}
  {new : AiProviderConfigRecord}

omit [Codecs] [Ipaddress] in
theorem CallOk.mono (hs : s.supplied ⊆ s'.supplied) (hv : s.validated ⊆ s'.validated)
    (h : CallOk cipher s q) : CallOk cipher s' q := by
  cases q with
  | validated ownerId config => exact ⟨hv h.1, fun key hkey => hs (h.2 key hkey)⟩
  | changed ownerId loaded new => exact RowOk.mono hs hv h
  | returned ownerId config =>
    cases config with
    | none => trivial
    | some config => exact fun key hkey => hs (h key hkey)
  | _ => trivial

/-- The invariant after a call has moved. The lists only grow, and a row or an entry that is
    new is checked by the one who adds it. -/
theorem Inv.next (h : Inv cipher policy s) (hs : s.supplied ⊆ s'.supplied)
    (hv : s.validated ⊆ s'.validated) (hcall : s'.call = (s.setCall c q).call)
    (hrow : ∀ ownerId record, s'.row ownerId = some record → s.row ownerId = some record ∨
      RowOk cipher s'.supplied s'.validated ownerId record) (hq : CallOk cipher s' q)
    (hpassed : ∀ e ∈ s'.validated, e ∈ s.validated ∨ Passed policy e) : Inv cipher policy s' where
  rows ownerId record hr := by
    rcases hrow ownerId record hr with hold | hnew
    · exact RowOk.mono hs hv (h.rows ownerId record hold)
    · exact hnew
  calls c' := by
    rw [hcall]
    by_cases hc : c' = c
    · rw [hc, setCall_self]
      exact hq
    · rw [setCall_other s q hc]
      exact CallOk.mono hs hv (h.calls c')
  passed e he := by
    rcases hpassed e he with hold | hnew
    · exact h.passed e hold
    · exact hnew

/-- A call that moves on and changes nothing else. -/
theorem Inv.setCall (h : Inv cipher policy s) (hq : CallOk cipher s q) :
    Inv cipher policy (s.setCall c q) :=
  h.next (List.Subset.refl _) (List.Subset.refl _) rfl (fun _ _ hr => .inl hr) hq
    (fun _ he => .inl he)

theorem inv_supply (h : Inv cipher policy s) (ownerId : String) (provider : AiProvider)
    (key : Option Str) : Inv cipher policy (s.supply ownerId provider key) where
  rows o record hr := by
    rw [supply_row] at hr
    rw [supply_validated]
    exact RowOk.mono (subset_supply s ownerId provider key) (List.Subset.refl _)
      (h.rows o record hr)
  calls c := by
    rw [supply_call]
    refine CallOk.mono (subset_supply s ownerId provider key) ?_ (h.calls c)
    rw [supply_validated]
    exact List.Subset.refl _
  passed := by
    rw [supply_validated]
    exact h.passed

theorem inv_beginSave (h : Inv cipher policy s) (c : Nat) (ownerId : String)
    (config : AiProviderConfig) (answers : Str → Nat → Option (List Str)) :
    Inv cipher policy (beginSave policy s c ownerId config answers) := by
  have hsupply := inv_supply h ownerId config.provider config.apiKey
  unfold beginSave
  split
  · exact hsupply.setCall trivial
  · rename_i hok
    have hmem : ∀ key, given config.apiKey = some key → ⟨ownerId, config.provider, key⟩ ∈
        (s.supply ownerId config.provider config.apiKey).supplied :=
      fun key hkey => mem_supply s ownerId config.provider hkey
    refine hsupply.next (List.Subset.refl _) (List.subset_append_left _ _) rfl
      (fun _ _ hr => .inl hr) ⟨List.mem_append_right _ List.mem_cons_self, hmem⟩ (fun e he => ?_)
    rcases List.mem_append.mp he with hold | hnew
    · exact .inl hold
    · rw [List.mem_singleton.mp hnew]
      exact .inr ⟨answers, hok⟩

theorem inv_loadRecord (h : Inv cipher policy s) {config : AiProviderConfig}
    (hc : s.call c = .validated ownerId config) (iv : Nat) :
    Inv cipher policy (loadRecord cipher s c ownerId config iv) := by
  have hcall := h.calls c
  rw [hc] at hcall
  unfold loadRecord
  split
  · exact h.setCall trivial
  · rename_i key hkey
    exact h.setCall (rowOk_newRecord (h.rows ownerId) hcall.2 hcall.1 hkey)

theorem inv_setRow (h : Inv cipher policy s) (c : Nat) {record : AiProviderConfigRecord}
    (hrecord : RowOk cipher s.supplied s.validated ownerId record) :
    Inv cipher policy ((s.setRow ownerId record).setCall c (.committed ownerId)) := by
  refine h.next (List.Subset.refl _) (List.Subset.refl _) rfl (fun o r hr => ?_) trivial
    (fun _ he => .inl he)
  change (if o = ownerId then some record else s.row o) = some r at hr
  by_cases ho : o = ownerId
  · rw [if_pos ho] at hr
    rw [ho, ← Option.some.inj hr]
    exact .inr hrecord
  · rw [if_neg ho] at hr
    exact .inl hr

theorem inv_commitRecord (h : Inv cipher policy s) (hc : s.call c = .changed ownerId loaded new)
    (hok : Undisturbed s (.commit c)) :
    Inv cipher policy (commitRecord s c ownerId loaded new) := by
  have hnew := h.calls c
  rw [hc] at hnew
  unfold commitRecord
  split
  · exact inv_setRow h c hnew
  · exact h.setCall trivial
  · exact h.setCall trivial
  · rename_i loaded stored hstored
    exact inv_setRow h c
      (rowOk_flush hnew (h.rows ownerId stored hstored) (hok ownerId loaded new stored hc hstored))

theorem inv_test (h : Inv cipher policy s) (c : Nat) (ownerId : String)
    (request : AiProviderTestRequest) : Inv cipher policy (test cipher s c ownerId request) := by
  unfold test
  split
  · exact h.setCall trivial
  · rename_i config hconfig
    have hsupply := inv_supply h ownerId config.provider request.apiKey
    have hrow := hsupply.rows ownerId
    rw [supply_row] at hrow
    exact hsupply.setCall fun key hkey => supplied_of_configForTest hrow hconfig
      (fun k hk => mem_supply s ownerId config.provider hk) hkey

omit [Codecs] [Ipaddress] in
theorem undisturbed_current (hc : s.call c = .changed ownerId loaded new)
    (hrow : s.row ownerId = loaded) : Undisturbed s (.commit c) := by
  intro ownerId' loaded' new' stored hc' hstored
  rw [hc] at hc'
  injection hc' with howner hloaded hnew
  rw [← howner, hrow, hloaded] at hstored
  cases hstored
  exact whole_current loaded' new'

theorem inv_step {a : Action} (h : Inv cipher policy s) (hok : Undisturbed s a)
    (hstep : step cipher policy s a = some s') : Inv cipher policy s' := by
  cases a with
  | save c ownerId config answers =>
    simp only [step] at hstep
    split at hstep
    · cases hstep
      exact inv_beginSave h c ownerId config answers
    · cases hstep
  | load c iv =>
    simp only [step] at hstep
    split at hstep
    · rename_i hc
      cases hstep
      exact inv_loadRecord h hc iv
    · cases hstep
  | commit c =>
    simp only [step] at hstep
    split at hstep
    · rename_i hc
      cases hstep
      exact inv_commitRecord h hc hok
    · cases hstep
  | publish c =>
    simp only [step] at hstep
    split at hstep
    · cases hstep
      exact h.setCall trivial
    · cases hstep
  | read c ownerId =>
    simp only [step] at hstep
    split at hstep
    · cases hstep
      refine h.setCall ?_
      cases hread : readConfig cipher (s.row ownerId) with
      | none => trivial
      | some config => exact fun key hkey => supplied_of_readConfig (h.rows ownerId) hread hkey
    · cases hstep
  | test c ownerId request =>
    simp only [step] at hstep
    split at hstep
    · cases hstep
      exact inv_test h c ownerId request
    · cases hstep
  | crash c =>
    simp only [step] at hstep
    split at hstep
    · cases hstep
      exact h.setCall trivial
    · cases hstep
      exact h.setCall trivial
    · cases hstep

theorem inv_initial : Inv cipher policy initial where
  rows := nofun
  calls _ := trivial
  passed := nofun

variable (cipher policy)

/-- Keys go to the provider that they were supplied for, rows are those of validated saves,
    and a save that fails changes nothing. -/
structure Isolated (s : State) : Prop where
  returned : ∀ c ownerId config key, s.call c = .returned ownerId (some config) →
    config.apiKey = some key → ⟨ownerId, config.provider, key⟩ ∈ s.supplied
  rows : ∀ ownerId record, s.row ownerId = some record →
    RowOk cipher s.supplied s.validated ownerId record
  passed : ∀ e ∈ s.validated, Passed policy e
  failed : ∀ a s' t error, step cipher policy s a = some s' →
    (configs cipher policy).Path (fun _ _ => True) s' t → t.call a.call = .failed error →
    s'.row = s.row

variable {cipher policy}

/-- If no commit divides the columns of a row, then keys are isolated. -/
theorem keys_isolated (h : (configs cipher policy).ReachableBy Undisturbed s) :
    Isolated cipher policy s := by
  have hinit : ∀ s₀, (configs cipher policy).init s₀ → Inv cipher policy s₀ := by
    intro s₀ h₀
    have h₀ : s₀ = initial := h₀
    rw [h₀]
    exact inv_initial
  have hinv : Inv cipher policy s := StepSystem.reachableBy_invariant
    (I := Inv cipher policy) hinit (fun _ _ _ hi hok hstep => inv_step hi hok hstep) h
  refine ⟨fun c ownerId config key hc hkey => ?_, hinv.rows, hinv.passed,
    fun a s' t error hstep hp hfailed => failed_row hstep hp hfailed⟩
  have hcall := hinv.calls c
  rw [hc] at hcall
  exact hcall key hkey

end Runs

section Examples

/-- A cipher that puts the number of the token first. -/
def sampleCipher : ProviderKeyCipher :=
  { encrypt := fun key iv => Char.ofNat (97 + iv) :: key
    decrypt := fun token => token.tail?
    decrypt_encrypt := fun _ _ => rfl }

local instance configCodecs : Codecs := asciiCodecs

local instance configAddresses : Ipaddress := sampleAddresses

/-- A save of a key for a provider whose destination is fixed. -/
def saveKey (c : Nat) (provider : AiProvider) (key : String) : Action :=
  .save c "ada" ⟨provider, some key.toList, none, none⟩ (fun _ _ => none)

/-- Two saves of an owner, one after the other, and a read. -/
def inTurn : List Action :=
  [saveKey 0 .openai "sk-first", .load 0 0, .commit 0, .publish 0, saveKey 1 .anthropic "sk-ant",
    .load 1 1, .commit 1, .read 2 "ada"]

/-- Two saves that load the same row, and a read after both. -/
def crossed : List Action :=
  [saveKey 0 .openai "sk-first", .load 0 0, .commit 0, saveKey 1 .anthropic "sk-ant",
    .load 1 1, saveKey 2 .openai "sk-next", .load 2 2, .commit 1, .commit 2, .read 3 "ada"]

/-- Saves one after the other are undisturbed, and the key is the one of the last. -/
theorem keys_isolated_inTurn :
    ∃ s, (configs sampleCipher localPolicy).exec initial inTurn = some s ∧
      s.call 2 = .returned "ada" (some ⟨.anthropic, some "sk-ant".toList,
        some "claude-haiku-4-5-20251001".toList, none⟩) ∧
      Isolated sampleCipher localPolicy s := by
  have hmeets : (configs sampleCipher localPolicy).Meets Undisturbed initial inTurn :=
    And.intro trivial (And.intro trivial (And.intro (undisturbed_current rfl rfl)
      (And.intro trivial (And.intro trivial (And.intro trivial
        (And.intro (undisturbed_current rfl rfl) (And.intro trivial trivial)))))))
  refine ⟨_, rfl, ?_, keys_isolated ⟨initial, rfl, StepSystem.path_of_meets rfl hmeets⟩⟩
  decide +kernel

/-- The provider of one save stands beside the key of another. -/
theorem key_misdirected :
    ∃ s, (configs sampleCipher localPolicy).Reachable s ∧
      s.call 3 = .returned "ada" (some ⟨.anthropic, some "sk-next".toList,
        some "claude-haiku-4-5-20251001".toList, none⟩) ∧
      ⟨"ada", .anthropic, "sk-next".toList⟩ ∉ s.supplied := by
  have hrun : ∃ s, (configs sampleCipher localPolicy).exec initial crossed = some s ∧
      s.call 3 = .returned "ada" (some ⟨.anthropic, some "sk-next".toList,
        some "claude-haiku-4-5-20251001".toList, none⟩) ∧
      ⟨"ada", .anthropic, "sk-next".toList⟩ ∉ s.supplied := by
    refine ⟨_, rfl, ?_, ?_⟩
    · decide +kernel
    · decide +kernel
  rcases hrun with ⟨s, hexec, hcall, hkey⟩
  exact ⟨s, StepSystem.reachable_of_exec rfl hexec, hcall, hkey⟩

end Examples

end ConfigStore

end Partha
