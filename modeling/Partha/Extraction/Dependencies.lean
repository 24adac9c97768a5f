import Partha.Extraction.Pipeline
import Partha.Library.Grouping

/-!
# The Merge of Dependency Facts

`merge_dependency_facts`: the nodes that several files have for one dependency
become one record, told once for each producer with the evidence of its own.

The members of a group are sorted by producer, path and lines before anything is
made of them. Two files of one producer have different paths, so ties are between
nodes of one file, and these keep their order. The record is therefore a function
of the files and not of the order in which they were read.

`str` is only known on what is text. `add_node` is modelled as far as it compares
a node with the one that is stored, with what is stored of a name and of
properties as a parameter.

## Main definitions

* `members`: The dependency nodes of all results.
* `mergedNode`: `_merged_node`.
* `evidenceByProducer`: `_evidence_by_producer`.
* `mergeDependencyFacts`: `merge_dependency_facts`.
* `addNode`, `persist`: What the store makes of the nodes.
* `FromFiles`: Results that each come from a file.

## Theorems

* `mergedEntries_perm`: The merged records do not depend on the order of the results.
* `nodesOf_merged`: What there is for a key and a producer.
* `persist_merged`: Nothing conflicts under the key of a dependency.
* `merge_complete`: All of it.
-/

namespace Partha

namespace Dependencies

open Canonical Checked Extraction SortKeys List

section Definitions

def dependencyKind : Str := "dependency".toList

/-- `DependencyManifestExtractor.name` -/
def manifestName : Str := "dependency-manifest".toList

/-- `LockfileExtractor.name` -/
def lockfileName : Str := "dependency-lockfile".toList

/-- `DEPENDENCY_PRODUCERS` -/
def dependencyProducers : List Str := [manifestName, lockfileName]

/-- `_DECLARATION_FIELDS` -/
def declarationFields : List Str :=
  ["version".toList, "dependency_type".toList, "manifest_path".toList, "workspace_path".toList]

/-- `_RESOLUTION_FIELDS` -/
def resolutionFields : List Str :=
  ["resolved_version".toList, "dependency_scope".toList, "lockfile_path".toList,
    "lockfile_format".toList, "lockfile_entry".toList, "workspace_path".toList]

abbrev Properties := List (Str × Value)

/-- `(properties or {}).get(field)` -/
def get (properties : Option Properties) (field : Str) : Value :=
  ((properties.getD []).lookup field).getD .null

/-- Whether a value counts as true. A float is not looked into. -/
def truthy : Value → Bool
  | .null => false
  | .bool b => b
  | .num i => i ≠ 0
  | .str s => s ≠ []
  | .arr items => !items.isEmpty
  | .obj fields => !fields.isEmpty
  | .float => true
  | .unsupported => true

/-- `str`, where what is not text is shown in some way. -/
def str (shown : Value → Str) : Value → Str
  | .str s => s
  | v => shown v

/-- `str(properties.get("manifest_path") or properties.get("lockfile_path") or "")` -/
def sourcePath (shown : Value → Str) (properties : Option Properties) : Str :=
  if truthy (get properties "manifest_path".toList) then
    str shown (get properties "manifest_path".toList)
  else if truthy (get properties "lockfile_path".toList) then
    str shown (get properties "lockfile_path".toList)
  else []

/-- The lines of `node.evidence[0]`. A node without evidence does not get this far. -/
def firstLines (n : ExtractedNode) : Int × Int :=
  match n.evidence with
  | [] => (0, 0)
  | e :: _ => (e.startLine, e.endLine)

/-- A dependency node and the result that it is from. -/
structure Member where
  item : ProducedExtraction
  node : ExtractedNode

abbrev Identity := Str × Str

def identityOf (item : ProducedExtraction) : Identity :=
  (item.producerName, item.producerVersion)

def isDependency (n : ExtractedNode) : Bool :=
  n.nodeKind = dependencyKind

/-- The dependency nodes of all results. -/
def members (produced : List ProducedExtraction) : List Member :=
  produced.flatMap (fun item => (item.result.nodes.filter isDependency).map (Member.mk item))

/-- The members of every key. -/
def groups (produced : List ProducedExtraction) : List (Str × List Member) :=
  Grouping.groups (fun m => some m.node.stableKey) (members produced)

/-- The keys that only the producers of dependencies claim. -/
def mergeable (produced : List ProducedExtraction) : List (Str × List Member) :=
  (groups produced).filter
    (fun g => g.2.all (fun m => dependencyProducers.elem m.item.producerName))

/-- `DEPENDENCY_PRODUCERS.index`, for a name that is in it. -/
def rank (producerName : Str) : Nat :=
  dependencyProducers.idxOf producerName

/-- `_member_order`. -/
def memberOrder (shown : Value → Str) (m : Member) : Nat ×ₗ List Nat ×ₗ Int ×ₗ Int :=
  toLex (rank m.item.producerName,
    toLex (codePoints (sourcePath shown m.node.properties), toLex (firstLines m.node)))

/-- A name, or nothing. -/
def nameValue : Option Str → Value
  | some name => .str name
  | none => .null

/-- The record of a member in the merged node, with the fields of its kind. -/
def record (fields : List Str) (m : Member) : Value :=
  .obj ([("name".toList, nameValue m.node.name), ("start_line".toList, .num (firstLines m.node).1),
    ("end_line".toList, .num (firstLines m.node).2),
    ("extractor".toList, .str m.item.producerName),
    ("extractor_version".toList, .str m.item.producerVersion)] ++
    fields.map (fun field => (field, get m.node.properties field)))

/-- `_merged_node`, of the members in their order. -/
def foldMembers (stableKey : Str) (ordered : List Member) : ExtractedNode :=
  { nodeKind := dependencyKind
    stableKey := stableKey
    name := ordered.head?.bind (fun m => m.node.name)
    language := none
    evidence := []
    properties := some
      [("ecosystem".toList,
          get (ordered.head?.bind (fun m => m.node.properties)) "ecosystem".toList),
        ("declarations".toList, .arr ((ordered.filter
          (fun m => m.item.producerName ≠ lockfileName)).map (record declarationFields))),
        ("resolutions".toList, .arr ((ordered.filter
          (fun m => m.item.producerName = lockfileName)).map (record resolutionFields)))] }

/-- `_merged_node`. -/
def mergedNode (shown : Value → Str) (stableKey : Str) (group : List Member) : ExtractedNode :=
  foldMembers stableKey (sortBy (memberOrder shown) group)

/-- `_evidence_by_producer`, of the members in their order. -/
def evidenceOf (ordered : List Member) : List (Identity × List ExtractedEvidence) :=
  (Grouping.groups (fun m : Member => some (identityOf m.item)) ordered).map
    (fun g => (g.1, g.2.flatMap (fun m => m.node.evidence)))

/-- `_evidence_by_producer`. -/
def evidenceByProducer (shown : Value → Str) (group : List Member) :
    List (Identity × List ExtractedEvidence) :=
  evidenceOf (sortBy (memberOrder shown) group)

/-- The merged nodes in the order of the loop, each with the producer it goes to. -/
def mergedByProducer (shown : Value → Str) (produced : List ProducedExtraction) :
    List (Identity × ExtractedNode) :=
  (sortBy (fun g : Str × List Member => codePoints g.1) (mergeable produced)).flatMap (fun g =>
    (evidenceByProducer shown g.2).map
      (fun e => (e.1, { mergedNode shown g.1 g.2 with evidence := e.2 })))

/-- Producers are compared by name and then by version. -/
def identityOrder (identity : Identity) : List Nat ×ₗ List Nat :=
  toLex (codePoints identity.1, codePoints identity.2)

/-- One entry for each producer. -/
def mergedEntries (shown : Value → Str) (produced : List ProducedExtraction) :
    List ProducedExtraction :=
  (sortBy (fun g : Identity × List (Identity × ExtractedNode) => identityOrder g.1)
    (Grouping.groups (fun p : Identity × ExtractedNode => some p.1)
      (mergedByProducer shown produced))).map (fun g =>
    { producerName := g.1.1
      producerVersion := g.1.2
      result := { nodes := g.2.map Prod.snd, observations := [], diagnostics := [] } })

/-- A result without the nodes that moved. -/
def rewritten (keys : List Str) (item : ProducedExtraction) : ProducedExtraction :=
  { item with
    result :=
      { item.result with
        nodes := item.result.nodes.filter
          (fun n => !(isDependency n && keys.elem n.stableKey)) } }

/-- What the merge raises: `node.evidence[0]` of a node without evidence. -/
inductive MergeError where
  | indexError

/-- `merge_dependency_facts`. -/
def mergeDependencyFacts (shown : Value → Str) (produced : List ProducedExtraction) :
    Except MergeError (List ProducedExtraction) :=
  if groups produced = [] then .ok produced
  else if mergeable produced = [] then .ok produced
  else if (mergeable produced).any (fun g => g.2.any (fun m => m.node.evidence.isEmpty)) then
    .error .indexError
  else .ok (mergedEntries shown produced ++
    produced.map (rewritten ((mergeable produced).map Prod.fst)))

end Definitions

section Store

/-- A stored node, as far as another is compared with it. -/
structure RiNode (γ : Type*) where
  stableKey : Str
  nodeKind : Str
  content : γ
  deriving DecidableEq

/-- What the store raises on a node. -/
inductive StoreError where
  | canonical (e : CanonicalError)
  | conflicting (stableKey : Str)

variable [Unicode] {γ : Type*} [DecidableEq γ]

/-- `add_node`, where `content` is what is stored of a name, a language and properties. -/
def addNode (content : Option Str → Option Str → Option Properties → Except CanonicalError γ)
    (rows : List (RiNode γ)) (n : ExtractedNode) : Except StoreError (List (RiNode γ)) :=
  match normalizeStableKey (nfc n.nodeKind) n.stableKey with
  | .error e => .error (.canonical e)
  | .ok key =>
    match content n.name n.language n.properties with
    | .error e => .error (.canonical e)
    | .ok stored =>
      match rows.find? (fun row => row.stableKey = key) with
      | some existing =>
        if (nfc n.nodeKind, stored) = (existing.nodeKind, existing.content) then .ok rows
        else .error (.conflicting key)
      | none =>
        .ok (rows ++ [{ stableKey := key, nodeKind := nfc n.nodeKind, content := stored }])

/-- The nodes of some results, handed to the store one after the other. -/
def persist (content : Option Str → Option Str → Option Properties → Except CanonicalError γ) :
    List (RiNode γ) → List ExtractedNode → Except StoreError (List (RiNode γ))
  | rows, [] => .ok rows
  | rows, n :: nodes => do
    let rows ← addNode content rows n
    persist content rows nodes

end Store

section Files

variable {shown : Value → Str}

/-- Results of files. Only the producers of dependencies name dependencies, with evidence and
    with the path of the file, and no producer has two results for a file. -/
structure FromFiles (shown : Value → Str) (files : List (Str × ProducedExtraction)) : Prop where
  producers : ∀ f ∈ files, ∀ n ∈ f.2.result.nodes, isDependency n →
    f.2.producerName ∈ dependencyProducers
  evidence : ∀ f ∈ files, ∀ n ∈ f.2.result.nodes, isDependency n → n.evidence ≠ []
  paths : ∀ f ∈ files, ∀ n ∈ f.2.result.nodes, isDependency n →
    sourcePath shown n.properties = f.1
  distinct : files.Pairwise (fun f g => f.2.producerName = g.2.producerName → f.1 = g.1 →
    f.2.result.nodes.filter isDependency = [] ∨ g.2.result.nodes.filter isDependency = [])

/-- The results without their files. -/
def produced (files : List (Str × ProducedExtraction)) : List ProducedExtraction :=
  files.map Prod.snd

/-- The members that a file has. -/
def membersIn (f : Str × ProducedExtraction) : List Member :=
  (f.2.result.nodes.filter isDependency).map (Member.mk f.2)

theorem members_produced (files : List (Str × ProducedExtraction)) :
    members (produced files) = files.flatMap membersIn := by
  rw [members, produced, flatMap_map]
  rfl

variable {m : Member} {f : Str × ProducedExtraction}
  {files files' : List (Str × ProducedExtraction)}

theorem mem_members {items : List ProducedExtraction} :
    m ∈ members items ↔ m.item ∈ items ∧ m.node ∈ m.item.result.nodes ∧ isDependency m.node := by
  rw [members, mem_flatMap]
  constructor
  · rintro ⟨item, hitem, hm⟩
    rcases mem_map.mp hm with ⟨n, hn, rfl⟩
    rw [mem_filter] at hn
    exact ⟨hitem, hn⟩
  · rintro ⟨hitem, hn⟩
    exact ⟨m.item, hitem, mem_map.mpr ⟨m.node, mem_filter.mpr hn, rfl⟩⟩

theorem mem_membersIn (h : m ∈ membersIn f) :
    m.item = f.2 ∧ m.node ∈ f.2.result.nodes ∧ isDependency m.node := by
  rcases mem_map.mp h with ⟨n, hn, rfl⟩
  rw [mem_filter] at hn
  exact ⟨rfl, hn⟩

theorem rank_injective {a b : Str} (ha : a ∈ dependencyProducers) (h : rank a = rank b) : a = b :=
  (idxOf_inj ha).mp h

/-- Members of one order are of one file. -/
theorem FromFiles.order_file (h : FromFiles shown files) {g : Str × ProducedExtraction}
    (hf : f ∈ files) (hg : g ∈ files) {m' : Member} (hm : m ∈ membersIn f) (hm' : m' ∈ membersIn g)
    (horder : memberOrder shown m = memberOrder shown m') :
    f.2.producerName = g.2.producerName ∧ f.1 = g.1 := by
  rcases mem_membersIn hm with ⟨hitem, hn, hdep⟩
  rcases mem_membersIn hm' with ⟨hitem', hn', hdep'⟩
  simp only [memberOrder, toLex_inj, Prod.mk.injEq] at horder
  rw [hitem, hitem'] at horder
  refine ⟨rank_injective (h.producers f hf _ hn hdep) horder.1, ?_⟩
  rw [← h.paths f hf _ hn hdep, ← h.paths g hg _ hn' hdep']
  exact codePoints_injective horder.2.1

/-- The members of a key sort alike, in whatever order the files come. -/
theorem FromFiles.sort_perm (h : FromFiles shown files) (hp : files.Perm files')
    (p : Member → Bool) :
    sortBy (memberOrder shown) ((members (produced files)).filter p) =
      sortBy (memberOrder shown) ((members (produced files')).filter p) := by
  refine sortBy_eq_of_filters (fun order q hq => ?_)
  rw [members_produced, members_produced, filter_filter, filter_filter,
    filter_flatMap, filter_flatMap]
  refine flatMap_eq_of_perm hp (h.distinct.imp_of_mem (fun {f g} hf hg hdistinct => ?_))
  have hnone : ∀ f : Str × ProducedExtraction, f.2.result.nodes.filter isDependency = [] →
      (membersIn f).filter (fun m => q m && p m) = [] := by
    intro f hnil
    rw [membersIn, hnil]
    rfl
  have hempty : ∀ f : Str × ProducedExtraction,
      (¬ ∃ m ∈ membersIn f, memberOrder shown m = order) →
        (membersIn f).filter (fun m => q m && p m) = [] := by
    intro f hf
    refine filter_eq_nil_iff.mpr (fun m hm hpass => hf ⟨m, hm, ?_⟩)
    rw [Bool.and_eq_true] at hpass
    exact (hq m).mp hpass.1
  by_cases hfirst : ∃ m ∈ membersIn f, memberOrder shown m = order
  · by_cases hsecond : ∃ m ∈ membersIn g, memberOrder shown m = order
    · rcases hfirst with ⟨m, hm, he⟩
      rcases hsecond with ⟨m', hm', he'⟩
      rcases h.order_file hf hg hm hm' (he.trans he'.symm) with ⟨hname, hpath⟩
      exact (hdistinct hname hpath).imp (hnone f) (hnone g)
    · exact .inr (hempty g hsecond)
  · exact .inl (hempty f hfirst)

theorem FromFiles.perm (h : FromFiles shown files) (hp : files.Perm files') :
    FromFiles shown files' where
  producers f hf := h.producers f (hp.mem_iff.mpr hf)
  evidence f hf := h.evidence f (hp.mem_iff.mpr hf)
  paths f hf := h.paths f (hp.mem_iff.mpr hf)
  distinct := by
    refine (hp.pairwise_iff (fun hfg hname hpath => ?_)).mp h.distinct
    exact (hfg hname.symm hpath.symm).symm

/-- Every key can be merged. -/
theorem FromFiles.mergeable_eq (h : FromFiles shown files) :
    mergeable (produced files) = groups (produced files) := by
  refine filter_eq_self.mpr (fun g hg => all_eq_true.mpr (fun m hm => ?_))
  rw [groups] at hg
  rcases g with ⟨key, ms⟩
  rw [(Grouping.mem_groups.mp hg).2] at hm
  have hmem := mem_of_mem_filter hm
  rw [members_produced, mem_flatMap] at hmem
  rcases hmem with ⟨f, hf, hin⟩
  rcases mem_membersIn hin with ⟨hitem, hn, hdep⟩
  rw [elem_iff, hitem]
  exact h.producers f hf _ hn hdep

end Files

section Merged

variable {shown : Value → Str}

/-- The members of a key, in their order. -/
def ordered (shown : Value → Str) (items : List ProducedExtraction) (key : Str) : List Member :=
  sortBy (memberOrder shown) (Grouping.group (fun m : Member => some m.node.stableKey)
    (members items) key)

/-- The nodes of a key with the producers that they go to. -/
def perKey (g : Str × List Member) : List (Identity × ExtractedNode) :=
  (evidenceOf g.2).map (fun e => (e.1, { foldMembers g.1 g.2 with evidence := e.2 }))

/-- A group with its members in their order. -/
def inOrder (shown : Value → Str) (g : Str × List Member) : Str × List Member :=
  (g.1, sortBy (memberOrder shown) g.2)

/-- The groups by key, each in its order. -/
def sortedGroups (shown : Value → Str) (items : List ProducedExtraction) :
    List (Str × List Member) :=
  sortBy (fun g : Str × List Member => codePoints g.1) ((groups items).map (inOrder shown))

theorem mem_inOrder {items : List ProducedExtraction} {key : Str} {ms : List Member} :
    (key, ms) ∈ (groups items).map (inOrder shown) ↔ ms ≠ [] ∧ ms = ordered shown items key := by
  rw [mem_map]
  constructor
  · rintro ⟨⟨key', ms'⟩, hg, he⟩
    rcases Prod.mk.inj he with ⟨hkey, hms⟩
    simp only at hkey hms
    rw [hkey] at hg
    rcases Grouping.mem_groups.mp hg with ⟨hne, hgroup⟩
    rw [hgroup] at hms
    refine ⟨?_, hms.symm⟩
    rw [← hms, ← length_pos_iff, length_sortBy, length_pos_iff, ← hgroup]
    exact hne
  · rintro ⟨hne, hms⟩
    refine ⟨(key, Grouping.group (fun m : Member => some m.node.stableKey) (members items) key),
      Grouping.mem_groups.mpr ⟨?_, rfl⟩, ?_⟩
    · intro hnil
      rw [hms, ordered, hnil] at hne
      exact hne rfl
    · rw [inOrder, hms, ordered]

theorem nodup_inOrder (shown : Value → Str) (items : List ProducedExtraction) :
    (((groups items).map (inOrder shown)).map Prod.fst).Nodup := by
  rw [map_map]
  exact Grouping.nodup_groups _ _

variable {files : List (Str × ProducedExtraction)}

/-- The groups do not depend on the order of the files. -/
theorem FromFiles.sortedGroups_perm {files' : List (Str × ProducedExtraction)}
    (h : FromFiles shown files) (hp : files.Perm files') :
    sortedGroups shown (produced files) = sortedGroups shown (produced files') := by
  have hordered : ∀ key, ordered shown (produced files) key = ordered shown (produced files') key :=
    fun key => h.sort_perm hp _
  refine sortBy_eq_of_perm ?_ (fun g hg g' hg' hkey => ?_)
  · rw [perm_ext_iff_of_nodup (nodup_inOrder _ _).of_map (nodup_inOrder _ _).of_map]
    rintro ⟨key, ms⟩
    rw [mem_inOrder, mem_inOrder, hordered]
  · rcases g with ⟨key, ms⟩
    rcases g' with ⟨key', ms'⟩
    have he : key = key' := codePoints_injective hkey
    subst he
    rw [(mem_inOrder.mp hg).2, (mem_inOrder.mp hg').2]

/-- The merge loop reads the groups in their order. -/
theorem FromFiles.mergedByProducer_eq (h : FromFiles shown files) :
    mergedByProducer shown (produced files) =
      (sortedGroups shown (produced files)).flatMap perKey := by
  rw [mergedByProducer, h.mergeable_eq, sortedGroups, sortBy_map, flatMap_map]
  rfl

/-- What is made of a key is made of its own members. -/
theorem sortedGroups_key {β : Type*} (items : List ProducedExtraction) (key : Str)
    (f : Str × List Member → List β) (hf : f (key, []) = []) :
    ((sortedGroups shown items).filter (fun g => g.1 = key)).flatMap f =
      f (key, ordered shown items key) := by
  have hperm : (sortedGroups shown items).Perm ((groups items).map (inOrder shown)) :=
    perm_sortBy _ _
  have hfilter := hperm.filter (fun g => decide (g.1 = key))
  have hmap : ((groups items).map (inOrder shown)).filter (fun g => g.1 = key) =
      ((groups items).filter (fun g => g.1 = key)).map (inOrder shown) := by
    rw [filter_map]
    rfl
  rw [hmap] at hfilter
  by_cases hnil : Grouping.group (fun m : Member => some m.node.stableKey) (members items) key = []
  · have hnone : (groups items).filter (fun g => g.1 = key) = [] := by
      refine filter_eq_nil_iff.mpr (fun g hg hk => ?_)
      rw [decide_eq_true_eq] at hk
      rcases g with ⟨key', ms⟩
      subst hk
      exact (Grouping.mem_groups.mp hg).1 ((Grouping.mem_groups.mp hg).2.trans hnil)
    rw [hnone, map_nil] at hfilter
    rw [hfilter.eq_nil, ordered, hnil]
    exact hf.symm
  · rw [groups, Grouping.filter_groups hnil, map_singleton] at hfilter
    rw [perm_singleton.mp hfilter, flatMap_singleton]
    rfl

/-- The nodes that some results of a producer have for a key. -/
def nodesOf (items : List ProducedExtraction) (identity : Identity) (key : Str) :
    List ExtractedNode :=
  ((items.filter (fun item => identityOf item = identity)).flatMap
    (fun item => item.result.nodes)).filter (fun n => n.stableKey = key)

/-- The entry of a producer has what the merge loop has for it. -/
theorem entry_nodes (items : List ProducedExtraction) (identity : Identity) :
    ((mergedEntries shown items).filter (fun item => identityOf item = identity)).flatMap
        (fun item => item.result.nodes) =
      ((mergedByProducer shown items).filter (fun p => p.1 = identity)).map Prod.snd := by
  have hgroups := Grouping.flatMap_filter_groups
    (perm_sortBy (fun g : Identity × List (Identity × ExtractedNode) => identityOrder g.1)
      (Grouping.groups (fun p : Identity × ExtractedNode => some p.1)
        (mergedByProducer shown items))) identity
  have hfilter : (mergedByProducer shown items).filter (fun p => p.1 = identity) =
      Grouping.group (fun p : Identity × ExtractedNode => some p.1)
        (mergedByProducer shown items) identity := by
    refine filter_congr (fun p _ => decide_eq_decide.mpr ?_)
    rw [Option.some.injEq]
  rw [hfilter, ← hgroups, mergedEntries, filter_map, flatMap_map, map_flatMap]
  rfl

theorem evidenceOf_filter (ms : List Member) (identity : Identity) :
    ((evidenceOf ms).filter (fun e => e.1 = identity)) =
      if ms.filter (fun m => identityOf m.item = identity) = [] then []
      else [(identity, (ms.filter (fun m => identityOf m.item = identity)).flatMap
        (fun m => m.node.evidence))] := by
  have hgroup : Grouping.group (fun m : Member => some (identityOf m.item)) ms identity =
      ms.filter (fun m => identityOf m.item = identity) := by
    refine filter_congr (fun m _ => decide_eq_decide.mpr ?_)
    rw [Option.some.injEq]
  have hmap : (evidenceOf ms).filter (fun e => e.1 = identity) =
      ((Grouping.groups (fun m : Member => some (identityOf m.item)) ms).filter
        (fun g => g.1 = identity)).map
          (fun g => (g.1, g.2.flatMap (fun m => m.node.evidence))) := by
    rw [evidenceOf, filter_map]
    rfl
  rw [hmap]
  by_cases hnil : ms.filter (fun m => identityOf m.item = identity) = []
  · rw [if_pos hnil, map_eq_nil_iff]
    refine filter_eq_nil_iff.mpr (fun g hg hk => ?_)
    rw [decide_eq_true_eq] at hk
    rcases g with ⟨identity', ms'⟩
    subst hk
    rcases Grouping.mem_groups.mp hg with ⟨hne, he⟩
    exact hne (he.trans (hgroup.trans hnil))
  · rw [if_neg hnil, Grouping.filter_groups (by rw [hgroup]; exact hnil), hgroup]
    rfl

/-- For each key and each producer of it there is one node, with the evidence of the producer. -/
theorem FromFiles.nodesOf_merged (h : FromFiles shown files) (identity : Identity) (key : Str) :
    nodesOf (mergedEntries shown (produced files)) identity key =
      if (ordered shown (produced files) key).filter
        (fun m => identityOf m.item = identity) = [] then []
      else [{ foldMembers key (ordered shown (produced files) key) with
        evidence := ((ordered shown (produced files) key).filter
          (fun m => identityOf m.item = identity)).flatMap (fun m => m.node.evidence) }] := by
  have hkey : ∀ g : Str × List Member, ∀ p ∈ perKey g, p.2.stableKey = g.1 := by
    intro g p hp
    rcases mem_map.mp hp with ⟨e, -, rfl⟩
    rfl
  have hof : ∀ ms : List Member,
      (((perKey (key, ms)).filter (fun p => p.1 = identity)).map Prod.snd).filter
          (fun n => n.stableKey = key) =
        ((evidenceOf ms).filter (fun e => e.1 = identity)).map
          (fun e => { foldMembers key ms with evidence := e.2 }) := by
    intro ms
    have hall : ∀ n ∈ ((perKey (key, ms)).filter (fun p => p.1 = identity)).map Prod.snd,
        decide (n.stableKey = key) = true := by
      intro n hn
      rcases mem_map.mp hn with ⟨p, hp, rfl⟩
      exact decide_eq_true (hkey _ p (mem_filter.mp hp).1)
    rw [filter_eq_self.mpr hall, perKey, filter_map, map_map]
    rfl
  have hnone : ∀ g ∈ sortedGroups shown (produced files), decide (g.1 = key) = false →
      (((perKey g).filter (fun p => p.1 = identity)).map Prod.snd).filter
        (fun n => n.stableKey = key) = [] := by
    intro g _ hg
    refine filter_eq_nil_iff.mpr (fun n hn hk => ?_)
    rcases mem_map.mp hn with ⟨p, hp, rfl⟩
    rw [decide_eq_true_eq, hkey g p (mem_filter.mp hp).1] at hk
    exact of_decide_eq_false hg hk
  rw [nodesOf, entry_nodes, h.mergedByProducer_eq, filter_flatMap, map_flatMap,
    filter_flatMap, ← flatMap_filter_of_nil hnone,
    sortedGroups_key (produced files) key
      (fun g => (((perKey g).filter (fun p => p.1 = identity)).map Prod.snd).filter
        (fun n => n.stableKey = key)) rfl,
    hof, evidenceOf_filter]
  split
  · rfl
  · rfl

/-- The merged nodes of one key differ in their evidence only. -/
theorem FromFiles.merged_node (h : FromFiles shown files) {item : ProducedExtraction}
    (hitem : item ∈ mergedEntries shown (produced files)) {n : ExtractedNode}
    (hn : n ∈ item.result.nodes) :
    (∃ m ∈ members (produced files), m.node.stableKey = n.stableKey) ∧
      n = { foldMembers n.stableKey (ordered shown (produced files) n.stableKey) with
        evidence := n.evidence } := by
  have hmem : n ∈ nodesOf (mergedEntries shown (produced files)) (identityOf item) n.stableKey := by
    rw [nodesOf, mem_filter, mem_flatMap]
    refine ⟨⟨item, mem_filter.mpr ⟨hitem, decide_eq_true rfl⟩, hn⟩, decide_eq_true rfl⟩
  rw [h.nodesOf_merged] at hmem
  split at hmem
  · cases hmem
  · rename_i hne
    rcases exists_mem_of_ne_nil _ hne with ⟨m, hm⟩
    have hin := mem_sortBy.mp (mem_of_mem_filter hm)
    rw [Grouping.group, mem_filter, decide_eq_true_eq, Option.some.injEq] at hin
    refine ⟨⟨m, hin.1, hin.2⟩, ?_⟩
    have he := mem_singleton.mp hmem
    generalize n.stableKey = key at he
    rw [he]

end Merged

section Rest

variable {shown : Value → Str}

/-- A result without its dependency nodes. -/
def withoutDependencies (item : ProducedExtraction) : ProducedExtraction :=
  { item with
    result :=
      { item.result with nodes := item.result.nodes.filter (fun n => !isDependency n) } }

variable {items : List ProducedExtraction} {files : List (Str × ProducedExtraction)}

/-- The keys of all groups are those of the members. -/
theorem mem_keys {m : Member} (h : m ∈ members items) :
    m.node.stableKey ∈ (groups items).map Prod.fst := by
  have hgroup : m ∈ Grouping.group (fun m : Member => some m.node.stableKey) (members items)
      m.node.stableKey := mem_filter.mpr ⟨h, decide_eq_true rfl⟩
  exact mem_map_of_mem (f := Prod.fst)
    (Grouping.mem_groups.mpr ⟨ne_nil_of_mem hgroup, rfl⟩)

theorem rewritten_all {item : ProducedExtraction} (h : item ∈ items) :
    rewritten ((groups items).map Prod.fst) item = withoutDependencies item := by
  have hfilter : item.result.nodes.filter
      (fun n => !(isDependency n && ((groups items).map Prod.fst).elem n.stableKey)) =
        item.result.nodes.filter (fun n => !isDependency n) := by
    refine filter_congr (fun n hn => ?_)
    cases hdep : isDependency n with
    | false => rfl
    | true =>
      have hmem := mem_keys (m := ⟨item, n⟩) (mem_members.mpr ⟨h, hn, hdep⟩)
      rw [elem_iff.mpr hmem]
      rfl
  rw [rewritten, withoutDependencies, hfilter]

/-- The records come first, and the rest of the results stays. -/
theorem FromFiles.merge_ok (h : FromFiles shown files) :
    mergeDependencyFacts shown (produced files) = .ok (mergedEntries shown (produced files) ++
      (produced files).map withoutDependencies) := by
  have hrest : (produced files).map (rewritten ((groups (produced files)).map Prod.fst)) =
      (produced files).map withoutDependencies :=
    map_congr_left (fun item hitem => rewritten_all hitem)
  rw [mergeDependencyFacts, h.mergeable_eq, hrest]
  by_cases hnil : groups (produced files) = []
  · have hmerged : mergedEntries shown (produced files) = [] := by
      rw [mergedEntries, h.mergedByProducer_eq, sortedGroups, hnil]
      rfl
    have hself : (produced files).map withoutDependencies = produced files := by
      rw [← hrest, hnil]
      refine map_id''  (fun item => ?_) _
      rw [rewritten]
      simp
    rw [if_pos hnil, hmerged, hself, nil_append]
  · have hevidence : ((groups (produced files)).any
        (fun g => g.2.any (fun m => m.node.evidence.isEmpty))) = false := by
      rw [any_eq_false]
      rintro ⟨key, ms⟩ hg hany
      rcases any_eq_true.mp hany with ⟨m, hm, hempty⟩
      rw [(Grouping.mem_groups.mp hg).2] at hm
      have hmem := mem_of_mem_filter hm
      rw [members_produced, mem_flatMap] at hmem
      rcases hmem with ⟨f, hf, hin⟩
      rcases mem_membersIn hin with ⟨-, hn, hdep⟩
      exact h.evidence f hf _ hn hdep (isEmpty_iff.mp hempty)
    rw [if_neg hnil, if_neg hnil, hevidence]
    rfl

/-- The merged records do not depend on the order of the files. -/
theorem FromFiles.mergedEntries_perm {files' : List (Str × ProducedExtraction)}
    (h : FromFiles shown files) (hp : files.Perm files') :
    mergedEntries shown (produced files') = mergedEntries shown (produced files) := by
  rw [mergedEntries, mergedEntries, h.mergedByProducer_eq, (h.perm hp).mergedByProducer_eq,
    h.sortedGroups_perm hp]

/-- There is one entry for each producer, and it has nothing but nodes. -/
theorem mergedEntries_entries (items : List ProducedExtraction) :
    ((mergedEntries shown items).map identityOf).Nodup ∧
      ∀ item ∈ mergedEntries shown items, item.result.observations = [] ∧
        item.result.diagnostics = [] := by
  constructor
  · have hmap : (mergedEntries shown items).map identityOf =
        (sortBy (fun g : Identity × List (Identity × ExtractedNode) => identityOrder g.1)
          (Grouping.groups (fun p : Identity × ExtractedNode => some p.1)
            (mergedByProducer shown items))).map Prod.fst := by
      rw [mergedEntries, map_map]
      rfl
    rw [hmap, ((perm_sortBy _ _).map Prod.fst).nodup_iff]
    exact Grouping.nodup_groups _ _
  · intro item hitem
    rcases mem_map.mp hitem with ⟨g, -, rfl⟩
    exact ⟨rfl, rfl⟩

end Rest

section Conflicts

variable [Unicode] {γ : Type*} [DecidableEq γ]
  {content : Option Str → Option Str → Option Properties → Except CanonicalError γ}

/-- If all that is written under some keys agrees, then nothing conflicts there. -/
theorem persist_agree (keys : Str → Prop) (kind : Str) (stored : Str → Except CanonicalError γ)
    {nodes : List ExtractedNode}
    (hnodes : ∀ n ∈ nodes, ∀ key, normalizeStableKey (nfc n.nodeKind) n.stableKey = .ok key →
      keys key → nfc n.nodeKind = kind ∧ content n.name n.language n.properties = stored key)
    {rows : List (RiNode γ)} (hrows : ∀ row ∈ rows, keys row.stableKey →
      row.nodeKind = kind ∧ stored row.stableKey = .ok row.content)
    {key : Str} (h : persist content rows nodes = .error (.conflicting key)) : ¬ keys key := by
  induction nodes generalizing rows with
  | nil => cases h
  | cons n nodes ih =>
    have hrest := fun m hm => hnodes m (mem_cons_of_mem n hm)
    have hn := hnodes n mem_cons_self
    rw [persist, addNode] at h
    cases hkey : normalizeStableKey (nfc n.nodeKind) n.stableKey with
    | error e =>
      simp only [hkey, error_bind] at h
      cases h
    | ok written =>
      cases hcontent : content n.name n.language n.properties with
      | error e =>
        simp only [hkey, hcontent, error_bind] at h
        cases h
      | ok value =>
        simp only [hkey, hcontent] at h
        cases hfind : rows.find? (fun row => row.stableKey = written) with
        | none =>
          simp only [hfind, ok_bind] at h
          refine ih hrest (fun row hrow hin => ?_) h
          rcases mem_append.mp hrow with hrow | hrow
          · exact hrows row hrow hin
          · rw [mem_singleton.mp hrow] at hin ⊢
            rcases hn written hkey hin with ⟨hkind, hstored⟩
            exact ⟨hkind, by rw [← hstored, hcontent]⟩
        | some existing =>
          simp only [hfind] at h
          by_cases hsame : (nfc n.nodeKind, value) = (existing.nodeKind, existing.content)
          · rw [if_pos hsame, ok_bind] at h
            exact ih hrest hrows h
          · rw [if_neg hsame, error_bind] at h
            cases h
            -- Under the keys the stored node and the new one are alike.
            intro hin
            have hexisting := mem_of_find?_eq_some hfind
            have hsamekey := List.find?_some hfind
            rw [decide_eq_true_eq] at hsamekey
            rcases hn key hkey hin with ⟨hkind, hstored⟩
            rcases hrows existing hexisting (by rw [hsamekey]; exact hin) with
              ⟨hkind', hstored'⟩
            rw [hsamekey, ← hstored, hcontent] at hstored'
            exact hsame (by rw [hkind, hkind', Except.ok.inj hstored'])

end Conflicts

section Complete

/-- The members of a key that a producer named. -/
def membersOf (items : List ProducedExtraction) (identity : Identity) (key : Str) : List Member :=
  (members items).filter (fun m => m.node.stableKey = key && identityOf m.item = identity)

/-- The members of a key that came from a lockfile, or those that did not. -/
def resolutionsOf (items : List ProducedExtraction) (lockfile : Bool) (key : Str) : List Member :=
  (members items).filter
    (fun m => m.node.stableKey = key && decide (m.item.producerName = lockfileName) == lockfile)

/-- The properties of a merged node: a record for each manifest node and for each lockfile node. -/
def MergedProperties (items : List ProducedExtraction) (key : Str)
    (properties : Option Properties) : Prop :=
  ∃ ecosystem declarations resolutions, properties =
      some [("ecosystem".toList, ecosystem), ("declarations".toList, .arr declarations),
        ("resolutions".toList, .arr resolutions)] ∧
    declarations.Perm ((resolutionsOf items false key).map (record declarationFields)) ∧
    resolutions.Perm ((resolutionsOf items true key).map (record resolutionFields))

/-- What the merge has for every key and every producer: one node if the producer named the key,
    with all the evidence that it gave, and none otherwise. -/
def MergedNodes (items merged : List ProducedExtraction) : Prop :=
  ∀ key, ∃ name properties, MergedProperties items key properties ∧
    ∀ identity, ∃ evidence : List ExtractedEvidence,
      evidence.Perm ((membersOf items identity key).flatMap (fun m => m.node.evidence)) ∧
      nodesOf merged identity key = if membersOf items identity key = [] then [] else
        [{ nodeKind := dependencyKind
           stableKey := key
           name := name
           language := none
           evidence := evidence
           properties := properties }]

/-- Nothing is written under the key but the dependencies that have it. -/
structure OwnKey [Unicode] (items : List ProducedExtraction) (key : Str) : Prop where
  normalized : ∀ m ∈ members items,
    normalizeStableKey dependencyKind m.node.stableKey = .ok key → m.node.stableKey = key
  own : ∀ item ∈ items, ∀ n ∈ item.result.nodes, isDependency n = false →
    normalizeStableKey (nfc n.nodeKind) n.stableKey ≠ .ok key

variable {shown : Value → Str}

theorem ordered_perm (items : List ProducedExtraction) (key : Str) :
    (ordered shown items key).Perm ((members items).filter (fun m => m.node.stableKey = key)) := by
  have hgroup : Grouping.group (fun m : Member => some m.node.stableKey) (members items) key =
      (members items).filter (fun m => m.node.stableKey = key) := by
    refine filter_congr (fun m _ => decide_eq_decide.mpr ?_)
    rw [Option.some.injEq]
  rw [ordered, hgroup]
  exact perm_sortBy _ _

theorem mergedProperties_fold (shown : Value → Str) (items : List ProducedExtraction) (key : Str) :
    MergedProperties items key (foldMembers key (ordered shown items key)).properties := by
  refine ⟨_, _, _, rfl, ?_, ?_⟩
  · refine ((ordered_perm items key).filter _).map _ |>.trans (List.Perm.of_eq ?_)
    rw [filter_filter, resolutionsOf]
    refine congrArg _ (filter_congr (fun m _ => ?_))
    rw [Bool.and_comm]
    by_cases hlock : m.item.producerName = lockfileName
    · simp [hlock]
    · simp [hlock]
  · refine ((ordered_perm items key).filter _).map _ |>.trans (List.Perm.of_eq ?_)
    rw [filter_filter, resolutionsOf]
    refine congrArg _ (filter_congr (fun m _ => ?_))
    rw [Bool.and_comm, beq_true]

variable {files : List (Str × ProducedExtraction)}

theorem FromFiles.mergedNodes (h : FromFiles shown files) :
    MergedNodes (produced files) (mergedEntries shown (produced files)) := by
  intro key
  refine ⟨(foldMembers key (ordered shown (produced files) key)).name, _,
    mergedProperties_fold shown (produced files) key, fun identity => ?_⟩
  have hperm : ((ordered shown (produced files) key).filter
      (fun m => identityOf m.item = identity)).Perm (membersOf (produced files) identity key) := by
    refine ((ordered_perm (produced files) key).filter _).trans (List.Perm.of_eq ?_)
    rw [filter_filter, membersOf]
    refine filter_congr (fun m _ => ?_)
    rw [Bool.and_comm]
  refine ⟨_, hperm.flatMap_right _, ?_⟩
  rw [h.nodesOf_merged]
  by_cases hnil : membersOf (produced files) identity key = []
  · rw [hnil] at hperm
    rw [if_pos hnil, if_pos hperm.eq_nil]
  · rw [if_neg hnil, if_neg (fun e => hnil (by rw [e] at hperm; exact hperm.nil_eq.symm))]
    rfl

/-- Nothing that the merge gives conflicts under a key that nothing else is written under. -/
theorem FromFiles.persist_merged [Unicode] {γ : Type*} [DecidableEq γ]
    {content : Option Str → Option Str → Option Properties → Except CanonicalError γ}
    (h : FromFiles shown files) {key : Str} (hown : OwnKey (produced files) key)
    {rows : List (RiNode γ)} (hrows : ∀ row ∈ rows, row.stableKey ≠ key) :
    persist content rows
      ((mergedEntries shown (produced files) ++ (produced files).map withoutDependencies).flatMap
        (fun item => item.result.nodes)) ≠ .error (.conflicting key) := by
  intro hraise
  have hkind : nfc dependencyKind = dependencyKind := nfc_ascii _ (by decide)
  refine persist_agree (fun written => written = key) dependencyKind
    (fun key => content (foldMembers key (ordered shown (produced files) key)).name none
      (foldMembers key (ordered shown (produced files) key)).properties)
    (fun n hn written hwritten hin => ?_)
    (fun row hrow hin => absurd hin (hrows row hrow)) hraise rfl
  rcases mem_flatMap.mp hn with ⟨item, hitem, hnode⟩
  rw [hin] at hwritten
  rcases mem_append.mp hitem with hmerged | hrest
  · rcases h.merged_node hmerged hnode with ⟨⟨m, hm, he⟩, hn'⟩
    have hdep : n.nodeKind = dependencyKind := by
      rw [hn']
      rfl
    rw [hdep, hkind, ← he] at hwritten
    rw [← he, hown.normalized m hm hwritten] at hn'
    rw [hdep, hkind, hin]
    refine ⟨rfl, ?_⟩
    rw [hn']
    rfl
  · rcases mem_map.mp hrest with ⟨item', hitem', rfl⟩
    have hkept := mem_filter.mp hnode
    rw [Bool.not_eq_true'] at hkept
    exact absurd hwritten (hown.own item' hitem' n hkept.1 hkept.2)

end Complete

section Merge

/-- The merge keeps everything, tells it once, and does not depend on the order of the files. What
    it gives conflicts under a key only if something else is written there. -/
theorem merge_complete [Unicode] {γ : Type*} [DecidableEq γ] {shown : Value → Str}
    {files : List (Str × ProducedExtraction)} (h : FromFiles shown files) :
    ∃ merged,
      (∀ files', files.Perm files' → mergeDependencyFacts shown (produced files') =
        .ok (merged ++ (produced files').map withoutDependencies)) ∧
      MergedNodes (produced files) merged ∧
      (merged.map identityOf).Nodup ∧
      (∀ item ∈ merged, item.result.observations = [] ∧ item.result.diagnostics = []) ∧
      (∀ key, OwnKey (produced files) key →
        ∀ (content : Option Str → Option Str → Option Properties → Except CanonicalError γ)
          (rows : List (RiNode γ)), (∀ row ∈ rows, row.stableKey ≠ key) →
          persist content rows
            ((merged ++ (produced files).map withoutDependencies).flatMap
              (fun item => item.result.nodes)) ≠ .error (.conflicting key)) := by
  refine ⟨mergedEntries shown (produced files), fun files' hp => ?_, h.mergedNodes,
    (mergedEntries_entries _).1, (mergedEntries_entries _).2,
    fun key hown content rows hrows => h.persist_merged hown hrows⟩
  rw [(h.perm hp).merge_ok, h.mergedEntries_perm hp]

/-- The node that a manifest gives for a package. -/
def manifestNode (path key name : Str) : ExtractedNode :=
  { nodeKind := dependencyKind
    stableKey := key
    name := some name
    language := none
    evidence :=
      [{ path := path, startLine := 3, endLine := 3, logicalLineCount := 5
         granularity := "span".toList }]
    properties := some
      [("ecosystem".toList, .str "npm".toList), ("version".toList, .str "1".toList),
        ("dependency_type".toList, .str "production".toList), ("manifest_path".toList, .str path),
        ("workspace_path".toList, .str ".".toList)] }

/-- A result of one node. -/
def oneNode (producerName producerVersion : Str) (n : ExtractedNode) : ProducedExtraction :=
  { producerName := producerName
    producerVersion := producerVersion
    result := { nodes := [n], observations := [], diagnostics := [] } }

/-- Two manifests that declare one package. -/
def twoManifests : List (Str × ProducedExtraction) :=
  ["a/package.json".toList, "b/package.json".toList].map (fun path =>
    (path, oneNode manifestName "1.2.0".toList
      (manifestNode path "dep:npm:react".toList "react".toList)))

theorem twoManifests_node {f : Str × ProducedExtraction} (hf : f ∈ twoManifests)
    {n : ExtractedNode} (hn : n ∈ f.2.result.nodes) :
    ∃ path, path ≠ [] ∧ f.1 = path ∧ f.2.producerName = manifestName ∧
      n = manifestNode path "dep:npm:react".toList "react".toList := by
  rcases mem_map.mp hf with ⟨path, hpath, rfl⟩
  refine ⟨path, ?_, rfl, rfl, mem_singleton.mp hn⟩
  intro e
  rw [e] at hpath
  exact absurd hpath (by decide)

theorem twoManifests_files : FromFiles (fun _ => []) twoManifests where
  producers := by
    intro f hf n hn _
    rcases twoManifests_node hf hn with ⟨path, -, -, hname, -⟩
    rw [hname]
    exact mem_cons_self
  evidence := by
    intro f hf n hn _
    rcases twoManifests_node hf hn with ⟨path, -, -, -, hnode⟩
    rw [hnode]
    exact cons_ne_nil _ _
  paths := by
    intro f hf n hn _
    rcases twoManifests_node hf hn with ⟨path, hne, hpath, -, hnode⟩
    rw [hnode, hpath]
    have htruthy : truthy (.str path) = true := decide_eq_true hne
    exact if_pos htruthy
  distinct := pairwise_pair.mpr (fun _ hpath => absurd hpath (by decide))

theorem twoManifests_own (key : Str) : @OwnKey asciiText (produced twoManifests) key := by
  have hnode : ∀ item ∈ produced twoManifests, ∀ n ∈ item.result.nodes,
      n.nodeKind = dependencyKind ∧ n.stableKey = "dep:npm:react".toList := by
    intro item hitem n hn
    rcases mem_map.mp hitem with ⟨f, hf, rfl⟩
    rcases twoManifests_node hf hn with ⟨path, -, -, -, rfl⟩
    exact ⟨rfl, rfl⟩
  refine @OwnKey.mk asciiText _ _ ?_ ?_
  · intro m hm hkey
    rcases mem_members.mp hm with ⟨hitem, hn, -⟩
    rw [(hnode _ hitem _ hn).2] at hkey ⊢
    exact Except.ok.inj hkey
  · intro item hitem n hn hdep
    rw [isDependency, (hnode item hitem n hn).1] at hdep
    exact absurd hdep (by decide)

theorem merge_complete_manifests :
    ∃ merged,
      (∀ files', twoManifests.Perm files' → mergeDependencyFacts (fun _ => []) (produced files') =
        .ok (merged ++ (produced files').map withoutDependencies)) ∧
      MergedNodes (produced twoManifests) merged ∧
      ∀ key, @persist asciiText (Option Str) _ (fun name _ _ => .ok name) []
        ((merged ++ (produced twoManifests).map withoutDependencies).flatMap
          (fun item => item.result.nodes)) ≠ .error (.conflicting key) := by
  rcases @merge_complete asciiText (Option Str) _ _ _ twoManifests_files with
    ⟨merged, hmerge, hnodes, -, -, hpersist⟩
  refine ⟨merged, hmerge, hnodes, fun key =>
    hpersist key (twoManifests_own key) _ [] (fun row hrow => ?_)⟩
  cases hrow

/-- A function of a Python file whose name is the key of a package. -/
def symbolNode : ExtractedNode :=
  { nodeKind := "symbol".toList
    stableKey := "dep:npm:a.py::f".toList
    name := some "f".toList
    language := some "python".toList
    evidence := []
    properties := none }

/-- A manifest that declares a package of that key. -/
def clashingManifest : ProducedExtraction :=
  oneNode manifestName "1.2.0".toList
    (manifestNode "package.json".toList "dep:npm:a.py::f".toList "a.py::f".toList)

/-- Something else may be written under the key of a dependency, and two versions of a producer
    that read one file are told apart by their order only. -/
theorem merge_conflicts :
    (∃ merged, mergeDependencyFacts (fun _ => [])
        [clashingManifest, oneNode "python".toList "1".toList symbolNode] = .ok merged ∧
      @persist asciiText (Option Str) _ (fun name _ _ => .ok name) []
        (merged.flatMap (fun item => item.result.nodes)) =
          .error (.conflicting "dep:npm:a.py::f".toList)) ∧
    (mergedEntries (fun _ => [])
        [oneNode manifestName "1".toList
            (manifestNode "a".toList "dep:pypi:a-b".toList "a_b".toList),
          oneNode manifestName "2".toList
            (manifestNode "a".toList "dep:pypi:a-b".toList "a-b".toList)]).map
        (fun item => item.result.nodes.map (fun n => n.name)) ≠
      (mergedEntries (fun _ => [])
        [oneNode manifestName "2".toList
            (manifestNode "a".toList "dep:pypi:a-b".toList "a-b".toList),
          oneNode manifestName "1".toList
            (manifestNode "a".toList "dep:pypi:a-b".toList "a_b".toList)]).map
        (fun item => item.result.nodes.map (fun n => n.name)) := by
  refine ⟨⟨_, rfl, rfl⟩, by decide⟩

end Merge

end Dependencies

end Partha
