import Partha.Canonical.Paths
import Partha.Extraction.Naming
import Partha.Library.Rows
import Partha.Library.SortKeys

/-!
# Repositories on Disk

A checked-out repository as a finite tree of directories and regular files, the
file tree that `RepositoryParser._build_tree` makes of it, and how a path is
opened.

The names of a directory are looked up exactly. What the parser writes down of
a file is its path from the root, behind one slash, with every backslash turned
into a slash, because on Windows that is what separates the names. On other
systems a backslash is a character of a name like any other.

There are no symbolic links in the tree. Identifiers, sizes and languages of the
nodes are left out.

## Main definitions

* `Entry`: A file or a directory.
* `Ordinary`: What the names of a tree are like.
* `files`: The files of a tree, by their names from the root.
* `buildTree`: `_build_tree`.
* `lookup`: What there is at a path.

## Theorems

* `mem_paths`: The file tree has the path of every file.
* `lookup_eq_file`: The files of a tree are what can be opened.
* `nodup_files`: A list of names leads to one file at most.
-/

namespace Partha

namespace Analysis

open Canonical Extraction SortKeys List

/-- A regular file with its bytes, or a directory. -/
inductive Entry where
  | file (content : List UInt8)
  | directory (children : List (Str × Entry))

/-- `IGNORED_DIRS`. -/
def ignoredDirs : List Str :=
  [".git", ".hg", ".svn", "node_modules", "dist", "build", ".next", ".venv", "venv",
    "__pycache__", ".cache", ".mypy_cache", ".pytest_cache", ".tox", "vendor", "vendors",
    "generated", "__MACOSX"].map String.toList

/-- `is_macos_artifact`. -/
def isMacosArtifact (name : Str) : Bool :=
  name = ".DS_Store".toList || startsWith name "._".toList

/-- A name that the parser passes over. -/
def isIgnored (name : Str) : Bool :=
  ignoredDirs.contains name || isMacosArtifact name

/-- A name in a directory that the parser does not pass over. -/
structure OrdinaryName (name : Str) : Prop where
  plain : Plain name
  noSlash : '/' ∉ name
  noNul : Char.ofNat 0 ∉ name
  kept : isIgnored name = false

mutual

/-- Names are ordinary, and no directory has one twice. -/
def Entry.Ordinary : Entry → Prop
  | .file _ => True
  | .directory children => (children.map (·.1)).Nodup ∧ OrdinaryAll children

def OrdinaryAll : List (Str × Entry) → Prop
  | [] => True
  | (name, e) :: children => OrdinaryName name ∧ e.Ordinary ∧ OrdinaryAll children

end

mutual

/-- The files below an entry, by the names that lead to them. -/
def Entry.files : Entry → List (List Str × List UInt8)
  | .file content => [([], content)]
  | .directory children => filesAll children

def filesAll : List (Str × Entry) → List (List Str × List UInt8)
  | [] => []
  | (name, e) :: children => e.files.map (fun f => (name :: f.1, f.2)) ++ filesAll children

end

section Induction

/-- Induction over a tree, with the hypothesis for all children. -/
theorem Entry.rec_mem {P : Entry → Prop} (file : ∀ content, P (.file content))
    (directory : ∀ children : List (Str × Entry), (∀ c ∈ children, P c.2) →
      P (.directory children)) (e : Entry) : P e := by
  refine @Entry.rec P (fun children => ∀ c ∈ children, P c.2) (fun c => P c.2) file directory
    ?_ ?_ ?_ e
  · exact fun c hc => absurd hc not_mem_nil
  · intro c children hc hchildren d hd
    rcases mem_cons.mp hd with rfl | hd
    · exact hc
    · exact hchildren d hd
  · exact fun _ _ h => h

variable {children : List (Str × Entry)}

theorem ordinaryAll_iff :
    OrdinaryAll children ↔ ∀ c ∈ children, OrdinaryName c.1 ∧ c.2.Ordinary := by
  induction children with
  | nil => simp only [OrdinaryAll, not_mem_nil, false_imp_iff, implies_true]
  | cons c children ih =>
    rw [OrdinaryAll, ih, forall_mem_cons, and_assoc]

theorem filesAll_eq (children : List (Str × Entry)) :
    filesAll children
      = children.flatMap (fun c => c.2.files.map (fun f => (c.1 :: f.1, f.2))) := by
  induction children with
  | nil => rfl
  | cons c children ih => rw [filesAll, ih, flatMap_cons]

theorem mem_filesAll {f : List Str × List UInt8} :
    f ∈ filesAll children ↔
      ∃ c ∈ children, ∃ p, (p, f.2) ∈ c.2.files ∧ f.1 = c.1 :: p := by
  rw [filesAll_eq, mem_flatMap]
  constructor
  · rintro ⟨c, hc, hf⟩
    rcases mem_map.mp hf with ⟨g, hg, rfl⟩
    exact ⟨c, hc, g.1, hg, rfl⟩
  · rintro ⟨c, hc, p, hp, hf⟩
    exact ⟨c, hc, mem_map.mpr ⟨(p, f.2), hp, Prod.ext hf.symm rfl⟩⟩

end Induction

section Parsing

/-- `FileTreeNode`. -/
inductive FileTreeNode where
  | folder (name path : Str) (children : List FileTreeNode)
  | file (name path : Str)

def FileTreeNode.name : FileTreeNode → Str
  | .folder name _ _ => name
  | .file name _ => name

def FileTreeNode.isFile : FileTreeNode → Bool
  | .folder _ _ _ => false
  | .file _ _ => true

/-- The path that is written down: `"/" + str(relative).replace("\\", "/")`. -/
def writtenPath (names : List Str) : Str :=
  '/' :: foldBackslashes (joinWith '/' names)

variable [Interpreter]

/-- The order of the children of a directory. -/
def sortNodes (nodes : List FileTreeNode) : List FileTreeNode :=
  sortBy (fun n => [[n.isFile.toNat], codePoints (lower n.name)]) nodes

mutual

/-- The node of an entry, which is found under `names`. -/
def Entry.node (name : Str) : Entry → List Str → FileTreeNode
  | .file _, names => .file name (writtenPath names)
  | .directory children, names =>
    .folder name (writtenPath names) (sortNodes (childNodes children names))

/-- The nodes of the children of a directory, before they are put in order. -/
def childNodes : List (Str × Entry) → List Str → List FileTreeNode
  | [], _ => []
  | (name, e) :: children, names =>
    if isIgnored name then childNodes children names
    else e.node name (names ++ [name]) :: childNodes children names

end

/-- `_build_tree`. -/
def buildTree (children : List (Str × Entry)) : List FileTreeNode :=
  sortNodes (childNodes children [])

omit [Interpreter] in
mutual

/-- `_iter_file_paths`, at a node. -/
def FileTreeNode.paths : FileTreeNode → List Str
  | .folder _ _ children => iterFilePaths children
  | .file _ path => if path = [] then [] else [path]

/-- `_iter_file_paths`. -/
def iterFilePaths : List FileTreeNode → List Str
  | [] => []
  | n :: nodes => n.paths ++ iterFilePaths nodes

end

omit [Interpreter] in
theorem iterFilePaths_eq (nodes : List FileTreeNode) :
    iterFilePaths nodes = nodes.flatMap FileTreeNode.paths := by
  induction nodes with
  | nil => rfl
  | cons n nodes ih => rw [iterFilePaths, ih, flatMap_cons]

variable {path : Str} {children : List (Str × Entry)}

theorem mem_iterFilePaths_sortNodes {nodes : List FileTreeNode} :
    path ∈ iterFilePaths (sortNodes nodes) ↔ ∃ n ∈ nodes, path ∈ n.paths := by
  rw [iterFilePaths_eq, mem_flatMap]
  simp only [sortNodes, mem_sortBy]

theorem mem_childNodes {names : List Str} {n : FileTreeNode}
    (h : ∀ c ∈ children, isIgnored c.1 = false) :
    n ∈ childNodes children names ↔ ∃ c ∈ children, n = c.2.node c.1 (names ++ [c.1]) := by
  induction children with
  | nil => simp only [childNodes, not_mem_nil, false_and, exists_false]
  | cons c children ih =>
    rw [forall_mem_cons] at h
    rw [childNodes, h.1, if_neg Bool.false_ne_true, mem_cons, ih h.2,
      exists_mem_cons_iff]

/-- The node of an entry has the path of every file below it. -/
theorem mem_node_paths {e : Entry} (he : e.Ordinary) (name : Str) (names : List Str) :
    path ∈ (e.node name names).paths ↔ ∃ f ∈ e.files, path = writtenPath (names ++ f.1) := by
  induction e using Entry.rec_mem generalizing name names with
  | file content =>
    have hne : writtenPath names ≠ [] := cons_ne_nil _ _
    rw [Entry.node, FileTreeNode.paths, if_neg hne, Entry.files]
    simp
  | directory children ih =>
    rw [Entry.Ordinary, ordinaryAll_iff] at he
    rw [Entry.node, FileTreeNode.paths, mem_iterFilePaths_sortNodes, Entry.files]
    simp only [mem_childNodes (fun c hc => (he.2 c hc).1.kept), mem_filesAll]
    constructor
    · rintro ⟨n, ⟨c, hc, rfl⟩, hpath⟩
      rcases (ih c hc (he.2 c hc).2 c.1 (names ++ [c.1])).mp hpath with ⟨f, hf, hwritten⟩
      refine ⟨(c.1 :: f.1, f.2), ⟨c, hc, f.1, hf, rfl⟩, ?_⟩
      rw [hwritten, append_assoc, singleton_append]
    · rintro ⟨f, ⟨c, hc, p, hp, hf⟩, hwritten⟩
      refine ⟨_, ⟨c, hc, rfl⟩, ?_⟩
      refine (ih c hc (he.2 c hc).2 c.1 (names ++ [c.1])).mpr ⟨(p, f.2), hp, ?_⟩
      rw [hwritten, hf, append_assoc, singleton_append]

/-- The file tree has the path of every file. -/
theorem mem_paths (h : (Entry.directory children).Ordinary) :
    path ∈ iterFilePaths (buildTree children) ↔
      ∃ f ∈ filesAll children, path = writtenPath f.1 := by
  have hnode : path ∈ ((Entry.directory children).node [] []).paths ↔ _ :=
    mem_node_paths h [] []
  rw [Entry.node, FileTreeNode.paths, Entry.files] at hnode
  simpa [buildTree] using hnode

end Parsing

section Opening

/-- What there is at a path, as `os.open` and `os.fstat` tell it. -/
inductive Opened where
  | regular (content : List UInt8)
  | directory
  | missing
  | notDirectory
  deriving DecidableEq, Repr

def Entry.lookup : Entry → List Str → Opened
  | .file content, [] => .regular content
  | .directory _, [] => .directory
  | .file _, _ :: _ => .notDirectory
  | .directory children, name :: names =>
    match children.find? (fun c => c.1 = name) with
    | some c => c.2.lookup names
    | none => .missing

variable {children : List (Str × Entry)} {e : Entry} {f : List Str × List UInt8}

theorem find_child (hn : (children.map (·.1)).Nodup) {name : Str} {c : Str × Entry} :
    children.find? (fun c => c.1 = name) = some c ↔ c ∈ children ∧ c.1 = name :=
  Rows.find?_eq_some hn

/-- The files of a tree are what can be opened. -/
theorem lookup_eq_file (he : e.Ordinary) {names : List Str} {content : List UInt8} :
    e.lookup names = .regular content ↔ (names, content) ∈ e.files := by
  induction names generalizing e with
  | nil =>
    cases e with
    | file content' =>
      rw [Entry.lookup, Entry.files, mem_singleton]
      simp [Opened.regular.injEq, eq_comm]
    | directory children =>
      rw [Entry.lookup, Entry.files, mem_filesAll]
      refine iff_of_false (fun h => by cases h) ?_
      rintro ⟨c, _, p, _, h⟩
      cases h
  | cons name names ih =>
    cases e with
    | file content' =>
      rw [Entry.lookup, Entry.files, mem_singleton]
      exact iff_of_false (fun h => by cases h) (fun h => by cases h)
    | directory children =>
      rw [Entry.Ordinary, ordinaryAll_iff] at he
      rw [Entry.lookup, Entry.files, mem_filesAll]
      cases hfind : children.find? (fun c => c.1 = name) with
      | none =>
        refine iff_of_false (fun h => by cases h) ?_
        rintro ⟨c, hc, p, _, h⟩
        have hname : c.1 = name := (List.cons.inj h).1.symm
        rw [(find_child he.1).mpr ⟨hc, hname⟩] at hfind
        cases hfind
      | some c =>
        rcases (find_child he.1).mp hfind with ⟨hc, hname⟩
        simp only [ih (he.2 c hc).2]
        constructor
        · exact fun h => ⟨c, hc, names, h, by rw [hname]⟩
        · rintro ⟨d, hd, p, hp, h⟩
          rcases List.cons.inj h with ⟨hdname, hnames⟩
          have hsame : d = c := Rows.eq_of_key_eq he.1 hd hc (hdname.symm.trans hname.symm)
          rw [hnames, ← hsame]
          exact hp

/-- One file at most is found under each list of names. -/
theorem nodup_files (he : e.Ordinary) : (e.files.map (·.1)).Nodup := by
  induction e using Entry.rec_mem with
  | file content => exact nodup_singleton _
  | directory children ih =>
    rw [Entry.Ordinary, ordinaryAll_iff] at he
    rw [Entry.files, filesAll_eq, map_flatMap, nodup_flatMap]
    refine ⟨fun c hc => ?_, ?_⟩
    · rw [map_map]
      have hcomp : ((·.1) ∘ fun f : List Str × List UInt8 => (c.1 :: f.1, f.2))
          = (fun p => c.1 :: p) ∘ (·.1) := rfl
      rw [hcomp, ← map_map]
      exact (ih c hc (he.2 c hc).2).map (cons_injective)
    · -- Files below different children have different first names.
      refine (pairwise_map.mp he.1).imp (fun {c d} hne => ?_)
      intro p hp hp'
      rcases mem_map.mp hp with ⟨f, hf, rfl⟩
      rcases mem_map.mp hf with ⟨g, _, rfl⟩
      rcases mem_map.mp hp' with ⟨f', hf', heq⟩
      rcases mem_map.mp hf' with ⟨g', _, rfl⟩
      exact hne (List.cons.inj heq).1.symm

/-- The names that lead to a file are ordinary. -/
theorem ordinary_names (he : e.Ordinary) (hf : f ∈ e.files) : ∀ name ∈ f.1, OrdinaryName name := by
  induction e using Entry.rec_mem generalizing f with
  | file content =>
    rw [Entry.files, mem_singleton] at hf
    rw [hf]
    exact fun name h => absurd h not_mem_nil
  | directory children ih =>
    rw [Entry.Ordinary, ordinaryAll_iff] at he
    rw [Entry.files, mem_filesAll] at hf
    rcases hf with ⟨c, hc, p, hp, hnames⟩
    rw [hnames]
    intro name hname
    rcases mem_cons.mp hname with rfl | hname
    · exact (he.2 c hc).1
    · exact ih c hc (he.2 c hc).2 hp name hname

theorem names_ne_nil (hf : f ∈ filesAll children) : f.1 ≠ [] := by
  rcases mem_filesAll.mp hf with ⟨c, _, p, _, hnames⟩
  rw [hnames]
  exact cons_ne_nil _ _

end Opening

end Analysis

end Partha
