import Mathlib.Data.List.Perm.Basic
import Partha.Analysis.SourceTree
import Partha.Library.Checked

/-!
# Streaming a Stored Manifest

`RepositorySourceStream` reads the files of a repository again, by the paths of
the file tree that the parser wrote.

Each path goes through `normalize_repo_path` before it is opened. A path that is
refused there ends the whole stream. A path that comes out as another one opens
another file, or none, and a file that is not found counts as removed in the
meantime and is left out without a word. So the stream has every file exactly if
every path comes out as it went in.

The tree is unchanged, the budget is large enough, and nothing is cancelled.
`UnsafeSourcePath` ends the generator, after what it has yielded.

## Main definitions

* `manifestPath`: The path that is opened for a path of the file tree.
* `manifestPaths`: `_manifest_paths`.
* `stream`: What the generator yields, and the exception that ends it.
* `Faithful`: Every file is yielded once, under its own path.
* `Kept`: A path that normalization leaves alone.

## Theorems

* `manifestPath_written`: The paths that come out as they went in.
* `stream_faithful`: Every file is yielded exactly if every path is kept.
* `stream_loses`: A file that is left out, and one that ends the stream.
-/

namespace Partha

namespace Analysis

open List hiding splitOn
open Canonical Checked Extraction SortKeys

section Stream

/-- The reasons for `UnsafeSourcePath`. -/
inductive UnsafeSourcePath where
  | escapes (path : Str)
  | empty
  | unopenable (path : Str)
  | notRegular (path : Str)
  deriving DecidableEq, Repr

/-- One leading slash is the mark of the repository root. -/
def unmarked : Str → Str
  | '/' :: path => if path.head? = some '/' then '/' :: path else path
  | path => path

/-- `__iter__`, over the paths of the manifest. -/
def readAll (root : Entry) (maxFileBytes : Nat) :
    List Str → List (Str × List UInt8) × Option UnsafeSourcePath
  | [] => ([], none)
  | path :: paths =>
    match root.lookup (pathParts path) with
    -- Removed after ingestion.
    | .missing => readAll root maxFileBytes paths
    | .notDirectory => ([], some (.unopenable path))
    | .directory => ([], some (.notRegular path))
    | .regular content =>
      let rest := readAll root maxFileBytes paths
      ((path, content.take (maxFileBytes + 1)) :: rest.1, rest.2)

variable [Unicode]

/-- The normalized path of a path of the file tree. -/
def manifestPath (path : Str) : Except UnsafeSourcePath Str :=
  match normalizeRepoPath (unmarked path) with
  | .error _ => .error (.escapes path)
  | .ok normalized => if normalized = [] then .error .empty else .ok normalized

/-- `_manifest_paths`. -/
def manifestPaths (nodes : List FileTreeNode) : Except UnsafeSourcePath (List Str) :=
  sortedSet <$> collect manifestPath (iterFilePaths nodes)

/-- What the generator yields, and the exception that ends it. -/
def stream (root : Entry) (nodes : List FileTreeNode) (maxFileBytes : Nat) :
    List (Str × List UInt8) × Option UnsafeSourcePath :=
  match manifestPaths nodes with
  | .error e => ([], some e)
  | .ok paths => readAll root maxFileBytes paths

variable [Interpreter]

/-- Every file is yielded once, under its own path and with its own bytes, in the
    order of the paths, and nothing is raised. -/
def Faithful (children : List (Str × Entry)) (maxFileBytes : Nat) : Prop :=
  ∃ out, stream (.directory children) (buildTree children) maxFileBytes = (out, none) ∧
    out.Pairwise (fun a b => codePoints a.1 < codePoints b.1) ∧
    out.Perm ((filesAll children).map (fun f =>
      (joinWith '/' f.1, f.2.take (maxFileBytes + 1))))

omit [Interpreter] in
/-- A path without a backslash that is normalized text and does not start like a
    drive. -/
structure Kept (path : Str) : Prop where
  noBackslash : '\\' ∉ path
  normalized : nfc path = path
  noDrive : driveLike path = false

end Stream

section Reading

variable {root : Entry} {limit : Nat} {paths : List Str}

/-- Whatever is yielded was read at a path of the manifest. -/
theorem mem_readAll {x : Str × List UInt8} (h : x ∈ (readAll root limit paths).1) :
    x.1 ∈ paths ∧ ∃ content, root.lookup (pathParts x.1) = .regular content ∧
      x.2 = content.take (limit + 1) := by
  induction paths with
  | nil => cases h
  | cons path paths ih =>
    unfold readAll at h
    cases hlook : root.lookup (pathParts path) with
    | missing =>
      simp only [hlook] at h
      exact (ih h).imp_left (mem_cons_of_mem path)
    | notDirectory | directory =>
      simp only [hlook] at h
      cases h
    | regular content =>
      simp only [hlook] at h
      rcases mem_cons.mp h with rfl | h
      · exact ⟨mem_cons_self, content, hlook, rfl⟩
      · exact (ih h).imp_left (mem_cons_of_mem path)

/-- If there is a file at every path, all of them are yielded. -/
theorem readAll_regular
    (h : ∀ path ∈ paths, ∃ content, root.lookup (pathParts path) = .regular content) :
    (readAll root limit paths).1.map (·.1) = paths ∧ (readAll root limit paths).2 = none := by
  induction paths with
  | nil => exact ⟨rfl, rfl⟩
  | cons path paths ih =>
    rw [forall_mem_cons] at h
    rcases h.1 with ⟨content, hlook⟩
    have hrest := ih h.2
    unfold readAll
    simp [hlook, hrest.1, hrest.2]

end Reading

section Paths

variable {names : List Str}

theorem splitOn_names (h : ∀ name ∈ names, OrdinaryName name) (hne : names ≠ []) :
    splitOn '/' (joinWith '/' names) = names :=
  splitOn_joinWith (fun name hname => (h name hname).noSlash) hne

/-- The path of a file is taken apart into its names again. -/
theorem pathParts_names (h : ∀ name ∈ names, OrdinaryName name) (hne : names ≠ []) :
    pathParts (joinWith '/' names) = names := by
  rw [pathParts, splitOn_names h hne, filter_eq_self]
  intro name hname
  have hplain := (h name hname).plain
  exact decide_eq_true ⟨hplain.nonempty, hplain.noDot⟩

theorem joinWith_ne_nil (h : ∀ name ∈ names, OrdinaryName name) (hne : names ≠ []) :
    joinWith '/' names ≠ [] := by
  intro e
  have hsplit := splitOn_names h hne
  rw [e, splitOn] at hsplit
  rw [← hsplit] at h
  exact (h [] (mem_singleton_self [])).plain.nonempty rfl

variable {path p : Str}

theorem unmarked_cons (h : path.head? ≠ some '/') : unmarked ('/' :: path) = path := by
  rw [unmarked, if_neg h]

variable [Unicode]

/-- A path that is kept is in normal form, with the names of the file as its segments. -/
theorem Kept.repoPath (hk : Kept (joinWith '/' names)) (h : ∀ name ∈ names, OrdinaryName name)
    (hne : names ≠ []) : RepoPath (joinWith '/' names) names := by
  refine ⟨rfl, fun name hname => (h name hname).plain, ?_⟩
  have hseg := nfc_segments hk.normalized
  rw [foldBackslashes_self hk.noBackslash, splitOn_names h hne] at hseg
  exact hseg

/-- Such a path comes out as it went in. -/
theorem manifestPath_written (hk : Kept (joinWith '/' names))
    (h : ∀ name ∈ names, OrdinaryName name) (hne : names ≠ []) :
    manifestPath (writtenPath names) = .ok (joinWith '/' names) := by
  have hrepo := hk.repoPath h hne
  have hnorm := hrepo.normalize
  rw [hk.noDrive, if_neg Bool.false_ne_true] at hnorm
  unfold manifestPath
  rw [writtenPath, foldBackslashes_self hk.noBackslash, unmarked_cons hrepo.head_ne]
  simp only [hnorm, if_neg (joinWith_ne_nil h hne)]

theorem manifestPath_eq_ok (h : manifestPath path = .ok p) :
    normalizeRepoPath (unmarked path) = .ok p := by
  unfold manifestPath at h
  cases hnorm : normalizeRepoPath (unmarked path) with
  | error e =>
    simp only [hnorm] at h
    cases h
  | ok q =>
    simp only [hnorm] at h
    split at h
    · cases h
    · rw [Except.ok.inj h]

/-- A path that comes out of normalization somewhere is kept, if it is not refused itself. -/
theorem kept_of_manifestPath {other : Str} (hother : manifestPath other = .ok path)
    (hpath : manifestPath ('/' :: foldBackslashes path) = .ok p) : Kept path := by
  rcases normalizeRepoPath_plain (manifestPath_eq_ok hother) with ⟨segments, hrepo, _⟩
  have hnorm := manifestPath_eq_ok hpath
  rw [foldBackslashes_self hrepo.not_backslash, unmarked_cons hrepo.head_ne, hrepo.normalize]
    at hnorm
  refine ⟨hrepo.not_backslash, hrepo.nfc_eq, ?_⟩
  cases hdrive : driveLike path with
  | false => rfl
  | true =>
    rw [hdrive, if_pos rfl] at hnorm
    cases hnorm

end Paths

section Files

variable {children : List (Str × Entry)} {limit : Nat}

/-- The files of a tree have different paths. -/
theorem nodup_paths (ho : (Entry.directory children).Ordinary) :
    ((filesAll children).map (fun f => joinWith '/' f.1)).Nodup := by
  have hcomp : (fun f : List Str × List UInt8 => joinWith '/' f.1) = joinWith '/' ∘ (·.1) := rfl
  rw [hcomp, ← map_map]
  refine List.Nodup.map_on ?_ (nodup_files ho)
  intro names hnames names' hnames' heq
  rcases mem_map.mp hnames with ⟨f, hf, rfl⟩
  rcases mem_map.mp hnames' with ⟨f', hf', rfl⟩
  rw [← splitOn_names (ordinary_names ho hf) (names_ne_nil hf), heq,
    splitOn_names (ordinary_names ho hf') (names_ne_nil hf')]

variable {f : List Str × List UInt8}

/-- Opening the path of a file gives its bytes. -/
theorem lookup_path (ho : (Entry.directory children).Ordinary) (hf : f ∈ filesAll children) :
    (Entry.directory children).lookup (pathParts (joinWith '/' f.1)) = .regular f.2 := by
  rw [pathParts_names (ordinary_names ho hf) (names_ne_nil hf), lookup_eq_file ho]
  exact hf

/-- What is read at the paths of all files are the files. -/
theorem readAll_files (ho : (Entry.directory children).Ordinary) {paths : List Str}
    (hnodup : paths.Nodup)
    (hmem : ∀ path, path ∈ paths ↔ ∃ f ∈ filesAll children, path = joinWith '/' f.1) :
    (readAll (.directory children) limit paths).2 = none ∧
      (readAll (.directory children) limit paths).1.map (·.1) = paths ∧
      (readAll (.directory children) limit paths).1.Perm
        ((filesAll children).map (fun f => (joinWith '/' f.1, f.2.take (limit + 1)))) := by
  have hregular : ∀ path ∈ paths,
      ∃ content, (Entry.directory children).lookup (pathParts path) = .regular content := by
    intro path hpath
    rcases (hmem path).mp hpath with ⟨f, hf, rfl⟩
    exact ⟨f.2, lookup_path ho hf⟩
  rcases readAll_regular hregular with ⟨hkeys, hend⟩
  -- A pair that is yielded has the bytes of the file whose path it has.
  have hbytes : ∀ x ∈ (readAll (.directory children) limit paths).1, ∀ f ∈ filesAll children,
      x.1 = joinWith '/' f.1 → x = (joinWith '/' f.1, f.2.take (limit + 1)) := by
    intro x hx f hf hname
    rcases mem_readAll hx with ⟨_, content, hlook, hcontent⟩
    rw [hname, lookup_path ho hf] at hlook
    refine Prod.ext hname ?_
    rw [hcontent, Opened.regular.inj hlook]
  refine ⟨hend, hkeys, ?_⟩
  have hout : (readAll (.directory children) limit paths).1.Nodup := by
    refine List.Nodup.of_map (·.1) ?_
    rw [hkeys]
    exact hnodup
  have hfiles : ((filesAll children).map (fun f =>
      (joinWith '/' f.1, f.2.take (limit + 1)))).Nodup := by
    refine List.Nodup.of_map (·.1) ?_
    rw [map_map]
    exact nodup_paths ho
  rw [perm_ext_iff_of_nodup hout hfiles]
  intro x
  rw [mem_map]
  constructor
  · intro hx
    rcases (hmem x.1).mp (mem_readAll hx).1 with ⟨f, hf, hname⟩
    exact ⟨f, hf, (hbytes x hx f hf hname).symm⟩
  · rintro ⟨f, hf, rfl⟩
    have hpath : joinWith '/' f.1 ∈ paths := (hmem _).mpr ⟨f, hf, rfl⟩
    rw [← hkeys] at hpath
    rcases mem_map.mp hpath with ⟨x, hx, hname⟩
    rw [← hbytes x hx f hf hname]
    exact hx

variable [Unicode] [Interpreter]

/-- Every path of the manifest is the path of a file, if all are kept. -/
theorem manifestPaths_kept (ho : (Entry.directory children).Ordinary)
    (hk : ∀ f ∈ filesAll children, Kept (joinWith '/' f.1)) :
    ∃ paths, manifestPaths (buildTree children) = .ok paths ∧
      paths.Pairwise (fun a b => codePoints a < codePoints b) ∧
      ∀ path, path ∈ paths ↔ ∃ f ∈ filesAll children, path = joinWith '/' f.1 := by
  have hwritten : ∀ f ∈ filesAll children,
      manifestPath (writtenPath f.1) = .ok (joinWith '/' f.1) := fun f hf =>
    manifestPath_written (hk f hf) (ordinary_names ho hf) (names_ne_nil hf)
  have hall : ∀ path ∈ iterFilePaths (buildTree children), ∃ p, manifestPath path = .ok p := by
    intro path hpath
    rcases (mem_paths ho).mp hpath with ⟨f, hf, rfl⟩
    exact ⟨_, hwritten f hf⟩
  rcases collect_ok_iff.mpr hall with ⟨out, hout⟩
  refine ⟨sortedSet out, map_eq_ok.mpr ⟨out, hout, rfl⟩, pairwise_sortedSet out, fun path => ?_⟩
  rw [mem_sortedSet, mem_collect hout]
  constructor
  · rintro ⟨raw, hraw, hok⟩
    rcases (mem_paths ho).mp hraw with ⟨f, hf, rfl⟩
    rw [hwritten f hf] at hok
    exact ⟨f, hf, (Except.ok.inj hok).symm⟩
  · rintro ⟨f, hf, rfl⟩
    exact ⟨writtenPath f.1, (mem_paths ho).mpr ⟨f, hf, rfl⟩, hwritten f hf⟩

theorem faithful_of_kept (ho : (Entry.directory children).Ordinary)
    (hk : ∀ f ∈ filesAll children, Kept (joinWith '/' f.1)) : Faithful children limit := by
  rcases manifestPaths_kept ho hk with ⟨paths, hpaths, hsorted, hmem⟩
  have hnodup : paths.Nodup := hsorted.imp (fun h e => absurd h (by rw [e]; exact lt_irrefl _))
  rcases readAll_files ho hnodup hmem with ⟨hend, hkeys, hperm⟩
  refine ⟨(readAll (.directory children) limit paths).1, ?_, ?_, hperm⟩
  · unfold stream
    simp only [hpaths]
    rw [← hend]
  · rw [← hkeys] at hsorted
    have hpairs := pairwise_map.mp hsorted
    exact hpairs

theorem kept_of_faithful (ho : (Entry.directory children).Ordinary) (h : Faithful children limit)
    (hf : f ∈ filesAll children) : Kept (joinWith '/' f.1) := by
  rcases h with ⟨out, hstream, _, hperm⟩
  unfold stream at hstream
  cases hpaths : manifestPaths (buildTree children) with
  | error e =>
    simp only [hpaths] at hstream
    cases (Prod.mk.inj hstream).2
  | ok paths =>
    simp only [hpaths] at hstream
    rcases map_eq_ok.mp hpaths with ⟨manifest, hcollect, rfl⟩
    -- The path of the file is in the manifest, where it came out of normalization.
    have hx : (joinWith '/' f.1, f.2.take (limit + 1)) ∈ out :=
      hperm.mem_iff.mpr (mem_map_of_mem hf)
    have hread : (joinWith '/' f.1, f.2.take (limit + 1)) ∈
        (readAll (.directory children) limit (sortedSet manifest)).1 := by
      rw [hstream]
      exact hx
    have hin : joinWith '/' f.1 ∈ manifest := mem_sortedSet.mp (mem_readAll hread).1
    rcases (mem_collect hcollect).mp hin with ⟨raw, _, hraw⟩
    -- What the parser wrote down for the file went through normalization, too.
    have hwritten : writtenPath f.1 ∈ iterFilePaths (buildTree children) :=
      (mem_paths ho).mpr ⟨f, hf, rfl⟩
    rcases collect_ok_iff.mp ⟨manifest, hcollect⟩ _ hwritten with ⟨p, hp⟩
    exact kept_of_manifestPath hraw hp

/-- Every file is yielded, exactly once and under its own path, exactly if every
    path is kept by normalization. -/
theorem stream_faithful (ho : (Entry.directory children).Ordinary) :
    Faithful children limit ↔ ∀ f ∈ filesAll children, Kept (joinWith '/' f.1) :=
  ⟨fun h _ hf => kept_of_faithful ho h hf, faithful_of_kept ho⟩

end Files

section Examples

local instance streamUnicode : Unicode := asciiText

local instance streamInterpreter : Interpreter := cpython

/-- A repository of one directory and two files. -/
def smallRepository : List (Str × Entry) :=
  [("src".toList, .directory [("a.py".toList, .file [1, 2, 3])]), ("README".toList, .file [4])]

/-- A repository of one file. -/
def oneFile (name : Str) : List (Str × Entry) :=
  [(name, .file [1])]

theorem oneFile_ordinary {name : Str} (h : OrdinaryName name) :
    (Entry.directory (oneFile name)).Ordinary :=
  ⟨nodup_singleton name, h, trivial, trivial⟩

theorem stream_faithful_small : Faithful smallRepository 1 := by
  have ho : (Entry.directory smallRepository).Ordinary :=
    ⟨by decide, ⟨⟨by decide, by decide, by decide⟩, by decide, by decide, by decide⟩,
      ⟨by decide, ⟨⟨by decide, by decide, by decide⟩, by decide, by decide, by decide⟩,
        trivial, trivial⟩,
      ⟨⟨by decide, by decide, by decide⟩, by decide, by decide, by decide⟩, trivial, trivial⟩
  refine (stream_faithful ho).mpr (fun f hf => ?_)
  have hcases : f = (["src".toList, "a.py".toList], [1, 2, 3]) ∨ f = (["README".toList], [4]) := by
    rcases mem_cons.mp hf with h | h
    · exact .inl h
    · exact .inr (mem_singleton.mp h)
  rcases hcases with rfl | rfl
  · exact ⟨by decide, rfl, by decide⟩
  · exact ⟨by decide, rfl, by decide⟩

/-- The file `a\b.py` is left out without a word, and the file `C:x` ends the
    stream. Both are ordinary names. -/
theorem stream_loses :
    ((Entry.directory (oneFile "a\\b.py".toList)).Ordinary ∧
        stream (.directory (oneFile "a\\b.py".toList)) (buildTree (oneFile "a\\b.py".toList)) 1
          = ([], none) ∧
        ¬ Faithful (oneFile "a\\b.py".toList) 1) ∧
      (Entry.directory (oneFile "C:x".toList)).Ordinary ∧
        stream (.directory (oneFile "C:x".toList)) (buildTree (oneFile "C:x".toList)) 1
          = ([], some (.escapes "/C:x".toList)) := by
  have hname : OrdinaryName "a\\b.py".toList :=
    ⟨⟨by decide, by decide, by decide⟩, by decide, by decide, by decide⟩
  have hlost : stream (.directory (oneFile "a\\b.py".toList))
      (buildTree (oneFile "a\\b.py".toList)) 1 = ([], none) := by decide
  refine ⟨⟨oneFile_ordinary hname, hlost, ?_⟩, oneFile_ordinary ?_, by decide⟩
  · rintro ⟨out, hout, _, hperm⟩
    rw [hlost] at hout
    rw [← (Prod.mk.inj hout).1] at hperm
    exact absurd hperm.length_eq (by decide)
  · exact ⟨⟨by decide, by decide, by decide⟩, by decide, by decide, by decide⟩

end Examples

end Analysis

end Partha
