import Mathlib.Data.List.TakeWhile
import Partha.Resolution.Resolver

/-!
# Relative Imports

The files that a relative import may name, for the two conventions that
`_relative_file_candidates` reads.

A Python specifier climbs one directory for each dot after the first. Climbing is
`posixpath.dirname`, and the directory of the root is the root again, so a specifier with too
many dots names files in the root instead of none. A specifier with slashes is resolved by
`posixpath.normpath`, which keeps the `..` that leave the root, and drops a slash at the end,
so a specifier that names a directory is also looked for as a file beside it.

## Main definitions

* `SourcePath`, `DottedSpecifier`, `PathSpecifier`: A file and the two kinds of specifiers.
* `DottedExact`: The candidates of a dotted specifier are those of its prefixes.
* `InNamedPlace`, `InNamedDirectory`: The candidates of a path are where it says.

## Theorems

* `dotted_candidates`: The candidates of a dotted specifier.
* `path_candidates`: The candidates of a path inside the repository.
* `leadsTo_dotted`, `leadsTo_path`: Where a specifier leads.
* `relative_candidates_exact`: When the candidates are what the specifier names.
-/

namespace Partha

namespace Resolution

open List hiding splitOn
open Canonical Extraction

section Specifiers

/-- A segment of a path. -/
structure Segment (s : Str) : Prop where
  plain : Plain s
  noSlash : '/' ∉ s

/-- A path of a file of the repository. -/
structure SourcePath where
  dirs : List Str
  name : Str
  dirs_segments : ∀ s ∈ dirs, Segment s
  name_segment : Segment name

def SourcePath.text (p : SourcePath) : Str :=
  joinWith '/' (p.dirs ++ [p.name])

/-- A relative specifier of Python: a dot, the dots that climb, and names with dots between. -/
structure DottedSpecifier where
  climbs : Nat
  names : List Str
  names_plain : ∀ s ∈ names, s ≠ [] ∧ '.' ∉ s ∧ '/' ∉ s

def DottedSpecifier.text (s : DottedSpecifier) : Str :=
  List.replicate (s.climbs + 1) '.' ++ joinWith '.' s.names

/-- A relative specifier of TypeScript, `./` or `../` and what follows. -/
structure PathSpecifier where
  up : Bool
  rest : Str

def PathSpecifier.text (s : PathSpecifier) : Str :=
  (if s.up then "../".toList else "./".toList) ++ s.rest

/-- The files that a module is looked for in. -/
def fileForms (root : Str) : List Str :=
  [".ts", ".tsx", ".py", "/index.ts", "/index.tsx", "/__init__.py"].map
    (fun suffix => root ++ suffix.toList)

/-- The candidates of the non-empty prefixes of a dotted specifier, in the directory that it
    climbs to. There are none if it climbs past the root. -/
def DottedExact (p : SourcePath) (s : DottedSpecifier) : Prop :=
  if s.climbs ≤ p.dirs.length then
    ∀ c, c ∈ relativeFileCandidates s.text p.text ↔ ∃ count, 0 < count ∧ count ≤ s.names.length ∧
      c ∈ fileForms (joinWith '/' (p.dirs.take (p.dirs.length - s.climbs) ++ s.names.take count))
  else relativeFileCandidates s.text p.text = []

/-- The segments that a path names, if it does not leave the repository. -/
def namedBy (p : SourcePath) (s : PathSpecifier) : Option (List Str) :=
  match Canonical.resolve [] (p.dirs ++ splitOn '/' s.text) with
  | .ok resolved => some resolved.reverse
  | .error _ => none

/-- A path of a file in a directory of the repository. -/
def FileIn (directory : List Str) (path : Str) : Prop :=
  ∃ name, pathParts path = directory ++ [name] ∧ ∀ s ∈ directory ++ [name], s ≠ ['.', '.']

/-- A candidate stands where the specifier says: beside what it names, or in it. -/
def InNamedPlace (p : SourcePath) (s : PathSpecifier) : Prop :=
  ∀ c ∈ relativeFileCandidates s.text p.text, ∃ named, namedBy p s = some named ∧
    (FileIn named c ∨ FileIn named.dropLast c)

/-- A path that ends in a name, and not with a slash or with dots. -/
def EndsInName (s : PathSpecifier) : Prop :=
  ∀ last ∈ (splitOn '/' s.text).getLast?, Plain last

/-- The same, where a specifier that ends with a slash or with dots names a directory. -/
def InNamedDirectory (p : SourcePath) (s : PathSpecifier) : Prop :=
  ∀ c ∈ relativeFileCandidates s.text p.text, ∃ named, namedBy p s = some named ∧
    (FileIn named c ∨ EndsInName s ∧ FileIn named.dropLast c)

/-- `FileIn`, computed. -/
def standsIn (directory : List Str) (path : Str) : Bool :=
  pathParts path ≠ [] && (pathParts path).dropLast = directory &&
    (pathParts path).all (fun s => s ≠ ['.', '.'])

/-- Where a specifier leads, whatever it is. One that is not relative leads anywhere. Dots lead to
    a directory of the repository, if there are enough above the file. A path leads to what it
    names or, if it ends in a name, beside that. -/
def leadsTo (specifier sourcePath path : Str) : Bool :=
  let dirs := (splitOn '/' sourcePath).dropLast
  let leading := (specifier.takeWhile (fun c => c = '.')).length
  if leading = 0 then true
  else if (specifier.drop leading).head? = some '/' then
    match Canonical.resolve [] (dirs ++ splitOn '/' specifier) with
    | .ok resolved =>
      standsIn resolved.reverse path ||
        (splitOn '/' specifier).getLast?.all
            (fun last => last ≠ [] && last ≠ ['.'] && last ≠ ['.', '.']) &&
          standsIn resolved.reverse.dropLast path
    | .error _ => false
  else leading - 1 ≤ dirs.length

end Specifiers

section Paths

variable {segments : List Str} {s : Str}

theorem joinWith_ne_nil (h : ∀ s ∈ segments, Segment s) (hne : segments ≠ []) :
    joinWith '/' segments ≠ [] := by
  cases segments with
  | nil => exact absurd rfl hne
  | cons s segments =>
    have hs := (h s mem_cons_self).plain.nonempty
    cases segments with
    | nil => exact hs
    | cons t segments =>
      rw [joinWith]
      exact append_ne_nil_of_left_ne_nil hs _

/-- What is before the last slash, with it. -/
theorem dropWhile_last {head : Str} (hs : '/' ∉ s) :
    ((head ++ '/' :: s).reverse.dropWhile (fun c => decide (c ≠ '/'))).reverse = head ++ ['/'] := by
  have hpass : ∀ c ∈ s.reverse, decide (c ≠ '/') = true := by
    intro c hc
    exact decide_eq_true (fun e => hs (e ▸ mem_reverse.mp hc))
  have hreverse : (head ++ '/' :: s).reverse = s.reverse ++ '/' :: head.reverse := by
    simp
  rw [hreverse, dropWhile_append_of_pos hpass, dropWhile_cons_of_neg (by decide)]
  simp

theorem dropWhile_free (hs : '/' ∉ s) :
    (s.reverse.dropWhile (fun c => decide (c ≠ '/'))).reverse = [] := by
  have hnil : s.reverse.dropWhile (fun c => decide (c ≠ '/')) = [] := by
    refine dropWhile_eq_nil_iff.mpr (fun c hc => ?_)
    exact decide_eq_true (fun e => hs (e ▸ mem_reverse.mp hc))
  rw [hnil]
  rfl

/-- The last segment of a path of segments does not end with a slash. -/
theorem getLast?_joinWith_ne (h : ∀ s ∈ segments, Segment s) :
    (joinWith '/' segments).getLast? ≠ some '/' := by
  cases hlast : segments.getLast? with
  | none =>
    rw [List.getLast?_eq_none_iff.mp hlast]
    exact (Option.some_ne_none _).symm
  | some s =>
    rcases List.getLast?_eq_some_iff.mp hlast with ⟨start, rfl⟩
    have hs := h s (mem_append_right _ (mem_singleton_self s))
    have hend : ∀ head : Str, (head ++ s).getLast? ≠ some '/' := by
      intro head hc
      rw [List.getLast?_append_of_ne_nil _ hs.plain.nonempty] at hc
      exact hs.noSlash (mem_of_getLast? hc)
    cases start with
    | nil => exact hend []
    | cons t start =>
      rw [joinWith_concat (cons_ne_nil t start)]
      have hsplit : joinWith '/' (t :: start) ++ '/' :: s =
          (joinWith '/' (t :: start) ++ ['/']) ++ s := by
        rw [append_assoc, singleton_append]
      rw [hsplit]
      exact hend _

/-- The directory of a path is what is before its last segment. -/
theorem dirname_joinWith (h : ∀ s ∈ segments, Segment s) (hs : Segment s) :
    dirname (joinWith '/' (segments ++ [s])) = joinWith '/' segments := by
  cases segments with
  | nil =>
    have hnil := dropWhile_free hs.noSlash
    have hone : joinWith '/' [s] = s := rfl
    unfold dirname
    simp only [nil_append, hone, hnil, all_nil, if_true]
    rfl
  | cons t segments =>
    have hne := joinWith_ne_nil h (cons_ne_nil t segments)
    have hlast := getLast?_joinWith_ne h
    rw [joinWith_concat (cons_ne_nil t segments)]
    generalize joinWith '/' (t :: segments) = head at hne hlast
    have hkeep : head.reverse.dropWhile (fun c => decide (c = '/')) = head.reverse := by
      cases hr : head.reverse with
      | nil => rfl
      | cons c r =>
        refine dropWhile_cons_of_neg ?_
        rw [decide_eq_true_eq]
        intro hc
        rw [← reverse_reverse head, hr, hc, List.getLast?_reverse] at hlast
        exact hlast rfl
    have hall : ¬ (head ++ ['/']).all (fun c => decide (c = '/')) = true := by
      intro hall
      rcases exists_mem_of_ne_nil _ hne with ⟨c, hc⟩
      have hslash : ∀ d ∈ head, d = '/' := fun d hd =>
        of_decide_eq_true (all_eq_true.mp hall d (mem_append_left _ hd))
      have hget := List.getLast?_eq_getLast_of_ne_nil hne
      rw [hslash _ (getLast_mem hne)] at hget
      exact hlast hget
    unfold dirname
    rw [dropWhile_last hs.noSlash]
    simp only [hall, Bool.false_eq_true, if_false, reverse_append, reverse_singleton,
      singleton_append]
    rw [dropWhile_cons_of_pos (by decide), hkeep, reverse_reverse]

end Paths

section Dotted

variable {dirs : List Str} (p : SourcePath) (s : DottedSpecifier)

/-- Climbing takes the last directories off, and stops at the root. -/
theorem climb_joinWith (h : ∀ s ∈ dirs, Segment s) (count : Nat) :
    (List.range count).foldl (fun d _ => dirname d) (joinWith '/' dirs) =
      joinWith '/' (dirs.take (dirs.length - count)) := by
  have hroot : dirname [] = [] := rfl
  induction count with
  | zero => rw [range_zero, foldl_nil, Nat.sub_zero, take_length]
  | succ count ih =>
    rw [range_succ, foldl_append, ih, foldl_cons, foldl_nil]
    by_cases hlt : count < dirs.length
    · have hsplit : dirs.take (dirs.length - count) =
          dirs.take (dirs.length - (count + 1)) ++ [dirs[dirs.length - (count + 1)]] := by
        rw [← take_succ_eq_append_getElem]
        congr 1
        omega
      rw [hsplit]
      exact dirname_joinWith (fun s hs => h s (mem_of_mem_take hs))
        (h _ (getElem_mem _))
    · have hzero : dirs.length - count = 0 := by omega
      have hzero' : dirs.length - (count + 1) = 0 := by omega
      rw [hzero, hzero', take_zero]
      exact hroot

variable {name last suffix : Str} {segments : List Str}

/-- Joining a segment to a path of segments. -/
theorem joinPath_joinWith (h : ∀ s ∈ dirs, Segment s) (hname : name.head? ≠ some '/') :
    joinPath (joinWith '/' dirs) name = joinWith '/' (dirs ++ [name]) := by
  rw [joinPath, if_neg hname]
  cases dirs with
  | nil => exact if_pos (.inl rfl)
  | cons t dirs =>
    rw [if_neg (not_or.mpr ⟨joinWith_ne_nil h (cons_ne_nil t dirs),
      getLast?_joinWith_ne h⟩), joinWith_concat (cons_ne_nil t dirs)]

theorem head?_ne_slash (h : '/' ∉ name) : name.head? ≠ some '/' :=
  fun e => h (mem_of_head? e)

theorem segment_of_name (h : name ≠ [] ∧ '.' ∉ name ∧ '/' ∉ name) : Segment name where
  plain :=
    { nonempty := h.1
      noDot := fun e => h.2.1 (by rw [e]; exact mem_singleton_self _)
      noDots := fun e => h.2.1 (by rw [e]; exact mem_cons_self) }
  noSlash := h.2.2

/-- Joining all names of a prefix. -/
theorem foldl_joinPath {names : List Str} (h : ∀ s ∈ dirs, Segment s)
    (hnames : ∀ s ∈ names, Segment s) :
    names.foldl joinPath (joinWith '/' dirs) = joinWith '/' (dirs ++ names) := by
  induction names generalizing dirs with
  | nil => rw [foldl_nil, append_nil]
  | cons name names ih =>
    have hname := hnames name mem_cons_self
    have hall : ∀ s ∈ dirs ++ [name], Segment s := by
      intro s hs
      rcases mem_append.mp hs with hs | hs
      · exact h s hs
      · rw [mem_singleton.mp hs]
        exact hname
    rw [foldl_cons, joinPath_joinWith h (head?_ne_slash hname.noSlash),
      ih hall (fun s hs => hnames s (mem_cons_of_mem _ hs)), append_assoc,
      singleton_append]

/-- What stands before a suffix without a slash ends as the last segment does. -/
theorem suffix_of_last (hslash : '/' ∉ suffix) (h : suffix <:+ joinWith '/' (segments ++ [last])) :
    suffix <:+ last := by
  cases segments with
  | nil => exact h
  | cons t segments =>
    rw [joinWith_concat (cons_ne_nil t segments)] at h
    have hend : last <:+ joinWith '/' (t :: segments) ++ '/' :: last :=
      ⟨joinWith '/' (t :: segments) ++ ['/'], by rw [append_assoc, singleton_append]⟩
    rcases suffix_or_suffix_of_suffix h hend with hshort | hlong
    · exact hshort
    · rcases hlong with ⟨start, hstart⟩
      cases hr : start.reverse with
      | nil =>
        rw [reverse_eq_nil_iff.mp hr, nil_append] at hstart
        exact ⟨[], hstart.symm⟩
      | cons c r =>
        have hc : start = r.reverse ++ [c] := by
          rw [← reverse_reverse start, hr, reverse_cons]
        have hcslash : c = '/' := by
          rcases h with ⟨before, hbefore⟩
          rw [← hstart, hc, append_assoc, singleton_append, ← append_assoc]
            at hbefore
          exact (List.cons.inj (append_inj_right' hbefore rfl)).1
        rw [hcslash] at hc
        refine absurd ?_ hslash
        rw [← hstart, hc]
        exact mem_append_left _ (mem_append_right _ (mem_singleton_self _))

/-- A name without a dot has no extension. -/
theorem endsWith_name (hlast : '.' ∉ last ∧ '/' ∉ last) (hdot : '.' ∈ suffix)
    (hslash : '/' ∉ suffix) : endsWith (joinWith '/' (segments ++ [last])) suffix = false := by
  rw [endsWith, ← Bool.not_eq_true, isSuffixOf_iff_suffix]
  intro h
  exact hlast.1 ((suffix_of_last hslash h).subset hdot)

/-- The dots of a specifier, and what follows them. -/
theorem dotted_split : (s.text.takeWhile (fun c => c = '.')).length = s.climbs + 1 ∧
    s.text.drop (s.climbs + 1) = joinWith '.' s.names := by
  have hdots : ∀ c ∈ List.replicate (s.climbs + 1) '.', decide (c = '.') = true := by
    intro c hc
    exact decide_eq_true (eq_of_mem_replicate hc)
  have hrest : (joinWith '.' s.names).takeWhile (fun c => decide (c = '.')) = [] := by
    have hplain := s.names_plain
    generalize s.names = names at hplain
    cases names with
    | nil => rfl
    | cons name names =>
      rcases hplain name mem_cons_self with ⟨hne, hdot, -⟩
      cases name with
      | nil => exact absurd rfl hne
      | cons c name =>
        have hc : ¬ decide (c = '.') = true := by
          rw [decide_eq_true_eq]
          exact fun e => hdot (by rw [e]; exact mem_cons_self)
        cases names with
        | nil => exact takeWhile_cons_of_neg hc
        | cons t names => exact takeWhile_cons_of_neg hc
  constructor
  · rw [DottedSpecifier.text, takeWhile_append_of_pos hdots, hrest, append_nil,
      length_replicate]
  · rw [DottedSpecifier.text]
    exact drop_left' length_replicate

/-- The names of a specifier are what stands between its dots. -/
theorem dotted_parts :
    (splitOn '.' (joinWith '.' s.names)).filter (fun part => decide (part ≠ [])) = s.names := by
  have hplain := s.names_plain
  generalize s.names = names at hplain
  cases names with
  | nil => rfl
  | cons name names =>
    rw [splitOn_joinWith (fun t ht => (hplain t ht).2.1) (cons_ne_nil name names)]
    exact filter_eq_self.mpr (fun t ht => decide_eq_true (hplain t ht).1)

theorem head?_dotted : (joinWith '.' s.names).head? ≠ some '/' := by
  refine head?_ne_slash (fun hmem => ?_)
  rcases mem_joinWith hmem with e | ⟨t, ht, hmem⟩
  · exact absurd e (by decide)
  · exact (s.names_plain t ht).2.2 hmem

/-- The candidates are those of the prefixes, in the directory where climbing stops. -/
theorem dotted_candidates :
    relativeFileCandidates s.text p.text =
      (List.range s.names.length).flatMap (fun k => fileForms (joinWith '/'
        (p.dirs.take (p.dirs.length - s.climbs) ++ s.names.take (s.names.length - k)))) := by
  have hsegments : ∀ t ∈ p.dirs.take (p.dirs.length - s.climbs), Segment t :=
    fun t ht => p.dirs_segments t (mem_of_mem_take ht)
  have hnames : ∀ t ∈ s.names, Segment t := fun t ht => segment_of_name (s.names_plain t ht)
  unfold relativeFileCandidates
  simp only [dotted_split s, if_neg (head?_dotted s), dotted_parts s, Nat.add_sub_cancel]
  rw [SourcePath.text, dirname_joinWith p.dirs_segments p.name_segment,
    climb_joinWith p.dirs_segments, flatMap_map]
  refine flatMap_congr (fun k hk => ?_)
  rw [foldl_joinPath hsegments (fun t ht => hnames t (mem_of_mem_take ht))]
  have hpos : 0 < s.names.length - k := by
    have hlt := mem_range.mp hk
    omega
  have hlast : ∃ start last, s.names.take (s.names.length - k) = start ++ [last] := by
    have hne : s.names.take (s.names.length - k) ≠ [] := by
      intro hnil
      have hlength := congrArg List.length hnil
      rw [length_take, length_nil] at hlength
      omega
    exact ⟨_, _, (dropLast_append_getLast hne).symm⟩
  rcases hlast with ⟨start, last, hsplit⟩
  have hplain : '.' ∉ last ∧ '/' ∉ last :=
    (s.names_plain last (mem_of_mem_take (hsplit ▸ mem_append_right _
      (mem_singleton_self last)))).2
  have hend : ∀ suffix : Str, '.' ∈ suffix → '/' ∉ suffix →
      endsWith (joinWith '/' (p.dirs.take (p.dirs.length - s.climbs) ++ (start ++ [last])))
        suffix = false := by
    intro suffix hdot hslash
    rw [← append_assoc]
    exact endsWith_name hplain hdot hslash
  rw [hsplit, hend _ (by decide) (by decide), hend _ (by decide) (by decide),
    hend _ (by decide) (by decide)]
  rfl

/-- The candidates are what the specifier names unless it climbs past the root. -/
theorem dottedExact_iff : DottedExact p s ↔ s.climbs ≤ p.dirs.length ∨ s.names = [] := by
  rw [DottedExact, dotted_candidates]
  by_cases hclimbs : s.climbs ≤ p.dirs.length
  · simp only [hclimbs, if_true, true_or, iff_true]
    intro c
    rw [mem_flatMap]
    constructor
    · rintro ⟨k, hk, hc⟩
      have hlt := mem_range.mp hk
      exact ⟨s.names.length - k, by omega, by omega, hc⟩
    · rintro ⟨count, hpos, hle, hc⟩
      refine ⟨s.names.length - count, mem_range.mpr (by omega), ?_⟩
      rw [show s.names.length - (s.names.length - count) = count by omega]
      exact hc
  · simp only [hclimbs, if_false, false_or]
    constructor
    · intro hnil
      by_contra hne
      have hpos : 0 < s.names.length := length_pos_iff.mpr hne
      have hmem := flatMap_eq_nil_iff.mp hnil 0 (mem_range.mpr hpos)
      exact absurd hmem (cons_ne_nil _ _)
    · intro hnil
      rw [hnil]
      rfl

end Dotted

section Slashed

variable (p : SourcePath) (s : PathSpecifier)

theorem head?_pathText : s.text.head? = some '.' := by
  rw [PathSpecifier.text]
  cases s.up with
  | true => rfl
  | false => rfl

/-- A specifier with a slash after its dots. -/
theorem head?_afterDots :
    (s.text.drop (s.text.takeWhile (fun c => c = '.')).length).head? = some '/' := by
  rw [PathSpecifier.text]
  cases s.up with
  | true => rfl
  | false => rfl

variable {dirs segments named directory : List Str} {name c : Str}

/-- The segments of a path with a specifier behind it. -/
theorem splitOn_joined_dirs (h : ∀ t ∈ dirs, Segment t) (text : Str) :
    splitOn '/' (joinWith '/' (dirs ++ [text])) = dirs ++ splitOn '/' text := by
  cases dirs with
  | nil => rfl
  | cons t dirs =>
    rw [joinWith_concat (cons_ne_nil t dirs),
      splitOn_joined (fun u hu => (h u hu).noSlash) (cons_ne_nil t dirs)]

theorem initialSlashes_joined (h : ∀ t ∈ dirs, Segment t) {text : Str}
    (htext : text.head? = some '.') : initialSlashes (joinWith '/' (dirs ++ [text])) = 0 := by
  have hhead : (joinWith '/' (dirs ++ [text])).takeWhile (fun c => decide (c = '/')) = [] := by
    have hstart : ∀ t rest : Str, t ≠ [] → '/' ∉ t →
        (t ++ rest).takeWhile (fun c => decide (c = '/')) = [] := by
      intro t rest hne hfree
      cases t with
      | nil => exact absurd rfl hne
      | cons c t =>
        refine takeWhile_cons_of_neg ?_
        rw [decide_eq_true_eq]
        exact fun e => hfree (by rw [e]; exact mem_cons_self)
    cases dirs with
    | nil =>
      cases text with
      | nil => cases htext
      | cons c text =>
        rw [Option.some.inj htext]
        exact takeWhile_cons_of_neg (by decide)
    | cons t dirs =>
      have ht := h t mem_cons_self
      cases dirs with
      | nil => exact hstart t _ ht.plain.nonempty ht.noSlash
      | cons u dirs => exact hstart t _ ht.plain.nonempty ht.noSlash
  rw [initialSlashes, hhead]

/-- Inside the repository, `posixpath.normpath` resolves as every reader of a path does. -/
theorem normComponents_resolve {done resolved : List Str}
    (h : Canonical.resolve done segments = .ok resolved) (hdone : ∀ t ∈ done, t ≠ ['.', '.']) :
    normComponents false done segments = resolved := by
  induction segments generalizing done with
  | nil =>
    exact Except.ok.inj h
  | cons c segments ih =>
    unfold Canonical.resolve at h
    unfold normComponents
    by_cases hskip : c = [] ∨ c = ['.']
    · rw [if_pos hskip] at h ⊢
      exact ih h hdone
    · rw [if_neg hskip] at h ⊢
      by_cases hup : c = ['.', '.']
      · rw [if_pos hup] at h
        cases done with
        | nil => cases h
        | cons u done =>
          have hstay : ¬ (c ≠ ['.', '.'] ∨ (!false ∧ u :: done = []) ∨
              (u :: done).head? = some ['.', '.']) := by
            rintro (hne | ⟨-, hnil⟩ | hhead)
            · exact hne hup
            · exact cons_ne_nil u done hnil
            · exact hdone u mem_cons_self (Option.some.inj hhead)
          rw [if_neg hstay]
          exact ih h (fun t ht => hdone t (mem_cons_of_mem u ht))
      · rw [if_neg hup] at h
        rw [if_pos (.inl hup)]
        refine ih h (fun t ht => ?_)
        rcases mem_cons.mp ht with rfl | ht
        · exact hup
        · exact hdone t ht

/-- The path that a specifier is resolved to: the root is a dot. -/
def basePath (named : List Str) : Str :=
  if named = [] then ['.'] else joinWith '/' named

theorem namedBy_segments (h : namedBy p s = some named) : ∀ t ∈ named, Segment t := by
  unfold namedBy at h
  split at h
  · rename_i resolved hresolved
    cases h
    intro t ht
    rcases resolve_mem hresolved (mem_reverse.mp ht) with hnil | ⟨hmem, hplain⟩
    · cases hnil
    · rcases mem_append.mp hmem with hdir | hpart
      · exact p.dirs_segments t hdir
      · exact ⟨hplain, not_mem_part hpart⟩
  · cases h

theorem normpath_named (h : namedBy p s = some named) :
    normpath (joinPath (joinWith '/' p.dirs) s.text) = basePath named := by
  have hslash : s.text.head? ≠ some '/' := by
    rw [head?_pathText]
    decide
  have hsegments := namedBy_segments p s h
  unfold namedBy at h
  split at h
  · rename_i resolved hresolved
    have hnamed := Option.some.inj h
    rw [joinPath_joinWith p.dirs_segments hslash, normpath]
    simp only [initialSlashes_joined p.dirs_segments (head?_pathText s), ne_eq, not_true_eq_false,
      decide_false, splitOn_joined_dirs p.dirs_segments,
      normComponents_resolve hresolved (fun t ht => absurd ht not_mem_nil),
      replicate_zero, nil_append, hnamed]
    rw [basePath]
    by_cases hnil : named = []
    · rw [if_pos hnil, hnil]
      rfl
    · rw [if_neg hnil, if_neg (joinWith_ne_nil hsegments hnil)]
  · cases h

/-- The candidates of a path inside the repository. -/
theorem path_candidates (h : namedBy p s = some named) :
    relativeFileCandidates s.text p.text = [basePath named] ∨
      relativeFileCandidates s.text p.text = fileForms (basePath named) := by
  unfold relativeFileCandidates
  simp only [head?_afterDots s, if_true, flatMap_cons, flatMap_nil, append_nil]
  rw [SourcePath.text, dirname_joinWith p.dirs_segments p.name_segment, normpath_named p s h]
  split
  · exact .inl rfl
  · exact .inr rfl

theorem candidates_ne_nil : relativeFileCandidates s.text p.text ≠ [] := by
  unfold relativeFileCandidates
  simp only [head?_afterDots s, if_true, flatMap_cons, flatMap_nil, append_nil]
  split
  · exact cons_ne_nil _ _
  · exact cons_ne_nil _ _

theorem pathParts_joinWith (h : ∀ t ∈ segments, Segment t) (hne : segments ≠ []) :
    pathParts (joinWith '/' segments) = segments := by
  rw [pathParts, splitOn_joinWith (fun t ht => (h t ht).noSlash) hne]
  refine filter_eq_self.mpr (fun t ht => decide_eq_true ?_)
  exact ⟨(h t ht).plain.nonempty, (h t ht).plain.noDot⟩

theorem fileIn_joinWith (h : ∀ t ∈ directory ++ [name], Segment t) :
    FileIn directory (joinWith '/' (directory ++ [name])) := by
  refine ⟨name, pathParts_joinWith h ?_, fun t ht => (h t ht).plain.noDots⟩
  exact append_ne_nil_of_right_ne_nil _ (cons_ne_nil _ _)

/-- An extension is put to the last segment. -/
theorem fileIn_extension {last suffix : Str} (h : ∀ t ∈ directory ++ [last], Segment t)
    (hsuffix : 3 ≤ suffix.length) (hslash : '/' ∉ suffix) :
    FileIn directory (joinWith '/' (directory ++ [last]) ++ suffix) := by
  have hlong : Segment (last ++ suffix) := by
    have hlength : 3 ≤ (last ++ suffix).length := by
      rw [length_append]
      omega
    refine ⟨⟨?_, ?_, ?_⟩, ?_⟩
    · intro e
      rw [e] at hlength
      exact absurd hlength (by decide)
    · intro e
      rw [e] at hlength
      exact absurd hlength (by decide)
    · intro e
      rw [e] at hlength
      exact absurd hlength (by decide)
    · rw [mem_append, not_or]
      exact ⟨(h last (mem_append_right _ (mem_singleton_self last))).noSlash, hslash⟩
  have hjoin : joinWith '/' (directory ++ [last]) ++ suffix =
      joinWith '/' (directory ++ [last ++ suffix]) := by
    cases directory with
    | nil => rfl
    | cons t directory =>
      rw [joinWith_concat (cons_ne_nil t directory),
        joinWith_concat (cons_ne_nil t directory), append_assoc, cons_append]
  rw [hjoin]
  refine fileIn_joinWith (fun t ht => ?_)
  rcases mem_append.mp ht with ht | ht
  · exact h t (mem_append_left _ ht)
  · rw [mem_singleton.mp ht]
    exact hlong

/-- A file in a directory that a path names. -/
theorem fileIn_below (h : ∀ t ∈ named, Segment t) (hne : named ≠ []) (hname : Segment name) :
    FileIn named (joinWith '/' named ++ '/' :: name) := by
  rw [← joinWith_concat hne]
  refine fileIn_joinWith (fun t ht => ?_)
  rcases mem_append.mp ht with ht | ht
  · exact h t ht
  · rw [mem_singleton.mp ht]
    exact hname

/-- Where the candidates of a path stand. -/
theorem path_places (h : namedBy p s = some named) (hc : c ∈ relativeFileCandidates s.text p.text) :
    FileIn named c ∨ FileIn named.dropLast c := by
  have hsegments := namedBy_segments p s h
  by_cases hnil : named = []
  -- the specifier names the root: only the six forms under `.` are files, listed by evaluation
  · left
    have hforms : ∀ c ∈ basePath [] :: fileForms (basePath []), c ≠ ['.'] →
        pathParts c = [(pathParts c).headD []] ∧ (pathParts c).headD [] ≠ ['.', '.'] := by
      decide
    have hmem : c ∈ fileForms (basePath []) := by
      unfold relativeFileCandidates at hc
      simp only [head?_afterDots s, if_true, flatMap_cons, flatMap_nil,
        append_nil] at hc
      rw [SourcePath.text, dirname_joinWith p.dirs_segments p.name_segment, normpath_named p s h,
        hnil] at hc
      exact hc
    have hdot : c ≠ ['.'] := by
      intro e
      rw [e] at hmem
      exact absurd hmem (by decide)
    rcases hforms c (mem_cons_of_mem _ hmem) hdot with ⟨hparts, hdots⟩
    rw [hnil]
    refine ⟨(pathParts c).headD [], hparts, fun t ht => ?_⟩
    rw [nil_append, mem_singleton] at ht
    rw [ht]
    exact hdots
  -- it names a path with a last component: the forms stand beside that component or below it
  · have hsplit := dropLast_append_getLast hnil
    have hall : ∀ t ∈ named.dropLast ++ [named.getLast hnil], Segment t := by
      rw [hsplit]
      exact hsegments
    have hbase : basePath named = joinWith '/' (named.dropLast ++ [named.getLast hnil]) := by
      rw [hsplit]
      exact if_neg hnil
    have hbelow : ∀ name : Str, Segment name → FileIn named (basePath named ++ '/' :: name) := by
      intro name hname
      rw [show basePath named = joinWith '/' named from if_neg hnil]
      exact fileIn_below hsegments hnil hname
    have hbeside : ∀ suffix : Str, 3 ≤ suffix.length → '/' ∉ suffix →
        FileIn named.dropLast (basePath named ++ suffix) := by
      intro suffix hlength hslash
      rw [hbase]
      exact fileIn_extension hall hlength hslash
    rcases path_candidates p s h with hone | hforms
    · rw [hone, mem_singleton] at hc
      right
      rw [hc, hbase]
      exact fileIn_joinWith hall
    · rw [hforms] at hc
      simp only [fileForms, map_cons, map_nil, mem_cons, not_mem_nil,
        or_false] at hc
      rcases hc with rfl | rfl | rfl | rfl | rfl | rfl
      · exact .inr (hbeside _ (by decide) (by decide))
      · exact .inr (hbeside _ (by decide) (by decide))
      · exact .inr (hbeside _ (by decide) (by decide))
      · exact .inl (hbelow "index.ts".toList ⟨⟨by decide, by decide, by decide⟩, by decide⟩)
      · exact .inl (hbelow "index.tsx".toList ⟨⟨by decide, by decide, by decide⟩, by decide⟩)
      · exact .inl (hbelow "__init__.py".toList ⟨⟨by decide, by decide, by decide⟩, by decide⟩)

theorem inNamedPlace_iff : InNamedPlace p s ↔ (namedBy p s).isSome := by
  constructor
  · intro h
    rcases exists_mem_of_ne_nil _ (candidates_ne_nil p s) with ⟨c, hc⟩
    rcases h c hc with ⟨named, hnamed, -⟩
    rw [hnamed]
    rfl
  · intro h c hc
    rcases Option.isSome_iff_exists.mp h with ⟨named, hnamed⟩
    exact ⟨named, hnamed, path_places p s hnamed hc⟩

/-- A file beside a directory is not in it. -/
theorem FileIn.not_below (hne : named ≠ []) (h : FileIn named.dropLast c) : ¬ FileIn named c := by
  rintro ⟨below, hbelow, -⟩
  rcases h with ⟨name, hname, -⟩
  have hlength := congrArg List.length (hname.symm.trans hbelow)
  have hpos := length_pos_iff.mpr hne
  simp only [length_append, length_dropLast, length_singleton] at hlength
  omega

/-- One of the candidates is beside what the path names. -/
theorem exists_beside (h : namedBy p s = some named) (hne : named ≠ []) :
    ∃ c ∈ relativeFileCandidates s.text p.text, FileIn named.dropLast c := by
  have hall : ∀ t ∈ named.dropLast ++ [named.getLast hne], Segment t := by
    rw [dropLast_append_getLast hne]
    exact namedBy_segments p s h
  have hbase : basePath named = joinWith '/' (named.dropLast ++ [named.getLast hne]) := by
    rw [dropLast_append_getLast hne]
    exact if_neg hne
  rcases path_candidates p s h with hone | hforms
  · refine ⟨basePath named, ?_, ?_⟩
    · rw [hone]
      exact mem_singleton_self _
    · rw [hbase]
      exact fileIn_joinWith hall
  · refine ⟨basePath named ++ ".ts".toList, ?_, ?_⟩
    · rw [hforms]
      exact mem_cons_self
    · rw [hbase]
      exact fileIn_extension hall (by decide) (by decide)

theorem inNamedDirectory_iff : InNamedDirectory p s ↔
    ∃ named, namedBy p s = some named ∧ (EndsInName s ∨ named = []) := by
  constructor
  · intro h
    have hplace : InNamedPlace p s := by
      intro c hc
      rcases h c hc with ⟨named, hnamed, hin | hbeside⟩
      · exact ⟨named, hnamed, .inl hin⟩
      · exact ⟨named, hnamed, .inr hbeside.2⟩
    rcases Option.isSome_iff_exists.mp ((inNamedPlace_iff p s).mp hplace) with ⟨named, hnamed⟩
    refine ⟨named, hnamed, ?_⟩
    by_cases hne : named = []
    · exact .inr hne
    · left
      rcases exists_beside p s hnamed hne with ⟨c, hc, hbeside⟩
      rcases h c hc with ⟨other, hother, hin | ⟨hends, -⟩⟩
      · rw [hnamed] at hother
        rw [← Option.some.inj hother] at hin
        exact absurd hin (hbeside.not_below hne)
      · exact hends
  · rintro ⟨named, hnamed, hends⟩ c hc
    refine ⟨named, hnamed, ?_⟩
    rcases path_places p s hnamed hc with hin | hbeside
    · exact .inl hin
    · rcases hends with hends | hroot
      · exact .inr ⟨hends, hbeside⟩
      · left
        rw [hroot] at hbeside ⊢
        exact hbeside

end Slashed

section Leading

variable (p : SourcePath)

theorem standsIn_iff {directory : List Str} {path : Str} :
    standsIn directory path = true ↔ FileIn directory path := by
  unfold standsIn FileIn
  rw [Bool.and_eq_true, Bool.and_eq_true, decide_eq_true_eq, decide_eq_true_eq, all_eq_true]
  simp only [decide_eq_true_eq]
  constructor
  · rintro ⟨⟨hne, rfl⟩, hall⟩
    have hsplit := dropLast_append_getLast hne
    exact ⟨_, hsplit.symm, by rw [hsplit]; exact hall⟩
  · rintro ⟨name, hparts, hall⟩
    rw [hparts, dropLast_concat]
    exact ⟨⟨append_ne_nil_of_right_ne_nil _ (cons_ne_nil _ _), rfl⟩, hall⟩

theorem dirs_of_text : (splitOn '/' p.text).dropLast = p.dirs := by
  have hsegments : ∀ s ∈ p.dirs ++ [p.name], '/' ∉ s := by
    intro s hs
    rcases mem_append.mp hs with hs | hs
    · exact (p.dirs_segments s hs).noSlash
    · rw [mem_singleton.mp hs]
      exact p.name_segment.noSlash
  rw [SourcePath.text, splitOn_joinWith hsegments
    (append_ne_nil_of_right_ne_nil _ (cons_ne_nil _ _)), dropLast_concat]

/-- The candidates that a dotted specifier leads to are those of its prefixes, in the directory
    that it climbs to, and none if it climbs past the root. -/
theorem leadsTo_dotted (s : DottedSpecifier) (c : Str) :
    c ∈ relativeFileCandidates s.text p.text ∧ leadsTo s.text p.text c = true ↔
      s.climbs ≤ p.dirs.length ∧ ∃ count, 0 < count ∧ count ≤ s.names.length ∧
        c ∈ fileForms
          (joinWith '/' (p.dirs.take (p.dirs.length - s.climbs) ++ s.names.take count)) := by
  have hleads : leadsTo s.text p.text c = true ↔ s.climbs ≤ p.dirs.length := by
    unfold leadsTo
    simp [dotted_split s, head?_dotted s, dirs_of_text p]
  rw [hleads]
  constructor
  · rintro ⟨hc, hclimbs⟩
    have hexact := (dottedExact_iff p s).mpr (.inl hclimbs)
    rw [DottedExact, if_pos hclimbs] at hexact
    exact ⟨hclimbs, (hexact c).mp hc⟩
  · rintro ⟨hclimbs, hc⟩
    have hexact := (dottedExact_iff p s).mpr (.inl hclimbs)
    rw [DottedExact, if_pos hclimbs] at hexact
    exact ⟨(hexact c).mpr hc, hclimbs⟩

/-- A path leads to the places that it names. -/
theorem leadsTo_path (s : PathSpecifier) (c : Str) :
    leadsTo s.text p.text c = true ↔ ∃ named, namedBy p s = some named ∧
      (FileIn named c ∨ EndsInName s ∧ FileIn named.dropLast c) := by
  have hleading : (s.text.takeWhile (fun c => decide (c = '.'))).length ≠ 0 := by
    rw [PathSpecifier.text]
    cases s.up with
    | true => exact Nat.succ_ne_zero _
    | false => exact Nat.succ_ne_zero _
  have hends : (splitOn '/' s.text).getLast?.all
      (fun last => last ≠ [] && last ≠ ['.'] && last ≠ ['.', '.']) = true ↔ EndsInName s := by
    rw [Option.all_eq_true]
    refine forall₂_congr (fun last _ => ?_)
    simp only [Bool.and_eq_true, decide_eq_true_eq]
    exact ⟨fun h => ⟨h.1.1, h.1.2, h.2⟩, fun h => ⟨⟨h.nonempty, h.noDot⟩, h.noDots⟩⟩
  unfold leadsTo namedBy
  simp only [if_neg hleading, head?_afterDots s, if_true, dirs_of_text p]
  cases Canonical.resolve [] (p.dirs ++ splitOn '/' s.text) with
  | error e =>
    refine ⟨fun h => absurd h Bool.false_ne_true, ?_⟩
    rintro ⟨_, hnone, -⟩
    cases hnone
  | ok resolved =>
    simp only [Option.some.injEq, exists_eq_left', Bool.or_eq_true, Bool.and_eq_true, hends,
      standsIn_iff]

end Leading

section Exact

/-- The candidates are what the specifiers name exactly when no climb leaves the root (or there
    is nothing to look for there), and when a path does not end as a directory does. -/
theorem relative_candidates_exact (p : SourcePath) (dotted : DottedSpecifier)
    (path : PathSpecifier) :
    (DottedExact p dotted ↔ dotted.climbs ≤ p.dirs.length ∨ dotted.names = []) ∧
      (InNamedPlace p path ↔ (namedBy p path).isSome) ∧
      (InNamedDirectory p path ↔
        ∃ named, namedBy p path = some named ∧ (EndsInName path ∨ named = [])) :=
  ⟨dottedExact_iff p dotted, inNamedPlace_iff p path, inNamedDirectory_iff p path⟩

/-- A file in the root. -/
def rootModule : SourcePath where
  dirs := []
  name := "a.py".toList
  dirs_segments := fun _ hs => absurd hs List.not_mem_nil
  name_segment := ⟨⟨by decide, by decide, by decide⟩, by decide⟩

/-- `from ..x import y` -/
def pastRoot : DottedSpecifier where
  climbs := 1
  names := ["x".toList]
  names_plain := by decide

/-- A climb past the root ends at the root, and a path past the root keeps its dots. -/
theorem relative_candidates_escape :
    ¬ DottedExact rootModule pastRoot ∧ ¬ InNamedPlace rootModule ⟨true, "x".toList⟩ ∧
      relativeFileCandidates pastRoot.text rootModule.text = fileForms "x".toList ∧
      relativeFileCandidates "../x".toList rootModule.text = fileForms "../x".toList := by
  have hdotted : relativeFileCandidates pastRoot.text rootModule.text = fileForms "x".toList := by
    decide
  refine ⟨?_, ?_, hdotted, by decide⟩
  · intro h
    have hnil : relativeFileCandidates pastRoot.text rootModule.text = [] := h
    rw [hdotted] at hnil
    exact absurd hnil (by decide)
  · intro h
    rcases h "../x.ts".toList (by decide) with ⟨named, hnamed, -⟩
    have hnone : namedBy rootModule ⟨true, "x".toList⟩ = none := by decide
    rw [hnone] at hnamed
    cases hnamed

end Exact

end Resolution

end Partha
