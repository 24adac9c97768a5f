import Partha.Extraction.Manifests

/-!
# Lines of a Requirements File

On which line a requirement is said to be, and on which it is.

The reader of a requirements file numbers the lines of `str.splitlines`, which end at a line
feed, but also at a carriage return, a form feed, and the line separators of Unicode. The lines
of evidence end at a line feed only. So the two agree up to the first line that ends otherwise,
and every requirement after it is put too far down. If that is beyond the last line, it is
dropped for an invalid span.

## Main definitions

* `keptLines`: The lines of `str.splitlines`, each with what ends it.
* `Declares`: What a text declares, and where.
* `OnLine`: A part of a text lies on a line.
* `CitesRightLines`: The requirements of a text are cited where they are, and none is dropped.

## Theorems

* `splitOn_place`: Which line a part of a text lies on.
* `requirements_cited_right`: A text is cited right iff what ends the lines before a requirement
  is a line feed.
-/

namespace Partha

namespace RequirementLines

open List hiding splitOn
open Canonical Extraction Structured Manifests
open Http (Text strip asciiUrls)
open Partha.Resolution (basename)

section Definitions

/-- The lines of a text with what ends each, within a line that has begun. -/
def keptLines (current : Str) : Str → List (Str × Str)
  | [] => if current = [] then [] else [(current, [])]
  | '\r' :: '\n' :: s => (current, ['\r', '\n']) :: keptLines [] s
  | c :: s =>
    if isLineBoundary c then (current, [c]) :: keptLines [] s else keptLines (current ++ [c]) s

/-- What lines are lines of. -/
def whole (lines : List (Str × Str)) : Str :=
  lines.flatMap (fun p => p.1 ++ p.2)

/-- A line that ends in a line feed, alone or after a carriage return. -/
def endsInLineFeed (p : Str × Str) : Bool :=
  p.2.getLast? = some '\n'

/-- A part of a text, given by what comes before it, lies on a line. -/
def OnLine (text : Str) (line : Nat) (before part : Str) : Prop :=
  ∃ earlier start rest later, splitOn '\n' text = earlier ++ (start ++ part ++ rest) :: later ∧
    earlier.length + 1 = line ∧ before = earlier.flatMap (fun s => s ++ ['\n']) ++ start

variable [Text]

/-- Whether a line names a requirement, as its first character that is no space tells. -/
def namesRequirement (line : Str) : Bool :=
  match line.dropWhile Text.isSpace with
  | [] => false
  | c :: _ => !"#-.[<>=!~@".toList.elem c

/-- A requirement that a text declares, and what comes before it in the text. -/
def Declares (text before value : Str) (x : ManifestDeclaration) : Prop :=
  ∃ earlier line ending later, keptLines [] text = earlier ++ (line, ending) :: later ∧
    requirementLine (line, earlier.length + 1) = some x ∧
    before = whole earlier ++ line.takeWhile Text.isSpace ∧
    value = strip (dropComment (strip line))

variable [Unicode] [Interpreter]

/-- Each requirement of a text lies on the line that is given for it, and no extraction of the
    text drops one for its line. -/
structure CitesRightLines (text : Str) : Prop where
  cited : ∀ x ∈ requirementsDeclarations text,
    1 ≤ (x.line : Int) ∧ (x.line : Int) ≤ logicalLineCount text ∧
      ∃ before value, Declares text before value x ∧ OnLine text x.line before value
  kept : ∀ d path source normalized r, decode path source = .ok (.ok text) →
    normalizeRepoPath path = .ok normalized →
    basename normalized ≠ "package.json".toList →
    basename normalized ≠ "pyproject.toml".toList →
    dependencyManifestExtract d path source = .ok r →
    ∀ g ∈ r.diagnostics, g.code ≠ "RI-SPAN-INVALID".toList

end Definitions

section Separators

/-- Which line a part of a text lies on. -/
theorem splitOn_place (c : Char) (before s : Str) :
    ∃ earlier start first later, splitOn c s = first :: later ∧
      splitOn c (before ++ s) = earlier ++ (start ++ first) :: later ∧
      earlier.length = before.count c ∧ before = earlier.flatMap (fun t => t ++ [c]) ++ start := by
  induction before with
  | nil =>
    cases hs : splitOn c s with
    | nil => exact absurd hs (splitOn_ne_nil c s)
    | cons first later => exact ⟨[], [], first, later, rfl, hs, rfl, rfl⟩
  | cons d before ih =>
    rcases ih with ⟨earlier, start, first, later, hs, hall, hlength, hbefore⟩
    by_cases hd : d = c
    · refine ⟨[] :: earlier, start, first, later, hs, ?_, ?_, ?_⟩
      · rw [cons_append, splitOn, if_pos hd, hall]
        rfl
      · rw [hd, count_cons_self, length_cons, hlength]
      · rw [flatMap_cons, hd, append_assoc, ← hbefore]
        rfl
    · have hcount : (d :: before).count c = before.count c := count_cons_of_ne hd
      cases earlier with
      | nil =>
        refine ⟨[], d :: start, first, later, hs, ?_, ?_, ?_⟩
        · rw [cons_append, splitOn, if_neg hd, hall]
          rfl
        · rw [hcount, ← hlength]
        · rw [hbefore]
          rfl
      | cons t earlier =>
        refine ⟨(d :: t) :: earlier, start, first, later, hs, ?_, ?_, ?_⟩
        · rw [cons_append, splitOn, if_neg hd, hall]
          rfl
        · rw [hcount, ← hlength]
          rfl
        · rw [hbefore]
          rfl

theorem count_flatMap_ended {c : Char} {parts : List Str} (h : ∀ s ∈ parts, c ∉ s) :
    (parts.flatMap (fun s => s ++ [c])).count c = parts.length := by
  induction parts with
  | nil => rfl
  | cons s parts ih =>
    have hs : s.count c = 0 := count_eq_zero.mpr (h s mem_cons_self)
    have hrest := ih (fun t ht => h t (mem_cons_of_mem s ht))
    rw [flatMap_cons, count_append, count_append, hs, hrest, length_cons,
      count_singleton_self]
    omega

/-- The lines of a text are numbered by the line feeds before them. -/
theorem onLine_iff {text before part after : Str} {line : Nat} (h : '\n' ∉ part)
    (htext : text = before ++ part ++ after) :
    OnLine text line before part ↔ before.count '\n' + 1 = line := by
  constructor
  · intro hline
    rcases hline with ⟨earlier, start, rest, later, hsplit, hlength, hbefore⟩
    have hfree : ∀ s ∈ earlier, '\n' ∉ s := fun s hs =>
      not_mem_part (by rw [hsplit]; exact mem_append_left _ hs)
    have hstart : '\n' ∉ start := by
      have hpart : '\n' ∉ start ++ part ++ rest :=
        not_mem_part (by rw [hsplit]; exact mem_append_right _ mem_cons_self)
      intro hmem
      exact hpart (mem_append_left _ (mem_append_left _ hmem))
    rw [hbefore, count_append, count_flatMap_ended hfree, count_eq_zero.mpr hstart]
    exact hlength
  · intro hline
    rcases splitOn_place '\n' before (part ++ after) with
      ⟨earlier, start, first, later, hfirst, hall, hlength, hbefore⟩
    rcases splitOn_place '\n' part after with
      ⟨none', start', first', later', -, hpart, hzero, hwhole⟩
    rw [count_eq_zero.mpr h, length_eq_zero_iff] at hzero
    rw [hzero, flatMap_nil, nil_append] at hwhole
    rw [hzero, nil_append, hfirst] at hpart
    refine ⟨earlier, start, first', later, ?_, by rw [hlength]; exact hline, hbefore⟩
    rw [htext, append_assoc, hall, (List.cons.inj hpart).1, ← hwhole, append_assoc]

theorem logicalLineCount_splitOn (text : Str) :
    logicalLineCount text = (splitOn '\n' text).length := by
  rcases splitOn_place '\n' text [] with ⟨earlier, start, first, later, hfirst, hall, hlength, -⟩
  have hnil : splitOn '\n' ([] : Str) = [[]] := rfl
  rw [hnil] at hfirst
  rw [append_nil] at hall
  rw [logicalLineCount, hall, length_append, length_cons, hlength,
    ← (List.cons.inj hfirst).2]
  simp only [length_nil]
  omega

end Separators

section Lines

theorem keptLines_fst (current s : Str) :
    (keptLines current s).map Prod.fst = splitlines current s := by
  fun_induction keptLines current s with
  | case1 => rfl
  | case2 current h => rw [splitlines, if_neg h]; rfl
  | case3 current s ih => rw [map_cons, ih, splitlines]
  | case4 current c s hnot h ih =>
    rw [map_cons, ih, splitlines, if_pos h]
    exact hnot
  | case5 current c s hnot h ih =>
    rw [ih, splitlines, if_neg h]
    exact hnot

theorem whole_keptLines (current s : Str) : whole (keptLines current s) = current ++ s := by
  fun_induction keptLines current s with
  | case1 => rfl
  | case2 current h => simp only [whole, flatMap_cons, flatMap_nil, append_nil]
  | case3 current s ih =>
    rw [whole, flatMap_cons, ← whole, ih]
    simp
  | case4 current c s hnot h ih =>
    rw [whole, flatMap_cons, ← whole, ih]
    simp
  | case5 current c s hnot h ih => rw [ih, append_assoc]; rfl

/-- A line has no line feed, and what ends it has one at most. -/
theorem keptLines_lineFeeds {current s : Str} (h : '\n' ∉ current) :
    ∀ p ∈ keptLines current s,
      '\n' ∉ p.1 ∧ p.2.count '\n' = if endsInLineFeed p then 1 else 0 := by
  have hcons : ∀ {p q : Str × Str} {lines : List (Str × Str)},
      ('\n' ∉ q.1 ∧ q.2.count '\n' = if endsInLineFeed q then 1 else 0) →
      (∀ p ∈ lines, '\n' ∉ p.1 ∧ p.2.count '\n' = if endsInLineFeed p then 1 else 0) →
      p ∈ q :: lines → '\n' ∉ p.1 ∧ p.2.count '\n' = if endsInLineFeed p then 1 else 0 := by
    intro p q lines hq hlines hp
    rcases mem_cons.mp hp with rfl | hp
    · exact hq
    · exact hlines p hp
  fun_induction keptLines current s with
  | case1 => exact fun p hp => absurd hp not_mem_nil
  | case2 current hne =>
    exact fun p hp => hcons ⟨h, rfl⟩ (fun q hq => absurd hq not_mem_nil) hp
  | case3 current s ih => exact fun p hp => hcons ⟨h, rfl⟩ (ih not_mem_nil) hp
  | case4 current c s hnot hc ih =>
    refine fun p hp => hcons ⟨h, ?_⟩ (ih not_mem_nil) hp
    by_cases hfeed : c = '\n'
    · rw [hfeed]
      rfl
    · have hends : endsInLineFeed (current, [c]) = false := by
        simp [endsInLineFeed, hfeed]
      rw [hends, count_cons_of_ne hfeed]
      rfl
  | case5 current c s hnot hc ih =>
    refine ih (fun hmem => ?_)
    rcases mem_append.mp hmem with hmem | hmem
    · exact h hmem
    · rw [← mem_singleton.mp hmem] at hc
      exact hc (by decide)

theorem count_whole {lines : List (Str × Str)}
    (h : ∀ p ∈ lines, '\n' ∉ p.1 ∧ p.2.count '\n' = if endsInLineFeed p then 1 else 0) :
    (whole lines).count '\n' = lines.countP endsInLineFeed := by
  induction lines with
  | nil => rfl
  | cons p lines ih =>
    have hp := h p mem_cons_self
    have hrest := ih (fun q hq => h q (mem_cons_of_mem p hq))
    rw [whole, flatMap_cons, ← whole, count_append, count_append, hrest,
      count_eq_zero.mpr hp.1, hp.2, countP_cons]
    omega

end Lines

section Requirements

variable {α : Type} {l : List α} {a : α} {i : Nat} {p : α → Bool} {text line : Str}
  {x : ManifestDeclaration} {c : Char}

theorem mem_zipIdx_iff {n : Nat} :
    (a, i) ∈ l.zipIdx n ↔ ∃ s t, l = s ++ a :: t ∧ i = s.length + n := by
  induction l generalizing n with
  | nil =>
    constructor
    · exact fun h => absurd h not_mem_nil
    · intro h
      rcases h with ⟨s, t, h, -⟩
      exact absurd h.symm (append_ne_nil_of_right_ne_nil s (cons_ne_nil a t))
  | cons b l ih =>
    rw [zipIdx_cons, mem_cons, Prod.mk.injEq, ih]
    constructor
    · intro h
      rcases h with ⟨rfl, rfl⟩ | ⟨s, t, rfl, rfl⟩
      · exact ⟨[], l, rfl, by rw [length_nil, Nat.zero_add]⟩
      · exact ⟨b :: s, t, rfl, by rw [length_cons]; omega⟩
    · intro h
      rcases h with ⟨s, t, hl, rfl⟩
      cases s with
      | nil =>
        rw [nil_append, List.cons.injEq] at hl
        exact .inl ⟨hl.1.symm, by rw [length_nil, Nat.zero_add]⟩
      | cons c s =>
        rw [cons_append, List.cons.injEq] at hl
        exact .inr ⟨s, t, hl.2, by rw [length_cons]; omega⟩

/-- A relation between the elements of a list and those before each. -/
theorem pairwise_iff_before {R : α → α → Prop} :
    l.Pairwise R ↔ ∀ s a t, l = s ++ a :: t → ∀ p ∈ s, R p a := by
  constructor
  · intro h s a t hl p hp
    rw [hl] at h
    exact (pairwise_append.mp h).2.2 p hp a mem_cons_self
  · intro h
    rw [pairwise_iff_getElem]
    intro i j hi hj hij
    refine h (l.take j) l[j] (l.drop (j + 1)) ?_ l[i] ?_
    · rw [getElem_cons_drop, take_append_drop]
    · exact mem_take_iff_getElem.mpr ⟨i, by omega, rfl⟩

/-- What is left after both ends begin where a list does, if that is kept. -/
theorem trim_cons (ha : p a = false) (l : List α) :
    ∃ t u, (((a :: l).dropWhile p).reverse.dropWhile p).reverse = a :: t ∧ l = t ++ u := by
  have hdrop : (a :: l).dropWhile p = a :: l :=
    dropWhile_cons_of_neg (by rw [ha]; exact Bool.false_ne_true)
  have hlast : [a].dropWhile p = [a] :=
    dropWhile_cons_of_neg (by rw [ha]; exact Bool.false_ne_true)
  rw [hdrop, reverse_cons, dropWhile_append]
  split
  · exact ⟨[], l, by rw [hlast]; rfl, rfl⟩
  · rcases dropWhile_suffix p (l := l.reverse) with ⟨u, hu⟩
    refine ⟨(l.reverse.dropWhile p).reverse, u.reverse, ?_, ?_⟩
    · rw [reverse_append]
      rfl
    · rw [← reverse_append, hu, reverse_reverse]

theorem dropWhile_cons_not {t : List α} (h : l.dropWhile p = a :: t) : p a = false := by
  have hne : l.dropWhile p ≠ [] := by rw [h]; exact cons_ne_nil a t
  have hhead := head_dropWhile_not p hne
  rw [show (l.dropWhile p).head hne = a from by simp only [h, head_cons]] at hhead
  exact hhead

variable [Text]

/-- What a text declares is what its lines do. -/
theorem mem_requirementsDeclarations :
    x ∈ requirementsDeclarations text ↔ ∃ earlier line ending later,
      keptLines [] text = earlier ++ (line, ending) :: later ∧
        requirementLine (line, earlier.length + 1) = some x := by
  rw [requirementsDeclarations, ← keptLines_fst, mem_filterMap]
  constructor
  · intro h
    rcases h with ⟨⟨line, i⟩, hmem, hx⟩
    rcases mem_zipIdx_iff.mp hmem with ⟨s, t, hs, rfl⟩
    rcases map_eq_append_iff.mp hs with ⟨earlier, rest, hall, rfl, hrest⟩
    rcases map_eq_cons_iff.mp hrest with ⟨⟨line', ending⟩, later, rfl, rfl, -⟩
    rw [length_map] at hx
    exact ⟨earlier, line', ending, later, hall, hx⟩
  · intro h
    rcases h with ⟨earlier, line, ending, later, hall, hx⟩
    refine ⟨(line, earlier.length + 1), mem_zipIdx_iff.mpr ?_, hx⟩
    exact ⟨earlier.map Prod.fst, later.map Prod.fst, by rw [hall, map_append]; rfl,
      by rw [length_map]⟩

theorem requirement_line {value : PyStr} {line : Nat} (h : requirement value line = some x) :
    x.line = line := by
  rw [requirement] at h
  split at h
  · cases h
  · rw [← Option.some.inj h]

theorem requirementLine_line (h : requirementLine (line, i) = some x) : x.line = i := by
  rw [requirementLine] at h
  split at h
  · cases h
  · split at h
    · cases h
    · exact requirement_line h

theorem dropComment_start (s : Str) : ∃ u, s = dropComment s ++ u := by
  induction s with
  | nil => exact ⟨[], rfl⟩
  | cons c s ih =>
    rw [dropComment]
    split
    · exact ⟨c :: s, rfl⟩
    · rcases ih with ⟨u, hu⟩
      exact ⟨u, congrArg (List.cons c) hu⟩

/-- The requirement of a line begins at its first character that is no space. -/
theorem requirement_start {s : Str} (h : line.dropWhile Text.isSpace = c :: s) :
    ∃ t u rest, strip line = c :: t ∧ strip (dropComment (strip line)) = c :: u ∧
      s = u ++ rest := by
  have hc := dropWhile_cons_not h
  rcases trim_cons hc s with ⟨t, after, ht, hs⟩
  have hagain : (c :: s).dropWhile Text.isSpace = c :: s := by
    rw [← h]
    exact dropWhile_idempotent _ _
  rw [hagain] at ht
  have hstrip : strip line = c :: t := by rw [strip, h, ht]
  have hcomment : dropComment (c :: t) = c :: dropComment t := by
    rw [dropComment, if_neg (by rw [hc]; exact fun h => Bool.false_ne_true h.1)]
  rcases trim_cons hc (dropComment t) with ⟨u, comment, hu, hcut⟩
  rcases dropComment_start t with ⟨dropped, hdropped⟩
  refine ⟨t, u, comment ++ dropped ++ after, hstrip, ?_, ?_⟩
  · rw [hstrip, hcomment]
    exact hu
  · conv_lhs => rw [hs, hdropped, hcut]
    simp

/-- A line has blanks, the requirement, if there is one, and the rest. -/
theorem line_parts (line : Str) :
    ∃ rest, line = line.takeWhile Text.isSpace ++ strip (dropComment (strip line)) ++ rest := by
  have hline := takeWhile_append_dropWhile (p := Text.isSpace) (l := line)
  cases hd : line.dropWhile Text.isSpace with
  | nil =>
    have hstrip : strip line = [] := by rw [strip, hd]; rfl
    have hnone : strip (dropComment ([] : Str)) = [] := rfl
    rw [hd, append_nil] at hline
    exact ⟨[], by rw [hstrip, hnone, append_nil, append_nil, hline]⟩
  | cons c s =>
    rcases requirement_start hd with ⟨t, u, rest, -, hvalue, hs⟩
    refine ⟨rest, ?_⟩
    rw [hvalue, append_assoc, cons_append, ← hs, ← hd, hline]

theorem requirement_isSome (hc : Text.isSpace c = false) (s : Str) (i : Nat) :
    (∃ x, requirement (ofStr (c :: s)) i = some x) ↔ "[<>=!~@".toList.elem c = false := by
  have hends : endsName (.scalar c) = "[<>=!~@".toList.elem c := by
    rw [endsName, hc, Bool.or_false]
  have hname : ∀ x : Option ManifestDeclaration,
      (∃ y, x = some y) ↔ x.isSome = true := fun x => Option.isSome_iff_exists.symm
  rw [hname]
  by_cases h : "[<>=!~@".toList.elem c = true
  · have hnone : pythonRequirementName (ofStr (c :: s)) = [] := by
      rw [pythonRequirementName, ofStr, map_cons, takeWhile_cons_of_neg]
      · rfl
      · rw [hends, h]
        exact Bool.false_ne_true
    rw [requirement, if_pos hnone, h]
    exact iff_of_false Bool.false_ne_true (fun h => by cases h)
  · rw [Bool.not_eq_true] at h
    have hspace : PyChar.isSpace (.scalar c) = false := hc
    rcases trim_cons hspace ((s.map PyChar.scalar).takeWhile (fun c => !endsName c)) with
      ⟨t, u, ht, -⟩
    have hsome : pythonRequirementName (ofStr (c :: s)) = .scalar c :: t := by
      rw [pythonRequirementName, ofStr, map_cons, takeWhile_cons_of_pos]
      · exact ht
      · rw [hends, h]
        rfl
    rw [requirement, if_neg (by rw [hsome]; exact cons_ne_nil _ t), h]
    exact iff_of_true rfl rfl

/-- Which lines have a requirement. -/
theorem namesRequirement_iff :
    namesRequirement line = true ↔ ∃ x, requirementLine (line, i) = some x := by
  cases hd : line.dropWhile Text.isSpace with
  | nil =>
    have hstrip : strip line = [] := by rw [strip, hd]; rfl
    rw [namesRequirement, hd, requirementLine, hstrip]
    exact iff_of_false Bool.false_ne_true (fun h => by cases h.choose_spec)
  | cons c s =>
    rcases requirement_start hd with ⟨t, u, rest, hstrip, hvalue, -⟩
    rw [hstrip] at hvalue
    have hsplit : "#-.[<>=!~@".toList.elem c =
        ("#-.".toList.elem c || "[<>=!~@".toList.elem c) := by
      exact @contains_append Char _ "#-.".toList "[<>=!~@".toList c
    have hmore := requirement_isSome (dropWhile_cons_not hd) u i
    rw [namesRequirement, hd, requirementLine, hstrip]
    simp only [hsplit, hvalue]
    by_cases hskip : "#-.".toList.elem c = true
    · rw [if_pos hskip, hskip]
      exact iff_of_false Bool.false_ne_true (fun h => by cases h.choose_spec)
    · rw [if_neg hskip, hmore, Bool.eq_false_iff.mpr hskip, Bool.false_or, Bool.not_eq_true']

/-- The lines before a requirement are counted by their line feeds, if those end them all. -/
theorem declares_spec {before value : Str} (h : Declares text before value x) :
    ∃ earlier line ending later, keptLines [] text = earlier ++ (line, ending) :: later ∧
      requirementLine (line, earlier.length + 1) = some x ∧ x.line = earlier.length + 1 ∧
      (OnLine text x.line before value ↔ ∀ p ∈ earlier, endsInLineFeed p = true) := by
  rcases h with ⟨earlier, line, ending, later, hlines, hx, hbefore, hvalue⟩
  have hfeeds := @keptLines_lineFeeds [] text not_mem_nil
  have hmem : ∀ p ∈ earlier, p ∈ keptLines [] text := fun p hp => by
    rw [hlines]
    exact mem_append_left _ hp
  have hline : '\n' ∉ line :=
    (hfeeds (line, ending) (by rw [hlines]; exact mem_append_right _ mem_cons_self)).1
  rcases line_parts line with ⟨rest, hrest⟩
  rw [← hvalue] at hrest
  have hfree : '\n' ∉ value := by
    intro hmem
    rw [hrest] at hline
    exact hline (mem_append_left _ (mem_append_right _ hmem))
  have hblank : (line.takeWhile Text.isSpace).count '\n' = 0 :=
    count_eq_zero.mpr (fun hmem => hline (takeWhile_subset _ hmem))
  have htext : text = before ++ value ++ (rest ++ ending ++ whole later) := by
    have hall := whole_keptLines [] text
    rw [hlines, whole, flatMap_append, flatMap_cons, nil_append] at hall
    rw [← hall, hbefore]
    conv_lhs => rw [hrest]
    simp [whole]
  refine ⟨earlier, line, ending, later, hlines, hx, requirementLine_line hx, ?_⟩
  rw [onLine_iff hfree htext, requirementLine_line hx, hbefore, count_append, hblank,
    count_whole (fun p hp => hfeeds p (hmem p hp)), Nat.add_zero, Nat.add_right_cancel_iff]
  exact countP_eq_length

end Requirements

section Extraction

variable [Unicode]

variable {path text : Str} {r : ManifestResult}

theorem buildEvidence_spanless {line : Nat} {g : ExtractedDiagnostic} (hline : Within text line)
    (h : buildEvidence path line line (logicalLineCount text) "span".toList = .error g) :
    g.code ≠ "RI-SPAN-INVALID".toList := by
  rw [buildEvidence] at h
  split at h
  · rw [← Except.error.inj h]
    decide
  · rw [if_pos ⟨hline.1, Int.le_refl _, hline.2⟩] at h
    cases h

/-- What the loop has to report, if every line is there and nothing is disclosed. -/
theorem run_spanless {α : Type} {f : Facts α} (hquiet : ∀ key x, f.disclosures key x = [])
    {items : List α} (hwithin : ∀ x ∈ items, Within text (f.line x))
    (hr : f.run path (logicalLineCount text) items = .ok r) :
    ∀ g ∈ r.diagnostics, g.code ≠ "RI-SPAN-INVALID".toList := by
  induction items generalizing r with
  | nil =>
    cases hr
    exact fun g hg => absurd hg not_mem_nil
  | cons x items ih =>
    cases hkey : f.key x with
    | error e => rw [Facts.run, hkey] at hr; cases hr
    | ok stableKey =>
      cases hrest : f.run path (logicalLineCount text) items with
      | error e => rw [Facts.run, hkey, hrest] at hr; cases hr
      | ok rest =>
        have hmore := ih (fun y hy => hwithin y (mem_cons_of_mem x hy)) hrest
        simp only [Facts.run, hkey, hrest, Checked.ok_bind] at hr
        cases hspan : buildEvidence path (f.line x) (f.line x) (logicalLineCount text)
          "span".toList with
        | error d =>
          rw [hspan] at hr
          cases hr
          intro g hg
          rcases mem_cons.mp hg with rfl | hg
          · exact buildEvidence_spanless (hwithin x mem_cons_self) hspan
          · exact hmore g hg
        | ok evidence =>
          rw [hspan] at hr
          rw [← Except.ok.inj hr, hquiet, nil_append]
          exact hmore

variable [Text] [Interpreter]

/-- An extraction drops no requirement whose line is there. -/
theorem extract_spanless {d : Decoders} {normalized : Str} {source : List UInt8}
    (hdecode : decode path source = .ok (.ok text))
    (hpath : normalizeRepoPath path = .ok normalized)
    (hpackage : basename normalized ≠ "package.json".toList)
    (hproject : basename normalized ≠ "pyproject.toml".toList)
    (hwithin : ∀ x ∈ requirementsDeclarations text, Within text x.line)
    (hr : dependencyManifestExtract d path source = .ok r) :
    ∀ g ∈ r.diagnostics, g.code ≠ "RI-SPAN-INVALID".toList := by
  simp only [dependencyManifestExtract, extractText, hdecode, hpath, manifestDeclarations,
    if_neg hpackage, if_neg hproject, whenRead, Facts.result] at hr
  cases hrun : (manifestFacts normalized).run normalized (logicalLineCount text)
    (requirementsDeclarations text) with
  | error e => rw [hrun] at hr; cases hr
  | ok result =>
    rw [hrun] at hr
    cases hr
    exact run_spanless (f := manifestFacts normalized) (r := result) (fun key x => rfl) hwithin
      hrun

/-- The requirements of a text are cited where they are, and none is dropped for its line, iff
    every line before that of a requirement ends in a line feed. -/
theorem requirements_cited_right (text : Str) :
    CitesRightLines text ↔ (keptLines [] text).Pairwise
      (fun p q => namesRequirement q.1 = true → endsInLineFeed p = true) := by
  rw [pairwise_iff_before]
  constructor
  · intro h earlier q later hlines p hp hnames
    rcases namesRequirement_iff.mp hnames with ⟨x, hx⟩
    have hmem := mem_requirementsDeclarations.mpr ⟨earlier, q.1, q.2, later, hlines, hx⟩
    rcases (h.cited x hmem).2.2 with ⟨before, value, hdeclares, honline⟩
    rcases declares_spec hdeclares with ⟨earlier', line, ending, later', hlines', -, hline, hiff⟩
    -- The number of the line says which line it is.
    have hlength : earlier.length = earlier'.length := by
      rw [requirementLine_line hx] at hline
      omega
    rw [hlines] at hlines'
    rw [(append_inj hlines' hlength).1] at hp
    exact hiff.mp honline p hp
  · intro h
    have hcited : ∀ x ∈ requirementsDeclarations text, Within text x.line ∧
        ∃ before value, Declares text before value x ∧ OnLine text x.line before value := by
      intro x hmem
      rcases mem_requirementsDeclarations.mp hmem with ⟨earlier, line, ending, later, hlines, hx⟩
      have hdeclares : Declares text (whole earlier ++ line.takeWhile Text.isSpace)
          (strip (dropComment (strip line))) x :=
        ⟨earlier, line, ending, later, hlines, hx, rfl, rfl⟩
      rcases declares_spec hdeclares with ⟨earlier', line', ending', later', hlines', hx', -, hiff⟩
      have honline := hiff.mpr (fun p hp =>
        h earlier' (line', ending') later' hlines' p hp (namesRequirement_iff.mpr ⟨x, hx'⟩))
      refine ⟨?_, _, _, hdeclares, honline⟩
      rcases honline with ⟨before, start, rest, after, hsplit, hlength, -⟩
      rw [Within, logicalLineCount_splitOn, hsplit, length_append, length_cons]
      omega
    exact ⟨fun x hx => ⟨(hcited x hx).1.1, (hcited x hx).1.2, (hcited x hx).2⟩,
      fun d path source normalized r hdecode hpath hpackage hproject hr =>
        extract_spanless hdecode hpath hpackage hproject (fun x hx => (hcited x hx).1) hr⟩

end Extraction

/-- A form feed ends a line for the reader, but not for evidence. -/
theorem requirements_cited_beyond :
    ¬ ∀ text, @CitesRightLines asciiUrls asciiText cpython text := by
  intro h
  have hbound : ∀ x ∈ @requirementsDeclarations asciiUrls "flask\x0cdjango".toList,
      (x.line : Int) ≤ logicalLineCount "flask\x0cdjango".toList :=
    fun x hx => ((@CitesRightLines.cited asciiUrls asciiText cpython _ (h _)) x hx).2.1
  exact absurd hbound (by decide)

end RequirementLines

end Partha
