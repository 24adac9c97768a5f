import Partha.Canonical.Paths

/-!
# Keys with a Path

The stable keys of files and symbols, whose path is in normal form.

A symbol has its path before the first `::` of its key. Where the path has a `::` of its own,
or ends with a colon, the key is cut too early: what is before the cut is normalized once more
as a path, and it can only get shorter.

## Main definitions

* `DoubleFree`: The `::` after a path is the first one.

## Theorems

* `normalizeRepoPath_initial`: A piece of a normalized path is shortened if anything.
* `normalizeStableKey_file`: The key of a file.
* `normalizeStableKey_symbol`: The key of a symbol.
-/

namespace Partha

namespace Canonical

open Checked List

section Fixed

variable [Unicode]

variable {s t : Str} {c : Char}

/-- What follows a separator in a normalized text is normalized. -/
theorem nfc_after (hc : c ∈ separators) (h : nfc (s ++ c :: t) = s ++ c :: t) : nfc t = t := by
  induction hn : s.length using Nat.strong_induction_on generalizing s with
  | _ n ih =>
    rcases split_first (fun d => d = c) s with hfree | ⟨u, d, v, rfl, hu, hd⟩
    · exact (nfc_parts hc (fun hmem => absurd (hfree c hmem) (by simp)) h).2
    · have hu : c ∉ u := fun hmem => absurd (hu c hmem) (by simp)
      have hd : d = c := of_decide_eq_true hd
      subst hd
      rw [append_assoc, cons_append] at h
      refine ih v.length ?_ (nfc_parts hc hu h).2 rfl
      rw [← hn, length_append, length_cons]
      omega

theorem nfc_before (hc : c ∈ separators) (h : nfc (s ++ c :: t) = s ++ c :: t) : nfc s = s := by
  have ht := nfc_after hc h
  rw [nfc_append s t c hc, ht] at h
  exact append_cancel_right h

end Fixed

section Doubles

/-- Where a text is split does not depend on what follows a `::`. -/
theorem splitDouble_append (path rest : Str) :
    splitDouble (path ++ ':' :: ':' :: rest) =
      (splitDouble (path ++ [':', ':'])).map (fun p => (p.1, p.2 ++ rest)) := by
  induction path with
  | nil => rfl
  | cons c path ih =>
    have hhead : (path ++ ':' :: ':' :: rest).head? = (path ++ [':', ':']).head? := by
      cases path with
      | nil => rfl
      | cons d path => rfl
    rw [cons_append, cons_append, splitDouble, splitDouble, hhead]
    by_cases hc : c = ':' ∧ (path ++ [':', ':']).head? = some ':'
    · rw [if_pos hc, if_pos hc, Option.map_some]
      cases path with
      | nil => rfl
      | cons d path => simp
    · rw [if_neg hc, if_neg hc, ih, Option.map_map, Option.map_map]
      rfl

variable {s a b path start rest : Str}

/-- The parts of a text that is split. -/
theorem splitDouble_parts (h : splitDouble s = some (a, b)) : s = a ++ ':' :: ':' :: b := by
  induction s generalizing a with
  | nil => cases h
  | cons c s ih =>
    rw [splitDouble] at h
    by_cases hc : c = ':' ∧ s.head? = some ':'
    · rw [if_pos hc, Option.some.injEq] at h
      rcases Prod.mk.inj h with ⟨rfl, rfl⟩
      cases s with
      | nil => cases hc.2
      | cons d s =>
        rw [hc.1, Option.some.inj hc.2]
        rfl
    · rw [if_neg hc] at h
      rcases Option.map_eq_some_iff.mp h with ⟨⟨a', b'⟩, hsplit, heq⟩
      rcases Prod.mk.inj heq with ⟨rfl, rfl⟩
      rw [ih hsplit]
      rfl

/-- A text with a `::` is split. -/
theorem splitDouble_double (path : Str) :
    ∃ start rest, splitDouble (path ++ [':', ':']) = some (start, rest) := by
  induction path with
  | nil => exact ⟨[], [], rfl⟩
  | cons c path ih =>
    rcases ih with ⟨start, rest, h⟩
    rw [cons_append, splitDouble]
    by_cases hc : c = ':' ∧ (path ++ [':', ':']).head? = some ':'
    · exact ⟨_, _, if_pos hc⟩
    · rw [if_neg hc, h]
      exact ⟨_, _, rfl⟩

/-- The `::` after a path is the first one. -/
def DoubleFree (path : Str) : Prop :=
  splitDouble (path ++ [':', ':']) = some (path, [])

instance (path : Str) : Decidable (DoubleFree path) :=
  inferInstanceAs (Decidable (_ = _))

theorem DoubleFree.splitDouble (h : DoubleFree path) (rest : Str) :
    splitDouble (path ++ ':' :: ':' :: rest) = some (path, rest) := by
  rw [splitDouble_append, h]
  rfl

/-- What comes before the first `::` is free of it. -/
theorem doubleFree_of_splitDouble (h : Canonical.splitDouble s = some (a, b)) : DoubleFree a := by
  rw [splitDouble_parts h, splitDouble_append] at h
  rcases Option.map_eq_some_iff.mp h with ⟨⟨a', b'⟩, hsplit, heq⟩
  rcases Prod.mk.inj heq with ⟨hstart, hrest⟩
  change a' = a at hstart
  change b' ++ b = b at hrest
  rw [hstart, append_left_eq_self.mp hrest] at hsplit
  exact hsplit

/-- There is no `::` in such a path. -/
theorem DoubleFree.eq_none (h : DoubleFree path) : Canonical.splitDouble path = none := by
  cases hsplit : Canonical.splitDouble path with
  | none => rfl
  | some p =>
    have hlonger := (doubleFree_of_splitDouble (a := p.1) (b := p.2) hsplit).splitDouble
      (p.2 ++ [':', ':'])
    have hparts := splitDouble_parts (a := p.1) (b := p.2) hsplit
    have hsame : p.1 ++ ':' :: ':' :: (p.2 ++ [':', ':']) = path ++ [':', ':'] := by
      rw [hparts]
      simp
    rw [hsame, h, Option.some.injEq] at hlonger
    exact absurd (Prod.mk.inj hlonger).2.symm (append_ne_nil_of_right_ne_nil _ (by decide))

/-- A key is cut within the path if not after it. -/
theorem start_prefix (h : Canonical.splitDouble (path ++ [':', ':']) = some (start, rest))
    (hfree : ¬ DoubleFree path) : ∃ later, path = start ++ ':' :: later := by
  have hself : start ≠ path := by
    rintro rfl
    have hparts := splitDouble_parts h
    have hrest : rest = [] := by
      have hlength := congrArg List.length hparts
      rw [length_append, length_append] at hlength
      exact eq_nil_of_length_eq_zero (by simp only [length_cons, length_nil] at hlength; omega)
    rw [hrest] at h
    exact hfree h
  rcases append_eq_append_iff.mp (splitDouble_parts h) with ⟨u, hu, hrest⟩ | ⟨u, hu, hrest⟩
  · have hlength := congrArg List.length hrest
    simp only [length_append, length_cons, length_nil] at hlength
    have hnil : u = [] := eq_nil_of_length_eq_zero (by omega)
    rw [hnil, append_nil] at hu
    exact absurd hu hself
  · cases u with
    | nil =>
      rw [append_nil] at hu
      exact absurd hu.symm hself
    | cons c u =>
      rw [(List.cons.inj hrest).1]
      exact ⟨u, hu⟩

/-- So is what has a `::` behind it. -/
theorem splitDouble_prefix {later : Str}
    (h : Canonical.splitDouble (path ++ ':' :: ':' :: rest) = some (start, later)) :
    start <+: path := by
  rw [splitDouble_append] at h
  rcases Option.map_eq_some_iff.mp h with ⟨⟨a, b⟩, hsplit, heq⟩
  have hstart : a = start := (Prod.mk.inj heq).1
  rw [hstart] at hsplit
  by_cases hfree : DoubleFree path
  · rw [hfree, Option.some.injEq] at hsplit
    exact (Prod.mk.inj hsplit).1 ▸ prefix_refl _
  · rcases start_prefix hsplit hfree with ⟨u, hu⟩
    exact ⟨':' :: u, hu.symm⟩

end Doubles

section Pieces

/-- All but the last of the segments of a piece are segments of the whole. -/
theorem dropLast_splitOn (c : Char) (s t : Str) :
    (splitOn c s).dropLast <+: splitOn c (s ++ t) := by
  induction s with
  | nil => exact nil_prefix
  | cons d s ih =>
    rw [cons_append, splitOn, splitOn]
    by_cases hd : d = c
    · rw [if_pos hd, if_pos hd, dropLast_cons_of_ne_nil (splitOn_ne_nil c s)]
      exact (prefix_cons_inj _).mpr ih
    · rw [if_neg hd, if_neg hd]
      cases hs : splitOn c s with
      | nil => exact absurd hs (splitOn_ne_nil c s)
      | cons segment segments =>
        rw [hs] at ih
        cases segments with
        | nil => exact nil_prefix
        | cons segment' segments =>
          rw [dropLast_cons_of_ne_nil (cons_ne_nil _ _)] at ih ⊢
          cases hst : splitOn c (s ++ t) with
          | nil => exact absurd hst (splitOn_ne_nil c _)
          | cons u us =>
            rw [hst] at ih
            rcases cons_prefix_cons.mp ih with ⟨rfl, hrest⟩
            exact cons_prefix_cons.mpr ⟨rfl, hrest⟩

theorem joinWith_prefix (c : Char) (parts rest : List Str) :
    joinWith c parts <+: joinWith c (parts ++ rest) := by
  induction parts with
  | nil => exact nil_prefix
  | cons s parts ih =>
    cases parts with
    | nil =>
      cases rest with
      | nil => exact prefix_refl _
      | cons t rest => exact prefix_append _ _
    | cons t parts =>
      rw [cons_append, cons_append, joinWith, joinWith, prefix_append_right_inj,
        cons_prefix_cons]
      exact ⟨rfl, ih⟩

variable {segments : List Str}

/-- Plain segments are kept until the others are reached. -/
theorem resolve_append_plain {resolved rest : List Str} (h : ∀ s ∈ segments, Plain s) :
    resolve resolved (segments ++ rest) = resolve (segments.reverse ++ resolved) rest := by
  induction segments generalizing resolved with
  | nil => rfl
  | cons t segments ih =>
    have ht := h t mem_cons_self
    rw [cons_append]
    conv_lhs => unfold resolve
    rw [if_neg (not_or.mpr ⟨ht.nonempty, ht.noDot⟩), if_neg ht.noDots,
      ih (fun s hs => h s (mem_cons_of_mem t hs)), reverse_cons,
      append_assoc]
    rfl

/-- After plain segments, whatever the last one is, some of the segments are left. -/
theorem resolve_last {result : List Str} {last : Str} (h : ∀ s ∈ segments, Plain s)
    (hresult : resolve [] (segments ++ [last]) = .ok result) :
    result.reverse <+: segments ++ [last] := by
  rw [resolve_append_plain h, append_nil] at hresult
  unfold resolve at hresult
  by_cases hskip : last = [] ∨ last = ['.']
  · rw [if_pos hskip] at hresult
    rw [← Except.ok.inj hresult, reverse_reverse]
    exact prefix_append _ _
  rw [if_neg hskip] at hresult
  by_cases hup : last = ['.', '.']
  · rw [if_pos hup] at hresult
    cases hreverse : segments.reverse with
    | nil =>
      rw [hreverse] at hresult
      cases hresult
    | cons s rest =>
      rw [hreverse] at hresult
      have hsegments : segments = rest.reverse ++ [s] := by
        rw [← reverse_reverse segments, hreverse, reverse_cons]
      rw [← Except.ok.inj hresult, hsegments, append_assoc]
      exact prefix_append _ _
  · rw [if_neg hup] at hresult
    have hsame := congrArg List.reverse (Except.ok.inj hresult)
    rw [reverse_cons, reverse_reverse] at hsame
    exact hsame ▸ prefix_refl _

variable [Unicode]

/-- A piece of a normalized path up to a colon is a path of its first segments, if it is one. -/
theorem normalizeRepoPath_initial {path start later p : Str}
    (hpath : normalizeRepoPath path = .ok path) (hparts : path = start ++ ':' :: later)
    (h : normalizeRepoPath start = .ok p) : p <+: start := by
  rcases normalizeRepoPath_plain hpath with ⟨segments, hrepo, -⟩
  have hnfc : nfc start = start := by
    have hfixed := hrepo.nfc_eq
    rw [hparts] at hfixed
    exact nfc_before (by decide) hfixed
  have hbackslash : '\\' ∉ start := fun hmem => hrepo.not_backslash (by
    rw [hparts]
    exact mem_append_left _ hmem)
  have hne : segments ≠ [] := by
    rintro rfl
    have hempty := hrepo.joined
    rw [hparts] at hempty
    exact absurd hempty (append_ne_nil_of_right_ne_nil _ (cons_ne_nil _ _))
  have hwhole : splitOn '/' (start ++ ':' :: later) = segments := by
    rw [← hparts, hrepo.joined, splitOn_joinWith (fun s hs => (hrepo.fixed s hs).2.1) hne]
  have hplain : ∀ s ∈ (splitOn '/' start).dropLast, Plain s := fun s hs =>
    hrepo.plain s (hwhole ▸ (dropLast_splitOn '/' start (':' :: later)).subset hs)
  unfold normalizeRepoPath at h
  rw [hnfc, foldBackslashes_self hbackslash] at h
  split at h
  · cases h
  split at h
  · cases h
  rcases bind_eq_ok.mp h with ⟨resolved, hresolve, hp⟩
  rw [← dropLast_append_getLast (splitOn_ne_nil '/' start)] at hresolve
  have hkept := resolve_last hplain hresolve
  rw [dropLast_append_getLast] at hkept
  rcases hkept with ⟨rest, hrest⟩
  have hjoin := joinWith_prefix '/' resolved.reverse rest
  rw [hrest, joinWith_splitOn] at hjoin
  cases hp
  exact hjoin

end Pieces

section Keys

variable [Unicode] {path : Str}

/-- The key of a file, whose path is a key unless it is empty or has a control character. -/
theorem normalizeStableKey_file (hpath : normalizeRepoPath path = .ok path) :
    normalizeStableKey "file".toList ("file:".toList ++ path) =
      if (path.any fun c => c.toNat < 0x20) then
        .error (.canonicalization "stable keys cannot contain control characters")
      else if path = [] then
        .error (.canonicalization "file stable keys require a repository-relative path")
      else .ok ("file:".toList ++ path) := by
  have hcolon : ':' ∈ separators := by decide
  have hkind : nfc "file".toList = "file".toList := nfc_ascii _ (by decide)
  have hkey : nfc ("file:".toList ++ path) = "file:".toList ++ path := by
    have h := nfc_append "file".toList path ':' hcolon
    rw [nfc_ascii "file".toList (by decide), normalizeRepoPath_nfc hpath] at h
    exact h
  have hne : "file:".toList ++ path ≠ [] := append_ne_nil_of_left_ne_nil (by decide) _
  have hform : normalizeKindKey "file".toList ("file:".toList ++ path) =
      if path = [] then
        .error (.canonicalization "file stable keys require a repository-relative path")
      else .ok ("file:".toList ++ path) := by
    have hstrip : stripPrefix "file:".toList ("file:".toList ++ path) = some path := by
      rw [stripPrefix, if_pos (prefix_append _ _), drop_left]
    rw [normalizeKindKey, if_neg (by decide), if_neg (by decide), if_pos (by decide), hstrip]
    simp only [hpath, ok_bind]
  rw [normalizeStableKey, hkind, hkey, if_neg (not_or.mpr ⟨by decide, hne⟩), any_append,
    hform]
  rfl

/-- The form of a key of a symbol. -/
theorem nfc_symbol (hpath : nfc path = path) (qualified : Str) :
    nfc (path ++ ':' :: ':' :: qualified) = path ++ ':' :: ':' :: nfc qualified := by
  have hcolon : ':' ∈ separators := by decide
  change nfc (path ++ ':' :: ([] ++ ':' :: qualified)) = _
  rw [nfc_append _ _ _ hcolon, nfc_append _ _ _ hcolon, nfc_ascii [] (by decide), hpath]
  rfl

variable {qualified key : Str}

/-- When a symbol has a key, and which. -/
theorem normalizeStableKey_symbol (hpath : normalizeRepoPath path = .ok path) :
    normalizeStableKey "symbol".toList (path ++ ':' :: ':' :: qualified) = .ok key ↔
      (∀ c ∈ path ++ nfc qualified, 0x20 ≤ c.toNat) ∧
      ∃ start rest p, splitDouble (path ++ [':', ':']) = some (start, rest) ∧
        normalizeRepoPath start = .ok p ∧ p ≠ [] ∧ rest ++ nfc qualified ≠ [] ∧
        key = p ++ ':' :: ':' :: (rest ++ nfc qualified) := by
  have hkind : nfc "symbol".toList = "symbol".toList := nfc_ascii _ (by decide)
  have hne : path ++ ':' :: ':' :: nfc qualified ≠ [] :=
    append_ne_nil_of_right_ne_nil _ (cons_ne_nil _ _)
  rw [normalizeStableKey, hkind, nfc_symbol (normalizeRepoPath_nfc hpath),
    if_neg (not_or.mpr ⟨by decide, hne⟩)]
  by_cases hcontrol : ∀ c ∈ path ++ nfc qualified, 0x20 ≤ c.toNat
  · have hany : ¬ (path ++ ':' :: ':' :: nfc qualified).any (fun c => c.toNat < 0x20) = true := by
      intro h
      rcases any_eq_true.mp h with ⟨c, hc, hlow⟩
      have hlow := of_decide_eq_true hlow
      have hcases : c ∈ path ++ nfc qualified ∨ c = ':' := by
        simp only [mem_append, mem_cons] at hc ⊢
        tauto
      rcases hcases with hc | rfl
      · exact absurd hlow (Nat.not_lt.mpr (hcontrol c hc))
      · exact absurd hlow (by decide)
    rcases splitDouble_double path with ⟨start, rest, hsplit⟩
    -- the printable key is cut at its first double colon, which stands in the path or ends it
    have hform : normalizeKindKey "symbol".toList (path ++ ':' :: ':' :: nfc qualified) =
        (do
          let p ← normalizeRepoPath start
          if p = [] ∨ rest ++ nfc qualified = [] then
            .error (.canonicalization "symbol stable keys require a path and qualified name")
          else .ok (p ++ ':' :: ':' :: (rest ++ nfc qualified))) := by
      rw [normalizeKindKey, if_neg (by decide), if_neg (by decide), if_neg (by decide),
        if_pos (by decide), splitDouble_append, hsplit]
      rfl
    rw [if_neg hany, hform]
    constructor
    · intro h
      rcases bind_eq_ok.mp h with ⟨p, hp, h⟩
      by_cases hempty : p = [] ∨ rest ++ nfc qualified = []
      · rw [if_pos hempty] at h
        cases h
      · rw [if_neg hempty] at h
        rw [not_or] at hempty
        exact ⟨hcontrol, start, rest, p, hsplit, hp, hempty.1, hempty.2, (Except.ok.inj h).symm⟩
    · rintro ⟨-, start', rest', p, hsplit', hp, hpath', hqualified, rfl⟩
      rw [hsplit, Option.some.injEq] at hsplit'
      rcases Prod.mk.inj hsplit' with ⟨rfl, rfl⟩
      refine bind_eq_ok.mpr ⟨p, hp, ?_⟩
      rw [if_neg (not_or.mpr ⟨hpath', hqualified⟩)]
  -- a control character is refused before the kinds are told apart
  · have hany : (path ++ ':' :: ':' :: nfc qualified).any (fun c => c.toNat < 0x20) = true := by
      by_contra h
      refine hcontrol (fun c hc => Nat.not_lt.mp (fun hlow => h ?_))
      refine any_eq_true.mpr ⟨c, ?_, decide_eq_true hlow⟩
      simp only [mem_append, mem_cons] at hc ⊢
      tauto
    rw [if_pos hany]
    exact iff_of_false (fun h => by cases h) (fun h => hcontrol h.1)

/-- The key of a symbol of a path that it is cut after. -/
theorem normalizeStableKey_doubleFree (hpath : normalizeRepoPath path = .ok path)
    (hfree : DoubleFree path) (hne : path ≠ []) (hqualified : qualified ≠ []) :
    normalizeStableKey "symbol".toList (path ++ ':' :: ':' :: qualified) = .ok key ↔
      (∀ c ∈ path ++ nfc qualified, 0x20 ≤ c.toNat) ∧
      key = path ++ ':' :: ':' :: nfc qualified := by
  rw [normalizeStableKey_symbol hpath]
  refine and_congr_right (fun _ => ?_)
  constructor
  · rintro ⟨start, rest, p, hsplit, hp, -, -, rfl⟩
    rw [hfree, Option.some.injEq] at hsplit
    rcases Prod.mk.inj hsplit with ⟨rfl, rfl⟩
    rw [hpath] at hp
    rw [← Except.ok.inj hp, nil_append]
  · rintro rfl
    exact ⟨path, [], path, hfree, hpath, hne, nfc_ne_nil _ hqualified, rfl⟩

end Keys

end Canonical

end Partha
