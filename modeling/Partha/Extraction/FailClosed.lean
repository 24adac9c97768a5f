import Partha.Canonical.StableKeys
import Partha.Extraction.Manifests

/-!
# When the Manifest Family Fails Closed

The keys that the three extractors make, and when a result can be persisted.

A key with a control character is refused, whoever makes it. The key of a resource holds the
path of its manifest up to the first `::`, which is read as a path when the key is made and
again when the node is stored. A path with a `::` in it can lose what it had before: nothing is
left of `x/..` in `x/..::y/compose.yaml`, and that is not a path.

## Main definitions

* `PlainType`: The type of a resource.

## Theorems

* `iacResourceStableKey_ok`: When a resource has a key, and which.
* `iacKey_accepted`: When the key of a resource is accepted again.
* `dependencyKey_accepted`: The key of a dependency always is.
* `manifests_fail_closed`: When the extractors fail closed.
-/

namespace Partha

namespace Manifests

open List hiding splitOn
open Canonical Extraction Structured Checked Insights JsonText
open Http (Text)
open Partha.Resolution (basename dirname)
open Dependencies (dependencyKind)

section Files

variable [Unicode] {path : Str}

theorem fileKey_accepted (hpath : normalizeRepoPath path = .ok path) (hne : path ≠ [])
    (hfree : ControlFree path) : KeyAccepted fileKind ("file:".toList ++ path) := by
  have hany : ¬ (path.any fun c => c.toNat < 0x20) = true := by
    intro h
    rcases any_eq_true.mp h with ⟨c, hc, hlow⟩
    exact hfree c hc (of_decide_eq_true hlow)
  refine ⟨"file:".toList ++ path, (normalizeStableKey_file hpath).trans ?_⟩
  rw [if_neg hany, if_neg hne]

end Files

section Doubles

/-- A text with a `::` is split at the first one. -/
theorem splitDouble_isSome (path : Str) :
    ∃ rest, splitDouble (path ++ [':', ':']) = some (manifestPart path, rest) ∧
      path ++ [':', ':'] = manifestPart path ++ ':' :: ':' :: rest := by
  rcases splitDouble_double path with ⟨start, rest, hsplit⟩
  have hpart : manifestPart path = start := by
    change ((splitDouble (path ++ [':', ':'])).map Prod.fst).getD path = start
    rw [hsplit]
    rfl
  rw [hpart]
  exact ⟨rest, hsplit, splitDouble_parts hsplit⟩

end Doubles

section Resources

variable [Unicode] {path : Str}

variable {qualified key resourceType name text : Str} {x : Resource} {resources : List Resource}

/-- The form of the key of a resource. -/
theorem normalizeKindKey_iac (hslash : '/' ∈ qualified) :
    normalizeKindKey iacKind ("iac:".toList ++ (path ++ ':' :: ':' :: qualified)) = .ok key ↔
      ∃ q rest, normalizeRepoPath (manifestPart path) = .ok q ∧ q ≠ [] ∧
        path ++ [':', ':'] = manifestPart path ++ ':' :: ':' :: rest ∧
        key = "iac:".toList ++ q ++ ':' :: ':' :: (rest ++ qualified) := by
  rcases splitDouble_isSome path with ⟨rest, hsplit, hparts⟩
  have hstrip : (stripPrefix "iac:".toList
      ("iac:".toList ++ (path ++ ':' :: ':' :: qualified))).bind splitDouble =
        some (manifestPart path, rest ++ qualified) := by
    rw [stripPrefix, if_pos (prefix_append _ _), drop_left, Option.bind_some,
      splitDouble_append, hsplit]
    rfl
  have hmem : '/' ∈ rest ++ qualified := mem_append_right rest hslash
  have hrest : ∀ rest', path ++ [':', ':'] = manifestPart path ++ ':' :: ':' :: rest' →
      rest' = rest := by
    intro rest' h
    rw [hparts] at h
    exact ((List.cons.inj (List.cons.inj (append_cancel_left h)).2).2).symm
  rw [normalizeKindKey, if_neg (by decide), if_neg (by decide), if_neg (by decide),
    if_neg (by decide), if_neg (by decide), if_neg (by decide), if_pos (by decide), hstrip]
  constructor
  · intro h
    rcases bind_eq_ok.mp h with ⟨q, hq, h⟩
    by_cases hne : q = []
    · rw [if_pos (.inl hne)] at h
      cases h
    · rw [if_neg (not_or.mpr ⟨hne, not_not.mpr hmem⟩)] at h
      exact ⟨q, rest, hq, hne, hparts, (Except.ok.inj h).symm⟩
  · rintro ⟨q, rest', hq, hne, h, rfl⟩
    rw [hrest rest' h]
    refine bind_eq_ok.mpr ⟨q, hq, ?_⟩
    rw [if_neg (not_or.mpr ⟨hne, not_not.mpr hmem⟩)]

/-- A key in normal form is accepted if it has no control character and its path is one. -/
theorem normalizeStableKey_iac (hpath : nfc path = path) (hqualified : nfc qualified = qualified)
    (hslash : '/' ∈ qualified) :
    normalizeStableKey iacKind ("iac:".toList ++ (path ++ ':' :: ':' :: qualified)) = .ok key ↔
      ControlFree path ∧ ControlFree qualified ∧
      ∃ q rest, normalizeRepoPath (manifestPart path) = .ok q ∧ q ≠ [] ∧
        path ++ [':', ':'] = manifestPart path ++ ':' :: ':' :: rest ∧
        key = "iac:".toList ++ q ++ ':' :: ':' :: (rest ++ qualified) := by
  have hcolon : ':' ∈ separators := by decide
  have hkind : nfc iacKind = iacKind := nfc_ascii _ (by decide)
  have hfixed : nfc ("iac:".toList ++ (path ++ ':' :: ':' :: qualified)) =
      "iac:".toList ++ (path ++ ':' :: ':' :: qualified) := by
    change nfc ("iac".toList ++ ':' :: (path ++ ':' :: ([] ++ ':' :: qualified))) = _
    rw [nfc_append _ _ _ hcolon, nfc_append _ _ _ hcolon, nfc_append _ _ _ hcolon,
      nfc_ascii "iac".toList (by decide), nfc_ascii [] (by decide), hpath, hqualified]
    rfl
  have hne : "iac:".toList ++ (path ++ ':' :: ':' :: qualified) ≠ [] :=
    append_ne_nil_of_left_ne_nil (by decide) _
  rw [normalizeStableKey, hkind, hfixed, if_neg (not_or.mpr ⟨by decide, hne⟩)]
  by_cases hcontrol : ControlFree path ∧ ControlFree qualified
  · have hany : ¬ ("iac:".toList ++ (path ++ ':' :: ':' :: qualified)).any
        (fun c => c.toNat < 0x20) = true := by
      intro h
      rcases any_eq_true.mp h with ⟨c, hc, hlow⟩
      have hlow := of_decide_eq_true hlow
      rcases mem_append.mp hc with hc | hc
      · exact absurd hlow ((by decide : ControlFree "iac:".toList) c hc)
      rcases mem_append.mp hc with hc | hc
      · exact hcontrol.1 c hc hlow
      rcases mem_cons.mp hc with rfl | hc
      · exact absurd hlow (by decide)
      rcases mem_cons.mp hc with rfl | hc
      · exact absurd hlow (by decide)
      · exact hcontrol.2 c hc hlow
    rw [if_neg hany, normalizeKindKey_iac hslash]
    simp [hcontrol]
  · have hany : ("iac:".toList ++ (path ++ ':' :: ':' :: qualified)).any
        (fun c => c.toNat < 0x20) = true := by
      by_contra h
      refine hcontrol ⟨fun c hc hlow => h ?_, fun c hc hlow => h ?_⟩
      · exact any_eq_true.mpr ⟨c, mem_append_right _ (mem_append_left _ hc),
          decide_eq_true hlow⟩
      · exact any_eq_true.mpr ⟨c, mem_append_right _ (mem_append_right _
          (mem_cons_of_mem _ (mem_cons_of_mem _ hc))), decide_eq_true hlow⟩
    rw [if_pos hany]
    refine iff_of_false (fun h => by cases h) (fun h => hcontrol ⟨h.1, h.2.1⟩)

theorem normalizeStableKey_nfc (kind key : Str) :
    normalizeStableKey kind (nfc key) = normalizeStableKey kind key := by
  rw [normalizeStableKey, normalizeStableKey, nfc_nfc]

/-- The type of a resource. -/
structure PlainType (resourceType : Str) : Prop where
  ascii : Ascii resourceType
  controlFree : ControlFree resourceType
  noSlash : '/' ∉ resourceType

/-- When a resource has a key, and which. -/
theorem iacResourceStableKey_ok (hpath : normalizeRepoPath path = .ok path)
    (htype : PlainType resourceType) :
    iacResourceStableKey path resourceType name = .ok key ↔
      ControlFree path ∧ ControlFree (nfc name) ∧
      ∃ q rest, normalizeRepoPath (manifestPart path) = .ok q ∧ q ≠ [] ∧
        path ++ [':', ':'] = manifestPart path ++ ':' :: ':' :: rest ∧
        key = "iac:".toList ++ q ++ ':' :: ':' :: (rest ++ (resourceType ++ '/' :: nfc name)) := by
  have hcolon : ':' ∈ separators := by decide
  have hslash : '/' ∈ separators := by decide
  have hqualified : ∀ s, nfc (resourceType ++ '/' :: s) = resourceType ++ '/' :: nfc s := by
    intro s
    rw [nfc_append _ _ _ hslash, nfc_ascii _ htype.ascii]
  have hkey : nfc ("iac:".toList ++ path ++ "::".toList ++ resourceType ++ '/' :: name) =
      "iac:".toList ++ (path ++ ':' :: ':' :: (resourceType ++ '/' :: nfc name)) := by
    have happend : "iac:".toList ++ path ++ "::".toList ++ resourceType ++ '/' :: name =
        "iac".toList ++ ':' :: (path ++ ':' :: ([] ++ ':' :: (resourceType ++ '/' :: name))) := by
      simp only [append_assoc]
      rfl
    rw [happend, nfc_append _ _ _ hcolon, nfc_append _ _ _ hcolon, nfc_append _ _ _ hcolon,
      nfc_ascii "iac".toList (by decide), nfc_ascii [] (by decide), normalizeRepoPath_nfc hpath,
      hqualified]
    rfl
  have hfree : ControlFree (resourceType ++ '/' :: nfc name) ↔ ControlFree (nfc name) := by
    constructor
    · exact fun h c hc => h c (mem_append_right _ (mem_cons_of_mem _ hc))
    · intro h c hc
      rcases mem_append.mp hc with hc | hc
      · exact htype.controlFree c hc
      rcases mem_cons.mp hc with rfl | hc
      · decide
      · exact h c hc
  have hfixed : nfc (resourceType ++ '/' :: nfc name) = resourceType ++ '/' :: nfc name := by
    rw [hqualified, nfc_nfc]
  rw [iacResourceStableKey, hpath, ok_bind, ← normalizeStableKey_nfc, hkey,
    normalizeStableKey_iac (normalizeRepoPath_nfc hpath) hfixed
      (mem_append_right _ mem_cons_self), hfree]

/-- When the key of a resource has a key again. -/
theorem iacKey_accepted {q : Str} (hpath : normalizeRepoPath path = .ok path)
    (htype : PlainType resourceType) (hkey : iacResourceStableKey path resourceType name = .ok key)
    (hq : normalizeRepoPath (manifestPart path) = .ok q) : KeyAccepted iacKind key ↔ KeyPath q := by
  have hcolon : ':' ∈ separators := by decide
  have hslash : '/' ∈ separators := by decide
  rcases (iacResourceStableKey_ok hpath htype).mp hkey with
    ⟨hfree, hname, q', rest, hq', -, hparts, rfl⟩
  rw [hq, Except.ok.injEq] at hq'
  subst hq'
  -- the text that the key is made of, split where it is read again
  have hsplit : path ++ ':' :: ':' :: (resourceType ++ '/' :: nfc name) =
      manifestPart path ++ ':' :: ':' :: (rest ++ (resourceType ++ '/' :: nfc name)) := by
    have h := congrArg (fun s => s ++ (resourceType ++ '/' :: nfc name)) hparts
    simpa using h
  have hfixed : nfc (path ++ ':' :: ':' :: (resourceType ++ '/' :: nfc name)) =
      path ++ ':' :: ':' :: (resourceType ++ '/' :: nfc name) := by
    change nfc (path ++ ':' :: ([] ++ ':' :: (resourceType ++ '/' :: nfc name))) = _
    rw [nfc_append _ _ _ hcolon, nfc_append _ _ _ hcolon, nfc_append _ _ _ hslash,
      nfc_ascii [] (by decide), nfc_ascii _ htype.ascii, normalizeRepoPath_nfc hpath, nfc_nfc]
    rfl
  rw [hsplit] at hfixed
  have hpart : nfc (manifestPart path) = manifestPart path := nfc_before hcolon hfixed
  have hqualified : nfc (rest ++ (resourceType ++ '/' :: nfc name)) =
      rest ++ (resourceType ++ '/' :: nfc name) := by
    have h := nfc_after hcolon hfixed
    exact nfc_after (s := []) hcolon h
  have hall : ∀ c ∈ manifestPart path ++ ':' :: ':' :: (rest ++ (resourceType ++ '/' :: nfc name)),
      ¬ c.toNat < 0x20 := by
    intro c hc
    rw [← hsplit] at hc
    rcases mem_append.mp hc with hc | hc
    · exact hfree c hc
    rcases mem_cons.mp hc with rfl | hc
    · decide
    rcases mem_cons.mp hc with rfl | hc
    · decide
    rcases mem_append.mp hc with hc | hc
    · exact htype.controlFree c hc
    rcases mem_cons.mp hc with rfl | hc
    · decide
    · exact hname c hc
  have hqfree : ControlFree q := by
    intro c hc
    rcases normalizeRepoPath_mem hq hc with rfl | hc
    · decide
    · rw [hpart] at hc
      exact hall c (mem_append_left _ hc)
  have hqualifiedfree : ControlFree (rest ++ (resourceType ++ '/' :: nfc name)) :=
    fun c hc => hall c (mem_append_right _ (mem_cons_of_mem _ (mem_cons_of_mem _ hc)))
  have hmem : '/' ∈ rest ++ (resourceType ++ '/' :: nfc name) :=
    mem_append_right _ (mem_append_right _ mem_cons_self)
  rw [append_assoc]
  constructor
  · rintro ⟨again, hagain⟩
    rcases (normalizeStableKey_iac (normalizeRepoPath_nfc hq) hqualified hmem).mp hagain with
      ⟨-, -, q', -, hq', hne, -, -⟩
    exact ⟨q', hq', hne⟩
  · rintro ⟨q', hq', hne⟩
    rcases splitDouble_isSome q with ⟨rest', -, hparts'⟩
    exact ⟨_, (normalizeStableKey_iac (normalizeRepoPath_nfc hq) hqualified hmem).mpr
      ⟨hqfree, hqualifiedfree, q', rest', hq', hne, hparts', rfl⟩⟩

/-- The key of a resource tells its type and its name. -/
theorem iacKey_injective {resourceType' name' : Str} (hpath : normalizeRepoPath path = .ok path)
    (htype : PlainType resourceType) (htype' : PlainType resourceType')
    (hkey : iacResourceStableKey path resourceType name = .ok key)
    (hkey' : iacResourceStableKey path resourceType' name' = .ok key) :
    resourceType = resourceType' ∧ nfc name = nfc name' := by
  rcases (iacResourceStableKey_ok hpath htype).mp hkey with ⟨-, -, q, rest, hq, -, hparts, rfl⟩
  rcases (iacResourceStableKey_ok hpath htype').mp hkey' with
    ⟨-, -, q', rest', hq', -, hparts', he⟩
  rw [hq, Except.ok.injEq] at hq'
  subst hq'
  rw [hparts] at hparts'
  have hrest : rest = rest' := by
    have h := append_cancel_left hparts'
    exact (List.cons.inj (List.cons.inj h).2).2
  subst hrest
  have he := (List.cons.inj (List.cons.inj (append_cancel_left he)).2).2
  have he := append_cancel_left he
  have hsplit := congrArg (splitOn '/') he
  rw [splitOn_append htype.noSlash, splitOn_append htype'.noSlash, List.cons.injEq] at hsplit
  rw [hsplit.1] at he
  exact ⟨hsplit.1, (List.cons.inj (append_cancel_left he)).2⟩

theorem iacFacts_regular (path : Str) : (iacFacts path).Regular := by
  have hnames : ∀ x : Resource, ((iacFacts path).properties x).map Prod.fst =
      ["resource_type", "manifest_format", "manifest_path"].map String.toList ∨
      ((iacFacts path).properties x).map Prod.fst =
        ["resource_type", "manifest_format", "manifest_path", "image"].map String.toList := by
    rintro ⟨resourceType, name, line, image, templated⟩
    cases image with
    | none => exact .inl rfl
    | some image => exact .inr rfl
  constructor
  case distinct =>
    intro x
    rcases hnames x with h | h
    · rw [h]
      decide
    · rw [h]
      decide
  case ascii =>
    intro x p hp
    have hname : p.1 ∈ ((iacFacts path).properties x).map Prod.fst := mem_map_of_mem hp
    rcases hnames x with h | h
    · rw [h] at hname
      exact (by decide : ∀ k ∈ ["resource_type", "manifest_format", "manifest_path"].map
        String.toList, Ascii k) _ hname
    · rw [h] at hname
      exact (by decide : ∀ k ∈ ["resource_type", "manifest_format", "manifest_path", "image"].map
        String.toList, Ascii k) _ hname
  case disclosed =>
    intro key x d hd
    change d ∈ (if x.templated then [unsupported _ path (some (x.line, x.line)) key] else []) at hd
    by_cases htemplated : x.templated = true
    · rw [if_pos htemplated, mem_singleton] at hd
      rw [hd]
      exact ⟨rfl, rfl⟩
    · rw [if_neg htemplated] at hd
      cases hd

/-- The image of a resource is one of its stored properties. -/
theorem mem_image (path : Str) {v : Str} :
    ("image".toList, Value.str v) ∈ ((iacFacts path).properties x).map storedProperty ↔
      x.image.map (fun image => nfc (masked image)) = some v := by
  rcases x with ⟨resourceType, name, line, image, templated⟩
  have htype : "image".toList ≠ "resource_type".toList := by decide
  have hformat : "image".toList ≠ "manifest_format".toList := by decide
  have hpath : "image".toList ≠ "manifest_path".toList := by decide
  cases image with
  | none =>
    simp only [iacFacts, append_nil, map_cons, map_nil, storedProperty,
      mem_cons, Prod.mk.injEq, htype, hformat, hpath, false_and, not_mem_nil, or_self,
      Option.map_none, reduceCtorEq]
  | some image =>
    simp only [iacFacts, cons_append, nil_append, map_cons, map_nil,
      storedProperty, mem_cons, Prod.mk.injEq, htype, hformat, hpath, false_and, false_or,
      true_and, Value.str.injEq, not_mem_nil, or_false, Option.map_some, Option.some.injEq]
    exact eq_comm

/-- Resources of one type are stored alike if they have one name and one image. -/
theorem stored_resource_iff {y : Resource} (htype : x.resourceType = y.resourceType) :
    stored x.name ((iacFacts path).properties x) = stored y.name ((iacFacts path).properties y) ↔
      nfc (masked x.name) = nfc (masked y.name) ∧
        x.image.map (fun image => nfc (masked image)) =
          y.image.map (fun image => nfc (masked image)) := by
  have hregular := iacFacts_regular path
  rw [stored_eq (hregular.distinct x) (hregular.ascii x),
    stored_eq (hregular.distinct y) (hregular.ascii y), Except.ok.injEq, Prod.mk.injEq]
  refine and_congr_right fun _ => ?_
  constructor
  · intro h
    have hperm : (((iacFacts path).properties x).map storedProperty).Perm
        (((iacFacts path).properties y).map storedProperty) := by
      refine (sortKeys_perm _).symm.trans ?_
      rw [Value.obj.inj h]
      exact sortKeys_perm _
    refine Option.ext fun v => ?_
    rw [← mem_image path, ← mem_image path]
    exact hperm.mem_iff
  · intro h
    have hsame : ((iacFacts path).properties x).map storedProperty =
        ((iacFacts path).properties y).map storedProperty := by
      rcases x with ⟨resourceType, name, line, image, templated⟩
      rcases y with ⟨resourceType', name', line', image', templated'⟩
      have htype : resourceType = resourceType' := htype
      subst htype
      cases image with
      | none =>
        cases image' with
        | none => rfl
        | some image' => cases h
      | some image =>
        cases image' with
        | none => cases h
        | some image' =>
          have himage : nfc (masked image) = nfc (masked image') := Option.some.inj h
          simp only [iacFacts, cons_append, nil_append, map_cons, map_nil,
            storedProperty, himage]
    rw [hsame]

omit [Unicode] in
/-- The types of the resources of a compose file are plain. -/
theorem composeResources_type {d : Decoders} (h : composeResources d text = .ok resources) :
    ∀ x ∈ resources, PlainType x.resourceType := by
  have hplain : ∀ entry ∈ composeResourceSections, PlainType entry.2 := by
    intro entry hentry
    have hall : ∀ entry ∈ composeResourceSections,
        Ascii entry.2 ∧ ControlFree entry.2 ∧ '/' ∉ entry.2 := by decide
    rcases hall entry hentry with ⟨hascii, hfree, hslash⟩
    exact ⟨hascii, hfree, hslash⟩
  have hsection : ∀ entry part, composeSection entry = .ok part →
      ∀ x ∈ part, PlainType x.resourceType := by
    intro entry part hpart x hx
    unfold composeSection at hpart
    split at hpart
    · rw [← Except.ok.inj hpart] at hx
      cases hx
    · rename_i resourceType hlookup
      rcases Option.bind_eq_some_iff.mp hlookup with ⟨name, -, hlookup⟩
      rcases lookup_eq_some_iff.mp hlookup with ⟨before, after, hsections, -⟩
      have hmem : (name, resourceType) ∈ composeResourceSections := by
        rw [hsections]
        exact mem_append_right _ mem_cons_self
      split at hpart
      · rw [← Except.ok.inj hpart] at hx
        cases hx
      · rcases (mem_collect hpart).mp hx with ⟨e, -, he⟩
        rcases bind_eq_ok.mp he with ⟨name', -, he⟩
        rcases bind_eq_ok.mp he with ⟨image, -, he⟩
        cases he
        exact hplain _ hmem
      · cases hpart
  intro x hx
  unfold composeResources at h
  split at h
  · cases h
  · rw [← Except.ok.inj h] at hx
    cases hx
  · rcases bind_eq_ok.mp h with ⟨sections, hsections, h⟩
    rw [← Except.ok.inj h, SortKeys.mem_sortBy] at hx
    rcases mem_flatten.mp hx with ⟨part, hpart, hx⟩
    rcases (mem_collect hsections).mp hpart with ⟨entry, -, hentry⟩
    exact hsection entry part hentry x hx
  · cases h

/-- What is asked of resources, of the keys and of what is stored. -/
theorem fineFacts_iac (hpath : normalizeRepoPath path = .ok path) (hfree : ControlFree path)
    (htypes : ∀ x ∈ resources, PlainType x.resourceType) :
    FineFacts (iacFacts path) text resources ↔ FineResources path text resources := by
  -- What the key of a resource is, and when there is one.
  have hkey : ∀ x ∈ resources, ∀ key, (iacFacts path).key x = .ok key ↔
      ControlFree path ∧ ControlFree (nfc (masked x.name)) ∧
      ∃ q rest, normalizeRepoPath (manifestPart path) = .ok q ∧ q ≠ [] ∧
        path ++ [':', ':'] = manifestPart path ++ ':' :: ':' :: rest ∧
        key = "iac:".toList ++ q ++ ':' :: ':' ::
          (rest ++ (x.resourceType ++ '/' :: nfc (masked x.name))) :=
    fun x hx key => iacResourceStableKey_ok hpath (htypes x hx)
  constructor
  · intro h
    constructor
    case part =>
      intro hne
      rcases exists_mem_of_ne_nil _ hne with ⟨x, hx⟩
      rcases h.keys x hx with ⟨key, hx'⟩
      rcases (hkey x hx key).mp hx' with ⟨-, -, q, -, hq, hqne, -, -⟩
      exact ⟨q, hq, hqne⟩
    case again =>
      intro x hx hline q hq
      rcases h.keys x hx with ⟨key, hx'⟩
      exact (iacKey_accepted hpath (htypes x hx) hx' hq).mp (h.again x hx hline key hx')
    case names =>
      intro x hx
      rcases h.keys x hx with ⟨key, hx'⟩
      exact ((hkey x hx key).mp hx').2.1
    case encodable =>
      intro x hx hline
      refine ⟨h.names x hx hline, fun image himage => ?_⟩
      refine h.values x hx hline ("image".toList, some image) ?_ image rfl
      simp only [iacFacts, himage, mem_append, mem_singleton, or_true]
    -- Two resources of one type and name have one key.
    case images =>
      intro x hx y hy hline hline' htype hname
      rcases h.keys x hx with ⟨key, hx'⟩
      have hsame : (iacFacts path).key x = (iacFacts path).key y := by
        rcases (hkey x hx key).mp hx' with hmade
        rw [hx', eq_comm]
        refine (hkey y hy key).mpr ?_
        rw [← hname, ← htype]
        exact hmade
      exact ((stored_resource_iff htype).mp (h.agree rfl x hx y hy hline hline' hsame)).2
  · intro h
    -- Conversely, every resource has a key, and it is accepted where it is normalized again.
    have hkeys : ∀ x ∈ resources, ∃ key, (iacFacts path).key x = .ok key := by
      intro x hx
      rcases h.part (ne_nil_of_mem hx) with ⟨q, hq, hne⟩
      rcases splitDouble_isSome path with ⟨rest, -, hparts⟩
      exact ⟨_, (hkey x hx _).mpr ⟨hfree, h.names x hx, q, rest, hq, hne, hparts, rfl⟩⟩
    constructor
    case keys => exact hkeys
    case again =>
      intro x hx hline key hx'
      rcases h.part (ne_nil_of_mem hx) with ⟨q, hq, -⟩
      exact (iacKey_accepted hpath (htypes x hx) hx' hq).mpr (h.again x hx hline q hq)
    case names => exact fun x hx hline => (h.encodable x hx hline).1
    case values =>
      intro x hx hline p hp s hs
      have himage := (h.encodable x hx hline).2
      simp only [iacFacts, mem_append, mem_cons, not_mem_nil, or_false] at hp
      rcases hp with (rfl | rfl | rfl) | hp
      · rw [← Option.some.inj hs]
        exact encodable_ofStr _
      · rw [← Option.some.inj hs]
        exact encodable_ofStr _
      · rw [← Option.some.inj hs]
        exact encodable_ofStr _
      · cases hx' : x.image with
        | none =>
          rw [hx'] at hp
          exact absurd hp not_mem_nil
        | some image =>
          rw [hx', mem_singleton] at hp
          rw [hp] at hs
          rw [← Option.some.inj hs]
          exact himage image hx'
    -- Two resources of one key have one type and name.
    case agree =>
      intro _ x hx y hy hline hline' hsame
      rcases hkeys x hx with ⟨key, hx'⟩
      have hy' : (iacFacts path).key y = .ok key := by rw [← hsame, hx']
      rcases iacKey_injective hpath (htypes x hx) (htypes y hy) hx' hy' with ⟨htype, hname⟩
      exact (stored_resource_iff htype).mpr
        ⟨hname, h.images x hx y hy hline hline' htype hname⟩

end Resources

section Dependencies

variable [Unicode] [Interpreter]

/-- The key of a dependency has itself for a key. -/
theorem dependencyKey_accepted {ecosystem : Ecosystem} {name key : Str}
    (h : dependencyStableKey ecosystem name = .ok key) : KeyAccepted dependencyKind key := by
  have hfree := dependencyStableKey_ok.mp ⟨key, h⟩
  have hkind : nfc "dependency".toList = "dependency".toList := nfc_ascii _ (by decide)
  have hne : nfc (dependencyKeyText ecosystem name) ≠ [] := by
    rw [nfc_dependencyKeyText]
    exact append_ne_nil_of_right_ne_nil _ (cons_ne_nil _ _)
  have hany : ¬ (nfc (dependencyKeyText ecosystem name)).any (fun c => c.toNat < 0x20) = true := by
    intro hany
    rcases any_eq_true.mp hany with ⟨c, hc, hlow⟩
    exact hfree c hc (of_decide_eq_true hlow)
  have hform : normalizeKindKey "dependency".toList (nfc (dependencyKeyText ecosystem name)) =
      .ok (nfc (dependencyKeyText ecosystem name)) := by
    rw [nfc_dependencyKeyText, normalizeKindKey_dependency]
  have htext : normalizeStableKey "dependency".toList (dependencyKeyText ecosystem name) =
      .ok (nfc (dependencyKeyText ecosystem name)) := by
    rw [normalizeStableKey, hkind, if_neg (not_or.mpr ⟨by decide, hne⟩), if_neg hany, hform]
  rw [dependencyStableKey_eq, htext, Except.ok.injEq] at h
  refine ⟨nfc (dependencyKeyText ecosystem name), ?_⟩
  rw [← h]
  change normalizeStableKey "dependency".toList (nfc (dependencyKeyText ecosystem name)) = _
  rw [normalizeStableKey_nfc, htext]

variable {path text : Str}

theorem manifestFacts_regular (path : Str) : (manifestFacts path).Regular := by
  have hnames : ∀ x, ((manifestFacts path).properties x).map Prod.fst =
      ["ecosystem", "version", "dependency_type", "manifest_path", "workspace_path"].map
        String.toList := fun x => rfl
  constructor
  case distinct =>
    intro x
    rw [hnames]
    decide
  case ascii =>
    intro x p hp
    have hname : p.1 ∈ ((manifestFacts path).properties x).map Prod.fst := mem_map_of_mem hp
    rw [hnames] at hname
    exact (by decide : ∀ k ∈ ["ecosystem", "version", "dependency_type", "manifest_path",
      "workspace_path"].map String.toList, Ascii k) _ hname
  case disclosed => exact fun key x d hd => absurd hd not_mem_nil

theorem lockfileFacts_regular (path lockfileFormat : Str) :
    (lockfileFacts path lockfileFormat).Regular := by
  have hnames : ∀ x, ((lockfileFacts path lockfileFormat).properties x).map Prod.fst =
      ["ecosystem", "resolved_version", "dependency_scope", "lockfile_path", "lockfile_format",
        "lockfile_entry", "workspace_path"].map String.toList := fun x => rfl
  constructor
  case distinct =>
    intro x
    rw [hnames]
    decide
  case ascii =>
    intro x p hp
    have hname : p.1 ∈ ((lockfileFacts path lockfileFormat).properties x).map Prod.fst :=
      mem_map_of_mem hp
    rw [hnames] at hname
    exact (by decide : ∀ k ∈ ["ecosystem", "resolved_version", "dependency_scope", "lockfile_path",
      "lockfile_format", "lockfile_entry", "workspace_path"].map String.toList, Ascii k) _ hname
  case disclosed => exact fun key x d hd => absurd hd not_mem_nil

omit [Unicode] [Interpreter] in
theorem not_iacKind : dependencyKind ≠ iacKind := by
  decide

/-- What is asked of declarations, of the keys and of what is stored. -/
theorem fineFacts_manifest {declarations : List ManifestDeclaration} :
    FineFacts (manifestFacts path) text declarations ↔ FineDeclarations text declarations := by
  constructor
  · intro h
    constructor
    case names => exact fun x hx => dependencyStableKey_ok.mp (h.keys x hx)
    case encodable =>
      intro x hx hline
      refine ⟨h.names x hx hline, fun version hversion => ?_⟩
      refine h.values x hx hline ("version".toList, some version) ?_ version rfl
      simp [manifestFacts, hversion]
  · intro h
    constructor
    case keys => exact fun x hx => dependencyStableKey_ok.mpr (h.names x hx)
    case again => exact fun x _ _ key hkey => dependencyKey_accepted hkey
    case names => exact fun x hx hline => (h.encodable x hx hline).1
    case values =>
      intro x hx hline p hp s hs
      simp only [manifestFacts, mem_cons, not_mem_nil, or_false] at hp
      rcases hp with rfl | rfl | rfl | rfl | rfl
      · cases hs
        exact encodable_ofStr _
      · exact (h.encodable x hx hline).2 s hs
      · cases hs
        exact encodable_ofStr _
      · cases hs
        exact encodable_ofStr _
      · cases hs
        exact encodable_ofStr _
    case agree => exact fun hkind => absurd hkind not_iacKind

/-- What is asked of resolutions, of the keys and of what is stored. -/
theorem fineFacts_lockfile {lockfileFormat : Str} {resolutions : List Resolution} :
    FineFacts (lockfileFacts path lockfileFormat) text resolutions ↔
      FineResolutions text resolutions := by
  constructor
  · intro h
    constructor
    case names => exact fun x hx => dependencyStableKey_ok.mp (h.keys x hx)
    case encodable =>
      intro x hx hline
      refine ⟨h.names x hx hline, ?_, ?_⟩
      · refine h.values x hx hline ("resolved_version".toList, some x.version) ?_ x.version rfl
        simp [lockfileFacts]
      · refine h.values x hx hline ("lockfile_entry".toList, some x.entry) ?_ x.entry rfl
        simp [lockfileFacts]
  · intro h
    constructor
    case keys => exact fun x hx => dependencyStableKey_ok.mpr (h.names x hx)
    case again => exact fun x _ _ key hkey => dependencyKey_accepted hkey
    case names => exact fun x hx hline => (h.encodable x hx hline).1
    case values =>
      intro x hx hline p hp s hs
      have hline := h.encodable x hx hline
      simp only [lockfileFacts, mem_cons, not_mem_nil, or_false] at hp
      rcases hp with rfl | rfl | rfl | rfl | rfl | rfl | rfl
      · cases hs
        exact encodable_ofStr _
      · cases hs
        exact hline.2.1
      · rcases Option.map_eq_some_iff.mp hs with ⟨scope, -, rfl⟩
        exact encodable_ofStr _
      · cases hs
        exact encodable_ofStr _
      · cases hs
        exact encodable_ofStr _
      · cases hs
        exact hline.2.2
      · cases hs
        exact encodable_ofStr _
    case agree => exact fun hkind => absurd hkind not_iacKind

end Dependencies

section Sources

variable [Unicode] {path : Str} {source : List UInt8}

variable {d : ExtractedDiagnostic}

/-- A source that is not text is reported, under the key of its file if it has one. -/
theorem decodeSource_subject (h : decodeSource path source = .error d) :
    d.subject = (sourceSubject path).2 := by
  unfold decodeSource at h
  by_cases hzero : 0 ∈ source
  · simp only [hzero, if_true, Except.error.injEq] at h
    rw [← h]
  · simp only [hzero, if_false] at h
    cases hdecode : Utf8.decode source with
    | none =>
      simp only [hdecode, Except.error.injEq] at h
      rw [← h]
    | some text =>
      rw [hdecode] at h
      cases h

theorem persistable_reported
    (h : ∀ subject, d.subject = some subject → KeyAccepted fileKind subject) :
    Persistable (reported d) where
  nodeKeys n hn := absurd hn not_mem_nil
  observationKeys o ho := absurd ho not_mem_nil
  diagnosticKeys d' hd' subject hsubject := by
    rw [reported, mem_singleton] at hd'
    rw [hd'] at hsubject
    exact .inl (h subject hsubject)
  names n hn := absurd hn not_mem_nil
  values n hn := absurd hn not_mem_nil
  agree n hn := absurd hn not_mem_nil

theorem reported_failsClosed
    (h : ∀ subject, d.subject = some subject → KeyAccepted fileKind subject) :
    FailsClosed (.ok (reported d)) :=
  ⟨_, rfl, persistable_reported h⟩

theorem not_failsClosed {e : ExtractError} : ¬ FailsClosed (.error e) := by
  rintro ⟨r, hr, -⟩
  cases hr

/-- The key of a file under a path that is one. -/
theorem keyOfFile_ok (hpath : normalizeRepoPath path = .ok path) (hne : path ≠ [])
    (hfree : ControlFree path) :
    normalizeStableKey fileKind ("file:".toList ++ path) = .ok ("file:".toList ++ path) ∧
      keyOfFile path = .ok ("file:".toList ++ path) := by
  have hany : ¬ (path.any fun c => c.toNat < 0x20) = true := by
    intro h
    rcases any_eq_true.mp h with ⟨c, hc, hlow⟩
    exact hfree c hc (of_decide_eq_true hlow)
  have hkey : normalizeStableKey fileKind ("file:".toList ++ path) =
      .ok ("file:".toList ++ path) := by
    refine (normalizeStableKey_file hpath).trans ?_
    rw [if_neg hany, if_neg hne]
  exact ⟨hkey, by rw [keyOfFile, hkey]⟩

/-- A path that is no key is not even decoded under. -/
theorem decode_error (source : List UInt8) (hpath : normalizeRepoPath path = .ok path)
    (h : ¬ (path ≠ [] ∧ ControlFree path)) : ∃ e, decode path source = .error e := by
  have hcontrol : ¬ ControlFree path → (path.any fun c => c.toNat < 0x20) = true := by
    intro hfree
    by_contra hany
    refine hfree fun c hc hlow => hany ?_
    exact any_eq_true.mpr ⟨c, hc, decide_eq_true hlow⟩
  have hkey : normalizeStableKey fileKind ("file:".toList ++ path) = _ :=
    normalizeStableKey_file hpath
  unfold decode
  rw [hpath]
  simp only [hkey]
  by_cases hany : (path.any fun c => c.toNat < 0x20) = true
  · rw [if_pos hany]
    exact ⟨_, rfl⟩
  · have hne : path = [] := by
      by_contra hne
      exact h ⟨hne, by_contra fun hfree => hany (hcontrol hfree)⟩
    rw [if_neg hany, if_pos hne]
    exact ⟨_, rfl⟩

/-- What all three extractors begin with, and what is left to ask of the text. -/
theorem extractText_failsClosed (p : NormalizedPath)
    {read : Str → Str → Except ExtractError ManifestResult} {fine : Str → Prop}
    (hread : normalizeRepoPath p.text = .ok p.text → p.text ≠ [] → ControlFree p.text →
      ∀ text, FailsClosed (read p.text text) ↔ fine text) :
    FailsClosed (extractText p.text source read) ↔ Readable p.text source fine := by
  by_cases hdrive : driveLike p.text = true
  · -- the path is refused again, and nothing is read
    have herror : ∃ e, normalizeRepoPath p.text = .error e := by
      rw [normalizeRepoPath_again p.normal, if_pos hdrive]
      exact ⟨_, rfl⟩
    rcases herror with ⟨e, he⟩
    refine iff_of_true ?_ (.inl hdrive)
    have hdecode : decode p.text source = .ok (decodeSource p.text source) := by
      rw [decode, he]
    unfold extractText
    rw [hdecode, he]
    cases hsource : decodeSource p.text source with
    | error d =>
      refine reported_failsClosed fun subject hsubject => ?_
      rw [decodeSource_subject hsource, sourceSubject, he] at hsubject
      cases hsubject
    | ok text => exact reported_failsClosed fun subject hsubject => by cases hsubject
  · have hpath : normalizeRepoPath p.text = .ok p.text := by
      rw [normalizeRepoPath_again p.normal, if_neg hdrive]
    by_cases hkey : p.text ≠ [] ∧ ControlFree p.text
    · rcases keyOfFile_ok hpath hkey.1 hkey.2 with ⟨hstable, hfile⟩
      have hreadable : Readable p.text source fine ↔
          ∀ text, 0 ∉ source → source = utf8 text → fine text := by
        simp [Readable, hdrive, hkey.1, hkey.2]
      have hagain : decode p.text source = .ok (decodeSource p.text source) := by
        unfold decode
        rw [hpath]
        simp only [hstable]
      rw [hreadable]
      unfold extractText
      rw [hagain, hpath]
      cases hsource : decodeSource p.text source with
      | error d =>
        refine iff_of_true (reported_failsClosed fun subject hsubject => ?_)
          fun text hzero htext => ?_
        · rw [decodeSource_subject hsource, sourceSubject, hpath] at hsubject
          have hstable : normalizeStableKey "file".toList ("file:".toList ++ p.text) =
              .ok ("file:".toList ++ p.text) := hstable
          simp only [hstable, Option.some.injEq] at hsubject
          rw [← hsubject]
          exact fileKey_accepted hpath hkey.1 hkey.2
        · rw [decodeSource_eq_ok.mpr ⟨hzero, htext⟩] at hsource
          cases hsource
      | ok text =>
        rcases decodeSource_eq_ok.mp hsource with ⟨hzero, htext⟩
        refine (hread hpath hkey.1 hkey.2 text).trans ⟨fun h text' _ htext' => ?_, fun h => ?_⟩
        · have hsame : decodeSource p.text source = .ok text' :=
            decodeSource_eq_ok.mpr ⟨hzero, htext'⟩
          rw [hsource, Except.ok.injEq] at hsame
          rw [← hsame]
          exact h
        · exact h text hzero htext
    · rcases decode_error source hpath hkey with ⟨e, he⟩
      refine iff_of_false ?_ fun h => ?_
      · unfold extractText
        rw [he]
        exact not_failsClosed
      · rcases h with h | ⟨hne, hfree, -⟩
        · exact hdrive h
        · exact hkey ⟨hne, hfree⟩

/-- The subject of a diagnostic on a file. -/
theorem fileSubject_accepted (hpath : normalizeRepoPath path = .ok path) (hne : path ≠ [])
    (hfree : ControlFree path) (hd : d.subject = none ∨ d.subject = some ("file:".toList ++ path)) :
    FailsClosed (.ok (reported d)) := by
  refine reported_failsClosed fun subject hsubject => ?_
  rcases hd with hd | hd
  · rw [hd] at hsubject
    cases hsubject
  · rw [hd, Option.some.injEq] at hsubject
    rw [← hsubject]
    exact fileKey_accepted hpath hne hfree

/-- What is made of a reading fails closed if what is made of what was found does. -/
theorem whenRead_failsClosed {β : Type} {reading : Except ReadError β}
    {malformed : ExtractedDiagnostic} {found : β → Except ExtractError ManifestResult}
    {fine : β → Prop} (hmalformed : FailsClosed (.ok (reported malformed)))
    (hfound : ∀ b, reading = .ok b → (FailsClosed (found b) ↔ fine b)) :
    FailsClosed (whenRead reading malformed found) ↔ Read reading fine := by
  cases reading with
  | ok b =>
    have hiff := hfound b rfl
    simp [whenRead, hiff, Read]
  | error e =>
    have hread : Read (.error e) fine ↔ e = .malformed := by
      simp [Read]
    rw [hread]
    by_cases he : e = .malformed
    · rw [he]
      exact iff_of_true hmalformed rfl
    · refine iff_of_false ?_ he
      have hraised : whenRead (.error e) malformed found = .error (.unread e) := by
        rw [whenRead]
        exact he
      rw [hraised]
      exact not_failsClosed

end Sources

section Extractors

variable [Unicode] [Interpreter] [Text]

/-- When the extractors of the manifest family fail closed: the path is refused as that of a
    drive, or it is a key, nothing but a malformed text is refused, and what is read from the text
    is fine. -/
theorem manifests_fail_closed (d : Decoders) (p : NormalizedPath) (source : List UInt8) :
    (FailsClosed (dependencyManifestExtract d p.text source) ↔
      Readable p.text source (fun text =>
        Read (manifestDeclarations d (basename p.text) text) (FineDeclarations text))) ∧
    (FailsClosed (lockfileExtract d p.text source) ↔
      Readable p.text source (fun text =>
        Read (lockfileResolutions d (basename p.text) text)
          (fun resolved => ∀ found, resolved = .ok found → FineResolutions text found.1))) ∧
    (FailsClosed (iacExtract d p.text source) ↔
      Readable p.text source (fun text =>
        Read (composeResources d text) (FineResources p.text text))) := by
  refine ⟨?_, ?_, ?_⟩
  · refine extractText_failsClosed p fun hpath hne hfree text => ?_
    refine whenRead_failsClosed (fileSubject_accepted hpath hne hfree (.inl rfl))
      fun declarations _ => ?_
    exact (Facts.failsClosed_iff (manifestFacts_regular p.text) hpath).trans fineFacts_manifest
  · refine extractText_failsClosed p fun hpath hne hfree text => ?_
    simp only [(keyOfFile_ok hpath hne hfree).2]
    refine whenRead_failsClosed (fileSubject_accepted hpath hne hfree (.inr rfl))
      fun resolved _ => ?_
    cases resolved with
    | error message =>
      refine iff_of_true (fileSubject_accepted hpath hne hfree (.inr rfl)) fun found h => ?_
      cases h
    | ok found =>
      simp only [Except.ok.injEq, forall_eq']
      exact (Facts.failsClosed_iff (lockfileFacts_regular p.text found.2) hpath).trans
        fineFacts_lockfile
  · refine extractText_failsClosed p fun hpath hne hfree text => ?_
    simp only [(keyOfFile_ok hpath hne hfree).2]
    refine whenRead_failsClosed (fileSubject_accepted hpath hne hfree (.inr rfl))
      fun resources hread => ?_
    exact (Facts.failsClosed_iff (iacFacts_regular p.text) hpath).trans
      (fineFacts_iac hpath hfree (composeResources_type hread))

end Extractors

section Failing

/-- A service with an image, as it stands in a section. -/
def serviceEntry (name image : String) (line : Nat) : YamlNode × YamlNode :=
  (.scalar (ofStr name.toList) line,
    .mapping [(.scalar (ofStr "image".toList) (line + 1),
      .scalar (ofStr image.toList) (line + 1))] (line + 1))

/-- Decoders of a compose file that has a service twice. No other file is decoded. -/
def serviceTwice : Decoders where
  jsonLoads _ := .error .malformed
  jsonString _ := none
  tomlLoads _ := .error .malformed
  yamlCompose _ := .ok (some (.mapping [(.scalar (ofStr "services".toList) 0,
    .mapping [serviceEntry "web" "a" 1, serviceEntry "web" "b" 3] 1)] 0))
  frames := 1000

/-- A resource of that file. -/
def webService (image : String) (line : Nat) : Resource :=
  { resourceType := serviceType
    name := ofStr "web".toList
    line := line
    image := some (ofStr image.toList)
    templated := false }

/-- The text of that file. -/
def serviceTwiceText : Str :=
  "services:\n  web:\n    image: a\n  web:\n    image: b\n".toList

/-- A requirement with a control character raises, and a service with two images makes two nodes
    of one key. -/
theorem manifests_fail_open :
    ¬ @FailsClosed asciiText (@dependencyManifestExtract asciiText cpython Http.asciiUrls
      serviceTwice "requirements.txt".toList [0x61, 0x01]) ∧
    ¬ @FailsClosed asciiText (@iacExtract asciiText serviceTwice "compose.yaml".toList
      (utf8 serviceTwiceText)) := by
  constructor
  · have hraised : @dependencyManifestExtract asciiText cpython Http.asciiUrls serviceTwice
        "requirements.txt".toList [0x61, 0x01] = .error (.raised (.canonical
          (.canonicalization "stable keys cannot contain control characters"))) := by
      rfl
    rw [hraised]
    exact @not_failsClosed asciiText _
  · rintro ⟨r, hr, hpersist⟩
    have hrun : ∃ r', @iacExtract asciiText serviceTwice "compose.yaml".toList
        (utf8 serviceTwiceText) = .ok r' ∧ ∃ n n', r'.nodes = [n, n'] ∧
          n.stableKey = n'.stableKey ∧ n.nodeKind = iacKind ∧ n'.nodeKind = iacKind ∧
          n.name = (webService "a" 2).name ∧ n'.name = (webService "b" 4).name ∧
          n.properties =
            (@iacFacts asciiText "compose.yaml".toList).properties (webService "a" 2) ∧
          n'.properties =
            (@iacFacts asciiText "compose.yaml".toList).properties (webService "b" 4) :=
      ⟨_, rfl, _, _, rfl, rfl, rfl, rfl, rfl, rfl, rfl, rfl⟩
    rcases hrun with ⟨r', hr', n, n', hnodes, hkey, hkind, hkind', hname, hname', hprops, hprops'⟩
    rw [hr, Except.ok.injEq] at hr'
    rw [← hr'] at hnodes
    have hagree := @Persistable.agree asciiText r hpersist n
      (by rw [hnodes]; exact mem_cons_self) n'
      (by rw [hnodes]; exact mem_cons_of_mem _ mem_cons_self) hkind hkind' hkey
    rw [hname, hname', hprops, hprops'] at hagree
    have himage := ((@stored_resource_iff asciiText _ (webService "a" 2) (webService "b" 4)
      rfl).mp hagree).2
    have hsame : ['a'] = ['b'] := Option.some.inj himage
    exact absurd hsame (by decide)

end Failing

end Manifests

end Partha
