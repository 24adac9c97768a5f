import Partha.Extraction.Symbols
import Partha.Library.UrlParse
import Partha.Resolution.Soundness

/-!
# Edges of Nested Declarations

The `contains` and `defines` edges that the resolver makes of the definitions of a file.

The resolver finds the parent of a definition by cutting its key at the last dot. What is left
is the base key of the declaration around it, and that is the key of the first declaration with
this base key. A declaration that comes later has a number in its key, which is nowhere in the
keys of what is nested in it: what it contains hangs on the first one. A name with a dot in it
is itself cut.

## Main definitions

* `Contains`: The `contains` edges.
* `FollowsNesting`: The edges follow the nesting of the declarations.
* `Aligned`: The declarations of which they do.

## Theorems

* `edges_follow_nesting`: The edges follow the nesting of exactly these.
* `edges_misplaced`: A class that is defined twice, and a name with a dot.
-/

namespace Partha

namespace LexicalNesting

open Canonical Checked Extraction Nesting Resolution
open UrlParse (append_digits_inj digit_of_mem not_mem_digits)
open List

section Definitions

/-- The `contains` edges of the definitions in a snapshot. -/
def Contains (t : Tables) (container key : Str) : Prop :=
  ∃ i ∈ inputsOf t "definition", ∃ kind kind' evidence derivedFrom,
    Fact.edge kind container "contains".toList kind' key evidence derivedFrom ∈
      resolveDefinition t i

/-- The two edges of a definition. -/
def structuralEdges (i : Input) (kind container key : Str) : List Fact :=
  ["contains".toList, "defines".toList].map (fun predicate =>
    .edge kind container predicate symbolKind key (resolverEvidence i.evidence)
      i.observation.observationId)

/-- What a snapshot has of a file: its node, and those of its symbols with their definitions. -/
structure FileStored (t : Tables) (path : Str) (keys : List Str) : Prop where
  unique : (t.nodes.map (·.stableKey)).Nodup
  file : ∃ n ∈ t.nodes, n.nodeKind = Resolution.fileKind ∧ n.stableKey = fileKey path
  symbols : ∀ key ∈ keys, ∃ n ∈ t.nodes, n.nodeKind = symbolKind ∧ n.stableKey = key
  definitions : ∀ key ∈ keys, ∃ i ∈ inputsOf t "definition", i.observation.subjectKey = key

/-- Declarations have keys of their own, and the edges of each are from the file if it is at the
    top, and else from the declaration around it. The `contains` edges are a forest with the file
    as its root, and what is contained has its lines within those of its container. -/
structure FollowsNesting (t : Tables) (path : Str) (ps : List (Place Declaration))
    (keys : List Str) : Prop where
  each : keys.length = ps.length
  distinct : keys.Nodup
  top : ∀ q ∈ ps.zip keys, q.1.address.tail = [] → ∀ i ∈ inputsOf t "definition",
    i.observation.subjectKey = q.2 →
      resolveDefinition t i = structuralEdges i Resolution.fileKind (fileKey path) q.2
  nested : ∀ q ∈ ps.zip keys, ∀ r ∈ ps.zip keys, q.1.address.tail = r.1.address →
    ∀ i ∈ inputsOf t "definition", i.observation.subjectKey = q.2 →
      resolveDefinition t i = structuralEdges i symbolKind r.2 q.2
  forest : IsForest (Contains t) (fileKey path) keys
  lines : ∀ q ∈ ps.zip keys, ∀ r ∈ ps.zip keys, Contains t r.2 q.2 →
    r.1.label.startLine ≤ q.1.label.startLine ∧ q.1.label.endLine ≤ r.1.label.endLine

/-- What is used of normal form C beside `Unicode`: it does not reach across the two characters
    that qualified names are made with. -/
class JoinedText [Unicode] : Prop where
  nfc_dot : ∀ s t : Str, nfc (s ++ '.' :: t) = nfc s ++ '.' :: nfc t
  nfc_hash : ∀ s t : Str, nfc (s ++ '#' :: t) = nfc s ++ '#' :: nfc t

export JoinedText (nfc_dot nfc_hash)

variable [Unicode]

/-- What a parser gives: the lines of a declaration are within those of the one around it, and its
    name is some text that does not end like a discriminator. -/
structure Parsed (ps : List (Place Declaration)) : Prop where
  lines : ∀ p ∈ ps, ∀ q ∈ ps, p.address.tail = q.address →
    q.label.startLine ≤ p.label.startLine ∧ p.label.endLine ≤ q.label.endLine
  named : ∀ p ∈ ps, p.label.name ≠ []
  plain : ∀ p ∈ ps, ∀ s digits, nfc p.label.name = s ++ '#' :: digits →
    ∃ c ∈ digits, c.isDigit = false

/-- Keys can be cut where they were joined. The path has no `::`, and a name no dot. A qualified
    name has no control character, and two that are different differ in normal form. A declaration
    with the qualified name of an earlier one has no other within. The lines are those that are
    counted in the file: a parser may end a line where no line feed is. -/
structure Aligned (path : Str) (lineCount : Nat) (ps : List (Place Declaration)) : Prop where
  inFile : AllInFile lineCount ps
  path : ps ≠ [] → DoubleFree path
  dotless : ∀ p ∈ ps, '.' ∉ nfc p.label.name
  printable : ∀ p ∈ ps, ∀ c ∈ nfc (qualified p), 0x20 ≤ c.toNat
  apart : ∀ p ∈ ps, ∀ q ∈ ps, nfc (qualified p) = nfc (qualified q) → qualified p = qualified q
  flat : ∀ earlier p later, ps = earlier ++ p :: later →
    (∃ e ∈ earlier, qualified e = qualified p) → ∀ q ∈ ps, q.address.tail ≠ p.address

end Definitions

section Cutting

variable {t path : Str}

/-- A text is cut at its last dot. -/
theorem beforeLastDot_append (s : Str) (h : '.' ∉ t) : beforeLastDot (s ++ '.' :: t) = s := by
  have hfree : ∀ c ∈ t.reverse, (decide (c ≠ '.')) = true := fun c hc =>
    decide_eq_true (fun he => h (by rw [← he]; exact mem_reverse.mp hc))
  rw [beforeLastDot, reverse_append, reverse_cons, append_assoc,
    dropWhile_append_of_pos hfree]
  simp

/-- The last dot of a text is in its end if that has one. -/
theorem beforeLastDot_end (s : Str) (h : '.' ∈ t) : ∃ u, beforeLastDot (s ++ t) = s ++ u := by
  rcases split_first (fun c => c = '.') t.reverse with hfree | ⟨u, c, v, ht, hu, hc⟩
  · exact absurd (hfree '.' (mem_reverse.mpr h)) (by decide)
  · have hc : c = '.' := of_decide_eq_true hc
    have hsplit : t = v.reverse ++ '.' :: u.reverse := by
      rw [← reverse_reverse t, ht, hc, reverse_append, reverse_cons,
        append_assoc]
      rfl
    refine ⟨v.reverse, ?_⟩
    rw [hsplit, ← append_assoc, beforeLastDot_append]
    exact fun hmem => absurd (hu '.' (mem_reverse.mp hmem)) (by decide)

/-- A text that ends like a discriminator does so after its last dot. -/
theorem discriminator_end {s u digits : Str} (hdigits : '.' ∉ digits)
    (h : s ++ '.' :: t = u ++ '#' :: digits) : ∃ v, t = v ++ '#' :: digits := by
  rcases append_eq_append_iff.mp h with ⟨v, -, hv⟩ | ⟨v, -, hv⟩
  · cases v with
    | nil => cases (List.cons.inj hv).1
    | cons c v => exact ⟨v, (List.cons.inj hv).2⟩
  · cases v with
    | nil => cases (List.cons.inj hv).1
    | cons c v =>
      refine absurd ?_ hdigits
      rw [(List.cons.inj hv).2]
      exact mem_append_right v mem_cons_self

/-- The key of a file is split where its path is. -/
theorem splitDouble_fileKey (h : path.head? ≠ some ':') :
    splitDouble (fileKey path) =
      (splitDouble path).map (fun p => ("file:".toList ++ p.1, p.2)) := by
  change splitDouble ('f' :: 'i' :: 'l' :: 'e' :: ':' :: path) = _
  simp only [splitDouble, List.head?_cons, Char.reduceEq, false_and, true_and, if_false, h,
    Option.map_map]
  rfl

/-- No symbol of a path has the key of the file, wherever its key is cut. -/
theorem symbolKey_ne_fileKey {path' rest : Str} (hfree : DoubleFree path') (hstart : path' <+: path)
    (hshort : ∀ a b, splitDouble path = some (a, b) → path'.length ≤ a.length) :
    symbolKey path' rest ≠ fileKey path := by
  intro h
  cases hpath : path' with
  | nil =>
    rw [hpath] at h
    cases h
  | cons c s =>
    have hhead : path.head? ≠ some ':' := by
      rw [hpath] at h hstart
      rcases hstart with ⟨u, rfl⟩
      intro hcolon
      rw [cons_append, List.head?_cons, Option.some.injEq] at hcolon
      rw [hcolon] at h
      cases h
    have hsplit : splitDouble (fileKey path) = some (path', rest) := by
      rw [← h]
      exact hfree.splitDouble rest
    rw [splitDouble_fileKey hhead] at hsplit
    rcases Option.map_eq_some_iff.mp hsplit with ⟨⟨a, b⟩, hab, heq⟩
    have hlength := hshort a b hab
    rw [← (Prod.mk.inj heq).1, length_append] at hlength
    exact absurd hlength (by change ¬ 5 + a.length ≤ a.length; omega)

end Cutting

section Edges

variable {t : Tables} {path : Str} {keys : List Str}

variable {key kind container a : Str} {i : Input}

theorem nodeByKey_stableKey {nodes : List Resolution.Node} {n : Resolution.Node}
    (h : nodeByKey nodes key = some n) : n.stableKey = key := by
  have hfound := List.find?_some h
  exact of_decide_eq_true hfound

/-- A definition stays unresolved, or has its two edges from the node that the cut key names. -/
theorem resolveDefinition_cases (t : Tables) (i : Input) :
    (∃ message, resolveDefinition t i = unresolved i message) ∨
      ∃ path qualified kind, splitDouble i.observation.subjectKey = some (path, qualified) ∧
        (nodeOfKind t.nodes symbolKind i.observation.subjectKey).isSome ∧
        resolveDefinition t i =
          structuralEdges i kind (parentKey path qualified) i.observation.subjectKey := by
  rw [resolveDefinition]
  cases hsymbol : nodeOfKind t.nodes symbolKind i.observation.subjectKey with
  | none => exact .inl ⟨_, rfl⟩
  | some symbol =>
    have hfound := Option.filter_eq_some_iff.mp hsymbol
    have hkind : symbol.nodeKind = symbolKind := of_decide_eq_true hfound.2
    have hkey : symbol.stableKey = i.observation.subjectKey := nodeByKey_stableKey hfound.1
    simp only [hkey]
    cases hsplit : splitDouble i.observation.subjectKey with
    | none => exact .inl ⟨_, rfl⟩
    | some q =>
      simp only
      cases hparent : nodeByKey t.nodes (parentKey q.1 q.2) with
      | none => exact .inl ⟨_, rfl⟩
      | some parent =>
        refine .inr ⟨q.1, q.2, parent.nodeKind, rfl, rfl, ?_⟩
        simp only [addEdge, hkind, hkey, nodeByKey_stableKey hparent]
        rfl

/-- Edges are from the node that the cut key names. -/
theorem parentKey_of_edges (h : resolveDefinition t i = structuralEdges i kind container key) :
    ∃ path qualified, splitDouble i.observation.subjectKey = some (path, qualified) ∧
      parentKey path qualified = container := by
  rcases resolveDefinition_cases t i with
    ⟨message, hnone⟩ | ⟨path, qualified, kind', hsplit, -, hedges⟩
  · rw [hnone] at h
    cases h
  · rw [hedges] at h
    exact ⟨path, qualified, hsplit, (Fact.edge.inj (List.cons.inj h).1).2.1⟩

/-- A definition whose parent is there has its edges from it. -/
theorem resolveDefinition_eq (hs : FileStored t path keys) (hkey : key ∈ keys)
    (hi : i.observation.subjectKey = key) {path' qualified : Str}
    (hsplit : splitDouble key = some (path', qualified))
    (hparent : ∃ n ∈ t.nodes, n.nodeKind = kind ∧ n.stableKey = parentKey path' qualified) :
    resolveDefinition t i = structuralEdges i kind (parentKey path' qualified) key := by
  rcases hs.symbols key hkey with ⟨symbol, hmem, hkind, hsymbol⟩
  rcases hparent with ⟨parent, hpmem, hpkind, hpkey⟩
  have hfound : nodeOfKind t.nodes symbolKind i.observation.subjectKey = some symbol := by
    rw [nodeOfKind, Option.filter_eq_some_iff, nodeByKey_some hs.unique, hi]
    exact ⟨⟨hmem, hsymbol⟩, decide_eq_true hkind⟩
  have hpfound : nodeByKey t.nodes (parentKey path' qualified) = some parent :=
    (nodeByKey_some hs.unique).mpr ⟨hpmem, hpkey⟩
  rw [resolveDefinition, hfound]
  simp only [hsymbol, hsplit, hpfound, addEdge, hkind, hpkind, hpkey]
  rfl

/-- What is contained is a symbol that is defined. -/
theorem subject_of_contains (h : Contains t a key) :
    ∃ i ∈ inputsOf t "definition", i.observation.subjectKey = key ∧
      (nodeOfKind t.nodes symbolKind key).isSome ∧
      ∃ kind kind' evidence derivedFrom,
        Fact.edge kind a "contains".toList kind' key evidence derivedFrom ∈
          resolveDefinition t i := by
  rcases h with ⟨i, hi, kind, kind', evidence, derivedFrom, hmem⟩
  have hsubject : i.observation.subjectKey = key ∧
      (nodeOfKind t.nodes symbolKind i.observation.subjectKey).isSome := by
    rcases resolveDefinition_cases t i with ⟨message, hnone⟩ | ⟨_, _, _, -, hsome, hedges⟩
    · rw [hnone] at hmem
      cases mem_singleton.mp hmem
    · rw [hedges] at hmem
      refine ⟨?_, hsome⟩
      rcases mem_cons.mp hmem with h | h
      · exact (Fact.edge.inj h).2.2.2.2.1.symm
      · exact (Fact.edge.inj (mem_singleton.mp h)).2.2.2.2.1.symm
  refine ⟨i, hi, hsubject.1, ?_, kind, kind', evidence, derivedFrom, hmem⟩
  rw [← hsubject.1]
  exact hsubject.2

/-- What contains a definition is what its edges are from. -/
theorem contains_iff (hdefinition : ∃ i ∈ inputsOf t "definition", i.observation.subjectKey = key)
    (h : ∀ i ∈ inputsOf t "definition", i.observation.subjectKey = key →
      resolveDefinition t i = structuralEdges i kind container key) :
    Contains t a key ↔ a = container := by
  constructor
  · intro hcontains
    rcases subject_of_contains hcontains with ⟨i, hi, hkey, -, kind₁, kind₂, e, d, hmem⟩
    rw [h i hi hkey] at hmem
    rcases mem_cons.mp hmem with hedge | hedge
    · exact (Fact.edge.inj hedge).2.1
    · exact (Fact.edge.inj (mem_singleton.mp hedge)).2.1
  · rintro rfl
    rcases hdefinition with ⟨i, hi, hkey⟩
    refine ⟨i, hi, kind, symbolKind, resolverEvidence i.evidence, i.observation.observationId, ?_⟩
    rw [h i hi hkey]
    exact mem_cons_self

/-- Nothing contains the file. -/
theorem not_contains_file (hs : FileStored t path keys) (a : Str) :
    ¬ Contains t a (fileKey path) := by
  intro h
  rcases subject_of_contains h with ⟨-, -, -, hsome, -⟩
  rcases Option.isSome_iff_exists.mp hsome with ⟨symbol, hsymbol⟩
  rcases hs.file with ⟨file, hmem, hkind, hkey⟩
  have hfound := (nodeByKey_some hs.unique).mpr ⟨hmem, hkey⟩
  rw [nodeOfKind, hfound, Option.filter_eq_some_iff, Option.some.injEq] at hsymbol
  rw [← hsymbol.1] at hsymbol
  have hkind' := of_decide_eq_true hsymbol.2
  rw [hkind] at hkind'
  exact absurd hkind' (by decide)

end Edges

section Keys

theorem discriminated_append (s t : Str) (n : Nat) :
    discriminated (s ++ t) n = s ++ discriminated t n := by
  unfold discriminated
  by_cases hn : n = 1
  · rw [if_pos hn, if_pos hn]
  · rw [if_neg hn, if_neg hn, append_assoc]

variable {s path : Str} {n : Nat} {p : Place Declaration} {ps : List (Place Declaration)}

theorem dot_mem_discriminated : '.' ∈ discriminated s n ↔ '.' ∈ s := by
  have hdigits : '.' ∉ '#' :: Nat.toDigits 10 n := fun h => by
    rcases mem_cons.mp h with h | h
    · exact absurd h (by decide)
    · exact not_mem_digits (by decide) h
  unfold discriminated
  by_cases hn : n = 1
  · rw [if_pos hn]
  · rw [if_neg hn, mem_append, or_iff_left hdigits]

/-- A discriminator is not part of a text that it stands behind. -/
theorem discriminated_eq_self : discriminated s n = s ↔ n = 1 := by
  unfold discriminated
  by_cases hn : n = 1
  · rw [if_pos hn]
    exact iff_of_true rfl hn
  · rw [if_neg hn, append_right_eq_self]
    exact iff_of_false (cons_ne_nil _ _) hn

theorem qualified_top (h : p.around = []) : qualified p = p.label.name := by
  rw [qualified, h]
  rfl

/-- The qualified name of what is nested in a declaration. -/
theorem qualified_nested {q : Place Declaration} (h : p.around = q.around ++ [q.label]) :
    qualified p = qualified q ++ '.' :: p.label.name := by
  rw [qualified, h, map_append, map_singleton]
  exact joinWith_concat (append_ne_nil_of_right_ne_nil _ (cons_ne_nil _ _)) _

theorem qualified_ne_nil (h : p.label.name ≠ []) : qualified p ≠ [] := by
  by_cases htop : p.around.map Declaration.name = []
  · rw [qualified, htop]
    exact h
  · rw [qualified, joinWith_concat htop]
    exact append_ne_nil_of_right_ne_nil _ (cons_ne_nil _ _)

/-- What stands behind a base key is not a dot. -/
theorem discriminated_ne_dot {u : Str} : discriminated s n ≠ s ++ '.' :: u := by
  intro h
  unfold discriminated at h
  by_cases hn : n = 1
  · rw [if_pos hn] at h
    exact cons_ne_nil _ _ (append_right_eq_self.mp h.symm)
  · rw [if_neg hn] at h
    cases (List.cons.inj (append_cancel_left h)).1

/-- Two discriminated texts are the same only if their texts and numbers are, where neither
    text ends like a discriminator. -/
theorem discriminated_inj {t : Str} {m : Nat}
    (hs : ∀ u digits, s = u ++ '#' :: digits → ∃ c ∈ digits, c.isDigit = false)
    (ht : ∀ u digits, t = u ++ '#' :: digits → ∃ c ∈ digits, c.isDigit = false)
    (h : discriminated s n = discriminated t m) : s = t ∧ n = m := by
  have hdigits : ∀ k, ¬ ∃ c ∈ Nat.toDigits 10 k, c.isDigit = false := by
    rintro k ⟨c, hc, hdigit⟩
    rw [digit_of_mem hc] at hdigit
    cases hdigit
  unfold discriminated at h
  by_cases hn : n = 1
  · by_cases hm : m = 1
    · rw [if_pos hn, if_pos hm] at h
      exact ⟨h, hn.trans hm.symm⟩
    · rw [if_pos hn, if_neg hm] at h
      exact absurd (hs _ _ h) (hdigits m)
  · by_cases hm : m = 1
    · rw [if_neg hn, if_pos hm] at h
      exact absurd (ht _ _ h.symm) (hdigits n)
    · rw [if_neg hn, if_neg hm] at h
      exact append_digits_inj (by decide) h

/-- A declaration has its number. -/
theorem mem_of_number {q : Place Declaration × Nat} (h : q ∈ number (baseKey path) [] ps) :
    q.1 ∈ ps := by
  rcases mem_number.mp (show (q.1, q.2) ∈ number (baseKey path) [] ps from h) with
    ⟨earlier, later, hps, -⟩
  rw [hps]
  exact mem_append_right _ mem_cons_self

theorem number_of_mem (path : Str) (h : p ∈ ps) : ∃ n, (p, n) ∈ number (baseKey path) [] ps := by
  rcases append_of_mem h with ⟨earlier, later, hps⟩
  exact ⟨_, mem_number.mpr ⟨earlier, later, hps, rfl⟩⟩

/-- A declaration that is not the first with its base key has an earlier one. -/
theorem earlier_of_number (h : (p, n) ∈ number (baseKey path) [] ps) :
    ∃ earlier later, ps = earlier ++ p :: later ∧
      (n ≠ 1 ↔ ∃ e ∈ earlier, qualified e = qualified p) := by
  rcases mem_number.mp h with ⟨earlier, later, hps, hn⟩
  refine ⟨earlier, later, hps, ?_⟩
  have hcount : n ≠ 1 ↔ 0 < (earlier.map (baseKey path)).count (baseKey path p) := by
    rw [hn, count_nil]
    omega
  rw [hcount, count_pos_iff, mem_map]
  refine exists_congr (fun e => and_congr_right (fun _ => ?_))
  refine ⟨fun he => ?_, fun he => by rw [baseKey, baseKey, he]⟩
  exact (List.cons.inj (List.cons.inj (append_cancel_left he)).2).2

theorem discriminated_baseKey (path : Str) (p : Place Declaration) (n : Nat) :
    discriminated (baseKey path p) n =
      path ++ ':' :: ':' :: discriminated (qualified p) n := by
  have h := discriminated_append (path ++ [':', ':']) (qualified p) n
  rw [append_assoc, append_assoc] at h
  exact h

/-- The stable key of the `n`-th declaration with its qualified name. -/
def normalKey [Unicode] (path : Str) (p : Place Declaration) (n : Nat) : Str :=
  symbolKey path (discriminated (nfc (qualified p)) n)

variable [Unicode] [JoinedText] {path : Str}

theorem nfc_discriminated (s : Str) (n : Nat) :
    nfc (discriminated s n) = discriminated (nfc s) n := by
  unfold discriminated
  by_cases hn : n = 1
  · rw [if_pos hn, if_pos hn]
  · have hascii : Ascii (Nat.toDigits 10 n) := by
      intro c hc
      have hdigit := digit_of_mem hc
      simp only [Char.isDigit, Bool.and_eq_true, decide_eq_true_eq] at hdigit
      exact Nat.lt_of_le_of_lt hdigit.2 (by decide)
    rw [if_neg hn, if_neg hn, nfc_hash, nfc_ascii _ hascii]

theorem printable_discriminated :
    (∀ c ∈ nfc (discriminated s n), 0x20 ≤ c.toNat) ↔ ∀ c ∈ nfc s, 0x20 ≤ c.toNat := by
  rw [nfc_discriminated]
  unfold discriminated
  by_cases hn : n = 1
  · rw [if_pos hn]
  · rw [if_neg hn]
    refine ⟨fun h c hc => h c (mem_append_left _ hc), fun h c hc => ?_⟩
    rcases mem_append.mp hc with hc | hc
    · exact h c hc
    rcases mem_cons.mp hc with rfl | hc
    · decide
    · have hdigit := digit_of_mem hc
      simp only [Char.isDigit, Bool.and_eq_true, decide_eq_true_eq] at hdigit
      exact Nat.le_trans (by decide) hdigit.1

/-- When a declaration has a stable key, and which. -/
theorem normalize_eq (hpath : normalizeRepoPath path = .ok path) (hfree : DoubleFree path)
    (hne : path ≠ []) (hprint : ∀ c ∈ path, 0x20 ≤ c.toNat) (hname : p.label.name ≠ [])
    {key : Str} :
    normalizeStableKey "symbol".toList (discriminated (baseKey path p) n) = .ok key ↔
      (∀ c ∈ nfc (qualified p), 0x20 ≤ c.toNat) ∧ key = normalKey path p n := by
  have hdis : discriminated (qualified p) n ≠ [] := by
    unfold discriminated
    split
    · exact qualified_ne_nil hname
    · exact append_ne_nil_of_right_ne_nil _ (cons_ne_nil _ _)
  rw [discriminated_baseKey, normalizeStableKey_doubleFree hpath hfree hne hdis, nfc_discriminated]
  refine and_congr_left (fun _ => ?_)
  rw [← printable_discriminated, nfc_discriminated]
  refine ⟨fun h c hc => h c (mem_append_right _ hc), fun h c hc => ?_⟩
  rcases mem_append.mp hc with hc | hc
  · exact hprint c hc
  · exact h c hc

/-- The stable keys of declarations. -/
theorem keysOf_eq (hpath : normalizeRepoPath path = .ok path) (hfree : DoubleFree path)
    (hne : path ≠ []) (hprint : ∀ c ∈ path, 0x20 ≤ c.toNat) (hnamed : ∀ p ∈ ps, p.label.name ≠ [])
    {keys : List Str} :
    keysOf path [] ps = .ok keys ↔
      (∀ p ∈ ps, ∀ c ∈ nfc (qualified p), 0x20 ≤ c.toNat) ∧
        keys = (number (baseKey path) [] ps).map (fun q => normalKey path q.1 q.2) := by
  have hfst : (number (baseKey path) [] ps).map Prod.fst = ps := map_fst_number [] ps
  have hmem : ∀ q ∈ number (baseKey path) [] ps, q.1 ∈ ps := by
    intro q hq
    have hq' := mem_map_of_mem (f := Prod.fst) hq
    rw [hfst] at hq'
    exact hq'
  have hprintable : (∀ p ∈ ps, ∀ c ∈ nfc (qualified p), 0x20 ≤ c.toNat) ↔
      ∀ q ∈ number (baseKey path) [] ps, ∀ c ∈ nfc (qualified q.1), 0x20 ≤ c.toNat := by
    refine ⟨fun h q hq => h q.1 (hmem q hq), fun h p hp => ?_⟩
    rw [← hfst] at hp
    rcases mem_map.mp hp with ⟨q, hq, rfl⟩
    exact h q hq
  rw [keysOf, hprintable]
  exact collect_eq_map (fun q hq key =>
    normalize_eq hpath hfree hne hprint (hnamed q.1 (hmem q hq)))

end Keys

section Parents

variable [Unicode] {path : Str} {p r : Place Declaration} {n : Nat}

/-- The parent of a declaration at the top is the file. -/
theorem parentKey_top (h : p.around = []) (hdot : '.' ∉ nfc p.label.name) :
    parentKey path (discriminated (nfc (qualified p)) n) = fileKey path := by
  rw [parentKey, if_neg]
  rw [dot_mem_discriminated, qualified_top h]
  exact hdot

/-- A name with a dot is itself cut, at the top. -/
theorem parentKey_dotted_top (path : Str) (n : Nat) (h : p.around = [])
    (hdot : '.' ∈ nfc p.label.name) :
    ∃ u, parentKey path (discriminated (nfc (qualified p)) n) = symbolKey path u := by
  rw [parentKey, if_pos]
  · exact ⟨_, rfl⟩
  · rw [dot_mem_discriminated, qualified_top h]
    exact hdot

variable [JoinedText]

theorem nfc_qualified_nested (h : p.around = r.around ++ [r.label]) :
    discriminated (nfc (qualified p)) n =
      nfc (qualified r) ++ '.' :: discriminated (nfc p.label.name) n := by
  rw [qualified_nested h, nfc_dot]
  have happend := discriminated_append (nfc (qualified r) ++ ['.']) (nfc p.label.name) n
  rw [append_assoc, append_assoc] at happend
  exact happend

/-- The parent of a nested one has the base key of the declaration around it. -/
theorem parentKey_nested (h : p.around = r.around ++ [r.label])
    (hdot : '.' ∉ nfc p.label.name) :
    parentKey path (discriminated (nfc (qualified p)) n) = symbolKey path (nfc (qualified r)) := by
  have hfree : '.' ∉ discriminated (nfc p.label.name) n := fun hmem =>
    hdot (dot_mem_discriminated.mp hmem)
  rw [nfc_qualified_nested h, parentKey, if_pos (mem_append_right _ mem_cons_self),
    beforeLastDot_append _ hfree]

/-- So is a nested one. -/
theorem parentKey_dotted_nested (path : Str) (n : Nat) (h : p.around = r.around ++ [r.label])
    (hdot : '.' ∈ nfc p.label.name) :
    ∃ u, parentKey path (discriminated (nfc (qualified p)) n) =
      symbolKey path (nfc (qualified r) ++ '.' :: u) := by
  have hmem : '.' ∈ discriminated (nfc p.label.name) n := dot_mem_discriminated.mpr hdot
  rcases beforeLastDot_end (nfc (qualified r) ++ ['.']) hmem with ⟨u, hu⟩
  rw [append_assoc, append_assoc] at hu
  refine ⟨u, ?_⟩
  rw [nfc_qualified_nested h, parentKey, if_pos (mem_append_right _ mem_cons_self)]
  exact congrArg (symbolKey path) hu

end Parents

section Placing

variable [Unicode] [JoinedText] {path : Str} {lineCount : Nat}
  {ts : List (Nesting.Tree Declaration)}

/-- A qualified name does not end like a discriminator. -/
theorem plain_qualified (hparsed : Parsed (forest ts)) {p : Place Declaration}
    (hp : p ∈ forest ts) {u digits : Str} (h : nfc (qualified p) = u ++ '#' :: digits) :
    ∃ c ∈ digits, c.isDigit = false := by
  by_cases hdot : '.' ∈ digits
  · exact ⟨'.', hdot, by decide⟩
  by_cases htop : p.address.tail = []
  · rw [qualified_top (forest_top hp htop)] at h
    exact hparsed.plain p hp u digits h
  · rcases forest_parent hp htop with ⟨r, hr, haddress⟩
    rw [qualified_nested (forest_around hp hr haddress), nfc_dot] at h
    rcases discriminator_end hdot h with ⟨v, hv⟩
    exact hparsed.plain p hp v digits hv

/-- The keys of declarations that are aligned are distinct. -/
theorem nodup_normalKeys (hparsed : Parsed (forest ts))
    (haligned : Aligned path lineCount (forest ts)) :
    ((number (baseKey path) [] (forest ts)).map (fun q => normalKey path q.1 q.2)).Nodup := by
  have hnumber : ((number (baseKey path) [] (forest ts)).map
      (fun q => (baseKey path q.1, q.2))).Nodup := nodup_number [] (forest ts)
  refine (nodup_map_iff_inj_on (List.Nodup.of_map _ hnumber)).mpr (fun q hq r hr h => ?_)
  have hq' := mem_of_number hq
  have hr' := mem_of_number hr
  have hsame : discriminated (nfc (qualified q.1)) q.2 = discriminated (nfc (qualified r.1)) r.2 :=
    (List.cons.inj (List.cons.inj (append_cancel_left h)).2).2
  rcases discriminated_inj (fun _ _ => plain_qualified hparsed hq')
    (fun _ _ => plain_qualified hparsed hr') hsame with ⟨hqualified, hn⟩
  have hbase : baseKey path q.1 = baseKey path r.1 := by
    rw [baseKey, baseKey, haligned.apart q.1 hq' r.1 hr' hqualified]
  exact inj_on_of_nodup_map hnumber hq hr (Prod.ext hbase hn)

variable {t : Tables} {keys : List Str}

omit [JoinedText] in
theorem zip_normalKeys (ps : List (Place Declaration)) :
    ps.zip ((number (baseKey path) [] ps).map (fun q => normalKey path q.1 q.2)) =
      (number (baseKey path) [] ps).map (fun q => (q.1, normalKey path q.1 q.2)) := by
  have hfst : (number (baseKey path) [] ps).map Prod.fst = ps := map_fst_number [] ps
  have hzip : ((number (baseKey path) [] ps).map Prod.fst).zip
      ((number (baseKey path) [] ps).map (fun q => normalKey path q.1 q.2)) = _ := zip_map'
  rw [hfst] at hzip
  exact hzip

/-- The edges of aligned declarations. -/
theorem container_of_aligned (haligned : Aligned path lineCount (forest ts))
    (hkeys : keys = (number (baseKey path) [] (forest ts)).map (fun q => normalKey path q.1 q.2))
    (hs : FileStored t path keys) {q : Place Declaration × Str}
    (hq : q ∈ (forest ts).zip keys) :
    (q.1.address.tail = [] → ∀ i ∈ inputsOf t "definition", i.observation.subjectKey = q.2 →
      resolveDefinition t i = structuralEdges i Resolution.fileKind (fileKey path) q.2) ∧
    ∀ r ∈ (forest ts).zip keys, q.1.address.tail = r.1.address →
      ∀ i ∈ inputsOf t "definition", i.observation.subjectKey = q.2 →
        resolveDefinition t i = structuralEdges i symbolKind r.2 q.2 := by
  have hkey : q.2 ∈ keys := (of_mem_zip hq).2
  have hplace : q.1 ∈ forest ts := (of_mem_zip hq).1
  have hfree := haligned.path (ne_nil_of_mem hplace)
  have hdot := haligned.dotless q.1 hplace
  have hnormal : ∀ r ∈ (forest ts).zip keys, ∃ n,
      (r.1, n) ∈ number (baseKey path) [] (forest ts) ∧ r.2 = normalKey path r.1 n := by
    intro r hr
    rw [hkeys, zip_normalKeys] at hr
    rcases mem_map.mp hr with ⟨a, ha, rfl⟩
    exact ⟨a.2, ha, rfl⟩
  rcases hnormal q hq with ⟨n, -, hnkey⟩
  have hsplit : splitDouble q.2 = some (path, discriminated (nfc (qualified q.1)) n) := by
    rw [hnkey]
    exact hfree.splitDouble _
  constructor
  · intro htop i _ hi
    have hparent : parentKey path (discriminated (nfc (qualified q.1)) n) = fileKey path :=
      parentKey_top (forest_top hplace htop) hdot
    rw [resolveDefinition_eq hs hkey hi hsplit (by rw [hparent]; exact hs.file), hparent]
  · intro r hr haddress i _ hi
    have hrplace : r.1 ∈ forest ts := (of_mem_zip hr).1
    rcases hnormal r hr with ⟨m, hm, hmkey⟩
    -- what contains a declaration is the first with its base key
    have hone : m = 1 := by
      by_contra hne
      rcases earlier_of_number hm with ⟨earlier, later, hps, hiff⟩
      exact haligned.flat earlier r.1 later hps (hiff.mp hne) q.1 hplace haddress
    have hparent : parentKey path (discriminated (nfc (qualified q.1)) n) = r.2 := by
      rw [parentKey_nested (forest_around hplace hrplace haddress) hdot, hmkey, normalKey, hone,
        discriminated_eq_self.mpr rfl]
    have hsymbol := hs.symbols r.2 (of_mem_zip hr).2
    rw [resolveDefinition_eq hs hkey hi hsplit (by rw [hparent]; exact hsymbol), hparent]

/-- The edges of aligned declarations follow their nesting. -/
theorem followsNesting_of_aligned (hparsed : Parsed (forest ts))
    (haligned : Aligned path lineCount (forest ts))
    (hkeys : keys = (number (baseKey path) [] (forest ts)).map (fun q => normalKey path q.1 q.2))
    (hs : FileStored t path keys) : FollowsNesting t path (forest ts) keys := by
  -- The keys are those of the places, each of another place.
  have hdistinct : keys.Nodup := by
    rw [hkeys]
    exact nodup_normalKeys hparsed haligned
  have hzip : (forest ts).zip keys = (number (baseKey path) [] (forest ts)).map
      (fun q => (q.1, normalKey path q.1 q.2)) := by
    rw [hkeys, zip_normalKeys]
  have hkeyed : ∀ q ∈ (forest ts).zip keys, ∀ r ∈ (forest ts).zip keys, q.2 = r.2 → q = r := by
    intro q hq r hr h
    rw [hzip] at hq hr
    rcases mem_map.mp hq with ⟨a, ha, rfl⟩
    rcases mem_map.mp hr with ⟨b, hb, rfl⟩
    rw [hkeys] at hdistinct
    rw [inj_on_of_nodup_map hdistinct ha hb h]
  have hplaced : ∀ p ∈ forest ts, ∃ key, (p, key) ∈ (forest ts).zip keys := by
    intro p hp
    rcases number_of_mem path hp with ⟨n, hn⟩
    refine ⟨normalKey path p n, ?_⟩
    rw [hzip]
    exact mem_map.mpr ⟨(p, n), hn, rfl⟩
  -- A key has one container: the file, or the key of the place around it.
  have hcontains : ∀ q ∈ (forest ts).zip keys, ∃ container,
      (∀ a, Contains t a q.2 ↔ a = container) ∧
      ((q.1.address.tail = [] ∧ container = fileKey path) ∨
        ∃ r ∈ (forest ts).zip keys, q.1.address.tail = r.1.address ∧ container = r.2) := by
    intro q hq
    have hedges := container_of_aligned haligned hkeys hs hq
    have hdefined := hs.definitions q.2 (of_mem_zip hq).2
    by_cases htop : q.1.address.tail = []
    · exact ⟨_, fun a => contains_iff hdefined (hedges.1 htop), .inl ⟨htop, rfl⟩⟩
    · rcases forest_parent (of_mem_zip hq).1 htop with ⟨p, hp, haddress⟩
      rcases hplaced p hp with ⟨key, hr⟩
      exact ⟨_, fun a => contains_iff hdefined (hedges.2 _ hr haddress),
        .inr ⟨_, hr, haddress, rfl⟩⟩
  -- So the file reaches a key in as many steps as its address is long.
  have hreached : ∀ n, ∀ q ∈ (forest ts).zip keys, q.1.address.length = n →
      Relation.TransGen (Contains t) (fileKey path) q.2 := by
    intro n
    induction n with
    | zero =>
      intro q hq hn
      exact absurd (eq_nil_of_length_eq_zero hn)
        (forest_address_ne_nil (of_mem_zip hq).1)
    | succ n ih =>
      intro q hq hn
      rcases hcontains q hq with ⟨container, hiff, ⟨-, hfile⟩ | ⟨r, hr, haddress, hnested⟩⟩
      · exact Relation.TransGen.single ((hiff _).mpr hfile.symm)
      · refine Relation.TransGen.tail (ih r hr ?_) ((hiff _).mpr hnested.symm)
        rw [← haddress, length_tail, hn, Nat.add_sub_cancel]
  -- What holds of the places holds of the keys.
  have hmem : ∀ key ∈ keys, ∃ q ∈ (forest ts).zip keys, q.2 = key := by
    intro key hkey
    rw [hkeys] at hkey
    rcases mem_map.mp hkey with ⟨a, ha, rfl⟩
    refine ⟨(a.1, normalKey path a.1 a.2), ?_, rfl⟩
    rw [hzip]
    exact mem_map.mpr ⟨a, ha, rfl⟩
  refine
    { each := ?_
      distinct := hdistinct
      top := fun q hq => (container_of_aligned haligned hkeys hs hq).1
      nested := fun q hq => (container_of_aligned haligned hkeys hs hq).2
      forest := ?_
      lines := ?_ }
  · have hfst : (number (baseKey path) [] (forest ts)).map Prod.fst = forest ts :=
      map_fst_number [] _
    have hlength := congrArg List.length hfst
    rw [length_map] at hlength
    rw [hkeys, length_map, hlength]
  · refine ⟨fun key hkey => ?_, fun key hkey => ?_, not_contains_file hs⟩
    · rcases hmem key hkey with ⟨q, hq, rfl⟩
      rcases hcontains q hq with ⟨container, hiff, -⟩
      exact ⟨container, (hiff _).mpr rfl, fun a ha => (hiff a).mp ha⟩
    · rcases hmem key hkey with ⟨q, hq, rfl⟩
      exact hreached _ q hq rfl
  · intro q hq r hr h
    rcases hcontains q hq with ⟨container, hiff, ⟨-, hfile⟩ | ⟨r', hr', haddress, hnested⟩⟩
    · have hplace := (of_mem_zip hr).1
      have hfree := haligned.path (ne_nil_of_mem hplace)
      have hsame : r.2 = fileKey path := ((hiff _).mp h).trans hfile
      rw [hzip] at hr
      rcases mem_map.mp hr with ⟨a, -, rfl⟩
      refine absurd hsame (symbolKey_ne_fileKey hfree (prefix_refl _) (fun a b hab => ?_))
      rw [hfree.eq_none] at hab
      cases hab
    · rw [hkeyed r hr r' hr' (((hiff _).mp h).trans hnested)]
      exact hparsed.lines q.1 (of_mem_zip hq).1 r'.1 (of_mem_zip hr').1 haddress

end Placing

section Cut

variable [Unicode] {path : Str} {t : Tables} {keys : List Str}

variable {ps : List (Place Declaration)}

omit [Unicode] in
/-- The cut key of a declaration names what its edges are from. -/
theorem parentKey_of_follows (h : FollowsNesting t path ps keys) (hs : FileStored t path keys)
    {q : Place Declaration × Str} (hq : q ∈ ps.zip keys) {path' rest : Str}
    (hsplit : splitDouble q.2 = some (path', rest)) :
    (q.1.address.tail = [] → parentKey path' rest = fileKey path) ∧
      ∀ r ∈ ps.zip keys, q.1.address.tail = r.1.address → parentKey path' rest = r.2 := by
  rcases hs.definitions q.2 (of_mem_zip hq).2 with ⟨i, hi, hkey⟩
  have hcut : ∀ kind container,
      resolveDefinition t i = structuralEdges i kind container q.2 →
        parentKey path' rest = container := by
    intro kind container hedges
    rcases parentKey_of_edges hedges with ⟨path'', rest', hsplit', hparent⟩
    rw [hkey, hsplit, Option.some.injEq] at hsplit'
    rcases Prod.mk.inj hsplit' with ⟨rfl, rfl⟩
    exact hparent
  exact ⟨fun htop => hcut _ _ (h.top q hq htop i hi hkey),
    fun r hr haddress => hcut _ _ (h.nested q hq r hr haddress i hi hkey)⟩

/-- A declaration has its key. -/
theorem keyed_of_keysOf (hkeys : keysOf path [] ps = .ok keys) {p : Place Declaration}
    (hp : p ∈ ps) :
    ∃ n key, (p, key) ∈ ps.zip keys ∧
      normalizeStableKey "symbol".toList (discriminated (baseKey path p) n) = .ok key := by
  rcases number_of_mem path hp with ⟨n, hn⟩
  rcases forall₂_zip_left (collect_eq_ok.mp hkeys) hn with ⟨key, hkey, hform⟩
  refine ⟨n, key, ?_, hform⟩
  have hfst : (number (baseKey path) [] ps).map Prod.fst = ps := map_fst_number [] ps
  rw [← hfst, zip_map_left]
  exact mem_map.mpr ⟨_, hkey, rfl⟩

/-- A path with a `::` of its own is cut too early: nothing is contained in its file. -/
theorem doubleFree_of_follows (hpath : normalizeRepoPath path = .ok path)
    {ts : List (Nesting.Tree Declaration)} (hs : FileStored t path keys)
    (hkeys : keysOf path [] (forest ts) = .ok keys) (h : FollowsNesting t path (forest ts) keys)
    (hne : forest ts ≠ []) : DoubleFree path := by
  by_contra hfree
  rcases exists_top hne with ⟨p, hp, htop⟩
  rcases keyed_of_keysOf hkeys hp with ⟨n, key, hzip, hform⟩
  rw [discriminated_baseKey, normalizeStableKey_symbol hpath] at hform
  rcases hform with ⟨-, start, rest, p', hsplit, hp', -, -, rfl⟩
  rcases start_prefix hsplit hfree with ⟨later, hlater⟩
  have hinitial : p' <+: start := normalizeRepoPath_initial hpath hlater hp'
  cases hsplit' : splitDouble
    (p' ++ ':' :: ':' :: (rest ++ nfc (discriminated (qualified p) n))) with
  | none =>
    rcases splitDouble_double p' with ⟨_, _, hdouble⟩
    rw [splitDouble_append, hdouble] at hsplit'
    cases hsplit'
  | some q =>
    have hparent := (parentKey_of_follows h hs hzip hsplit').1 htop
    have hcut : q.1 <+: p' := splitDouble_prefix
      (show splitDouble _ = some (q.1, q.2) from hsplit')
    have hstart : q.1 <+: start := hcut.trans hinitial
    rw [parentKey] at hparent
    split at hparent
    · refine symbolKey_ne_fileKey (doubleFree_of_splitDouble (a := q.1) (b := q.2) hsplit') ?_
        (fun a b hab => ?_) hparent
      · rw [hlater]
        exact hstart.trans (prefix_append _ _)
      · have hlonger := (doubleFree_of_splitDouble hab).splitDouble (b ++ [':', ':'])
        have hsame : a ++ ':' :: ':' :: (b ++ [':', ':']) = path ++ [':', ':'] := by
          rw [splitDouble_parts hab]
          simp
        rw [hsame, hsplit, Option.some.injEq] at hlonger
        rw [← (Prod.mk.inj hlonger).1]
        exact hstart.length_le
    · have hlength := hstart.length_le
      rw [append_cancel_left hparent, hlater, length_append,
        length_cons] at hlength
      omega

end Cut

section Aligning

variable [Unicode] [JoinedText] {path : Str} {t : Tables} {keys : List Str} {lineCount : Nat}
  {ts : List (Nesting.Tree Declaration)}

/-- Declarations whose edges follow their nesting are aligned. -/
theorem aligned_of_follows (hpath : normalizeRepoPath path = .ok path) (hne : path ≠ [])
    (hprint : ∀ c ∈ path, 0x20 ≤ c.toNat) (hparsed : Parsed (forest ts))
    (hs : FileStored t path keys) (hkeys : keysOf path [] (forest ts) = .ok keys)
    (hinFile : AllInFile lineCount (forest ts))
    (h : FollowsNesting t path (forest ts) keys) : Aligned path lineCount (forest ts) := by
  by_cases hps : forest ts = []
  · rw [hps]
    refine ⟨fun p hp => absurd hp not_mem_nil, fun hne => absurd rfl hne,
      fun p hp => absurd hp not_mem_nil, fun p hp => absurd hp not_mem_nil,
      fun p hp => absurd hp not_mem_nil, ?_⟩
    intro earlier p later hsplit
    exact absurd hsplit.symm (append_ne_nil_of_right_ne_nil _ (cons_ne_nil _ _))
  have hfree := doubleFree_of_follows hpath hs hkeys h hps
  rcases (keysOf_eq hpath hfree hne hprint hparsed.named).mp hkeys with ⟨hprintable, hmap⟩
  have hzip : ∀ q ∈ number (baseKey path) [] (forest ts),
      (q.1, normalKey path q.1 q.2) ∈ (forest ts).zip keys := by
    intro q hq
    rw [hmap, zip_normalKeys]
    exact mem_map.mpr ⟨q, hq, rfl⟩
  have hparent := fun q (hq : q ∈ number (baseKey path) [] (forest ts)) =>
    parentKey_of_follows h hs (hzip q hq)
      (hfree.splitDouble (discriminated (nfc (qualified q.1)) q.2))
  have hdotless : ∀ p ∈ forest ts, '.' ∉ nfc p.label.name := by
    intro p hp hdot
    rcases number_of_mem path hp with ⟨n, hn⟩
    by_cases htop : p.address.tail = []
    · rcases parentKey_dotted_top path n (forest_top hp htop) hdot with ⟨u, hu⟩
      refine symbolKey_ne_fileKey hfree (prefix_refl _) (fun a b hab => ?_)
        (hu.symm.trans ((hparent _ hn).1 htop))
      rw [hfree.eq_none] at hab
      cases hab
    · rcases forest_parent hp htop with ⟨r, hr, haddress⟩
      rcases number_of_mem path hr with ⟨m, hm⟩
      rcases parentKey_dotted_nested path n (forest_around hp hr haddress) hdot
        with ⟨u, hu⟩
      have hsame := hu.symm.trans ((hparent _ hn).2 _ (hzip _ hm) haddress)
      have htext := (List.cons.inj (List.cons.inj (append_cancel_left hsame)).2).2
      exact discriminated_ne_dot htext.symm
  refine ⟨hinFile, fun _ => hfree, hdotless, hprintable, fun p hp q hq hpq => ?_, ?_⟩
  · -- the first declarations with the two base keys have the same key
    have hfirst : ∀ a ∈ forest ts, ∃ b, (b, 1) ∈ number (baseKey path) [] (forest ts) ∧
        baseKey path b = baseKey path a := fun a ha => exists_number_one ha not_mem_nil
    rcases hfirst p hp with ⟨p', hp', hpbase⟩
    rcases hfirst q hq with ⟨q', hq', hqbase⟩
    have hqualified : ∀ a b : Place Declaration, baseKey path a = baseKey path b →
        qualified a = qualified b := fun a b hab =>
      (List.cons.inj (List.cons.inj (append_cancel_left hab)).2).2
    have hsame : normalKey path p' 1 = normalKey path q' 1 := by
      rw [normalKey, normalKey, hqualified p' p hpbase, hqualified q' q hqbase, hpq]
    have hdistinct := h.distinct
    rw [hmap] at hdistinct
    have hpair := inj_on_of_nodup_map hdistinct hp' hq' hsame
    rw [← hqualified p' p hpbase, ← hqualified q' q hqbase, (Prod.mk.inj hpair).1]
  · intro earlier p later hsplit hearlier q hq haddress
    have hp : p ∈ forest ts := by
      rw [hsplit]
      exact mem_append_right _ mem_cons_self
    rcases hearlier with ⟨e, he, hsame⟩
    have hn : (p, (earlier.map (baseKey path)).count (baseKey path p) + 1) ∈
        number (baseKey path) [] (forest ts) := by
      refine mem_number.mpr ⟨earlier, later, hsplit, ?_⟩
      rw [count_nil, Nat.zero_add]
    have hcount : 0 < (earlier.map (baseKey path)).count (baseKey path p) := by
      rw [count_pos_iff]
      exact mem_map.mpr ⟨e, he, by rw [baseKey, baseKey, hsame]⟩
    rcases number_of_mem path hq with ⟨m, hm⟩
    have hcut := (hparent _ hm).2 _ (hzip _ hn) haddress
    rw [parentKey_nested (forest_around hq hp haddress) (hdotless q hq)] at hcut
    have htext := (List.cons.inj (List.cons.inj (append_cancel_left hcut)).2).2
    have hone := discriminated_eq_self.mp htext.symm
    omega

end Aligning

section Programs

variable [Unicode] [JoinedText]

/-- For every program of Python or TypeScript, what is emitted has distinct keys and its edges
    follow the lexical nesting if and only if its declarations are aligned. -/
theorem edges_follow_nesting {path : Str} {lineCount : Nat} (program : Program) (t : Tables)
    (hpath : normalizeRepoPath path = .ok path)
    (hfile : normalizeStableKey Resolution.fileKind (fileKey path) = .ok (fileKey path))
    (hparsed : Parsed program.places)
    (hstored : ∀ emitted, collectSymbols path lineCount program = .ok emitted →
      FileStored t path (symbolKeys emitted)) :
    (∃ emitted, collectSymbols path lineCount program = .ok emitted ∧
      FollowsNesting t path program.places (symbolKeys emitted)) ↔
        Aligned path lineCount program.places := by
  -- both languages give the places of a forest in source order
  have hplaces : ∃ ts, program.places = forest ts := by
    cases program with
    | python body => exact ⟨_, rfl⟩
    | typescript root => exact ⟨_, rfl⟩
  rcases hplaces with ⟨ts, hts⟩
  have hkeysOf := @collectSymbols_keys _ path lineCount hpath program
  rw [hts] at hparsed hkeysOf ⊢
  have hform := (normalizeStableKey_file hpath).symm.trans hfile
  have hprint : ∀ c ∈ path, 0x20 ≤ c.toNat := by
    intro c hc
    by_contra hlow
    rw [if_pos (any_eq_true.mpr ⟨c, hc, decide_eq_true (Nat.lt_of_not_le hlow)⟩)] at hform
    cases hform
  have hne : path ≠ [] := by
    rintro rfl
    cases hform
  constructor
  -- as many keys as places: every place was in the file, and the keys are those computed
  · rintro ⟨emitted, hemitted, hfollows⟩
    have hinFile : AllInFile lineCount program.places :=
      allInFile_of_length program hemitted (by rw [hts]; exact hfollows.each)
    rw [hts] at hinFile
    have hkeys := hkeysOf hinFile
    rw [hemitted] at hkeys
    exact aligned_of_follows hpath hne hprint hparsed (hstored emitted hemitted) hkeys.symm hinFile
      hfollows
  · intro haligned
    -- an aligned program's names are printable, so that all keys are accepted as they are
    have hkeys : keysOf path [] (forest ts) = .ok
        ((number (baseKey path) [] (forest ts)).map (fun q => normalKey path q.1 q.2)) := by
      by_cases hps : forest ts = []
      · rw [hps]
        rfl
      · exact (keysOf_eq hpath (haligned.path hps) hne hprint hparsed.named).mpr
          ⟨haligned.printable, rfl⟩
    have hcollected := (hkeysOf haligned.inFile).trans hkeys
    cases hemitted : collectSymbols path lineCount program with
    | error e =>
      rw [hemitted] at hcollected
      cases hcollected
    | ok emitted =>
      rw [hemitted] at hcollected
      exact ⟨emitted, rfl, followsNesting_of_aligned hparsed haligned (Except.ok.inj hcollected)
        (hstored emitted hemitted)⟩

end Programs

section Samples

local instance nestingText : Unicode := asciiText

local instance : JoinedText := ⟨fun _ _ => rfl, fun _ _ => rfl⟩

/-- A snapshot with `a.py` and symbols of it, which are all defined. -/
def snapshotOf (path : Str) (keys : List Str) : Tables :=
  { nodes :=
      { id := 0, nodeKind := Resolution.fileKind, stableKey := fileKey path, name := none,
        defaultExport := false } ::
      keys.map (fun key =>
        { id := key.length, nodeKind := symbolKind, stableKey := key, name := none,
          defaultExport := false })
    observations := keys.map (fun key =>
      { id := key.length, observationId := key, observedKind := "definition".toList,
        subjectKey := key, referentText := none, ordinal := 1 })
    evidence := keys.map (fun key =>
      { parent := .observation key.length, path := path, startLine := 1, endLine := 1,
        logicalLineCount := 4, granularity := .span, extractor := [], extractorVersion := [] }) }

/-- `class A:` with `def f()` in it. -/
def single : Program :=
  .python [.definition "A".toList 1 2 [.definition "f".toList 2 2 []]]

theorem edges_follow_nesting_single :
    (∃ emitted, collectSymbols "a.py".toList 4 single = .ok emitted ∧
      FollowsNesting (snapshotOf "a.py".toList ["a.py::A".toList, "a.py::A.f".toList])
        "a.py".toList single.places (symbolKeys emitted)) ↔
      Aligned "a.py".toList 4 single.places := by
  refine edges_follow_nesting single _ rfl rfl ?_ ?_
  · have hfree : ∀ p ∈ single.places, '#' ∉ p.label.name := by decide
    refine ⟨by decide, by decide, fun p hp s digits h => absurd ?_ (hfree p hp)⟩
    rw [show p.label.name = s ++ '#' :: digits from h]
    exact mem_append_right _ mem_cons_self
  · intro emitted hemitted
    have hkeys : symbolKeys emitted = ["a.py::A".toList, "a.py::A.f".toList] := by
      cases hemitted
      rfl
    rw [hkeys]
    exact ⟨by decide, by decide, by decide, by decide⟩

/-- `class A:` with `def f()` in it, and both once more. -/
def twice : Program :=
  .python [.definition "A".toList 1 2 [.definition "f".toList 2 2 []],
    .definition "A".toList 3 4 [.definition "f".toList 4 4 []]]

/-- `class C` with a method `'x.y'`. -/
def dotted : Program :=
  .typescript (.node "program".toList none 0 2
    [.node "class_declaration".toList (some ("type_identifier".toList, "C".toList)) 0 2
      [.node "class_body".toList none 0 2
        [.node "method_definition".toList (some ("string".toList, "'x.y'".toList)) 1 1 []]]])

def twiceKeys : List Str :=
  ["a.py::A", "a.py::A.f", "a.py::A#2", "a.py::A.f#2"].map String.toList

def dottedKeys : List Str :=
  ["a.ts::C", "a.ts::C.'x.y'"].map String.toList

/-- The method of a class that is defined again hangs on the first class, whose lines it is not
    in. The method with a dot in its name hangs on nothing. -/
theorem edges_misplaced :
    ((collectSymbols "a.py".toList 4 twice).map symbolKeys = .ok twiceKeys ∧
      (∀ i ∈ inputsOf (snapshotOf "a.py".toList twiceKeys) "definition",
        i.observation.subjectKey = "a.py::A.f#2".toList →
          resolveDefinition (snapshotOf "a.py".toList twiceKeys) i =
            structuralEdges i symbolKind "a.py::A".toList "a.py::A.f#2".toList) ∧
      ¬ FollowsNesting (snapshotOf "a.py".toList twiceKeys) "a.py".toList twice.places twiceKeys) ∧
    ((collectSymbols "a.ts".toList 4 dotted).map symbolKeys = .ok dottedKeys ∧
      (∀ i ∈ inputsOf (snapshotOf "a.ts".toList dottedKeys) "definition",
        i.observation.subjectKey = "a.ts::C.'x.y'".toList →
          resolveDefinition (snapshotOf "a.ts".toList dottedKeys) i =
            unresolved i "definition parent is absent from the snapshot") ∧
      ¬ FollowsNesting (snapshotOf "a.ts".toList dottedKeys) "a.ts".toList dotted.places
        dottedKeys) := by
  refine ⟨⟨by decide +kernel, by decide +kernel, fun h => ?_⟩, by decide +kernel,
    by decide +kernel, fun h => ?_⟩
  · exact absurd h.nested (by decide +kernel)
  · exact absurd h.nested (by decide +kernel)

end Samples

end LexicalNesting

end Partha
