import Mathlib.Data.List.Perm.Subperm
import Mathlib.Data.List.TakeWhile
import Partha.Analysis.ArchitectureModel

/-!
# Module Names

When the modules of the Architecture view can be told apart by their names.

A module is named after its file, its role or its directory. Modules whose names are the same
are qualified, each with the nearest directory above it that is named otherwise. This is done
once, and with one directory. So two modules have one name iff their names were the same and
so are those directories, or neither has one. A name that no other module has is kept, and a
qualified name has the directory of its own module.

## Main definitions

* `Qualifies`: The nearest directory that is named otherwise.
* `Separated`: Modules of one name have different such directories.

## Theorems

* `qualifyingParent_eq_iff`: The directory that is found.
* `disambiguated_nodup_iff`: When qualified names are distinct.
* `module_names`: The names of the modules of a snapshot.
* `module_names_collide`: Two modules with one name.
-/

namespace Partha

namespace Architecture

open List hiding splitOn
open Canonical Extraction Facts
open Resolution (dirname basename)
open SortKeys

section Definitions

/-- The nearest directory above a path that has a name, and another one than `name`. -/
def Qualifies (path name segment : Str) : Prop :=
  segment ≠ [] ∧ segment ≠ name ∧ ∃ above below,
    splitOn '/' (dirname path) = above ++ segment :: below ∧ ∀ s ∈ below, s = [] ∨ s = name

/-- The name of a module before others are looked at. -/
def baseName (title : Str → Str) (m : RepositoryModule) : Str :=
  moduleDisplayName title m.id

/-- The path in the id of a module. -/
def RepositoryModule.path (m : RepositoryModule) : Str :=
  removePrefix modulePrefix m.id

/-- What is used of `str.title`. -/
structure TitleCase (title : Str → Str) : Prop where
  slashes : ∀ s, '/' ∉ s → '/' ∉ title s
  repository : title "repository".toList = "Repository".toList

/-- An ancestor directory of the path in the id of a module. -/
def IsAncestor (m : RepositoryModule) (segment : Str) : Prop :=
  segment ≠ [] ∧ segment ∈ splitOn '/' (dirname m.path)

variable [Interpreter]

/-- Two modules of one name are each qualified by another directory, or only one of them is. -/
def Separated (facts : ArchitectureSnapshotFacts) (title : Str → Str) : Prop :=
  ∀ p ∈ moduleFiles facts, ∀ q ∈ moduleFiles facts, moduleId facts p ≠ moduleId facts q →
    moduleDisplayName title (moduleId facts p) = moduleDisplayName title (moduleId facts q) →
      (∃ segment,
        Qualifies (removePrefix modulePrefix (moduleId facts p))
          (moduleDisplayName title (moduleId facts p)) segment ∨
        Qualifies (removePrefix modulePrefix (moduleId facts q))
          (moduleDisplayName title (moduleId facts q)) segment) ∧
      ¬ ∃ segment,
        Qualifies (removePrefix modulePrefix (moduleId facts p))
          (moduleDisplayName title (moduleId facts p)) segment ∧
        Qualifies (removePrefix modulePrefix (moduleId facts q))
          (moduleDisplayName title (moduleId facts q)) segment

end Definitions

section Qualifiers

variable {path name segment : Str}

/-- The search goes upwards, and stops at the directory that qualifies. -/
theorem qualifyingParent_eq_iff (hne : segment ≠ []) :
    qualifyingParent path name = segment ↔ Qualifies path name segment := by
  have htest : ∀ s : Str, (s ≠ [] && s ≠ name) = false ↔ s = [] ∨ s = name := by
    intro s
    rw [Bool.and_eq_false_iff, decide_eq_false_iff_not, decide_eq_false_iff_not, not_not, not_not]
  have hpass : ∀ s : Str, (s ≠ [] && s ≠ name) = true ↔ s ≠ [] ∧ s ≠ name := by
    intro s
    rw [Bool.and_eq_true, decide_eq_true_eq, decide_eq_true_eq]
  have hfind : qualifyingParent path name = segment ↔
      (splitOn '/' (dirname path)).reverse.find? (fun s => s ≠ [] && s ≠ name) = some segment := by
    rw [qualifyingParent]
    cases (splitOn '/' (dirname path)).reverse.find? (fun s => s ≠ [] && s ≠ name) with
    | none => exact ⟨fun h => absurd h.symm hne, fun h => absurd h (Option.some_ne_none _).symm⟩
    | some s => exact ⟨fun h => congrArg some h, fun h => Option.some.inj h⟩
  rw [hfind, List.find?_eq_some_iff_append, hpass]
  constructor
  · rintro ⟨⟨_, hname⟩, below, above, hsplit, hbelow⟩
    refine ⟨hne, hname, above.reverse, below.reverse, ?_, ?_⟩
    · rw [← reverse_reverse (splitOn '/' (dirname path)), hsplit, reverse_append,
        reverse_cons, append_assoc, singleton_append]
    · intro s hs
      have htrue := hbelow s (mem_reverse.mp hs)
      exact (htest s).mp (Bool.not_eq_true' _ ▸ htrue)
  · rintro ⟨_, hname, above, below, hsplit, hbelow⟩
    refine ⟨⟨hne, hname⟩, below.reverse, above.reverse, ?_, ?_⟩
    · rw [hsplit, reverse_append, reverse_cons, append_assoc, singleton_append]
    · intro s hs
      rw [Bool.not_eq_true']
      exact (htest s).mpr (hbelow s (mem_reverse.mp hs))

theorem qualifyingParent_eq_nil_iff :
    qualifyingParent path name = [] ↔ ∀ segment, ¬ Qualifies path name segment := by
  constructor
  · intro h segment hqualifies
    have hparent := (qualifyingParent_eq_iff hqualifies.1).mpr hqualifies
    exact hqualifies.1 (hparent.symm.trans h)
  · intro h
    by_contra hne
    exact h _ ((qualifyingParent_eq_iff hne).mp rfl)

/-- A qualifying directory is one segment. -/
theorem not_mem_qualifyingParent : '/' ∉ qualifyingParent path name := by
  by_cases hnil : qualifyingParent path name = []
  · rw [hnil]
    exact not_mem_nil
  · rcases ((qualifyingParent_eq_iff hnil).mp rfl).2.2 with ⟨above, below, hsplit, -⟩
    refine not_mem_part (s := dirname path) ?_
    rw [hsplit]
    exact mem_append_right _ mem_cons_self

/-- Two directories that are found are the same one. -/
theorem qualifyingParent_ne_iff {path' : Str} :
    qualifyingParent path name ≠ qualifyingParent path' name ↔
      (∃ segment, Qualifies path name segment ∨ Qualifies path' name segment) ∧
        ¬ ∃ segment, Qualifies path name segment ∧ Qualifies path' name segment := by
  constructor
  · intro hne
    constructor
    · by_contra hnone
      refine hne ((qualifyingParent_eq_nil_iff.mpr ?_).trans
        (qualifyingParent_eq_nil_iff.mpr ?_).symm)
      · exact fun segment h => hnone ⟨segment, .inl h⟩
      · exact fun segment h => hnone ⟨segment, .inr h⟩
    · rintro ⟨segment, h, h'⟩
      exact hne (((qualifyingParent_eq_iff h.1).mpr h).trans
        ((qualifyingParent_eq_iff h'.1).mpr h').symm)
  · rintro ⟨⟨segment, hsome⟩, hdiff⟩ heq
    have hne : segment ≠ [] := by
      rcases hsome with h | h
      · exact h.1
      · exact h.1
    have hboth : qualifyingParent path name = segment := by
      rcases hsome with h | h
      · exact (qualifyingParent_eq_iff hne).mpr h
      · exact heq.trans ((qualifyingParent_eq_iff hne).mpr h)
    exact hdiff ⟨segment, (qualifyingParent_eq_iff hne).mp hboth,
      (qualifyingParent_eq_iff hne).mp (heq.symm.trans hboth)⟩

end Qualifiers

section Collisions

variable {modules : List RepositoryModule}

variable {m : RepositoryModule}

theorem eq_of_id (hids : (modules.map RepositoryModule.id).Nodup) {n : RepositoryModule}
    (hm : m ∈ modules) (hn : n ∈ modules) (h : m.id = n.id) : m = n :=
  inj_on_of_nodup_map hids hm hn h

/-- A name is counted once if no other module has it. -/
theorem countP_lt_two_iff (hids : (modules.map RepositoryModule.id).Nodup) (hm : m ∈ modules) :
    modules.countP (fun other => other.name = m.name) < 2 ↔
      ∀ n ∈ modules, n.name = m.name → n = m := by
  rw [countP_eq_length_filter]
  have hmem : ∀ n, n ∈ modules.filter (fun other => other.name = m.name) ↔
      n ∈ modules ∧ n.name = m.name := by
    intro n
    rw [mem_filter, decide_eq_true_eq]
  have hnodup := (hids.of_map).filter (fun other => decide (other.name = m.name))
  constructor
  · intro hlt n hn hname
    have hn' := (hmem n).mpr ⟨hn, hname⟩
    have hm' := (hmem m).mpr ⟨hm, rfl⟩
    rcases length_eq_one_iff.mp (show _ = 1 from Nat.le_antisymm (Nat.lt_succ_iff.mp hlt)
      (length_pos_of_mem hm')) with ⟨a, ha⟩
    rw [ha, mem_singleton] at hn' hm'
    rw [hn', hm']
  · intro h
    have hsub : modules.filter (fun other => other.name = m.name) ⊆ [m] := by
      intro n hn
      rcases (hmem n).mp hn with ⟨hn, hname⟩
      exact mem_singleton.mpr (h n hn hname)
    have hlen := (subperm_of_subset hnodup hsub).length_le
    rw [length_singleton] at hlen
    omega

/-- The name that a module ends up with. -/
theorem disambiguated_name (hids : (modules.map RepositoryModule.id).Nodup) (hm : m ∈ modules) :
    (∀ n ∈ modules, n.name = m.name → n = m) ∧ (disambiguated modules m).name = m.name ∨
    qualifyingParent m.path m.name = [] ∧ (disambiguated modules m).name = m.name ∨
    qualifyingParent m.path m.name ≠ [] ∧
      (disambiguated modules m).name = qualifyingParent m.path m.name ++ '/' :: m.name := by
  by_cases hunique : ∀ n ∈ modules, n.name = m.name → n = m
  · refine .inl ⟨hunique, ?_⟩
    exact if_pos (.inl ((countP_lt_two_iff hids hm).mpr hunique))
  · by_cases hnil : qualifyingParent m.path m.name = []
    · exact .inr (.inl ⟨hnil, if_pos (.inr hnil)⟩)
    · refine .inr (.inr ⟨hnil, if_neg ?_⟩)
      rintro (hcount | hparent)
      · exact hunique ((countP_lt_two_iff hids hm).mp hcount)
      · exact hnil hparent

/-- Names are distinct after qualification iff those that were the same are qualified by
    different directories. -/
theorem disambiguated_nodup_iff (hids : (modules.map RepositoryModule.id).Nodup)
    (hslash : ∀ m ∈ modules, '/' ∉ m.name) :
    ((disambiguateNames modules).map RepositoryModule.name).Nodup ↔
      ∀ m ∈ modules, ∀ n ∈ modules, m.id ≠ n.id → m.name = n.name →
        qualifyingParent m.path m.name ≠ qualifyingParent n.path n.name := by
  rw [disambiguateNames, map_map, nodup_map_iff_inj_on hids.of_map]
  constructor
  -- two modules of one name and one qualifying parent are given one name again
  · intro hinj m hm n hn hid hname hparent
    have hne : m ≠ n := fun h => hid (congrArg RepositoryModule.id h)
    refine hne (hinj m hm n hn ?_)
    change (disambiguated modules m).name = (disambiguated modules n).name
    rcases disambiguated_name hids hm with ⟨hunique, -⟩ | ⟨hnil, hm'⟩ | ⟨hnil, hm'⟩
    · exact absurd (hunique n hn hname.symm) hne.symm
    · rcases disambiguated_name hids hn with ⟨hunique, -⟩ | ⟨_, hn'⟩ | ⟨hnil', -⟩
      · exact absurd (hunique m hm hname) hne
      · rw [hm', hn', hname]
      · exact absurd (hparent ▸ hnil) hnil'
    · rcases disambiguated_name hids hn with ⟨hunique, -⟩ | ⟨hnil', -⟩ | ⟨_, hn'⟩
      · exact absurd (hunique m hm hname) hne
      · exact absurd (hparent ▸ hnil') hnil
      · rw [hm', hn', hparent, hname]
  -- a name with a slash is never a module's own: equal new names are both old or both qualified
  · intro hdiff m hm n hn heq
    change (disambiguated modules m).name = (disambiguated modules n).name at heq
    by_contra hne
    have hid : m.id ≠ n.id := fun h => hne (eq_of_id hids hm hn h)
    have hkept : ∀ a ∈ modules, ∀ parent name : Str, (disambiguated modules a).name = a.name →
        (disambiguated modules a).name ≠ parent ++ '/' :: name := by
      intro a ha parent name hname h
      refine hslash a ha ?_
      rw [← hname, h]
      exact mem_append_right _ mem_cons_self
    rcases disambiguated_name hids hm with ⟨hunique, hm'⟩ | ⟨hnil, hm'⟩ | ⟨hnil, hm'⟩
    · rcases disambiguated_name hids hn with ⟨-, hn'⟩ | ⟨-, hn'⟩ | ⟨-, hn'⟩
      · exact hne (hunique n hn (by rw [← hm', heq, hn'])).symm
      · exact hne (hunique n hn (by rw [← hm', heq, hn'])).symm
      · exact hkept m hm _ _ hm' (heq.trans hn')
    · rcases disambiguated_name hids hn with ⟨hunique, hn'⟩ | ⟨hnil', hn'⟩ | ⟨-, hn'⟩
      · exact hne (hunique m hm (by rw [← hm', heq, hn']))
      · exact hdiff m hm n hn hid (by rw [← hm', heq, hn']) (hnil.trans hnil'.symm)
      · exact hkept m hm _ _ hm' (heq.trans hn')
    · rcases disambiguated_name hids hn with ⟨-, hn'⟩ | ⟨-, hn'⟩ | ⟨-, hn'⟩
      · exact hkept n hn _ _ hn' (heq.symm.trans hm')
      · exact hkept n hn _ _ hn' (heq.symm.trans hm')
      · rw [hm', hn'] at heq
        have hsplit := congrArg (splitOn '/') heq
        rw [splitOn_append not_mem_qualifyingParent, splitOn_append not_mem_qualifyingParent,
          splitOn_free (hslash m hm), splitOn_free (hslash n hn)] at hsplit
        rcases List.cons.inj hsplit with ⟨hparent, hname⟩
        exact hdiff m hm n hn hid (List.cons.inj hname).1 hparent

end Collisions

section Names

variable {facts : ArchitectureSnapshotFacts} {title : Str → Str}

theorem mem_of_mem_stem {name : Str} {c : Char} (h : c ∈ stem name) : c ∈ name := by
  rw [stem] at h
  split at h
  · exact h
  · rename_i rest hrest
    split at h
    · exact h
    · have hmem : c ∈ name.reverse.dropWhile (fun c => c ≠ '.') := by
        rw [hrest]
        exact mem_cons_of_mem _ (mem_reverse.mp h)
      exact mem_reverse.mp ((dropWhile_sublist _).mem hmem)

theorem not_mem_basename (path : Str) : '/' ∉ basename path := by
  intro h
  have htest := mem_takeWhile_imp (mem_reverse.mp h)
  exact of_decide_eq_true htest rfl

/-- A display name is one segment, if making a title of a word adds no slash. -/
theorem not_mem_moduleDisplayName (hslash : ∀ s, '/' ∉ s → '/' ∉ title s) (id : Str) :
    '/' ∉ moduleDisplayName title id := by
  rw [moduleDisplayName]
  by_cases hpath : (removePrefix modulePrefix id).elem '/' = true
  · simp only [hpath, if_true]
    have hstem : '/' ∉ stem (basename (removePrefix modulePrefix id)) :=
      fun h => not_mem_basename _ (mem_of_mem_stem h)
    split
    · split
      · exact hstem
      · exact not_mem_basename _
    · exact hstem
  · have hfree : '/' ∉ removePrefix modulePrefix id := fun h => hpath (elem_iff.mpr h)
    simp only [hpath, Bool.false_eq_true, if_false]
    split
    · exact hfree
    · refine hslash _ (fun h => ?_)
      rcases mem_map.mp h with ⟨c, hc, heq⟩
      by_cases hdash : c = '-'
      · rw [if_pos hdash] at heq
        exact absurd heq (by decide)
      · rw [if_neg hdash] at heq
        exact hfree (heq ▸ hc)

variable [Interpreter]

/-- The modules before their names are qualified. -/
theorem modulesFromFacts_cases {modules : List RepositoryModule}
    (h : modulesFromFacts facts title = .ok modules) :
    moduleFiles facts = [] ∧ modules = [emptyModule] ∨
    ∃ plain, modules = disambiguateNames plain ∧ (plain.map RepositoryModule.id).Nodup ∧
      (∀ m ∈ plain, m.name = moduleDisplayName title m.id) ∧
      (∀ m ∈ plain, ∃ p ∈ moduleFiles facts, m.id = moduleId facts p) ∧
      ∀ p ∈ moduleFiles facts, ∃ m ∈ plain, m.id = moduleId facts p := by
  rw [modulesFromFacts] at h
  split at h
  · rename_i hfiles
    exact Or.inl ⟨hfiles, (Except.ok.inj h).symm⟩
  · cases hcollect : Checked.collect (moduleOf facts title)
        (Grouping.groups (fun path => some (moduleId facts path)) (moduleFiles facts)) with
    | error e =>
      rw [hcollect] at h
      exact absurd h (by simp [Checked.error_bind])
    | ok collected =>
      rw [hcollect, Checked.ok_bind] at h
      have hall := Checked.collect_eq_ok.mp hcollect
      have hperm := perm_sortBy (fun m : RepositoryModule => codePoints m.id) collected
      refine Or.inr ⟨_, (Except.ok.inj h).symm, ?_, ?_, ?_, ?_⟩
      · exact (hperm.map _).nodup_iff.mpr (grouped_of_collect hcollect).nodup
      · intro m hm
        rcases Checked.forall₂_mem_right hall (mem_sortBy.mp hm) with ⟨group, -, hok⟩
        rw [(moduleOf_eq_ok hok).1]
        rw [moduleOf] at hok
        split at hok
        · exact absurd hok (by simp)
        · rw [← Except.ok.inj hok]
      · intro m hm
        rcases Checked.forall₂_mem_right hall (mem_sortBy.mp hm) with ⟨group, hgroup, hok⟩
        rcases Grouping.mem_groups.mp hgroup with ⟨hne, hof⟩
        rcases exists_mem_of_ne_nil _ hne with ⟨p, hp⟩
        rw [hof] at hp
        rcases mem_filter.mp hp with ⟨hin, htest⟩
        refine ⟨p, hin, ?_⟩
        rw [(moduleOf_eq_ok hok).1]
        exact (Option.some.inj (of_decide_eq_true htest)).symm
      · intro p hp
        have hin : p ∈ Grouping.group (fun path => some (moduleId facts path))
            (moduleFiles facts) (moduleId facts p) := mem_filter.mpr ⟨hp, decide_eq_true rfl⟩
        have hgroup := Grouping.mem_groups.mpr ⟨ne_nil_of_mem hin, rfl⟩
        rcases Checked.forall₂_mem_left hall hgroup with ⟨m, hm, hok⟩
        exact ⟨m, mem_sortBy.mpr hm, (moduleOf_eq_ok hok).1⟩

/-- The modules of a snapshot have distinct names iff those of one display name are qualified
    differently. A name that no other module has is kept, and the others are extended by an
    ancestor directory of the module, if at all. -/
theorem module_names (facts : ArchitectureSnapshotFacts) (title : Str → Str)
    (htitle : TitleCase title) {modules : List RepositoryModule}
    (h : modulesFromFacts facts title = .ok modules) :
    ((modules.map RepositoryModule.name).Nodup ↔ Separated facts title) ∧
    (∀ m ∈ modules, (∀ n ∈ modules, n.id ≠ m.id → baseName title n ≠ baseName title m) →
      m.name = baseName title m) ∧
    ∀ m ∈ modules, m.name = baseName title m ∨
      ∃ segment, IsAncestor m segment ∧ m.name = segment ++ '/' :: baseName title m := by
  rcases modulesFromFacts_cases h with ⟨hfiles, rfl⟩ |
    ⟨plain, rfl, hids, hname, hfile, hmodule⟩
  · -- without files there is one module
    have hbase : emptyModule.name = baseName title emptyModule := htitle.repository.symm
    refine ⟨⟨fun _ p hp => ?_, fun _ => nodup_singleton _⟩, fun m hm _ => ?_, fun m hm => ?_⟩
    · rw [hfiles] at hp
      cases hp
    · rw [mem_singleton.mp hm]
      exact hbase
    · rw [mem_singleton.mp hm]
      exact .inl hbase
  · have hslash : ∀ m ∈ plain, '/' ∉ m.name := by
      intro m hm
      rw [hname m hm]
      exact not_mem_moduleDisplayName htitle.slashes _
    have hbase : ∀ m ∈ plain, baseName title (disambiguated plain m) = m.name :=
      fun m hm => (hname m hm).symm
    refine ⟨?_, ?_, ?_⟩
    · rw [disambiguated_nodup_iff hids hslash]
      constructor
      · intro hdiff p hp q hq hid heq
        rcases hmodule p hp with ⟨m, hm, hmid⟩
        rcases hmodule q hq with ⟨n, hn, hnid⟩
        have hmn := hdiff m hm n hn (by rw [hmid, hnid]; exact hid)
          (by rw [hname m hm, hname n hn, hmid, hnid]; exact heq)
        rw [RepositoryModule.path, RepositoryModule.path, hname m hm, hname n hn, hmid, hnid,
          ← heq] at hmn
        rw [← heq]
        exact qualifyingParent_ne_iff.mp hmn
      · intro hsep m hm n hn hid heq
        rcases hfile m hm with ⟨p, hp, hmid⟩
        rcases hfile n hn with ⟨q, hq, hnid⟩
        have hnames : moduleDisplayName title (moduleId facts p) =
            moduleDisplayName title (moduleId facts q) := by
          rw [← hmid, ← hnid, ← hname m hm, ← hname n hn, heq]
        have hpq := hsep p hp q hq (by rw [← hmid, ← hnid]; exact hid) hnames
        rw [← hnames, ← qualifyingParent_ne_iff] at hpq
        rw [RepositoryModule.path, RepositoryModule.path, ← heq, hname m hm, hmid, hnid]
        exact hpq
    · intro m' hm' hunique
      rcases mem_map.mp hm' with ⟨m, hm, rfl⟩
      rw [hbase m hm]
      have honly : ∀ n ∈ plain, n.name = m.name → n = m := by
        intro n hn hsame
        by_contra hne
        refine hunique _ (mem_map_of_mem hn) (fun hid => hne (eq_of_id hids hn hm hid)) ?_
        rw [hbase n hn, hbase m hm, hsame]
      exact if_pos (.inl ((countP_lt_two_iff hids hm).mpr honly))
    · intro m' hm'
      rcases mem_map.mp hm' with ⟨m, hm, rfl⟩
      rw [hbase m hm]
      rcases disambiguated_name hids hm with ⟨-, hkept⟩ | ⟨-, hkept⟩ | ⟨hparent, hextended⟩
      · exact .inl hkept
      · exact .inl hkept
      · rcases ((qualifyingParent_eq_iff hparent).mp rfl).2.2 with ⟨above, below, hsplit, -⟩
        refine .inr ⟨_, ⟨hparent, ?_⟩, hextended⟩
        change _ ∈ splitOn '/' (dirname m.path)
        rw [hsplit]
        exact mem_append_right _ mem_cons_self

end Names

section Sample

local instance modulesInterpreter : Interpreter := cpython

/-- The first letter of a word in upper case. -/
def capitalized : Str → Str
  | [] => []
  | c :: s => c.toUpper :: s

theorem toUpper_ne_slash {c : Char} (h : c ≠ '/') : c.toUpper ≠ '/' := by
  by_cases hlower : c.val ≥ 'a'.val ∧ c.val ≤ 'z'.val
  · intro heq
    have hupper : c.toUpper.val = c.val + ('A'.val - 'a'.val) := by
      have hchar : c.toUpper = ⟨c.val + ('A'.val - 'a'.val), _⟩ := dif_pos hlower
      rw [hchar]
    have hsum := hupper.symm.trans (congrArg Char.val heq)
    have hval : c.val = '/'.val - ('A'.val - 'a'.val) := UInt32.eq_sub_iff_add_eq.mpr hsum
    rw [hval] at hlower
    exact absurd hlower.1 (by decide)
  · have hupper : c.toUpper = c := dif_neg hlower
    rw [hupper]
    exact h

theorem titleCase_capitalized : TitleCase capitalized where
  slashes := by
    intro s hs h
    cases s with
    | nil => exact hs h
    | cons c s =>
      rcases mem_cons.mp h with hc | hc
      · exact toUpper_ne_slash (fun heq => hs (heq ▸ mem_cons_self)) hc.symm
      · exact hs (mem_cons_of_mem _ hc)
  repository := by decide

/-- Two files with a function each. -/
def twoFiles (p q : String)
    (h : [(fileNode 1 p).stableKey, (fileNode 2 q).stableKey].Nodup) : ArchitectureSnapshotFacts :=
  { snapshotId := "snapshot".toList
    revisionKind := "git".toList
    revisionValue := "head".toList
    nodes := [fileNode 1 p, fileNode 2 q]
    symbolKeys := [(p ++ "::run").toList, (q ++ "::run").toList]
    edges := []
    assertions := []
    nodeEvidence := fun _ => []
    edgeEvidence := fun _ => []
    diagnostics := []
    coveredPaths := []
    nodes_unique := h
    edges_unique := List.nodup_nil
    subjects := fun _ h => absurd h List.not_mem_nil
    objects := fun _ h => absurd h List.not_mem_nil }

/-- Files of one name in two directories. -/
def utilities : ArchitectureSnapshotFacts :=
  twoFiles "openapi/utils.py" "security/utils.py" (by decide)

/-- The directories have one name as well. -/
def nestedUtilities : ArchitectureSnapshotFacts :=
  twoFiles "a/common/utils.py" "b/common/utils.py" (by decide)

theorem module_names_utilities :
    ∃ modules, modulesFromFacts utilities capitalized = .ok modules ∧
      (((modules.map RepositoryModule.name).Nodup ↔ Separated utilities capitalized) ∧
      (∀ m ∈ modules,
        (∀ n ∈ modules, n.id ≠ m.id → baseName capitalized n ≠ baseName capitalized m) →
        m.name = baseName capitalized m) ∧
      ∀ m ∈ modules, m.name = baseName capitalized m ∨
        ∃ segment, IsAncestor m segment ∧ m.name = segment ++ '/' :: baseName capitalized m) :=
  ⟨_, rfl, module_names utilities capitalized titleCase_capitalized rfl⟩

/-- Both modules are called `common/utils`. -/
theorem module_names_collide :
    ∃ modules, modulesFromFacts nestedUtilities capitalized = .ok modules ∧
      ¬ (modules.map RepositoryModule.name).Nodup :=
  ⟨_, rfl, by decide +kernel⟩

end Sample

end Architecture

end Partha
