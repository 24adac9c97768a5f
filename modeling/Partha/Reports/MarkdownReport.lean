import Partha.Reports.HtmlReport

/-!
# The Markdown of a Report

What the lines of `render_markdown`'s output are, by the items of the document that they are
written for.

Nothing is escaped, so that the texts decide what is read. The items of a document come in parts
with an empty line after each. Bullets are followed by a heading, which ends them, so that each
part can be read by itself: a table is read as it was meant iff no cell has a line break or a
pipe that separates, and any other part is read as it was meant iff its text alone is. The white
space that is stripped at the end of the output may take away text of the last part that is not
a table, or the whole of it.

## Main definitions

* `documentItems`: The parts of a document and what the lines of their items are to be.
* `settleParts`: The parts without the white space at the end.
* `MarkdownKept`: Each line is read as the item that it is written for says.
* `PreservesStructure`: No text adds or removes structure in either output.

## Theorems

* `fullText_settleParts`: What `str.rstrip` does to the parts.
* `kinds_parts_iff`: The parts are read one by one.
* `markdownKept_iff`: When each line is read as its item says.
* `preservesStructure_iff`: When no text adds or removes structure.
-/

namespace Partha

namespace Reports

open Canonical (Str joinWith)
open Markdown (LineKind lines fileLines kinds hasPipe rowCells)
open List

section Items

/-- What is written on a line, or on more than one if the text has line breaks, and what the
    first of them is to be read as. -/
structure Item where
  kind : LineKind
  text : Str

/-- The items between two empty lines. -/
inductive Part where
  | plain (items : List Item)
  | grid (table : Table)

/-- The header of a table, which is no table if it has no cell, and the line under it. -/
def headerKind (table : Table) : LineKind :=
  if table.headers = [] then .text else .table table.headers.length

def tableItems (table : Table) : List Item :=
  [⟨headerKind table, tableLine table.headers⟩,
      ⟨headerKind table, tableLine (table.headers.map (fun _ => "---".toList))⟩] ++
    table.rows.map (fun row => ⟨.table table.headers.length, tableLine row⟩)

def Part.toItems : Part → List Item
  | .plain items => items
  | .grid table => tableItems table

/-- A heading has one to six marks. Markdown has no other. -/
def headingKind (level : Int) : LineKind :=
  if 1 ≤ level ∧ level ≤ 6 then .heading else .never

def sectionItems (s : Section) : List Part :=
  [.plain [⟨headingKind s.level, headingLine s.level s.heading⟩]] ++
    s.fields.map (fun field => .plain [⟨.text, fieldLine field⟩]) ++
    s.paragraphs.map (fun paragraph => .plain [⟨.text, paragraph⟩]) ++
    (match s.table with
      | some table => [.grid table]
      | none => []) ++
    (if s.bullets = [] then []
      else [.plain (s.bullets.map (fun bullet => ⟨.bullet, bulletLine bullet⟩))])

/-- The parts of a document. -/
def documentItems (document : ReportDocument) : List Part :=
  [.plain [⟨.heading, titleLine document.title⟩]] ++
    (match document.shownSubtitle with
      | some subtitle => [.plain [⟨.text, subtitleLine subtitle⟩]]
      | none => []) ++
    document.sections.flatMap sectionItems

/-- The lines of a part, each with its break. -/
def itemsText (items : List Item) : Str :=
  items.flatMap (fun item => item.text ++ ['\n'])

/-- The lines of parts, with an empty line after each. -/
def fullText (parts : List Part) : Str :=
  parts.flatMap (fun part => itemsText part.toItems ++ ['\n'])

theorem fullText_append (parts parts' : List Part) :
    fullText (parts ++ parts') = fullText parts ++ fullText parts' :=
  flatMap_append

/-- A line with an empty line after it. -/
theorem fullText_line (kind : LineKind) (l : Str) :
    [l, []].flatMap (fun l => l ++ ['\n']) = fullText [.plain [⟨kind, l⟩]] := by
  simp [fullText, itemsText, Part.toItems]

theorem sectionLines_eq (s : Section) :
    (sectionLines s).flatMap (fun l => l ++ ['\n']) = fullText (sectionItems s) := by
  have hfields : (s.fields.flatMap (fun field => [fieldLine field, []])).flatMap
      (fun l => l ++ ['\n']) =
      fullText (s.fields.map (fun field => .plain [⟨.text, fieldLine field⟩])) := by
    simp [fullText, itemsText, Part.toItems, flatMap_assoc, flatMap_map]
  have hparagraphs : (s.paragraphs.flatMap (fun paragraph => [paragraph, []])).flatMap
      (fun l => l ++ ['\n']) =
      fullText (s.paragraphs.map (fun paragraph => .plain [⟨.text, paragraph⟩])) := by
    simp [fullText, itemsText, Part.toItems, flatMap_assoc, flatMap_map]
  have htable : ∀ table, (tableLines table).flatMap (fun l => l ++ ['\n']) =
      fullText [.grid table] := by
    intro table
    simp [fullText, itemsText, Part.toItems, tableItems, tableLines, flatMap_map]
  have hbullets : (s.bullets.map bulletLine ++ (if s.bullets = [] then [] else [[]])).flatMap
      (fun l => l ++ ['\n']) = fullText (if s.bullets = [] then []
        else [.plain (s.bullets.map (fun bullet => ⟨.bullet, bulletLine bullet⟩))]) := by
    by_cases h : s.bullets = []
    · rw [if_pos h, if_pos h, h]
      rfl
    · rw [if_neg h, if_neg h]
      simp [fullText, itemsText, Part.toItems, flatMap_map]
  rw [sectionLines, sectionItems, append_assoc _ (s.bullets.map bulletLine),
    flatMap_append, flatMap_append, flatMap_append, flatMap_append, hfields,
    hparagraphs, hbullets, fullText_line (headingKind s.level), fullText_append,
    fullText_append, fullText_append, fullText_append]
  cases s.table with
  | none => rfl
  | some table =>
    dsimp only
    rw [htable]

theorem markdownLines_eq (document : ReportDocument) :
    (markdownLines document).flatMap (fun l => l ++ ['\n']) =
      fullText (documentItems document) := by
  have hsections : (document.sections.flatMap sectionLines).flatMap (fun l => l ++ ['\n']) =
      fullText (document.sections.flatMap sectionItems) := by
    rw [fullText, flatMap_assoc, flatMap_assoc]
    exact flatMap_congr (fun s _ => sectionLines_eq s)
  rw [markdownLines, documentItems, flatMap_append, flatMap_append, hsections,
    fullText_line .heading, fullText_append, fullText_append]
  cases document.shownSubtitle with
  | none => rfl
  | some subtitle =>
    dsimp only
    rw [fullText_line .text]

end Items

section Settling

/-- Stripping text that follows, unless nothing of it is left. -/
theorem rstrip_append (s t : Str) :
    rstrip (s ++ t) = if rstrip t = [] then rstrip s else s ++ rstrip t := by
  unfold rstrip List.rdropWhile
  rw [List.reverse_append, List.dropWhile_append]
  by_cases h : t.reverse.dropWhile isSpace = []
  · rw [h]
    rfl
  · rw [if_neg (by rwa [List.isEmpty_iff]), if_neg (by rwa [List.reverse_eq_nil_iff]),
      List.reverse_append, List.reverse_reverse]

theorem rstrip_break (s : Str) : rstrip (s ++ ['\n']) = rstrip s := by
  have h : rstrip ['\n'] = [] := rfl
  rw [rstrip_append, if_pos h]

/-- Items without the white space at their end. -/
def settle : List Item → List Item
  | [] => []
  | item :: items =>
    match settle items with
    | [] => if rstrip item.text = [] then [] else [⟨item.kind, rstrip item.text⟩]
    | first :: rest => item :: first :: rest

/-- A part without the white space at its end, unless nothing of it is left. -/
def settlePart : Part → List Part
  | .grid table => [.grid table]
  | .plain items =>
    match settle items with
    | [] => []
    | item :: rest => [.plain (item :: rest)]

/-- Parts without the white space at their end. -/
def settleParts : List Part → List Part
  | [] => []
  | part :: parts =>
    match settleParts parts with
    | [] => settlePart part
    | first :: rest => part :: first :: rest

/-- What is left of a text, with line breaks after it unless nothing is left. -/
def ended (s breaks : Str) : Str :=
  if s = [] then [] else s ++ breaks

variable {items : List Item}

theorem itemsText_eq_nil : itemsText items = [] ↔ items = [] := by
  cases items with
  | nil => exact iff_of_true rfl rfl
  | cons item items =>
    refine iff_of_false (fun h => ?_) (cons_ne_nil _ _)
    simp [itemsText] at h

theorem fullText_eq_nil {parts : List Part} : fullText parts = [] ↔ parts = [] := by
  cases parts with
  | nil => exact iff_of_true rfl rfl
  | cons part parts =>
    refine iff_of_false (fun h => ?_) (cons_ne_nil _ _)
    simp [fullText] at h

/-- What `str.rstrip` does to items. -/
theorem itemsText_settle (items : List Item) :
    itemsText (settle items) = ended (rstrip (itemsText items)) ['\n'] := by
  induction items with
  | nil => rfl
  | cons item items ih =>
    have htext : itemsText (item :: items) = (item.text ++ ['\n']) ++ itemsText items := rfl
    rw [settle, htext, rstrip_append, rstrip_break]
    cases h : settle items with
    | nil =>
      have hnone : rstrip (itemsText items) = [] := by
        by_contra hne
        rw [h, ended, if_neg hne] at ih
        exact append_ne_nil_of_right_ne_nil _ (cons_ne_nil _ _) ih.symm
      rw [if_pos hnone, ended]
      by_cases hitem : rstrip item.text = []
      · rw [if_pos hitem, if_pos hitem]
        rfl
      · dsimp only
        rw [if_neg hitem, if_neg hitem]
        exact append_nil _
    | cons first rest =>
      have hsome : rstrip (itemsText items) ≠ [] := by
        intro hnone
        rw [h, ended, if_pos hnone, itemsText_eq_nil] at ih
        cases ih
      rw [ended, if_neg hsome] at ih
      have hne : item.text ++ ['\n'] ++ rstrip (itemsText items) ≠ [] :=
        append_ne_nil_of_right_ne_nil _ hsome
      dsimp only
      rw [if_neg hsome, ended, if_neg hne, append_assoc, ← ih, h]
      rfl

theorem settle_eq_nil : settle items = [] ↔ rstrip (itemsText items) = [] := by
  rw [← itemsText_eq_nil, itemsText_settle, ended]
  by_cases h : rstrip (itemsText items) = []
  · rw [if_pos h]
    exact iff_of_true rfl h
  · rw [if_neg h]
    exact iff_of_false (append_ne_nil_of_right_ne_nil _ (cons_ne_nil _ _)) h

/-- The text of a table ends with a pipe and a line break. -/
theorem itemsText_tableItems (table : Table) :
    ∃ s, itemsText (tableItems table) = s ++ ['|'] ++ ['\n'] := by
  have hline : ∀ cells, ∃ s, tableLine cells = s ++ ['|'] := by
    intro cells
    exact ⟨"| ".toList ++ List.intercalate " | ".toList cells ++ [' '],
      (append_assoc _ [' '] ['|']).symm⟩
  have hrows : ∀ item ∈ tableItems table, ∃ cells, item.text = tableLine cells := by
    intro item hitem
    rcases mem_append.mp hitem with hitem | hitem
    · rcases mem_pair.mp hitem with rfl | rfl
      · exact ⟨_, rfl⟩
      · exact ⟨_, rfl⟩
    · rcases mem_map.mp hitem with ⟨row, -, rfl⟩
      exact ⟨row, rfl⟩
  rcases eq_nil_or_concat (tableItems table) with hnil | ⟨items, item, hitems⟩
  · cases hnil
  · rw [concat_eq_append] at hitems
    rcases hrows item (by rw [hitems]; exact mem_concat_self) with ⟨cells, hcells⟩
    rcases hline cells with ⟨s, hs⟩
    refine ⟨itemsText items ++ s, ?_⟩
    rw [hitems, itemsText, flatMap_append, flatMap_singleton, hcells, hs,
      append_assoc, append_assoc, append_assoc]
    rfl

/-- What is left of a part whose text goes on with white space alone. -/
theorem fullText_settlePart (part : Part) :
    fullText (settlePart part) = ended (rstrip (itemsText part.toItems)) ['\n', '\n'] := by
  cases part with
  | grid table =>
    -- A row ends with a pipe, so that nothing of a table is white space at the end.
    rcases itemsText_tableItems table with ⟨s, hs⟩
    have hpipe : rstrip (s ++ ['|']) = s ++ ['|'] := by
      have hone : rstrip ['|'] = ['|'] := rfl
      rw [rstrip_append, hone]
      rfl
    have hne : s ++ ['|'] ≠ [] := append_ne_nil_of_right_ne_nil _ (cons_ne_nil _ _)
    rw [settlePart, fullText, flatMap_singleton, Part.toItems, hs, rstrip_break, hpipe,
      ended, if_neg hne, append_assoc]
    rfl
  | plain items =>
    have hitems := itemsText_settle items
    rw [settlePart, Part.toItems]
    cases h : settle items with
    | nil =>
      rw [settle_eq_nil] at h
      rw [h]
      rfl
    | cons item rest =>
      have hne : rstrip (itemsText items) ≠ [] := by
        intro hnil
        rw [settle_eq_nil.mpr hnil] at h
        cases h
      rw [ended, if_neg hne] at hitems
      rw [ended, if_neg hne, fullText, flatMap_singleton, Part.toItems, ← h, hitems,
        append_assoc]
      rfl

/-- What `str.rstrip` does to the parts. -/
theorem fullText_settleParts (parts : List Part) :
    fullText (settleParts parts) = ended (rstrip (fullText parts)) ['\n', '\n'] := by
  induction parts with
  | nil => rfl
  | cons part parts ih =>
    have htext : fullText (part :: parts) =
        (itemsText part.toItems ++ ['\n']) ++ fullText parts := rfl
    rw [htext, rstrip_append, rstrip_break]
    cases h : settleParts parts with
    | nil =>
      have hnone : rstrip (fullText parts) = [] := by
        by_contra hne
        rw [h, ended, if_neg hne] at ih
        exact append_ne_nil_of_right_ne_nil _ (cons_ne_nil _ _) ih.symm
      rw [settleParts, h, if_pos hnone]
      exact fullText_settlePart part
    | cons first rest =>
      have hsome : rstrip (fullText parts) ≠ [] := by
        intro hnone
        rw [h, ended, if_pos hnone, fullText_eq_nil] at ih
        cases ih
      rw [ended, if_neg hsome] at ih
      have hne : itemsText part.toItems ++ ['\n'] ++ rstrip (fullText parts) ≠ [] :=
        append_ne_nil_of_right_ne_nil _ hsome
      rw [settleParts, h]
      dsimp only
      rw [if_neg hsome, ended, if_neg hne, append_assoc, ← ih, h]
      rfl

/-- The parts of the output, which begin with the title. -/
theorem renderMarkdown_eq (document : ReportDocument) :
    renderMarkdown document ++ ['\n'] = fullText (settleParts (documentItems document)) := by
  have hjoined : ∀ ls : List Str, ls ≠ [] →
      joinWith '\n' ls ++ ['\n'] = ls.flatMap (fun l => l ++ ['\n']) := by
    intro ls hls
    cases ls with
    | nil => exact absurd rfl hls
    | cons first rest =>
      rw [joinWith_cons, flatMap_cons]
      induction rest generalizing first with
      | nil => simp
      | cons second rest ih =>
        have hrest := ih second (cons_ne_nil _ _)
        simp only [flatMap_cons, append_assoc, cons_append,
          nil_append] at hrest ⊢
        rw [hrest]
  have hstart : rstrip (fullText (documentItems document)) ≠ [] := by
    intro hnil
    have hspace := rdropWhile_eq_nil_iff.mp hnil '#' mem_cons_self
    cases hspace
  have hlines : markdownLines document ≠ [] := fun h => by cases h
  rw [fullText_settleParts, ended, if_neg hstart, renderMarkdown, ← rstrip_break, hjoined _ hlines,
    markdownLines_eq, append_assoc]
  rfl

end Settling

section Kinds

/-- The lines of items. -/
def itemLines (items : List Item) : List Str :=
  items.flatMap (fun item => lines item.text)

/-- What the lines of an item are to be: the first what the item is, the others text. -/
def Item.kinds (item : Item) : List LineKind :=
  item.kind :: List.replicate ((lines item.text).length - 1) .text

def itemKinds (items : List Item) : List LineKind :=
  items.flatMap Item.kinds

/-- What the lines of parts are to be, with an empty line after each part. -/
def partKinds (parts : List Part) : List LineKind :=
  parts.flatMap (fun part => itemKinds part.toItems ++ [.text])

theorem lines_itemsText (items : List Item) (t : Str) :
    lines (itemsText items ++ t) = itemLines items ++ lines t := by
  induction items with
  | nil => rfl
  | cons item items ih =>
    have htext : itemsText (item :: items) ++ t =
        item.text ++ '\n' :: (itemsText items ++ t) := by
      simp [itemsText]
    rw [htext, Markdown.lines_append, ih, itemLines, itemLines, flatMap_cons,
      append_assoc]

theorem lines_fullText (parts : List Part) :
    lines (fullText parts) =
      parts.flatMap (fun part => itemLines part.toItems ++ [[]]) ++ [[]] := by
  induction parts with
  | nil => rfl
  | cons part parts ih =>
    have htext : fullText (part :: parts) = itemsText part.toItems ++ '\n' :: fullText parts := by
      simp [fullText]
    have hempty : lines ('\n' :: fullText parts) = [] :: lines (fullText parts) :=
      Markdown.lines_append [] (fullText parts)
    rw [htext, lines_itemsText, hempty, ih, flatMap_cons, append_assoc,
      append_assoc]
    rfl

theorem length_itemKinds (items : List Item) :
    (itemKinds items).length = (itemLines items).length := by
  induction items with
  | nil => rfl
  | cons item items ih =>
    have hpos := length_pos_of_ne_nil (Markdown.lines_ne_nil item.text)
    rw [itemKinds, itemLines, flatMap_cons, flatMap_cons, length_append,
      length_append, ← itemKinds, ← itemLines, ih, Item.kinds, length_cons,
      length_replicate]
    omega

/-- The lines of parts, with an empty line after each. -/
def partLines (parts : List Part) : List Str :=
  parts.flatMap (fun part => itemLines part.toItems ++ [[]])

/-- The lines of the output are those of the parts. -/
theorem fileLines_renderMarkdown (document : ReportDocument) :
    fileLines (renderMarkdown document) ++ [[]] =
      partLines (settleParts (documentItems document)) := by
  have hfull := lines_fullText (settleParts (documentItems document))
  rw [← renderMarkdown_eq, renderMarkdown, Markdown.lines_append, Markdown.lines_append] at hfull
  rw [renderMarkdown, Markdown.fileLines_concat]
  exact append_cancel_right hfull

end Kinds

section Separation

def Part.HasBullet (part : Part) : Prop :=
  ∃ item ∈ part.toItems, item.kind = .bullet

/-- A part that a line begins which is not indented, or which is not read as it is to be. -/
def Part.Flush (part : Part) : Prop :=
  ∃ item items, part.toItems = item :: items ∧
    (item.kind = .never ∨ ∃ c s, item.text = c :: s ∧ isSpace c = false)

/-- What follows bullets is not indented. -/
def Separated : List Part → Prop
  | [] => True
  | part :: parts => (part.HasBullet → ∀ next ∈ parts.head?, next.Flush) ∧ Separated parts

variable {parts : List Part} {part : Part}

theorem separated_append {parts' : List Part} (h : Separated parts) (h' : Separated parts')
    (hflush : ∀ next ∈ parts'.head?, next.Flush) : Separated (parts ++ parts') := by
  induction parts with
  | nil => exact h'
  | cons part parts ih =>
    refine ⟨fun hbullet => ?_, ih h.2⟩
    cases parts with
    | nil => exact hflush
    | cons next parts => exact h.1 hbullet

theorem separated_of_no_bullet (h : ∀ part ∈ parts, ¬ part.HasBullet) : Separated parts := by
  induction parts with
  | nil => trivial
  | cons part parts ih =>
    exact ⟨fun hbullet => absurd hbullet (h part mem_cons_self),
      ih (fun p hp => h p (mem_cons_of_mem _ hp))⟩

theorem not_hasBullet_line {kind : LineKind} (h : kind ≠ .bullet) (text : Str) :
    ¬ (Part.plain [⟨kind, text⟩]).HasBullet := by
  rintro ⟨item, hitem, hkind⟩
  rw [mem_singleton.mp hitem] at hkind
  exact h hkind

theorem not_hasBullet_grid (table : Table) : ¬ (Part.grid table).HasBullet := by
  have hheader : headerKind table ≠ .bullet := by
    unfold headerKind
    split
    · exact fun h => by cases h
    · exact fun h => by cases h
  rintro ⟨item, hitem, hkind⟩
  rcases mem_append.mp hitem with hitem | hitem
  · rcases mem_pair.mp hitem with rfl | rfl
    · exact hheader hkind
    · exact hheader hkind
  · rcases mem_map.mp hitem with ⟨_, -, rfl⟩
    cases hkind

theorem headingKind_ne_bullet (level : Int) : headingKind level ≠ .bullet := by
  unfold headingKind
  split
  · exact fun h => by cases h
  · exact fun h => by cases h

/-- A section begins with a mark, or with a heading that Markdown does not have. -/
theorem flush_sectionItems (s : Section) : ∀ next ∈ (sectionItems s).head?, next.Flush := by
  intro next hnext
  have hhead : Part.plain [⟨headingKind s.level, headingLine s.level s.heading⟩] = next :=
    Option.some.inj hnext
  refine ⟨⟨headingKind s.level, headingLine s.level s.heading⟩, [], by rw [← hhead]; rfl, ?_⟩
  by_cases hlevel : 1 ≤ s.level ∧ s.level ≤ 6
  · right
    have hpos : s.level.toNat = s.level.toNat - 1 + 1 := by omega
    refine ⟨'#', List.replicate (s.level.toNat - 1) '#' ++ ' ' :: s.heading, ?_, rfl⟩
    change headingLine s.level s.heading = _
    rw [headingLine, hpos, replicate_succ]
    rfl
  · exact .inl (if_neg hlevel)

theorem separated_sectionItems (s : Section) : Separated (sectionItems s) := by
  have hplain : ∀ {α : Type} (l : List α) (f : α → Str), ∀ part ∈
      l.map (fun a => Part.plain [⟨.text, f a⟩]), ¬ part.HasBullet := by
    intro α l f part hpart
    rcases mem_map.mp hpart with ⟨a, -, rfl⟩
    exact not_hasBullet_line (fun h => by cases h) _
  have htable : ∀ part ∈ (match s.table with
      | some table => [Part.grid table]
      | none => []), ¬ part.HasBullet := by
    cases s.table with
    | none => exact fun part hpart => absurd hpart not_mem_nil
    | some table =>
      intro part hpart
      rw [mem_singleton.mp hpart]
      exact not_hasBullet_grid table
  have hlast : ∀ items, Separated (if s.bullets = [] then [] else [Part.plain items]) := by
    intro items
    split
    · trivial
    · exact ⟨fun _ next h => (by cases h), trivial⟩
  rw [sectionItems]
  refine separated_append (separated_of_no_bullet ?_) (hlast _) ?_
  · intro part hpart
    simp only [mem_append, mem_singleton] at hpart
    rcases hpart with ((hhead | hfield) | hparagraph) | hgrid
    · rw [hhead]
      exact not_hasBullet_line (headingKind_ne_bullet s.level) _
    · exact hplain _ _ part hfield
    · exact hplain s.paragraphs id part hparagraph
    · exact htable part hgrid
  · intro next hnext
    split at hnext
    · cases hnext
    · rename_i hne
      cases hnext
      rcases exists_cons_of_ne_nil hne with ⟨bullet, bullets, hbullets⟩
      refine ⟨⟨.bullet, bulletLine bullet⟩, _, by rw [hbullets]; rfl, .inr ?_⟩
      exact ⟨'-', ' ' :: bullet, rfl, rfl⟩

theorem separated_documentItems (document : ReportDocument) :
    Separated (documentItems document) := by
  have hsections : ∀ sections : List Section, Separated (sections.flatMap sectionItems) ∧
      ∀ next ∈ (sections.flatMap sectionItems).head?, next.Flush := by
    intro sections
    induction sections with
    | nil => exact ⟨trivial, fun next h => by cases h⟩
    | cons s sections ih =>
      refine ⟨separated_append (separated_sectionItems s) ih.1 ih.2, fun next hnext => ?_⟩
      exact flush_sectionItems s next hnext
  have hstart : ∀ part ∈ [Part.plain [⟨.heading, titleLine document.title⟩]] ++
      (match document.shownSubtitle with
        | some subtitle => [.plain [⟨.text, subtitleLine subtitle⟩]]
        | none => []), ¬ part.HasBullet := by
    intro part hpart
    rcases mem_append.mp hpart with hpart | hpart
    · rw [mem_singleton.mp hpart]
      exact not_hasBullet_line (fun h => by cases h) _
    · split at hpart
      · rw [mem_singleton.mp hpart]
        exact not_hasBullet_line (fun h => by cases h) _
      · cases hpart
  exact separated_append (separated_of_no_bullet hstart) (hsections _).1 (hsections _).2

/-- Nothing is stripped from before a character that is no white space. -/
theorem rstrip_cons {c : Char} (h : isSpace c = false) (s : Str) :
    ∃ s', rstrip (c :: s) = c :: s' := by
  have hone : rstrip [c] = [c] := by
    rw [rstrip, rdropWhile_singleton, h]
    rfl
  have happend := rstrip_append [c] s
  rw [singleton_append, hone] at happend
  split at happend
  · exact ⟨[], happend⟩
  · exact ⟨rstrip s, happend⟩

theorem flush_settlePart {first : Part} {rest : List Part} (h : part.Flush)
    (hsettle : settlePart part = first :: rest) : first.Flush := by
  rcases h with ⟨item, items, hitems, hflush⟩
  cases part with
  | grid table =>
    rw [← (List.cons.inj hsettle).1]
    exact ⟨item, items, hitems, hflush⟩
  | plain items' =>
    have hsame : items' = item :: items := hitems
    rw [settlePart, hsame, settle] at hsettle
    cases hrest : settle items with
    | cons next later =>
      rw [hrest] at hsettle
      rw [← (List.cons.inj hsettle).1]
      exact ⟨item, next :: later, rfl, hflush⟩
    | nil =>
      rw [hrest] at hsettle
      dsimp only at hsettle
      by_cases hnil : rstrip item.text = []
      · rw [if_pos hnil] at hsettle
        cases hsettle
      · rw [if_neg hnil] at hsettle
        rw [← (List.cons.inj hsettle).1]
        refine ⟨_, [], rfl, hflush.imp id ?_⟩
        rintro ⟨c, s, htext, hc⟩
        rcases rstrip_cons hc s with ⟨s', hs'⟩
        exact ⟨c, s', by rw [htext]; exact hs', hc⟩

theorem separated_settleParts (h : Separated parts) : Separated (settleParts parts) := by
  have hone : ∀ part, Separated (settlePart part) := by
    intro part
    cases part with
    | grid table => exact ⟨fun _ next hnext => (by cases hnext), trivial⟩
    | plain items =>
      rw [settlePart]
      split
      · trivial
      · exact ⟨fun _ next hnext => (by cases hnext), trivial⟩
  have hhead : ∀ parts : List Part, (∀ next ∈ parts.head?, next.Flush) →
      ∀ next ∈ (settleParts parts).head?, next.Flush := by
    intro parts hflush next hnext
    cases parts with
    | nil => cases hnext
    | cons part parts =>
      rw [settleParts] at hnext
      cases hrest : settleParts parts with
      | cons first rest =>
        rw [hrest] at hnext
        exact hflush next hnext
      | nil =>
        rw [hrest] at hnext
        dsimp only at hnext
        cases hpart : settlePart part with
        | nil =>
          rw [hpart] at hnext
          cases hnext
        | cons first rest =>
          rw [hpart] at hnext
          cases hnext
          exact flush_settlePart (hflush part rfl) hpart
  induction parts with
  | nil => trivial
  | cons part parts ih =>
    have hnext := fun hbullet => hhead parts (h.1 hbullet)
    have hrest := ih h.2
    rw [settleParts]
    cases hsettled : settleParts parts with
    | nil => exact hone part
    | cons first rest =>
      rw [hsettled] at hnext hrest
      exact ⟨hnext, hrest⟩

theorem bullet_of_itemKinds (h : .bullet ∈ itemKinds part.toItems) : part.HasBullet := by
  rcases mem_flatMap.mp h with ⟨item, hitem, hkind⟩
  rcases mem_cons.mp hkind with he | hkind
  · exact ⟨item, hitem, he.symm⟩
  · cases eq_of_mem_replicate hkind

/-- A part that is read as it is to be begins with a line that is not indented. -/
theorem flush_lines (h : part.Flush) (hnever : ∀ item ∈ part.toItems, item.kind ≠ .never) :
    ∃ l ls, itemLines part.toItems = l :: ls ∧ Markdown.isBlank l = false ∧
      Markdown.column 0 l < 2 := by
  rcases h with ⟨item, items, hitems, hkind | ⟨c, s, htext, hc⟩⟩
  · exact absurd hkind (hnever item (by rw [hitems]; exact mem_cons_self))
  have hne : c ≠ ' ' ∧ c ≠ '\t' ∧ c ≠ '\n' ∧ c ≠ '\r' := by
    refine ⟨?_, ?_, ?_, ?_⟩
    · rintro rfl
      cases hc
    · rintro rfl
      cases hc
    · rintro rfl
      cases hc
    · rintro rfl
      cases hc
  rcases exists_cons_of_ne_nil (Markdown.lines_ne_nil s) with ⟨l, ls, hls⟩
  have hlines : lines (c :: s) = (c :: l) :: ls := by
    have hjoined : Markdown.joined c s = false := by
      rw [Markdown.joined, decide_eq_false hne.2.2.2, Bool.false_and]
    rw [lines, hjoined, if_neg Bool.false_ne_true, if_neg (not_or.mpr hne.2.2), hls]
    rfl
  refine ⟨c :: l, ls ++ itemLines items, ?_, ?_, ?_⟩
  · rw [hitems, itemLines, flatMap_cons, htext, hlines]
    rfl
  · rw [Markdown.isBlank, all_cons, Markdown.isBlankChar, decide_eq_false hne.1,
      decide_eq_false hne.2.1]
    rfl
  · rw [Markdown.column, if_neg hne.1, if_neg hne.2.1]
    exact Nat.zero_lt_two

/-- Parts are read one by one. -/
theorem kinds_parts_iff (h : Separated parts) :
    kinds .none (partLines parts) = partKinds parts ↔
      ∀ part ∈ parts, kinds .none (itemLines part.toItems) = itemKinds part.toItems := by
  by_cases hnever : ∃ part ∈ parts, ∃ item ∈ part.toItems, item.kind = .never
  · -- What Markdown cannot write is not read.
    rcases hnever with ⟨part, hpart, item, hitem, hkind⟩
    have hmem : LineKind.never ∈ itemKinds part.toItems :=
      mem_flatMap.mpr ⟨item, hitem, mem_cons.mpr (.inl hkind.symm)⟩
    refine iff_of_false (fun he => ?_) (fun hall => ?_)
    · refine Markdown.never_not_mem_kinds .none (partLines parts) ?_
      rw [he]
      exact mem_flatMap.mpr ⟨part, hpart, mem_append_left _ hmem⟩
    · rw [← hall part hpart] at hmem
      exact Markdown.never_not_mem_kinds _ _ hmem
  have hgeneral : ∀ (parts : List Part) (block : Markdown.Block), Separated parts →
      (∀ part ∈ parts, ∀ item ∈ part.toItems, item.kind ≠ .never) →
      (block.isItem = true → ∀ next ∈ parts.head?, next.Flush) →
      (kinds (Markdown.closed block) (partLines parts) = partKinds parts ↔
        ∀ part ∈ parts, kinds .none (itemLines part.toItems) = itemKinds part.toItems) := by
    intro parts
    induction parts with
    | nil =>
      exact fun block _ _ _ => iff_of_true rfl (fun part hpart => absurd hpart not_mem_nil)
    | cons part parts ih =>
      intro block hseparated hkinds hflush
      have hopen : kinds (Markdown.closed block) (partLines (part :: parts)) =
          kinds .none (partLines (part :: parts)) := by
        cases hitem : block.isItem with
        | false => rw [Markdown.closed_of_not_item hitem]
        | true =>
          rcases flush_lines (hflush hitem part rfl) (hkinds part mem_cons_self) with
            ⟨l, ls, hlines, hblank, hcolumn⟩
          rw [partLines, flatMap_cons, hlines]
          exact Markdown.kinds_flush block hblank hcolumn _
      have hsplit : partLines (part :: parts) =
          itemLines part.toItems ++ [] :: partLines parts := by
        rw [partLines, flatMap_cons, append_assoc]
        rfl
      have hexpected : partKinds (part :: parts) =
          itemKinds part.toItems ++ .text :: partKinds parts := by
        rw [partKinds, flatMap_cons, append_assoc]
        rfl
      have hlength : (kinds .none (itemLines part.toItems)).length =
          (itemKinds part.toItems).length := by
        rw [Markdown.length_kinds, length_itemKinds]
      rw [hopen, hsplit, Markdown.kinds_append_blank, hexpected, forall_mem_cons]
      constructor
      · intro he
        rcases append_inj he hlength with ⟨hhere, hrest⟩
        refine ⟨hhere, (ih _ hseparated.2 (fun p hp => hkinds p (mem_cons_of_mem _ hp))
          (fun hitem => ?_)).mp (List.cons.inj hrest).2⟩
        rcases Markdown.after_isItem _ _ hitem with hnone | hbullet
        · cases hnone
        · exact hseparated.1 (bullet_of_itemKinds (hhere ▸ hbullet))
      · rintro ⟨hhere, hrest⟩
        rw [hhere, (ih _ hseparated.2 (fun p hp => hkinds p (mem_cons_of_mem _ hp))
          (fun hitem => ?_)).mpr hrest]
        rcases Markdown.after_isItem _ _ hitem with hnone | hbullet
        · cases hnone
        · exact hseparated.1 (bullet_of_itemKinds (hhere ▸ hbullet))
  exact hgeneral parts .none h (fun part hpart item hitem hkind =>
    hnever ⟨part, hpart, item, hitem, hkind⟩) (fun hitem => by cases hitem)

/-- The lines of the output are what they are to be iff those of each part are. -/
theorem kinds_settled_iff (document : ReportDocument) :
    kinds .none (fileLines (renderMarkdown document)) ++ [.text] =
        partKinds (settleParts (documentItems document)) ↔
      ∀ part ∈ settleParts (documentItems document),
        kinds .none (itemLines part.toItems) = itemKinds part.toItems := by
  have hkinds : kinds .none (fileLines (renderMarkdown document)) ++ [.text] =
      kinds .none (partLines (settleParts (documentItems document))) := by
    rw [← fileLines_renderMarkdown, Markdown.kinds_append_blank]
    rfl
  rw [hkinds]
  exact kinds_parts_iff (separated_settleParts (separated_documentItems document))

end Separation

section Shape

/-- A text has no more lines than one that goes on. -/
theorem length_lines_append (s t : Str) : (lines s).length ≤ (lines (s ++ t)).length := by
  induction s with
  | nil => exact length_pos_of_ne_nil (Markdown.lines_ne_nil t)
  | cons c s ih =>
    by_cases hjoined : Markdown.joined c s = true
    · -- A carriage return that ends the text may be the end of a line when the text goes on.
      rw [lines, if_pos hjoined, cons_append, lines]
      split
      · exact ih
      · split
        · exact Nat.le_succ_of_le ih
        · rw [Markdown.length_consLine c (Markdown.lines_ne_nil _)]
          exact ih
    · have hsame : ¬ Markdown.joined c (s ++ t) = true := by
        cases s with
        | cons d s => exact hjoined
        | nil =>
          intro h
          rw [Markdown.joined, Bool.and_eq_true] at h
          refine hjoined ?_
          rw [Markdown.joined, h.1]
          rfl
      rw [lines, if_neg hjoined, cons_append, lines, if_neg hsame]
      split
      · exact Nat.succ_le_succ ih
      · rw [Markdown.length_consLine c (Markdown.lines_ne_nil _),
          Markdown.length_consLine c (Markdown.lines_ne_nil _)]
        exact ih

theorem length_lines_rstrip (s : Str) : (lines (rstrip s)).length ≤ (lines s).length := by
  rcases rdropWhile_prefix isSpace s with ⟨t, ht⟩
  calc (lines (rstrip s)).length
      ≤ (lines (rstrip s ++ t)).length := length_lines_append _ t
    _ = (lines s).length := congrArg (fun l => (lines l).length) ht

theorem isPrefix_replicate {α : Type} (a : α) {m n : Nat} (h : m ≤ n) :
    List.replicate m a <+: List.replicate n a :=
  ⟨List.replicate (n - m) a, by rw [← replicate_add, Nat.add_sub_cancel' h]⟩

theorem itemKinds_settle (items : List Item) : itemKinds (settle items) <+: itemKinds items := by
  induction items with
  | nil => exact prefix_refl _
  | cons item items ih =>
    rw [settle]
    cases h : settle items with
    | nil =>
      dsimp only
      split
      · exact nil_prefix
      · have hlength := length_lines_rstrip item.text
        have hkinds : itemKinds [⟨item.kind, rstrip item.text⟩] <+: item.kinds := by
          rw [itemKinds, flatMap_singleton, Item.kinds, Item.kinds,
            cons_prefix_cons]
          exact ⟨rfl, isPrefix_replicate _ (Nat.sub_le_sub_right hlength 1)⟩
        exact hkinds.trans (prefix_append _ _)
    | cons first rest =>
      rw [h] at ih
      exact (prefix_append_right_inj item.kinds).mpr ih

/-- The lines of the output are to be what the first lines are to be before the white space at
    the end is stripped. -/
theorem partKinds_settleParts (parts : List Part) :
    (partKinds (settleParts parts)).dropLast <+: partKinds parts := by
  induction parts with
  | nil => exact prefix_refl _
  | cons part parts ih =>
    rw [settleParts]
    cases h : settleParts parts with
    | nil =>
      have hpart : (partKinds (settlePart part)).dropLast <+: itemKinds part.toItems := by
        cases part with
        | grid table =>
          refine ⟨[], ?_⟩
          rw [append_nil, settlePart, partKinds, flatMap_singleton,
            dropLast_concat]
        | plain items =>
          have hitems := itemKinds_settle items
          rw [settlePart]
          cases hsettled : settle items with
          | nil => exact nil_prefix
          | cons item rest =>
            rw [hsettled] at hitems
            dsimp only
            rw [partKinds, flatMap_singleton, dropLast_concat]
            exact hitems
      exact hpart.trans ((prefix_append _ _).trans (prefix_append _ _))
    | cons first rest =>
      rw [h] at ih
      have hne : partKinds (first :: rest) ≠ [] :=
        append_ne_nil_of_left_ne_nil
          (append_ne_nil_of_right_ne_nil _ (cons_ne_nil _ _)) _
      have hcons : partKinds (part :: first :: rest) =
          (itemKinds part.toItems ++ [.text]) ++ partKinds (first :: rest) := rfl
      dsimp only
      rw [hcons, dropLast_append_of_ne_nil hne]
      exact (prefix_append_right_inj _).mpr ih

/-- Each line of the output is read as the item that it is written for says, and each row of a
    table is written on one line. -/
def MarkdownKept (document : ReportDocument) : Prop :=
  kinds .none (fileLines (renderMarkdown document)) =
      (partKinds (documentItems document)).take (fileLines (renderMarkdown document)).length ∧
    ∀ s ∈ document.sections, ∀ table ∈ s.table, ∀ row ∈ table.headers :: table.rows,
      (lines (tableLine row)).length = 1

theorem length_partKinds (parts : List Part) :
    (partKinds parts).length = (partLines parts).length := by
  have hpart : ∀ part : Part, (itemKinds part.toItems ++ [LineKind.text]).length =
      (itemLines part.toItems ++ [[]]).length := by
    intro part
    rw [length_append, length_append, length_itemKinds]
    rfl
  rw [partKinds, partLines, length_flatMap, length_flatMap]
  simp only [hpart]

theorem partKinds_concat {parts : List Part} (h : parts ≠ []) :
    ∃ expected, partKinds parts = expected ++ [.text] := by
  rcases eq_nil_or_concat parts with hnil | ⟨init, part, hconcat⟩
  · exact absurd hnil h
  · refine ⟨partKinds init ++ itemKinds part.toItems, ?_⟩
    rw [hconcat, concat_eq_append, partKinds, flatMap_append, flatMap_singleton,
      ← append_assoc]
    rfl

theorem kinds_eq_iff (document : ReportDocument) :
    kinds .none (fileLines (renderMarkdown document)) =
        (partKinds (documentItems document)).take (fileLines (renderMarkdown document)).length ↔
      ∀ part ∈ settleParts (documentItems document),
        kinds .none (itemLines part.toItems) = itemKinds part.toItems := by
  have hne : settleParts (documentItems document) ≠ [] := by
    intro hnil
    have hfull := renderMarkdown_eq document
    rw [hnil] at hfull
    exact append_ne_nil_of_right_ne_nil _ (cons_ne_nil _ _) hfull
  rcases partKinds_concat hne with ⟨expected, hexpected⟩
  have hlength : expected.length = (fileLines (renderMarkdown document)).length := by
    have hsame := length_partKinds (settleParts (documentItems document))
    rw [hexpected, ← fileLines_renderMarkdown, length_append, length_append] at hsame
    exact Nat.add_right_cancel hsame
  have htake : (partKinds (documentItems document)).take
      (fileLines (renderMarkdown document)).length = expected := by
    have hprefix := partKinds_settleParts (documentItems document)
    rw [hexpected, dropLast_concat] at hprefix
    rw [← hlength]
    exact (prefix_iff_eq_take.mp hprefix).symm
  rw [htake, ← kinds_settled_iff, hexpected]
  exact (append_left_inj _).symm

end Shape

section Tables

/-- A text that may stand in a cell. -/
def CellKept (cell : Str) : Prop :=
  (∀ c ∈ cell, c ≠ '\n' ∧ c ≠ '\r') ∧ hasPipe false cell = false

/-- A table that is read as it was meant. -/
def TableKept (table : Table) : Prop :=
  (table.headers = [] → table.rows = []) ∧
    ∀ cell ∈ table.headers ++ table.rows.flatten, CellKept cell

theorem tableLine_eq (cells : List Str) : tableLine cells = Markdown.writeRow cells :=
  rfl

/-- A row is written on one line iff no cell has a line break. -/
theorem length_lines_tableLine (cells : List Str) :
    (lines (tableLine cells)).length = 1 ↔ ∀ cell ∈ cells, ∀ c ∈ cell, c ≠ '\n' ∧ c ≠ '\r' := by
  have hcells := Markdown.forall_mem_writeRow (p := fun c => c ≠ '\n' ∧ c ≠ '\r') (by decide)
    (by decide) cells
  rw [← hcells, tableLine_eq]
  constructor
  · intro h
    refine Markdown.free_of_length_lines h ?_
    rw [Markdown.getLast?_writeRow]
    decide
  · intro h
    rw [Markdown.lines_of_free h]
    rfl

theorem lines_tableLine {cells : List Str} (h : (lines (tableLine cells)).length = 1) :
    lines (tableLine cells) = [Markdown.writeRow cells] := by
  have hcells := Markdown.forall_mem_writeRow (p := fun c => c ≠ '\n' ∧ c ≠ '\r') (by decide)
    (by decide) cells
  exact Markdown.lines_of_free (hcells.mpr ((length_lines_tableLine cells).mp h))

theorem dashes_plain (headers : List Str) :
    (lines (tableLine (headers.map (fun _ => "---".toList)))).length = 1 := by
  have hdashes : "---".toList = List.replicate 3 '-' := rfl
  rw [length_lines_tableLine]
  intro cell hcell c hc
  rcases mem_map.mp hcell with ⟨_, -, rfl⟩
  rw [hdashes] at hc
  rw [(mem_replicate.mp hc).2]
  decide

theorem flatMap_eq_map {α β : Type} {f : α → List β} {g : α → β} {l : List α}
    (h : ∀ a ∈ l, f a = [g a]) : l.flatMap f = l.map g := by
  rw [flatMap_congr h]
  exact flatMap_pure_eq_map g l

variable {table : Table}

/-- The lines of a table whose rows are written on one line each. -/
theorem itemLines_table
    (h : ∀ row ∈ table.headers :: table.rows, (lines (tableLine row)).length = 1) :
    itemLines (tableItems table) = Markdown.writeRow table.headers ::
      Markdown.writeRow (table.headers.map (fun _ => "---".toList)) ::
        table.rows.map Markdown.writeRow := by
  rw [itemLines, tableItems, flatMap_append, flatMap_map,
    flatMap_eq_map (fun row hrow => lines_tableLine (h row (mem_cons_of_mem _ hrow))),
    flatMap_cons, flatMap_singleton, lines_tableLine (h _ mem_cons_self),
    lines_tableLine (dashes_plain _)]
  rfl

theorem itemKinds_table
    (h : ∀ row ∈ table.headers :: table.rows, (lines (tableLine row)).length = 1) :
    itemKinds (tableItems table) = headerKind table :: headerKind table ::
      table.rows.map (fun _ => .table table.headers.length) := by
  have hone : ∀ {kind : LineKind} {cells : List Str}, (lines (tableLine cells)).length = 1 →
      Item.kinds ⟨kind, tableLine cells⟩ = [kind] := by
    intro kind cells hcells
    rw [Item.kinds, hcells]
    rfl
  rw [itemKinds, tableItems, flatMap_append, flatMap_map,
    flatMap_eq_map (fun row hrow => hone (h row (mem_cons_of_mem _ hrow))),
    flatMap_cons, flatMap_singleton, hone (h _ mem_cons_self),
    hone (dashes_plain _)]
  rfl

/-- Without columns there is no table, so that there may be no rows. -/
theorem empty_kept_iff (hheaders : table.headers = []) :
    kinds .none (Markdown.writeRow [] :: Markdown.writeRow [] ::
        table.rows.map Markdown.writeRow) =
      .text :: .text :: table.rows.map (fun _ => .table 0) ↔ table.rows = [] := by
  have hrows : table.rows = List.replicate table.rows.length [] := by
    refine eq_replicate_of_mem (fun row hrow => ?_)
    have hlength := table.rectangular row hrow
    rw [hheaders] at hlength
    exact length_eq_zero_iff.mp hlength
  have hlines : Markdown.writeRow [] :: Markdown.writeRow [] ::
      table.rows.map Markdown.writeRow =
      List.replicate (table.rows.length + 2) (Markdown.writeRow []) := by
    rw [hrows, map_replicate, length_replicate]
    rfl
  rw [hlines, Markdown.kinds_empty .none (.inl rfl)]
  cases table.rows with
  | nil => exact iff_of_true rfl rfl
  | cons row rows =>
    refine iff_of_false (fun h => ?_) (cons_ne_nil _ _)
    injection h with _ h
    injection h with _ h
    injection h with h _
    cases h

/-- The rows have as many cells as there are headers iff no cell has a pipe that separates. -/
theorem columns_kept_iff (hheaders : table.headers ≠ []) :
    kinds .none (Markdown.writeRow table.headers ::
        Markdown.writeRow (table.headers.map (fun _ => "---".toList)) ::
          table.rows.map Markdown.writeRow) =
      .table table.headers.length :: .table table.headers.length ::
        table.rows.map (fun _ => .table table.headers.length) ↔
      ∀ cell ∈ table.headers ++ table.rows.flatten, hasPipe false cell = false := by
  have hrows : table.rows.map
      (fun row => LineKind.table (rowCells (Markdown.writeRow row)).length) =
      table.rows.map (fun _ => .table table.headers.length) ↔
      ∀ cell ∈ table.rows.flatten, hasPipe false cell = false := by
    rw [map_inj_left, forall_mem_flatten]
    refine forall₂_congr (fun row hrow => ?_)
    have hlength := table.rectangular row hrow
    have hne : row ≠ [] := by
      intro hnil
      rw [hnil] at hlength
      exact hheaders (length_eq_zero_iff.mp hlength.symm)
    rw [← Markdown.length_rowCells_iff hne, hlength, LineKind.table.injEq]
  rw [Markdown.kinds_header hheaders, forall_mem_append,
    ← Markdown.length_rowCells_iff hheaders]
  by_cases hcount : (rowCells (Markdown.writeRow table.headers)).length = table.headers.length
  · rw [if_pos hcount, List.cons.injEq, List.cons.injEq, hrows]
    simp [hcount]
  · rw [if_neg hcount]
    refine iff_of_false (fun h => ?_) (fun h => hcount h.1)
    injection h with h _
    cases h

/-- A table is read as it was meant. -/
theorem table_kept_iff (table : Table) :
    (kinds .none (itemLines (tableItems table)) = itemKinds (tableItems table) ∧
        ∀ row ∈ table.headers :: table.rows, (lines (tableLine row)).length = 1) ↔
      TableKept table := by
  have hlines : TableKept table →
      ∀ row ∈ table.headers :: table.rows, (lines (tableLine row)).length = 1 := by
    rintro ⟨-, hcells⟩ row hrow
    rw [length_lines_tableLine]
    intro cell hcell
    rcases mem_cons.mp hrow with rfl | hrow
    · exact (hcells cell (mem_append_left _ hcell)).1
    · exact (hcells cell (mem_append_right _ (mem_flatten.mpr ⟨row, hrow, hcell⟩))).1
  have hkinds : (∀ row ∈ table.headers :: table.rows, (lines (tableLine row)).length = 1) →
      (kinds .none (itemLines (tableItems table)) = itemKinds (tableItems table) ↔
        TableKept table) := by
    intro hone
    have hfree : ∀ cell ∈ table.headers ++ table.rows.flatten, ∀ c ∈ cell, c ≠ '\n' ∧ c ≠ '\r' := by
      intro cell hcell
      rcases mem_append.mp hcell with hcell | hcell
      · exact (length_lines_tableLine _).mp (hone _ mem_cons_self) cell hcell
      · rcases mem_flatten.mp hcell with ⟨row, hrow, hcell⟩
        exact (length_lines_tableLine _).mp (hone _ (mem_cons_of_mem _ hrow)) cell hcell
    rw [itemLines_table hone, itemKinds_table hone, headerKind]
    by_cases hheaders : table.headers = []
    · rw [if_pos hheaders, hheaders]
      refine (empty_kept_iff hheaders).trans
        ⟨fun hrows => ⟨fun _ => hrows, fun cell hcell => ?_⟩, fun h => h.1 hheaders⟩
      rw [hheaders, hrows] at hcell
      cases hcell
    · rw [if_neg hheaders, columns_kept_iff hheaders]
      exact ⟨fun h => ⟨fun hnil => absurd hnil hheaders, fun cell hcell => ⟨hfree cell hcell,
        h cell hcell⟩⟩, fun h cell hcell => (h.2 cell hcell).2⟩
  exact ⟨fun h => (hkinds h.2).mp h.1, fun h => ⟨(hkinds (hlines h)).mpr h, hlines h⟩⟩

end Tables

section Documents

/-- A part that is read as it was meant. -/
def Part.Kept : Part → Prop
  | .plain items => kinds .none (itemLines items) = itemKinds items
  | .grid table => TableKept table

variable {table : Table}

/-- No table is white space. -/
theorem grid_mem_settleParts {parts : List Part} :
    .grid table ∈ settleParts parts ↔ .grid table ∈ parts := by
  induction parts with
  | nil => exact Iff.rfl
  | cons part parts ih =>
    have hpart : Part.grid table ∈ settlePart part ↔ .grid table = part := by
      cases part with
      | grid table' => exact mem_singleton
      | plain items =>
        refine iff_of_false (fun h => ?_) (fun h => by cases h)
        rw [settlePart] at h
        split at h
        · cases h
        · cases mem_singleton.mp h
    rw [settleParts, mem_cons, ← ih]
    cases h : settleParts parts with
    | nil =>
      dsimp only
      rw [hpart]
      exact (or_iff_left not_mem_nil).symm
    | cons first rest => exact mem_cons

theorem grid_mem_documentItems {document : ReportDocument} :
    .grid table ∈ documentItems document ↔ ∃ s ∈ document.sections, s.table = some table := by
  have hplain : ∀ {α : Type} (l : List α) (f : α → List Item),
      Part.grid table ∉ l.map (fun a => .plain (f a)) := by
    intro α l f h
    rcases mem_map.mp h with ⟨_, -, heq⟩
    cases heq
  have hsection : ∀ s : Section, .grid table ∈ sectionItems s ↔ s.table = some table := by
    intro s
    have hbullets : Part.grid table ∉ (if s.bullets = [] then []
        else [.plain (s.bullets.map (fun bullet => ⟨.bullet, bulletLine bullet⟩))]) := by
      split
      · exact not_mem_nil
      · exact fun h => by cases mem_singleton.mp h
    rw [sectionItems]
    cases s.table with
    | none =>
      simp [hplain, hbullets]
    | some table' =>
      simp [hplain, hbullets, Part.grid.injEq, eq_comm]
  rw [documentItems]
  cases document.shownSubtitle with
  | none =>
    simp [hsection]
  | some subtitle =>
    simp [hsection]

/-- Each line of the output is read as its item says iff each part is read as it was meant. -/
theorem markdownKept_iff (document : ReportDocument) :
    MarkdownKept document ↔ ∀ part ∈ settleParts (documentItems document), part.Kept := by
  have htables : (∀ s ∈ document.sections, ∀ table ∈ s.table, ∀ row ∈ table.headers :: table.rows,
      (lines (tableLine row)).length = 1) ↔
      ∀ table, .grid table ∈ settleParts (documentItems document) →
        ∀ row ∈ table.headers :: table.rows, (lines (tableLine row)).length = 1 := by
    constructor
    · intro h table htable
      rcases grid_mem_documentItems.mp (grid_mem_settleParts.mp htable) with ⟨s, hs, hsome⟩
      exact h s hs table hsome
    · intro h s hs table htable
      exact h table (grid_mem_settleParts.mpr (grid_mem_documentItems.mpr ⟨s, hs, htable⟩))
  rw [MarkdownKept, kinds_eq_iff, htables]
  constructor
  · rintro ⟨hkinds, hone⟩ part hpart
    cases part with
    | plain items => exact hkinds _ hpart
    | grid table => exact (table_kept_iff table).mp ⟨hkinds _ hpart, hone table hpart⟩
  · intro h
    refine ⟨fun part hpart => ?_, fun table htable => ((table_kept_iff table).mpr (h _ htable)).2⟩
    cases part with
    | plain items => exact h _ hpart
    | grid table => exact ((table_kept_iff table).mpr (h _ hpart)).1

/-- The HTML is read as the elements that the shape of the document determines, with the texts as
    they are, and the lines of the Markdown as the items that they are written for. -/
def PreservesStructure (document : ReportDocument) : Prop :=
  Html.parse (renderHtml document) = some [documentTree id id document] ∧ MarkdownKept document

/-- A report with a pipe in a cell. -/
def pipeReport : ReportDocument :=
  ⟨"Report".toList, none, [⟨"Routes".toList, 2, [], [], [],
    some ⟨["Path".toList], [["a|b".toList]], by decide⟩⟩]⟩

end Documents

end Reports

end Partha
