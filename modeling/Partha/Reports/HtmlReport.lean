import Mathlib.Tactic.FinCases
import Partha.Library.Checked
import Partha.Reports.Renderers

/-!
# The HTML of a Report

What `render_html` writes is read as the elements that the shape of the document determines.

Every text is escaped, so that it is read as the text it is, but for two characters that HTML
does not keep: a carriage return is read as a line break, and a null is dropped, or replaced in
the title.

## Main definitions

* `documentTree`: The elements of a document, with a function of its texts.
* `htmlTexts`: The texts of a document.
* `Reads`: A text that is read as nodes.

## Theorems

* `parse_renderHtml`: What is read.
* `parse_renderHtml_iff`: The texts are read as they are iff they have none of the two characters.
-/

namespace Partha

namespace Reports

open Canonical (Str joinWith)
open Html List

section Trees

/-- An element without attributes. -/
def node (tag : String) (children : List Tree) : Tree :=
  .element tag.toList [] children

def lineBreak : Tree :=
  .text ['\n']

/-- Nodes with a line break before each. -/
def afterBreaks (nodes : List Tree) : List Tree :=
  nodes.flatMap (fun n => [lineBreak, n])

variable (text : Str → Str)

def fieldNode (field : Str × Str) : Tree :=
  node "p" (node "strong" (textNode (text (field.1 ++ ":".toList))) ::
    textNode (text (' ' :: field.2)))

def tableNode (table : Table) : Tree :=
  node "table"
    [node "thead"
        [node "tr" (table.headers.map (fun header => node "th" (textNode (text header))))],
      node "tbody" (table.rows.map (fun row =>
        node "tr" (row.map (fun cell => node "td" (textNode (text cell))))))]

def sectionNodes (s : Section) : List Tree :=
  [node (headingTag s.level) (textNode (text s.heading))] ++ s.fields.map (fieldNode text) ++
    s.paragraphs.map (fun paragraph => node "p" (textNode (text paragraph))) ++
    (match s.table with
      | some table => [tableNode text table]
      | none => []) ++
    (if s.bullets = [] then []
      else [node "ul" (s.bullets.map (fun bullet => node "li" (textNode (text bullet))))])

/-- What the body has, without line breaks. -/
def bodyNodes (document : ReportDocument) : List Tree :=
  [node "h1" (textNode (text document.title))] ++
    (match document.shownSubtitle with
      | some subtitle => [.element "p".toList [("class".toList, "subtitle".toList)]
          (textNode (text subtitle))]
      | none => []) ++
    document.sections.flatMap (sectionNodes text)

/-- The elements of a document, with what becomes of the title in the head and of the texts in
    the body. -/
def documentTree (title : Str → Str) (document : ReportDocument) : Tree :=
  node "html"
    [node "head"
      [.element "meta".toList [("charset".toList, "utf-8".toList)] [], lineBreak,
        node "title" (textNode (title document.title)), lineBreak,
        node "style" [.text htmlStyles], lineBreak],
      node "body" (afterBreaks (bodyNodes text document) ++ [lineBreak])]

end Trees

section Reading

/-- A text that is read as nodes, up to a carriage return at its end. -/
def ReadsTo (s : Str) (nodes : List Tree) : Prop :=
  ∃ tokens r, run start s = (⟨r, .content .data⟩, tokens) ∧ Builds tokens nodes

/-- A text that is read as nodes. -/
def Reads (s : Str) (nodes : List Tree) : Prop :=
  ∃ tokens, Emits s tokens ∧ Builds tokens nodes

variable {s s' : Str} {nodes n n' : List Tree} {tag : String}

theorem Reads.readsTo (h : Reads s nodes) : ReadsTo s nodes := by
  rcases h with ⟨tokens, hemits, hbuilds⟩
  exact ⟨tokens, false, hemits, hbuilds⟩

theorem reads_nil : Reads [] [] :=
  ⟨[], rfl, builds_nil⟩

/-- Nodes that begin with an element may follow any. -/
theorem follow_element (nodes : List Tree) (tag : Str) (attributes : List (Str × Str))
    (children rest : List Tree) : Follow nodes (.element tag attributes children :: rest) :=
  fun h => by cases h

/-- Anything may follow an element. -/
theorem follow_after (nodes : List Tree) (tag : Str) (attributes : List (Str × Str))
    (children rest : List Tree) : Follow (nodes ++ [.element tag attributes children]) rest := by
  intro _
  rw [List.getLast?_concat]
  exact fun h => by cases h

theorem Reads.append (h : Reads s n) (h' : ReadsTo s' n') (hfollow : n ≠ [] → Follow n n') :
    ReadsTo (s ++ s') (n ++ n') := by
  rcases h with ⟨t, hemits, hbuilds⟩
  rcases h' with ⟨t', r, hrun, hbuilds'⟩
  refine ⟨t ++ t', r, ?_, builds_append hbuilds hbuilds' hfollow⟩
  have hfirst : run start s = (start, t) := hemits
  rw [run_append, hfirst, hrun]

theorem reads_append (h : Reads s n) (h' : Reads s' n') (hfollow : n ≠ [] → Follow n n') :
    Reads (s ++ s') (n ++ n') := by
  rcases h with ⟨t, hemits, hbuilds⟩
  rcases h' with ⟨t', hemits', hbuilds'⟩
  exact ⟨t ++ t', hemits.append hemits', builds_append hbuilds hbuilds' hfollow⟩

/-- Text that was escaped. -/
theorem readsTo_escape (s : Str) : ReadsTo (escape s) (textNode (clean .data false s)) := by
  rcases @run_escape .data rfl false s with ⟨r, hrun⟩
  exact ⟨_, r, hrun, builds_chars _⟩

/-- The tags of the report. -/
def reportTags : List String :=
  ["h1", "h2", "h3", "h4", "h5", "h6", "p", "strong", "table", "thead", "tbody", "tr", "th", "td",
    "ul", "li"]

theorem tagged_eq (tag : String) (content : Str) :
    tagged tag content = openTag tag.toList ++ content ++ closeTag tag.toList := by
  simp [tagged, openTag, closeTag]

theorem plainName_reportTags : ∀ tag ∈ reportTags,
    PlainName tag.toList ∧ contentMode tag.toList = .data ∧ isVoid tag.toList = false := by
  intro tag htag
  unfold reportTags at htag
  fin_cases htag <;> decide

/-- An element. -/
theorem reads_tagged (htag : tag ∈ reportTags) {content : Str} (h : ReadsTo content nodes) :
    Reads (tagged tag content) [node tag nodes] := by
  rcases plainName_reportTags tag htag with ⟨hname, hmode, hvoid⟩
  rcases h with ⟨tokens, r, hrun, hbuilds⟩
  refine ⟨_, ?_, builds_element [] hvoid hbuilds⟩
  rw [tagged_eq]
  exact emits_element hname hmode hrun

/-- Elements, one after the other. -/
theorem reads_flatMap {α : Type} {write : α → Str} {children : α → List Tree} (items : List α)
    (h : ∀ a, Reads (write a) [node tag (children a)]) :
    Reads (items.flatMap write) (items.map (fun a => node tag (children a))) := by
  induction items with
  | nil => exact reads_nil
  | cons a items ih =>
    rw [flatMap_cons, map_cons, ← singleton_append]
    exact reads_append (h a) ih (fun _ => follow_after [] _ _ _ _)

theorem reads_lineBreak : Reads ['\n'] [lineBreak] :=
  ⟨[.char '\n'], rfl, builds_chars ['\n']⟩

/-- Elements, each after a line break. -/
theorem reads_afterBreaks {parts : List Str}
    (h : List.Forall₂ (fun s n => Reads s [n] ∧ n.isText = false) parts nodes) :
    Reads (parts.flatMap (fun s => '\n' :: s)) (afterBreaks nodes) := by
  induction h with
  | nil => exact reads_nil
  | @cons s n parts nodes hfirst _ ih =>
    rcases hfirst with ⟨hreads, helement⟩
    cases n with
    | text t => cases helement
    | element tag attributes children =>
      have hpart : Reads ('\n' :: s) ([lineBreak] ++ [.element tag attributes children]) :=
        reads_append reads_lineBreak hreads (fun _ => follow_element _ _ _ _ _)
      rw [flatMap_cons, afterBreaks, flatMap_cons]
      exact reads_append hpart ih (fun _ => follow_after [lineBreak] _ _ _ _)

theorem afterBreaks_concat (nodes : List Tree) (n : Tree) :
    afterBreaks (nodes ++ [n]) = afterBreaks nodes ++ [lineBreak] ++ [n] := by
  rw [afterBreaks, flatMap_append, flatMap_singleton, append_assoc]
  rfl

/-- Anything may follow elements. -/
theorem follow_afterBreaks (h : ∀ n ∈ nodes, n.isText = false) (rest : List Tree) :
    Follow (afterBreaks nodes) rest := by
  rcases eq_nil_or_concat nodes with rfl | ⟨init, n, rfl⟩
  · exact fun _ heq => by cases heq
  · rw [concat_eq_append, afterBreaks_concat]
    have hn := h n (by rw [concat_eq_append]; exact mem_concat_self)
    cases n with
    | text t => cases hn
    | element tag attributes children => exact follow_after _ _ _ _ _

end Reading

section Parts

/-- The texts of the body as they are read. -/
def cleaned (s : Str) : Str :=
  clean .data false s

theorem escape_append (s t : Str) : escape (s ++ t) = escape s ++ escape t :=
  flatMap_append

variable {tag : String}

theorem reads_text (htag : tag ∈ reportTags) (s : Str) :
    Reads (tagged tag (escape s)) [node tag (textNode (cleaned s))] :=
  reads_tagged htag (readsTo_escape s)

theorem reads_field (field : Str × Str) :
    Reads (tagged "p" (tagged "strong" (escape field.1 ++ ":".toList) ++ " ".toList ++
      escape field.2)) [fieldNode cleaned field] := by
  have hlabel : escape field.1 ++ ":".toList = escape (field.1 ++ ":".toList) :=
    (escape_append field.1 ":".toList).symm
  have hvalue : " ".toList ++ escape field.2 = escape (' ' :: field.2) := rfl
  rw [append_assoc, hlabel, hvalue]
  refine reads_tagged (by decide) ?_
  exact (reads_text (by decide) _).append (readsTo_escape _) (fun _ => follow_after [] _ _ _ _)

theorem reads_cells (htag : tag ∈ reportTags) (cells : List Str) :
    ReadsTo (cells.flatMap (fun cell => tagged tag (escape cell)))
      (cells.map (fun cell => node tag (textNode (cleaned cell)))) :=
  (reads_flatMap cells (reads_text htag)).readsTo

theorem reads_table (table : Table) : Reads (tableHtml table) [tableNode cleaned table] := by
  have hhead : Reads (tagged "thead" (tagged "tr"
      (table.headers.flatMap (fun header => tagged "th" (escape header)))))
      [node "thead" [node "tr"
        (table.headers.map (fun header => node "th" (textNode (cleaned header))))]] :=
    reads_tagged (by decide) (reads_tagged (by decide) (reads_cells (by decide) _)).readsTo
  have hbody : Reads (tagged "tbody" (table.rows.flatMap (fun row =>
      tagged "tr" (row.flatMap (fun cell => tagged "td" (escape cell))))))
      [node "tbody" (table.rows.map (fun row =>
        node "tr" (row.map (fun cell => node "td" (textNode (cleaned cell))))))] :=
    reads_tagged (by decide) (reads_flatMap table.rows
      (fun row => reads_tagged (by decide) (reads_cells (by decide) row))).readsTo
  exact reads_tagged (by decide)
    (reads_append hhead hbody (fun _ => follow_after [] _ _ _ _)).readsTo

theorem headingTag_mem (level : Int) : headingTag level ∈ reportTags := by
  unfold headingTag
  split <;> decide

/-- The parts of a section are its elements. -/
theorem reads_section (s : Section) :
    List.Forall₂ (fun part n => Reads part [n] ∧ n.isText = false) (sectionParts s)
      (sectionNodes cleaned s) := by
  refine rel_append (rel_append (rel_append (rel_append ?_ ?_) ?_) ?_) ?_
  · exact .cons ⟨reads_text (headingTag_mem _) _, rfl⟩ .nil
  · exact List.forall₂_map_left_iff.mpr (List.forall₂_map_right_iff.mpr
      (List.forall₂_same.mpr (fun field _ => ⟨reads_field field, rfl⟩)))
  · exact List.forall₂_map_left_iff.mpr (List.forall₂_map_right_iff.mpr
      (List.forall₂_same.mpr (fun _ _ => ⟨reads_text (by decide) _, rfl⟩)))
  · cases s.table with
    | none => exact .nil
    | some table => exact .cons ⟨reads_table table, rfl⟩ .nil
  · split
    · exact .nil
    · exact .cons ⟨reads_tagged (by decide) (reads_cells (by decide) _), rfl⟩ .nil

/-- The parts of the body. -/
def bodyParts (document : ReportDocument) : List Str :=
  [tagged "h1" (escape document.title)] ++ subtitleParts document ++
    document.sections.flatMap sectionParts

theorem reads_subtitle (subtitle : Str) :
    Reads ("<p class=\"subtitle\">".toList ++ escape subtitle ++ "</p>".toList)
      [.element "p".toList [("class".toList, "subtitle".toList)]
        (textNode (cleaned subtitle))] := by
  rcases readsTo_escape subtitle with ⟨tokens, r, hrun, hbuilds⟩
  have hopen : run start "<p class=\"subtitle\">".toList =
      (start, [.tag ⟨false, "p".toList, [("class".toList, "subtitle".toList)]⟩]) := rfl
  have hclose : run ⟨r, .content .data⟩ "</p>".toList =
      (start, [.tag ⟨true, "p".toList, []⟩]) := by
    cases r <;> rfl
  refine ⟨_, ?_, builds_element [("class".toList, "subtitle".toList)] rfl hbuilds⟩
  unfold Emits
  rw [run_append, run_append, hopen]
  dsimp only
  rw [hrun]
  dsimp only
  rw [hclose]
  rfl

theorem reads_body (document : ReportDocument) :
    List.Forall₂ (fun part n => Reads part [n] ∧ n.isText = false) (bodyParts document)
      (bodyNodes cleaned document) := by
  refine rel_append (rel_append ?_ ?_) ?_
  · exact .cons ⟨reads_text (by decide) _, rfl⟩ .nil
  · unfold subtitleParts
    cases document.shownSubtitle with
    | none => exact .nil
    | some subtitle => exact .cons ⟨reads_subtitle subtitle, rfl⟩ .nil
  · exact rel_flatMap (List.forall₂_same.mpr (fun s _ => rfl))
      (fun s s' h => h ▸ reads_section s)

end Parts

section Whole

theorem joinWith_cons (c : Char) (first : Str) (rest : List Str) :
    joinWith c (first :: rest) = first ++ rest.flatMap (fun s => c :: s) := by
  induction rest generalizing first with
  | nil => simp [joinWith]
  | cons second rest ih => rw [joinWith, ih, flatMap_cons, cons_append]

theorem sectionParts_cons (s : Section) : ∃ first rest, sectionParts s = first :: rest :=
  ⟨_, _, rfl⟩

/-- A section after a line break is its parts, each after a line break. -/
theorem renderSectionHtml_eq (s : Section) :
    '\n' :: renderSectionHtml s = (sectionParts s).flatMap (fun part => '\n' :: part) := by
  rcases sectionParts_cons s with ⟨first, rest, hparts⟩
  rw [renderSectionHtml, hparts, joinWith_cons, flatMap_cons, cons_append]

/-- What comes before the title in the head. -/
def opening : Str :=
  "<!DOCTYPE html>\n<html><head><meta charset=\"utf-8\">\n<title>".toList

def afterTitle : Str :=
  "</title>\n<style>".toList

def afterStyles : Str :=
  "</style>\n</head><body>".toList

def closing : Str :=
  "</body></html>".toList

theorem renderHtml_eq (document : ReportDocument) :
    renderHtml document = opening ++ (escape document.title ++ (afterTitle ++ (htmlStyles ++
      (afterStyles ++ (((bodyParts document).flatMap (fun part => '\n' :: part) ++ ['\n']) ++
        closing))))) := by
  have hsections : (document.sections.map renderSectionHtml).flatMap (fun part => '\n' :: part) =
      (document.sections.flatMap sectionParts).flatMap (fun part => '\n' :: part) := by
    rw [flatMap_map, flatMap_assoc]
    exact flatMap_congr (fun s _ => renderSectionHtml_eq s)
  have hparts : (bodyParts document).flatMap (fun part => '\n' :: part) =
      ('\n' :: tagged "h1" (escape document.title)) ++
        ((subtitleParts document).flatMap (fun part => '\n' :: part) ++
        (document.sections.map renderSectionHtml).flatMap (fun part => '\n' :: part)) := by
    rw [hsections, bodyParts, flatMap_append, flatMap_append, append_assoc,
      flatMap_singleton]
  have hopening : opening = "<!DOCTYPE html>".toList ++
      '\n' :: ("<html><head><meta charset=\"utf-8\">".toList ++
        '\n' :: ("<".toList ++ ("title".toList ++ ">".toList))) := by decide
  have hafterTitle : afterTitle = "</".toList ++ ("title".toList ++ (">".toList ++
      '\n' :: ("<".toList ++ ("style".toList ++ ">".toList)))) := by decide
  have hafterStyles : afterStyles = "</".toList ++ ("style".toList ++ (">".toList ++
      '\n' :: "</head><body>".toList)) := by decide
  have htitle : tagged "title" (escape document.title) = "<".toList ++ ("title".toList ++
      (">".toList ++ (escape document.title ++ ("</".toList ++ ("title".toList ++
        ">".toList))))) := by
    simp [tagged]
  have hstyle : ∀ text, tagged "style" text = "<".toList ++ ("style".toList ++
      (">".toList ++ (text ++ ("</".toList ++ ("style".toList ++ ">".toList))))) := by
    simp [tagged]
  rw [hparts, renderHtml, cons_append, cons_append, cons_append, joinWith_cons,
    htitle, hstyle, hopening, hafterTitle, hafterStyles]
  have hclosing : "</body></html>".toList = closing := rfl
  generalize "</body></html>".toList = written at hclosing ⊢
  subst hclosing
  generalize tagged "h1" (escape document.title) = h1
  generalize htmlStyles = styles
  simp

variable {p : Char → Bool}

/-- A property of the characters of a constant. -/
theorem all_toList {s : Str} (h : ∃ l, s = l ∧ l.all p = true) : s.all p = true := by
  rcases h with ⟨l, rfl, hall⟩
  exact hall

/-- A character that is neither `<` nor a character that HTML does not keep. -/
def isPlainChar (c : Char) : Bool :=
  c != '<' && c != '\r' && c != '\x00'

theorem all_joinWith {c : Char} (hc : p c = true) {parts : List Str}
    (h : ∀ s ∈ parts, s.all p = true) : (joinWith c parts).all p = true := by
  cases parts with
  | nil => rfl
  | cons first rest =>
    rw [joinWith_cons, all_append, h first mem_cons_self, Bool.true_and,
      all_eq_true]
    intro d hd
    rcases mem_flatMap.mp hd with ⟨s, hs, hmem⟩
    rcases mem_cons.mp hmem with rfl | hmem
    · exact hc
    · exact all_eq_true.mp (h s (mem_cons_of_mem _ hs)) d hmem

theorem styles_free : '<' ∉ htmlStyles ∧ ∀ c ∈ htmlStyles, c ≠ '\r' ∧ c ≠ '\x00' := by
  have hall : htmlStyles.all isPlainChar = true := by
    refine all_joinWith rfl ?_
    simp only [map_cons, map_nil, forall_mem_cons, not_mem_nil,
      false_implies, implies_true, and_true]
    refine ⟨?_, ?_, ?_, ?_, ?_, ?_, ?_, ?_, ?_, ?_, ?_, ?_, ?_⟩ <;>
      exact all_toList ⟨_, String.toList_ofList, by decide⟩
  rw [all_eq_true] at hall
  constructor
  · intro hmem
    cases hall _ hmem
  · intro c hc
    have hcond := hall c hc
    simp only [isPlainChar, Bool.and_eq_true, bne_iff_ne, ne_eq] at hcond
    exact ⟨hcond.1.2, hcond.2⟩

/-- The title in the head, as it is read. -/
def cleanedTitle (s : Str) : Str :=
  clean (.rcdata "title".toList) false s

/-- What the machine reads. -/
theorem run_renderHtml (document : ReportDocument) :
    ∃ body, Builds body (afterBreaks (bodyNodes cleaned document) ++ [lineBreak]) ∧
      (run start (renderHtml document)).2 =
        [Token.doctype "DOCTYPE html".toList, .char '\n', .tag ⟨false, "html".toList, []⟩,
          .tag ⟨false, "head".toList, []⟩,
          .tag ⟨false, "meta".toList, [("charset".toList, "utf-8".toList)]⟩, .char '\n',
          .tag ⟨false, "title".toList, []⟩] ++ (chars (cleanedTitle document.title) ++
        ([Token.tag ⟨true, "title".toList, []⟩, .char '\n', .tag ⟨false, "style".toList, []⟩] ++
        (chars htmlStyles ++
        ([Token.tag ⟨true, "style".toList, []⟩, .char '\n', .tag ⟨true, "head".toList, []⟩,
          .tag ⟨false, "body".toList, []⟩] ++ (body ++
        [Token.tag ⟨true, "body".toList, []⟩, .tag ⟨true, "html".toList, []⟩]))))) := by
  have helements : ∀ n ∈ bodyNodes cleaned document, n.isText = false := by
    intro n hn
    rcases Checked.forall₂_mem_right (reads_body document) hn with ⟨part, -, -, helement⟩
    exact helement
  rcases reads_append (reads_afterBreaks (reads_body document)) reads_lineBreak
    (fun _ => follow_afterBreaks helements _) with ⟨body, hbody, hbuilds⟩
  refine ⟨body, hbuilds, ?_⟩
  rcases @run_escape (.rcdata "title".toList) rfl false document.title with ⟨r, htitle⟩
  have hraw : (Mode.rawtext "style".toList).hasReferences = false := rfl
  rcases run_rawtext hraw false styles_free.1 with ⟨r', hstyles⟩
  rw [clean_eq_self_iff.mpr styles_free.2] at hstyles
  have hopening : run start opening = (⟨false, .content (.rcdata "title".toList)⟩,
      [.doctype "DOCTYPE html".toList, .char '\n', .tag ⟨false, "html".toList, []⟩,
        .tag ⟨false, "head".toList, []⟩,
        .tag ⟨false, "meta".toList, [("charset".toList, "utf-8".toList)]⟩, .char '\n',
        .tag ⟨false, "title".toList, []⟩]) := by decide
  have hafterTitle : ∀ r, run ⟨r, .content (.rcdata "title".toList)⟩ afterTitle =
      (⟨false, .content (.rawtext "style".toList)⟩,
        [.tag ⟨true, "title".toList, []⟩, .char '\n', .tag ⟨false, "style".toList, []⟩]) := by
    decide
  have hafterStyles : ∀ r, run ⟨r, .content (.rawtext "style".toList)⟩ afterStyles =
      (start, [.tag ⟨true, "style".toList, []⟩, .char '\n', .tag ⟨true, "head".toList, []⟩,
        .tag ⟨false, "body".toList, []⟩]) := by
    decide
  have hclosing : run start closing =
      (start, [.tag ⟨true, "body".toList, []⟩, .tag ⟨true, "html".toList, []⟩]) := by
    decide
  have hemits : run start ((bodyParts document).flatMap (fun part => '\n' :: part) ++ ['\n']) =
      (start, body) := hbody
  simp only [renderHtml_eq, run_append, hopening, htitle, hafterTitle, hstyles, hafterStyles,
    hemits, hclosing]
  rfl

end Whole

section Parsing

theorem foldlM_append_of {frames frames' : List Frame} {t t' : List Token}
    (h : t.foldlM build frames = some frames') :
    (t ++ t').foldlM build frames = t'.foldlM build frames' := by
  rw [foldlM_append, h, Option.bind_eq_bind, Option.bind_some]

theorem follow_nil (nodes : List Tree) : Follow [] nodes :=
  fun _ h => by cases h

/-- What is read from a report. -/
theorem parse_renderHtml (document : ReportDocument) :
    parse (renderHtml document) = some [documentTree cleaned cleanedTitle document] := by
  rcases run_renderHtml document with ⟨body, hbuilds, hrun⟩
  have hopening : [.doctype "DOCTYPE html".toList, .char '\n', .tag ⟨false, "html".toList, []⟩,
      .tag ⟨false, "head".toList, []⟩,
      .tag ⟨false, "meta".toList, [("charset".toList, "utf-8".toList)]⟩, .char '\n',
      .tag ⟨false, "title".toList, []⟩].foldlM build [⟨[], [], []⟩] =
      some [⟨"title".toList, [], []⟩, ⟨"head".toList, [],
        [.element "meta".toList [("charset".toList, "utf-8".toList)] [], lineBreak]⟩,
        ⟨"html".toList, [], []⟩, ⟨[], [], []⟩] := rfl
  have hafterTitle : ∀ title, [.tag ⟨true, "title".toList, []⟩, .char '\n',
      .tag ⟨false, "style".toList, []⟩].foldlM build [⟨"title".toList, [], title⟩,
        ⟨"head".toList, [],
          [.element "meta".toList [("charset".toList, "utf-8".toList)] [], lineBreak]⟩,
        ⟨"html".toList, [], []⟩, ⟨[], [], []⟩] =
      some [⟨"style".toList, [], []⟩, ⟨"head".toList, [],
        [.element "meta".toList [("charset".toList, "utf-8".toList)] [], lineBreak,
          node "title" title, lineBreak]⟩,
        ⟨"html".toList, [], []⟩, ⟨[], [], []⟩] := fun _ => rfl
  have hafterStyles : ∀ title styles, [.tag ⟨true, "style".toList, []⟩, .char '\n',
      .tag ⟨true, "head".toList, []⟩, .tag ⟨false, "body".toList, []⟩].foldlM build
        [⟨"style".toList, [], styles⟩, ⟨"head".toList, [],
          [.element "meta".toList [("charset".toList, "utf-8".toList)] [], lineBreak,
            node "title" title, lineBreak]⟩,
          ⟨"html".toList, [], []⟩, ⟨[], [], []⟩] =
      some [⟨"body".toList, [], []⟩, ⟨"html".toList, [], [node "head"
        [.element "meta".toList [("charset".toList, "utf-8".toList)] [], lineBreak,
          node "title" title, lineBreak, node "style" styles, lineBreak]]⟩, ⟨[], [], []⟩] :=
    fun _ _ => rfl
  have hclosing : ∀ head nodes, [.tag ⟨true, "body".toList, []⟩,
      .tag ⟨true, "html".toList, []⟩].foldlM build
        [⟨"body".toList, [], nodes⟩, ⟨"html".toList, [], [head]⟩, ⟨[], [], []⟩] =
      some [⟨[], [], [node "html" [head, node "body" nodes]]⟩] := fun _ _ => rfl
  have hstyles : textNode htmlStyles = [.text htmlStyles] := if_neg (fun h => by cases h)
  rw [parse, ← start, hrun, foldlM_append_of hopening,
    foldlM_append_of (builds_chars _ _ _ _ _ _ (follow_nil _)), nil_append,
    foldlM_append_of (hafterTitle _),
    foldlM_append_of (builds_chars _ _ _ _ _ _ (follow_nil _)), nil_append,
    foldlM_append_of (hafterStyles _ _), foldlM_append_of (hbuilds _ _ _ _ _ (follow_nil _)),
    nil_append, hclosing, hstyles]
  rfl

end Parsing

section Kept

/-- The texts of a section. -/
def sectionTexts (s : Section) : List Str :=
  [s.heading] ++ s.fields.flatMap (fun field => [field.1, field.2]) ++ s.paragraphs ++
    (match s.table with
      | some table => table.headers ++ table.rows.flatten
      | none => []) ++
    s.bullets

/-- The texts of a document. -/
def htmlTexts (document : ReportDocument) : List Str :=
  [document.title] ++ document.shownSubtitle.toList ++ document.sections.flatMap sectionTexts

/-- A text that HTML keeps. -/
def Kept (s : Str) : Prop :=
  ∀ c ∈ s, c ≠ '\r' ∧ c ≠ '\x00'

variable {s : Str} {tag : String} {nodes nodes' : List Tree}

theorem textNode_inj {t : Str} : textNode s = textNode t ↔ s = t := by
  unfold textNode
  split <;> split <;> simp_all [eq_comm]

theorem node_inj : node tag nodes = node tag nodes' ↔ nodes = nodes' := by
  simp [node, Tree.element.injEq]

theorem afterBreaks_inj : afterBreaks nodes = afterBreaks nodes' ↔ nodes = nodes' := by
  refine ⟨fun h => ?_, fun h => by rw [h]⟩
  induction nodes generalizing nodes' with
  | nil =>
    cases nodes' with
    | nil => rfl
    | cons n' nodes' => cases h
  | cons n nodes ih =>
    cases nodes' with
    | nil => cases h
    | cons n' nodes' =>
      rw [afterBreaks, afterBreaks, flatMap_cons, flatMap_cons] at h
      injection h with _ h
      injection h with hn h
      rw [hn, ih h]

theorem flatMap_inj_left {α β : Type} {f g : α → List β} {l : List α}
    (h : ∀ a, (f a).length = (g a).length) : l.flatMap f = l.flatMap g ↔ ∀ a ∈ l, f a = g a := by
  induction l with
  | nil => exact iff_of_true rfl (fun a ha => absurd ha not_mem_nil)
  | cons a l ih =>
    rw [flatMap_cons, flatMap_cons, forall_mem_cons, ← ih]
    exact append_eq_append_iff_of_size_eq_left (h a)

theorem text_kept : node tag (textNode (cleaned s)) = node tag (textNode (id s)) ↔ Kept s := by
  rw [node_inj, textNode_inj]
  exact clean_eq_self_iff

theorem texts_kept {texts : List Str} :
    texts.map (fun s => node tag (textNode (cleaned s))) =
      texts.map (fun s => node tag (textNode (id s))) ↔ ∀ s ∈ texts, Kept s := by
  rw [map_inj_left]
  exact forall₂_congr (fun s _ => text_kept)

theorem field_kept {field : Str × Str} :
    fieldNode cleaned field = fieldNode id field ↔ Kept field.1 ∧ Kept field.2 := by
  have hlabel : Kept (field.1 ++ ":".toList) ↔ Kept field.1 := by
    have hcolon : ":".toList = [':'] := rfl
    unfold Kept
    rw [forall_mem_append, hcolon, forall_mem_singleton]
    exact and_iff_left (by decide)
  have hvalue : Kept (' ' :: field.2) ↔ Kept field.2 := by
    unfold Kept
    rw [forall_mem_cons]
    exact and_iff_right (by decide)
  rw [fieldNode, fieldNode, node_inj, List.cons.injEq, text_kept, hlabel, textNode_inj, id,
    cleaned, clean_eq_self_iff, ← Kept, hvalue]

theorem table_kept {table : Table} :
    tableNode cleaned table = tableNode id table ↔
      ∀ s ∈ table.headers ++ table.rows.flatten, Kept s := by
  have hrow : ∀ row ∈ table.rows, node "tr" (row.map (fun s => node "td" (textNode (cleaned s)))) =
      node "tr" (row.map (fun s => node "td" (textNode (id s)))) ↔ ∀ s ∈ row, Kept s := by
    intro row _
    rw [node_inj, texts_kept]
  have hrows : (∀ s ∈ table.rows.flatten, Kept s) ↔ ∀ row ∈ table.rows, ∀ s ∈ row, Kept s :=
    forall_mem_flatten
  rw [tableNode, tableNode, node_inj, List.cons.injEq, List.cons.injEq, node_inj, node_inj,
    List.cons.injEq, node_inj, texts_kept, map_inj_left, forall_mem_append, hrows,
    forall₂_congr hrow]
  simp

theorem section_kept {s : Section} :
    sectionNodes cleaned s = sectionNodes id s ↔ ∀ t ∈ sectionTexts s, Kept t := by
  have hfields : s.fields.map (fieldNode cleaned) = s.fields.map (fieldNode id) ↔
      ∀ t ∈ s.fields.flatMap (fun field => [field.1, field.2]), Kept t := by
    rw [map_inj_left, forall_mem_flatMap]
    refine forall₂_congr (fun field _ => ?_)
    rw [field_kept, forall_mem_cons, forall_mem_singleton]
  have htable : (match s.table with
      | some table => [tableNode cleaned table]
      | none => []) = (match s.table with
      | some table => [tableNode id table]
      | none => []) ↔ ∀ t ∈ (match s.table with
      | some table => table.headers ++ table.rows.flatten
      | none => []), Kept t := by
    cases s.table with
    | none => exact iff_of_true rfl (fun t ht => absurd ht not_mem_nil)
    | some table =>
      dsimp only
      rw [List.cons.injEq, table_kept]
      exact and_iff_left rfl
  have hbullets : (if s.bullets = [] then []
        else [node "ul" (s.bullets.map (fun t => node "li" (textNode (cleaned t))))]) =
      (if s.bullets = [] then []
        else [node "ul" (s.bullets.map (fun t => node "li" (textNode (id t))))]) ↔
      ∀ t ∈ s.bullets, Kept t := by
    by_cases h : s.bullets = []
    · rw [if_pos h, if_pos h, h]
      exact iff_of_true rfl (fun t ht => absurd ht not_mem_nil)
    · rw [if_neg h, if_neg h, List.cons.injEq, node_inj, texts_kept]
      exact and_iff_left rfl
  -- the parts of a section have the same length either way, so they are compared one by one
  have hlength : ∀ (table : Option Table) (f g : Table → Tree), (match table with
      | some table => [f table]
      | none => []).length = (match table with
      | some table => [g table]
      | none => []).length := by
    intro table f g
    cases table <;> rfl
  unfold sectionNodes sectionTexts
  rw [append_eq_append_iff_of_size_eq_left, append_eq_append_iff_of_size_eq_left,
    append_eq_append_iff_of_size_eq_left, append_eq_append_iff_of_size_eq_left,
    List.cons.injEq, text_kept, hfields, texts_kept, htable, hbullets, forall_mem_append,
    forall_mem_append, forall_mem_append, forall_mem_append,
    forall_mem_singleton]
  · simp
  · rfl
  · simp
  · simp
  · simp [hlength s.table (tableNode cleaned) (tableNode id)]

theorem length_sectionNodes (text text' : Str → Str) (s : Section) :
    (sectionNodes text s).length = (sectionNodes text' s).length := by
  unfold sectionNodes
  cases s.table <;> by_cases h : s.bullets = [] <;>
    simp only [h, if_true, if_false, length_append, length_map, length_cons]

theorem body_kept {document : ReportDocument} :
    bodyNodes cleaned document = bodyNodes id document ↔
      ∀ t ∈ htmlTexts document, Kept t := by
  have hsubtitle : (match document.shownSubtitle with
      | some subtitle => [Tree.element "p".toList [("class".toList, "subtitle".toList)]
          (textNode (cleaned subtitle))]
      | none => []) = (match document.shownSubtitle with
      | some subtitle => [Tree.element "p".toList [("class".toList, "subtitle".toList)]
          (textNode (id subtitle))]
      | none => []) ↔ ∀ t ∈ document.shownSubtitle.toList, Kept t := by
    cases document.shownSubtitle with
    | none => exact iff_of_true rfl (fun t ht => absurd ht not_mem_nil)
    | some subtitle =>
      dsimp only
      rw [List.cons.injEq, Tree.element.injEq, textNode_inj, Option.toList_some,
        forall_mem_singleton, Kept, ← clean_eq_self_iff]
      simp only [true_and, and_true]
      rfl
  unfold bodyNodes htmlTexts
  rw [append_eq_append_iff_of_size_eq_left, append_eq_append_iff_of_size_eq_left,
    flatMap_inj_left (length_sectionNodes cleaned id), List.cons.injEq, text_kept, hsubtitle,
    forall_mem_append, forall_mem_append, forall_mem_singleton,
    forall_mem_flatMap, forall₂_congr (fun s _ => section_kept)]
  · simp
  · rfl
  · cases document.shownSubtitle <;> rfl

/-- The texts are read as they are iff each of them is one that HTML keeps. -/
theorem parse_renderHtml_iff (document : ReportDocument) :
    parse (renderHtml document) = some [documentTree id id document] ↔
      ∀ t ∈ htmlTexts document, Kept t := by
  have htitle : (∀ t ∈ htmlTexts document, Kept t) → cleanedTitle document.title = document.title :=
    fun h => clean_eq_self_iff.mpr (h document.title mem_cons_self)
  have hbody : documentTree cleaned cleanedTitle document = documentTree id id document ↔
      cleanedTitle document.title = document.title ∧ ∀ t ∈ htmlTexts document, Kept t := by
    unfold documentTree
    rw [node_inj, List.cons.injEq, List.cons.injEq, node_inj, node_inj, List.cons.injEq,
      List.cons.injEq, List.cons.injEq, node_inj, textNode_inj,
      append_left_inj, afterBreaks_inj, body_kept, id]
    simp
  rw [parse_renderHtml, Option.some.injEq, List.cons.injEq, hbody]
  exact ⟨fun h => h.1.2, fun h => ⟨⟨htitle h, h⟩, rfl⟩⟩

end Kept

end Reports

end Partha
