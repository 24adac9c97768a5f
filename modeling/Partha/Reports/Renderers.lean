import Partha.Canonical.Paths
import Partha.Library.Html
import Partha.Library.Markdown

/-!
# Report Renderers

`render_markdown` and `render_html`, of a document of any texts.

A table is rectangular, as the builders of reports make them. `str.rstrip` removes the characters
for which `str.isspace` is true.

## Main definitions

* `ReportDocument`, `Section`, `Table`: The document.
* `renderMarkdown`, `renderHtml`: The renderers.
-/

namespace Partha

namespace Reports

open Canonical (Str joinWith)
open Html (escape)

section Documents

/-- `Table`, with as many cells in each row as there are headers. -/
structure Table where
  headers : List Str
  rows : List (List Str)
  rectangular : ∀ row ∈ rows, row.length = headers.length

/-- `Section`. -/
structure Section where
  heading : Str
  level : Int
  fields : List (Str × Str)
  paragraphs : List Str
  bullets : List Str
  table : Option Table

/-- `ReportDocument`. -/
structure ReportDocument where
  title : Str
  subtitle : Option Str
  sections : List Section

/-- The subtitle that is shown, which is not empty. -/
def ReportDocument.shownSubtitle (document : ReportDocument) : Option Str :=
  document.subtitle.filter (fun s => !s.isEmpty)

end Documents

section RenderMarkdown

/-- `str.isspace` of a character. -/
def isSpace (c : Char) : Bool :=
  (9 ≤ c.toNat && c.toNat ≤ 13) || (28 ≤ c.toNat && c.toNat ≤ 32) || c.toNat = 0x85 ||
    c.toNat = 0xa0 || c.toNat = 0x1680 || (0x2000 ≤ c.toNat && c.toNat ≤ 0x200a) ||
    c.toNat = 0x2028 || c.toNat = 0x2029 || c.toNat = 0x202f || c.toNat = 0x205f ||
    c.toNat = 0x3000

/-- `str.rstrip`. -/
def rstrip (s : Str) : Str :=
  s.rdropWhile isSpace

/-- A row of a table. -/
def tableLine (cells : List Str) : Str :=
  "| ".toList ++ List.intercalate " | ".toList cells ++ " |".toList

def tableLines (table : Table) : List Str :=
  [tableLine table.headers, tableLine (table.headers.map (fun _ => "---".toList))] ++
    table.rows.map tableLine ++ [[]]

def headingLine (level : Int) (heading : Str) : Str :=
  List.replicate level.toNat '#' ++ ' ' :: heading

def fieldLine (field : Str × Str) : Str :=
  "**".toList ++ field.1 ++ ":** ".toList ++ field.2

def bulletLine (bullet : Str) : Str :=
  "- ".toList ++ bullet

def titleLine (title : Str) : Str :=
  "# ".toList ++ title

def subtitleLine (subtitle : Str) : Str :=
  '_' :: subtitle ++ ['_']

def sectionLines (s : Section) : List Str :=
  [headingLine s.level s.heading, []] ++
    s.fields.flatMap (fun field => [fieldLine field, []]) ++
    s.paragraphs.flatMap (fun paragraph => [paragraph, []]) ++
    (match s.table with
      | some table => tableLines table
      | none => []) ++
    s.bullets.map bulletLine ++ (if s.bullets = [] then [] else [[]])

/-- The `lines` of `render_markdown`. -/
def markdownLines (document : ReportDocument) : List Str :=
  [titleLine document.title, []] ++
    (match document.shownSubtitle with
      | some subtitle => [subtitleLine subtitle, []]
      | none => []) ++
    document.sections.flatMap sectionLines

/-- `render_markdown`. -/
def renderMarkdown (document : ReportDocument) : Str :=
  rstrip (joinWith '\n' (markdownLines document)) ++ ['\n']

end RenderMarkdown

section RenderHtml

/-- `_HTML_STYLES`. -/
def htmlStyles : Str :=
  joinWith '\n' (["",
    "body \x7b font-family: Helvetica, Arial, sans-serif; color: #1a1a1a; font-size: 11px; \x7d",
    "h1 \x7b font-size: 20px; margin-bottom: 2px; \x7d",
    "h2 \x7b font-size: 15px; margin-top: 18px; border-bottom: 1px solid #ccc; padding-bottom: 3px; \x7d",
    "h3 \x7b font-size: 12px; margin-top: 12px; \x7d",
    "p \x7b margin: 4px 0; \x7d",
    ".subtitle \x7b color: #666; font-size: 10px; \x7d",
    "table \x7b border-collapse: collapse; width: 100%; margin: 6px 0; \x7d",
    "th, td \x7b border: 1px solid #ccc; padding: 4px 6px; text-align: left; font-size: 10px; \x7d",
    "th \x7b background-color: #f2f2f2; \x7d",
    "ul \x7b margin: 4px 0; \x7d",
    "li \x7b margin: 2px 0; \x7d",
    ""].map String.toList)

/-- `<tag>content</tag>`. -/
def tagged (tag : String) (content : Str) : Str :=
  "<".toList ++ tag.toList ++ ">".toList ++ content ++ "</".toList ++ tag.toList ++ ">".toList

/-- The level of a heading, between two and six. -/
def headingLevel (level : Int) : Nat :=
  (min (max level 2) 6).toNat

/-- `h2` to `h6`. -/
def headingTag (level : Int) : String :=
  match headingLevel level with
  | 2 => "h2"
  | 3 => "h3"
  | 4 => "h4"
  | 5 => "h5"
  | _ => "h6"

def tableHtml (table : Table) : Str :=
  tagged "table" (tagged "thead" (tagged "tr"
      (table.headers.flatMap (fun header => tagged "th" (escape header)))) ++
    tagged "tbody" (table.rows.flatMap (fun row =>
      tagged "tr" (row.flatMap (fun cell => tagged "td" (escape cell))))))

/-- The `parts` of `_render_section_html`. -/
def sectionParts (s : Section) : List Str :=
  [tagged (headingTag s.level) (escape s.heading)] ++
    s.fields.map (fun field => tagged "p" (tagged "strong" (escape field.1 ++ ":".toList) ++
      " ".toList ++ escape field.2)) ++
    s.paragraphs.map (fun paragraph => tagged "p" (escape paragraph)) ++
    (match s.table with
      | some table => [tableHtml table]
      | none => []) ++
    (if s.bullets = [] then []
      else [tagged "ul" (s.bullets.flatMap (fun bullet => tagged "li" (escape bullet)))])

/-- `_render_section_html`. -/
def renderSectionHtml (s : Section) : Str :=
  joinWith '\n' (sectionParts s)

/-- The subtitle among the `parts`, if there is one. -/
def subtitleParts (document : ReportDocument) : List Str :=
  match document.shownSubtitle with
  | some subtitle => ["<p class=\"subtitle\">".toList ++ escape subtitle ++ "</p>".toList]
  | none => []

/-- `render_html`. -/
def renderHtml (document : ReportDocument) : Str :=
  joinWith '\n'
    (["<!DOCTYPE html>".toList, "<html><head><meta charset=\"utf-8\">".toList,
        tagged "title" (escape document.title), tagged "style" htmlStyles,
        "</head><body>".toList, tagged "h1" (escape document.title)] ++
      subtitleParts document ++ document.sections.map renderSectionHtml ++
      ["</body></html>".toList])

end RenderHtml

end Reports

end Partha
