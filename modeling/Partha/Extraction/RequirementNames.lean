import Mathlib.Computability.Language
import Partha.Canonical.Projection
import Partha.Extraction.Manifests

/-!
# Names in Requirements

Which package a requirement is of, and by which key.

A requirement is the name of a package and a rest: extras, versions or the address of an archive,
and a marker. The grammar is that of PEP 508, in which a version is a word over its characters,
and what is inside of an address or a marker is not looked into.

The name is cut off at a class of characters. A rest can begin with any of them, but also with
the parenthesis around versions or with the semicolon before a marker, and then the name goes on
into the rest. Otherwise the key of a requirement depends on its name up to the spelling only,
and it is the key of the package in a lockfile.

## Main definitions

* `remainder`: What can follow a name.
* `pep503`: The spelling of a name that all spellings of it have in common.
* `Identifies`: A requirement has its name and its key.

## Theorems

* `starts_remainder`: What a rest begins with.
* `requirement_identified`: A requirement has its name and its key iff the rest begins with
  neither a parenthesis nor a semicolon.
-/

namespace Partha

namespace RequirementNames

open Canonical Extraction Structured Manifests Insights
open Http (Text)
open UrlParse (forall_mem_of_all)
open List

section Grammar

/-- A character of a kind. -/
def oneOf (p : Char → Bool) : Language Char :=
  {s | ∃ c, p c = true ∧ s = [c]}

def token (s : String) : Language Char :=
  {s.toList}

def maybe (l : Language Char) : Language Char :=
  1 + l

def many (l : Language Char) : Language Char :=
  KStar.kstar l

/-- The blanks of a requirement. -/
def isBlank (c : Char) : Bool :=
  c = ' ' || c = '\t'

def wsp : Language Char :=
  many (oneOf isBlank)

def isNameChar (c : Char) : Bool :=
  c.isAlphanum || c = '-' || c = '_' || c = '.'

/-- The name of a package or of an extra. -/
def isName (s : Str) : Bool :=
  s.all isNameChar && s.head?.any Char.isAlphanum && s.getLast?.any Char.isAlphanum

def identifier : Language Char :=
  {s | isName s = true}

def versionCmp : Language Char :=
  wsp * (token "<=" + token "<" + token "!=" + token "==" + token ">=" + token ">" + token "~=" +
    token "===")

def isVersionChar (c : Char) : Bool :=
  isNameChar c || c = '*' || c = '+' || c = '!'

def version : Language Char :=
  wsp * (oneOf isVersionChar * many (oneOf isVersionChar))

def versionOne : Language Char :=
  versionCmp * version * wsp

def versionMany : Language Char :=
  versionOne * many (wsp * token "," * versionOne)

def versionspec : Language Char :=
  token "(" * versionMany * token ")" + versionMany

def extras : Language Char :=
  token "[" * wsp * maybe (identifier * many (wsp * token "," * wsp * identifier)) * wsp *
    token "]"

/-- An address, which has no blanks. -/
def uriReference : Language Char :=
  {s | s ≠ [] ∧ s.all (fun c => !isBlank c) = true}

def urlspec : Language Char :=
  token "@" * wsp * uriReference

/-- What a marker says, which is not looked into. -/
def markerText : Language Char :=
  {s | s ≠ []}

def quotedMarker : Language Char :=
  token ";" * wsp * markerText

/-- What can follow the name in a requirement. -/
def remainder : Language Char :=
  wsp * maybe extras * wsp * maybe versionspec * wsp * maybe quotedMarker +
    wsp * maybe extras * wsp * urlspec * maybe (oneOf isBlank * wsp * maybe quotedMarker)

end Grammar

section Statements

/-- The spelling of a name that stands for all of them. -/
def pep503 (name : Str) : Str :=
  (collapseSeparators false name).map Char.toLower

/-- What `str.isspace` says of blanks and of the visible ASCII characters. -/
class LawfulSpace [Text] : Prop where
  blank : ∀ c, isBlank c = true → Text.isSpace c = true
  visible : ∀ c : Char, 0x20 < c.toNat → c.toNat < 0x7f → Text.isSpace c = false

instance : @LawfulSpace Http.asciiUrls := by
  refine @LawfulSpace.mk Http.asciiUrls (fun c hc => ?_) (fun c hlow hhigh => ?_)
  · rcases Bool.or_eq_true_iff.mp hc with hc | hc
    · rw [of_decide_eq_true hc]
      rfl
    · rw [of_decide_eq_true hc]
      rfl
  · refine Bool.eq_false_iff.mpr (fun hspace => ?_)
    change c.isWhitespace = true at hspace
    simp only [Char.isWhitespace, Bool.or_eq_true, decide_eq_true_eq] at hspace
    rcases hspace with ((rfl | rfl) | rfl) | rfl <;> exact absurd hlow (by decide)

variable [Unicode] [Text] [Interpreter]

/-- A requirement is of the package that it names. -/
structure Identifies (name rest : Str) : Prop where
  extracted : pythonRequirementName (ofStr (name ++ rest)) = ofStr name
  keyed : dependencyStableKey .pypi name = .ok ("dep:pypi:".toList ++ pep503 name)
  declared : ∀ path line, ∃ x, requirement (ofStr (name ++ rest)) line = some x ∧
    (manifestFacts path).key x = dependencyStableKey .pypi name
  spelled : ∀ name', isName name' = true → pep503 name' = pep503 name →
    dependencyStableKey .pypi name' = dependencyStableKey .pypi name
  locked : ∀ d text resolutions path lockfileFormat,
    poetryResolutions d text = .ok (.ok resolutions) → ∀ r ∈ resolutions,
      isName (masked r.name) = true → pep503 (masked r.name) = pep503 name →
        (lockfileFacts path lockfileFormat).key r = dependencyStableKey .pypi name

end Statements

section Beginnings

variable {p : Char → Bool} {l m : Language Char}

/-- Every word has a first character of a kind. -/
def Begins (p : Char → Bool) (l : Language Char) : Prop :=
  ∀ s ∈ l, ∃ c t, s = c :: t ∧ p c = true

/-- Every word that is not empty has one. -/
def MayBegin (p : Char → Bool) (l : Language Char) : Prop :=
  ∀ s ∈ l, ∀ c t, s = c :: t → p c = true

theorem Begins.mayBegin (h : Begins p l) : MayBegin p l := by
  intro s hs c t hct
  rcases h s hs with ⟨c', t', heq, hc'⟩
  rw [heq] at hct
  rw [← (List.cons.inj hct).1]
  exact hc'

theorem Begins.mul (h : Begins p l) (m : Language Char) : Begins p (l * m) := by
  intro s hs
  rcases Language.mem_mul.mp hs with ⟨a, ha, b, -, rfl⟩
  rcases h a ha with ⟨c, t, rfl, hc⟩
  exact ⟨c, t ++ b, rfl, hc⟩

theorem MayBegin.mul_begins (h : MayBegin p l) (hm : Begins p m) : Begins p (l * m) := by
  intro s hs
  rcases Language.mem_mul.mp hs with ⟨a, ha, b, hb, rfl⟩
  cases a with
  | nil => exact hm b hb
  | cons c t => exact ⟨c, t ++ b, rfl, h _ ha c t rfl⟩

theorem MayBegin.mul (h : MayBegin p l) (hm : MayBegin p m) : MayBegin p (l * m) := by
  intro s hs c t hct
  rcases Language.mem_mul.mp hs with ⟨a, ha, b, hb, rfl⟩
  cases a with
  | nil => exact hm b hb c t hct
  | cons c' t' =>
    rw [cons_append] at hct
    rw [← (List.cons.inj hct).1]
    exact h _ ha c' t' rfl

theorem Begins.add (h : Begins p l) (hm : Begins p m) : Begins p (l + m) := by
  intro s hs
  rcases (Language.mem_add l m s).mp hs with hs | hs
  · exact h s hs
  · exact hm s hs

theorem MayBegin.add (h : MayBegin p l) (hm : MayBegin p m) : MayBegin p (l + m) := by
  intro s hs
  rcases (Language.mem_add l m s).mp hs with hs | hs
  · exact h s hs
  · exact hm s hs

theorem MayBegin.maybe (h : MayBegin p l) : MayBegin p (maybe l) := by
  refine MayBegin.add (fun s hs c t hct => ?_) h
  rw [(Language.mem_one s).mp hs] at hct
  exact absurd hct.symm (cons_ne_nil c t)

theorem MayBegin.many (h : MayBegin p l) : MayBegin p (many l) := by
  intro s hs c t hct
  rcases Language.mem_kstar.mp hs with ⟨words, rfl, hwords⟩
  clear hs
  induction words with
  | nil => exact absurd hct.symm (cons_ne_nil c t)
  | cons w words ih =>
    rw [flatten_cons] at hct
    cases w with
    | nil => exact ih (fun y hy => hwords y (mem_cons_of_mem _ hy)) hct
    | cons c' t' =>
      rw [cons_append] at hct
      rw [← (List.cons.inj hct).1]
      exact h _ (hwords _ mem_cons_self) c' t' rfl

theorem begins_oneOf {q : Char → Bool} (h : ∀ c, q c = true → p c = true) :
    Begins p (oneOf q) := by
  rintro s ⟨c, hc, rfl⟩
  exact ⟨c, [], rfl, h c hc⟩

theorem begins_token {s : String} {c : Char} {t : Str} (hs : s.toList = c :: t)
    (hc : p c = true) : Begins p (token s) := by
  intro w hw
  exact ⟨c, t, hw.trans hs, hc⟩

end Beginnings

section Remainder

/-- What can follow a name. -/
def isRest (c : Char) : Bool :=
  " \t[(<>=!~@;".toList.elem c

theorem isRest_blank {c : Char} (h : isBlank c = true) : isRest c = true := by
  rcases Bool.or_eq_true_iff.mp h with h | h
  · rw [of_decide_eq_true h]
    decide
  · rw [of_decide_eq_true h]
    decide

theorem starts_wsp : MayBegin isRest wsp :=
  (begins_oneOf (fun _ => isRest_blank)).mayBegin.many

theorem starts_versionCmp : Begins isRest versionCmp := by
  refine starts_wsp.mul_begins ?_
  refine (((((((begins_token rfl ?_).add (begins_token rfl ?_)).add (begins_token rfl ?_)).add
    (begins_token rfl ?_)).add (begins_token rfl ?_)).add (begins_token rfl ?_)).add
    (begins_token rfl ?_)).add (begins_token rfl ?_)
  all_goals decide

theorem starts_versionspec : Begins isRest versionspec := by
  have hone : Begins isRest versionOne := (starts_versionCmp.mul version).mul wsp
  have hparen : Begins isRest (token "(") := begins_token rfl (by decide)
  exact ((hparen.mul versionMany).mul _).add (hone.mul _)

theorem starts_extras : Begins isRest extras := by
  have hbracket : Begins isRest (token "[") := begins_token rfl (by decide)
  exact ((((hbracket.mul _).mul _).mul _).mul _)

theorem starts_urlspec : Begins isRest urlspec := by
  have hat : Begins isRest (token "@") := begins_token rfl (by decide)
  exact (hat.mul _).mul _

theorem starts_quotedMarker : Begins isRest quotedMarker := by
  have hsemicolon : Begins isRest (token ";") := begins_token rfl (by decide)
  exact (hsemicolon.mul _).mul _

/-- What a rest begins with. -/
theorem starts_remainder : MayBegin isRest remainder := by
  have hextras : MayBegin isRest (wsp * maybe extras * wsp) :=
    (starts_wsp.mul starts_extras.mayBegin.maybe).mul starts_wsp
  refine MayBegin.add ?_ ?_
  · exact ((hextras.mul starts_versionspec.mayBegin.maybe).mul starts_wsp).mul
      starts_quotedMarker.mayBegin.maybe
  · exact ((hextras.mul_begins starts_urlspec).mul _).mayBegin

end Remainder

section Names

variable {c : Char} {name : Str}

theorem isAlphanum_bounds (h : c.isAlphanum = true) : 0x2f < c.toNat ∧ c.toNat < 0x7b := by
  have hranges : ((decide (c.val ≥ 'A'.val ∧ c.val ≤ 'Z'.val) ||
      (decide (c.val ≥ 'a'.val) && decide (c.val ≤ 'z'.val))) ||
      (decide (c.val ≥ '0'.val) && decide (c.val ≤ '9'.val))) = true := h
  simp only [Bool.or_eq_true, Bool.and_eq_true, decide_eq_true_eq, ge_iff_le,
    UInt32.le_iff_toNat_le] at hranges
  have hupper : 'A'.val.toNat = 0x41 ∧ 'Z'.val.toNat = 0x5a := by decide
  have hlower : 'a'.val.toNat = 0x61 ∧ 'z'.val.toNat = 0x7a := by decide
  have hdigit : '0'.val.toNat = 0x30 ∧ '9'.val.toNat = 0x39 := by decide
  change 0x2f < c.val.toNat ∧ c.val.toNat < 0x7b
  omega

theorem isNameChar_bounds (h : isNameChar c = true) : 0x2c < c.toNat ∧ c.toNat < 0x7b := by
  simp only [isNameChar, Bool.or_eq_true, decide_eq_true_eq] at h
  rcases h with ((h | rfl) | rfl) | rfl
  · have hc := isAlphanum_bounds h
    omega
  all_goals decide

/-- A name is not empty, and it has only name characters. -/
theorem isName_cons (h : isName name = true) :
    ∃ c t, name = c :: t ∧ ∀ d ∈ name, isNameChar d = true := by
  simp only [isName, Bool.and_eq_true] at h
  cases name with
  | nil => exact absurd h.1.2 Bool.false_ne_true
  | cons c t => exact ⟨c, t, rfl, all_eq_true.mp h.1.1⟩

theorem mem_collapseSeparators : ∀ {s : Str} {run : Bool},
    c ∈ collapseSeparators run s → c = '-' ∨ c ∈ s := by
  intro s
  induction s with
  | nil => exact fun h => .inr h
  | cons d s ih =>
    intro run h
    rw [collapseSeparators] at h
    split at h
    · split at h
      · exact (ih h).imp_right (mem_cons_of_mem d)
      · rcases mem_cons.mp h with rfl | h
        · exact .inl rfl
        · exact (ih h).imp_right (mem_cons_of_mem d)
    · rcases mem_cons.mp h with rfl | h
      · exact .inr mem_cons_self
      · exact (ih h).imp_right (mem_cons_of_mem d)

theorem toLower_bounds (hlow : 0x20 ≤ c.toNat) (hhigh : c.toNat < 128) :
    0x20 ≤ c.toLower.toNat ∧ c.toLower.toNat < 128 := by
  have hall : ∀ n < 128, 0x20 ≤ n →
      0x20 ≤ (Char.ofNat n).toLower.toNat ∧ (Char.ofNat n).toLower.toNat < 128 := by
    decide
  have h := hall c.toNat hhigh hlow
  rwa [Char.ofNat_toNat] at h

theorem isName_collapse (h : isName name = true) :
    ∀ c ∈ collapseSeparators false name, 0x20 ≤ c.toNat ∧ c.toNat < 128 := by
  rcases isName_cons h with ⟨_, _, -, hall⟩
  intro c hc
  rcases mem_collapseSeparators hc with rfl | hc
  · decide
  · have hbounds := isNameChar_bounds (hall c hc)
    omega

theorem isName_pep503 (h : isName name = true) :
    ∀ c ∈ pep503 name, 0x20 ≤ c.toNat ∧ c.toNat < 128 := by
  intro c hc
  rcases mem_map.mp hc with ⟨d, hd, rfl⟩
  have hbounds := isName_collapse h d hd
  exact toLower_bounds hbounds.1 hbounds.2

variable [Unicode] [Interpreter] [LawfulLower]

/-- The key of a package by a name of its. -/
theorem dependencyStableKey_pypi (h : isName name = true) :
    dependencyStableKey .pypi name = .ok ("dep:pypi:".toList ++ pep503 name) := by
  have hfolded : foldedName .pypi name = pep503 name :=
    LawfulLower.lower_ascii _ (fun c hc => (isName_collapse h c hc).2)
  have hnfc : nfc (dependencyKeyText .pypi name) = "dep:".toList ++ Ecosystem.pypi.name ++ ':' ::
      pep503 name := by
    rw [nfc_dependencyKeyText, hfolded, nfc_ascii _ (fun c hc => (isName_pep503 h c hc).2)]
  have hkind : nfc "dependency".toList = "dependency".toList := nfc_ascii _ (by decide)
  have hdep : ∀ c ∈ "dep:".toList ++ Ecosystem.pypi.name, 0x20 ≤ c.toNat :=
    forall_mem_of_all (by decide)
  rw [dependencyStableKey_eq]
  refine normalizeStableKey_iff.mpr ⟨⟨by rw [hkind]; decide, ?_⟩, ?_, ?_⟩
  · rw [hnfc]
    exact append_ne_nil_of_right_ne_nil _ (cons_ne_nil _ _)
  · rw [hnfc]
    intro c hc
    rcases mem_append.mp hc with hc | hc
    · exact hdep c hc
    · rcases mem_cons.mp hc with rfl | hc
      · decide
      · exact (isName_pep503 h c hc).1
  · rw [hkind, hnfc]
    exact normalizeKindKey_dependency .pypi (pep503 name)

end Names

section Extraction

variable [Text]

variable {name : Str} {c : Char}

theorem pyStrip_of_nameChars [LawfulSpace] (h : ∀ c ∈ name, isNameChar c = true) :
    pyStrip (ofStr name) = ofStr name := by
  have hspace : ∀ c ∈ ofStr name, PyChar.isSpace c = false := by
    intro c hc
    rcases mem_map.mp hc with ⟨d, hd, rfl⟩
    have hbounds := isNameChar_bounds (h d hd)
    exact LawfulSpace.visible d (by omega) (by omega)
  have hdrop : ∀ l : PyStr, (∀ c ∈ l, PyChar.isSpace c = false) →
      l.dropWhile PyChar.isSpace = l := by
    intro l hl
    cases l with
    | nil => rfl
    | cons c l =>
      exact dropWhile_cons_of_neg (by rw [hl c mem_cons_self]; exact Bool.false_ne_true)
  rw [pyStrip, hdrop _ hspace, hdrop _ (fun c hc => hspace c (mem_reverse.mp hc)),
    reverse_reverse]

/-- A character that is no space stays. -/
theorem mem_pyStrip {s : PyStr} {c : PyChar} (hc : c ∈ s) (hspace : PyChar.isSpace c = false) :
    c ∈ pyStrip s := by
  have hdrop : ∀ l : PyStr, c ∈ l → c ∈ l.dropWhile PyChar.isSpace := by
    intro l hl
    induction l with
    | nil => cases hl
    | cons d l ih =>
      rw [dropWhile_cons]
      split
      · rename_i hd
        rcases mem_cons.mp hl with rfl | hl
        · rw [hspace] at hd
          exact absurd hd Bool.false_ne_true
        · exact ih hl
      · exact hl
  rw [pyStrip, mem_reverse]
  exact hdrop _ (mem_reverse.mpr (hdrop _ hc))

variable [LawfulSpace]

theorem endsName_of_visible (hlow : 0x20 < c.toNat) (hhigh : c.toNat < 0x7f)
    (hclass : "[<>=!~@".toList.elem c = false) : endsName (.scalar c) = false := by
  rw [endsName, hclass, LawfulSpace.visible c hlow hhigh]
  rfl

theorem endsName_of_nameChar (h : isNameChar c = true) : endsName (.scalar c) = false := by
  have hbounds := isNameChar_bounds h
  have hclass : ∀ d ∈ "[<>=!~@".toList, isNameChar d = false := forall_mem_of_all (by decide)
  refine endsName_of_visible (by omega) (by omega) (Bool.eq_false_iff.mpr (fun hmem => ?_))
  rw [hclass c (elem_iff.mp hmem)] at h
  exact Bool.false_ne_true h

/-- What ends a name, of all that can follow one. -/
theorem endsName_of_isRest (h : isRest c = true) :
    endsName (.scalar c) = true ↔ c ≠ '(' ∧ c ≠ ';' := by
  have hparen : endsName (.scalar '(') = false :=
    endsName_of_visible (by decide) (by decide) (by decide)
  have hsemicolon : endsName (.scalar ';') = false :=
    endsName_of_visible (by decide) (by decide) (by decide)
  have hother : ∀ d ∈ " \t[(<>=!~@;".toList, d ≠ '(' → d ≠ ';' →
      isBlank d = true ∨ d ∈ "[<>=!~@".toList := forall_mem_of_all (by decide)
  constructor
  · intro hends
    refine ⟨fun hc => ?_, fun hc => ?_⟩
    · rw [hc, hparen] at hends
      exact Bool.false_ne_true hends
    · rw [hc, hsemicolon] at hends
      exact Bool.false_ne_true hends
  · intro hc
    rw [endsName, Bool.or_eq_true]
    rcases hother c (elem_iff.mp h) hc.1 hc.2 with hblank | hclass
    · exact .inr (LawfulSpace.blank c hblank)
    · exact .inl (elem_iff.mpr hclass)

/-- The name is cut off iff the rest begins with what ends one. -/
theorem pythonRequirementName_iff {rest : Str} (hname : ∀ c ∈ name, isNameChar c = true)
    (hrest : ∀ c t, rest = c :: t → isRest c = true) :
    pythonRequirementName (ofStr (name ++ rest)) = ofStr name ↔
      rest.head? ≠ some '(' ∧ rest.head? ≠ some ';' := by
  have hkept : ∀ c ∈ ofStr name, (!endsName c) = true := by
    intro c hc
    rcases mem_map.mp hc with ⟨d, hd, rfl⟩
    rw [endsName_of_nameChar (hname d hd)]
    rfl
  have happend : ofStr (name ++ rest) = ofStr name ++ ofStr rest := map_append
  rw [pythonRequirementName, happend, takeWhile_append_of_pos hkept]
  cases rest with
  | nil =>
    refine iff_of_true ?_ ⟨(fun h => by cases h), (fun h => by cases h)⟩
    rw [show ofStr [] = [] from rfl, takeWhile_nil, append_nil]
    exact pyStrip_of_nameChars hname
  | cons c t =>
    have hiff := endsName_of_isRest (hrest c t rfl)
    have hcons : ofStr (c :: t) = .scalar c :: ofStr t := rfl
    rw [List.head?_cons, Ne, Ne, Option.some.injEq, Option.some.injEq, ← Ne, ← Ne, ← hiff, hcons]
    by_cases hends : endsName (.scalar c) = true
    · refine iff_of_true ?_ hends
      rw [takeWhile_cons_of_neg (by rw [hends]; decide), append_nil]
      exact pyStrip_of_nameChars hname
    · refine iff_of_false (fun hstrip => ?_) hends
      -- The character is no space, so it stays in what is cut off, and it is not in a name.
      have hout : endsName (.scalar c) = false := Bool.eq_false_iff.mpr hends
      have hspace : PyChar.isSpace (.scalar c) = false := (Bool.or_eq_false_iff.mp hout).2
      have hmem : PyChar.scalar c ∈ ofStr name := by
        rw [← hstrip]
        refine mem_pyStrip (mem_append_right _ ?_) hspace
        rw [takeWhile_cons_of_pos (by rw [hout]; rfl)]
        exact mem_cons_self
      rcases mem_map.mp hmem with ⟨d, hd, heq⟩
      rw [PyChar.scalar.inj heq] at hd
      have hparen : c = '(' ∨ c = ';' := by
        by_contra hne
        exact hends (hiff.mpr (not_or.mp hne))
      have hplain : isNameChar c = false := by
        rcases hparen with rfl | rfl <;> decide
      rw [hname c hd] at hplain
      exact absurd hplain.symm Bool.false_ne_true

end Extraction

section Requirements

/-- A package of a lockfile is one of PyPI. -/
theorem poetryPackage_ecosystem {p : Data × Nat} {r : Resolution} (h : poetryPackage p = .ok r) :
    r.ecosystem = .pypi := by
  rw [poetryPackage] at h
  split at h
  · split at h
    · rw [← Except.ok.inj h]
    · cases h
  · cases h

variable [Text]

theorem poetryResolutions_ecosystem {d : Decoders} {text : Str} {resolutions : List Resolution}
    (h : poetryResolutions d text = .ok (.ok resolutions)) :
    ∀ r ∈ resolutions, r.ecosystem = .pypi := by
  intro r hr
  rw [poetryResolutions] at h
  rcases Checked.bind_eq_ok.mp h with ⟨parsed, -, h⟩
  split at h
  · split at h
    · split at h
      · cases Except.ok.inj h
      · split at h
        · rw [← Except.ok.inj (Except.ok.inj h)] at hr
          cases hr
        · dsimp only at h
          split at h
          · cases h
          · rcases Checked.bind_eq_ok.mp h with ⟨found, hfound, h⟩
            rw [← Except.ok.inj (Except.ok.inj h)] at hr
            rcases (Checked.mem_collect hfound).mp hr with ⟨p, -, hp⟩
            exact poetryPackage_ecosystem hp
        · cases h
    · cases h
  · cases h

variable [Unicode] [Interpreter] [LawfulLower] [LawfulSpace]

/-- A requirement has its name and its key iff its rest begins with neither a parenthesis nor a
    semicolon. -/
theorem requirement_identified {name rest : Str} (hname : isName name = true)
    (hrest : rest ∈ remainder) :
    Identifies name rest ↔ rest.head? ≠ some '(' ∧ rest.head? ≠ some ';' := by
  rcases isName_cons hname with ⟨c, t, hcons, hall⟩
  rw [← pythonRequirementName_iff hall (starts_remainder rest hrest)]
  refine ⟨Identifies.extracted, fun hextracted => ?_⟩
  have hkey : ∀ name', isName name' = true → pep503 name' = pep503 name →
      dependencyStableKey .pypi name' = dependencyStableKey .pypi name := by
    intro name' hname' hsame
    rw [dependencyStableKey_pypi hname', dependencyStableKey_pypi hname, hsame]
  have hne : ofStr name ≠ [] := by
    rw [hcons]
    exact cons_ne_nil _ _
  refine ⟨hextracted, dependencyStableKey_pypi hname, fun path line => ?_, hkey, ?_⟩
  · rw [requirement, hextracted, if_neg hne]
    refine ⟨_, rfl, ?_⟩
    change dependencyStableKey .pypi (masked (ofStr name)) = _
    rw [masked_ofStr]
  · intro d text resolutions path lockfileFormat hresolved r hr hrname hsame
    change dependencyStableKey r.ecosystem (masked r.name) = _
    rw [poetryResolutions_ecosystem hresolved r hr]
    exact hkey _ hrname hsame

end Requirements

section Words

theorem nil_mem_many (l : Language Char) : [] ∈ many l :=
  Language.nil_mem_kstar l

theorem nil_mem_maybe (l : Language Char) : [] ∈ maybe l :=
  (Language.mem_add _ _ _).mpr (.inl Language.nil_mem_one)

variable {l m : Language Char} {s : Str}

theorem mem_mul_nil (hs : s ∈ l) (hm : [] ∈ m) : s ∈ l * m := by
  have h := Language.append_mem_mul hs hm
  rwa [append_nil] at h

theorem mem_nil_mul (hl : [] ∈ l) (hs : s ∈ m) : s ∈ l * m :=
  Language.append_mem_mul hl hs

/-- A version with nothing around it. -/
theorem version_mem_versionOne {c : Char} (hc : isVersionChar c = true) :
    '>' :: '=' :: [c] ∈ versionOne := by
  have hcmp : ['>', '='] ∈ versionCmp := by
    refine mem_nil_mul (nil_mem_many _) ?_
    simp only [Language.mem_add]
    exact .inl (.inl (.inl (.inr rfl)))
  have hversion : [c] ∈ version :=
    mem_nil_mul (nil_mem_many _) (mem_mul_nil ⟨c, hc, rfl⟩ (nil_mem_many _))
  exact mem_mul_nil (Language.append_mem_mul hcmp hversion) (nil_mem_many _)

theorem versionspec_mem_remainder (h : s ∈ versionspec) : s ∈ remainder := by
  refine (Language.mem_add _ _ _).mpr (.inl ?_)
  have hextras : [] ∈ wsp * maybe extras * wsp :=
    mem_nil_mul (mem_nil_mul (nil_mem_many _) (nil_mem_maybe _)) (nil_mem_many _)
  have hspec : s ∈ maybe versionspec := (Language.mem_add _ _ _).mpr (.inr h)
  exact mem_mul_nil (mem_mul_nil (mem_nil_mul hextras hspec) (nil_mem_many _)) (nil_mem_maybe _)

end Words

/-- A version after a name, as it is mostly written. -/
theorem requirement_identified_version :
    isName "Flask_Login".toList = true ∧ ">=1".toList ∈ remainder ∧
      @Identifies asciiText Http.asciiUrls cpython "Flask_Login".toList ">=1".toList := by
  have hone : ">=1".toList ∈ versionOne := version_mem_versionOne (by decide)
  have hrest : ">=1".toList ∈ remainder :=
    versionspec_mem_remainder
      ((Language.mem_add _ _ _).mpr (.inr (mem_mul_nil hone (nil_mem_many _))))
  refine ⟨by decide, hrest, ?_⟩
  exact (@requirement_identified Http.asciiUrls asciiText cpython _ _ _ _ (by decide) hrest).mpr
    (by decide)

/-- Versions in parentheses become part of the name. -/
theorem requirement_not_identified :
    ¬ ∀ name rest, isName name = true → rest ∈ remainder →
      @Identifies asciiText Http.asciiUrls cpython name rest := by
  intro h
  have hone : ">=2".toList ∈ versionOne := version_mem_versionOne (by decide)
  have hmany : ">=2".toList ∈ versionMany := mem_mul_nil hone (nil_mem_many _)
  have hspec : "(>=2)".toList ∈ versionspec := by
    refine (Language.mem_add _ _ _).mpr (.inl ?_)
    exact Language.append_mem_mul (a := "(>=2".toList) (b := ")".toList)
      (Language.append_mem_mul (a := "(".toList) rfl hmany) rfl
  have hextracted := @Identifies.extracted asciiText Http.asciiUrls cpython _ _
    (h "requests".toList "(>=2)".toList (by decide) (versionspec_mem_remainder hspec))
  exact absurd hextracted (by decide)

end RequirementNames

end Partha
