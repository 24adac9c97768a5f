import Partha.Canonical.Value
import Partha.Extraction.Structured
import Partha.Library.JsonGrammar
import Partha.Library.SortKeys
import Partha.Library.Utf8

/-!
# Canonical JSON as an Encoding

What the canonical bytes of a value say, to any reader of JSON.

The strings here can hold lone surrogates, which have no encoding. Normal form C leaves them
where they are and works on the text between them. A normalized mapping keeps the order of its
source, and serialization sorts it. Two mappings are equal whatever their orders, so what is
compared is the value with every mapping listed in one order.

The bytes of a value are the text of a JSON document without blanks, whose objects list their
keys in order, and it says what the value is up to normalization. So nothing is lost: the bytes
of two values are the same iff the values are.

## Main definitions

* `PyValue`: The values that reach `canonical_json_bytes`.
* `pyNormalize`: `normalize_content`.
* `pyCanonicalJsonBytes`: `canonical_json_bytes`.
* `listed`: A value with its mappings in order.
* `Offends`: What is refused.

## Theorems

* `serialize_text`: What is written is a document that says the value.
* `pyNormalize_listed`: Normalizing what was normalized changes nothing.
* `canonical_json_exact`: Canonical JSON is an injective encoding.
-/

namespace Partha

namespace Encoding

open Canonical Checked SortKeys
open Structured (PyChar PyStr ofStr masked Encodable pyChar map_pyChar)
open JsonText (quote decimal join utf8 utf16)
open JsonGrammar (Json)
open List

section Definitions

/-- A value as the canonical functions see it. A mapping has the texts of its keys. -/
inductive PyValue where
  | null
  | bool (b : Bool)
  | num (i : Int)
  | str (s : PyStr)
  | arr (items : List PyValue)
  | obj (fields : List (PyStr × PyValue))
  | float
  | unsupported

/-- A string without lone surrogates. -/
def plainText (s : PyStr) : Option Str :=
  if s.all (fun c => c = .scalar c.masked) then some (masked s) else none

variable [Unicode]

/-- Normal form C of a string, after the beginning of a run without lone surrogates. -/
def nfcRuns (run : Str) : PyStr → PyStr
  | [] => ofStr (nfc run)
  | .scalar c :: s => nfcRuns (run ++ [c]) s
  | .surrogate n :: s => ofStr (nfc run) ++ .surrogate n :: nfcRuns [] s

/-- `nfc`. -/
def pyNfc (s : PyStr) : PyStr :=
  nfcRuns [] s

mutual

/-- `_normalize`, and `normalize_content`. -/
def pyNormalize : PyValue → Except CanonicalError PyValue
  | .null => .ok .null
  | .bool b => .ok (.bool b)
  | .num i =>
    if ExactInteger i then .ok (.num i)
    else .error (.canonicalization
      "integers outside the exact JSON/IEEE-754 range are not permitted")
  | .str s => .ok (.str (pyNfc s))
  | .arr items => do
      let items ← pyNormalizeItems items
      .ok (.arr items)
  | .obj fields => do
      let fields ← pyNormalizeFields [] fields
      .ok (.obj fields)
  | .float => .error (.canonicalization "floats are not permitted in canonical content")
  | .unsupported => .error (.canonicalization "unsupported type in canonical content")

def pyNormalizeItems : List PyValue → Except CanonicalError (List PyValue)
  | [] => .ok []
  | v :: items => do
      let v ← pyNormalize v
      let items ← pyNormalizeItems items
      .ok (v :: items)

/-- The properties of an object, of which `seen` were normalized before. -/
def pyNormalizeFields (seen : List PyStr) :
    List (PyStr × PyValue) → Except CanonicalError (List (PyStr × PyValue))
  | [] => .ok []
  | (key, v) :: fields =>
    if seen.elem (pyNfc key) then .error (.keysCollide "object" (masked (pyNfc key)))
    else do
      let v ← pyNormalize v
      let fields ← pyNormalizeFields (pyNfc key :: seen) fields
      .ok ((pyNfc key, v) :: fields)

end

end Definitions

section Serialization

/-- The order in which the keys of an object are written. -/
def inOrder {α : Type} (fields : List (Str × α)) : List (Str × α) :=
  sortBy (fun f => utf16 f.1) fields

mutual

/-- `serialize`, or nothing if a string has no encoding. -/
def serialize : PyValue → Option Str
  | .null => some "null".toList
  | .bool true => some "true".toList
  | .bool false => some "false".toList
  | .num i => some (decimal i)
  | .str s => (plainText s).map quote
  | .arr items => (serializeItems items).map (fun texts => '[' :: (join texts ++ [']']))
  | .obj fields => (serializeFields fields).map (fun texts =>
    '\x7b' :: (join ((inOrder texts).map (fun f => quote f.1 ++ ':' :: f.2)) ++ ['\x7d']))
  | .float => none
  | .unsupported => none

def serializeItems : List PyValue → Option (List Str)
  | [] => some []
  | v :: items => do
      let text ← serialize v
      let texts ← serializeItems items
      some (text :: texts)

def serializeFields : List (PyStr × PyValue) → Option (List (Str × Str))
  | [] => some []
  | (key, v) :: fields => do
      let key ← plainText key
      let text ← serialize v
      let texts ← serializeFields fields
      some ((key, text) :: texts)

end

/-- `canonical_json_bytes`. -/
def pyCanonicalJsonBytes [Unicode] (v : PyValue) : Except CanonicalError (List UInt8) := do
  let v ← pyNormalize v
  match serialize v with
  | some text => .ok (utf8 text)
  | none => .error (.canonicalization "canonical content contains an invalid Unicode surrogate")

end Serialization

section Statements

mutual

/-- A value with every mapping listed in order. -/
def listed : PyValue → PyValue
  | .arr items => .arr (listedItems items)
  | .obj fields => .obj (sortBy (fun f => utf16 (masked f.1)) (listedFields fields))
  | v => v

def listedItems : List PyValue → List PyValue
  | [] => []
  | v :: items => listed v :: listedItems items

def listedFields : List (PyStr × PyValue) → List (PyStr × PyValue)
  | [] => []
  | (key, v) :: fields => (key, listed v) :: listedFields fields

end

mutual

/-- What a reader of JSON makes of a document. A number that is not an integer is a float. -/
def ofJson : Json → PyValue
  | .null => .null
  | .bool b => .bool b
  | .int i => .num i
  | .real _ => .float
  | .string points => .str (points.map pyChar)
  | .array items => .arr (ofJsonItems items)
  | .object members => .obj (ofJsonMembers members)

def ofJsonItems : List Json → List PyValue
  | [] => []
  | j :: items => ofJson j :: ofJsonItems items

def ofJsonMembers : List (List Nat × Json) → List (PyStr × PyValue)
  | [] => []
  | (key, j) :: members => (key.map pyChar, ofJson j) :: ofJsonMembers members

end

/-- `json.loads`, of bytes. -/
def loads (bytes : List UInt8) : Option PyValue := do
  let text ← Utf8.decode bytes
  let j ← JsonGrammar.parse text
  some (ofJson j)

/-- A value occurs in another one, at some depth. -/
inductive Within (u : PyValue) : PyValue → Prop where
  | self : Within u u
  | item {items : List PyValue} {v : PyValue} : v ∈ items → Within u v → Within u (.arr items)
  | field {fields : List (PyStr × PyValue)} {f : PyStr × PyValue} : f ∈ fields →
      Within u f.2 → Within u (.obj fields)

/-- The keys of an object are in the order of their UTF-16 code units. -/
def KeysInOrder (v : PyValue) : Prop :=
  ∀ fields, Within (.obj fields) v →
    (fields.map (fun f => utf16 (masked f.1))).Pairwise (fun a b => a < b)

variable [Unicode]

/-- What is refused: floats and values of other types, integers beyond the exact range, lone
    surrogates in a string or a key, and keys that become the same. -/
def Offends : PyValue → Prop
  | .num i => ¬ ExactInteger i
  | .str s => ¬ Encodable s
  | .obj fields => (∃ f ∈ fields, ¬ Encodable f.1) ∨ ¬ (fields.map (fun f => pyNfc f.1)).Nodup
  | .float | .unsupported => True
  | _ => False

end Statements

section Strings

variable {s : PyStr}

theorem plainText_eq_some {t : Str} : plainText s = some t ↔ s = ofStr t := by
  rw [plainText]
  constructor
  · intro h
    by_cases hall : s.all (fun c => c = .scalar c.masked) = true
    · rw [if_pos hall] at h
      rw [← Option.some.inj h, ofStr, masked, map_map]
      refine (map_id s).symm.trans (map_congr_left (fun c hc => ?_))
      exact of_decide_eq_true (all_eq_true.mp hall c hc)
    · rw [if_neg hall] at h
      cases h
  · rintro rfl
    have hall : (ofStr t).all (fun c => c = .scalar c.masked) = true := by
      refine all_eq_true.mpr (fun c hc => decide_eq_true ?_)
      rcases mem_map.mp hc with ⟨d, -, rfl⟩
      rfl
    rw [if_pos hall, Structured.masked_ofStr]

/-- A string is text iff it has an encoding. -/
theorem encodable_iff : Encodable s ↔ ∃ t, s = ofStr t := by
  constructor
  · exact fun h => ⟨masked s, (Structured.ofStr_masked h).symm⟩
  · rintro ⟨t, rfl⟩
    exact Structured.encodable_ofStr t

variable [Unicode]

theorem nfcRuns_ofStr (run t : Str) : nfcRuns run (ofStr t) = ofStr (nfc (run ++ t)) := by
  induction t generalizing run with
  | nil => rw [append_nil]; rfl
  | cons c t ih =>
    have h := ih (run ++ [c])
    rw [append_assoc, cons_append, nil_append] at h
    exact h

/-- Of text, normal form C is what it is. -/
theorem pyNfc_ofStr (t : Str) : pyNfc (ofStr t) = ofStr (nfc t) :=
  nfcRuns_ofStr [] t

theorem surrogate_mem_nfcRuns {n : Nat} (h : .surrogate n ∈ s) (run : Str) :
    .surrogate n ∈ nfcRuns run s := by
  induction s generalizing run with
  | nil => cases h
  | cons c s ih =>
    cases c with
    | scalar c =>
      rcases mem_cons.mp h with h | h
      · cases h
      · exact ih h _
    | surrogate m =>
      rw [nfcRuns]
      refine mem_append_right _ ?_
      rcases mem_cons.mp h with h | h
      · rw [h]
        exact mem_cons_self
      · exact mem_cons_of_mem _ (ih h _)

/-- Lone surrogates stay. -/
theorem encodable_pyNfc : Encodable (pyNfc s) ↔ Encodable s := by
  constructor
  · intro h c hc
    cases c with
    | scalar d => exact ⟨d, rfl⟩
    | surrogate n =>
      rcases h _ (surrogate_mem_nfcRuns hc []) with ⟨d, hd⟩
      cases hd
  · intro h
    rcases encodable_iff.mp h with ⟨t, rfl⟩
    rw [pyNfc_ofStr]
    exact Structured.encodable_ofStr _

end Strings

section Induction

/-- Induction over a value, with the hypothesis for all items and all fields. -/
theorem PyValue.rec_mem {P : PyValue → Prop} (null : P .null) (bool : ∀ b, P (.bool b))
    (num : ∀ i, P (.num i)) (str : ∀ s, P (.str s))
    (arr : ∀ items, (∀ v ∈ items, P v) → P (.arr items))
    (obj : ∀ fields : List (PyStr × PyValue), (∀ f ∈ fields, P f.2) → P (.obj fields))
    (float : P .float) (unsupported : P .unsupported) (v : PyValue) : P v := by
  refine @PyValue.rec P (fun items => ∀ v ∈ items, P v) (fun fields => ∀ f ∈ fields, P f.2)
    (fun f => P f.2) null bool num str arr obj float unsupported ?_ ?_ ?_ ?_ ?_ v
  · exact fun v hv => absurd hv not_mem_nil
  · intro v items hv hitems w hw
    rcases mem_cons.mp hw with rfl | hw
    · exact hv
    · exact hitems w hw
  · exact fun f hf => absurd hf not_mem_nil
  · intro f fields hf hfields g hg
    rcases mem_cons.mp hg with rfl | hg
    · exact hf
    · exact hfields g hg
  · exact fun _ _ hv => hv

end Induction

section Traversals

variable {items : List PyValue} {fields : List (PyStr × PyValue)} {texts : List (Str × Str)}
  {α : Type} {w : PyValue}

theorem serializeItems_iff {texts : List Str} :
    serializeItems items = some texts ↔
      List.Forall₂ (fun v t => serialize v = some t) items texts := by
  induction items generalizing texts with
  | nil =>
    rw [serializeItems, List.forall₂_nil_left_iff, Option.some.injEq]
    exact eq_comm
  | cons v items ih =>
    rw [serializeItems]
    simp only [Option.bind_eq_bind, Option.bind_eq_some_iff, Option.some.injEq]
    constructor
    · rintro ⟨t, ht, ts, hts, rfl⟩
      exact List.Forall₂.cons ht (ih.mp hts)
    · intro h
      cases h with
      | @cons _ t _ ts ht hts => exact ⟨t, ht, ts, ih.mpr hts, rfl⟩

theorem serializeFields_iff :
    serializeFields fields = some texts ↔
      List.Forall₂ (fun f p => f.1 = ofStr p.1 ∧ serialize f.2 = some p.2) fields texts := by
  induction fields generalizing texts with
  | nil =>
    rw [serializeFields, List.forall₂_nil_left_iff, Option.some.injEq]
    exact eq_comm
  | cons f fields ih =>
    rw [serializeFields]
    simp only [Option.bind_eq_bind, Option.bind_eq_some_iff, Option.some.injEq,
      plainText_eq_some]
    constructor
    · rintro ⟨key, hkey, t, ht, ts, hts, rfl⟩
      exact List.Forall₂.cons ⟨hkey, ht⟩ (ih.mp hts)
    · intro h
      cases h with
      | @cons _ p _ ts hp hts => exact ⟨p.1, hp.1, p.2, hp.2, ts, ih.mpr hts, rfl⟩

theorem written_keys
    (h : List.Forall₂ (fun f p => f.1 = ofStr p.1 ∧ serialize f.2 = some p.2) fields texts) :
    fields.map Prod.fst = texts.map (fun p => ofStr p.1) := by
  induction h with
  | nil => rfl
  | cons hp _ ih => rw [map_cons, map_cons, ih, hp.1]

theorem listedItems_eq (items : List PyValue) : listedItems items = items.map listed := by
  induction items with
  | nil => rfl
  | cons v items ih => rw [listedItems, ih, map_cons]

theorem listedFields_eq (fields : List (PyStr × PyValue)) :
    listedFields fields = fields.map (fun f => (f.1, listed f.2)) := by
  induction fields with
  | nil => rfl
  | cons f fields ih => rw [listedFields, ih, map_cons]

theorem ofJsonItems_eq (items : List Json) : ofJsonItems items = items.map ofJson := by
  induction items with
  | nil => rfl
  | cons j items ih => rw [ofJsonItems, ih, map_cons]

theorem ofJsonMembers_eq (members : List (List Nat × Json)) :
    ofJsonMembers members = members.map (fun m => (m.1.map pyChar, ofJson m.2)) := by
  induction members with
  | nil => rfl
  | cons m members ih => rw [ofJsonMembers, ih, map_cons]

theorem inOrder_map {β : Type} (f : α → β) (l : List (Str × α)) :
    inOrder (l.map (fun e => (e.1, f e.2))) = (inOrder l).map (fun e => (e.1, f e.2)) :=
  sortBy_map _ _ l

theorem inOrder_inOrder (l : List (Str × α)) : inOrder (inOrder l) = inOrder l :=
  (pairwise_sortBy (fun f : Str × α => utf16 f.1) l).insertionSort_eq

variable [Unicode]

theorem pyNormalizeItems_eq (items : List PyValue) :
    pyNormalizeItems items = collect pyNormalize items := by
  induction items with
  | nil => rfl
  | cons v items ih => rw [pyNormalizeItems, collect, ih]

/-- The properties of a normalized object: no two keys are the same, and each value is the
    normalized one. -/
theorem pyNormalizeFields_ok {seen : List PyStr} {gs : List (PyStr × PyValue)} :
    pyNormalizeFields seen fields = .ok gs ↔
      ((fields.map (fun f => pyNfc f.1)).Nodup ∧ ∀ f ∈ fields, pyNfc f.1 ∉ seen) ∧
      List.Forall₂ (fun f g => g.1 = pyNfc f.1 ∧ pyNormalize f.2 = .ok g.2) fields gs := by
  induction fields generalizing seen gs with
  | nil =>
    rw [pyNormalizeFields, List.forall₂_nil_left_iff]
    constructor
    · intro h
      exact ⟨⟨nodup_nil, fun f hf => absurd hf not_mem_nil⟩, (Except.ok.inj h).symm⟩
    · rintro ⟨_, rfl⟩
      rfl
  | cons f fields ih =>
    rcases f with ⟨key, v⟩
    rw [pyNormalizeFields]
    by_cases hseen : pyNfc key ∈ seen
    · rw [if_pos (elem_iff.mpr hseen)]
      refine iff_of_false (fun h => by cases h) (fun h => ?_)
      exact h.1.2 _ mem_cons_self hseen
    · rw [if_neg (fun h => hseen (elem_iff.mp h)), bind_eq_ok, map_cons,
        nodup_cons]
      constructor
      · rintro ⟨w, hw, h⟩
        rcases bind_eq_ok.mp h with ⟨hs, hhs, h⟩
        cases h
        rcases ih.mp hhs with ⟨⟨hnodup, hfresh⟩, hall⟩
        refine ⟨⟨⟨fun hmem => ?_, hnodup⟩, fun g hg => ?_⟩, List.Forall₂.cons ⟨rfl, hw⟩ hall⟩
        · rcases mem_map.mp hmem with ⟨g, hg, hkey⟩
          exact hfresh g hg (by rw [hkey]; exact mem_cons_self)
        · rcases mem_cons.mp hg with rfl | hg
          · exact hseen
          · exact fun h => hfresh g hg (mem_cons_of_mem _ h)
      · rintro ⟨⟨⟨hnot, hnodup⟩, hfresh⟩, hall⟩
        cases hall with
        | @cons _ g _ hs hg hall =>
          refine ⟨g.2, hg.2, bind_eq_ok.mpr ⟨hs, ih.mpr ⟨⟨hnodup, fun f hf hmem => ?_⟩, hall⟩,
            by rw [← hg.1]⟩⟩
          rcases mem_cons.mp hmem with hkey | hmem
          · exact hnot (mem_map.mpr ⟨f, hf, hkey⟩)
          · exact hfresh f (mem_cons_of_mem _ hf) hmem

theorem pyNormalize_arr :
    pyNormalize (.arr items) = .ok w ↔
      ∃ ws, List.Forall₂ (fun v w => pyNormalize v = .ok w) items ws ∧ w = .arr ws := by
  rw [pyNormalize, bind_eq_ok, pyNormalizeItems_eq]
  simp only [collect_eq_ok]
  constructor
  · rintro ⟨ws, hws, h⟩
    exact ⟨ws, hws, (Except.ok.inj h).symm⟩
  · rintro ⟨ws, hws, rfl⟩
    exact ⟨ws, hws, rfl⟩

theorem pyNormalize_obj :
    pyNormalize (.obj fields) = .ok w ↔
      (fields.map (fun f => pyNfc f.1)).Nodup ∧
        ∃ gs, List.Forall₂ (fun f g => g.1 = pyNfc f.1 ∧ pyNormalize f.2 = .ok g.2) fields gs ∧
          w = .obj gs := by
  rw [pyNormalize, bind_eq_ok]
  simp only [pyNormalizeFields_ok, not_mem_nil, not_false_eq_true, implies_true, and_true]
  constructor
  · rintro ⟨gs, ⟨hnodup, hall⟩, h⟩
    exact ⟨hnodup, gs, hall, (Except.ok.inj h).symm⟩
  · rintro ⟨hnodup, gs, hall, rfl⟩
    exact ⟨gs, ⟨hnodup, hall⟩, rfl⟩

end Traversals

section Documents

open JsonGrammar (partsOf arrayOf objectOf numberOf)

/-- A document without blanks has this text and says this value. -/
def Writes (j : JsonGrammar.Value) (text : Str) (v : PyValue) : Prop :=
  j.text = text ∧ j.Compact ∧ ofJson j.data = v

theorem exists_items {items : List PyValue} {texts : List Str}
    (h : List.Forall₂ (fun v t => ∃ j, Writes j t (listed v)) items texts) :
    ∃ values : List JsonGrammar.Value, (∀ j ∈ values, j.Compact) ∧
      values.map JsonGrammar.Value.text = texts ∧
        values.map (fun j => ofJson j.data) = items.map listed := by
  induction h with
  | nil => exact ⟨[], fun _ hj => absurd hj not_mem_nil, rfl, rfl⟩
  | cons hv _ ih =>
    rcases hv with ⟨j, htext, hcompact, hdata⟩
    rcases ih with ⟨values, hall, htexts, hdatas⟩
    refine ⟨j :: values, fun k hk => ?_, ?_, ?_⟩
    · rcases mem_cons.mp hk with rfl | hk
      · exact hcompact
      · exact hall k hk
    · rw [map_cons, htext, htexts]
    · rw [map_cons, map_cons, hdata, hdatas]

theorem exists_members {fields : List (PyStr × PyValue)} {texts : List (Str × Str)}
    (h : List.Forall₂ (fun f p => f.1 = ofStr p.1 ∧ ∃ j, Writes j p.2 (listed f.2)) fields texts) :
    ∃ members : List (Str × JsonGrammar.Value), (∀ m ∈ members, m.2.Compact) ∧
      members.map (fun m => (m.1, m.2.text)) = texts ∧
        members.map (fun m => (ofStr m.1, ofJson m.2.data)) =
          fields.map (fun f => (f.1, listed f.2)) := by
  induction h with
  | nil => exact ⟨[], fun _ hm => absurd hm not_mem_nil, rfl, rfl⟩
  | @cons f p _ _ hv _ ih =>
    rcases hv with ⟨hkey, j, htext, hcompact, hdata⟩
    rcases ih with ⟨members, hall, htexts, hdatas⟩
    refine ⟨(p.1, j) :: members, fun k hk => ?_, ?_, ?_⟩
    · rcases mem_cons.mp hk with rfl | hk
      · exact hcompact
      · exact hall k hk
    · rw [map_cons, htext, htexts]
    · rw [map_cons, map_cons, hdata, hdatas, hkey]

/-- What is written is a document that says the value. -/
theorem serialize_text {v : PyValue} {text : Str} (h : serialize v = some text) :
    ∃ j, Writes j text (listed v) := by
  induction v using PyValue.rec_mem generalizing text with
  -- A scalar and a string are written as one token.
  | null =>
    cases h
    exact ⟨.scalar ⟨"null".toList, .null, rfl⟩, rfl, trivial, rfl⟩
  | bool b =>
    cases b with
    | true =>
      cases h
      exact ⟨.scalar ⟨"true".toList, .bool true, rfl⟩, rfl, trivial, rfl⟩
    | false =>
      cases h
      exact ⟨.scalar ⟨"false".toList, .bool false, rfl⟩, rfl, trivial, rfl⟩
  | num i =>
    cases h
    exact ⟨.scalar (numberOf i), rfl, trivial, rfl⟩
  | str s =>
    rcases Option.map_eq_some_iff.mp h with ⟨t, ht, rfl⟩
    rw [plainText_eq_some.mp ht]
    refine ⟨.string (partsOf t), JsonGrammar.stringText_partsOf t, trivial, ?_⟩
    rw [JsonGrammar.Value.data, ofJson, JsonGrammar.points_partsOf, map_pyChar]
    rfl
  -- The items are written in their order, and the members in the order of their keys.
  | arr items ih =>
    rcases Option.map_eq_some_iff.mp h with ⟨texts, htexts, rfl⟩
    have hall : List.Forall₂ (fun v t => ∃ j, Writes j t (listed v)) items texts :=
      ((List.forall₂_and_left _ _).mpr ⟨fun v hv => hv, serializeItems_iff.mp htexts⟩).imp
        (fun v t hvt => ih v hvt.1 hvt.2)
    rcases exists_items hall with ⟨values, hcompact, htext, hdata⟩
    refine ⟨arrayOf values, ?_, JsonGrammar.arrayOf_compact hcompact, ?_⟩
    · rw [JsonGrammar.arrayOf_text, htext]
    · rw [JsonGrammar.arrayOf_data, ofJson, ofJsonItems_eq, map_map, listed,
        listedItems_eq, ← hdata]
      rfl
  | obj fields ih =>
    rcases Option.map_eq_some_iff.mp h with ⟨texts, htexts, rfl⟩
    have hall : List.Forall₂ (fun f p => f.1 = ofStr p.1 ∧ ∃ j, Writes j p.2 (listed f.2))
        fields texts :=
      ((List.forall₂_and_left _ _).mpr ⟨fun f hf => hf, serializeFields_iff.mp htexts⟩).imp
        (fun f p hfp => ⟨hfp.2.1, ih f hfp.1 hfp.2.2⟩)
    rcases exists_members hall with ⟨members, hcompact, htext, hdata⟩
    refine ⟨objectOf ((inOrder members).map (fun m => (partsOf m.1, m.2))), ?_, ?_, ?_⟩
    · rw [JsonGrammar.objectOf_text, map_map, ← htext,
        inOrder_map JsonGrammar.Value.text, map_map]
      have hmember : ∀ m : Str × JsonGrammar.Value,
          JsonGrammar.memberText (partsOf m.1, m.2) = quote m.1 ++ ':' :: m.2.text := by
        intro m
        rw [JsonGrammar.memberText, ← JsonGrammar.stringText_partsOf]
        rfl
      have htexts : (inOrder members).map (JsonGrammar.memberText ∘ fun m => (partsOf m.1, m.2)) =
          (inOrder members).map ((fun f => quote f.1 ++ ':' :: f.2) ∘ fun e => (e.1, e.2.text)) :=
        map_congr_left (fun m _ => hmember m)
      rw [htexts]
    · refine JsonGrammar.objectOf_compact (fun m hm => ?_)
      rcases mem_map.mp hm with ⟨n, hn, rfl⟩
      exact hcompact n (mem_sortBy.mp hn)
    · rw [JsonGrammar.objectOf_data, ofJson, ofJsonMembers_eq, map_map, map_map, listed,
        listedFields_eq, ← hdata, sortBy_map]
      simp only [Structured.masked_ofStr]
      congr 1
      refine map_congr_left (fun m _ => ?_)
      simp only [Function.comp_apply, JsonGrammar.points_partsOf, map_pyChar]
  | float => cases h
  | unsupported => cases h

end Documents

section Acceptance

variable {u v n : PyValue} {fields : List (PyStr × PyValue)} {text : Str}

theorem within_arr {items : List PyValue} :
    Within u (.arr items) ↔ u = .arr items ∨ ∃ v ∈ items, Within u v := by
  constructor
  · intro h
    cases h with
    | self => exact .inl rfl
    | item hv h => exact .inr ⟨_, hv, h⟩
  · rintro (rfl | ⟨v, hv, h⟩)
    · exact Within.self
    · exact Within.item hv h

theorem within_obj : Within u (.obj fields) ↔ u = .obj fields ∨ ∃ f ∈ fields, Within u f.2 := by
  constructor
  · intro h
    cases h with
    | self => exact .inl rfl
    | field hf h => exact .inr ⟨_, hf, h⟩
  · rintro (rfl | ⟨f, hf, h⟩)
    · exact Within.self
    · exact Within.field hf h

/-- What has no parts occurs in itself only. -/
theorem within_leaf (harr : ∀ items, v ≠ .arr items) (hobj : ∀ fields, v ≠ .obj fields) :
    Within u v ↔ u = v := by
  constructor
  · intro h
    cases h with
    | self => rfl
    | item => exact absurd rfl (harr _)
    | field => exact absurd rfl (hobj _)
  · rintro rfl
    exact Within.self

variable [Unicode]

theorem pyCanonicalJsonBytes_ok {bytes : List UInt8} :
    pyCanonicalJsonBytes v = .ok bytes ↔
      ∃ n text, pyNormalize v = .ok n ∧ serialize n = some text ∧ bytes = utf8 text := by
  rw [pyCanonicalJsonBytes, bind_eq_ok]
  constructor
  · rintro ⟨n, hn, h⟩
    cases htext : serialize n with
    | none =>
      rw [htext] at h
      cases h
    | some text =>
      rw [htext] at h
      exact ⟨n, text, hn, htext, (Except.ok.inj h).symm⟩
  · rintro ⟨n, text, hn, htext, rfl⟩
    exact ⟨n, hn, by rw [htext]⟩

/-- A value is accepted iff nothing in it is refused, at any depth. -/
theorem accepted_iff (v : PyValue) :
    (∃ n text, pyNormalize v = .ok n ∧ serialize n = some text) ↔
      ∀ u, Within u v → ¬ Offends u := by
  have hleaf : ∀ v : PyValue, (∀ items, v ≠ .arr items) → (∀ fields, v ≠ .obj fields) →
      ((∀ u, Within u v → ¬ Offends u) ↔ ¬ Offends v) := by
    intro v harr hobj
    simp only [within_leaf harr hobj, forall_eq]
  induction v using PyValue.rec_mem with
  -- A leaf is normalized and written unless it offends by itself.
  | null =>
    rw [hleaf _ (fun _ h => by cases h) (fun _ h => by cases h)]
    exact iff_of_true ⟨_, _, rfl, rfl⟩ not_false
  | bool b =>
    rw [hleaf _ (fun _ h => by cases h) (fun _ h => by cases h)]
    refine iff_of_true ?_ not_false
    cases b with
    | true => exact ⟨_, _, rfl, rfl⟩
    | false => exact ⟨_, _, rfl, rfl⟩
  | num i =>
    rw [hleaf _ (fun _ h => by cases h) (fun _ h => by cases h), pyNormalize]
    by_cases hi : ExactInteger i
    · rw [if_pos hi]
      exact iff_of_true ⟨_, _, rfl, rfl⟩ (not_not_intro hi)
    · rw [if_neg hi]
      refine iff_of_false ?_ (not_not_intro hi)
      rintro ⟨n, text, h, -⟩
      cases h
  | str s =>
    rw [hleaf _ (fun _ h => by cases h) (fun _ h => by cases h), Offends, not_not,
      ← encodable_pyNfc]
    constructor
    · rintro ⟨n, text, hn, htext⟩
      rw [← Except.ok.inj hn] at htext
      rcases Option.map_eq_some_iff.mp htext with ⟨t, ht, -⟩
      exact encodable_iff.mpr ⟨t, plainText_eq_some.mp ht⟩
    · intro h
      rcases encodable_iff.mp h with ⟨t, ht⟩
      exact ⟨_, _, rfl, Option.map_eq_some_iff.mpr ⟨t, plainText_eq_some.mpr ht, rfl⟩⟩
  -- An array is, if and only if each of its items is.
  | arr items ih =>
    have hparts : (∃ n text, pyNormalize (.arr items) = .ok n ∧ serialize n = some text) ↔
        ∀ v ∈ items, ∃ n text, pyNormalize v = .ok n ∧ serialize n = some text := by
      rw [← forall₂_chain]
      constructor
      · rintro ⟨n, text, hn, htext⟩
        rcases pyNormalize_arr.mp hn with ⟨ws, hws, rfl⟩
        rcases Option.map_eq_some_iff.mp htext with ⟨texts, htexts, -⟩
        exact ⟨ws, texts, hws, serializeItems_iff.mp htexts⟩
      · rintro ⟨ws, texts, hws, htexts⟩
        exact ⟨_, _, pyNormalize_arr.mpr ⟨ws, hws, rfl⟩,
          Option.map_eq_some_iff.mpr ⟨texts, serializeItems_iff.mpr htexts, rfl⟩⟩
    rw [hparts]
    constructor
    · intro h u hu
      rcases within_arr.mp hu with rfl | ⟨v, hv, hu⟩
      · exact not_false
      · exact (ih v hv).mp (h v hv) u hu
    · exact fun h v hv => (ih v hv).mpr (fun u hu => h u (within_arr.mpr (.inr ⟨v, hv, hu⟩)))
  -- An object needs more: its keys have an encoding, and stay apart once they are normalized.
  | obj fields ih =>
    have hparts : (∃ n text, pyNormalize (.obj fields) = .ok n ∧ serialize n = some text) ↔
        (fields.map (fun f => pyNfc f.1)).Nodup ∧ ∀ f ∈ fields,
          ∃ (g : PyStr × PyValue) (p : Str × Str),
          (g.1 = pyNfc f.1 ∧ pyNormalize f.2 = .ok g.2) ∧
            (g.1 = ofStr p.1 ∧ serialize g.2 = some p.2) := by
      rw [← forall₂_chain]
      constructor
      · rintro ⟨n, text, hn, htext⟩
        rcases pyNormalize_obj.mp hn with ⟨hnodup, gs, hgs, rfl⟩
        rcases Option.map_eq_some_iff.mp htext with ⟨texts, htexts, -⟩
        exact ⟨hnodup, gs, texts, hgs, serializeFields_iff.mp htexts⟩
      · rintro ⟨hnodup, gs, texts, hgs, htexts⟩
        exact ⟨_, _, pyNormalize_obj.mpr ⟨hnodup, gs, hgs, rfl⟩,
          Option.map_eq_some_iff.mpr ⟨texts, serializeFields_iff.mpr htexts, rfl⟩⟩
    rw [hparts]
    constructor
    · rintro ⟨hnodup, h⟩ u hu
      rcases within_obj.mp hu with rfl | ⟨f, hf, hu⟩
      · rintro (⟨f, hf, hkey⟩ | hdup)
        · rcases h f hf with ⟨g, p, hg, hp⟩
          refine hkey (encodable_pyNfc.mp ?_)
          rw [← hg.1, hp.1]
          exact Structured.encodable_ofStr p.1
        · exact hdup hnodup
      · rcases h f hf with ⟨g, p, hg, hp⟩
        exact (ih f hf).mp ⟨g.2, p.2, hg.2, hp.2⟩ u hu
    · intro h
      have hself := not_or.mp (h _ Within.self)
      refine ⟨not_not.mp hself.2, fun f hf => ?_⟩
      have hkey : Encodable f.1 := by
        by_contra hnot
        exact hself.1 ⟨f, hf, hnot⟩
      rcases encodable_iff.mp (encodable_pyNfc.mpr hkey) with ⟨k, hk⟩
      rcases (ih f hf).mpr (fun u hu => h u (within_obj.mpr (.inr ⟨f, hf, hu⟩))) with
        ⟨n, text, hn, htext⟩
      exact ⟨(pyNfc f.1, n), (k, text), ⟨rfl, hn⟩, hk, htext⟩
  -- The values that are not normalized at all.
  | float | unsupported =>
    rw [hleaf _ (fun _ h => by cases h) (fun _ h => by cases h)]
    refine iff_of_false ?_ (not_not_intro trivial)
    rintro ⟨n, text, h, -⟩
    cases h

/-- The listing of an object that was normalized and has an encoding. -/
theorem listed_obj {gs : List (PyStr × PyValue)} {texts : List (Str × Str)}
    (hnodup : (fields.map (fun f => pyNfc f.1)).Nodup)
    (hgs : List.Forall₂ (fun f g => g.1 = pyNfc f.1 ∧ pyNormalize f.2 = .ok g.2) fields gs)
    (htexts : List.Forall₂ (fun g p => g.1 = ofStr p.1 ∧ serialize g.2 = some p.2) gs texts)
    (again : ∀ f ∈ fields, ∀ n text, pyNormalize f.2 = .ok n → serialize n = some text →
      pyNormalize (listed n) = .ok (listed n) ∧ serialize (listed n) = some text) :
    ∃ hs, listed (.obj gs) = .obj hs ∧ (hs.map Prod.fst).Nodup ∧
      List.Forall₂ (fun h p => h.1 = ofStr p.1 ∧ serialize h.2 = some p.2) hs (inOrder texts) ∧
        ∀ h ∈ hs, (pyNfc h.1 = h.1 ∧ pyNormalize h.2 = .ok h.2) ∧
          ∃ f ∈ fields, ∃ n text, pyNormalize f.2 = .ok n ∧ serialize n = some text ∧
            h.2 = listed n := by
  have hmap : listed (.obj gs) =
      .obj (sortBy (fun f => utf16 (masked f.1)) (gs.map (fun g => (g.1, listed g.2)))) := by
    rw [listed, listedFields_eq]
  refine ⟨_, hmap, ?_, ?_, ?_⟩
  · have hkeys : (gs.map (fun g => (g.1, listed g.2))).map Prod.fst =
        fields.map (fun f => pyNfc f.1) := by
      rw [map_map]
      clear htexts again hnodup hmap
      induction hgs with
      | nil => rfl
      | cons hg _ ih => rw [map_cons, map_cons, ih, Function.comp_apply, hg.1]
    rw [((perm_sortBy _ _).map Prod.fst).nodup_iff, hkeys]
    exact hnodup
  · refine forall₂_sortBy (fun h p hp => by rw [hp.1, Structured.masked_ofStr]) ?_
    refine List.forall₂_map_left_iff.mpr ?_
    refine ((List.forall₂_and_left _ _).mpr ⟨fun g hg => hg, htexts⟩).imp (fun g p hgp => ?_)
    rcases forall₂_mem_right hgs hgp.1 with ⟨f, hf, hfg⟩
    exact ⟨hgp.2.1, (again f hf g.2 p.2 hfg.2 hgp.2.2).2⟩
  · intro h hh
    rcases mem_map.mp (mem_sortBy.mp hh) with ⟨g, hg, rfl⟩
    rcases forall₂_mem_right hgs hg with ⟨f, hf, hkey, hvalue⟩
    rcases forall₂_mem_left htexts hg with ⟨p, -, hp, htext⟩
    refine ⟨⟨?_, (again f hf g.2 p.2 hvalue htext).1⟩, f, hf, g.2, p.2, hvalue, htext, rfl⟩
    -- The key is one that was normalized before, and it is text.
    have hkey' : Encodable f.1 := by
      rw [← encodable_pyNfc, ← hkey, hp]
      exact Structured.encodable_ofStr p.1
    rcases encodable_iff.mp hkey' with ⟨k, hk⟩
    rw [hkey, hk, pyNfc_ofStr, pyNfc_ofStr, nfc_nfc]

/-- Normalizing what was normalized changes nothing, and it is written as before. -/
theorem pyNormalize_listed (hn : pyNormalize v = .ok n) (htext : serialize n = some text) :
    pyNormalize (listed n) = .ok (listed n) ∧ serialize (listed n) = some text := by
  induction v using PyValue.rec_mem generalizing n text with
  -- The values of one token are normal once they are normalized.
  | null | bool b =>
    rw [← Except.ok.inj hn] at htext ⊢
    exact ⟨rfl, htext⟩
  | num i =>
    rw [pyNormalize] at hn
    by_cases hi : ExactInteger i
    · rw [if_pos hi] at hn
      rw [← Except.ok.inj hn] at htext ⊢
      exact ⟨if_pos hi, htext⟩
    · rw [if_neg hi] at hn
      cases hn
  | str s =>
    rw [← Except.ok.inj hn] at htext ⊢
    refine ⟨?_, htext⟩
    rcases Option.map_eq_some_iff.mp htext with ⟨t, ht, -⟩
    have hs : Encodable s :=
      encodable_pyNfc.mp (encodable_iff.mpr ⟨t, plainText_eq_some.mp ht⟩)
    rcases encodable_iff.mp hs with ⟨u, rfl⟩
    rw [listed, pyNormalize, pyNfc_ofStr, pyNfc_ofStr, nfc_nfc]
    · exact fun _ h => by cases h
    · exact fun _ h => by cases h
  -- An item is normal by induction, and so is a member, whose key is normal and stands in order.
  | arr items ih =>
    rcases pyNormalize_arr.mp hn with ⟨ws, hws, rfl⟩
    rcases Option.map_eq_some_iff.mp htext with ⟨texts, htexts, rfl⟩
    have htexts := serializeItems_iff.mp htexts
    have hagain : ∀ w ∈ ws, ∀ t, serialize w = some t →
        pyNormalize (listed w) = .ok (listed w) ∧ serialize (listed w) = some t := by
      intro w hw t ht
      rcases forall₂_mem_right hws hw with ⟨v, hv, hvw⟩
      exact ih v hv hvw ht
    rw [listed, listedItems_eq]
    refine ⟨pyNormalize_arr.mpr ⟨_, List.forall₂_same.mpr (fun w hw => ?_), rfl⟩, ?_⟩
    · rcases mem_map.mp hw with ⟨u, hu, rfl⟩
      rcases forall₂_mem_left htexts hu with ⟨t, -, ht⟩
      exact (hagain u hu t ht).1
    · refine Option.map_eq_some_iff.mpr ⟨texts, serializeItems_iff.mpr ?_, rfl⟩
      refine List.forall₂_map_left_iff.mpr ?_
      exact ((List.forall₂_and_left _ _).mpr ⟨fun w hw => hw, htexts⟩).imp
        (fun w t hwt => (hagain w hwt.1 t hwt.2).2)
  | obj fields ih =>
    rcases pyNormalize_obj.mp hn with ⟨hnodup, gs, hgs, rfl⟩
    rcases Option.map_eq_some_iff.mp htext with ⟨texts, htexts, rfl⟩
    rcases listed_obj hnodup hgs (serializeFields_iff.mp htexts)
      (fun f hf n text hn htext => ih f hf hn htext) with ⟨hs, hlisted, hfresh, hwritten, hall⟩
    rw [hlisted]
    constructor
    · have hkeys : hs.map (fun f => pyNfc f.1) = hs.map Prod.fst :=
        map_congr_left (fun h hh => (hall h hh).1.1)
      refine pyNormalize_obj.mpr ⟨by rw [hkeys]; exact hfresh, hs, ?_, rfl⟩
      exact List.forall₂_same.mpr (fun h hh => ⟨(hall h hh).1.1.symm, (hall h hh).1.2⟩)
    · refine Option.map_eq_some_iff.mpr ⟨inOrder texts, serializeFields_iff.mpr hwritten, ?_⟩
      rw [inOrder_inOrder]
  | float => cases hn
  | unsupported => cases hn

/-- The keys of every object are listed in order. -/
theorem keysInOrder_listed (hn : pyNormalize v = .ok n) (htext : serialize n = some text) :
    KeysInOrder (listed n) := by
  have hleaf : ∀ w : PyValue, (∀ items, w ≠ .arr items) → (∀ fields, w ≠ .obj fields) →
      KeysInOrder w := by
    intro w harr hobj fields hfields
    exact absurd ((within_leaf harr hobj).mp hfields).symm (hobj fields)
  induction v using PyValue.rec_mem generalizing n text with
  | null | bool b | str s =>
    cases hn
    exact hleaf _ (fun _ h => by cases h) (fun _ h => by cases h)
  | num i =>
    rw [pyNormalize] at hn
    by_cases hi : ExactInteger i
    · rw [if_pos hi] at hn
      cases hn
      exact hleaf _ (fun _ h => by cases h) (fun _ h => by cases h)
    · rw [if_neg hi] at hn
      cases hn
  | arr items ih =>
    rcases pyNormalize_arr.mp hn with ⟨ws, hws, rfl⟩
    rcases Option.map_eq_some_iff.mp htext with ⟨texts, htexts, -⟩
    rw [listed, listedItems_eq]
    intro fields hfields
    rcases within_arr.mp hfields with h | ⟨u, hu, hfields⟩
    · cases h
    · rcases mem_map.mp hu with ⟨w, hw, rfl⟩
      rcases forall₂_mem_right hws hw with ⟨v, hv, hvw⟩
      rcases forall₂_mem_left (serializeItems_iff.mp htexts) hw with ⟨t, -, ht⟩
      exact ih v hv hvw ht fields hfields
  | obj fields ih =>
    rcases pyNormalize_obj.mp hn with ⟨hnodup, gs, hgs, rfl⟩
    rcases Option.map_eq_some_iff.mp htext with ⟨texts, htexts, -⟩
    rcases listed_obj hnodup hgs (serializeFields_iff.mp htexts)
      (fun _ _ _ _ hn htext => pyNormalize_listed hn htext) with
      ⟨hs, hlisted, hfresh, hwritten, hall⟩
    rw [hlisted]
    intro fields' hfields
    rcases within_obj.mp hfields with h | ⟨h, hh, hfields⟩
    · rw [PyValue.obj.inj h]
      -- The keys are the texts in order, and no two of them are the same.
      have hkeys := written_keys hwritten
      have hmasked : hs.map (fun f => utf16 (masked f.1)) =
          (inOrder texts).map (fun p => utf16 p.1) := by
        have hmap : hs.map (fun f => utf16 (masked f.1)) =
            (hs.map Prod.fst).map (fun k => utf16 (masked k)) := by
          rw [map_map]
          rfl
        rw [hmap, hkeys, map_map]
        exact map_congr_left (fun p _ => by
          rw [Function.comp_apply, Structured.masked_ofStr])
      rw [hkeys] at hfresh
      rw [hmasked, pairwise_map]
      have hsorted := pairwise_sortBy (fun p : Str × Str => utf16 p.1) texts
      have hdistinct := pairwise_map.mp hfresh
      refine (hsorted.and hdistinct).imp (fun hab => lt_of_le_of_ne hab.1 (fun heq => hab.2 ?_))
      rw [JsonText.utf16_injective heq]
    · rcases (hall h hh).2 with ⟨f, hf, m, t, hm, ht, heq⟩
      rw [heq] at hfields
      exact ih f hf hm ht fields' hfields
  | float => cases hn
  | unsupported => cases hn

end Acceptance

section Encodings

variable [Unicode]

/-- What the bytes of a value say. -/
structure Encodes (n : PyValue) (bytes : List UInt8) : Prop where
  read : loads bytes = some (listed n)
  ordered : KeysInOrder (listed n)
  compact : ∃ j : JsonGrammar.Value, bytes = utf8 j.text ∧ j.Compact
  again : pyCanonicalJsonBytes (listed n) = .ok bytes

omit [Unicode] in
theorem loads_serialize {n : PyValue} {text : Str} (h : serialize n = some text) :
    loads (utf8 text) = some (listed n) := by
  rcases serialize_text h with ⟨j, htext, -, hdata⟩
  have hparse := JsonGrammar.parse_text j.document
  rw [JsonGrammar.document_text, htext] at hparse
  rw [loads, Utf8.decode_eq_some.mpr rfl]
  simp only [Option.bind_eq_bind, Option.bind_some, hparse]
  rw [← hdata]
  rfl

/-- Canonical JSON is an injective encoding. Its bytes are a document without blanks that is read
    as the normalized value, with the keys of objects in order, and are had again from what is
    read. Two values have the same bytes iff they are the same up to normalization. A value is
    refused iff something in it is. -/
theorem canonical_json_exact (v : PyValue) :
    (∀ bytes, pyCanonicalJsonBytes v = .ok bytes →
      ∃ n, pyNormalize v = .ok n ∧ Encodes n bytes) ∧
    (∀ w n m bytes bytes', pyCanonicalJsonBytes v = .ok bytes → pyNormalize v = .ok n →
      pyCanonicalJsonBytes w = .ok bytes' → pyNormalize w = .ok m →
        (bytes = bytes' ↔ listed n = listed m)) ∧
    ((∃ bytes, pyCanonicalJsonBytes v = .ok bytes) ↔ ∀ u, Within u v → ¬ Offends u) := by
  refine ⟨?_, ?_, ?_⟩
  · intro bytes hbytes
    rcases pyCanonicalJsonBytes_ok.mp hbytes with ⟨n, text, hn, htext, rfl⟩
    rcases serialize_text htext with ⟨j, hj, hcompact, -⟩
    rcases pyNormalize_listed hn htext with ⟨hsame, hagain⟩
    exact ⟨n, hn,
      { read := loads_serialize htext
        ordered := keysInOrder_listed hn htext
        compact := ⟨j, by rw [hj], hcompact⟩
        again := pyCanonicalJsonBytes_ok.mpr ⟨_, text, hsame, hagain, rfl⟩ }⟩
  · intro w n m bytes bytes' hbytes hn hbytes' hm
    rcases pyCanonicalJsonBytes_ok.mp hbytes with ⟨n', text, hn', htext, rfl⟩
    rcases pyCanonicalJsonBytes_ok.mp hbytes' with ⟨m', text', hm', htext', rfl⟩
    rw [hn] at hn'
    rw [hm] at hm'
    rw [← Except.ok.inj hn'] at htext
    rw [← Except.ok.inj hm'] at htext'
    constructor
    · intro heq
      have hread := loads_serialize htext
      rw [heq, loads_serialize htext'] at hread
      exact (Option.some.inj hread).symm
    · intro heq
      have hagain := (pyNormalize_listed hn htext).2
      rw [heq, (pyNormalize_listed hm htext').2] at hagain
      rw [Option.some.inj hagain]
  · rw [← accepted_iff]
    simp only [pyCanonicalJsonBytes_ok]
    constructor
    · rintro ⟨_, n, text, hn, htext, -⟩
      exact ⟨n, text, hn, htext⟩
    · rintro ⟨n, text, hn, htext⟩
      exact ⟨_, n, text, hn, htext, rfl⟩

end Encodings

/-- The mapping `{"b": [1, True], "a": None}`. -/
def sample : PyValue :=
  .obj [(ofStr "b".toList, .arr [.num 1, .bool true]), (ofStr "a".toList, .null)]

/-- A mapping is written with its keys in order, and read again. -/
theorem canonical_json_exact_sample :
    ∃ n, @pyNormalize asciiText sample = .ok n ∧
      @Encodes asciiText n (utf8 "\x7b\"a\":null,\"b\":[1,true]\x7d".toList) :=
  (@canonical_json_exact asciiText sample).1 _ rfl

end Encoding

end Partha
