import Mathlib.Algebra.Ring.Int.Defs
import Partha.Library.Checked
import Partha.Library.JsonText
import Partha.Library.Ordering

/-!
# Canonical JSON

Content that is hashed is first normalized and then serialized.

`normalize` puts every string into Unicode normal form C and refuses what has
no exact JSON form: floats, integers beyond the exact range, values of other
types, and objects two of whose keys become the same. A mapping has no order of
its own. A normalized one is listed in the order in which it is serialized, by
the UTF-16 code units of its keys, so two normalized mappings are equal as
mappings exactly when they are equal as lists.

Serialization loses nothing: `text_injective` reads a text back in one way only.
Together with `normalize_idem` this makes the bytes of a value as good as the
value up to normalization.

Normal form C itself comes with the platform. `Unicode` says what is used of
it: it is idempotent, leaves ASCII alone, makes no text empty, and does not
reach across the few separators that paths and identifiers are made with.

## Main definitions

* `Value`: The values that reach the canonical functions.
* `normalize`: `_normalize`.
* `text`: The serialization of a normalized value.
* `canonicalJsonBytes`: `canonical_json_bytes`.

## Theorems

* `normalizeItems_eq`, `normalizeFields_ok`: Arrays and objects, item by item.
* `normalize_keyed`: An object whose properties are listed in order.
* `normalize_idem`: Normalizing twice is normalizing once.
* `text_injective`: No two values have the same text.
-/

namespace Partha

namespace Canonical

open Checked
open JsonText (quote decimal join utf8 utf16)
open List

/-- A Python string. A lone surrogate is not a character. -/
abbrev Str := List Char

/-- A value as the canonical functions see it. -/
inductive Value where
  | null
  | bool (b : Bool)
  | num (i : Int)
  | str (s : Str)
  | arr (items : List Value)
  | obj (fields : List (Str × Value))
  | float
  | unsupported

/-- The exceptions `CanonicalizationError` and `PathEscapeError`, with the data
    that their messages name. -/
inductive CanonicalError where
  | canonicalization (message : String)
  | keysCollide (context : String) (key : Str)
  | arrayUndeclared (context : String) (key : Option Str)
  | inconsistentEdge (field : String) (subject predicate object : Str)
  | pathEscape (message : String)
  deriving DecidableEq

/-- The characters that paths, keys and identifiers are assembled with. -/
def separators : List Char :=
  ['/', '\\', ':', '@', Char.ofNat 0x1f]

/-- Text in ASCII. -/
def Ascii (s : Str) : Prop :=
  ∀ c ∈ s, c.toNat < 128

instance (s : Str) : Decidable (Ascii s) :=
  List.decidableBAll (fun c : Char => c.toNat < 128) s

/-- What is used of `unicodedata.normalize("NFC", _)` and `str.isalpha`. -/
class Unicode where
  nfc : Str → Str
  isAlpha : Char → Bool
  nfc_nfc : ∀ s, nfc (nfc s) = nfc s
  nfc_ascii : ∀ s : Str, Ascii s → nfc s = s
  nfc_ne_nil : ∀ s : Str, s ≠ [] → nfc s ≠ []
  nfc_append : ∀ (s t : Str), ∀ c ∈ separators, nfc (s ++ c :: t) = nfc s ++ c :: nfc t
  mem_nfc : ∀ (s : Str), ∀ c ∈ separators, (c ∈ nfc s ↔ c ∈ s)

export Unicode (nfc isAlpha nfc_nfc nfc_ascii nfc_ne_nil nfc_append mem_nfc)

/-- What the two functions do on ASCII text. -/
@[reducible]
def asciiText : Unicode :=
  { nfc := fun s => s
    isAlpha := Char.isAlpha
    nfc_nfc := fun _ => rfl
    nfc_ascii := fun _ _ => rfl
    nfc_ne_nil := fun _ h => h
    nfc_append := fun _ _ _ _ => rfl
    mem_nfc := fun _ _ _ => Iff.rfl }

section Definitions

variable [Unicode]

/-- The integers that are exact in JSON and in IEEE-754. -/
def ExactInteger (i : Int) : Prop :=
  -(2 ^ 53) + 1 ≤ i ∧ i ≤ 2 ^ 53 - 1

instance (i : Int) : Decidable (ExactInteger i) :=
  inferInstanceAs (Decidable (_ ∧ _))

/-- The order in which the properties of an object are serialized. -/
def KeyLe (f g : Str × Value) : Prop :=
  utf16 f.1 ≤ utf16 g.1

instance : DecidableRel KeyLe :=
  fun f g => inferInstanceAs (Decidable (utf16 f.1 ≤ utf16 g.1))

def sortKeys (fields : List (Str × Value)) : List (Str × Value) :=
  fields.insertionSort KeyLe

mutual

/-- `_normalize`. -/
def normalize : Value → Except CanonicalError Value
  | .null => .ok .null
  | .bool b => .ok (.bool b)
  | .num i =>
    if ExactInteger i then .ok (.num i)
    else .error (.canonicalization
      "integers outside the exact JSON/IEEE-754 range are not permitted")
  | .str s => .ok (.str (nfc s))
  | .arr items => do
      let items ← normalizeItems items
      .ok (.arr items)
  | .obj fields => do
      let fields ← normalizeFields [] fields
      .ok (.obj (sortKeys fields))
  | .float => .error (.canonicalization "floats are not permitted in canonical content")
  | .unsupported => .error (.canonicalization "unsupported type in canonical content")

def normalizeItems : List Value → Except CanonicalError (List Value)
  | [] => .ok []
  | v :: items => do
      let v ← normalize v
      let items ← normalizeItems items
      .ok (v :: items)

/-- The properties of an object, of which `seen` were normalized before. -/
def normalizeFields (seen : List Str) :
    List (Str × Value) → Except CanonicalError (List (Str × Value))
  | [] => .ok []
  | (key, v) :: fields =>
    if nfc key ∈ seen then .error (.keysCollide "object" (nfc key))
    else do
      let v ← normalize v
      let fields ← normalizeFields (nfc key :: seen) fields
      .ok ((nfc key, v) :: fields)

end

end Definitions

mutual

/-- `serialize`. A float or an unsupported value has not passed `normalize`, so
    nothing is ever written for them. -/
def text : Value → Str
  | .null => "null".toList
  | .bool true => "true".toList
  | .bool false => "false".toList
  | .num i => decimal i
  | .str s => quote s
  | .arr items => '[' :: (join (textItems items) ++ [']'])
  | .obj fields => '\x7b' :: (join (textFields fields) ++ ['\x7d'])
  | .float => ['F']
  | .unsupported => ['U']

def textItems : List Value → List Str
  | [] => []
  | v :: items => text v :: textItems items

def textFields : List (Str × Value) → List Str
  | [] => []
  | (key, v) :: fields => (quote key ++ ':' :: text v) :: textFields fields

end

/-- The bytes by which records are told apart and sorted. -/
def encoded (v : Value) : List Nat :=
  JsonText.utf8Key (text v)

/-- `canonical_json_bytes`. -/
def canonicalJsonBytes [Unicode] (v : Value) : Except CanonicalError (List UInt8) := do
  let v ← normalize v
  .ok (utf8 (text v))

section Induction

/-- Induction over a value, with the hypothesis for all items and all fields. -/
theorem Value.rec_mem {P : Value → Prop} (null : P .null) (bool : ∀ b, P (.bool b))
    (num : ∀ i, P (.num i)) (str : ∀ s, P (.str s))
    (arr : ∀ items, (∀ v ∈ items, P v) → P (.arr items))
    (obj : ∀ fields : List (Str × Value), (∀ f ∈ fields, P f.2) → P (.obj fields))
    (float : P .float) (unsupported : P .unsupported) (v : Value) : P v := by
  refine @Value.rec P (fun items => ∀ v ∈ items, P v) (fun fields => ∀ f ∈ fields, P f.2)
    (fun f => P f.2) null bool num str arr obj float unsupported ?_ ?_ ?_ ?_ ?_ v
  · exact fun v hv => absurd hv not_mem_nil
  · intro v items hv hitems w hw
    rcases mem_cons.mp hw with rfl | hw
    · exact hv
    · exact hitems w hw
  · exact fun f hf => absurd hf not_mem_nil
  · intro f fields hf hfields g hg
    rcases mem_cons.mp hg with rfl | hg
    · exact hf
    · exact hfields g hg
  · exact fun _ _ hv => hv

end Induction

section Order

instance : Std.Total KeyLe :=
  ⟨fun f g => le_total (utf16 f.1) (utf16 g.1)⟩

instance : IsTrans (Str × Value) KeyLe :=
  ⟨fun _ _ _ h h' => le_trans h h'⟩

theorem sortKeys_perm (fields : List (Str × Value)) : (sortKeys fields).Perm fields :=
  perm_insertionSort KeyLe fields

theorem sortKeys_sortKeys (fields : List (Str × Value)) :
    sortKeys (sortKeys fields) = sortKeys fields :=
  (pairwise_insertionSort KeyLe fields).insertionSort_eq

/-- Property names in ASCII, listed in the order of serialization. -/
def Keyed (names : List Str) : Prop :=
  (∀ k ∈ names, Ascii k) ∧ names.Pairwise (fun a b => utf16 a < utf16 b)

instance (names : List Str) : Decidable (Keyed names) :=
  inferInstanceAs (Decidable (_ ∧ _))

theorem Keyed.sublist {names names' : List Str} (h : Keyed names) (hs : names'.Sublist names) :
    Keyed names' :=
  ⟨fun k hk => h.1 k (hs.subset hk), h.2.sublist hs⟩

end Order

section Normalization

variable [Unicode]

theorem normalizeItems_eq (items : List Value) :
    normalizeItems items = collect normalize items := by
  induction items with
  | nil => rfl
  | cons v items ih => rw [normalizeItems, collect, ih]

variable {fields gs : List (Str × Value)} {w : Value}

/-- The properties of a normalized object: no two keys are the same, and each
    value is the normalized one. -/
theorem normalizeFields_ok {seen : List Str} :
    normalizeFields seen fields = .ok gs ↔
      ((fields.map (fun f => nfc f.1)).Nodup ∧ ∀ f ∈ fields, nfc f.1 ∉ seen) ∧
      List.Forall₂ (fun f g => g.1 = nfc f.1 ∧ normalize f.2 = .ok g.2) fields gs := by
  induction fields generalizing seen gs with
  | nil =>
    rw [normalizeFields, List.forall₂_nil_left_iff]
    constructor
    · intro h
      exact ⟨⟨nodup_nil, fun f hf => absurd hf not_mem_nil⟩, (Except.ok.inj h).symm⟩
    · rintro ⟨_, rfl⟩
      rfl
  | cons f fields ih =>
    rcases f with ⟨key, v⟩
    unfold normalizeFields
    by_cases hseen : nfc key ∈ seen
    · rw [if_pos hseen]
      constructor
      · intro h
        cases h
      · exact fun h => absurd hseen (h.1.2 _ mem_cons_self)
    · rw [if_neg hseen, bind_eq_ok, map_cons, nodup_cons]
      constructor
      · rintro ⟨w, hw, h⟩
        rcases bind_eq_ok.mp h with ⟨hs, hhs, h⟩
        cases h
        rcases ih.mp hhs with ⟨⟨hnodup, hfresh⟩, hall⟩
        refine ⟨⟨⟨?_, hnodup⟩, ?_⟩, List.Forall₂.cons ⟨rfl, hw⟩ hall⟩
        · intro hmem
          rcases mem_map.mp hmem with ⟨g, hg, hkey⟩
          exact hfresh g hg (by rw [hkey]; exact mem_cons_self)
        · intro g hg
          rcases mem_cons.mp hg with rfl | hg
          · exact hseen
          · exact fun h => hfresh g hg (mem_cons_of_mem _ h)
      · rintro ⟨⟨⟨hnot, hnodup⟩, hfresh⟩, hall⟩
        cases hall with
        | @cons _ g _ hs hg hall =>
          refine ⟨g.2, hg.2, bind_eq_ok.mpr ⟨hs, ih.mpr ⟨⟨hnodup, ?_⟩, hall⟩, ?_⟩⟩
          · intro f hf hmem
            rcases mem_cons.mp hmem with hkey | hmem
            · exact hnot (mem_map.mpr ⟨f, hf, hkey⟩)
            · exact hfresh f (mem_cons_of_mem _ hf) hmem
          · rw [← hg.1]

theorem normalizeFields_keys
    (h : List.Forall₂ (fun f g => g.1 = nfc f.1 ∧ normalize f.2 = .ok g.2) fields gs) :
    gs.map Prod.fst = fields.map (fun f => nfc f.1) := by
  induction h with
  | nil => rfl
  | cons hg _ ih => rw [map_cons, map_cons, hg.1, ih]

theorem normalize_arr {items : List Value} :
    normalize (.arr items) = .ok w ↔ ∃ ws, collect normalize items = .ok ws ∧ w = .arr ws := by
  rw [normalize, bind_eq_ok, normalizeItems_eq]
  constructor
  · rintro ⟨ws, hws, h⟩
    exact ⟨ws, hws, (Except.ok.inj h).symm⟩
  · rintro ⟨ws, hws, rfl⟩
    exact ⟨ws, hws, rfl⟩

theorem normalize_obj :
    normalize (.obj fields) = .ok w ↔
      ∃ gs, normalizeFields [] fields = .ok gs ∧ w = .obj (sortKeys gs) := by
  rw [normalize, bind_eq_ok]
  constructor
  · rintro ⟨gs, hgs, h⟩
    exact ⟨gs, hgs, (Except.ok.inj h).symm⟩
  · rintro ⟨gs, hgs, rfl⟩
    exact ⟨gs, hgs, rfl⟩

/-- Fields with normalized keys and values, no two with one key, are normalized. -/
theorem normalizeFields_self (hkeys : (fields.map Prod.fst).Nodup)
    (hnfc : ∀ f ∈ fields, nfc f.1 = f.1) (hvalues : ∀ f ∈ fields, normalize f.2 = .ok f.2) :
    normalizeFields [] fields = .ok fields := by
  have hmap : fields.map (fun f => nfc f.1) = fields.map Prod.fst :=
    map_congr_left hnfc
  refine normalizeFields_ok.mpr ⟨⟨by rw [hmap]; exact hkeys, fun _ _ => not_mem_nil⟩, ?_⟩
  exact List.forall₂_same.mpr (fun f hf => ⟨(hnfc f hf).symm, hvalues f hf⟩)

/-- An object with such property names is normalized value by value. -/
theorem normalize_keyed (hk : Keyed (fields.map Prod.fst)) : normalize (.obj fields) = .ok w ↔
      ∃ gs, List.Forall₂ (fun f g => g.1 = f.1 ∧ normalize f.2 = .ok g.2) fields gs ∧
        w = .obj gs := by
  have hnfc : ∀ f ∈ fields, nfc f.1 = f.1 := fun f hf =>
    nfc_ascii f.1 (hk.1 f.1 (mem_map_of_mem hf))
  have hnodup : (fields.map Prod.fst).Nodup :=
    hk.2.imp (fun h e => by rw [e] at h; exact lt_irrefl _ h)
  have hmap : fields.map (fun f => nfc f.1) = fields.map Prod.fst := map_congr_left hnfc
  have hsorted : ∀ gs : List (Str × Value), gs.map Prod.fst = fields.map Prod.fst →
      sortKeys gs = gs := by
    intro gs hgs
    refine List.Pairwise.insertionSort_eq ?_
    have hpair := hk.2
    rw [← hgs, pairwise_map] at hpair
    exact hpair.imp (fun h => le_of_lt h)
  rw [normalize_obj]
  constructor
  · rintro ⟨gs, hgs, rfl⟩
    rcases normalizeFields_ok.mp hgs with ⟨_, hall⟩
    have hkeys := normalizeFields_keys hall
    rw [hmap] at hkeys
    refine ⟨gs, ?_, by rw [hsorted gs hkeys]⟩
    exact ((List.forall₂_and_left _ _).mpr ⟨hnfc, hall⟩).imp (fun f g h => ⟨h.2.1.trans h.1, h.2.2⟩)
  · rintro ⟨gs, hall, rfl⟩
    have hall' : List.Forall₂ (fun f g => g.1 = nfc f.1 ∧ normalize f.2 = .ok g.2) fields gs :=
      ((List.forall₂_and_left _ _).mpr ⟨hnfc, hall⟩).imp
        (fun f g h => ⟨h.2.1.trans h.1.symm, h.2.2⟩)
    have hkeys := normalizeFields_keys hall'
    rw [hmap] at hkeys
    refine ⟨gs, normalizeFields_ok.mpr ⟨⟨?_, fun _ _ => not_mem_nil⟩, hall'⟩,
      by rw [hsorted gs hkeys]⟩
    rw [hmap]
    exact hnodup

theorem normalize_idem {v : Value} (h : normalize v = .ok w) : normalize w = .ok w := by
  induction v using Value.rec_mem generalizing w with
  | null | bool b =>
    cases h
    rfl
  | num i =>
    rw [normalize] at h
    by_cases hi : ExactInteger i
    · rw [if_pos hi] at h
      rw [← Except.ok.inj h, normalize, if_pos hi]
    · rw [if_neg hi] at h
      cases h
  | str s =>
    rw [normalize] at h
    rw [← Except.ok.inj h, normalize, nfc_nfc]
  | arr items ih =>
    rcases normalize_arr.mp h with ⟨ws, hws, rfl⟩
    refine normalize_arr.mpr ⟨ws, collect_self (fun u hu => ?_), rfl⟩
    rcases (mem_collect hws).mp hu with ⟨v, hv, hvu⟩
    exact ih v hv hvu
  | obj fields ih =>
    rcases normalize_obj.mp h with ⟨gs, hgs, rfl⟩
    rcases normalizeFields_ok.mp hgs with ⟨⟨hnodup, _⟩, hall⟩
    have hperm := sortKeys_perm gs
    refine normalize_obj.mpr ⟨sortKeys gs, normalizeFields_self ?_ ?_ ?_,
      by rw [sortKeys_sortKeys]⟩
    · rw [(hperm.map Prod.fst).nodup_iff, normalizeFields_keys hall]
      exact hnodup
    · intro g hg
      rcases forall₂_mem_right hall (hperm.mem_iff.mp hg) with ⟨f, _, hkey, _⟩
      rw [hkey, nfc_nfc]
    · intro g hg
      rcases forall₂_mem_right hall (hperm.mem_iff.mp hg) with ⟨f, hf, _, hval⟩
      exact ih f hf hval
  | float => cases h
  | unsupported => cases h

end Normalization

section Texts

open JsonText (NoDigit noDigit_cons)

theorem textItems_eq (items : List Value) : textItems items = items.map text := by
  induction items with
  | nil => rfl
  | cons v items ih => rw [textItems, ih, map_cons]

def textField (f : Str × Value) : Str :=
  quote f.1 ++ ':' :: text f.2

theorem textFields_eq (fields : List (Str × Value)) :
    textFields fields = fields.map textField := by
  induction fields with
  | nil => rfl
  | cons f fields ih => rw [textFields, ih, map_cons, textField]

/-- The constructor of a value, as far as the first character shows it. -/
def kind : Value → Nat
  | .null => 0
  | .bool true => 1
  | .bool false => 2
  | .num _ => 3
  | .str _ => 4
  | .arr _ => 5
  | .obj _ => 6
  | .float => 7
  | .unsupported => 8

/-- The kind of the values whose text starts with a character. -/
def kindOf (c : Char) : Nat :=
  if c.isDigit = true ∨ c = '-' then 3
  else if c = 'n' then 0
  else if c = 't' then 1
  else if c = 'f' then 2
  else if c = '"' then 4
  else if c = '[' then 5
  else if c = '\x7b' then 6
  else if c = 'F' then 7
  else if c = 'U' then 8
  else 9

theorem text_kind (v : Value) (r : Str) : ∃ c t, text v ++ r = c :: t ∧ kindOf c = kind v := by
  unfold text
  split
  case h_4 i =>
    rcases JsonText.decimal_head i r with ⟨c, t, h, hc⟩
    exact ⟨c, t, h, if_pos hc⟩
  all_goals exact ⟨_, _, rfl, rfl⟩

variable {v v' : Value} {r r' : Str}

theorem text_kind_eq (h : text v ++ r = text v' ++ r') : kind v = kind v' := by
  rcases text_kind v r with ⟨c, t, hc, hk⟩
  rcases text_kind v' r' with ⟨c', t', hc', hk'⟩
  rw [hc, hc', List.cons.injEq] at h
  rw [← hk, ← hk', h.1]

theorem kind_lt (v : Value) : kind v < 9 := by
  unfold kind
  split
  all_goals decide

/-- No value starts with a closing bracket. -/
theorem text_ne_close {close : Char} (hclose : kindOf close = 9) (v : Value) (r t : Str) :
    text v ++ r ≠ close :: t := by
  intro h
  rcases text_kind v r with ⟨c, u, hc, hkind⟩
  rw [hc, List.cons.injEq] at h
  rw [h.1, hclose] at hkind
  have := kind_lt v
  omega

theorem textField_ne_close (f : Str × Value) (r t : Str) : textField f ++ r ≠ '\x7d' :: t := by
  intro h
  cases h

/-- A text followed by anything but a digit is read in one way. -/
theorem text_append_inj (hr : NoDigit r) (hr' : NoDigit r') (h : text v ++ r = text v' ++ r') :
    v = v' ∧ r = r' := by
  have hkind := text_kind_eq h
  induction v using Value.rec_mem generalizing v' r r' with
  -- The first character tells the kinds apart, so two texts of different kinds do not begin alike.
  | null =>
    cases v' with
    | null => exact ⟨rfl, append_cancel_left h⟩
    | bool b => cases b <;> cases hkind
    | _ => cases hkind
  | bool b =>
    cases v' with
    | bool b' =>
      cases b <;> cases b' <;> first
        | exact ⟨rfl, append_cancel_left h⟩
        | cases hkind
    | _ => cases b <;> cases hkind
  | num i =>
    cases v' with
    | num j =>
      rcases JsonText.decimal_append_inj hr hr' h with ⟨hij, hrest⟩
      exact ⟨by rw [hij], hrest⟩
    | bool b => cases b <;> cases hkind
    | _ => cases hkind
  | str s =>
    cases v' with
    | str s' =>
      rcases JsonText.quote_append_inj h with ⟨hs, hrest⟩
      exact ⟨by rw [hs], hrest⟩
    | bool b => cases b <;> cases hkind
    | _ => cases hkind
  -- The items are separated by commas, and none of them begins with the closing bracket.
  | arr items ih =>
    cases v' with
    | arr items' =>
      simp only [text, textItems_eq, cons_append, append_assoc, nil_append,
        List.cons.injEq, true_and] at h
      have hitems := JsonText.join_append_inj (by decide) (by decide)
        (text_ne_close (by decide))
        (fun v hv w t t' ht ht' e => ih v hv ht ht' e (text_kind_eq e)) h
      exact ⟨by rw [hitems.1], hitems.2⟩
    | bool b => cases b <;> cases hkind
    | _ => cases hkind
  | obj fields ih =>
    cases v' with
    | obj fields' =>
      simp only [text, textFields_eq, cons_append, append_assoc, nil_append,
        List.cons.injEq, true_and] at h
      have hfields := JsonText.join_append_inj (by decide) (by decide) textField_ne_close
        (fun f hf g t t' ht ht' e => by
          unfold textField at e
          simp only [append_assoc, cons_append] at e
          rcases JsonText.quote_append_inj e with ⟨hkey, e⟩
          have e := (List.cons.inj e).2
          have hvalue := ih f hf ht ht' e (text_kind_eq e)
          exact ⟨Prod.ext hkey hvalue.1, hvalue.2⟩) h
      exact ⟨by rw [hfields.1], hfields.2⟩
    | bool b => cases b <;> cases hkind
    | _ => cases hkind
  | float =>
    cases v' with
    | float => exact ⟨rfl, append_cancel_left h⟩
    | bool b => cases b <;> cases hkind
    | _ => cases hkind
  | unsupported =>
    cases v' with
    | unsupported => exact ⟨rfl, append_cancel_left h⟩
    | bool b => cases b <;> cases hkind
    | _ => cases hkind

theorem text_injective : Function.Injective text := by
  intro v v' h
  have hend := JsonText.noDigit_nil
  have happend : text v ++ [] = text v' ++ [] := by rw [h]
  exact (text_append_inj hend hend happend).1

theorem encoded_injective : Function.Injective encoded :=
  fun _ _ h => text_injective (JsonText.utf8Key_injective h)

end Texts

end Canonical

end Partha
