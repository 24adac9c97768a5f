import Partha.Extraction.Http
import Partha.Library.ObjectLiterals

/-!
# The Method of a Fetch

Which HTTP method is recorded of a call of `fetch`, and which one the call has.

The method is looked for in the second argument if that is an object literal. The first pair
whose key is written `method` gives it, and no other pair is looked at. A spread on the way to it
stops the search, but a shorthand, a method, an accessor and a computed key are passed over. So
are keys that only read `method` once their escape sequences are replaced.

A record is right iff what the members of the literal say, one after another, is the method of
the first such pair, or `GET` if there is none.

## Main definitions

* `fetchMethod`: The method of a call, unless it is computed.
* `visit`: What is made of a call by a name.
* `RecordsMethod`: The recorded method is the one that the object literal certainly has.
* `SaysMethod`: What the members say is the method of the first pair.

## Theorems

* `fetch_method_recorded`: The recorded method is right iff the members say it.
-/

namespace Partha

namespace FetchMethod

open Canonical Http ObjectLiterals
open JsonText (utf16)

section Definitions

/-- An argument of a call, or a comment between arguments. -/
inductive Argument where
  | object (members : List Member)
  | expression (e : Expression)
  | comment

def Argument.isComment : Argument → Bool
  | .comment => true
  | _ => false

/-- `text.strip(...)`, of some quotation marks. -/
def stripMarks (marks : Str) (text : Str) : Str :=
  ((text.dropWhile marks.elem).reverse.dropWhile marks.elem).reverse

/-- The quotation marks of string literals. -/
def quotes : Str := "'\"".toList

/-- `string_literal`. -/
def stringLiteral : Expression → Option Str
  | .string l => some (stripMarks quotes l.text)
  | .template t =>
    if t.parts.any Part.isSubstitution then none else some (stripMarks ['`'] t.text)
  | .other _ => none

/-- `leading_template_literal`. -/
def leadingTemplateLiteral : Expression → Option Str
  | .template t =>
    match t.parts with
    | .fragment text :: _ => some text
    | _ => none
  | _ => none

/-- `_FETCH_DEFAULT_METHOD` -/
def fetchDefaultMethod : Str := "get".toList

/-- The key of a pair is written `method`. -/
def readsMethod (key : Key) : Bool :=
  stripMarks quotes key.text = "method".toList

/-- The loop over the members in `fetch_method`. -/
def methodOf : List Member → Option Str
  | [] => some fetchDefaultMethod
  | .spread _ :: _ => none
  | .pair key value :: members => if readsMethod key then stringLiteral value else methodOf members
  | _ :: members => methodOf members

/-- `fetch_method`, which is `none` if the method is computed. -/
def fetchMethod : List Argument → Option Str
  | _ :: .object members :: _ => methodOf members
  | _ :: _ :: _ => none
  | _ => some fetchDefaultMethod

/-- What is made of a call. -/
inductive Outcome where
  | skipped
  | flagged (message : String)
  | destination (d : HttpDestination)

variable [Text]

/-- `emit`. -/
def emit (method : Str) (url : Argument) : Outcome :=
  match url with
  | .expression e =>
    match stringLiteral e with
    | some url =>
      match describeDestination method url with
      | some d => .destination d
      | none => .flagged "HTTP destination without an absolute http(s) URL is unsupported"
    | none =>
      match (leadingTemplateLiteral e).bind (describeLiteralPrefix method) with
      | some d => .destination d
      | none => .flagged "dynamic HTTP destination is unsupported"
  | _ => .flagged "dynamic HTTP destination is unsupported"

/-- `visit`, of a call by a name. -/
def visit (axiosNames shadowed : List Str) (name : Str) (arguments : List Argument) : Outcome :=
  let arguments := arguments.filter (fun a => !a.isComment)
  if ("fetch".toList :: axiosNames).elem name = false then .skipped
  else if shadowed.elem name then .flagged "HTTP client name is shadowed by a local binding"
  else if axiosNames.elem name then .flagged "unsupported HTTP client call form"
  else
    match fetchMethod arguments with
    | none => .flagged "computed fetch init is unsupported"
    | some method =>
      match arguments with
      | [] => .flagged "dynamic HTTP destination is unsupported"
      | url :: _ => emit method url

end Definitions

section Statements

/-- The property that the method of a fetch is read from. -/
def methodName : List Nat := utf16 "method".toList

/-- The second argument of a call. -/
def init (arguments : List Argument) : Option Argument :=
  (arguments.filter (fun a => !a.isComment))[1]?

/-- The value of the first pair whose key is written `method`. -/
def firstMethod (members : List Member) : Option Expression :=
  members.findSome? fun member =>
    match member with
    | .pair key value => if readsMethod key then some value else none
    | _ => none

/-- What is written there, or the default. -/
def writtenMethod (members : List Member) : Option Str :=
  match firstMethod members with
  | some value => stringLiteral value
  | none => some fetchDefaultMethod

variable [Text]

/-- The recorded method, which is in its canonical form, is the one that the second argument has
    however it is evaluated. -/
def RecordsMethod (arguments : List Argument) (d : HttpDestination) : Prop :=
  match init arguments with
  | none => d.method = "GET".toList
  | some (.object members) =>
    (CertainlyAbsent methodName members ∧ d.method = "GET".toList) ∨
      ∃ s, Certainly methodName members (utf16 s) ∧ normalizeMethod s = some d.method
  | some _ => False

/-- What the members of the second argument say is what is written in the first pair. -/
def SaysMethod (arguments : List Argument) : Prop :=
  ∀ members, init arguments = some (.object members) →
    match known methodName members with
    | .absent => (writtenMethod members).bind normalizeMethod = some "GET".toList
    | .text units => ∃ s, units = utf16 s ∧
        (writtenMethod members).bind normalizeMethod = normalizeMethod s
    | .unknown => False

/-- What `str.strip` and `str.upper` do with the default method. -/
class LawfulDefault : Prop where
  get : normalizeMethod fetchDefaultMethod = some "GET".toList

end Statements

section Scan

variable {method : Str} {arguments : List Argument} {d : HttpDestination}

theorem methodOf_eq {members : List Member} (h : methodOf members = some method) :
    writtenMethod members = some method := by
  induction members with
  | nil => exact h
  | cons member members ih =>
    cases member with
    | pair key value =>
      rw [methodOf] at h
      by_cases hkey : readsMethod key = true
      · rw [if_pos hkey] at h
        simp only [writtenMethod, firstMethod, List.findSome?_cons, if_pos hkey]
        exact h
      · rw [if_neg hkey] at h
        simp only [writtenMethod, firstMethod, List.findSome?_cons, if_neg hkey]
        exact ih h
    | shorthand i => exact ih h
    | method kind key => exact ih h
    | spread value => cases h
    | comment => exact ih h

/-- Where the method of a call comes from. -/
theorem fetchMethod_spec (h : fetchMethod arguments = some method) :
    (arguments[1]? = none ∧ method = fetchDefaultMethod) ∨
      ∃ members, arguments[1]? = some (.object members) ∧ writtenMethod members = some method := by
  rcases arguments with _ | ⟨url, _ | ⟨second, rest⟩⟩
  · exact .inl ⟨rfl, (Option.some.inj h).symm⟩
  · exact .inl ⟨rfl, (Option.some.inj h).symm⟩
  · cases second with
    | object members => exact .inr ⟨members, rfl, methodOf_eq h⟩
    | expression e => cases h
    | comment => cases h

variable [Text]

theorem describeDestination_method {url : Str} (h : describeDestination method url = some d) :
    normalizeMethod method = some d.method := by
  rcases Option.bind_eq_some_iff.mp h with ⟨m, hm, h⟩
  rcases Option.bind_eq_some_iff.mp h with ⟨_, -, h⟩
  rw [hm, ← Option.some.inj h]

theorem describeLiteralPrefix_method {literal : Str}
    (h : describeLiteralPrefix method literal = some d) :
    normalizeMethod method = some d.method := by
  rcases Option.bind_eq_some_iff.mp h with ⟨m, hm, h⟩
  rcases Option.bind_eq_some_iff.mp h with ⟨_, -, h⟩
  split at h
  · cases h
  · rw [hm, ← Option.some.inj h]

/-- A record has the method that was found, in its canonical form. -/
theorem emit_method {url : Argument} (h : emit method url = .destination d) :
    normalizeMethod method = some d.method := by
  cases url with
  | object members => cases h
  | comment => cases h
  | expression e =>
    rw [emit] at h
    split at h
    · split at h
      · rename_i hd
        rw [← Outcome.destination.inj h]
        exact describeDestination_method hd
      · cases h
    · split at h
      · rename_i hd
        rcases Option.bind_eq_some_iff.mp hd with ⟨_, -, hd⟩
        rw [← Outcome.destination.inj h]
        exact describeLiteralPrefix_method hd
      · cases h

/-- What is recorded of a call is of a method that was found. -/
theorem visit_method {axiosNames shadowed : List Str} {name : Str}
    (h : visit axiosNames shadowed name arguments = .destination d) :
    ∃ method, fetchMethod (arguments.filter (fun a => !a.isComment)) = some method ∧
      normalizeMethod method = some d.method := by
  rw [visit] at h
  split at h
  · cases h
  split at h
  · cases h
  split at h
  · cases h
  split at h
  · cases h
  · rename_i method hmethod
    refine ⟨method, hmethod, ?_⟩
    split at h
    · cases h
    · exact emit_method h

end Scan

section Records

theorem methodName_plain : ¬ IsNumeral methodName := by
  rintro (⟨n, rest, hname, -, hhigh⟩ | hname)
  · rw [← (List.cons.inj hname).1] at hhigh
    exact absurd hhigh (by decide)
  · exact absurd hname (by decide)

variable [Text]

/-- Of an object literal, the record is right iff the members say so. -/
theorem records_object {members : List Member} {m : Str}
    (h : (writtenMethod members).bind normalizeMethod = some m) :
    ((CertainlyAbsent methodName members ∧ m = "GET".toList) ∨
      ∃ s, Certainly methodName members (utf16 s) ∧ normalizeMethod s = some m) ↔
    match known methodName members with
    | .absent => (writtenMethod members).bind normalizeMethod = some "GET".toList
    | .text units => ∃ s, units = utf16 s ∧
        (writtenMethod members).bind normalizeMethod = normalizeMethod s
    | .unknown => False := by
  simp only [← known_absent_iff methodName_plain, ← known_text_iff methodName_plain, h]
  cases hknown : known methodName members with
  | absent =>
    simp
  | text units =>
    simp only [reduceCtorEq, false_and, false_or, Known.text.injEq]
    exact exists_congr (fun s => and_congr_right (fun _ => eq_comm))
  | unknown =>
    simp

/-- The recorded method of a fetch is the one that JavaScript evaluates iff the members of its
    second argument say what is written in the first pair. -/
theorem fetch_method_recorded [LawfulDefault] {axiosNames shadowed : List Str} {name : Str}
    {arguments : List Argument} {d : HttpDestination}
    (h : visit axiosNames shadowed name arguments = .destination d) :
    RecordsMethod arguments d ↔ SaysMethod arguments := by
  rcases visit_method h with ⟨method, hmethod, hd⟩
  rw [RecordsMethod, SaysMethod, init]
  rcases fetchMethod_spec hmethod with ⟨hinit, hdefault⟩ | ⟨members, hinit, hwritten⟩
  · rw [hinit]
    refine iff_of_true ?_ (fun _ h => by cases h)
    rw [hdefault, LawfulDefault.get] at hd
    exact (Option.some.inj hd).symm
  · rw [hinit]
    have hrecorded : (writtenMethod members).bind normalizeMethod = some d.method := by
      rw [hwritten, Option.bind_some, hd]
    refine (records_object hrecorded).trans ⟨fun hsays members' heq => ?_, fun hsays => ?_⟩
    · rw [← Argument.object.inj (Option.some.inj heq)]
      exact hsays
    · exact hsays members rfl

end Records

/-- A string between quotation marks. -/
def literal (s : String) (h : (unescape (fun c => c = '"' ∨ c = '\n' ∨ c = '\r') .plain
    s.toList).isSome) : StringLiteral where
  mark := '"'
  body := s.toList
  isMark := Or.inr rfl
  wellFormed := h

/-- A name as a key. -/
def named (s : String) (h : (unescape (fun _ => false) .plain s.toList).isSome) : Identifier where
  text := s.toList
  wellFormed := h

instance : @LawfulDefault asciiUrls :=
  @LawfulDefault.mk asciiUrls (by decide)

/-- The call `fetch("https://api.h/", { mode: m, method: "post" })`. -/
def postCall : List Argument :=
  [.expression (.string (literal "https://api.h/" (by decide))),
    .object [.pair (.identifier (named "mode" (by decide))) (.other "m".toList),
      .pair (.identifier (named "method" (by decide))) (.string (literal "post" (by decide)))]]

/-- The call `fetch("https://api.h/", { method })`. -/
def shorthandCall : List Argument :=
  [.expression (.string (literal "https://api.h/" (by decide))),
    .object [.shorthand (named "method" (by decide))]]

/-- A record of each of the two calls. -/
def recorded (method : String) : HttpDestination :=
  { method := method.toList, origin := "https://api.h".toList, path := "/".toList }

/-- A literal method in lower case, after another member. -/
theorem fetch_method_recorded_post :
    @visit asciiUrls [] [] "fetch".toList postCall = .destination (recorded "POST") ∧
      @RecordsMethod asciiUrls postCall (recorded "POST") := by
  have hvisit : @visit asciiUrls [] [] "fetch".toList postCall =
      .destination (recorded "POST") := rfl
  refine ⟨hvisit, (@fetch_method_recorded asciiUrls _ _ _ _ _ _ hvisit).mpr ?_⟩
  intro members hinit
  rw [← Argument.object.inj (Option.some.inj hinit)]
  exact ⟨"post".toList, by decide, by decide⟩

/-- A shorthand is passed over, and the default is recorded. -/
theorem fetch_method_shorthand :
    ¬ ∀ arguments d, @visit asciiUrls [] [] "fetch".toList arguments = .destination d →
      @RecordsMethod asciiUrls arguments d := by
  intro h
  have hunknown : known methodName [.shorthand (named "method" (by decide))] = .unknown := by
    decide
  rcases h shorthandCall (recorded "GET") rfl with ⟨habsent, -⟩ | ⟨s, hcertain, -⟩
  · rw [← known_absent_iff methodName_plain, hunknown] at habsent
    cases habsent
  · rw [← known_text_iff methodName_plain, hunknown] at hcertain
    cases hcertain

end FetchMethod

end Partha
