import Partha.Extraction.Naming
import Partha.Extraction.Structured
import Partha.Library.Checked
import Partha.Library.SortKeys

/-!
# What Manifests, Lockfiles and Compose Files Declare

The readers behind the three extractors of the manifest family.

A reader answers with what a text declares, or that the text is malformed: it does not decode,
or it has another structure than it should have, or a line could not be found. A lockfile of a
revision that is not supported is not malformed, and is disclosed as what it is.

Only the structure of the decoded values is checked. A name is taken as it comes, whatever
characters are in it, and the keys of a YAML mapping are taken as often as they come.

## Main definitions

* `npmDeclarations`, `pyprojectDeclarations`, `requirementsDeclarations`: What a manifest declares.
* `npmResolutions`, `poetryResolutions`: What a lockfile resolves.
* `composeResources`: What a compose file declares.
-/

namespace Partha

namespace Manifests

open Canonical Extraction Structured Checked SortKeys
open Http (Text strip)

/-- A value, unless it is missing. -/
def orMalformed {α : Type} : Option α → Except ReadError α
  | some a => .ok a
  | none => .error .malformed

/-- `value or None`. -/
def orNone (s : PyStr) : Option PyStr :=
  if s = [] then none else some s

section Manifest

/-- `_ManifestDeclaration`. -/
structure ManifestDeclaration where
  ecosystem : Ecosystem
  name : PyStr
  version : Option PyStr
  dependencyType : Str
  line : Nat

/-- `_NPM_SECTIONS`, with the type of the dependencies in each. -/
def npmSections : List (String × Str) :=
  [("dependencies", "production".toList), ("devDependencies", "development".toList),
    ("peerDependencies", "peer".toList), ("optionalDependencies", "optional".toList)]

/-- One entry of a section. Its line is that of its own key. -/
def npmEntry (lines : List (PyStr × Nat)) (dependencyType : Str) (entry : PyStr × Data) :
    Except ReadError ManifestDeclaration :=
  match entry.2 with
  | .str version => do
    let line ← orMalformed (lines.lookup entry.1)
    .ok
      { ecosystem := .npm
        name := entry.1
        version := some version
        dependencyType := dependencyType
        line := line }
  | _ => .error .malformed

/-- A section, which need not be there. -/
def npmSection (fields : List (PyStr × Data)) (lines : PyStr → List (PyStr × Nat))
    (part : String × Str) : Except ReadError (List ManifestDeclaration) :=
  match get fields part.1 with
  | none => .ok []
  | some (.obj dependencies) =>
    collect (npmEntry (lines (ofStr part.1.toList)) part.2)
      (sortBy (fun entry : PyStr × Data => points entry.1) dependencies)
  | some _ => .error .malformed

/-- `_npm_declarations`. -/
def npmDeclarations (d : Decoders) (text : Str) : Except ReadError (List ManifestDeclaration) :=
  match d.jsonLoads text with
  | .ok (.obj fields) => do
    let lines ← jsonObjectMemberLines d text
    let sections ← collect (npmSection fields lines) npmSections
    .ok sections.flatten
  | .ok _ => .error .malformed
  | .error e => .error e

variable [Text]

def PyChar.isSpace : PyChar → Bool
  | .scalar c => Text.isSpace c
  | .surrogate _ => false

/-- `str.strip`, of a decoded string. -/
def pyStrip (s : PyStr) : PyStr :=
  ((s.dropWhile PyChar.isSpace).reverse.dropWhile PyChar.isSpace).reverse

/-- A character that ends the name in a requirement. -/
def endsName : PyChar → Bool
  | .scalar c => "[<>=!~@".toList.elem c || Text.isSpace c
  | .surrogate _ => false

/-- `_python_requirement_name`, which is empty if there is none. -/
def pythonRequirementName (value : PyStr) : PyStr :=
  pyStrip (value.takeWhile (fun c => !endsName c))

/-- What a requirement declares, if it has a name. -/
def requirement (value : PyStr) (line : Nat) : Option ManifestDeclaration :=
  if pythonRequirementName value = [] then none
  else some
    { ecosystem := .pypi
      name := pythonRequirementName value
      version := orNone (pyStrip (value.drop (pythonRequirementName value).length))
      dependencyType := "production".toList
      line := line }

def asString : Data → Except ReadError PyStr
  | .str s => .ok s
  | _ => .error .malformed

/-- The requirements of an array of a project. -/
def projectRequirements (text : Str) (values : List Data) :
    Except ReadError (List ManifestDeclaration) := do
  let values ← collect asString values
  let lines ← orMalformed (tomlProjectDependencyElementLines text)
  if lines.length = values.length then
    .ok ((values.zip lines).filterMap (fun p => requirement p.1 p.2))
  else .error .malformed

/-- `_pyproject_declarations`. -/
def pyprojectDeclarations (d : Decoders) (text : Str) :
    Except ReadError (List ManifestDeclaration) := do
  let parsed ← d.tomlLoads text
  match (get parsed "project").getD (.obj []) with
  | .obj project =>
    match (get project "dependencies").getD (.arr []) with
    | .arr [] => .ok []
    | .arr values => projectRequirements text values
    | _ => .error .malformed
  | _ => .error .malformed

/-- A character that ends a line for `str.splitlines`. -/
def isLineBoundary (c : Char) : Bool :=
  [0x0A, 0x0B, 0x0C, 0x0D, 0x1C, 0x1D, 0x1E, 0x85, 0x2028, 0x2029].elem c.toNat

/-- `str.splitlines`, within a line that has begun. -/
def splitlines (current : Str) : Str → List Str
  | [] => if current = [] then [] else [current]
  | '\r' :: '\n' :: s => current :: splitlines [] s
  | c :: s =>
    if isLineBoundary c then current :: splitlines [] s else splitlines (current ++ [c]) s

/-- `re.sub(r"\s+#.*$", "", value)`, of a single line. -/
def dropComment : Str → Str
  | [] => []
  | c :: s =>
    if Text.isSpace c ∧ (s.dropWhile Text.isSpace).head? = some '#' then []
    else c :: dropComment s

/-- What a line of a requirements file declares. -/
def requirementLine (raw : Str × Nat) : Option ManifestDeclaration :=
  match strip raw.1 with
  | [] => none
  | c :: value =>
    if "#-.".toList.elem c then none
    else requirement (ofStr (strip (dropComment (c :: value)))) raw.2

/-- `_requirements_declarations`. -/
def requirementsDeclarations (text : Str) : List ManifestDeclaration :=
  ((splitlines [] text).zipIdx 1).filterMap requirementLine

/-- What a manifest declares, by the name of the file. -/
def manifestDeclarations (d : Decoders) (basename text : Str) :
    Except ReadError (List ManifestDeclaration) :=
  if basename = "package.json".toList then npmDeclarations d text
  else if basename = "pyproject.toml".toList then pyprojectDeclarations d text
  else .ok (requirementsDeclarations text)

end Manifest

section Lockfile

/-- `_Resolution`. -/
structure Resolution where
  ecosystem : Ecosystem
  name : PyStr
  version : PyStr
  entry : PyStr
  scope : Option Str
  line : Nat

/-- What a lockfile resolves, or why its revision is not supported. -/
abbrev Resolved := Except Str (List Resolution)

/-- `_DISCLOSED_LOCKFILE_FILENAMES`. -/
def disclosedLockfileFilenames : List Str :=
  ["uv.lock".toList]

def npmSegment : Str := "node_modules/".toList

/-- What follows the last `node_modules/` of an entry. -/
def afterSegment : PyStr → Option PyStr
  | [] => none
  | c :: s =>
    match afterSegment s with
    | some name => some name
    | none =>
      if npmSegment.isPrefixOf (masked (c :: s)) then some ((c :: s).drop npmSegment.length)
      else none

/-- `record.get(name) is True`. -/
def isTrue (record : List (PyStr × Data)) (name : String) : Bool :=
  match get record name with
  | some (.bool true) => true
  | _ => false

/-- `_npm_scope`. -/
def npmScope (record : List (PyStr × Data)) : Str :=
  if isTrue record "optional" then "optional".toList
  else if isTrue record "dev" || isTrue record "devOptional" then "development".toList
  else "production".toList

/-- The string of a field, unless it is empty. -/
def stringField (record : List (PyStr × Data)) (name : String) : Option PyStr :=
  match get record name with
  | some (.str s) => orNone s
  | _ => none

/-- What an entry of the `packages` resolves, if anything. -/
def npmPackage (lines : List (PyStr × Nat)) (entry : PyStr × Data) :
    Except ReadError (Option Resolution) :=
  match entry.2 with
  | .obj record =>
    match afterSegment entry.1 with
    | none => .ok none
    | some name =>
      if isTrue record "link" then .ok none
      else match orNone name, stringField record "version" with
        | some name, some version => do
          let line ← orMalformed (lines.lookup entry.1)
          .ok (some
            { ecosystem := .npm
              name := name
              version := version
              entry := entry.1
              scope := some (npmScope record)
              line := line })
        | _, _ => .ok none
  | _ => .error .malformed

def npmUnsupported : Str :=
  ("package-lock.json lockfileVersion is outside the supported set " ++
    "[2, 3] and no resolutions are claimed").toList

/-- `_npm_resolutions`. -/
def npmResolutions (d : Decoders) (text : Str) : Except ReadError Resolved :=
  match d.jsonLoads text with
  | .ok (.obj fields) =>
    match get fields "lockfileVersion" with
    | some (.int version) =>
      if version ≠ 2 ∧ version ≠ 3 then .ok (.error npmUnsupported)
      else match get fields "packages" with
        | some (.obj packages) => do
          let lines ← jsonObjectMemberLines d text
          let resolutions ← collect (npmPackage (lines (ofStr "packages".toList)))
            (sortBy (fun entry : PyStr × Data => points entry.1) packages)
          .ok (.ok (resolutions.filterMap id))
        | _ => .error .malformed
    | _ => .error .malformed
  | .ok _ => .error .malformed
  | .error e => .error e

/-- `_poetry_scope`. -/
def poetryScope (record : List (PyStr × Data)) : Option Str :=
  if isTrue record "optional" then some "optional".toList
  else if stringField record "category" = some (ofStr "dev".toList) then
    some "development".toList
  else if stringField record "category" = some (ofStr "main".toList) then
    some "production".toList
  else none

/-- What a table of the packages resolves. -/
def poetryPackage (p : Data × Nat) : Except ReadError Resolution :=
  match p.1 with
  | .obj record =>
    match stringField record "name", stringField record "version" with
    | some name, some version =>
      .ok
        { ecosystem := .pypi
          name := name
          version := version
          entry := name
          scope := poetryScope record
          line := p.2 }
    | _, _ => .error .malformed
  | _ => .error .malformed

def poetryUnsupported : Str :=
  ("poetry.lock lock-version major is outside the supported set " ++
    "['1', '2'] and no resolutions are claimed").toList

/-- Whether a version has one of the supported majors, before a dot or at the end, which can
    also be before a last line feed. -/
def supportedPoetryMajor (version : PyStr) : Bool :=
  match masked version with
  | [] => false
  | major :: rest =>
    (major = '1' || major = '2') && (rest = [] || rest = ['\n'] || rest.head? = some '.')

variable [Text]

/-- `_poetry_resolutions`. -/
def poetryResolutions (d : Decoders) (text : Str) : Except ReadError Resolved := do
  let parsed ← d.tomlLoads text
  match get parsed "metadata" with
  | some (.obj metadata) =>
    match get metadata "lock-version" with
    | some (.str version) =>
      if supportedPoetryMajor version = false then .ok (.error poetryUnsupported)
      else match (get parsed "package").getD (.arr []) with
        | .arr [] => .ok (.ok [])
        | .arr packages =>
          let lines := tomlArrayOfTablesLines "package".toList 1 true text
          if lines.length ≠ packages.length then .error .malformed
          else do
            let resolutions ← collect poetryPackage (packages.zip lines)
            .ok (.ok resolutions)
        | _ => .error .malformed
    | _ => .error .malformed
  | _ => .error .malformed

/-- What a lockfile resolves, by the name of the file, and the name of its format. -/
def lockfileResolutions (d : Decoders) (basename text : Str) :
    Except ReadError (Except Str (List Resolution × Str)) := do
  if disclosedLockfileFilenames.elem basename then
    .ok (.error (basename ++ " is recognised but not read, and no resolutions are claimed".toList))
  else if basename = "package-lock.json".toList then
    let resolved ← npmResolutions d text
    .ok (resolved.map (fun resolutions => (resolutions, "npm-package-lock".toList)))
  else
    let resolved ← poetryResolutions d text
    .ok (resolved.map (fun resolutions => (resolutions, "poetry-lock".toList)))

end Lockfile

section Compose

/-- `_Resource`. -/
structure Resource where
  resourceType : Str
  name : PyStr
  line : Nat
  image : Option PyStr
  templated : Bool

def serviceType : Str := "service".toList

/-- `COMPOSE_RESOURCE_SECTIONS`. -/
def composeResourceSections : List (PyStr × Str) :=
  [(ofStr "networks".toList, "network".toList), (ofStr "services".toList, serviceType),
    (ofStr "volumes".toList, "volume".toList)]

/-- `_scalar`. -/
def scalarOf : YamlNode → Option PyStr
  | .scalar value _ => some value
  | _ => none

/-- What `_INTERPOLATION` asks for after a dollar. -/
def opensInterpolation : Str → Bool
  | [] => false
  | c :: s => (c = '\x7b' && s.elem '\x7d') || c.isAlpha || c = '_'

/-- `_INTERPOLATION.search(value)`, after a dollar or not. -/
def interpolates (afterDollar : Bool) : Str → Bool
  | [] => false
  | c :: s => (!afterDollar && c = '$' && opensInterpolation s) || interpolates (c = '$') s

/-- The image among the entries of a service, and whether it is templated. -/
def entriesImage : List (YamlNode × YamlNode) → Except ReadError (Option PyStr × Bool)
  | [] => .ok (none, false)
  | (key, value) :: entries =>
    if scalarOf key = some (ofStr "image".toList) then
      match value with
      | .scalar image _ =>
        if interpolates false (masked image) then .ok (none, true) else .ok (orNone image, false)
      | _ => .error .malformed
    else entriesImage entries

/-- `_image`. -/
def imageOf : YamlNode → Except ReadError (Option PyStr × Bool)
  | .scalar [] _ => .ok (none, false)
  | .mapping entries _ => entriesImage entries
  | _ => .error .malformed

/-- The image of a resource, which only a service can have. -/
def resourceImage (resourceType : Str) (value : YamlNode) : Except ReadError
    (Option PyStr × Bool) :=
  if resourceType = serviceType then imageOf value else .ok (none, false)

/-- What an entry of a section declares. -/
def composeEntry (resourceType : Str) (entry : YamlNode × YamlNode) :
    Except ReadError Resource := do
  let name ← orMalformed ((scalarOf entry.1).bind orNone)
  let (image, templated) ← resourceImage resourceType entry.2
  .ok
    { resourceType := resourceType
      name := name
      line := entry.1.line + 1
      image := image
      templated := templated }

/-- What an entry of the document declares. A section can be empty, and other sections are
    passed over. -/
def composeSection (entry : YamlNode × YamlNode) : Except ReadError (List Resource) :=
  match (scalarOf entry.1).bind (fun name => composeResourceSections.lookup name) with
  | none => .ok []
  | some resourceType =>
    match entry.2 with
    | .scalar [] _ => .ok []
    | .mapping entries _ => collect (composeEntry resourceType) entries
    | _ => .error .malformed

/-- `_compose_resources`. -/
def composeResources (d : Decoders) (text : Str) : Except ReadError (List Resource) :=
  match d.yamlCompose text with
  | .error e => .error e
  | .ok none => .ok []
  | .ok (some (.mapping entries _)) => do
    let sections ← collect composeSection entries
    .ok (sortBy (fun r => toLex (codePoints r.resourceType, toLex (points r.name, r.line)))
      sections.flatten)
  | .ok (some _) => .error .malformed

end Compose

end Manifests

end Partha
