import Partha.Canonical.Paths

/-!
# Names of Packages

How a module specifier names a package, and the stable key of a dependency.

The rules are shared by the resolver, which looks for a dependency node, and by
the readers of a snapshot, which ask whether an unresolved import is a gap. What
they need of the running interpreter is taken as given: the modules of its
standard library, its builtin names, and `str.lower`.

## Main definitions

* `Interpreter`: What is taken from the running interpreter.
* `packageRoot`: `package_root`.
* `dependencyStableKey`: `dependency_stable_key`.
-/

namespace Partha

open Canonical

/-- The interpreter that runs the program. -/
class Interpreter where
  stdlibModuleNames : List Str
  builtinNames : List Str
  lower : Str → Str

export Interpreter (lower)

/-- An interpreter with some of its modules and builtins, on ASCII text. -/
@[reducible]
def cpython : Interpreter :=
  { stdlibModuleNames := ["json", "os", "pathlib", "re", "sys", "typing"].map String.toList
    builtinNames := ["dict", "len", "list", "print", "str"].map String.toList
    lower := List.map Char.toLower }

namespace Extraction

/-- A language-neutral test on the end of a path. -/
def endsWith (s suffix : Str) : Bool :=
  suffix.isSuffixOf s

def startsWith (s start : Str) : Bool :=
  start.isPrefixOf s

/-- A path of a Python file, which is what its name says. -/
def isPython (path : Str) : Bool :=
  endsWith path ".py".toList

/-- `s.split(c, 1)[0]`. -/
def before (c : Char) (s : Str) : Str :=
  s.takeWhile (fun d => d ≠ c)

/-- `package_root`: the package a module specifier would be published under. -/
def packageRoot (specifier sourcePath : Str) : Str :=
  if isPython sourcePath then before '.' specifier
  else if startsWith specifier ['@'] then joinWith '/' ((splitOn '/' specifier).take 2)
  else before '/' specifier

/-- `re.sub(r"[-_.]+", "-", name)`. `run` is whether a run has begun. -/
def collapseSeparators (run : Bool) : Str → Str
  | [] => []
  | c :: s =>
    if c = '-' ∨ c = '_' ∨ c = '.' then
      if run then collapseSeparators true s else '-' :: collapseSeparators true s
    else c :: collapseSeparators false s

inductive Ecosystem where
  | pypi
  | npm
  deriving DecidableEq, Repr

def Ecosystem.name : Ecosystem → Str
  | .pypi => "pypi".toList
  | .npm => "npm".toList

/-- The ecosystem that the extension of a source file speaks of. -/
def ecosystemOf (sourcePath : Str) : Ecosystem :=
  if isPython sourcePath then .pypi else .npm

variable [Unicode] [Interpreter]

/-- `dependency_stable_key`. -/
def dependencyStableKey (ecosystem : Ecosystem) (name : Str) : Except CanonicalError Str :=
  let folded := match ecosystem with
    | .pypi => lower (collapseSeparators false name)
    | .npm => name
  normalizeStableKey "dependency".toList ("dep:".toList ++ ecosystem.name ++ ':' :: folded)

end Extraction

end Partha
