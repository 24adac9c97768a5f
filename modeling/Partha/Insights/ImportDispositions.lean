import Partha.Extraction.Naming

/-!
# Dispositions of Imports

What an unresolved module specifier is about, judged by its spelling and by the
files and dependencies of the snapshot: the language or a declared package, an
asset that is no code, or a file of the repository that was not linked.

All of it is a function of the specifier, the path of the importing file and
three sets, so the order in which the sets were read has no part in it. Deriving
the stable key of a dependency can fail, and the failure is passed on.

## Main definitions

* `isRecognizedExternalImport`: `is_recognized_external_import`.
* `isNonCodeAssetImport`: `is_non_code_asset_import`.
* `resolvesToInRepoFile`: `resolves_to_in_repo_file`.
-/

namespace Partha

namespace Insights

open Canonical Extraction

/-- `NODE_BUILTIN_MODULES`. -/
def nodeBuiltinModules : List Str :=
  ["assert", "async_hooks", "buffer", "child_process", "cluster", "console", "constants",
    "crypto", "dgram", "diagnostics_channel", "dns", "domain", "events", "fs", "http", "http2",
    "https", "inspector", "module", "net", "os", "path", "perf_hooks", "process", "punycode",
    "querystring", "readline", "repl", "stream", "string_decoder", "test", "timers", "tls",
    "trace_events", "tty", "url", "util", "v8", "vm", "wasi", "worker_threads", "zlib"].map
    String.toList

/-- `PYPI_DISTRIBUTIONS_BY_IMPORT_NAME`. -/
def pypiDistributionsByImportName : List (Str × List Str) :=
  [("yaml", ["pyyaml"]), ("jwt", ["pyjwt"]), ("argon2", ["argon2-cffi"]), ("PIL", ["pillow"]),
    ("cv2", ["opencv-python", "opencv-python-headless"]), ("bs4", ["beautifulsoup4"]),
    ("sklearn", ["scikit-learn"]), ("dateutil", ["python-dateutil"]),
    ("dotenv", ["python-dotenv"]), ("jose", ["python-jose"]),
    ("multipart", ["python-multipart"]), ("magic", ["python-magic"]), ("git", ["gitpython"]),
    ("attr", ["attrs"]), ("psycopg2", ["psycopg2-binary"]), ("OpenSSL", ["pyopenssl"]),
    ("serial", ["pyserial"]), ("markdown", ["markdown"]), ("google.protobuf", ["protobuf"])].map
    (fun entry => (entry.1.toList, entry.2.map String.toList))

/-- `_JS_MODULE_EXTENSIONS`. -/
def jsModuleExtensions : List Str :=
  [".ts", ".tsx", ".js", ".jsx", ".mjs", ".cjs", ".mts", ".cts"].map String.toList

/-- `_JS_ALIAS_PREFIXES`. -/
def jsAliasPrefixes : List Str :=
  ["@/", "~/", "#/"].map String.toList

/-- `_NON_CODE_ASSET_EXTENSIONS`. -/
def nonCodeAssetExtensions : List Str :=
  [".css", ".scss", ".sass", ".less", ".styl",
    ".svg", ".png", ".jpg", ".jpeg", ".gif", ".webp", ".avif", ".ico", ".bmp",
    ".woff", ".woff2", ".ttf", ".otf", ".eot",
    ".mp3", ".mp4", ".webm", ".ogg", ".wav",
    ".md", ".mdx", ".txt", ".csv", ".yaml", ".yml", ".graphql", ".gql"].map String.toList

/-- `source_path.endswith(_JS_MODULE_EXTENSIONS)`. -/
def isJsModule (sourcePath : Str) : Bool :=
  jsModuleExtensions.any (fun extension => endsWith sourcePath extension)

/-- `_ancestor_prefixes`: the empty prefix and every directory of a path. -/
def ancestorPrefixes (sourcePath : Str) : List Str :=
  let segments := (splitOn '/' sourcePath).dropLast
  (List.range (segments.length + 1)).map (fun count =>
    if count = 0 then [] else joinWith '/' (segments.take count) ++ ['/'])

/-- `_python_module_in_repo`. A dotted path may name a symbol inside a module,
    so every shorter path is tried too. -/
def pythonModuleInRepo (specifier sourcePath : Str) (filePaths : List Str) : Bool :=
  if startsWith specifier ['.'] then false
  else
    let parts := splitOn '.' specifier
    (List.range parts.length).any (fun k =>
      let dotted := joinWith '/' (parts.take (parts.length - k))
      (ancestorPrefixes sourcePath).any (fun start =>
        filePaths.elem (start ++ dotted ++ ".py".toList) ||
          filePaths.elem (start ++ dotted ++ "/__init__.py".toList)))

/-- `target.rstrip("/")`. -/
def stripSlashes (s : Str) : Str :=
  (s.reverse.dropWhile (fun c => c = '/')).reverse

/-- `_js_alias_in_repo`. -/
def jsAliasInRepo (specifier sourcePath : Str) (filePaths directoryPaths : List Str) : Bool :=
  match jsAliasPrefixes.find? (fun root => startsWith specifier root) with
  | none => false
  | some root =>
    let target := stripSlashes (before '?' (specifier.drop root.length))
    if target = [] then false
    else
      let tails := target :: jsModuleExtensions.map (fun extension => target ++ extension) ++
        jsModuleExtensions.map (fun extension => target ++ "/index".toList ++ extension)
      (ancestorPrefixes sourcePath).any (fun start =>
        tails.any (fun tail => filePaths.elem (start ++ "src/".toList ++ tail) ||
          filePaths.elem (start ++ tail)) ||
        (directoryPaths.elem (start ++ "src/".toList ++ target) ||
          directoryPaths.elem (start ++ target)))

/-- `resolves_to_in_repo_file`. -/
def resolvesToInRepoFile (specifier sourcePath : Str) (filePaths directoryPaths : List Str) :
    Bool :=
  if specifier = [] ∨ sourcePath = [] ∨ filePaths = [] then false
  else if isPython sourcePath then pythonModuleInRepo specifier sourcePath filePaths
  else if isJsModule sourcePath then
    jsAliasInRepo specifier sourcePath filePaths directoryPaths
  else false

/-- `s.removeprefix(start)`. -/
def removePrefix (start s : Str) : Str :=
  (stripPrefix start s).getD s

variable [Unicode] [Interpreter]

/-- `is_platform_import`. -/
def isPlatformImport (specifier sourcePath : Str) : Bool :=
  if startsWith specifier ['.'] then false
  else
    let root := packageRoot specifier sourcePath
    if root = [] then false
    else if isPython sourcePath then Interpreter.stdlibModuleNames.elem root
    else nodeBuiltinModules.elem root || nodeBuiltinModules.elem (removePrefix "node:".toList root)

/-- `declared_dependency_key`. -/
def declaredDependencyKey (specifier sourcePath : Str) : Except CanonicalError (Option Str) :=
  if startsWith specifier ['.'] then .ok none
  else
    let root := packageRoot specifier sourcePath
    if root = [] then .ok none
    else some <$> dependencyStableKey (ecosystemOf sourcePath) root

/-- `is_recognized_external_import`. -/
def isRecognizedExternalImport (specifier sourcePath : Str) (declaredDependencyKeys : List Str) :
    Except CanonicalError Bool :=
  if isPlatformImport specifier sourcePath then .ok true
  else do
    let key ← declaredDependencyKey specifier sourcePath
    if key.any (fun key => declaredDependencyKeys.elem key) then .ok true
    else if isPython sourcePath ∧ ¬ startsWith specifier ['.'] then
      let distributions :=
        (pypiDistributionsByImportName.lookup (packageRoot specifier sourcePath)).getD []
      distributions.anyM (fun distribution =>
        (fun key => declaredDependencyKeys.elem key) <$> dependencyStableKey .pypi distribution)
    else .ok false

/-- `is_non_code_asset_import`. -/
def isNonCodeAssetImport (specifier sourcePath : Str) : Bool :=
  if !isJsModule sourcePath then false
  else if specifier.elem '?' then true
  else
    let file := (splitOn '/' specifier).getLast?.getD []
    let extension := (splitOn '.' specifier).getLast?.getD []
    file.elem '.' && nonCodeAssetExtensions.elem ('.' :: lower extension)

end Insights

end Partha
