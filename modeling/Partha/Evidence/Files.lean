import Partha.Extraction.Naming
import Partha.Library.Utf8

/-!
# Previews of Stored Files

`RepositoryService.read_file` shows a file of a stored repository. The path comes
from a request. It is resolved below the root of the repository, symbolic links
included, and has to stay there.

A preview is not the file. An image is shown in base64, a file with a NUL byte is
not shown, one that is too long is cut, and text is decoded with replacement. The
response says which of these happened, except for the last: text that was replaced
looks like any other.

The file system is what it answers to the calls that are made. It does not change
between them.

## Main definitions

* `FileSystem`: The answers of the file system.
* `readFile`: `read_file`, for a repository that was found.
* `RegularFile`: A file that is there, at a path of the repository.

## Theorems

* `readFile_regular`: The preview of a short text file is the text.
-/

namespace Partha

namespace Evidence

open Canonical Checked Extraction JsonText

/-- The classes of exceptions that a service raises. -/
inductive ErrorKind where
  | service
  | notFound
  | validation
  | unsupportedSchemaVersion
  deriving DecidableEq, Repr

/-- `ServiceError`, of one of its classes. -/
structure ServiceError where
  kind : ErrorKind
  message : Str
  details : List (String × Value)

section Names

/-- `PurePosixPath(name).suffix`, which has a part before the dot and one after it. -/
def suffix (name : Str) : Str :=
  let ending := (name.reverse.takeWhile (fun c => c ≠ '.')).reverse
  if ending ≠ [] ∧ ending.length + 1 < name.length then '.' :: ending else []

/-- `IMAGE_MEDIA_TYPES`. -/
def imageMediaTypes : List (Str × Str) :=
  [(".png".toList, "image/png".toList), (".jpg".toList, "image/jpeg".toList),
    (".jpeg".toList, "image/jpeg".toList), (".gif".toList, "image/gif".toList),
    (".webp".toList, "image/webp".toList), (".bmp".toList, "image/bmp".toList),
    (".ico".toList, "image/x-icon".toList), (".svg".toList, "image/svg+xml".toList)]

/-- The media type of an image, by the name of the file. -/
def imageMediaType [Interpreter] (target : List Str) : Option Str :=
  let name := target.getLastD []
  (imageMediaTypes.find? (fun p => p.1 = lower (suffix name))).map (·.2)

/-- `path.lstrip("/\\")`. -/
def stripSlashes (path : Str) : Str :=
  path.dropWhile (fun c => c = '/' || c = '\\')

theorem stripSlashes_self {path : Str} (hslash : path.head? ≠ some '/') (hback : '\\' ∉ path) :
    stripSlashes path = path := by
  cases path with
  | nil => rfl
  | cons c path =>
    have hc : c ≠ '/' := fun e => hslash (by rw [e]; rfl)
    have hb : c ≠ '\\' := fun e => hback (by rw [e]; exact List.mem_cons_self)
    have hstop : (decide (c = '/') || decide (c = '\\')) = false := by
      rw [decide_eq_false hc, decide_eq_false hb, Bool.or_false]
    rw [stripSlashes, List.dropWhile_cons, hstop, if_neg Bool.false_ne_true]

end Names

section Base64

def base64Digit (n : Nat) : Char :=
  if n < 26 then Char.ofNat (65 + n)
  else if n < 52 then Char.ofNat (71 + n)
  else if n < 62 then Char.ofNat (n - 4)
  else if n = 62 then '+'
  else '/'

/-- `base64.b64encode(data).decode("ascii")`. -/
def base64 : List UInt8 → Str
  | [] => []
  | [a] => [base64Digit (a.toNat / 4), base64Digit (a.toNat % 4 * 16), '=', '=']
  | [a, b] =>
    [base64Digit (a.toNat / 4), base64Digit (a.toNat % 4 * 16 + b.toNat / 16),
      base64Digit (b.toNat % 16 * 4), '=']
  | a :: b :: c :: data =>
    base64Digit (a.toNat / 4) :: base64Digit (a.toNat % 4 * 16 + b.toNat / 16) ::
      base64Digit (b.toNat % 16 * 4 + c.toNat / 64) :: base64Digit (c.toNat % 64) :: base64 data

end Base64

section FileSystem

/-- A path of the host, by the names from its root. -/
abbrev HostPath := List Str

/-- `OSError`, by the classes that a reader tells apart. -/
inductive OsError where
  | fileNotFound
  | permission
  | other
  deriving DecidableEq, Repr

/-- What the file system answers. -/
structure FileSystem where
  /-- `path.resolve()`. -/
  resolve : HostPath → Except OsError HostPath
  /-- `path.is_file()`. -/
  isFile : HostPath → Except OsError Bool
  /-- `path.stat().st_size`. -/
  size : HostPath → Except OsError Nat
  /-- The bytes that can be read from the file. -/
  content : HostPath → Except OsError (List UInt8)

/-- `RepositoryFileResponse`. -/
structure RepositoryFileResponse where
  path : Str
  content : Str
  size : Nat
  truncated : Bool
  isBinary : Bool
  isImage : Bool
  mediaType : Option Str
  deriving DecidableEq

/-- `MAX_FILE_PREVIEW_BYTES`. -/
def maxFilePreviewBytes : Nat :=
  512 * 1024

/-- `_raise_file_read_error`. -/
def fileReadError (path : Str) : OsError → ServiceError
  | .fileNotFound =>
    { kind := .notFound
      message := "File not found in repository.".toList
      details := [("path", .str path)] }
  | .permission =>
    { kind := .validation
      message := "File cannot be read due to filesystem permissions.".toList
      details := [("path", .str path)] }
  | .other =>
    { kind := .service
      message := "Unable to read file preview.".toList
      details := [("path", .str path)] }

/-- The file that a path of a repository stands for, which is below its root. -/
def resolveTarget (fs : FileSystem) (localPath : HostPath) (path : Str) :
    Except ServiceError HostPath :=
  let unresolved : ServiceError :=
    { kind := .validation
      message := "Requested file path cannot be resolved.".toList
      details := [("path", .str path)] }
  match fs.resolve localPath with
  | .error _ => .error unresolved
  | .ok root =>
    match fs.resolve (root ++ pathParts (stripSlashes path)) with
    | .error _ => .error unresolved
    | .ok target =>
      if root <+: target then .ok target
      else .error
        { kind := .validation
          message := "Requested file is outside the repository.".toList
          details := [("path", .str path)] }

variable [Interpreter]

/-- What is shown of a file of a given size. -/
def preview (fs : FileSystem) (path : Str) (target : HostPath) (size : Nat) :
    Except ServiceError RepositoryFileResponse :=
  match imageMediaType target with
  | some mediaType =>
    if maxFilePreviewBytes < size then
      .ok
        { path := path
          content := []
          size := size
          truncated := true
          isBinary := false
          isImage := true
          mediaType := some mediaType }
    else
      match fs.content target with
      | .error e => .error (fileReadError path e)
      | .ok bytes =>
        .ok
          { path := path
            content := base64 bytes
            size := size
            truncated := false
            isBinary := false
            isImage := true
            mediaType := some mediaType }
  | none =>
    match fs.content target with
    | .error e => .error (fileReadError path e)
    | .ok bytes =>
      let chunk := bytes.take maxFilePreviewBytes
      if 0 ∈ chunk then
        .ok
          { path := path
            content := []
            size := size
            truncated := decide (maxFilePreviewBytes < size)
            isBinary := true
            isImage := false
            mediaType := none }
      else
        .ok
          { path := path
            content := Utf8.decodeReplace chunk
            size := size
            truncated := decide (maxFilePreviewBytes < size)
            isBinary := false
            isImage := false
            mediaType := none }

/-- `read_file`, for the repository that is stored at `localPath`. -/
def readFile (fs : FileSystem) (localPath : HostPath) (path : Str) :
    Except ServiceError RepositoryFileResponse := do
  let target ← resolveTarget fs localPath path
  match fs.isFile target with
  | .error e => .error (fileReadError path e)
  | .ok false => .error (fileReadError path .fileNotFound)
  | .ok true =>
    match fs.size target with
    | .error e => .error (fileReadError path e)
    | .ok size => preview fs path target size

/-- A regular file below the root of a repository that is not an image. There are no
    links on the way to it. -/
structure RegularFile (fs : FileSystem) (localPath root : HostPath) (path : Str)
    (bytes : List UInt8) : Prop where
  rootFound : fs.resolve localPath = .ok root
  target : fs.resolve (root ++ pathParts path) = .ok (root ++ pathParts path)
  isFile : fs.isFile (root ++ pathParts path) = .ok true
  size : fs.size (root ++ pathParts path) = .ok bytes.length
  content : fs.content (root ++ pathParts path) = .ok bytes
  noImage : imageMediaType (root ++ pathParts path) = none

/-- The preview of a text file that is not too long is its text. -/
theorem readFile_regular {fs : FileSystem} {localPath root : HostPath} {path text : Str}
    (hfile : RegularFile fs localPath root path (utf8 text)) (hslash : path.head? ≠ some '/')
    (hback : '\\' ∉ path) (hzero : 0 ∉ utf8 text)
    (hsize : (utf8 text).length ≤ maxFilePreviewBytes) :
    readFile fs localPath path = .ok
      { path := path
        content := text
        size := (utf8 text).length
        truncated := false
        isBinary := false
        isImage := false
        mediaType := none } := by
  have hresolve : resolveTarget fs localPath path = .ok (root ++ pathParts path) := by
    unfold resolveTarget
    simp [hfile.rootFound, stripSlashes_self hslash hback, hfile.target]
  unfold readFile
  rw [hresolve, ok_bind]
  simp only [hfile.isFile, hfile.size]
  unfold preview
  simp only [hfile.noImage, hfile.content]
  rw [List.take_of_length_le hsize, if_neg hzero, Utf8.decodeReplace_utf8,
    decide_eq_false (Nat.not_lt.mpr hsize)]

end FileSystem

end Evidence

end Partha
