import Handover.Error
import Handover.OrderedMap
import Handover.Storage.Path

/-!
# Files

A directory of files by name (`Files`), each holding a text or bytes. `Files.pathAt` is the path of
the file that a stem and a suffix name, and `Files.nameOf` is its name in the directory, if it can
be reached: no name on the way may be too long, and the directory has no directories in it. What
lies beside the directory can be reached but is not listed.
-/

set_option autoImplicit false
set_option relaxedAutoImplicit false

namespace Handover

/-- The content of a file. -/
inductive Content
  | text (content : String)
  | bytes (content : List UInt8)
deriving DecidableEq, Repr

namespace Content

/-- The bytes of a content; a text is stored in UTF-8. -/
def toBytes : Content → List UInt8
  | text content => content.toUTF8.toList
  | bytes content => content

/-- The text of a content, if its bytes are one. -/
def toText? : Content → Option String
  | text content => some content
  | bytes content => String.fromUTF8? ⟨content.toArray⟩

end Content

/-- A directory of files by name. -/
abbrev Files : Type := OrderedMap String Content

namespace Files

/-- The path of the file with a stem and a suffix. A stem without names is the directory itself, and
its file stands beside it. -/
def pathAt (stem suffix : String) : Result Path :=
  let path := Path.ofText stem
  if path.names.isEmpty then .ok { path with names := ["..", suffix] }
  else
    match path.withSuffix? suffix with
    | none => fails .noFileName
    | some path => .ok path

/-- The most bytes of the name of a file. -/
def nameLimit : Nat := 255

/-- Refuses names that lead to no place for a file, the first of them first. -/
def requireReached : List String → Result Unit
  | [] => .ok ()
  | name :: rest =>
    if nameLimit < name.utf8ByteSize then fails .fileNameTooLong
    else if rest.isEmpty || name == ".." then requireReached rest
    else fails .noFile

/-- The name of the file at a path, which must be in reach. -/
def nameOf (path : Path) : Result String := do
  if path.names.any fun name ↦ name.toList.contains '\x00' then fails .nullInFileName
  requireReached path.names
  return path.toText

/-- The content of a file. -/
def read (files : Files) (name : String) : Result Content :=
  match files.find? name with
  | some content => .ok content
  | none => fails .noFile

/-- The directory without a file. -/
def remove (files : Files) (name : String) : Result Files := do
  let _ ← files.read name
  return files.erase name

/-- The files of the directory by name in the order of the characters of the names. -/
def listing (files : Files) : List (String × Content) :=
  (files.entries.filter fun entry ↦ !entry.1.toList.contains '/').mergeSort fun a b ↦
    !decide (b.1 < a.1)

end Files

end Handover
