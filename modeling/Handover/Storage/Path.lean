/-!
# Paths

A path is a root, if there is one, and the names between its slashes (`Path`); empty names and the
name `.` are left out. `Path.withSuffix?` is the path whose last name has a suffix added, whatever
points the name holds already.
-/

set_option autoImplicit false
set_option relaxedAutoImplicit false

namespace Handover

/-- A path as its root and its names. -/
structure Path where
  root : String
  names : List String
deriving DecidableEq, Repr

namespace Path

/-- The part of a text before its first slash, and the parts after it between slashes. -/
def cutAtSlashes : List Char → List Char × List (List Char)
  | [] => ([], [])
  | c :: rest =>
    let (part, others) := cutAtSlashes rest
    if c = '/' then ([], part :: others) else (c :: part, others)

/-- The names between the slashes of a text. -/
def split (text : String) : List String :=
  let (part, others) := cutAtSlashes text.toList
  ((part :: others).map String.ofList).filter fun name ↦ name ≠ "" ∧ name ≠ "."

/-- The root of a text: two slashes at the start are a root of their own, and one or more than two
are the plain one. -/
def rootOf (text : String) : String :=
  match text.toList with
  | '/' :: '/' :: '/' :: _ => "/"
  | '/' :: '/' :: _ => "//"
  | '/' :: _ => "/"
  | _ => ""

/-- The path written by a text. -/
def ofText (text : String) : Path := ⟨rootOf text, split text⟩

/-- A path as a text. -/
def toText (path : Path) : String :=
  if path.root = "" ∧ path.names = [] then "." else path.root ++ "/".intercalate path.names

/-- Whether a text can be the last name of a path. -/
def isName (text : String) : Bool :=
  rootOf text = "" && (split text).length == 1 && !text.endsWith "/"

/-- The path with a suffix added to its last name. -/
def withSuffix? (path : Path) (suffix : String) : Option Path :=
  match path.names.getLast? with
  | none => none
  | some name =>
    if isName (name ++ suffix) then
      some { path with names := path.names.dropLast ++ [name ++ suffix] }
    else none

end Path

end Handover
