import Handover.Text.Quoted

/-!
# Members of texts

What a replacement field of a template can reach from a text by points and brackets (`Subject`): the
kind of the text, its methods, the names of both, and what these in turn belong to.
`Subject.member?` picks a member by name, `Subject.item` picks an item by place, and
`Subject.characters` is a subject as it is written.
-/

set_option autoImplicit false
set_option relaxedAutoImplicit false

namespace Handover.Text

/-- What a subject is. A slot is a method that an operator or a built-in function calls. -/
inductive Kind
  | text | thing | kind | collection | nothing
  | method | slot | unboundMethod | unboundSlot
deriving DecidableEq, Repr

/-- The name of a kind. -/
def Kind.name : Kind → String
  | text => "str"
  | thing => "object"
  | kind => "type"
  | collection => "tuple"
  | nothing => "NoneType"
  | method => "builtin_function_or_method"
  | slot => "method-wrapper"
  | unboundMethod => "method_descriptor"
  | unboundSlot => "wrapper_descriptor"

/-- The kind that a kind extends: every kind but the widest extends that one. -/
def Kind.base? (chosen : Kind) : Option Kind :=
  if chosen = .thing then none else some .thing

/-- The slots that a text has of its own. -/
def ownSlots : List String :=
  ["__add__", "__contains__", "__eq__", "__ge__", "__getattribute__", "__getitem__", "__gt__",
    "__hash__", "__iter__", "__le__", "__len__", "__lt__", "__mod__", "__mul__", "__ne__",
    "__repr__", "__rmod__", "__rmul__", "__str__"]

/-- The slots that a text has as any subject does. -/
def commonSlots : List String := ["__delattr__", "__init__", "__setattr__"]

/-- The methods that a text has of its own. -/
def ownMethods : List String :=
  ["__format__", "__getnewargs__", "__sizeof__", "capitalize", "casefold", "center", "count",
    "encode", "endswith", "expandtabs", "find", "format", "format_map", "index", "isalnum",
    "isalpha", "isascii", "isdecimal", "isdigit", "isidentifier", "islower", "isnumeric",
    "isprintable", "isspace", "istitle", "isupper", "join", "ljust", "lower", "lstrip", "partition",
    "removeprefix", "removesuffix", "replace", "rfind", "rindex", "rjust", "rpartition", "rsplit",
    "rstrip", "split", "splitlines", "startswith", "strip", "swapcase", "title", "translate",
    "upper", "zfill"]

/-- The methods that a text has as any subject does. -/
def commonMethods : List String := ["__dir__", "__getstate__", "__reduce__", "__reduce_ex__"]

/-- What says what a text is. -/
def description : String :=
  "str(object='') -> str\nstr(bytes_or_buffer[, encoding[, errors]]) -> str\n\n" ++
    "Create a new string object from the given object. If encoding or\n" ++
    "errors is specified, then the object must expose a data buffer\n" ++
    "that will be decoded using the given encoding and error handler.\n" ++
    "Otherwise, returns the result of object.__str__() (if defined)\n" ++
    "or repr(object).\nencoding defaults to sys.getdefaultencoding().\n" ++
    "errors defaults to 'strict'."

/-- What a field reaches: a text, a kind, kinds one after the other, nothing, a method of a text, or
a method of texts without the text it is called on. -/
inductive Subject
  | text (content : List Char)
  | kind (value : Kind)
  | kinds (values : List Kind)
  | nothing
  | method (owner : List Char) (name : String)
  | unbound (name : String)
deriving DecidableEq, Repr

namespace Subject

/-- Whether the method of a name is a slot. -/
def isSlot (name : String) : Bool := ownSlots.contains name || commonSlots.contains name

/-- Whether texts have a method of a name. -/
def isMethod (name : String) : Bool :=
  isSlot name || ownMethods.contains name || commonMethods.contains name

/-- The kind whose subjects a method of a text works on. -/
def methodOwner (name : String) : Kind :=
  if commonSlots.contains name || commonMethods.contains name then .thing else .text

/-- What a subject is. -/
def kindOf : Subject → Kind
  | text _ => .text
  | kind _ => .kind
  | kinds _ => .collection
  | nothing => .nothing
  | method _ name => if isSlot name then .slot else .method
  | unbound name => if isSlot name then .unboundSlot else .unboundMethod

/-- A text that a member is. -/
def ofText (content : String) : Subject := text content.toList

/-- The member of a kind with a given name. -/
def kindMember? (chosen : Kind) (name : String) : Option Subject :=
  if name = "__name__" ∨ name = "__qualname__" then some (ofText chosen.name)
  else if name = "__module__" then some (ofText "builtins")
  else if name = "__base__" then some (chosen.base?.elim nothing kind)
  else if name = "__bases__" then some (kinds chosen.base?.toList)
  else if name = "__mro__" then some (kinds (chosen :: chosen.base?.toList))
  else if chosen = .text ∧ name = "__doc__" then some (ofText description)
  else if chosen = .text ∧ name = "__text_signature__" then some nothing
  else if chosen = .text ∧ isMethod name then some (unbound name)
  else none

/-- The member of a method with a given name, whichever text it is called on. -/
def methodMember? (called member : String) (bound : Bool) : Option Subject :=
  let owner := methodOwner called
  if member = "__name__" then some (ofText called)
  else if member = "__qualname__" then
    let home := if bound && !isSlot called then Kind.text else owner
    some (ofText (home.name ++ "." ++ called))
  else if member = "__objclass__" ∧ (!bound ∨ isSlot called) then some (kind owner)
  else if member = "__module__" ∧ bound ∧ !isSlot called then some nothing
  else none

/-- The member of a subject with a given name, if it has one. -/
def member? (subject : Subject) (name : String) : Option Subject :=
  if name = "__class__" then some (kind subject.kindOf)
  else
    match subject with
    | text content =>
      if name = "__doc__" then some (ofText description)
      else if isMethod name then some (method content name)
      else none
    | kind chosen => kindMember? chosen name
    | method owner chosen =>
      if name = "__self__" then some (text owner) else methodMember? chosen name true
    | unbound chosen => methodMember? chosen name false
    | kinds _ | nothing => none

/-- The items of a subject that has items. -/
def items? : Subject → Option (List Subject)
  | text content => some (content.map fun c ↦ text [c])
  | kinds chosen => some (chosen.map kind)
  | _ => none

/-- The characters of the name of a kind as a value. -/
def kindCharacters (chosen : Kind) : List Char :=
  "<class '".toList ++ chosen.name.toList ++ "'>".toList

/-- Names one after the other between parentheses, a single one with a comma after it. -/
def tupleOf : List (List Char) → List Char
  | [] => "()".toList
  | [name] => '(' :: name ++ [',', ')']
  | name :: rest => '(' :: name ++ rest.flatMap (fun other ↦ ',' :: ' ' :: other) ++ [')']

/-- A subject as it is written; a text stands for itself. -/
def characters : Subject → List Char
  | text content => content
  | kind chosen => kindCharacters chosen
  | kinds chosen => tupleOf (chosen.map kindCharacters)
  | nothing => "None".toList
  | method _ name | unbound name =>
    let form := if isSlot name then "<slot wrapper '" else "<method '"
    form.toList ++ name.toList ++ "' of '".toList ++ (methodOwner name).name.toList ++
      "' objects>".toList

end Subject

end Handover.Text
