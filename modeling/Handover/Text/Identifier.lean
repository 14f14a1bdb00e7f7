import Handover.Text.CharacterClass

/-!
# Identifiers of the generated module

A generated module binds names of its own, and every name must be an identifier that is no keyword
(`isUsableIdentifier`). Graph names carry structure such as `conv1/weight:0`, so each is put in
identifier form (`sanitize`) before it reaches the ledger or the generated text: the separators `/`,
`:` and `.` become `_` and nothing else changes. Two names may have one identifier form.
-/

set_option autoImplicit false
set_option relaxedAutoImplicit false

namespace Handover

/-- A separator of structured names. -/
def isSeparator (c : Char) : Bool := c == '/' || c == ':' || c == '.'

/-- The character that stands for `c` in an identifier form. -/
def separatorToUnderscore (c : Char) : Char := if isSeparator c then '_' else c

/-- The identifier form of a graph name: every separator becomes an underscore. -/
def sanitize (name : String) : String :=
  String.ofList (name.toList.map separatorToUnderscore)

@[simp] theorem toList_sanitize (name : String) :
    (sanitize name).toList = name.toList.map separatorToUnderscore :=
  String.toList_ofList

namespace Text

/-- Whether a text is an identifier: a start character and then characters that may follow. -/
def isIdentifier (text : String) : Bool :=
  match text.toList with
  | [] => false
  | first :: rest => isIdentifierStart first && rest.all isIdentifierContinue

/-- The reserved words of the generated language. -/
def keywords : List String :=
  ["False", "None", "True", "and", "as", "assert", "async", "await", "break", "class", "continue",
    "def", "del", "elif", "else", "except", "finally", "for", "from", "global", "if", "import",
    "in", "is", "lambda", "nonlocal", "not", "or", "pass", "raise", "return", "try", "while",
    "with", "yield"]

/-- Whether a text can name something in the generated module. -/
def isUsableIdentifier (text : String) : Bool :=
  isIdentifier text && !keywords.contains text

end Text

end Handover
