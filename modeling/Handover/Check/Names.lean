import Handover.Check.Registry

/-!
# The check of identifier forms

Distinct tensor names must stay distinct in identifier form, and each form must be an identifier
that the generated module can bind (`nameFindings`). Names are grouped by their form in the order of
first registration.
-/

set_option autoImplicit false
set_option relaxedAutoImplicit false

namespace Handover

/-- The names that the generated module binds itself. -/
def reservedNames : List String := ["self", "torch", "F", "nn"]

/-- Names grouped by identifier form: each name in turn comes at the end of the list of its form. -/
def groupByForm (names : List String) : OrderedMap String (List String) :=
  OrderedMap.groupBy sanitize names

/-- A finding of the check of identifier forms. -/
def nameFinding (message : String) : Finding :=
  ⟨"sanitized_collisions", .error, message, none, none⟩

/-- The finding that several names have one identifier form. -/
def collisionFindings (form : String) (names : List String) : List Finding :=
  if 1 < names.length then
    let joined := ", ".intercalate (names.map fun name ↦ "'" ++ name ++ "'")
    [nameFinding ("Names " ++ joined ++ " all sanitize to '" ++ form ++ "'")]
  else []

/-- The finding that an identifier form cannot be bound. -/
def usabilityFindings (form first : String) : List Finding :=
  if !Text.isUsableIdentifier form then
    [nameFinding ("'" ++ first ++ "' sanitizes to '" ++ form ++ "', not a usable identifier")]
  else if reservedNames.contains form then
    [nameFinding ("'" ++ first ++ "' sanitizes to reserved name '" ++ form ++ "'")]
  else []

/-- The findings of the check of identifier forms. -/
def nameFindings (graph : Graph) : List Finding :=
  (groupByForm graph.tensors.keys).entries.flatMap fun group ↦
    collisionFindings group.1 group.2 ++ usabilityFindings group.1 (group.2.headD "")

end Handover
