import WitxFrontEnd.Grammar.Datatype
import WitxFrontEnd.Typedef

/-!
# The grammar of type definitions

A form that begins with neither `array` nor `@witx` has to be one of the five kinds of definition;
everything else is a datatype.
-/

namespace WitxFrontEnd.Grammar

/-- A slot's name and type, with which its form ends. -/
def slot : Rule Field := do
  let name ← fieldName
  let type ← datatype
  return ⟨name, type⟩

/-- The inside of a field's form. Reference: `_field_form`. -/
def fieldForm : Rule Field := do
  Rule.keyword "field"
  slot

/-- An enumeration, which has at least one member. Reference: `_enum`. -/
def enum : Rule Typedef := do
  Rule.keyword "enum"
  let repr ← scalar
  let members ← Rule.documentedSome .member identifierEntry
  return .enum repr members

/-- A set of flags, which may be empty. Reference: `_flags`. -/
def flags : Rule Typedef := do
  Rule.keyword "flags"
  let repr ← scalar
  let flags ← Rule.documented identifierEntry
  return .flags repr flags

/-- A structure, which has at least one field. Reference: `_struct`. -/
def struct : Rule Typedef := do
  Rule.keyword "struct"
  let fields ← Rule.documentedSome .field (.form fieldForm)
  return .struct fields

/-- A union, which has at least one field. Reference: `_union`. -/
def union : Rule Typedef := do
  Rule.keyword "union"
  let fields ← Rule.documentedSome .field (.form fieldForm)
  return .union fields

/-- A handle with the names of its supertypes, whose comments go nowhere. Reference: `_handle`. -/
def handle : Rule Typedef := do
  Rule.keyword "handle"
  let supertypes ← Rule.documented identifierEntry
  return .handle (supertypes.map Documented.item)

/-- The inside of a definition's form. Reference: `_typedef_form`. -/
def typedefForm : Rule Typedef :=
  Rule.choose [
    (.keyword "enum", enum),
    (.keyword "flags", flags),
    (.keyword "struct", struct),
    (.keyword "union", union),
    (.keyword "handle", handle)]

/-- A type definition. Reference: `_typedef`. -/
def typedef : Rule Typedef := do
  if !(← Rule.peek .leftParen) || (← Rule.peekSecond (.keyword "array")) ||
      (← Rule.peekSecond (.reserved "@witx")) then
    let type ← datatype
    return .alias type
  else Rule.inForm typedefForm

/-- The inside of a type name's form. Reference: `_typename`. -/
def typename : Rule Typename := do
  Rule.keyword "typename"
  let ident ← identifier
  let definition ← typedef
  return ⟨ident, definition⟩

end WitxFrontEnd.Grammar
