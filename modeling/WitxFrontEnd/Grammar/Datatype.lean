import WitxFrontEnd.Datatype
import WitxFrontEnd.Grammar.Rule

/-!
# The grammar of datatypes

A name, a scalar's keyword, or a form that begins with `array` or `@witx`. The only rule that
refers to itself is here; each time it does, it is inside a form of what it was given.
-/

namespace WitxFrontEnd.Grammar

/-- A name with a dollar sign, as an item. -/
def identifierEntry : Entry Identifier := fun item =>
  if Pattern.identifier.accepts item then
    .ok ⟨String.ofList (item.text.toList.drop 1), item.span, false⟩
  else .error ⟨.expected [.identifier], some item.span⟩

/-- A name with a dollar sign. Reference: `_ident`. -/
def identifier : Rule Identifier := do
  let item ← Rule.step .identifier
  return ⟨String.ofList (item.text.toList.drop 1), item.span, false⟩

/-- The name of a slot, which may be a string as well. Reference: `_field_name`. -/
def fieldName : Rule Identifier := do
  if ← Rule.peek .string then
    let item ← Rule.step .string
    return ⟨item.text, item.span, true⟩
  else identifier

/-- A scalar's keyword. Reference: `_builtin_type`. -/
def scalar : Rule Scalar :=
  Rule.choose <| Scalar.all.map fun type =>
    (.keyword type.keyword, do Rule.keyword type.keyword; return type)

/-- A datatype. A form is taken for an array if its first token says so and for a pointer otherwise.
A token with `array` behind it counts as the former, so that a paren is what is missing there.
Reference: `_datatype`. -/
def datatype (c : Cursor) : Except ParseError (Datatype × Cursor) :=
  if c.peek .identifier then do
    let (ident, rest) ← identifier c
    return (.named ident, rest)
  else if c.peekSecond (.keyword "array") then
    c.inForm fun inner _ => inner.past (.keyword "array") fun rest _ => do
      let (element, rest) ← datatype rest
      return (.array element, rest)
  else if c.peek .leftParen then
    c.inForm fun inner _ => inner.past (.reserved "@witx") fun rest _ =>
      if rest.peek (.keyword "const-pointer") then
        rest.past (.keyword "const-pointer") fun rest _ => do
          let (pointee, rest) ← datatype rest
          return (.constPointer pointee, rest)
      else
        rest.past (.keyword "pointer") fun rest _ => do
          let (pointee, rest) ← datatype rest
          return (.pointer pointee, rest)
  else do
    let (type, rest) ← scalar c
    return (.scalar type, rest)
termination_by c.size

end WitxFrontEnd.Grammar
