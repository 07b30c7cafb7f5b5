import WitxFrontEnd.Literal

/-!
# Identifiers

A name as it is declared or referred to. Where it stands and whether it was written with a dollar
sign or as a string literal is kept for reports and for printing, but two identifiers are the same
if their names are.
-/

namespace WitxFrontEnd

/-- A name without its dollar sign or its quotes. Reference: `Id`. -/
structure Identifier where
  name : String
  span : Span
  quoted : Bool
deriving DecidableEq, Repr

namespace Identifier

/-- Identifiers compare by name. -/
instance : BEq Identifier := ⟨fun a b => a.name == b.name⟩

instance : Hashable Identifier := ⟨fun a => hash a.name⟩

/-- The identifier as it is written in a source. -/
def toString (ident : Identifier) : String :=
  if ident.quoted then Literal.encode ident.name else "$" ++ ident.name

instance : ToString Identifier := ⟨toString⟩

end Identifier

end WitxFrontEnd
