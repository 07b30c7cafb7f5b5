import WitxFrontEnd.Datatype
import WitxFrontEnd.Documentation

/-!
# Type definitions

What a type name can stand for: another datatype, or an enumeration, a set of flags, a structure,
a union or a handle.
-/

namespace WitxFrontEnd

/-- A named and typed slot of a structure, a union or a function. Reference: `FieldSyntax`. -/
structure Field where
  name : Identifier
  type : Datatype
deriving DecidableEq, Repr, BEq, Hashable

/-- The body of a type definition. Reference: `TypedefSyntax`. -/
inductive Typedef where
  | alias (type : Datatype)
  | enum (repr : Scalar) (members : List (Documented Identifier))
  | flags (repr : Scalar) (flags : List (Documented Identifier))
  | struct (fields : List (Documented Field))
  | union (fields : List (Documented Field))
  | handle (supertypes : List Identifier)
deriving DecidableEq, Repr, BEq, Hashable

/-- A type's name and its definition. Reference: `TypenameSyntax`. -/
structure Typename where
  ident : Identifier
  definition : Typedef
deriving DecidableEq, Repr, BEq, Hashable

end WitxFrontEnd
