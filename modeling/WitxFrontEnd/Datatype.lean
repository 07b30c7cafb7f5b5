import WitxFrontEnd.Identifier

/-!
# Datatypes

References to types: a scalar, a named type, or an array of or pointer to another type. Names are
kept as written, and nothing says that a type of that name exists.
-/

namespace WitxFrontEnd

/-- The types that the language brings along. Reference: `BuiltinType`. -/
inductive Scalar where
  | string
  | u8
  | u16
  | u32
  | u64
  | s8
  | s16
  | s32
  | s64
  | f32
  | f64
deriving DecidableEq, Repr, Hashable

namespace Scalar

/-- All scalars, in the order in which messages list them. -/
def all : List Scalar :=
  [.string, .u8, .u16, .u32, .u64, .s8, .s16, .s32, .s64, .f32, .f64]

theorem mem_all (type : Scalar) : type ∈ all := by
  cases type <;> decide

/-- The keyword that names a scalar. -/
def keyword : Scalar → String
  | .string => "string"
  | .u8 => "u8"
  | .u16 => "u16"
  | .u32 => "u32"
  | .u64 => "u64"
  | .s8 => "s8"
  | .s16 => "s16"
  | .s32 => "s32"
  | .s64 => "s64"
  | .f32 => "f32"
  | .f64 => "f64"

end Scalar

/-- A reference to a type. Reference: `DatatypeIdentSyntax`. -/
inductive Datatype where
  | scalar (type : Scalar)
  | array (element : Datatype)
  | pointer (pointee : Datatype)
  | constPointer (pointee : Datatype)
  | named (ident : Identifier)
deriving DecidableEq, Repr, BEq, Hashable

namespace Datatype

/-- The datatype as it is written in a source. -/
def toString : Datatype → String
  | .scalar type => type.keyword
  | .array element => "(array " ++ element.toString ++ ")"
  | .pointer pointee => "(@witx pointer " ++ pointee.toString ++ ")"
  | .constPointer pointee => "(@witx const-pointer " ++ pointee.toString ++ ")"
  | .named ident => ident.toString

instance : ToString Datatype := ⟨toString⟩

end Datatype

end WitxFrontEnd
