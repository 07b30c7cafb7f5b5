import WitxFrontEnd.Document

/-!
# Outlines

The indented form in which a syntax tree is shown: one line for each construct, two spaces deeper
for what it holds, and the documentation of a construct above it. Quoted names of fields are
written as literals; the names of used files, imports and functions stand between quotes as they
are.
-/

namespace WitxFrontEnd.Outline

/-- The indentation at a depth. -/
def pad (depth : Nat) : String :=
  String.ofList (List.replicate (2 * depth) ' ')

/-- The line of a text at a depth. -/
def line (depth : Nat) (text : String) : List String :=
  [pad depth ++ text]

/-- The documentation above a construct at a depth. -/
def docLines (depth : Nat) (comments : List String) : List String :=
  (Documentation.docLines comments).map fun doc =>
    String.ofList (Text.trimRight ((pad depth).toList ++ ";;; ".toList ++ doc))

/-- A documented construct. -/
def documented {α : Type} (construct : Nat → α → List String) (depth : Nat)
    (d : Documented α) : List String :=
  docLines depth d.comments ++ construct depth d.item

/-- An identifier. -/
def identifier (depth : Nat) (ident : Identifier) : List String :=
  line depth ident.toString

/-- A datatype. -/
def datatype (depth : Nat) (type : Datatype) : List String :=
  line depth type.toString

/-- A field, or a slot of a function behind the word for its role. -/
def field (role : String) (depth : Nat) (f : Field) : List String :=
  line depth (role ++ f.name.toString ++ " " ++ f.type.toString)

/-- A type definition. -/
def typedef (depth : Nat) : Typedef → List String
  | .alias type => datatype depth type
  | .enum repr members =>
    line depth ("enum " ++ repr.keyword) ++ members.flatMap (documented identifier (depth + 1))
  | .flags repr flags =>
    line depth ("flags " ++ repr.keyword) ++ flags.flatMap (documented identifier (depth + 1))
  | .struct fields => line depth "struct" ++ fields.flatMap (documented (field "") (depth + 1))
  | .union fields => line depth "union" ++ fields.flatMap (documented (field "") (depth + 1))
  | .handle supertypes =>
    line depth ("handle" ++ String.join (supertypes.map fun ident => " " ++ ident.toString))

/-- A type name. -/
def typename (depth : Nat) (decl : Typename) : List String :=
  line depth ("typename " ++ decl.ident.toString) ++ typedef (depth + 1) decl.definition

/-- An import. -/
def moduleImport (depth : Nat) (decl : ModuleImport) : List String :=
  line depth ("import \"" ++ decl.name ++ "\" (" ++ decl.type.keyword ++ ")")

/-- An interface function: its parameters, then its results. -/
def func (depth : Nat) (decl : InterfaceFunc) : List String :=
  line depth ("func \"" ++ decl.exportName ++ "\"") ++
    decl.params.flatMap (documented (field "param ") (depth + 1)) ++
    decl.results.flatMap (documented (field "result ") (depth + 1))

/-- A declaration inside a module. -/
def moduleDecl (depth : Nat) : ModuleDecl → List String
  | .moduleImport decl => moduleImport depth decl
  | .func decl => func depth decl

/-- A module. -/
def module (depth : Nat) (decl : Module) : List String :=
  line depth ("module " ++ decl.name.toString) ++
    decl.decls.flatMap (documented moduleDecl (depth + 1))

/-- The use of another file. -/
def use (depth : Nat) (path : String) : List String :=
  line depth ("use \"" ++ path ++ "\"")

/-- A declaration of a document. -/
def topLevel (depth : Nat) : TopLevel → List String
  | .use path => use depth path
  | .typename decl => typename depth decl
  | .module decl => module depth decl

/-- A document. -/
def document (depth : Nat) (d : Document) : List String :=
  d.items.flatMap (documented topLevel depth)

/-- Lines as one text. -/
def text (lines : List String) : String :=
  String.intercalate "\n" lines

end WitxFrontEnd.Outline
