import WitxFrontEnd.Typedef

/-!
# Modules

A module imports memories and declares interface functions. The parameters of a function and its
results may be mixed in the source and are kept apart here, each in their own order. Two imports,
or two functions, are the same wherever their names stand.
-/

namespace WitxFrontEnd

/-- The things that a module can import. Reference: `ImportTypeSyntax`. -/
inductive ImportType where
  | memory
deriving DecidableEq, Repr, Hashable

/-- The keyword that names the imported thing. -/
def ImportType.keyword : ImportType → String
  | .memory => "memory"

/-- An import and the span of its name. Reference: `ModuleImportSyntax`. -/
structure ModuleImport where
  name : String
  nameSpan : Span
  type : ImportType
deriving DecidableEq, Repr

/-- Imports compare by name and type. -/
instance : BEq ModuleImport := ⟨fun a b => a.name == b.name && a.type == b.type⟩

instance : Hashable ModuleImport := ⟨fun a => mixHash (hash a.name) (hash a.type)⟩

/-- An interface function, the span of the name it is exported under, and its slots. Reference:
`InterfaceFuncSyntax`. -/
structure InterfaceFunc where
  exportName : String
  exportSpan : Span
  params : List (Documented Field)
  results : List (Documented Field)
deriving DecidableEq, Repr

/-- Functions compare by name, parameters and results. -/
instance : BEq InterfaceFunc :=
  ⟨fun a b => a.exportName == b.exportName && a.params == b.params && a.results == b.results⟩

instance : Hashable InterfaceFunc :=
  ⟨fun a => mixHash (hash a.exportName) (mixHash (hash a.params) (hash a.results))⟩

/-- A declaration inside a module. -/
inductive ModuleDecl where
  | moduleImport (decl : ModuleImport)
  | func (decl : InterfaceFunc)
deriving DecidableEq, Repr, BEq, Hashable

/-- A module's name and its declarations. Reference: `ModuleSyntax`. -/
structure Module where
  name : Identifier
  decls : List (Documented ModuleDecl)
deriving DecidableEq, Repr, BEq, Hashable

end WitxFrontEnd
