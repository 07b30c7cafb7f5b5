import WitxFrontEnd.Grammar.Typedef
import WitxFrontEnd.Module

/-!
# The grammar of modules

Imports and interface functions, each a form. The slots of a function are read in one run and then
dealt out to parameters and results, so that each keeps the comments before it. A loop that gathers
them in two lists comes to the same (`Grammar.interfaceFunc_of_loop`).
-/

namespace WitxFrontEnd.Grammar

/-- What a slot of a function is for. -/
inductive SlotKind where
  | param
  | result
deriving DecidableEq, Repr

/-- The keyword that a slot of a function begins with. -/
def SlotKind.keyword : SlotKind → String
  | .param => "param"
  | .result => "result"

/-- The inside of an import's type. Reference: `_import_type`. -/
def importType : Rule ImportType := do
  Rule.keyword "memory"
  return .memory

/-- An import: the name, then what is imported. Reference: `_import`. -/
def moduleImport : Rule ModuleImport := do
  Rule.keyword "import"
  let name ← Rule.step .string
  let type ← Rule.inForm importType
  return ⟨name.text, name.span, type⟩

/-- The inside of an export: the name, as the token it is written with. Reference: `_export`. -/
def exportForm : Rule Item := do
  Rule.keyword "export"
  Rule.step .string

/-- The inside of a function's slot. Reference: `_func_field_form`. -/
def slotForm : Rule (SlotKind × Field) :=
  Rule.choose <| [SlotKind.param, .result].map fun kind =>
    (.keyword kind.keyword, do
      Rule.keyword kind.keyword
      let field ← slot
      return (kind, field))

/-- The slots of one kind, in order and with their comments. -/
def slotsOf (kind : SlotKind) (slots : List (Documented (SlotKind × Field))) :
    List (Documented Field) :=
  slots.filterMap fun slot =>
    if slot.item.1 = kind then some ⟨slot.comments, slot.item.2⟩ else none

/-- An interface function: the name it is exported under, then its slots. Reference:
`_interface_func`. -/
def interfaceFunc : Rule InterfaceFunc := do
  Rule.reserved "@interface"
  Rule.keyword "func"
  let name ← Rule.inForm exportForm
  let slots ← Rule.documented (.form slotForm)
  return ⟨name.text, name.span, slotsOf .param slots, slotsOf .result slots⟩

/-- The inside of a module declaration. Reference: `_module_decl_form`. -/
def moduleDecl : Rule ModuleDecl :=
  Rule.choose [
    (.keyword "import", .moduleImport <$> moduleImport),
    (.reserved "@interface", .func <$> interfaceFunc)]

/-- The inside of a module's form. Reference: `_module`. -/
def module : Rule Module := do
  Rule.keyword "module"
  let name ← identifier
  let decls ← Rule.documented (.form moduleDecl)
  return ⟨name, decls⟩

end WitxFrontEnd.Grammar
