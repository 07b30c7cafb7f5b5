import WitxFrontEnd.Module

/-!
# Documents

A document is what one source declares, in the order of the source: other files to use, type names
and modules.
-/

namespace WitxFrontEnd

/-- A declaration of a document. -/
inductive TopLevel where
  | use (path : String)
  | typename (decl : Typename)
  | module (decl : Module)
deriving DecidableEq, Repr, BEq, Hashable

/-- The declarations of a source. Reference: `TopLevelDocument`. -/
structure Document where
  items : List (Documented TopLevel)
deriving DecidableEq, Repr, BEq, Hashable

namespace Document

/-- What is picked from the declarations of a document, in order. -/
def pick {α : Type} (document : Document) (choose : TopLevel → Option α) : List α :=
  document.items.filterMap fun documented => choose documented.item

/-- The paths that a document uses. Reference: `uses`. -/
def uses (document : Document) : List String :=
  document.pick fun
    | .use path => some path
    | .typename _ | .module _ => none

/-- The type names of a document. Reference: `typenames`. -/
def typenames (document : Document) : List Typename :=
  document.pick fun
    | .typename decl => some decl
    | .use _ | .module _ => none

/-- The modules of a document. Reference: `modules`. -/
def modules (document : Document) : List Module :=
  document.pick fun
    | .module decl => some decl
    | .use _ | .typename _ => none

/-- What is picked is picked from one of the declarations. -/
theorem mem_pick {α : Type} {document : Document} {choose : TopLevel → Option α} {a : α} :
    a ∈ document.pick choose ↔ ∃ documented ∈ document.items, choose documented.item = some a :=
  List.mem_filterMap

/-- Each declaration is a use, a type name or a module, and none is two of them. -/
theorem length_uses_typenames_modules (document : Document) :
    document.uses.length + document.typenames.length + document.modules.length =
      document.items.length := by
  obtain ⟨items⟩ := document
  simp only [uses, typenames, modules, pick]
  induction items with
  | nil => rfl
  | cons documented items ih =>
    obtain ⟨comments, item⟩ := documented
    cases item <;> simp only [List.filterMap_cons, List.length_cons] <;> omega

end Document

end WitxFrontEnd
