import Mathlib.Data.List.Forall2
import WitxFrontEnd.Document
import WitxFrontEnd.Item

/-!
# Derivations

The grammar of the language as relations between items and the trees they derive: one constructor
a production, over items among which no comments stand. Nothing here looks ahead, chooses an
order of alternatives or says what is an error. Spans of parens and of words are free, the spans
that a tree keeps are those of the items it was derived from, and no construct has comments.
-/

namespace WitxFrontEnd

/-- The item of a keyword. -/
def Item.keyword (word : String) (span : Span) : Item :=
  .token ⟨.keyword, word, span⟩

/-- The item of a reserved word. -/
def Item.reserved (word : String) (span : Span) : Item :=
  .token ⟨.reserved, word, span⟩

/-- The item of a string. -/
def Item.string (text : String) (span : Span) : Item :=
  .token ⟨.string, text, span⟩

/-- `$id`. -/
inductive DerivesIdentifier : Item → Identifier → Prop
  | dollar (text : String) (span : Span) :
      DerivesIdentifier (.token ⟨.identifier, text, span⟩)
        ⟨String.ofList (text.toList.drop 1), span, false⟩

/-- `name = $id | STRING`. -/
inductive DerivesName : Item → Identifier → Prop
  | identifier {i : Item} {ident : Identifier} (h : DerivesIdentifier i ident) :
      DerivesName i ident
  | string (text : String) (span : Span) : DerivesName (.string text span) ⟨text, span, true⟩

/-- `builtin`. -/
inductive DerivesScalar : Item → Scalar → Prop
  | keyword (type : Scalar) (span : Span) : DerivesScalar (.keyword type.keyword span) type

/-- `datatype = $id | builtin | (array datatype) | (@witx pointer datatype) |
(@witx const-pointer datatype)`. -/
inductive DerivesDatatype : Item → Datatype → Prop
  | named {i : Item} {ident : Identifier} (h : DerivesIdentifier i ident) :
      DerivesDatatype i (.named ident)
  | scalar {i : Item} {type : Scalar} (h : DerivesScalar i type) : DerivesDatatype i (.scalar type)
  | array {i : Item} {element : Datatype} {s opening closing : Span}
      (h : DerivesDatatype i element) :
      DerivesDatatype (.form [.keyword "array" s, i] opening closing) (.array element)
  | pointer {i : Item} {pointee : Datatype} {s s' opening closing : Span}
      (h : DerivesDatatype i pointee) :
      DerivesDatatype (.form [.reserved "@witx" s, .keyword "pointer" s', i] opening closing)
        (.pointer pointee)
  | constPointer {i : Item} {pointee : Datatype} {s s' opening closing : Span}
      (h : DerivesDatatype i pointee) :
      DerivesDatatype (.form [.reserved "@witx" s, .keyword "const-pointer" s', i] opening closing)
        (.constPointer pointee)

/-- `(word name datatype)`. -/
inductive DerivesField (word : String) : Item → Field → Prop
  | slot {n t : Item} {name : Identifier} {type : Datatype} {s opening closing : Span}
      (hname : DerivesName n name) (htype : DerivesDatatype t type) :
      DerivesField word (.form [.keyword word s, n, t] opening closing) ⟨name, type⟩

/-- Constructs without comments, one from each item. -/
def DerivesEach {α : Type} (Derives : Item → α → Prop) :
    List Item → List (Documented α) → Prop :=
  List.Forall₂ fun i d => d.comments = [] ∧ Derives i d.item

/-- `typedef = datatype | (enum builtin $id+) | (flags builtin $id*) | (struct field+) |
(union field+) | (handle $id*)`. -/
inductive DerivesTypedef : Item → Typedef → Prop
  | alias {i : Item} {type : Datatype} (h : DerivesDatatype i type) :
      DerivesTypedef i (.alias type)
  | enum {r : Item} {repr : Scalar} {is : List Item} {members : List (Documented Identifier)}
      {s opening closing : Span} (hrepr : DerivesScalar r repr)
      (hmembers : DerivesEach DerivesIdentifier is members) (hne : is ≠ []) :
      DerivesTypedef (.form (.keyword "enum" s :: r :: is) opening closing) (.enum repr members)
  | flags {r : Item} {repr : Scalar} {is : List Item} {flags : List (Documented Identifier)}
      {s opening closing : Span} (hrepr : DerivesScalar r repr)
      (hflags : DerivesEach DerivesIdentifier is flags) :
      DerivesTypedef (.form (.keyword "flags" s :: r :: is) opening closing) (.flags repr flags)
  | struct {is : List Item} {fields : List (Documented Field)} {s opening closing : Span}
      (hfields : DerivesEach (DerivesField "field") is fields) (hne : is ≠ []) :
      DerivesTypedef (.form (.keyword "struct" s :: is) opening closing) (.struct fields)
  | union {is : List Item} {fields : List (Documented Field)} {s opening closing : Span}
      (hfields : DerivesEach (DerivesField "field") is fields) (hne : is ≠ []) :
      DerivesTypedef (.form (.keyword "union" s :: is) opening closing) (.union fields)
  | handle {is : List Item} {supertypes : List Identifier} {s opening closing : Span}
      (hsupertypes : List.Forall₂ DerivesIdentifier is supertypes) :
      DerivesTypedef (.form (.keyword "handle" s :: is) opening closing) (.handle supertypes)

/-- `slot*`, where `slot = (param name datatype) | (result name datatype)`: the parameters and the
results, each in order. -/
inductive DerivesSlots : List Item → List (Documented Field) → List (Documented Field) → Prop
  | nil : DerivesSlots [] [] []
  | param {i : Item} {is : List Item} {f : Field} {params results : List (Documented Field)}
      (h : DerivesField "param" i f) (hs : DerivesSlots is params results) :
      DerivesSlots (i :: is) (⟨[], f⟩ :: params) results
  | result {i : Item} {is : List Item} {f : Field} {params results : List (Documented Field)}
      (h : DerivesField "result" i f) (hs : DerivesSlots is params results) :
      DerivesSlots (i :: is) params (⟨[], f⟩ :: results)

/-- `decl = (import STRING (memory)) | (@interface func (export STRING) slot*)`. -/
inductive DerivesModuleDecl : Item → ModuleDecl → Prop
  | moduleImport {name : String} {nameSpan s s' opening closing opening' closing' : Span} :
      DerivesModuleDecl
        (.form [.keyword "import" s, .string name nameSpan,
          .form [.keyword "memory" s'] opening' closing'] opening closing)
        (.moduleImport ⟨name, nameSpan, .memory⟩)
  | func {name : String} {nameSpan s s' s'' opening closing opening' closing' : Span}
      {is : List Item} {params results : List (Documented Field)}
      (hslots : DerivesSlots is params results) :
      DerivesModuleDecl
        (.form (.reserved "@interface" s :: .keyword "func" s' ::
          .form [.keyword "export" s'', .string name nameSpan] opening' closing' :: is)
          opening closing)
        (.func ⟨name, nameSpan, params, results⟩)

/-- `item = (use STRING) | (typename $id typedef) | (module $id decl*)`. -/
inductive DerivesTopLevel : Item → TopLevel → Prop
  | use {path : String} {pathSpan s opening closing : Span} :
      DerivesTopLevel (.form [.keyword "use" s, .string path pathSpan] opening closing) (.use path)
  | typename {n t : Item} {ident : Identifier} {definition : Typedef} {s opening closing : Span}
      (hident : DerivesIdentifier n ident) (hdefinition : DerivesTypedef t definition) :
      DerivesTopLevel (.form [.keyword "typename" s, n, t] opening closing)
        (.typename ⟨ident, definition⟩)
  | module {n : Item} {name : Identifier} {is : List Item} {decls : List (Documented ModuleDecl)}
      {s opening closing : Span} (hname : DerivesIdentifier n name)
      (hdecls : DerivesEach DerivesModuleDecl is decls) :
      DerivesTopLevel (.form (.keyword "module" s :: n :: is) opening closing)
        (.module ⟨name, decls⟩)

/-- `document = item*`. -/
def DerivesDocument (is : List Item) (d : Document) : Prop :=
  DerivesEach DerivesTopLevel is d.items

end WitxFrontEnd
