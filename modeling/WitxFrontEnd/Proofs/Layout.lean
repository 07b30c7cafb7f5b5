import WitxFrontEnd.Document

/-!
# What equality looks at

Two constructs are equal if nothing but their layout differs: where identifiers, imports and
exports stand, and whether a name was written as a string. The erasure of a construct keeps all of
it but that. `Decides` says of an erasure that equality is equality of what it keeps, and that the
hash sees no more than equality does; every construct has it, one theorem a construct, up to
`Document.decides_erase`.
-/

namespace WitxFrontEnd

/-! ## Erasures -/

/-- The span of what has no place. -/
def Span.nowhere : Span := ⟨0, 1, 1, none⟩

/-- An identifier that is nothing but its name. -/
def Identifier.erase (ident : Identifier) : Identifier :=
  ⟨ident.name, .nowhere, false⟩

/-- A datatype without its layout. -/
def Datatype.erase : Datatype → Datatype
  | .scalar type => .scalar type
  | .array element => .array element.erase
  | .pointer pointee => .pointer pointee.erase
  | .constPointer pointee => .constPointer pointee.erase
  | .named ident => .named ident.erase

/-- The same comments before another construct. -/
def Documented.map {α β : Type} (f : α → β) (d : Documented α) : Documented β :=
  ⟨d.comments, f d.item⟩

/-- A field without its layout. -/
def Field.erase (f : Field) : Field :=
  ⟨f.name.erase, f.type.erase⟩

/-- A type definition without its layout. -/
def Typedef.erase : Typedef → Typedef
  | .alias type => .alias type.erase
  | .enum repr members => .enum repr (members.map (Documented.map Identifier.erase))
  | .flags repr members => .flags repr (members.map (Documented.map Identifier.erase))
  | .struct fields => .struct (fields.map (Documented.map Field.erase))
  | .union fields => .union (fields.map (Documented.map Field.erase))
  | .handle supertypes => .handle (supertypes.map Identifier.erase)

/-- A type name without its layout. -/
def Typename.erase (decl : Typename) : Typename :=
  ⟨decl.ident.erase, decl.definition.erase⟩

/-- An import without its layout. -/
def ModuleImport.erase (decl : ModuleImport) : ModuleImport :=
  { decl with nameSpan := .nowhere }

/-- An interface function without its layout. -/
def InterfaceFunc.erase (decl : InterfaceFunc) : InterfaceFunc :=
  ⟨decl.exportName, .nowhere, decl.params.map (Documented.map Field.erase),
    decl.results.map (Documented.map Field.erase)⟩

/-- A declaration of a module without its layout. -/
def ModuleDecl.erase : ModuleDecl → ModuleDecl
  | .moduleImport decl => .moduleImport decl.erase
  | .func decl => .func decl.erase

/-- A module without its layout. -/
def Module.erase (decl : Module) : Module :=
  ⟨decl.name.erase, decl.decls.map (Documented.map ModuleDecl.erase)⟩

/-- A declaration of a document without its layout. -/
def TopLevel.erase : TopLevel → TopLevel
  | .use path => .use path
  | .typename decl => .typename decl.erase
  | .module decl => .module decl.erase

/-- A document without its layout. -/
def Document.erase (d : Document) : Document :=
  ⟨d.items.map (Documented.map TopLevel.erase)⟩

/-! ## Equality and hash -/

/-- Equality is equality of the erasures, and the erasure has the same hash. -/
structure Decides {α : Type} [BEq α] [Hashable α] (erase : α → α) : Prop where
  beq_iff : ∀ a b : α, (a == b) = true ↔ erase a = erase b
  hash_erase : ∀ a : α, hash (erase a) = hash a

namespace Decides

variable {α : Type} [BEq α] [Hashable α] {erase : α → α}

/-- Equal constructs have the same hash. -/
theorem hash_eq_of_beq (h : Decides erase) {a b : α} (hab : (a == b) = true) :
    hash a = hash b := by
  rw [← h.hash_erase a, (h.beq_iff a b).1 hab, h.hash_erase]

/-- Lists are decided element by element. -/
theorem list (h : Decides erase) : Decides (List.map erase) where
  beq_iff as bs := by
    induction as generalizing bs with
    | nil => cases bs <;> simp
    | cons a as ih => cases bs <;> simp [h.beq_iff, ih]
  hash_erase as := by
    show (as.map erase).foldl (fun r a => mixHash r (hash a)) 7 =
      as.foldl (fun r a => mixHash r (hash a)) 7
    rw [List.foldl_map]
    simp only [h.hash_erase]

/-- Documented constructs are decided by their comments and by the construct. -/
theorem documented (h : Decides erase) : Decides (Documented.map erase) where
  beq_iff d d' := by
    obtain ⟨comments, a⟩ := d
    obtain ⟨comments', a'⟩ := d'
    show (comments == comments' && a == a') = true ↔ _
    simp [Documented.map, h.beq_iff]
  hash_erase d := by
    show mixHash (mixHash 0 (hash d.comments)) (hash (erase d.item)) = _
    rw [h.hash_erase]
    rfl

/-- Lists of documented constructs, as the constructs around them hold. -/
theorem documentedList (h : Decides erase) : Decides (List.map (Documented.map erase)) :=
  h.documented.list

end Decides

/-- Identifiers are equal if their names are. -/
theorem Identifier.decides_erase : Decides Identifier.erase where
  beq_iff a b := by
    show (a.name == b.name) = true ↔ _
    simp [erase]
  hash_erase a := rfl

/-- Datatypes are equal if they are built alike from equal names. -/
theorem Datatype.decides_erase : Decides Datatype.erase where
  beq_iff a b := by
    induction a generalizing b with
    | scalar type =>
      cases b with
      | scalar type' =>
        show (type == type') = true ↔ _
        simp [erase]
      | array | pointer | constPointer | named => exact ⟨nofun, nofun⟩
    | array element ih =>
      cases b with
      | array element' => exact (ih element').trans (by simp [erase])
      | scalar | pointer | constPointer | named => exact ⟨nofun, nofun⟩
    | pointer pointee ih =>
      cases b with
      | pointer pointee' => exact (ih pointee').trans (by simp [erase])
      | scalar | array | constPointer | named => exact ⟨nofun, nofun⟩
    | constPointer pointee ih =>
      cases b with
      | constPointer pointee' => exact (ih pointee').trans (by simp [erase])
      | scalar | array | pointer | named => exact ⟨nofun, nofun⟩
    | named ident =>
      cases b with
      | named ident' =>
        exact (Identifier.decides_erase.beq_iff ident ident').trans (by simp [erase])
      | scalar | array | pointer | constPointer => exact ⟨nofun, nofun⟩
  hash_erase a := by
    induction a with
    | scalar | named => rfl
    | array element ih => exact congrArg (mixHash 1) ih
    | pointer pointee ih => exact congrArg (mixHash 2) ih
    | constPointer pointee ih => exact congrArg (mixHash 3) ih

/-- Fields are equal if their names and types are. -/
theorem Field.decides_erase : Decides Field.erase where
  beq_iff a b := by
    show (a.name == b.name && a.type == b.type) = true ↔ _
    simp [erase, Identifier.decides_erase.beq_iff, Datatype.decides_erase.beq_iff]
  hash_erase a := by
    show mixHash (mixHash 0 (hash a.name.erase)) (hash a.type.erase) = _
    rw [Identifier.decides_erase.hash_erase, Datatype.decides_erase.hash_erase]
    rfl

/-- Type definitions are equal if they are of one kind and made of the same. -/
theorem Typedef.decides_erase : Decides Typedef.erase where
  beq_iff a b := by
    have hmembers := Identifier.decides_erase.documentedList.beq_iff
    have hfields := Field.decides_erase.documentedList.beq_iff
    cases a with
    | «alias» type =>
      cases b with
      | «alias» type' => exact (Datatype.decides_erase.beq_iff type type').trans (by simp [erase])
      | enum | flags | struct | union | handle => exact ⟨nofun, nofun⟩
    | enum repr members =>
      cases b with
      | enum repr' members' =>
        show (repr == repr' && members == members') = true ↔ _
        simp [erase, hmembers]
      | «alias» | flags | struct | union | handle => exact ⟨nofun, nofun⟩
    | flags repr members =>
      cases b with
      | flags repr' members' =>
        show (repr == repr' && members == members') = true ↔ _
        simp [erase, hmembers]
      | «alias» | enum | struct | union | handle => exact ⟨nofun, nofun⟩
    | struct fields =>
      cases b with
      | struct fields' => exact (hfields fields fields').trans (by simp [erase])
      | «alias» | enum | flags | union | handle => exact ⟨nofun, nofun⟩
    | union fields =>
      cases b with
      | union fields' => exact (hfields fields fields').trans (by simp [erase])
      | «alias» | enum | flags | struct | handle => exact ⟨nofun, nofun⟩
    | handle supertypes =>
      cases b with
      | handle supertypes' =>
        exact (Identifier.decides_erase.list.beq_iff _ _).trans (by simp [erase])
      | «alias» | enum | flags | struct | union => exact ⟨nofun, nofun⟩
  hash_erase a := by
    have hmembers := Identifier.decides_erase.documentedList.hash_erase
    have hfields := Field.decides_erase.documentedList.hash_erase
    cases a with
    | «alias» type => exact congrArg (mixHash 0) (Datatype.decides_erase.hash_erase type)
    | enum repr members => exact congrArg (mixHash _) (hmembers members)
    | flags repr members => exact congrArg (mixHash _) (hmembers members)
    | struct fields => exact congrArg (mixHash 3) (hfields fields)
    | union fields => exact congrArg (mixHash 4) (hfields fields)
    | handle supertypes =>
      exact congrArg (mixHash 5) (Identifier.decides_erase.list.hash_erase supertypes)

/-- Type names are equal if the names and the definitions are. -/
theorem Typename.decides_erase : Decides Typename.erase where
  beq_iff a b := by
    show (a.ident == b.ident && a.definition == b.definition) = true ↔ _
    simp [erase, Identifier.decides_erase.beq_iff, Typedef.decides_erase.beq_iff]
  hash_erase a := by
    show mixHash (mixHash 0 (hash a.ident.erase)) (hash a.definition.erase) = _
    rw [Identifier.decides_erase.hash_erase, Typedef.decides_erase.hash_erase]
    rfl

/-- Imports are equal wherever their names stand. -/
theorem ModuleImport.decides_erase : Decides ModuleImport.erase where
  beq_iff a b := by
    show (a.name == b.name && a.type == b.type) = true ↔ _
    simp [erase]
  hash_erase a := rfl

/-- Interface functions are equal wherever their names stand. -/
theorem InterfaceFunc.decides_erase : Decides InterfaceFunc.erase where
  beq_iff a b := by
    have hfields := Field.decides_erase.documentedList.beq_iff
    show (a.exportName == b.exportName && a.params == b.params && a.results == b.results) = true ↔ _
    simp [erase, hfields, and_assoc]
  hash_erase a := by
    have hfields := Field.decides_erase.documentedList.hash_erase
    show mixHash (hash a.exportName) (mixHash (hash (a.params.map _)) (hash (a.results.map _))) = _
    rw [hfields, hfields]
    rfl

/-- Declarations inside a module are equal if they are of one kind and are equal. -/
theorem ModuleDecl.decides_erase : Decides ModuleDecl.erase where
  beq_iff a b := by
    cases a with
    | moduleImport decl =>
      cases b with
      | moduleImport decl' =>
        exact (ModuleImport.decides_erase.beq_iff decl decl').trans (by simp [erase])
      | func => exact ⟨nofun, nofun⟩
    | func decl =>
      cases b with
      | func decl' => exact (InterfaceFunc.decides_erase.beq_iff decl decl').trans (by simp [erase])
      | moduleImport => exact ⟨nofun, nofun⟩
  hash_erase a := by
    cases a with
    | moduleImport decl => rfl
    | func decl => exact congrArg (mixHash 1) (InterfaceFunc.decides_erase.hash_erase decl)

/-- Modules are equal if their names and their declarations are. -/
theorem Module.decides_erase : Decides Module.erase where
  beq_iff a b := by
    show (a.name == b.name && a.decls == b.decls) = true ↔ _
    simp [erase, Identifier.decides_erase.beq_iff,
      ModuleDecl.decides_erase.documentedList.beq_iff]
  hash_erase a := by
    show mixHash (mixHash 0 (hash a.name.erase)) (hash (a.decls.map _)) = _
    rw [Identifier.decides_erase.hash_erase, ModuleDecl.decides_erase.documentedList.hash_erase]
    rfl

/-- Declarations of a document are equal if they are of one kind and are equal. -/
theorem TopLevel.decides_erase : Decides TopLevel.erase where
  beq_iff a b := by
    cases a with
    | use path =>
      cases b with
      | use path' =>
        show (path == path') = true ↔ _
        simp [erase]
      | typename | module => exact ⟨nofun, nofun⟩
    | typename decl =>
      cases b with
      | typename decl' => exact (Typename.decides_erase.beq_iff decl decl').trans (by simp [erase])
      | use | module => exact ⟨nofun, nofun⟩
    | module decl =>
      cases b with
      | module decl' => exact (Module.decides_erase.beq_iff decl decl').trans (by simp [erase])
      | use | typename => exact ⟨nofun, nofun⟩
  hash_erase a := by
    cases a with
    | use path => rfl
    | typename decl => exact congrArg (mixHash 1) (Typename.decides_erase.hash_erase decl)
    | module decl => exact congrArg (mixHash 2) (Module.decides_erase.hash_erase decl)

/-- Documents are equal if and only if they are the same without their layout, and equal documents
have the same hash. -/
theorem Document.decides_erase : Decides Document.erase where
  beq_iff a b := (TopLevel.decides_erase.documentedList.beq_iff a.items b.items).trans <| by
    simp [erase]
  hash_erase a :=
    congrArg (mixHash 0) (TopLevel.decides_erase.documentedList.hash_erase a.items)

end WitxFrontEnd
