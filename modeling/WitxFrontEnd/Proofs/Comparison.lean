import Mathlib.Data.List.Forall2
import WitxFrontEnd.Node
import WitxFrontEnd.Proofs.Layout

/-!
# Equality of constructs

The equality of constructs of every kind, in two ways of saying what it looks at. From the outside:
two constructs are equal if their erasures are the same (`Node.decides_erase`). From the inside:
they are of the same kind, and what they are made of is equal part by part, all of it but the layout
(`Node.beq_iff_constituents`). The one makes equality an equivalence with which the hash agrees, the
other makes it a congruence for every way to build a construct; `Node.equal_up_to_layout` has both.
-/

namespace WitxFrontEnd

/-! ## From the outside -/

namespace Node

/-- A construct without its layout. -/
def erase : Node → Node
  | .document d => .document d.erase
  | .documented comments item => .documented comments item.erase
  | .use path => .use path
  | .typename decl => .typename decl.erase
  | .module decl => .module decl.erase
  | .moduleImport decl => .moduleImport decl.erase
  | .func decl => .func decl.erase
  | .typedef definition => .typedef definition.erase
  | .field f => .field f.erase
  | .identifier ident => .identifier ident.erase

/-- Nodes are equal if they are of one kind and their erasures are equal. -/
theorem decides_erase : Decides erase where
  beq_iff a b := by
    induction a generalizing b with
    | document d =>
      cases b with
      | document d' => exact (Document.decides_erase.beq_iff d d').trans (by simp [erase])
      | _ => exact ⟨nofun, nofun⟩
    | documented comments item ih =>
      cases b with
      | documented comments' item' =>
        show (comments == comments' && item == item') = true ↔ _
        simp [erase, ih]
      | _ => exact ⟨nofun, nofun⟩
    | use path =>
      cases b with
      | use path' =>
        show (path == path') = true ↔ _
        simp [erase]
      | _ => exact ⟨nofun, nofun⟩
    | typename decl =>
      cases b with
      | typename decl' => exact (Typename.decides_erase.beq_iff decl decl').trans (by simp [erase])
      | _ => exact ⟨nofun, nofun⟩
    | module decl =>
      cases b with
      | module decl' => exact (Module.decides_erase.beq_iff decl decl').trans (by simp [erase])
      | _ => exact ⟨nofun, nofun⟩
    | moduleImport decl =>
      cases b with
      | moduleImport decl' =>
        exact (ModuleImport.decides_erase.beq_iff decl decl').trans (by simp [erase])
      | _ => exact ⟨nofun, nofun⟩
    | func decl =>
      cases b with
      | func decl' => exact (InterfaceFunc.decides_erase.beq_iff decl decl').trans (by simp [erase])
      | _ => exact ⟨nofun, nofun⟩
    | typedef definition =>
      cases b with
      | typedef definition' =>
        exact (Typedef.decides_erase.beq_iff definition definition').trans (by simp [erase])
      | _ => exact ⟨nofun, nofun⟩
    | field f =>
      cases b with
      | field f' => exact (Field.decides_erase.beq_iff f f').trans (by simp [erase])
      | _ => exact ⟨nofun, nofun⟩
    | identifier ident =>
      cases b with
      | identifier ident' =>
        exact (Identifier.decides_erase.beq_iff ident ident').trans (by simp [erase])
      | _ => exact ⟨nofun, nofun⟩
  hash_erase a := by
    induction a with
    | document d => exact congrArg (mixHash 0) (Document.decides_erase.hash_erase d)
    | documented comments item ih => exact congrArg (mixHash (mixHash 1 (hash comments))) ih
    | use path => rfl
    | typename decl => exact congrArg (mixHash 3) (Typename.decides_erase.hash_erase decl)
    | module decl => exact congrArg (mixHash 4) (Module.decides_erase.hash_erase decl)
    | moduleImport decl => rfl
    | func decl => exact congrArg (mixHash 6) (InterfaceFunc.decides_erase.hash_erase decl)
    | typedef definition =>
      exact congrArg (mixHash 7) (Typedef.decides_erase.hash_erase definition)
    | field f => exact congrArg (mixHash 8) (Field.decides_erase.hash_erase f)
    | identifier ident => rfl

end Node

/-- What is decided by an erasure is an equivalence. -/
theorem Decides.equivalence {α : Type} [BEq α] [Hashable α] {erase : α → α} (h : Decides erase) :
    Equivalence fun a b : α => (a == b) = true where
  refl a := (h.beq_iff a a).2 rfl
  symm hab := (h.beq_iff _ _).2 ((h.beq_iff _ _).1 hab).symm
  trans hab hbc := (h.beq_iff _ _).2 (((h.beq_iff _ _).1 hab).trans ((h.beq_iff _ _).1 hbc))

/-! ## From the inside -/

/-- The kinds of datatypes. -/
inductive DatatypeKind where
  | scalar
  | array
  | pointer
  | constPointer
  | named
deriving DecidableEq

/-- The kinds of type definitions. One that stands for a datatype is that datatype. -/
inductive TypedefKind where
  | alias (kind : DatatypeKind)
  | enum
  | flags
  | struct
  | union
  | handle
deriving DecidableEq

/-- The kinds of constructs. -/
inductive Kind where
  | document
  | documented
  | use
  | typename
  | module
  | moduleImport
  | func
  | typedef (kind : TypedefKind)
  | field
  | identifier
deriving DecidableEq

/-- The kind of a datatype. -/
def Datatype.kind : Datatype → DatatypeKind
  | .scalar _ => .scalar
  | .array _ => .array
  | .pointer _ => .pointer
  | .constPointer _ => .constPointer
  | .named _ => .named

/-- The kind of a type definition. -/
def Typedef.kind : Typedef → TypedefKind
  | .alias type => .alias type.kind
  | .enum .. => .enum
  | .flags .. => .flags
  | .struct _ => .struct
  | .union _ => .union
  | .handle _ => .handle

/-- The kind of a construct. -/
def Node.kind : Node → Kind
  | .document _ => .document
  | .documented .. => .documented
  | .use _ => .use
  | .typename _ => .typename
  | .module _ => .module
  | .moduleImport _ => .moduleImport
  | .func _ => .func
  | .typedef definition => .typedef definition.kind
  | .field _ => .field
  | .identifier _ => .identifier

/-- Parts of this name say where a construct stands or how its name is written. -/
def Label.isLayout : Label → Bool
  | .span | .quoted | .nameSpan | .exportSpan => true
  | _ => false

/-- The parts of a construct, by name and in order, without those that are layout. -/
def Node.constituents (n : Node) : List (Label × Part) :=
  n.parts.filter fun part => !part.1.isLayout

/-- Two parts of the same name are equal. -/
def SameConstituent (p q : Label × Part) : Prop :=
  p.1 = q.1 ∧ (p.2 == q.2) = true

namespace Part

@[simp] theorem beq_node (a b : Node) : (node a == node b) = (a == b) := rfl

@[simp] theorem beq_comments (a b : List String) : (comments a == comments b) = (a == b) := rfl

@[simp] theorem beq_text (a b : String) : (text a == text b) = (a == b) := rfl

@[simp] theorem beq_scalar (a b : Scalar) : (scalar a == scalar b) = (a == b) := rfl

@[simp] theorem beq_importType (a b : ImportType) :
    (importType a == importType b) = (a == b) := rfl

variable {α : Type} [BEq α] (construct : α → Node)

/-- As a list of parts, constructs are compared one by one. -/
theorem beq_nodes (h : ∀ a b, (construct a == construct b) = (a == b)) (as bs : List α) :
    (nodes (as.map construct) == nodes (bs.map construct)) = (as == bs) := by
  show (as.map construct == bs.map construct) = (as == bs)
  induction as generalizing bs with
  | nil => cases bs <;> rfl
  | cons a as ih =>
    cases bs with
    | nil => rfl
    | cons b bs =>
      rw [List.map_cons, List.map_cons, List.cons_beq_cons, List.cons_beq_cons, h, ih]

/-- So are documented constructs, by their comments and by what is documented. -/
theorem beq_documented (h : ∀ a b, (construct a == construct b) = (a == b))
    (ds ds' : List (Documented α)) :
    (nodes (ds.map (Node.ofDocumented construct)) ==
      nodes (ds'.map (Node.ofDocumented construct))) = (ds == ds') := by
  refine beq_nodes (Node.ofDocumented construct) (fun d d' => ?_) ds ds'
  show (d.comments == d'.comments && construct d.item == construct d'.item) = _
  rw [h]
  rfl

end Part

namespace Node

@[simp] theorem beq_ofDatatype (a b : Datatype) :
    (ofDatatype a == ofDatatype b) = (a == b) := rfl

@[simp] theorem beq_identifier (a b : Identifier) :
    (identifier a == identifier b) = (a == b) := rfl

@[simp] theorem beq_typedef (a b : Typedef) : (typedef a == typedef b) = (a == b) := rfl

/-- Declarations inside a module are equal as nodes if they are equal. -/
theorem beq_ofModuleDecl (a b : ModuleDecl) : (ofModuleDecl a == ofModuleDecl b) = (a == b) := by
  cases a <;> cases b <;> rfl

/-- Declarations of a document are equal as nodes if they are equal. -/
theorem beq_ofTopLevel (a b : TopLevel) : (ofTopLevel a == ofTopLevel b) = (a == b) := by
  cases a <;> cases b <;> rfl

/-- As `beq_iff_constituents`, for a datatype by itself. -/
theorem datatype_beq_iff (a b : Datatype) : (a == b) = true ↔ a.kind = b.kind ∧
    List.Forall₂ SameConstituent (ofDatatype a).constituents (ofDatatype b).constituents := by
  cases a with
  | scalar type =>
    cases b with
    | scalar type' =>
      show (type == type') = true ↔
        _ ∧ List.Forall₂ SameConstituent [(.type, .scalar type)] [(.type, .scalar type')]
      simp [Datatype.kind, SameConstituent]
    | _ => exact ⟨nofun, fun h => nomatch h.1⟩
  | array element =>
    cases b with
    | array element' =>
      show (element == element') = true ↔ _ ∧ List.Forall₂ SameConstituent
        [(.element, .node (ofDatatype element))] [(.element, .node (ofDatatype element'))]
      simp [Datatype.kind, SameConstituent]
    | _ => exact ⟨nofun, fun h => nomatch h.1⟩
  | pointer pointee =>
    cases b with
    | pointer pointee' =>
      show (pointee == pointee') = true ↔ _ ∧ List.Forall₂ SameConstituent
        [(.pointee, .node (ofDatatype pointee))] [(.pointee, .node (ofDatatype pointee'))]
      simp [Datatype.kind, SameConstituent]
    | _ => exact ⟨nofun, fun h => nomatch h.1⟩
  | constPointer pointee =>
    cases b with
    | constPointer pointee' =>
      show (pointee == pointee') = true ↔ _ ∧ List.Forall₂ SameConstituent
        [(.pointee, .node (ofDatatype pointee))] [(.pointee, .node (ofDatatype pointee'))]
      simp [Datatype.kind, SameConstituent]
    | _ => exact ⟨nofun, fun h => nomatch h.1⟩
  | named ident =>
    cases b with
    | named ident' =>
      show (ident == ident') = true ↔ _ ∧ List.Forall₂ SameConstituent
        [(.ident, .node (.identifier ident))] [(.ident, .node (.identifier ident'))]
      simp [Datatype.kind, SameConstituent]
    | _ => exact ⟨nofun, fun h => nomatch h.1⟩

/-- As `beq_iff_constituents`, for a type definition by itself. -/
theorem typedef_beq_iff (a b : Typedef) : (a == b) = true ↔ a.kind = b.kind ∧
    List.Forall₂ SameConstituent (typedef a).constituents (typedef b).constituents := by
  have hmembers := Part.beq_documented .identifier fun _ _ => rfl
  have hfields := Part.beq_documented .field fun _ _ => rfl
  cases a with
  | «alias» type =>
    cases b with
    | «alias» type' =>
      exact (datatype_beq_iff type type').trans (by simp [Typedef.kind, ofDatatype])
    | _ => exact ⟨nofun, fun h => nomatch h.1⟩
  | enum repr members =>
    cases b with
    | enum repr' members' =>
      show (repr == repr' && members == members') = true ↔ _ ∧ List.Forall₂ SameConstituent
        [(.repr, .scalar repr), (.members, .nodes (members.map (ofDocumented .identifier)))]
        [(.repr, .scalar repr'), (.members, .nodes (members'.map (ofDocumented .identifier)))]
      simp [Typedef.kind, SameConstituent, hmembers]
    | _ => exact ⟨nofun, fun h => nomatch h.1⟩
  | flags repr flags =>
    cases b with
    | flags repr' flags' =>
      show (repr == repr' && flags == flags') = true ↔ _ ∧ List.Forall₂ SameConstituent
        [(.repr, .scalar repr), (.flags, .nodes (flags.map (ofDocumented .identifier)))]
        [(.repr, .scalar repr'), (.flags, .nodes (flags'.map (ofDocumented .identifier)))]
      simp [Typedef.kind, SameConstituent, hmembers]
    | _ => exact ⟨nofun, fun h => nomatch h.1⟩
  | struct fields =>
    cases b with
    | struct fields' =>
      show (fields == fields') = true ↔ _ ∧ List.Forall₂ SameConstituent
        [(.fields, .nodes (fields.map (ofDocumented .field)))]
        [(.fields, .nodes (fields'.map (ofDocumented .field)))]
      simp [Typedef.kind, SameConstituent, hfields]
    | _ => exact ⟨nofun, fun h => nomatch h.1⟩
  | union fields =>
    cases b with
    | union fields' =>
      show (fields == fields') = true ↔ _ ∧ List.Forall₂ SameConstituent
        [(.fields, .nodes (fields.map (ofDocumented .field)))]
        [(.fields, .nodes (fields'.map (ofDocumented .field)))]
      simp [Typedef.kind, SameConstituent, hfields]
    | _ => exact ⟨nofun, fun h => nomatch h.1⟩
  | handle supertypes =>
    cases b with
    | handle supertypes' =>
      show (supertypes == supertypes') = true ↔ _ ∧ List.Forall₂ SameConstituent
        [(.supertypes, .nodes (supertypes.map .identifier))]
        [(.supertypes, .nodes (supertypes'.map .identifier))]
      simp [Typedef.kind, SameConstituent, Part.beq_nodes .identifier fun _ _ => rfl]
    | _ => exact ⟨nofun, fun h => nomatch h.1⟩

/-- Constructs are equal if and only if they are of one kind and their parts are equal, the layout
left out. -/
theorem beq_iff_constituents (a b : Node) : (a == b) = true ↔
    a.kind = b.kind ∧ List.Forall₂ SameConstituent a.constituents b.constituents := by
  have hfields := Part.beq_documented .field fun _ _ => rfl
  cases a with
  | document d =>
    cases b with
    | document d' =>
      show (d.items == d'.items) = true ↔ _ ∧ List.Forall₂ SameConstituent
        [(.items, .nodes (d.items.map (ofDocumented ofTopLevel)))]
        [(.items, .nodes (d'.items.map (ofDocumented ofTopLevel)))]
      simp [kind, SameConstituent, Part.beq_documented ofTopLevel beq_ofTopLevel]
    | _ => exact ⟨nofun, fun h => nomatch h.1⟩
  | documented comments item =>
    cases b with
    | documented comments' item' =>
      show (comments == comments' && item == item') = true ↔ _ ∧ List.Forall₂ SameConstituent
        [(.comments, .comments comments), (.item, .node item)]
        [(.comments, .comments comments'), (.item, .node item')]
      simp [kind, SameConstituent]
    | _ => exact ⟨nofun, fun h => nomatch h.1⟩
  | use path =>
    cases b with
    | use path' =>
      show (path == path') = true ↔
        _ ∧ List.Forall₂ SameConstituent [(.path, .text path)] [(.path, .text path')]
      simp [kind, SameConstituent]
    | _ => exact ⟨nofun, fun h => nomatch h.1⟩
  | typename decl =>
    cases b with
    | typename decl' =>
      show (decl.ident == decl'.ident && decl.definition == decl'.definition) = true ↔
        _ ∧ List.Forall₂ SameConstituent
          [(.ident, .node (.identifier decl.ident)),
            (.definition, .node (.typedef decl.definition))]
          [(.ident, .node (.identifier decl'.ident)),
            (.definition, .node (.typedef decl'.definition))]
      simp [kind, SameConstituent]
    | _ => exact ⟨nofun, fun h => nomatch h.1⟩
  | module decl =>
    cases b with
    | module decl' =>
      show (decl.name == decl'.name && decl.decls == decl'.decls) = true ↔
        _ ∧ List.Forall₂ SameConstituent
          [(.name, .node (.identifier decl.name)),
            (.decls, .nodes (decl.decls.map (ofDocumented ofModuleDecl)))]
          [(.name, .node (.identifier decl'.name)),
            (.decls, .nodes (decl'.decls.map (ofDocumented ofModuleDecl)))]
      simp [kind, SameConstituent, Part.beq_documented ofModuleDecl beq_ofModuleDecl]
    | _ => exact ⟨nofun, fun h => nomatch h.1⟩
  | moduleImport decl =>
    cases b with
    | moduleImport decl' =>
      show (decl.name == decl'.name && decl.type == decl'.type) = true ↔
        _ ∧ List.Forall₂ SameConstituent [(.name, .text decl.name), (.type, .importType decl.type)]
          [(.name, .text decl'.name), (.type, .importType decl'.type)]
      simp [kind, SameConstituent]
    | _ => exact ⟨nofun, fun h => nomatch h.1⟩
  | func decl =>
    cases b with
    | func decl' =>
      show (decl.exportName == decl'.exportName && decl.params == decl'.params &&
          decl.results == decl'.results) = true ↔ _ ∧ List.Forall₂ SameConstituent
        [(.exportName, .text decl.exportName),
          (.params, .nodes (decl.params.map (ofDocumented .field))),
          (.results, .nodes (decl.results.map (ofDocumented .field)))]
        [(.exportName, .text decl'.exportName),
          (.params, .nodes (decl'.params.map (ofDocumented .field))),
          (.results, .nodes (decl'.results.map (ofDocumented .field)))]
      simp [kind, SameConstituent, hfields, and_assoc]
    | _ => exact ⟨nofun, fun h => nomatch h.1⟩
  | typedef definition =>
    cases b with
    | typedef definition' =>
      exact (typedef_beq_iff definition definition').trans (by simp [kind])
    | _ => exact ⟨nofun, fun h => nomatch h.1⟩
  | field f =>
    cases b with
    | field f' =>
      show (f.name == f'.name && f.type == f'.type) = true ↔ _ ∧ List.Forall₂ SameConstituent
        [(.name, .node (.identifier f.name)), (.type, .node (ofDatatype f.type))]
        [(.name, .node (.identifier f'.name)), (.type, .node (ofDatatype f'.type))]
      simp [kind, SameConstituent]
    | _ => exact ⟨nofun, fun h => nomatch h.1⟩
  | identifier ident =>
    cases b with
    | identifier ident' =>
      show (ident.name == ident'.name) = true ↔
        _ ∧ List.Forall₂ SameConstituent [(.name, .text ident.name)] [(.name, .text ident'.name)]
      simp [kind, SameConstituent]
    | _ => exact ⟨nofun, fun h => nomatch h.1⟩

/-- Two constructs are equal if and only if they are the same without their layout; and if and only
if they are of one kind and what they are made of is equal, part by part. So equality is an
equivalence, constructs of two kinds are never equal, whatever is built alike from equal parts is
equal, and equal constructs have the same hash. The comments of a construct, as a part, are equal if
they are the same, and they are equal to no construct. -/
theorem equal_up_to_layout :
    (∀ a b : Node, (a == b) = true ↔ a.erase = b.erase) ∧
      (Equivalence fun a b : Node => (a == b) = true) ∧
      (∀ a b : Node, (a == b) = true ↔
        a.kind = b.kind ∧ List.Forall₂ SameConstituent a.constituents b.constituents) ∧
      (∀ a b : Node, (a == b) = true → hash a = hash b) ∧
      (∀ cs cs' : List String, (Part.comments cs == .comments cs') = true ↔ cs = cs') ∧
      ∀ (a : Node) (cs : List String),
        (Part.node a == .comments cs) = false ∧ (Part.comments cs == .node a) = false :=
  ⟨decides_erase.beq_iff, decides_erase.equivalence, beq_iff_constituents,
    fun _ _ => decides_erase.hash_eq_of_beq, fun _ _ => by simp, fun _ _ => ⟨rfl, rfl⟩⟩

/-- A function whose names stand at the span, that of its parameter written as a string or not. -/
def placedFunc (s : Span) (quoted : Bool) : Node :=
  .func ⟨"f", s, [⟨["in"], ⟨"x", s, quoted⟩, .scalar .u8⟩], []⟩

/-- The function in two places, written in both ways; and a pointer, which is no constant pointer to
the same type. -/
theorem equal_up_to_layout_two_places :
    (placedFunc ⟨7, 1, 8, none⟩ true == placedFunc ⟨0, 1, 1, some "g"⟩ false) = true ∧
      hash (placedFunc ⟨7, 1, 8, none⟩ true) = hash (placedFunc ⟨0, 1, 1, some "g"⟩ false) ∧
      (ofDatatype (.pointer (.scalar .u8)) == ofDatatype (.constPointer (.scalar .u8))) =
        false := by
  obtain ⟨hbeq, -, hkind, hhash, -, -⟩ := equal_up_to_layout
  have hsame : (placedFunc ⟨7, 1, 8, none⟩ true == placedFunc ⟨0, 1, 1, some "g"⟩ false) = true :=
    (hbeq _ _).2 rfl
  exact ⟨hsame, hhash _ _ hsame, Bool.eq_false_iff.2 fun h => nomatch ((hkind _ _).1 h).1⟩

end Node

end WitxFrontEnd
