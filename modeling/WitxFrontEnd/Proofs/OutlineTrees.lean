import WitxFrontEnd.Proofs.Rereading
import WitxFrontEnd.Proofs.Writable

/-!
# The trees in an outline

An outline is no source, but it is made of the same words, names, datatypes and comments, and it can
be read. The outline of a type definition is read as trees that are made from the definition
(`Outline.typedefTrees`), if its names can be written (`Outline.linesCut_typedef`) and its types are
not nested too deep: each of its lines is cut into the trees of that line, also where a quoted name
goes over several lines of the text. Definitions that are parsed are of this kind
(`Typedef.exists_readAll_outline`).
-/

namespace WitxFrontEnd

open Lexeme (isAtomChar)

/-! ## Texts of words -/

/-- The text is cut into the symbols of the trees before anything that does not go on with an
atom. -/
def WordCut (es : List SExpr) (text : String) : Prop :=
  ∀ ⦃symbols : List Symbol⦄ ⦃rest : List Char⦄, (∀ x ∈ rest.head?, isAtomChar x = false) →
    Cut symbols rest → Cut (SExpr.forestSymbols es ++ symbols) (text.toList ++ rest)

namespace WordCut

variable {es es' : List SExpr} {text text' : String}

/-- The text of one tree. -/
theorem singleton {e : SExpr}
    (h : ∀ ⦃symbols : List Symbol⦄ ⦃rest : List Char⦄, (∀ x ∈ rest.head?, isAtomChar x = false) →
      Cut symbols rest → Cut (e.symbols ++ symbols) (text.toList ++ rest)) : WordCut [e] text := by
  intro symbols rest hrest hcut
  rw [SExpr.forestSymbols, SExpr.forestSymbols, List.append_nil]
  exact h hrest hcut

/-- A word as its own text. -/
theorem word (h : Lexeme.IsAtom text) : WordCut [.word text] text :=
  singleton fun _ _ hrest hcut => Cut.word text h hrest hcut

/-- A name, quoted or with a dollar sign. -/
theorem identifier {ident : Identifier} (h : ident.quoted = true ∨ ident.Dollar) :
    WordCut [ident.sexpr] ident.toString :=
  singleton fun _ _ hrest hcut => Cut.identifier h hrest hcut

/-- A datatype whose names all have dollar signs. -/
theorem datatype {type : Datatype} (h : type.Dollar) : WordCut [type.sexpr] type.toString :=
  singleton fun _ _ hrest hcut => Cut.datatype h hrest hcut

/-- Two texts with a space between them. -/
theorem space (h : WordCut es text) (h' : WordCut es' text') :
    WordCut (es ++ es') (text ++ " " ++ text') := by
  intro symbols rest hrest hcut
  have hspace := Lexeme.ends_atom ' ' (by decide) (text'.toList ++ rest)
  have hcut' := h hspace (.space rfl (h' hrest hcut))
  rw [SExpr.forestSymbols_append]
  simpa using hcut'

/-- Names with a space before each. -/
theorem names (h : WordCut es text) {idents : List Identifier}
    (hidents : ∀ ident ∈ idents, ident.quoted = true ∨ ident.Dollar) :
    WordCut (es ++ idents.map Identifier.sexpr)
      (text ++ String.join (idents.map fun ident => " " ++ ident.toString)) := by
  induction idents generalizing es text with
  | nil => simpa using h
  | cons ident idents ih =>
    obtain ⟨hident, hidents⟩ := List.forall_mem_cons.1 hidents
    have hcut := ih (h.space (identifier hident)) hidents
    rw [List.append_assoc, String.append_assoc, String.append_assoc] at hcut
    simpa [String.append_assoc] using hcut

/-- Such a text is a line, also with blanks before it. -/
theorem lineCut (h : WordCut es text) (depth : Nat) : LineCut es (Outline.pad depth ++ text) := by
  intro symbols rest hrest hcut
  have hend : ∀ x ∈ rest.head?, isAtomChar x = false := by
    intro x hx
    rw [hrest x hx]
    decide
  rw [String.toList_append, List.append_assoc]
  exact .spaces (Outline.isSpace_pad depth) (h hend hcut)

end WordCut

/-! ## Trees of constructs -/

namespace Outline

/-- The trees of a documented construct: a comment for each line of its documentation, and its
own. -/
def documentedTrees {α : Type} (trees : α → List SExpr) (d : Documented α) : List SExpr :=
  (Documentation.docLines d.comments).map docTree ++ trees d.item

/-- The tree of a name. -/
def identifierTrees (ident : Identifier) : List SExpr :=
  [ident.sexpr]

/-- The trees of a field. -/
def fieldTrees (f : Field) : List SExpr :=
  [f.name.sexpr, f.type.sexpr]

/-- The trees of a type definition. -/
def typedefTrees : Typedef → List SExpr
  | .alias type => [type.sexpr]
  | .enum repr members =>
    .word "enum" :: .word repr.keyword :: members.flatMap (documentedTrees identifierTrees)
  | .flags repr flags =>
    .word "flags" :: .word repr.keyword :: flags.flatMap (documentedTrees identifierTrees)
  | .struct fields => .word "struct" :: fields.flatMap (documentedTrees fieldTrees)
  | .union fields => .word "union" :: fields.flatMap (documentedTrees fieldTrees)
  | .handle supertypes => .word "handle" :: supertypes.map Identifier.sexpr

/-- The lines of documented constructs are their trees, if those of the constructs are. -/
theorem linesCut_documented {α : Type} {trees : α → List SExpr} {construct : Nat → α → List String}
    {depth : Nat} {ds : List (Documented α)}
    (h : ∀ d ∈ ds, LinesCut (trees d.item) (construct depth d.item)) :
    LinesCut (ds.flatMap (documentedTrees trees)) (ds.flatMap (documented construct depth)) :=
  .flatMap fun d hd => (linesCut_docLines depth d.comments).append (h d hd)

/-- The line of a name that can be written. -/
theorem linesCut_identifier {ident : Identifier} (h : (Mention.name ident).Writable) (depth : Nat) :
    LinesCut (identifierTrees ident) (identifier depth ident) :=
  .line ((WordCut.identifier h).lineCut depth)

/-- The line of a field whose names can be written. -/
theorem linesCut_field {f : Field} (h : ∀ mention ∈ f.mentions, mention.Writable) (depth : Nat) :
    LinesCut (fieldTrees f) (field "" depth f) := by
  obtain ⟨hname, htype⟩ := List.forall_mem_cons.1 h
  have hcut := (WordCut.identifier hname).space (.datatype (htype _ f.type.self_mem_mentions))
  refine .line ?_
  rw [String.empty_append]
  exact hcut.lineCut depth

/-- The scalar behind the word that begins a definition. -/
theorem lineCut_repr {head : String} (hhead : Lexeme.IsAtom head) (repr : Scalar) (depth : Nat) :
    LineCut [.word head, .word repr.keyword] (pad depth ++ (head ++ " " ++ repr.keyword)) := by
  have hkeyword : Lexeme.IsAtom repr.keyword := by cases repr <;> decide
  exact ((WordCut.word hhead).space (.word hkeyword)).lineCut depth

/-- The lines of members whose names can be written. -/
theorem linesCut_members {members : List (Documented Identifier)}
    (h : ∀ mention ∈ mentionsOf (fun ident => [.name ident]) members, mention.Writable)
    (depth : Nat) :
    LinesCut (members.flatMap (documentedTrees identifierTrees))
      (members.flatMap (documented identifier depth)) :=
  linesCut_documented fun d hd =>
    linesCut_identifier (h _ (List.mem_flatMap.2 ⟨d, hd, List.mem_cons_self⟩)) depth

/-- The lines of fields whose names can be written. -/
theorem linesCut_fields {fields : List (Documented Field)}
    (h : ∀ mention ∈ mentionsOf Field.mentions fields, mention.Writable) (depth : Nat) :
    LinesCut (fields.flatMap (documentedTrees fieldTrees))
      (fields.flatMap (documented (field "") depth)) :=
  linesCut_documented fun d hd =>
    linesCut_field (fun _ hmention => h _ (List.mem_flatMap.2 ⟨d, hd, hmention⟩)) depth

/-- The lines of a type definition are cut into its trees, if all its names can be written. -/
theorem linesCut_typedef {definition : Typedef}
    (h : ∀ mention ∈ definition.mentions, mention.Writable) (depth : Nat) :
    LinesCut (typedefTrees definition) (typedef depth definition) := by
  cases definition with
  | «alias» type =>
    exact .line ((WordCut.datatype (h _ type.self_mem_mentions)).lineCut depth)
  | enum repr members =>
    exact (LinesCut.line (lineCut_repr (by decide) repr depth)).append (linesCut_members h _)
  | flags repr flags =>
    exact (LinesCut.line (lineCut_repr (by decide) repr depth)).append (linesCut_members h _)
  | struct fields =>
    exact (LinesCut.line ((WordCut.word (by decide)).lineCut depth)).append (linesCut_fields h _)
  | union fields =>
    exact (LinesCut.line ((WordCut.word (by decide)).lineCut depth)).append (linesCut_fields h _)
  | handle supertypes =>
    have hhandle : WordCut [.word "handle"] "handle" := .word (by decide)
    exact .line ((hhandle.names fun ident hident =>
      h _ (List.mem_map_of_mem hident)).lineCut depth)

/-! ## Reading the outline of a type definition -/

/-- Comments are no forms, so the trees of documented constructs are as deep as those of the
constructs. -/
theorem depth_le_of_mem_documentedTrees {α : Type} {trees : α → List SExpr} {n : Nat}
    {ds : List (Documented α)} (h : ∀ d ∈ ds, ∀ e ∈ trees d.item, e.depth ≤ n) :
    ∀ e ∈ ds.flatMap (documentedTrees trees), e.depth ≤ n := by
  intro e he
  obtain ⟨d, hd, he⟩ := List.mem_flatMap.1 he
  rcases List.mem_append.1 he with he | he
  · obtain ⟨doc, -, rfl⟩ := List.mem_map.1 he
    exact Nat.zero_le n
  · exact h d hd e he

/-- The trees of members are no forms. -/
theorem depth_le_of_mem_members {n : Nat} {members : List (Documented Identifier)} :
    ∀ e ∈ members.flatMap (documentedTrees identifierTrees), e.depth ≤ n := by
  refine depth_le_of_mem_documentedTrees fun d _ e he => ?_
  rw [List.mem_singleton.1 he, Identifier.depth_sexpr]
  exact Nat.zero_le n

/-- The trees of fields are as deep as their types have arrays and pointers around each other. -/
theorem depth_le_of_mem_fields {n : Nat} {fields : List (Documented Field)}
    (h : ∀ type, .type type ∈ mentionsOf Field.mentions fields → type.wrappers ≤ n) :
    ∀ e ∈ fields.flatMap (documentedTrees fieldTrees), e.depth ≤ n := by
  refine depth_le_of_mem_documentedTrees fun d hd e he => ?_
  rcases List.mem_cons.1 he with rfl | he
  · rw [Identifier.depth_sexpr]
    exact Nat.zero_le n
  · rw [List.mem_singleton.1 he, Datatype.depth_sexpr]
    refine h _ (List.mem_flatMap.2 ⟨d, hd, ?_⟩)
    exact List.mem_cons_of_mem _ d.item.type.self_mem_mentions

/-- No form in the trees of a definition is deeper than the types of the definition are. -/
theorem depth_le_of_mem_typedefTrees {n : Nat} {definition : Typedef}
    (h : ∀ type, .type type ∈ definition.mentions → type.wrappers ≤ n) :
    ∀ e ∈ typedefTrees definition, e.depth ≤ n := by
  have hword (text : String) : (SExpr.word text).depth ≤ n := Nat.zero_le n
  cases definition with
  | «alias» type =>
    refine List.forall_mem_singleton.2 ?_
    rw [type.depth_sexpr]
    exact h type type.self_mem_mentions
  | enum repr members =>
    exact List.forall_mem_cons.2 ⟨hword _,
      List.forall_mem_cons.2 ⟨hword _, depth_le_of_mem_members⟩⟩
  | flags repr flags =>
    exact List.forall_mem_cons.2 ⟨hword _,
      List.forall_mem_cons.2 ⟨hword _, depth_le_of_mem_members⟩⟩
  | struct fields => exact List.forall_mem_cons.2 ⟨hword _, depth_le_of_mem_fields h⟩
  | union fields => exact List.forall_mem_cons.2 ⟨hword _, depth_le_of_mem_fields h⟩
  | handle supertypes =>
    refine List.forall_mem_cons.2 ⟨hword _, List.forall_mem_map.2 fun ident _ => ?_⟩
    rw [ident.depth_sexpr]
    exact Nat.zero_le n

end Outline

/-- The outline of a type definition that was parsed is read as the trees of the definition. -/
theorem Typedef.exists_readAll_outline {source : String} {filename : Option String}
    {definition : Typedef} (h : parse source filename = .ok definition)
    (filename' : Option String) :
    ∃ items, Item.readAll (Node.typedef definition).outline filename' = .ok items ∧
      Item.sexprs items = Outline.typedefTrees definition := by
  have hcut := Outline.linesCut_typedef (writable_of_parse h) 0
  have hdepth := Outline.depth_le_of_mem_typedefTrees (Item.wrappers_le (holds_of_parse h))
  exact hcut.exists_readAll (SExpr.forestDepth_le hdepth) filename'

end WitxFrontEnd
