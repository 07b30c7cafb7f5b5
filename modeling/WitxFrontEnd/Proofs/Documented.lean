import Mathlib.Data.List.TakeWhile
import WitxFrontEnd.Listing
import WitxFrontEnd.Node

/-!
# What outlines and listings document

The documented constructs of a tree are found from the parts of its nodes alone (`Occurrences`),
without regard to how any of them is shown. An outline and a listing of documentation are both made
from the constructs that are found (`Document.views_agree`): each construct has its title and
its documentation in both, and the only other lines of an outline are those of the definitions of
type names.
-/

namespace WitxFrontEnd

open Documentation (Topic)

/-! ## Documented constructs -/

/-- A documented construct: how many documented constructs and how many others are around it, its
role in the construct that holds it, the comments before it, and the construct itself. -/
structure Occurrence where
  depth : Nat
  indent : Nat
  role : Label
  comments : List String
  item : Node

/-- The nodes that a node is made of, in order and by name. -/
def Node.children (n : Node) : List (Label × Node) :=
  n.parts.flatMap fun
    | (label, .node m) => [(label, m)]
    | (label, .nodes ms) => ms.map (label, ·)
    | _ => []

/-- The node stands for a construct by itself, and not for a source or for documentation. -/
def Node.isConstruct : Node → Bool
  | .document _ | .documented .. => false
  | .use _ | .typename _ | .module _ | .moduleImport _ | .func _ | .typedef _ | .field _
  | .identifier _ => true

/-- The documented constructs in some nodes, each before those that it holds. -/
inductive Occurrences : (indent depth : Nat) → List (Label × Node) → List Occurrence → Prop where
  | nil {indent depth : Nat} : Occurrences indent depth [] []
  | document {indent depth : Nat} {role : Label} {d : Document} {rest : List (Label × Node)}
      {inner others : List Occurrence} :
      Occurrences indent depth (Node.document d).children inner →
      Occurrences indent depth rest others →
      Occurrences indent depth ((role, .document d) :: rest) (inner ++ others)
  | documented {indent depth : Nat} {role : Label} {comments : List String} {item : Node}
      {rest : List (Label × Node)} {inner others : List Occurrence} :
      Occurrences indent (depth + 1) [(.item, item)] inner → Occurrences indent depth rest others →
      Occurrences indent depth ((role, .documented comments item) :: rest)
        (⟨depth, indent, role, comments, item⟩ :: (inner ++ others))
  | construct {indent depth : Nat} {role : Label} {n : Node} {rest : List (Label × Node)}
      {inner others : List Occurrence} :
      n.isConstruct = true → Occurrences (indent + 1) depth n.children inner →
      Occurrences indent depth rest others →
      Occurrences indent depth ((role, n) :: rest) (inner ++ others)

/-- Nodes hold one list of documented constructs. -/
theorem Occurrences.unique {indent depth : Nat} {nodes : List (Label × Node)}
    {os os' : List Occurrence} (h : Occurrences indent depth nodes os)
    (h' : Occurrences indent depth nodes os') : os = os' := by
  induction h generalizing os' with
  | nil => cases h'; rfl
  | document _ _ ihinner ihothers =>
    cases h' with
    | document hinner hothers => rw [ihinner hinner, ihothers hothers]
    | construct hconstruct => cases hconstruct
  | documented _ _ ihinner ihothers =>
    cases h' with
    | documented hinner hothers => rw [ihinner hinner, ihothers hothers]
    | construct hconstruct => cases hconstruct
  | construct hconstruct _ _ ihinner ihothers =>
    cases h' with
    | construct _ hinner hothers => rw [ihinner hinner, ihothers hothers]
    | document | documented => cases hconstruct

/-- The occurrences in nodes one behind the other. -/
theorem Occurrences.append {indent depth : Nat} {nodes nodes' : List (Label × Node)}
    {os os' : List Occurrence} (h : Occurrences indent depth nodes os)
    (h' : Occurrences indent depth nodes' os') :
    Occurrences indent depth (nodes ++ nodes') (os ++ os') := by
  induction h with
  | nil => exact h'
  | document hinner _ _ ih =>
    rw [List.append_assoc]
    exact .document hinner (ih h')
  | documented hinner _ _ ih =>
    rw [List.cons_append, List.cons_append, List.append_assoc]
    exact .documented hinner (ih h')
  | construct hconstruct hinner _ _ ih =>
    rw [List.append_assoc]
    exact .construct hconstruct hinner (ih h')

/-! ## How they are shown -/

/-- The word for the role of a slot of a function. -/
def Label.word : Label → String
  | .params => "param "
  | .results => "result "
  | _ => ""

/-- The line that a type definition has of its own. -/
def Typedef.headline : Typedef → String
  | .alias type => type.toString
  | .enum repr _ => "enum " ++ repr.keyword
  | .flags repr _ => "flags " ++ repr.keyword
  | .struct _ => "struct"
  | .union _ => "union"
  | .handle supertypes =>
    "handle" ++ String.join (supertypes.map fun ident => " " ++ ident.toString)

namespace Occurrence

/-- The title of the construct. -/
def title (o : Occurrence) : String :=
  match o.item with
  | .use path => "use \"" ++ path ++ "\""
  | .typename decl => "typename " ++ decl.ident.toString
  | .module decl => "module " ++ decl.name.toString
  | .moduleImport decl => "import \"" ++ decl.name ++ "\""
  | .func decl => "func \"" ++ decl.exportName ++ "\""
  | .field f => o.role.word ++ f.name.toString ++ " " ++ f.type.toString
  | .identifier ident => ident.toString
  | .document _ | .documented .. | .typedef _ => ""

/-- What an outline has behind the title: an import is one of a memory. -/
def suffix (o : Occurrence) : String :=
  match o.item with
  | .moduleImport _ => " (memory)"
  | _ => ""

/-- The lines of documentation, without the blanks at their ends. -/
def docLines (o : Occurrence) : List String :=
  (Text.splitLines (Documentation.docs o.comments).toList).map fun doc =>
    String.ofList (Text.trimRight doc)

/-- In an outline the definition of a type name has a line of its own. -/
def definitionLine (o : Occurrence) : List String :=
  match o.item with
  | .typename decl => [Outline.pad (o.indent + 1) ++ decl.definition.headline]
  | _ => []

/-- The lines of the construct in an outline, without those of the constructs that it holds. -/
def outlineLines (o : Occurrence) : List String :=
  (o.docLines.map fun doc =>
      Outline.pad o.indent ++ if doc = "" then ";;;" else ";;; " ++ doc) ++
    (Outline.pad o.indent ++ o.title ++ o.suffix) :: o.definitionLine

/-- The lines of the construct in a listing of documentation. -/
def listingLines (o : Occurrence) : List String :=
  (Outline.pad o.depth ++ o.title) ::
    o.docLines.map fun doc => if doc = "" then "" else Outline.pad (o.depth + 1) ++ doc

/-- The topic that the construct is in a listing of documentation. -/
def topic (o : Occurrence) : Topic :=
  ⟨o.depth, o.title, o.comments⟩

end Occurrence

/-! ## Lines of documentation -/

namespace Text

/-- Blanks are taken off the first part only if the second is blank. -/
theorem trimRight_append (xs ys : List Char) :
    trimRight (xs ++ ys) = if trimRight ys = [] then trimRight xs else xs ++ trimRight ys := by
  unfold trimRight
  rw [List.reverse_append, List.dropWhile_append]
  cases ys.reverse.dropWhile isBlank <;> simp

/-- What follows a mark is trimmed. If nothing is left of it, so is the mark. -/
theorem ofList_trimRight (mark : String) (cs : List Char) :
    String.ofList (trimRight (mark.toList ++ cs)) =
      if String.ofList (trimRight cs) = "" then String.ofList (trimRight mark.toList)
      else mark ++ String.ofList (trimRight cs) := by
  rw [trimRight_append]
  by_cases h : trimRight cs = []
  · rw [if_pos h, h, if_pos rfl]
  · have hne : String.ofList (trimRight cs) ≠ "" :=
      fun hempty => h (String.ofList_eq_empty_iff.1 hempty)
    rw [if_neg h, if_neg hne, String.ofList_append, String.ofList_toList]

end Text

/-- The indentation is all blank. -/
theorem Outline.trimRight_pad (depth : Nat) : Text.trimRight (pad depth).toList = [] := by
  rw [Text.trimRight, List.reverse_eq_nil_iff, List.dropWhile_eq_nil_iff]
  intro c hc
  rw [List.mem_reverse, pad, String.toList_ofList] at hc
  rw [List.eq_of_mem_replicate hc]
  rfl

namespace Occurrence

/-- The documentation above a construct in an outline. -/
theorem docLines_outline (o : Occurrence) : Outline.docLines o.indent o.comments =
    o.docLines.map fun doc =>
      Outline.pad o.indent ++ if doc = "" then ";;;" else ";;; " ++ doc := by
  have hmark : Text.trimRight ";;; ".toList = ";;;".toList := by decide
  have htrim : String.ofList (Text.trimRight (Outline.pad o.indent ++ ";;; ").toList) =
      Outline.pad o.indent ++ ";;;" := by
    rw [String.toList_append, Text.ofList_trimRight, hmark, String.ofList_toList]
    rfl
  rw [Outline.docLines, docLines, List.map_map]
  refine List.map_congr_left fun doc _ => ?_
  rw [← String.toList_append, Text.ofList_trimRight, htrim, Function.comp_apply]
  split
  · rfl
  · rw [String.append_assoc]

/-- The documentation below a title in a listing. -/
theorem lines_topic (o : Occurrence) : o.topic.lines = o.listingLines := by
  rw [Topic.lines, listingLines, docLines, List.map_map]
  refine congrArg (_ :: ·) (List.map_congr_left fun doc _ => ?_)
  rw [Text.ofList_trimRight, Outline.trimRight_pad]
  rfl

end Occurrence

/-! ## Both views of a construct -/

/-- The documented constructs in some nodes have these topics, and these lines of an outline. -/
def Shown (indent depth : Nat) (nodes : List (Label × Node)) (topics : List Topic)
    (lines : List String) : Prop :=
  ∃ os, Occurrences indent depth nodes os ∧ os.map Occurrence.topic = topics ∧
    os.flatMap Occurrence.outlineLines = lines

namespace Shown

variable {indent depth : Nat} {role : Label} {nodes nodes' : List (Label × Node)}
  {topics topics' : List Topic} {lines lines' : List String}

/-- No nodes show nothing. -/
theorem nil : Shown indent depth [] [] [] :=
  ⟨[], .nil, rfl, rfl⟩

/-- Nodes are shown one behind the other. -/
theorem append (h : Shown indent depth nodes topics lines)
    (h' : Shown indent depth nodes' topics' lines') :
    Shown indent depth (nodes ++ nodes') (topics ++ topics') (lines ++ lines') := by
  obtain ⟨os, hos, rfl, rfl⟩ := h
  obtain ⟨os', hos', rfl, rfl⟩ := h'
  exact ⟨os ++ os', hos.append hos', List.map_append, List.flatMap_append⟩

/-- Nodes with the same role are shown one after the other. -/
theorem each {α : Type} {node : α → Node} {topics : α → List Topic} {lines : α → List String}
    (h : ∀ a, Shown indent depth [(role, node a)] (topics a) (lines a)) (l : List α) :
    Shown indent depth ((l.map node).map (role, ·)) (l.flatMap topics) (l.flatMap lines) := by
  induction l with
  | nil => exact nil
  | cons a l ih => exact (h a).append ih

/-- A construct that is not documented shows what it holds. -/
theorem construct {n : Node} (hn : n.isConstruct = true) (hchildren : n.children = nodes)
    (h : Shown (indent + 1) depth nodes topics lines) :
    Shown indent depth [(role, n)] topics lines := by
  obtain ⟨os, hos, rfl, rfl⟩ := h
  rw [← hchildren] at hos
  refine ⟨os, ?_, rfl, rfl⟩
  rw [← List.append_nil os]
  exact .construct hn hos .nil

/-- A documented construct is shown before what it holds: below its documentation in an outline,
and behind it the line of its definition. -/
theorem documented {α : Type} {node : α → Node} {d : Documented α} {own : List String}
    (h : Shown indent (depth + 1) [(.item, node d.item)] topics lines) :
    let o : Occurrence := ⟨depth, indent, role, d.comments, node d.item⟩
    own = (Outline.pad indent ++ o.title ++ o.suffix) :: (o.definitionLine ++ lines) →
    Shown indent depth [(role, .ofDocumented node d)] (o.topic :: topics)
      (Outline.docLines indent d.comments ++ own) := by
  intro o hown
  obtain ⟨os, hos, rfl, rfl⟩ := h
  refine ⟨o :: os, ?_, rfl, ?_⟩
  · rw [← List.append_nil os]
    exact .documented hos .nil
  · rw [hown, o.docLines_outline, List.flatMap_cons, Occurrence.outlineLines, List.append_assoc]
    rfl

/-- A construct with nothing behind its title and no definition. -/
theorem titled {α : Type} {node : α → Node} {d : Documented α}
    (h : Shown indent (depth + 1) [(.item, node d.item)] topics lines) :
    let o : Occurrence := ⟨depth, indent, role, d.comments, node d.item⟩
    o.suffix = "" → o.definitionLine = [] →
    Shown indent depth [(role, .ofDocumented node d)] (o.topic :: topics)
      (Outline.docLines indent d.comments ++ (Outline.pad indent ++ o.title) :: lines) := by
  intro o hsuffix hdefinition
  refine h.documented ?_
  show _ = (_ ++ o.suffix) :: (o.definitionLine ++ lines)
  rw [hsuffix, hdefinition, String.append_empty]
  rfl

end Shown

/-! ## Nodes without documentation in them -/

/-- There is no documentation in an identifier. -/
theorem shown_identifier {indent depth : Nat} {role : Label} (ident : Identifier) :
    Shown indent depth [(role, .identifier ident)] [] [] := by
  exact .construct rfl rfl .nil

/-- There is no documentation in a datatype. -/
theorem shown_datatype {indent depth : Nat} {role : Label} (type : Datatype) :
    Shown indent depth [(role, .ofDatatype type)] [] [] := by
  induction type generalizing indent role with
  | scalar type => exact .construct rfl rfl .nil
  | array element ih | pointer element ih | constPointer element ih => exact .construct rfl rfl ih
  | named ident => exact .construct rfl rfl (shown_identifier ident)

/-- There is no documentation in a field. -/
theorem shown_field {indent depth : Nat} {role : Label} (f : Field) :
    Shown indent depth [(role, .field f)] [] [] := by
  exact .construct rfl rfl ((shown_identifier f.name).append (shown_datatype f.type))

/-! ## Nodes with documentation in them -/

section

variable {indent depth : Nat} {role : Label}

/-- There is no documentation in a list of identifiers. -/
theorem shown_identifiers (idents : List Identifier) :
    Shown indent depth ((idents.map .identifier).map (role, ·)) [] [] := by
  induction idents with
  | nil => exact .nil
  | cons ident idents ih => exact (shown_identifier ident).append ih

/-- Documented members have a title each, and a line. -/
theorem shown_members (members : List (Documented Identifier)) :
    Shown indent depth ((members.map (.ofDocumented .identifier)).map (role, ·))
      (members.map (Documentation.identifierTopic depth))
      (members.flatMap (Outline.documented Outline.identifier indent)) := by
  rw [List.map_eq_flatMap (f := Documentation.identifierTopic depth)]
  exact .each (fun d => (shown_identifier d.item).titled rfl rfl) members

/-- Documented fields have a title each, and a line, both with the word for their role. -/
theorem shown_fields (fields : List (Documented Field)) :
    Shown indent depth ((fields.map (.ofDocumented .field)).map (role, ·))
      (fields.map (Documentation.fieldTopic role.word depth))
      (fields.flatMap (Outline.documented (Outline.field role.word) indent)) := by
  rw [List.map_eq_flatMap (f := Documentation.fieldTopic role.word depth)]
  exact .each (fun d => (shown_field d.item).titled rfl rfl) fields

/-- A type definition has a line of its own in an outline, and none in a listing. -/
theorem shown_typedef (definition : Typedef) :
    ∃ lines, Outline.typedef indent definition =
        (Outline.pad indent ++ definition.headline) :: lines ∧
      Shown indent depth [(role, .typedef definition)]
        (Documentation.typedefTopics depth definition) lines := by
  cases definition with
  | «alias» type => exact ⟨[], rfl, shown_datatype type⟩
  | enum repr members =>
    exact ⟨_, rfl, .construct rfl (List.append_nil _) (shown_members members)⟩
  | flags repr flags => exact ⟨_, rfl, .construct rfl (List.append_nil _) (shown_members flags)⟩
  | struct fields | union fields =>
    exact ⟨_, rfl, .construct rfl (List.append_nil _) (shown_fields fields)⟩
  | handle supertypes =>
    exact ⟨[], rfl, .construct rfl (List.append_nil _) (shown_identifiers supertypes)⟩

/-- A function shows its parameters and then its results. -/
theorem shown_func (decl : InterfaceFunc) :
    Shown indent depth [(role, .func decl)]
      (decl.params.map (Documentation.fieldTopic "param " depth) ++
        decl.results.map (Documentation.fieldTopic "result " depth))
      (decl.params.flatMap (Outline.documented (Outline.field "param ") (indent + 1)) ++
        decl.results.flatMap (Outline.documented (Outline.field "result ") (indent + 1))) := by
  have hchildren : (Node.func decl).children =
      (decl.params.map (.ofDocumented .field)).map (.params, ·) ++
        (decl.results.map (.ofDocumented .field)).map (.results, ·) :=
    congrArg (_ ++ ·) (List.append_nil _)
  exact .construct rfl hchildren ((shown_fields decl.params).append (shown_fields decl.results))

/-- A declaration inside a module shows itself and, if it is a function, its slots. -/
theorem shown_moduleDecl (d : Documented ModuleDecl) :
    Shown indent depth [(role, .ofDocumented .ofModuleDecl d)]
      (Documentation.moduleDeclTopics depth d)
      (Outline.documented Outline.moduleDecl indent d) := by
  obtain ⟨comments, decl⟩ := d
  cases decl with
  | moduleImport decl =>
    refine Shown.documented (.construct rfl rfl .nil) ?_
    have hsuffix : "\" (" ++ (decl.type.keyword ++ ")") = "\"" ++ " (memory)" := by
      cases decl.type
      decide
    simp [Outline.moduleDecl, Outline.moduleImport, Outline.line, Node.ofModuleDecl, hsuffix,
      Occurrence.title, Occurrence.suffix, Occurrence.definitionLine, String.append_assoc]
  | func decl =>
    exact Shown.titled (shown_func decl) rfl rfl

/-- A module shows its declarations. -/
theorem shown_module (decl : Module) :
    Shown indent depth [(role, .module decl)]
      (decl.decls.flatMap (Documentation.moduleDeclTopics depth))
      (decl.decls.flatMap (Outline.documented Outline.moduleDecl (indent + 1))) := by
  have hchildren : (Node.module decl).children = [(.name, .identifier decl.name)] ++
      (decl.decls.map (.ofDocumented .ofModuleDecl)).map (.decls, ·) :=
    congrArg (_ :: ·) (List.append_nil _)
  exact .construct rfl hchildren
    ((shown_identifier decl.name).append (.each shown_moduleDecl decl.decls))

/-- A declaration of a document shows itself and what it holds. -/
theorem shown_topLevel (d : Documented TopLevel) :
    Shown 0 0 [(role, .ofDocumented .ofTopLevel d)]
      (Documentation.topLevelTopics d) (Outline.documented Outline.topLevel 0 d) := by
  obtain ⟨comments, decl⟩ := d
  cases decl with
  | use path =>
    exact Shown.titled (.construct rfl rfl .nil) rfl rfl
  | typename decl =>
    obtain ⟨lines, htypedef, hshown⟩ := shown_typedef decl.definition
    refine Shown.documented (.construct rfl rfl ((shown_identifier decl.ident).append hshown)) ?_
    simp [Outline.topLevel, Outline.typename, Outline.line, htypedef, Node.ofTopLevel,
      Occurrence.title, Occurrence.suffix, Occurrence.definitionLine]
  | module decl =>
    exact Shown.titled (shown_module decl) rfl rfl

end

/-- An outline and a listing of documentation show the same documented constructs, which are all
that the document holds, in the same order. Both have the title of each and its documentation
without the blanks at the ends of its lines. An outline also says of an import what it is of, and
has a line for the definition of each type name; it has no other lines. -/
theorem Document.views_agree (d : Document) :
    ∃ os, (∀ os', Occurrences 0 0 [(.item, .document d)] os' ↔ os' = os) ∧
      Documentation.listing d = os.flatMap Occurrence.listingLines ∧
      (Node.document d).outlineLines = os.flatMap Occurrence.outlineLines := by
  have hshown : Shown 0 0 ((d.items.map (.ofDocumented .ofTopLevel)).map (.items, ·))
      (Documentation.topics d) (Outline.document 0 d) := .each shown_topLevel d.items
  have hchildren : (Node.document d).children =
      (d.items.map (.ofDocumented .ofTopLevel)).map (.items, ·) := List.append_nil _
  obtain ⟨os, hos, htopics, hlines⟩ := hshown
  rw [← hchildren] at hos
  have hoccurrences : Occurrences 0 0 [(.item, .document d)] os := by
    rw [← List.append_nil os]
    exact .document hos .nil
  refine ⟨os, fun os' => ⟨fun h => h.unique hoccurrences, ?_⟩, ?_, hlines.symm⟩
  · rintro rfl
    exact hoccurrences
  · rw [Documentation.listing, ← htopics, List.flatMap_map]
    exact congrArg (List.flatMap · os) (funext Occurrence.lines_topic)

end WitxFrontEnd
