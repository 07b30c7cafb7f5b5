import WitxFrontEnd.Outline

/-!
# Nodes and their parts

A `Node` is any construct of a syntax tree, and a `Part` is whatever a node is made of. Two nodes are
equal if they hold the same apart from the layout of the source. A node has an outline by itself,
and its parts have names and an order.
-/

namespace WitxFrontEnd

/-- A construct of a syntax tree. -/
inductive Node where
  | document (d : Document)
  | documented (comments : List String) (item : Node)
  | use (path : String)
  | typename (decl : Typename)
  | module (decl : Module)
  | moduleImport (decl : ModuleImport)
  | func (decl : InterfaceFunc)
  | typedef (definition : Typedef)
  | field (f : Field)
  | identifier (ident : Identifier)
deriving Repr, BEq, Hashable

/-- A part of a syntax tree. -/
inductive Part where
  | node (n : Node)
  | nodes (ns : List Node)
  | comments (texts : List String)
  | text (t : String)
  | flag (b : Bool)
  | span (s : Span)
  | scalar (type : Scalar)
  | importType (type : ImportType)
deriving Repr, BEq

/-- The names of the parts of nodes. -/
inductive Label where
  | items
  | item
  | comments
  | path
  | ident
  | definition
  | name
  | nameSpan
  | decls
  | type
  | exportName
  | exportSpan
  | params
  | results
  | repr
  | members
  | flags
  | fields
  | supertypes
  | element
  | pointee
  | span
  | quoted
deriving DecidableEq, Repr

namespace Node

/-- A documented construct. -/
def ofDocumented {α : Type} (construct : α → Node) (d : Documented α) : Node :=
  .documented d.comments (construct d.item)

/-- A datatype is the definition that stands for nothing but that datatype. -/
def ofDatatype (type : Datatype) : Node :=
  .typedef (.alias type)

/-- A declaration of a document. -/
def ofTopLevel : TopLevel → Node
  | .use path => .use path
  | .typename decl => .typename decl
  | .module decl => .module decl

/-- A declaration inside a module. -/
def ofModuleDecl : ModuleDecl → Node
  | .moduleImport decl => .moduleImport decl
  | .func decl => .func decl

/-- The outline of a construct by itself. Reference: `_dump`. -/
def outlineLines : Node → List String
  | .document d => Outline.document 0 d
  | .documented comments item => Outline.docLines 0 comments ++ item.outlineLines
  | .use path => Outline.use 0 path
  | .typename decl => Outline.typename 0 decl
  | .module decl => Outline.module 0 decl
  | .moduleImport decl => Outline.moduleImport 0 decl
  | .func decl => Outline.func 0 decl
  | .typedef definition => Outline.typedef 0 definition
  | .field f => Outline.field "" 0 f
  | .identifier ident => Outline.identifier 0 ident

/-- The outline of a construct as one text. Reference: `dump`. -/
def outline (n : Node) : String :=
  Outline.text n.outlineLines

/-- The parts of a datatype, by name and in order. -/
def datatypeParts : Datatype → List (Label × Part)
  | .scalar type => [(.type, .scalar type)]
  | .array element => [(.element, .node (ofDatatype element))]
  | .pointer pointee => [(.pointee, .node (ofDatatype pointee))]
  | .constPointer pointee => [(.pointee, .node (ofDatatype pointee))]
  | .named ident => [(.ident, .node (.identifier ident))]

/-- The parts of a type definition, by name and in order. -/
def typedefParts : Typedef → List (Label × Part)
  | .alias type => datatypeParts type
  | .enum repr members =>
    [(.repr, .scalar repr), (.members, .nodes (members.map (ofDocumented .identifier)))]
  | .flags repr flags =>
    [(.repr, .scalar repr), (.flags, .nodes (flags.map (ofDocumented .identifier)))]
  | .struct fields => [(.fields, .nodes (fields.map (ofDocumented .field)))]
  | .union fields => [(.fields, .nodes (fields.map (ofDocumented .field)))]
  | .handle supertypes => [(.supertypes, .nodes (supertypes.map .identifier))]

/-- The parts of a construct, by name and in order. -/
def parts : Node → List (Label × Part)
  | .document d => [(.items, .nodes (d.items.map (ofDocumented ofTopLevel)))]
  | .documented comments item => [(.comments, .comments comments), (.item, .node item)]
  | .use path => [(.path, .text path)]
  | .typename decl =>
    [(.ident, .node (.identifier decl.ident)), (.definition, .node (.typedef decl.definition))]
  | .module decl =>
    [(.name, .node (.identifier decl.name)),
      (.decls, .nodes (decl.decls.map (ofDocumented ofModuleDecl)))]
  | .moduleImport decl =>
    [(.name, .text decl.name), (.nameSpan, .span decl.nameSpan), (.type, .importType decl.type)]
  | .func decl =>
    [(.exportName, .text decl.exportName), (.exportSpan, .span decl.exportSpan),
      (.params, .nodes (decl.params.map (ofDocumented .field))),
      (.results, .nodes (decl.results.map (ofDocumented .field)))]
  | .typedef definition => typedefParts definition
  | .field f => [(.name, .node (.identifier f.name)), (.type, .node (ofDatatype f.type))]
  | .identifier ident =>
    [(.name, .text ident.name), (.span, .span ident.span), (.quoted, .flag ident.quoted)]

end Node

end WitxFrontEnd
