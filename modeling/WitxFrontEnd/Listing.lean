import WitxFrontEnd.Outline
import WitxFrontEnd.Tree

/-!
# Listings

Two more ways to show a source. The listing of a forest has one line for each tree and each paren,
whatever characters they hold; a long text is cut, and the cut shows. It is printed line by line by
a printer that calls itself for whatever stands inside, so it needs as much room on the stack as the
forest is high and is cut off where the room ends. The listing of a document shows what can be
documented, each with its documentation below it.
-/

namespace WitxFrontEnd

/-! ## Rules and tokens -/

/-- The rules of the grammar of lexemes. -/
inductive RuleName where
  | start
  | form
deriving DecidableEq, Repr

/-- The name of a rule in a listing. -/
def RuleName.name : RuleName → String
  | .start => "start"
  | .form => "form"

/-- The name of a token's type in a listing. -/
def Shape.name : Shape → String
  | .leftParen => "LPAR"
  | .rightParen => "RPAR"
  | .leaf .string => "STRING"
  | .leaf .atom => "ATOM"
  | .leaf .lineComment => "LINE_COMMENT"
  | .leaf .blockComment => "BLOCK_COMMENT"

/-- A tree of rules, with what they hold, and of tokens, with their types and texts. A rule begins
where the first thing in it does, and nowhere if nothing is in it. Reference: `lark_tree`. -/
inductive RuleTree where
  | rule (name : RuleName) (begins : Option Position) (children : List RuleTree)
  | token (type : Shape) (text : String) (pos : Position)
deriving Repr

mutual

/-- The rules and tokens of a tree. A form holds its parens. -/
def Tree.ruleTree : Tree → RuleTree
  | .leaf l => .token (.leaf l.kind) l.text l.pos
  | .form opening children closing =>
    .rule .form (some opening) (.token .leftParen "(" opening ::
      (Forest.ruleTrees children ++ [.token .rightParen ")" closing]))

/-- The rules and tokens of each tree. -/
def Forest.ruleTrees : List Tree → List RuleTree
  | [] => []
  | tree :: rest => tree.ruleTree :: Forest.ruleTrees rest

end

/-- The rules and tokens of a source. -/
def Forest.ruleTree (forest : Forest) : RuleTree :=
  .rule .start (forest.head?.map Tree.pos) (Forest.ruleTrees forest)

/-! ## Printing rules and tokens -/

/-- What a printer has come to: the lines that it has printed, and whether it came to its end. -/
structure Printout where
  lines : List String
  complete : Bool
deriving DecidableEq, Repr

namespace Printout

/-- Nothing to print. -/
def empty : Printout := ⟨[], true⟩

/-- One line. -/
def line (text : String) : Printout := ⟨[text], true⟩

/-- Nothing, because there is no room for the call that would print. -/
def cut : Printout := ⟨[], false⟩

/-- One printout behind another. Nothing is printed behind one that was cut off. -/
def append (first next : Printout) : Printout :=
  if first.complete then ⟨first.lines ++ next.lines, next.complete⟩ else first

instance : Append Printout := ⟨append⟩

end Printout

namespace RuleTree

/-- A text in a listing: quoted, and if it has sixty characters or more, cut to fifty-seven and
three dots. -/
def shownText (text : String) : String :=
  let cs := text.toList
  String.ofList (Text.quoted (if cs.length < 60 then cs else cs.take 57 ++ ['.', '.', '.']))

/-- A position behind a line of a listing, if positions are shown. -/
def place (positions : Bool) (p : Position) : String :=
  if positions then " @" ++ toString p.line ++ ":" ++ toString p.column else ""

/-- What the line of a node says. -/
def label (positions : Bool) : RuleTree → String
  | .rule name begins _ => name.name ++ ":" ++ (begins.map (place positions)).getD ""
  | .token type text pos => type.name ++ ": " ++ shownText text ++ place positions pos

mutual

/-- Prints a node at a depth and then what is in it, with room for so many calls inside each other.
Reference: `prettylark`. -/
def print (positions : Bool) (room depth : Nat) : RuleTree → Printout
  | .rule name begins children =>
    match room with
    | 0 => .cut
    | room + 1 =>
      .line (Outline.pad depth ++ label positions (.rule name begins children)) ++
        printAll positions room (depth + 1) children
  | .token type text pos =>
    match room with
    | 0 => .cut
    | _ + 1 => .line (Outline.pad depth ++ label positions (.token type text pos))

/-- Prints some nodes at a depth. -/
def printAll (positions : Bool) (room depth : Nat) : List RuleTree → Printout
  | [] => .empty
  | tree :: rest => print positions room depth tree ++ printAll positions room depth rest

end

end RuleTree

/-! ## Listing documentation -/

namespace Documentation

/-- Something that can be documented: how deep it lies, its title, and the comments before it. -/
structure Topic where
  depth : Nat
  title : String
  comments : List String
deriving DecidableEq, Repr

/-- The topic of an identifier. -/
def identifierTopic (depth : Nat) (d : Documented Identifier) : Topic :=
  ⟨depth, d.item.toString, d.comments⟩

/-- The topic of a field, or of a slot of a function behind the word for its role. -/
def fieldTopic (role : String) (depth : Nat) (d : Documented Field) : Topic :=
  ⟨depth, role ++ d.item.name.toString ++ " " ++ d.item.type.toString, d.comments⟩

/-- The topics inside a type definition. Reference: `_documented_children`. -/
def typedefTopics (depth : Nat) : Typedef → List Topic
  | .enum _ members => members.map (identifierTopic depth)
  | .flags _ flags => flags.map (identifierTopic depth)
  | .struct fields => fields.map (fieldTopic "" depth)
  | .union fields => fields.map (fieldTopic "" depth)
  | .alias _ | .handle _ => []

/-- The topics of a declaration inside a module. Reference: `_documented_children`. -/
def moduleDeclTopics (depth : Nat) (d : Documented ModuleDecl) : List Topic :=
  match d.item with
  | .moduleImport decl => [⟨depth, "import \"" ++ decl.name ++ "\"", d.comments⟩]
  | .func decl =>
    ⟨depth, "func \"" ++ decl.exportName ++ "\"", d.comments⟩ ::
      (decl.params.map (fieldTopic "param " (depth + 1)) ++
        decl.results.map (fieldTopic "result " (depth + 1)))

/-- The topics of a declaration of a document. -/
def topLevelTopics (d : Documented TopLevel) : List Topic :=
  match d.item with
  | .use path => [⟨0, "use \"" ++ path ++ "\"", d.comments⟩]
  | .typename decl =>
    ⟨0, "typename " ++ decl.ident.toString, d.comments⟩ :: typedefTopics 1 decl.definition
  | .module decl =>
    ⟨0, "module " ++ decl.name.toString, d.comments⟩ :: decl.decls.flatMap (moduleDeclTopics 1)

/-- The topics of a document. -/
def topics (document : Document) : List Topic :=
  document.items.flatMap topLevelTopics

/-- The lines of a topic: its title, and one step deeper its documentation. Reference:
`_print_docs`. -/
def Topic.lines (topic : Topic) : List String :=
  (Outline.pad topic.depth ++ topic.title) ::
    (docLines topic.comments).map fun doc =>
      String.ofList (Text.trimRight ((Outline.pad (topic.depth + 1)).toList ++ doc))

/-- The lines of all topics of a document. Reference: `show_docs`. -/
def listing (document : Document) : List String :=
  (topics document).flatMap Topic.lines

end Documentation

end WitxFrontEnd
