import WitxFrontEnd.Lexeme
import WitxFrontEnd.ParseError

/-!
# Trees

A source is a forest: each of its trees is a leaf or a form, which is what stands between two
matching parens. `Forest.read` scans a source and matches its parens; of the two ways in which
this can fail before the end, the one that comes first in the source is reported. Texts of leaves
are kept as written, and a form may be nested to any depth.
-/

namespace WitxFrontEnd

/-- A leaf, or a form with the positions of its two parens. Reference: `lark_tree`. -/
inductive Tree where
  | leaf (leaf : Leaf)
  | form (opening : Position) (children : List Tree) (closing : Position)
deriving Repr

/-- The trees of a source, or of a form, in order. -/
abbrev Forest := List Tree

namespace Tree

mutual

/-- Whether two trees are the same. -/
def decEq : (tree tree' : Tree) → Decidable (tree = tree')
  | .leaf l, .leaf l' =>
    if h : l = l' then .isTrue (by rw [h]) else .isFalse (by rintro ⟨⟩; exact h rfl)
  | .form opening children closing, .form opening' children' closing' =>
    match decEqForest children children' with
    | .isTrue h =>
      if hparens : opening = opening' ∧ closing = closing' then
        .isTrue (by rw [h, hparens.1, hparens.2])
      else .isFalse (by rintro ⟨⟩; exact hparens ⟨rfl, rfl⟩)
    | .isFalse h => .isFalse (by rintro ⟨⟩; exact h rfl)
  | .leaf _, .form .. => .isFalse Tree.noConfusion
  | .form .., .leaf _ => .isFalse Tree.noConfusion

/-- Whether two forests are the same. -/
def decEqForest : (forest forest' : List Tree) → Decidable (forest = forest')
  | [], [] => .isTrue rfl
  | tree :: rest, tree' :: rest' =>
    match decEq tree tree', decEqForest rest rest' with
    | .isTrue h, .isTrue hrest => .isTrue (by rw [h, hrest])
    | .isFalse h, _ => .isFalse (by rintro ⟨⟩; exact h rfl)
    | _, .isFalse h => .isFalse (by rintro ⟨⟩; exact h rfl)
  | [], _ :: _ => .isFalse (List.cons_ne_nil _ _).symm
  | _ :: _, [] => .isFalse (List.cons_ne_nil _ _)

end

instance : DecidableEq Tree := decEq

/-- The position of a tree's first character. -/
def pos : Tree → Position
  | .leaf l => l.pos
  | .form opening _ _ => opening

mutual

/-- The lexemes of a tree, from left to right. -/
def lexemes : Tree → List Lexeme
  | .leaf l => [⟨.leaf l.kind, l.text, l.pos⟩]
  | .form opening children closing =>
    ⟨.leftParen, "(", opening⟩ :: (forestLexemes children ++ [⟨.rightParen, ")", closing⟩])

/-- The lexemes of a forest, from left to right. -/
def forestLexemes : List Tree → List Lexeme
  | [] => []
  | tree :: rest => tree.lexemes ++ forestLexemes rest

end

end Tree

/-! ## Matching parens -/

/-- How far the matching of parens has come: the trees read so far of the innermost open form, and
the forms around it from the inside out, each with the paren that opened the form inside it. All
trees stand latest first. -/
structure Nest where
  enclosing : List (Position × Forest)
  trees : Forest

namespace Nest

/-- Nothing read and no form open. -/
def empty : Nest := ⟨[], []⟩

/-- One lexeme further. Fails at a closing paren that no paren opened. -/
def add (nest : Nest) (lexeme : Lexeme) : Except Position Nest :=
  match lexeme.shape with
  | .leaf kind => .ok { nest with trees := .leaf ⟨kind, lexeme.text, lexeme.pos⟩ :: nest.trees }
  | .leftParen => .ok ⟨(lexeme.pos, nest.trees) :: nest.enclosing, []⟩
  | .rightParen =>
    match nest.enclosing with
    | [] => .error lexeme.pos
    | (opening, outer) :: enclosing =>
      .ok ⟨enclosing, .form opening nest.trees.reverse lexeme.pos :: outer⟩

/-- The nest that a run of lexemes builds. -/
def ofLexemes (lexemes : List Lexeme) : Except Position Nest :=
  lexemes.foldlM add empty

end Nest

namespace Forest

/-- The trees of a source. Reference: `lark_tree`. -/
def read (source : String) (filename : Option String) : Except ParseError Forest :=
  let scan := Scan.ofSource source
  match Nest.ofLexemes scan.lexemes, scan.stuck with
  | .error p, _ => .error ⟨.strayClose, p.span filename⟩
  | .ok _, some (p, c) => .error ⟨.unexpectedCharacter c, p.span filename⟩
  | .ok nest, none =>
    match nest.enclosing with
    | [] => .ok nest.trees.reverse
    | _ :: _ =>
      .error ⟨.unclosedForm, (Position.start.advance source.toList).span filename⟩

end Forest

end WitxFrontEnd
