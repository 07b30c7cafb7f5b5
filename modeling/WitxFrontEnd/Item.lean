import WitxFrontEnd.Literal
import WitxFrontEnd.Tree

/-!
# Items

Items are trees ready for the grammar: atoms are sorted into identifiers, keywords and reserved
words, strings are decoded, and every item carries its span. Turning trees into items fails at the
first literal that denotes nothing and at the first form inside `maxNesting` others, whichever
comes first in the source.

A source may also be handed over as code points (`readCodePoints`). It is scanned as it is shown, and
its literals are decoded as they are written.
-/

namespace WitxFrontEnd

/-- The kinds of tokens that the grammar tells apart. -/
inductive TokenKind where
  | string
  | identifier
  | keyword
  | reserved
  | lineComment
  | blockComment
deriving DecidableEq, Repr

/-- A token. Its text is what a string denotes, and the source text of any other token. Reference:
`Token`. -/
structure Token where
  kind : TokenKind
  text : String
  span : Span
deriving DecidableEq, Repr

/-- A token, or a form with the spans of its two parens. Reference: `Form`. -/
inductive Item where
  | token (token : Token)
  | form (items : List Item) (span closing : Span)
deriving Repr

/-- An atom is an identifier if something follows its leading dollar sign, a keyword if it begins
with a small letter, and a reserved word otherwise. Reference: `_classify`. -/
def TokenKind.ofAtom (text : String) : TokenKind :=
  match text.toList with
  | '$' :: _ :: _ => .identifier
  | c :: _ => if 'a' ≤ c && c ≤ 'z' then .keyword else .reserved
  | [] => .reserved

/-- Comments may stand anywhere and mean nothing to the grammar. Reference: `_is_comment`. -/
def TokenKind.isComment : TokenKind → Bool
  | .lineComment | .blockComment => true
  | .string | .identifier | .keyword | .reserved => false

/-- What a comment says: its text without the marks that make it a comment. A line comment has its
mark in front, a block comment at both ends. Reference: `_comments`. -/
def Token.comment? (token : Token) : Option String :=
  match token.kind with
  | .lineComment => some (String.ofList (token.text.toList.drop 2))
  | .blockComment => some (String.ofList (token.text.toList.drop 2).dropLast.dropLast)
  | .string | .identifier | .keyword | .reserved => none

/-- The code points of a leaf that stands in a source. -/
def Leaf.writtenIn (source : List CodePoint) (leaf : Leaf) : List CodePoint :=
  (source.drop leaf.pos.offset).take leaf.text.length

/-- The token of a leaf, given how its text is written. -/
def Token.ofLeafAs (written : Leaf → List CodePoint) (filename : Option String) (leaf : Leaf) :
    Except ParseError Token :=
  let span := leaf.pos.span filename
  match leaf.kind with
  | .string =>
    match Literal.decode (written leaf) with
    | .ok text => .ok ⟨.string, text, span⟩
    | .error fault => .error ⟨.literal fault, span⟩
  | .atom => .ok ⟨.ofAtom leaf.text, leaf.text, span⟩
  | .lineComment => .ok ⟨.lineComment, leaf.text, span⟩
  | .blockComment => .ok ⟨.blockComment, leaf.text, span⟩

/-- The token of a leaf. -/
def Token.ofLeaf (filename : Option String) (leaf : Leaf) : Except ParseError Token :=
  ofLeafAs (fun leaf => codePoints leaf.text) filename leaf

namespace Item

mutual

/-- Whether two items are the same. -/
def decEq : (item item' : Item) → Decidable (item = item')
  | .token t, .token t' =>
    if h : t = t' then .isTrue (by rw [h]) else .isFalse (by rintro ⟨⟩; exact h rfl)
  | .form items span closing, .form items' span' closing' =>
    match decEqAll items items' with
    | .isTrue h =>
      if hparens : span = span' ∧ closing = closing' then
        .isTrue (by rw [h, hparens.1, hparens.2])
      else .isFalse (by rintro ⟨⟩; exact hparens ⟨rfl, rfl⟩)
    | .isFalse h => .isFalse (by rintro ⟨⟩; exact h rfl)
  | .token _, .form .. => .isFalse Item.noConfusion
  | .form .., .token _ => .isFalse Item.noConfusion

/-- Whether some items are the same as others. -/
def decEqAll : (items items' : List Item) → Decidable (items = items')
  | [], [] => .isTrue rfl
  | item :: rest, item' :: rest' =>
    match decEq item item', decEqAll rest rest' with
    | .isTrue h, .isTrue hrest => .isTrue (by rw [h, hrest])
    | .isFalse h, _ => .isFalse (by rintro ⟨⟩; exact h rfl)
    | _, .isFalse h => .isFalse (by rintro ⟨⟩; exact h rfl)
  | [], _ :: _ => .isFalse (List.cons_ne_nil _ _).symm
  | _ :: _, [] => .isFalse (List.cons_ne_nil _ _)

end

instance : DecidableEq Item := decEq

/-- The most forms that may stand around each other. Reference: `MAX_NESTING`. -/
def maxNesting : Nat := 200

/-- The span of a token, or of a form's opening paren. -/
def span : Item → Span
  | .token t => t.span
  | .form _ span _ => span

/-- The text of a token. A form has none of its own. -/
def text : Item → String
  | .token t => t.text
  | .form .. => ""

/-- What a comment says, if the item is one. -/
def comment? : Item → Option String
  | .token t => t.comment?
  | .form .. => none

/-- Whether the item is a comment. -/
def isComment : Item → Bool
  | .token t => t.kind.isComment
  | .form .. => false

/-- The items with the text of a comment are the comments. -/
theorem isSome_comment? (item : Item) : item.comment?.isSome = item.isComment := by
  cases item with
  | token t =>
    obtain ⟨kind, text, span⟩ := t
    cases kind <;> rfl
  | form => rfl

mutual

/-- The number of tokens and forms in an item, itself included. -/
def size : Item → Nat
  | .token _ => 1
  | .form items _ _ => totalSize items + 1

/-- The number of tokens and forms in some items. -/
def totalSize : List Item → Nat
  | [] => 0
  | item :: rest => item.size + totalSize rest

end

/-- No item is empty. -/
theorem size_pos (item : Item) : 0 < item.size := by
  cases item <;> simp [size]

mutual

/-- The item of a tree that stands inside `depth` forms, given how the texts of leaves are written.
Reference: `_convert_tree`. -/
def ofTreeAs (written : Leaf → List CodePoint) (filename : Option String) (depth : Nat) :
    Tree → Except ParseError Item
  | .leaf l => (Token.ofLeafAs written filename l).map .token
  | .form opening children closing =>
    if maxNesting ≤ depth then .error ⟨.nestingTooDeep, opening.span filename⟩
    else do
      let items ← ofForestAs written filename (depth + 1) children
      return .form items (opening.span filename) (closing.span filename)

/-- The items of trees that stand inside `depth` forms. -/
def ofForestAs (written : Leaf → List CodePoint) (filename : Option String) (depth : Nat) :
    List Tree → Except ParseError (List Item)
  | [] => .ok []
  | tree :: rest => do
    let item ← ofTreeAs written filename depth tree
    let items ← ofForestAs written filename depth rest
    return item :: items

end

/-- The item of a tree that stands inside `depth` forms. -/
def ofTree (filename : Option String) (depth : Nat) (tree : Tree) : Except ParseError Item :=
  ofTreeAs (fun leaf => codePoints leaf.text) filename depth tree

/-- The items of trees that stand inside `depth` forms. -/
def ofForest (filename : Option String) (depth : Nat) (forest : List Tree) :
    Except ParseError (List Item) :=
  ofForestAs (fun leaf => codePoints leaf.text) filename depth forest

section

variable (filename : Option String) (depth : Nat)

/-- A leaf becomes a token. -/
theorem ofTree_leaf (l : Leaf) :
    ofTree filename depth (.leaf l) = (Token.ofLeaf filename l).map .token := by
  rw [ofTree, ofTreeAs, Token.ofLeaf]

/-- A form is refused inside too many others, and its children are turned into items otherwise. -/
theorem ofTree_form (opening : Position) (children : List Tree) (closing : Position) :
    ofTree filename depth (.form opening children closing) =
      if maxNesting ≤ depth then .error ⟨.nestingTooDeep, opening.span filename⟩
      else do
        let items ← ofForest filename (depth + 1) children
        return .form items (opening.span filename) (closing.span filename) := by
  rw [ofTree, ofTreeAs, ofForest]

/-- Trees are turned into items from left to right. -/
theorem ofForest_cons (tree : Tree) (rest : List Tree) :
    ofForest filename depth (tree :: rest) = do
      let item ← ofTree filename depth tree
      let items ← ofForest filename depth rest
      return item :: items := by
  rw [ofForest, ofForestAs]
  rfl

end

/-- The items of a source. Reference: `read`. -/
def readAll (source : String) (filename : Option String) : Except ParseError (List Item) := do
  let forest ← Forest.read source filename
  ofForest filename 0 forest

/-- The items of a source that is handed over as code points. -/
def readCodePoints (source : List CodePoint) (filename : Option String) :
    Except ParseError (List Item) := do
  let forest ← Forest.read (shownText source) filename
  ofForestAs (Leaf.writtenIn source) filename 0 forest

end Item

/-- Whether an item is what a pattern asks for. Comments match no pattern. Reference: `Keyword`,
`Reserved`, `_Kind`, `_LParen`. -/
def Pattern.accepts : Pattern → Item → Bool
  | .leftParen, .form .. => true
  | .leftParen, .token _ => false
  | .identifier, .token t => t.kind == .identifier
  | .string, .token t => t.kind == .string
  | .keyword word, .token t => t.kind == .keyword && t.text == word
  | .reserved word, .token t => t.kind == .reserved && t.text == word
  | _, .form .. => false

end WitxFrontEnd
