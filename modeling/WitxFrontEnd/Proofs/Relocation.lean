import WitxFrontEnd.Proofs.View
import WitxFrontEnd.Tree

/-!
# Positions moved

Reading decides nothing by where something stands. If every position is moved by one and the same
function, the nest that a run of lexemes builds is moved (`Nest.foldlM_relocate`), and so are the
items of a forest and the mistake in it (`Item.ofForest_relocate`), provided that the spans are
moved along. The function may bring positions together: moved to one place, two sources of the same
lexemes are no longer told apart.
-/

namespace WitxFrontEnd

/-- A lexeme moved. -/
def Lexeme.relocate (f : Position → Position) (l : Lexeme) : Lexeme :=
  { l with pos := f l.pos }

namespace Tree

mutual

/-- A tree moved. -/
def relocate (f : Position → Position) : Tree → Tree
  | .leaf l => .leaf { l with pos := f l.pos }
  | .form opening children closing => .form (f opening) (relocateAll f children) (f closing)

/-- A forest moved. -/
def relocateAll (f : Position → Position) : Forest → Forest
  | [] => []
  | tree :: rest => tree.relocate f :: relocateAll f rest

end

/-- A forest is moved tree by tree. -/
theorem relocateAll_eq_map (f : Position → Position) (forest : Forest) :
    relocateAll f forest = forest.map (relocate f) := by
  induction forest with
  | nil => rfl
  | cons tree rest ih => rw [relocateAll, ih, List.map_cons]

/-- The order of the trees has no part in it. -/
theorem relocateAll_reverse (f : Position → Position) (forest : Forest) :
    relocateAll f forest.reverse = (relocateAll f forest).reverse := by
  rw [relocateAll_eq_map, relocateAll_eq_map, List.map_reverse]

end Tree

/-! ## Nests -/

namespace Nest

variable (f : Position → Position) (base : Forest)

/-- The open forms of a nest moved, the outermost of them behind the given trees. -/
def relocateEnclosing : List (Position × Forest) → List (Position × Forest)
  | [] => []
  | [(opening, outer)] => [(f opening, Tree.relocateAll f outer ++ base)]
  | (opening, outer) :: rest => (f opening, Tree.relocateAll f outer) :: relocateEnclosing rest

/-- A nest moved, behind the given trees. -/
def relocate (nest : Nest) : Nest :=
  match nest.enclosing with
  | [] => ⟨[], Tree.relocateAll f nest.trees ++ base⟩
  | open_ :: rest => ⟨relocateEnclosing f base (open_ :: rest), Tree.relocateAll f nest.trees⟩

/-- The outcome of matching parens, moved and behind the given trees. -/
def relocated : Except Position Nest → Except Position Nest
  | .ok nest => .ok (nest.relocate f base)
  | .error p => .error (f p)

/-- What one more lexeme does is the same behind other trees and elsewhere. -/
theorem add_relocate (nest : Nest) (l : Lexeme) :
    (nest.relocate f base).add (l.relocate f) = relocated f base (nest.add l) := by
  obtain ⟨shape, text, pos⟩ := l
  obtain ⟨enclosing, trees⟩ := nest
  cases shape with
  | leaf kind => cases enclosing <;> rfl
  | leftParen => cases enclosing <;> rfl
  | rightParen =>
    rcases enclosing with _ | ⟨⟨opening, outer⟩, _ | ⟨outermost, rest⟩⟩
    · rfl
    · show Except.ok (Nest.mk [] (.form _ (Tree.relocateAll f trees).reverse _ ::
        (Tree.relocateAll f outer ++ base))) =
          Except.ok (Nest.mk [] (.form _ (Tree.relocateAll f trees.reverse) _ ::
            Tree.relocateAll f outer ++ base))
      rw [Tree.relocateAll_reverse]
      rfl
    · show Except.ok (Nest.mk _ (.form _ (Tree.relocateAll f trees).reverse _ ::
        Tree.relocateAll f outer)) =
          Except.ok (Nest.mk _ (.form _ (Tree.relocateAll f trees.reverse) _ ::
            Tree.relocateAll f outer))
      rw [Tree.relocateAll_reverse]
      rfl

/-- So is what a run of lexemes does. -/
theorem foldlM_relocate (lexemes : List Lexeme) (nest : Nest) :
    (lexemes.map (Lexeme.relocate f)).foldlM add (nest.relocate f base) =
      relocated f base (lexemes.foldlM add nest) := by
  induction lexemes generalizing nest with
  | nil => rfl
  | cons l lexemes ih =>
    rw [List.map_cons, List.foldlM_cons, List.foldlM_cons, add_relocate]
    cases nest.add l with
    | error p => rfl
    | ok next => exact ih next

end Nest

/-! ## Items -/

section Items

variable {v : View} {f : Position → Position} {filename filename' : Option String}

/-- The token of a leaf moved is its token moved. What it says has nothing to do with where it is. -/
theorem Token.ofLeaf_relocate (hf : ∀ p, (f p).span filename' = v.span (p.span filename))
    (l : Leaf) :
    ofLeaf filename' { l with pos := f l.pos } =
      v.outcome (fun t => { t with span := v.span t.span }) (ofLeaf filename l) := by
  obtain ⟨kind, text, pos⟩ := l
  unfold ofLeaf ofLeafAs
  dsimp only
  rw [hf]
  cases kind with
  | string =>
    dsimp only
    cases Literal.decode (codePoints text) <;> rfl
  | atom | lineComment | blockComment => rfl

namespace Item

mutual

/-- The item of a tree moved is its item moved, and so is the mistake in it. -/
theorem ofTree_relocate (hv : v.keepsComments = true)
    (hf : ∀ p, (f p).span filename' = v.span (p.span filename)) : ∀ (tree : Tree) (depth : Nat),
    ofTree filename' depth (tree.relocate f) = v.outcome v.item (ofTree filename depth tree)
  | .leaf l, depth => by
    rw [Tree.relocate, ofTree_leaf, ofTree_leaf, Token.ofLeaf_relocate hf]
    cases Token.ofLeaf filename l <;> rfl
  | .form opening children closing, depth => by
    rw [Tree.relocate, ofTree_form, ofTree_form]
    split
    · rw [hf]
      rfl
    · rw [ofForest_relocate hv hf children]
      cases ofForest filename (depth + 1) children with
      | error e => rfl
      | ok items => rw [hf, hf]; rfl

/-- The items of a forest moved are its items moved, and so is the mistake in it. -/
theorem ofForest_relocate (hv : v.keepsComments = true)
    (hf : ∀ p, (f p).span filename' = v.span (p.span filename)) :
    ∀ (forest : Forest) (depth : Nat), ofForest filename' depth (Tree.relocateAll f forest) =
      v.outcome v.items (ofForest filename depth forest)
  | [], depth => rfl
  | tree :: rest, depth => by
    rw [Tree.relocateAll, ofForest_cons, ofForest_cons, ofTree_relocate hv hf tree]
    cases ofTree filename depth tree with
    | error e => rfl
    | ok i =>
      show (ofForest filename' depth (Tree.relocateAll f rest) >>= _) =
        v.outcome _ (ofForest filename depth rest >>= _)
      rw [ofForest_relocate hv hf rest]
      cases ofForest filename depth rest with
      | error e => rfl
      | ok items =>
        show Except.ok (v.item i :: v.items items) = Except.ok (v.items (i :: items))
        rw [View.items, if_neg (by simp [hv])]

end

end Item

end Items

end WitxFrontEnd
