import WitxFrontEnd.Proofs.Munch
import WitxFrontEnd.Tree

/-!
# Matching parens

The lexemes of a forest nest to the forest (`Nest.ofLexemes_forestLexemes`), and the forest that a
source is read as has the lexemes of the source (`Forest.lexemes_of_read`). For the one the trees
are added to any nest, for the other a nest has lexemes of its own, those that it was built from.
-/

namespace WitxFrontEnd

/-- The lexemes of two forests, one behind the other. -/
theorem Tree.forestLexemes_append (f g : Forest) :
    forestLexemes (f ++ g) = forestLexemes f ++ forestLexemes g := by
  induction f with
  | nil => rfl
  | cons tree f ih => rw [List.cons_append, forestLexemes, forestLexemes, ih, List.append_assoc]

namespace Nest

mutual

/-- The lexemes of a tree add the tree. -/
theorem foldlM_lexemes : ∀ (tree : Tree) (nest : Nest),
    tree.lexemes.foldlM add nest = .ok { nest with trees := tree :: nest.trees }
  | .leaf l, nest => rfl
  | .form opening children closing, nest => by
    rw [Tree.lexemes, List.foldlM_cons]
    show List.foldlM add ⟨(opening, nest.trees) :: nest.enclosing, []⟩ _ = _
    rw [List.foldlM_append, foldlM_forestLexemes children]
    show Except.ok (Nest.mk nest.enclosing
      (.form opening (children.reverse ++ []).reverse closing :: nest.trees)) = _
    rw [List.append_nil, List.reverse_reverse]

/-- The lexemes of a forest add its trees. -/
theorem foldlM_forestLexemes : ∀ (forest : Forest) (nest : Nest),
    (Tree.forestLexemes forest).foldlM add nest =
      .ok { nest with trees := forest.reverse ++ nest.trees }
  | [], nest => rfl
  | tree :: rest, nest => by
    rw [Tree.forestLexemes, List.foldlM_append, foldlM_lexemes tree]
    show (Tree.forestLexemes rest).foldlM add ⟨nest.enclosing, tree :: nest.trees⟩ = _
    rw [foldlM_forestLexemes rest, List.reverse_cons, List.append_assoc]
    rfl

end

/-- The lexemes of a forest nest to the forest. -/
theorem ofLexemes_forestLexemes (forest : Forest) :
    ofLexemes (Tree.forestLexemes forest) = .ok ⟨[], forest.reverse⟩ := by
  rw [ofLexemes, foldlM_forestLexemes, empty, List.append_nil]

/-- The lexemes that lead to where the innermost open form begins. -/
def enclosingLexemes : List (Position × Forest) → List Lexeme
  | [] => []
  | (opening, outer) :: enclosing =>
    enclosingLexemes enclosing ++ Tree.forestLexemes outer.reverse ++ [⟨.leftParen, "(", opening⟩]

/-- The lexemes that a nest was built from. -/
def lexemes (nest : Nest) : List Lexeme :=
  enclosingLexemes nest.enclosing ++ Tree.forestLexemes nest.trees.reverse

/-- What is added to a nest is the last that it was built from. -/
theorem lexemes_add {nest nest' : Nest} {l : Lexeme}
    (hstands : ∃ rest, Lexeme.Stands l.shape l.text.toList rest) (h : nest.add l = .ok nest') :
    nest'.lexemes = nest.lexemes ++ [l] := by
  obtain ⟨rest, hstands⟩ := hstands
  have hparen := hstands.paren
  obtain ⟨enclosing, trees⟩ := nest
  obtain ⟨shape, text, pos⟩ := l
  cases shape with
  | leaf kind =>
    cases h
    simp [lexemes, Tree.forestLexemes_append, Tree.forestLexemes, Tree.lexemes]
  | leftParen =>
    cases h
    obtain rfl : text = "(" := hparen.1 rfl
    simp [lexemes, enclosingLexemes, Tree.forestLexemes]
  | rightParen =>
    obtain rfl : text = ")" := hparen.2 rfl
    rcases enclosing with _ | ⟨⟨opening, outer⟩, enclosing⟩
    · cases h
    · cases h
      simp [lexemes, enclosingLexemes, Tree.forestLexemes_append, Tree.forestLexemes, Tree.lexemes]

/-- What a run of lexemes builds, with what was there before, was built from them. -/
theorem lexemes_foldlM {ls : List Lexeme} {nest nest' : Nest}
    (hstands : ∀ l ∈ ls, ∃ rest, Lexeme.Stands l.shape l.text.toList rest)
    (h : ls.foldlM add nest = .ok nest') : nest'.lexemes = nest.lexemes ++ ls := by
  induction ls generalizing nest with
  | nil => cases h; exact (List.append_nil _).symm
  | cons l ls ih =>
    rw [List.foldlM_cons] at h
    cases hadd : nest.add l with
    | error p => rw [hadd] at h; cases h
    | ok next =>
      rw [hadd] at h
      have hrest := ih (fun l hl => hstands l (List.mem_cons_of_mem _ hl)) h
      rw [hrest, lexemes_add (hstands l List.mem_cons_self) hadd, List.append_assoc]
      rfl

end Nest

namespace Forest

variable {source : String} {forest : Forest}

/-- A source whose scan is all the lexemes of a forest is read as the forest. -/
theorem read_of_scan (h : Scan.ofSource source = ⟨Tree.forestLexemes forest, none⟩)
    (filename : Option String) : read source filename = .ok forest := by
  unfold read
  rw [h]
  dsimp only
  rw [Nest.ofLexemes_forestLexemes]
  dsimp only
  rw [List.reverse_reverse]

/-- Where a source is read as a forest, its scan is all lexemes and they nest to the forest. -/
theorem read_ok {filename : Option String} (h : read source filename = .ok forest) :
    (Scan.ofSource source).stuck = none ∧
      Nest.ofLexemes (Scan.ofSource source).lexemes = .ok ⟨[], forest.reverse⟩ := by
  unfold read at h
  dsimp only at h
  split at h
  · cases h
  · cases h
  · next nest hnest hstuck =>
    split at h
    · next henclosing =>
      cases h
      obtain ⟨enclosing, trees⟩ := nest
      cases henclosing
      refine ⟨hstuck, ?_⟩
      rw [hnest, List.reverse_reverse]
    · cases h

/-- What a source is read as has the lexemes of the source. -/
theorem lexemes_of_read {filename : Option String} (h : read source filename = .ok forest) :
    Tree.forestLexemes forest = (Scan.ofSource source).lexemes := by
  have hnest := Nest.lexemes_foldlM Scan.stands_of_mem (read_ok h).2
  rw [Nest.lexemes, List.reverse_reverse] at hnest
  exact hnest

end Forest

end WitxFrontEnd
