import WitxFrontEnd.Proofs.Nest
import WitxFrontEnd.Proofs.Tokens

/-!
# Nothing of a source is lost

A forest holds its source but for the white space: its lexemes are slices of the source, in order,
that leave out nothing else (`Lossless`), and each of its forms reaches from a left paren to the
right paren that matches it (`Matching`). What stands in the way of a forest is a place where no
token can be cut, or parens that are not `Balanced`. `Forest.read_lossless` puts both together. The
parens are counted along a run of lexemes: what one of them does to the number of open forms
(`Nest.depth_add`), and from it what a run does (`Nest.foldlM_cases`).
-/

namespace WitxFrontEnd

open Lexeme (isSpace)

/-- No right paren comes too early and none is missing. -/
structure Balanced (shapes : List Shape) : Prop where
  closed : ∀ n, (shapes.take n).count .rightParen ≤ (shapes.take n).count .leftParen
  total : shapes.count .rightParen = shapes.count .leftParen

/-- The tokens are slices of the source, one behind the other, and only white space is left out. -/
structure Lossless (source : String) (tokens : List Lexeme) : Prop where
  slice : ∀ l ∈ tokens, l.text.toList = (source.toList.drop l.pos.offset).take l.text.length
  nonempty : ∀ l ∈ tokens, l.text ≠ ""
  ordered : tokens.Pairwise fun l l' => l.pos.offset + l.text.length ≤ l'.pos.offset
  gaps : ∀ i c, source.toList[i]? = some c →
    (∀ l ∈ tokens, i < l.pos.offset ∨ l.pos.offset + l.text.length ≤ i) →
    c ∈ [' ', '\t', '\x0c', '\r', '\n']

/-- Among the tokens there are a left paren and a right paren around others that are balanced. -/
structure Matching (tokens : List Lexeme) (left : Lexeme) (inner : List Lexeme) (right : Lexeme) :
    Prop where
  opens : left.shape = .leftParen
  closes : right.shape = .rightParen
  balanced : Balanced (inner.map Lexeme.shape)
  among : ∃ before behind, tokens = before ++ left :: (inner ++ right :: behind)

theorem Matching.left_mem {tokens inner : List Lexeme} {left right : Lexeme}
    (h : Matching tokens left inner right) : left ∈ tokens := by
  obtain ⟨before, behind, rfl⟩ := h.among
  simp

theorem Matching.right_mem {tokens inner : List Lexeme} {left right : Lexeme}
    (h : Matching tokens left inner right) : right ∈ tokens := by
  obtain ⟨before, behind, rfl⟩ := h.among
  simp

/-- A tree is one of the trees, or within one of them. -/
inductive Tree.Within (tree : Tree) : Forest → Prop
  | here {forest : Forest} (hmem : tree ∈ forest) : Within tree forest
  | inside {forest children : Forest} {opening closing : Position}
      (hmem : Tree.form opening children closing ∈ forest) (h : Within tree children) :
      Within tree forest

/-! ## Slices -/

namespace Reaches

variable {p q : Position} {cs rest : List Char} {tokens : List Lexeme}

theorem offset_le (h : Reaches p cs tokens q rest) : ∀ l ∈ tokens, p.offset ≤ l.pos.offset := by
  induction h with
  | here => nofun
  | @space p q c cs rest tokens hspace h ih =>
    intro l hl
    have hnext : (p.next c).offset = p.offset + 1 := p.offset_advance [c]
    have := ih l hl
    omega
  | token hchosen h ih =>
    intro l hl
    rcases List.mem_cons.1 hl with rfl | hl
    · exact Nat.le_refl _
    · have := ih l hl
      rw [Position.offset_advance] at this
      omega

/-- A token stands in the text where its position says. -/
theorem slice (h : Reaches p cs tokens q rest) :
    ∀ l ∈ tokens, l.text.toList = (cs.drop (l.pos.offset - p.offset)).take l.text.length := by
  induction h with
  | here => nofun
  | @space p q c cs rest tokens hspace h ih =>
    intro l hl
    have hnext : (p.next c).offset = p.offset + 1 := p.offset_advance [c]
    have hle := h.offset_le l hl
    have hdrop : l.pos.offset - p.offset = l.pos.offset - (p.next c).offset + 1 := by omega
    rw [hdrop, List.drop_succ_cons]
    exact ih l hl
  | @token p q shape text cs rest tokens hchosen h ih =>
    intro l hl
    rcases List.mem_cons.1 hl with rfl | hl
    · rw [Nat.sub_self, List.drop_zero, String.toList_ofList, String.length_ofList, List.take_left]
    · have hle := h.offset_le l hl
      rw [Position.offset_advance] at hle
      have hdrop : l.pos.offset - p.offset =
          text.length + (l.pos.offset - (p.advance text).offset) := by
        rw [Position.offset_advance]
        omega
      rw [hdrop, List.drop_length_add_append]
      exact ih l hl

theorem text_ne (h : Reaches p cs tokens q rest) : ∀ l ∈ tokens, l.text ≠ "" := by
  induction h with
  | here => nofun
  | space hspace h ih => exact ih
  | @token p q shape text cs rest tokens hchosen h ih =>
    intro l hl
    rcases List.mem_cons.1 hl with rfl | hl
    · obtain ⟨c, cs, rfl, -⟩ := (chosen_iff_stands.1 hchosen).exists_cons
      exact fun hempty => by simpa using congrArg String.toList hempty
    · exact ih l hl

/-- Each token ends before the next begins. -/
theorem ordered (h : Reaches p cs tokens q rest) :
    tokens.Pairwise fun l l' => l.pos.offset + l.text.length ≤ l'.pos.offset := by
  induction h with
  | here => exact .nil
  | space hspace h ih => exact ih
  | @token p q shape text cs rest tokens hchosen h ih =>
    refine .cons (fun l hl => ?_) ih
    have hle := h.offset_le l hl
    rwa [Position.offset_advance, ← String.length_ofList] at hle

/-- A character that no token covers is white space. -/
theorem gaps (h : Reaches p cs tokens q []) (i : Nat) (c : Char) (hc : cs[i]? = some c)
    (hout : ∀ l ∈ tokens, p.offset + i < l.pos.offset ∨
      l.pos.offset + l.text.length ≤ p.offset + i) :
    isSpace c = true := by
  generalize hrest : ([] : List Char) = rest at h
  induction h generalizing i with
  | here => subst hrest; cases hc
  | @space p q d cs rest tokens hspace h ih =>
    have hnext : (p.next d).offset = p.offset + 1 := p.offset_advance [d]
    cases i with
    | zero => cases hc; exact hspace
    | succ i =>
      refine ih i hc (fun l hl => ?_) hrest
      rw [hnext, Nat.add_assoc, Nat.add_comm 1 i]
      exact hout l hl
  | @token p q shape text cs rest tokens hchosen h ih =>
    have hbehind : text.length ≤ i := by
      have hfirst := hout _ List.mem_cons_self
      rw [String.length_ofList] at hfirst
      dsimp only at hfirst
      omega
    rw [List.getElem?_append_right hbehind] at hc
    refine ih _ hc (fun l hl => ?_) hrest
    have hsame : (p.advance text).offset + (i - text.length) = p.offset + i := by
      rw [Position.offset_advance]
      omega
    rw [hsame]
    exact hout l (List.mem_cons_of_mem _ hl)

/-- The tokens that lead through a whole source leave nothing of it out. -/
theorem lossless {source : String} (h : Reaches .start source.toList tokens q []) :
    Lossless source tokens where
  slice := h.slice
  nonempty := h.text_ne
  ordered := h.ordered
  gaps i c hc hout := by
    have hspace := h.gaps i c hc fun l hl => by simpa [Position.start] using hout l hl
    simpa [isSpace, or_assoc] using hspace

end Reaches

/-! ## Parens -/

namespace Nest

variable {nest nest' : Nest} {l : Lexeme} {p : Position}

/-- A left paren opens one form, a right paren closes one. -/
theorem depth_add (h : nest.add l = .ok nest') :
    nest'.enclosing.length + [l.shape].count .rightParen =
      nest.enclosing.length + [l.shape].count .leftParen := by
  obtain ⟨shape, text, pos⟩ := l
  obtain ⟨enclosing, trees⟩ := nest
  cases shape with
  | leaf kind => cases h; rfl
  | leftParen => cases h; rfl
  | rightParen =>
    rcases enclosing with _ | ⟨⟨opening, outer⟩, enclosing⟩
    · cases h
    · cases h; rfl

/-- Only a right paren is in the wrong place, and only where no form is open. -/
theorem add_error (h : nest.add l = .error p) :
    nest.enclosing = [] ∧ l.shape = .rightParen ∧ p = l.pos := by
  obtain ⟨shape, text, pos⟩ := l
  obtain ⟨enclosing, trees⟩ := nest
  cases shape with
  | leaf kind => cases h
  | leftParen => cases h
  | rightParen =>
    rcases enclosing with _ | ⟨⟨opening, outer⟩, enclosing⟩
    · cases h
      exact ⟨rfl, rfl, rfl⟩
    · cases h

/-- A run of lexemes goes through, and then as many forms are open as the parens say and no first
part of it closes more than are open; or it fails, and some first part of it does. -/
theorem foldlM_cases (ls : List Lexeme) (nest : Nest) :
    (∃ nest', ls.foldlM add nest = .ok nest' ∧
      nest'.enclosing.length + (ls.map Lexeme.shape).count .rightParen =
        nest.enclosing.length + (ls.map Lexeme.shape).count .leftParen ∧
      ∀ n, ((ls.map Lexeme.shape).take n).count .rightParen ≤
        nest.enclosing.length + ((ls.map Lexeme.shape).take n).count .leftParen) ∨
    ∃ p n, ls.foldlM add nest = .error p ∧
      nest.enclosing.length + ((ls.map Lexeme.shape).take n).count .leftParen <
        ((ls.map Lexeme.shape).take n).count .rightParen := by
  induction ls generalizing nest with
  | nil => exact .inl ⟨nest, rfl, rfl, fun n => by simp⟩
  | cons l ls ih =>
    have hcount (s : Shape) (shapes : List Shape) :
        (l.shape :: shapes).count s = [l.shape].count s + shapes.count s := by
      rw [← List.singleton_append, List.count_append]
    rw [List.foldlM_cons, List.map_cons]
    cases hadd : nest.add l with
    | error p =>
      obtain ⟨hopen, hshape, -⟩ := add_error hadd
      exact .inr ⟨p, 1, rfl, by simp [hopen, hshape]⟩
    | ok next =>
      have hdepth := depth_add hadd
      rcases ih next with ⟨nest', hrun, htotal, hclosed⟩ | ⟨p, n, hrun, hlt⟩
      · refine .inl ⟨nest', hrun, ?_, fun n => ?_⟩
        · rw [hcount .rightParen (ls.map _), hcount .leftParen (ls.map _)]
          omega
        · cases n with
          | zero => simp
          | succ n =>
            have := hclosed n
            rw [List.take_succ_cons, hcount .rightParen (List.take _ _),
              hcount .leftParen (List.take _ _)]
            omega
      · refine .inr ⟨p, n + 1, hrun, ?_⟩
        rw [List.take_succ_cons, hcount .rightParen (List.take _ _),
          hcount .leftParen (List.take _ _)]
        omega

/-- The lexemes nest to trees, with no form left open, if and only if their parens are balanced. -/
theorem exists_ofLexemes_iff {ls : List Lexeme} :
    (∃ trees, ofLexemes ls = .ok ⟨[], trees⟩) ↔ Balanced (ls.map Lexeme.shape) := by
  constructor
  · rintro ⟨trees, h⟩
    rcases foldlM_cases ls empty with ⟨nest', hrun, htotal, hclosed⟩ | ⟨p, n, hrun, hlt⟩
    · rw [ofLexemes, hrun] at h
      cases h
      simp only [empty, List.length_nil, Nat.zero_add] at htotal hclosed
      exact ⟨hclosed, htotal⟩
    · rw [ofLexemes, hrun] at h
      cases h
  · rintro ⟨hclosed, htotal⟩
    rcases foldlM_cases ls empty with ⟨⟨enclosing, trees⟩, hrun, hopen, -⟩ | ⟨p, n, hrun, hlt⟩
    · simp only [empty, List.length_nil] at hopen
      obtain rfl : enclosing = [] := List.length_eq_zero_iff.1 (by omega)
      exact ⟨trees, hrun⟩
    · have := hclosed n
      simp only [empty, List.length_nil] at hlt
      omega

end Nest

namespace Tree

/-- The parens of a forest are balanced. -/
theorem balanced_forestLexemes (forest : Forest) :
    Balanced ((forestLexemes forest).map Lexeme.shape) :=
  Nest.exists_ofLexemes_iff.1 ⟨_, Nest.ofLexemes_forestLexemes forest⟩

/-- The lexemes of a tree stand together among those of any forest that it is within. -/
theorem Within.exists_append {tree : Tree} {forest : Forest} (h : Within tree forest) :
    ∃ before behind, forestLexemes forest = before ++ (tree.lexemes ++ behind) := by
  have hmember {t : Tree} {f : Forest} (hmem : t ∈ f) :
      ∃ before behind, forestLexemes f = before ++ (t.lexemes ++ behind) := by
    obtain ⟨f₁, f₂, rfl⟩ := List.append_of_mem hmem
    exact ⟨forestLexemes f₁, forestLexemes f₂, by rw [forestLexemes_append, forestLexemes]⟩
  induction h with
  | here hmem => exact hmember hmem
  | @inside forest children opening closing hmem h ih =>
    obtain ⟨before, behind, houter⟩ := hmember hmem
    obtain ⟨before', behind', hinner⟩ := ih
    refine ⟨before ++ ⟨.leftParen, "(", opening⟩ :: before',
      behind' ++ ⟨.rightParen, ")", closing⟩ :: behind, ?_⟩
    rw [houter, lexemes, hinner]
    simp

/-- A form reaches from a left paren to the right paren that matches it. -/
theorem Within.matching {opening closing : Position} {children forest : Forest}
    (h : Within (.form opening children closing) forest) :
    Matching (forestLexemes forest) ⟨.leftParen, "(", opening⟩ (forestLexemes children)
      ⟨.rightParen, ")", closing⟩ where
  opens := rfl
  closes := rfl
  balanced := balanced_forestLexemes children
  among := by
    obtain ⟨before, behind, hlexemes⟩ := h.exists_append
    exact ⟨before, behind, by rw [hlexemes, lexemes]; simp⟩

end Tree

/-! ## Sources -/

namespace Forest

variable {source : String} {filename : Option String}

/-- A source is read as a forest if and only if tokens are cut from it to the end and their parens
are balanced. -/
theorem exists_read_iff :
    (∃ forest, read source filename = .ok forest) ↔
      (Scan.ofSource source).stuck = none ∧
        Balanced ((Scan.ofSource source).lexemes.map Lexeme.shape) := by
  constructor
  · rintro ⟨forest, h⟩
    obtain ⟨hstuck, hnest⟩ := read_ok h
    exact ⟨hstuck, Nest.exists_ofLexemes_iff.1 ⟨_, hnest⟩⟩
  · rintro ⟨hstuck, hbalanced⟩
    obtain ⟨trees, hnest⟩ := Nest.exists_ofLexemes_iff.2 hbalanced
    refine ⟨trees.reverse, ?_⟩
    unfold read
    dsimp only
    rw [hnest, hstuck]

/-- The lexemes of a source that is read lead to its end. -/
theorem reaches_of_read {forest : Forest} (h : read source filename = .ok forest) :
    ∃ q, Reaches .start source.toList (Tree.forestLexemes forest) q [] := by
  refine reaches_end_iff.2 ?_
  rw [lexemes_of_read h, ← (read_ok h).1]
  rfl

/-- A forest holds its source: its lexemes are the tokens of the source, slices of it in order that
leave out only white space, and its forms are between matching parens. There is none if and only if
a place is reached where no token can be cut, or the source is cut into tokens whose parens are not
balanced. -/
theorem read_lossless (source : String) (filename : Option String) :
    (∀ forest, read source filename = .ok forest →
      (∃ q, Reaches .start source.toList (Tree.forestLexemes forest) q []) ∧
      Lossless source (Tree.forestLexemes forest) ∧
      ∀ opening children closing, Tree.Within (.form opening children closing) forest →
        Matching (Tree.forestLexemes forest) ⟨.leftParen, "(", opening⟩
          (Tree.forestLexemes children) ⟨.rightParen, ")", closing⟩) ∧
    ((∃ e, read source filename = .error e) ↔
      (∃ tokens q rest, Reaches .start source.toList tokens q rest ∧ Stuck rest) ∨
      ∃ tokens q, Reaches .start source.toList tokens q [] ∧
        ¬Balanced (tokens.map Lexeme.shape)) := by
  constructor
  · intro forest h
    obtain ⟨q, hreaches⟩ := reaches_of_read h
    exact ⟨⟨q, hreaches⟩, hreaches.lossless, fun opening children closing hwithin =>
      hwithin.matching⟩
  · have herror : (∃ e, read source filename = .error e) ↔
        ¬∃ forest, read source filename = .ok forest := by
      cases read source filename with
      | ok forest => exact ⟨nofun, fun h => absurd ⟨forest, rfl⟩ h⟩
      | error e => exact ⟨fun _ => nofun, fun _ => ⟨e, rfl⟩⟩
    rw [herror, exists_read_iff, reaches_stuck_iff]
    constructor
    · intro h
      cases hstuck : (Scan.ofSource source).stuck with
      | some found => exact .inl fun hnone => nomatch hstuck.symm.trans hnone
      | none =>
        obtain ⟨q, hreaches⟩ : ∃ q, Reaches .start source.toList _ q [] :=
          reaches_end_iff.2 (congrArg (Scan.mk _) hstuck)
        exact .inr ⟨_, q, hreaches, fun hbalanced => h ⟨hstuck, hbalanced⟩⟩
    · rintro (hstuck | ⟨tokens, q, hreaches, hunbalanced⟩) ⟨hnone, hbalanced⟩
      · exact hstuck hnone
      · rw [Scan.ofSource, reaches_end_iff.1 ⟨q, hreaches⟩] at hbalanced
        exact hunbalanced hbalanced

/-- A right paren in a string and one in a comment close nothing. -/
theorem read_lossless_string_and_comment :
    read "(\")\" (;);)())" none =
        .ok [.form ⟨0, 1, 1⟩ [.leaf ⟨.string, "\")\"", ⟨1, 1, 2⟩⟩,
          .leaf ⟨.blockComment, "(;);)", ⟨5, 1, 6⟩⟩, .form ⟨10, 1, 11⟩ [] ⟨11, 1, 12⟩]
          ⟨12, 1, 13⟩] ∧
      Lossless "(\")\" (;);)())" [⟨.leftParen, "(", ⟨0, 1, 1⟩⟩,
        ⟨.leaf .string, "\")\"", ⟨1, 1, 2⟩⟩, ⟨.leaf .blockComment, "(;);)", ⟨5, 1, 6⟩⟩,
        ⟨.leftParen, "(", ⟨10, 1, 11⟩⟩, ⟨.rightParen, ")", ⟨11, 1, 12⟩⟩,
        ⟨.rightParen, ")", ⟨12, 1, 13⟩⟩] := by
  have hread : read "(\")\" (;);)())" none =
      .ok [.form ⟨0, 1, 1⟩ [.leaf ⟨.string, "\")\"", ⟨1, 1, 2⟩⟩,
        .leaf ⟨.blockComment, "(;);)", ⟨5, 1, 6⟩⟩, .form ⟨10, 1, 11⟩ [] ⟨11, 1, 12⟩]
        ⟨12, 1, 13⟩] := by decide +kernel
  exact ⟨hread, ((read_lossless _ none).1 _ hread).2.1⟩

end Forest

end WitxFrontEnd
