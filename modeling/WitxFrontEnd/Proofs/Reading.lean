import Mathlib.Data.List.Forall2
import WitxFrontEnd.Proofs.Nest
import WitxFrontEnd.Proofs.SExpr

/-!
# Reading what is printed

A print of some symbols is a text in which they are written one after the other with gaps of white
space between them (`Printed`). It is one way to `Cut` a text into symbols; where the symbols stand
apart without a gap, there need not be one. The scan of a cut has one lexeme for each symbol
(`Cut.scan`), the lexemes of a forest nest to that forest (`Nest.ofLexemes_forestLexemes`), and
forest and items follow the trees that the symbols come from (`SExpr.exists_forest`). Together,
`readAll_printed`: a print of trees that are nested no deeper than `Item.maxNesting` is read as
these trees.
-/

namespace WitxFrontEnd

open Lexeme (isSpace)

/-! ## Prints -/

/-- White space that may follow a symbol. -/
structure Gap (s : Symbol) (gap : List Char) : Prop where
  isSpace : ∀ x ∈ gap, Lexeme.isSpace x = true
  newline : s.shape = .leaf .lineComment → ∀ x ∈ gap.head?, x = '\n'

/-- The symbols, each with a gap behind it that only the last may leave empty. -/
inductive Laid : List Symbol → List Char → Prop
  | nil : Laid [] []
  | cons {s : Symbol} {symbols : List Symbol} {text gap rest : List Char} (htext : s.Written text)
      (hgap : Gap s gap) (hempty : gap = [] → symbols = []) (h : Laid symbols rest) :
      Laid (s :: symbols) (text ++ (gap ++ rest))

/-- A text that the symbols make up, with white space before, between and behind them. -/
def Printed (symbols : List Symbol) (cs : List Char) : Prop :=
  ∃ gap rest, cs = gap ++ rest ∧ (∀ x ∈ gap, isSpace x = true) ∧ Laid symbols rest

/-- A gap parts a symbol from what comes behind it. -/
theorem Gap.parted {s : Symbol} {symbols : List Symbol} {gap rest : List Char} (hgap : Gap s gap)
    (hempty : gap = [] → symbols = []) (h : Laid symbols rest) : s.Parted (gap ++ rest) := by
  intro x hx
  cases gap with
  | nil =>
    rw [hempty rfl] at h
    cases h
    cases hx
  | cons c cs =>
    cases hx
    exact ⟨hgap.isSpace x List.mem_cons_self, fun hline => hgap.newline hline x rfl⟩

/-- The symbols one after the other, with or without white space between them: each is written so
that it stands as a lexeme before what follows. -/
inductive Cut : List Symbol → List Char → Prop
  | nil : Cut [] []
  | space {symbols : List Symbol} {c : Char} {cs : List Char} (hspace : isSpace c = true)
      (h : Cut symbols cs) : Cut symbols (c :: cs)
  | symbol {s : Symbol} {symbols : List Symbol} {text rest : List Char} (htext : s.Written text)
      (hstands : Lexeme.Stands s.shape text rest) (h : Cut symbols rest) :
      Cut (s :: symbols) (text ++ rest)

theorem Cut.spaces {symbols : List Symbol} {gap rest : List Char}
    (hgap : ∀ x ∈ gap, isSpace x = true) (h : Cut symbols rest) : Cut symbols (gap ++ rest) := by
  induction gap with
  | nil => exact h
  | cons c gap ih =>
    exact .space (hgap c List.mem_cons_self) (ih fun x hx => hgap x (List.mem_cons_of_mem c hx))

theorem Laid.cut {symbols : List Symbol} {cs : List Char} (h : Laid symbols cs) :
    Cut symbols cs := by
  induction h with
  | nil => exact .nil
  | cons htext hgap hempty h ih =>
    exact .symbol htext (htext.stands (hgap.parted hempty h)) (.spaces hgap.isSpace ih)

/-- The scan of such a text finds the symbols and nothing else. -/
theorem Cut.scan {symbols : List Symbol} {cs : List Char} (h : Cut symbols cs) (p : Position) :
    ∃ lexemes, Scan.ofChars p cs = ⟨lexemes, none⟩ ∧
      List.Forall₂ Symbol.WrittenAs symbols lexemes := by
  induction h generalizing p with
  | nil => exact ⟨[], by rw [Scan.ofChars], .nil⟩
  | @space symbols c cs hspace h ih =>
    obtain ⟨lexemes, hscan, hwritten⟩ := ih (p.next c)
    exact ⟨lexemes, by rw [Scan.ofChars_space hspace, hscan], hwritten⟩
  | @symbol s symbols text rest htext hstands h ih =>
    obtain ⟨lexemes, hscan, hwritten⟩ := ih (p.advance text)
    refine ⟨⟨s.shape, String.ofList text, p⟩ :: lexemes, ?_, .cons ⟨rfl, ?_⟩ hwritten⟩
    · rw [Scan.ofChars_stands hstands, hscan]
    · rwa [String.toList_ofList]

theorem Printed.cut {symbols : List Symbol} {cs : List Char} (h : Printed symbols cs) :
    Cut symbols cs := by
  obtain ⟨gap, rest, rfl, hgap, hlaid⟩ := h
  exact .spaces hgap hlaid.cut

/-! ## Trees and items -/

/-- What is related to two lists one behind the other falls into two. -/
theorem forall₂_append_left {α β : Type} {R : α → β → Prop} {as as' : List α} {bs : List β}
    (h : List.Forall₂ R (as ++ as') bs) :
    ∃ cs cs', List.Forall₂ R as cs ∧ List.Forall₂ R as' cs' ∧ bs = cs ++ cs' := by
  induction as generalizing bs with
  | nil => exact ⟨[], bs, .nil, h, rfl⟩
  | cons a as ih =>
    obtain ⟨b, bs, hb, hbs, rfl⟩ := List.forall₂_cons_left_iff.1 h
    obtain ⟨cs, cs', hcs, hcs', rfl⟩ := ih hbs
    exact ⟨b :: cs, cs', .cons hb hcs, hcs', rfl⟩

/-- The lexemes of parens have the text of parens. -/
theorem Symbol.WrittenAs.paren {s : Symbol} {l : Lexeme} (h : s.WrittenAs l) :
    (s = .leftParen → l = ⟨.leftParen, "(", l.pos⟩) ∧
      (s = .rightParen → l = ⟨.rightParen, ")", l.pos⟩) := by
  obtain ⟨shape, text, pos⟩ := l
  obtain ⟨hshape, htext⟩ := h
  dsimp only at hshape htext
  have hparted : s.Parted [] := fun x hx => (by cases hx)
  have hparen := (htext.stands hparted).paren
  constructor
  · rintro rfl
    rw [hshape, hparen.1 rfl]
    rfl
  · rintro rfl
    rw [hshape, hparen.2 rfl]
    rfl

namespace SExpr

variable {filename : Option String}

mutual

/-- Lexemes that are a tree's symbols as written are those of one tree, whose item is the tree
given, unless it is nested too deep. -/
theorem exists_tree : ∀ (e : SExpr) {depth : Nat} {lexemes : List Lexeme},
    List.Forall₂ Symbol.WrittenAs e.symbols lexemes → depth + e.depth ≤ Item.maxNesting →
    ∃ tree item, tree.lexemes = lexemes ∧ Item.ofTree filename depth tree = .ok item ∧
      item.sexpr = e
  | .token kind text, depth, lexemes, h, _ => by
    obtain ⟨l, rest, ⟨hshape, htext⟩, hrest, rfl⟩ := List.forall₂_cons_left_iff.1 h
    cases hrest
    obtain ⟨shape, written, pos⟩ := l
    cases hshape
    have hleaf := htext.ofLeaf (l := ⟨kind.leafKind, written, pos⟩) filename rfl
    refine ⟨.leaf ⟨kind.leafKind, written, pos⟩, .token ⟨kind, text, pos.span filename⟩, rfl, ?_,
      rfl⟩
    rw [Item.ofTree_leaf, hleaf]
    rfl
  | .form items, depth, lexemes, h, hdepth => by
    obtain ⟨left, rest, hleft, hrest, rfl⟩ := List.forall₂_cons_left_iff.1 h
    obtain ⟨inner, closing, hinner, hclosing, rfl⟩ := forall₂_append_left hrest
    obtain ⟨right, _, hright, hend, rfl⟩ := List.forall₂_cons_left_iff.1 hclosing
    cases hend
    have hdepth' : depth + 1 + forestDepth items ≤ Item.maxNesting := by
      rw [SExpr.depth] at hdepth
      omega
    obtain ⟨forest, is, hforest, hitems, hsexprs⟩ := exists_forest items hinner hdepth'
    refine ⟨.form left.pos forest right.pos,
      .form is (left.pos.span filename) (right.pos.span filename), ?_, ?_, ?_⟩
    · rw [Tree.lexemes, hforest, ← hleft.paren.1 rfl, ← hright.paren.2 rfl]
    · have hdeep : ¬Item.maxNesting ≤ depth := by omega
      rw [Item.ofTree_form, if_neg hdeep, hitems]
      rfl
    · rw [Item.sexpr, hsexprs]

/-- As `exists_tree`, over some trees. -/
theorem exists_forest : ∀ (es : List SExpr) {depth : Nat} {lexemes : List Lexeme},
    List.Forall₂ Symbol.WrittenAs (forestSymbols es) lexemes →
    depth + forestDepth es ≤ Item.maxNesting →
    ∃ forest items, Tree.forestLexemes forest = lexemes ∧
      Item.ofForest filename depth forest = .ok items ∧ Item.sexprs items = es
  | [], depth, lexemes, h, _ => by
    cases h
    exact ⟨[], [], rfl, rfl, rfl⟩
  | e :: es, depth, lexemes, h, hdepth => by
    obtain ⟨first, rest, hfirst, hrest, rfl⟩ := forall₂_append_left h
    rw [forestDepth] at hdepth
    have hdepth₁ : depth + e.depth ≤ Item.maxNesting := by omega
    have hdepth₂ : depth + forestDepth es ≤ Item.maxNesting := by omega
    obtain ⟨tree, item, htree, hitem, hsexpr⟩ := exists_tree e hfirst hdepth₁
    obtain ⟨forest, items, hforest, hitems, hsexprs⟩ := exists_forest es hrest hdepth₂
    refine ⟨tree :: forest, item :: items, ?_, ?_, ?_⟩
    · rw [Tree.forestLexemes, htree, hforest]
    · rw [Item.ofForest_cons, hitem]
      show (Item.ofForest filename depth forest >>= _) = _
      rw [hitems]
      rfl
    · rw [Item.sexprs, hsexpr, hsexprs]

end

end SExpr

/-! ## Reading -/

/-- A text that is cut into the symbols of some trees is read as these trees. -/
theorem Item.exists_readAll_of_cut {es : List SExpr} {source : String}
    (hdepth : SExpr.forestDepth es ≤ maxNesting)
    (h : Cut (SExpr.forestSymbols es) source.toList) (filename : Option String) :
    ∃ items, readAll source filename = .ok items ∧ sexprs items = es := by
  obtain ⟨lexemes, hscan, hwritten⟩ := h.scan .start
  have hdepth₀ : 0 + SExpr.forestDepth es ≤ maxNesting := by rwa [Nat.zero_add]
  obtain ⟨forest, items, rfl, hitems, hsexprs⟩ := SExpr.exists_forest es hwritten hdepth₀
  refine ⟨items, ?_, hsexprs⟩
  rw [readAll, Forest.read_of_scan hscan]
  exact hitems

theorem Item.exists_readAll {es : List SExpr} {source : String}
    (hdepth : SExpr.forestDepth es ≤ maxNesting)
    (h : Printed (SExpr.forestSymbols es) source.toList) (filename : Option String) :
    ∃ items, readAll source filename = .ok items ∧ sexprs items = es :=
  exists_readAll_of_cut hdepth h.cut filename

/-- A print of trees with at most two hundred forms around each other is read as these trees: the
same nesting and order, the same kinds and the same texts. -/
theorem readAll_printed {es : List SExpr} {source : String} (hdepth : SExpr.forestDepth es ≤ 200)
    (h : Printed (SExpr.forestSymbols es) source.toList) (filename : Option String) :
    (Item.readAll source filename).map Item.sexprs = .ok es := by
  obtain ⟨items, hread, hsexprs⟩ := Item.exists_readAll hdepth h filename
  rw [hread, ← hsexprs]
  rfl

/-- A line comment that looks like parens, and a string whose two characters are written as a byte
and as a code point. -/
theorem readAll_comment_and_escapes :
    SExpr.forestDepth [.form [.token .lineComment ";;()", .token .string "h\""]] ≤ 200 ∧
      Printed (SExpr.forestSymbols [.form [.token .lineComment ";;()", .token .string "h\""]])
        "( ;;()\n\"\\68\\u\x7b022\x7d\" )".toList ∧
      (Item.readAll "( ;;()\n\"\\68\\u\x7b022\x7d\" )" none).map Item.sexprs =
        .ok [.form [.token .lineComment ";;()", .token .string "h\""]] := by
  have hprinted :
      Printed (SExpr.forestSymbols [.form [.token .lineComment ";;()", .token .string "h\""]])
        "( ;;()\n\"\\68\\u\x7b022\x7d\" )".toList := by
    have hdigit (c : Char) (n : Nat) (hn : n < 16) (hc : c = n.digitChar) : Literal.HexDigit c n :=
      ⟨hn, .inl hc⟩
    have hquote : Literal.HexNumber ['0', '2', '2'] '\"'.toNat :=
      .snoc (.snoc (.digit (hdigit '0' 0 (by decide) rfl)) (hdigit '2' 2 (by decide) rfl))
        (hdigit '2' 2 (by decide) rfl)
    have hbody : Literal.Spells
        ('\\' :: '6' :: '8' :: '\\' :: 'u' :: '\x7b' :: (['0', '2', '2'] ++ '\x7d' :: []))
        ("h\"".toList.flatMap String.utf8EncodeChar) :=
      .byte (hdigit '6' 6 (by decide) rfl) (hdigit '8' 8 (by decide) rfl) (.codePoint hquote .nil)
    have hcomment : (Symbol.token .lineComment ";;()").Written [';', ';', '(', ')'] :=
      .lineComment (by decide)
    have hgap (s : Symbol) (hs : s.shape ≠ .leaf .lineComment) : Gap s [' '] :=
      ⟨fun x hx => by rw [List.mem_singleton.1 hx]; rfl, fun h => absurd h hs⟩
    have hnewline (s : Symbol) : Gap s ['\n'] :=
      ⟨fun x hx => by rw [List.mem_singleton.1 hx]; rfl, fun _ x hx => by cases hx; rfl⟩
    have hnone (s : Symbol) : Gap s [] := ⟨nofun, fun _ => nofun⟩
    exact ⟨[], _, rfl, nofun, .cons .leftParen (hgap _ nofun) nofun <|
      .cons hcomment (hnewline _) nofun <| .cons (.string hbody) (hgap _ nofun) nofun <|
      .cons .rightParen (hnone _) (fun _ => rfl) .nil⟩
  have hdepth :
      SExpr.forestDepth [.form [.token .lineComment ";;()", .token .string "h\""]] ≤ 200 := by
    decide
  exact ⟨hdepth, hprinted, readAll_printed hdepth hprinted none⟩

end WitxFrontEnd
