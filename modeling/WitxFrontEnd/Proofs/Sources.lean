import WitxFrontEnd.Proofs.Reading
import WitxFrontEnd.Proofs.Word

/-!
# Which words sources have

`Symbol.climb` follows the parens of some symbols and gives the depth at which they end, if they
neither close what is not open nor open more forms than allowed. Symbols that climb back to the
ground are those of some trees (`SExpr.exists_forest_of_climb`), and if each of them can be written
and is no comment, they are the word of a source (`Cursor.exists_ofSource`). Conversely the word of
any source that is read is made up of such symbols (`Cursor.exists_word`), and no two of their spans
are the same, for each begins behind the one before it (`Cursor.pairwise_offset`).
-/

namespace WitxFrontEnd

namespace Symbol

/-- The depth that some symbols lead to, none of them being deeper than the bound. -/
def climb (bound : Nat) : Nat → List Symbol → Option Nat
  | d, [] => some d
  | d, .leftParen :: w => if d < bound then climb bound (d + 1) w else none
  | 0, .rightParen :: _ => none
  | d + 1, .rightParen :: w => climb bound d w
  | d, .token .. :: w => climb bound d w

/-- Whether a symbol is a comment. -/
def isComment : Symbol → Bool
  | .token kind _ => kind.isComment
  | .leftParen | .rightParen => false

/-- A symbol that can be written and means something to the grammar. -/
structure Plain (s : Symbol) : Prop where
  written : ∃ text, s.Written text
  shown : s.isComment = false

variable {bound d : Nat}

@[simp] theorem climb_nil : climb bound d [] = some d := by
  cases d <;> rfl

@[simp] theorem climb_token (kind : TokenKind) (text : String) (w : List Symbol) :
    climb bound d (.token kind text :: w) = climb bound d w := by
  cases d <;> rfl

@[simp] theorem climb_rightParen (w : List Symbol) :
    climb bound (d + 1) (.rightParen :: w) = climb bound d w := rfl

theorem climb_leftParen (h : d < bound) (w : List Symbol) :
    climb bound d (.leftParen :: w) = climb bound (d + 1) w := by
  rw [climb, if_pos h]

/-- The depth is climbed to through symbols one behind the other. -/
theorem climb_append (w v : List Symbol) :
    climb bound d (w ++ v) = (climb bound d w).bind fun d' => climb bound d' v := by
  induction w generalizing d with
  | nil => rw [climb_nil]; rfl
  | cons s w ih =>
    cases s with
    | leftParen =>
      rw [List.cons_append, climb, climb]
      split
      · exact ih
      · rfl
    | rightParen =>
      cases d with
      | zero => rfl
      | succ d => exact ih
    | token kind text =>
      rw [List.cons_append, climb_token, climb_token]
      exact ih

/-- Comments are at no depth. -/
theorem climb_shown (w : List Symbol) :
    climb bound d (w.filter fun s => !s.isComment) = climb bound d w := by
  induction w generalizing d with
  | nil => rfl
  | cons s w ih =>
    cases s with
    | leftParen =>
      rw [List.filter_cons_of_pos rfl, climb, climb, ih]
    | rightParen =>
      rw [List.filter_cons_of_pos rfl]
      cases d with
      | zero => rfl
      | succ d => exact ih
    | token kind text =>
      rw [List.filter_cons, climb_token]
      split
      · rw [climb_token, ih]
      · exact ih

end Symbol

/-! ## From symbols to sources -/

namespace SExpr

mutual

/-- Behind a tree the depth is as before it. -/
theorem climb_symbols {bound : Nat} : ∀ (e : SExpr) {d : Nat} (v : List Symbol),
    d + e.depth ≤ bound → Symbol.climb bound d (e.symbols ++ v) = Symbol.climb bound d v
  | .token kind text, d, v, _ => Symbol.climb_token kind text v
  | .form items, d, v, h => by
    rw [depth] at h
    have hlt : d < bound := by omega
    have hinner : d + 1 + forestDepth items ≤ bound := by omega
    rw [symbols, List.cons_append, Symbol.climb_leftParen hlt, List.append_assoc,
      climb_forestSymbols items _ hinner]
    rfl

/-- As `climb_symbols`, over some trees. -/
theorem climb_forestSymbols {bound : Nat} : ∀ (es : List SExpr) {d : Nat} (v : List Symbol),
    d + forestDepth es ≤ bound →
    Symbol.climb bound d (forestSymbols es ++ v) = Symbol.climb bound d v
  | [], d, v, _ => rfl
  | e :: es, d, v, h => by
    rw [forestDepth] at h
    have hfirst : d + e.depth ≤ bound := by omega
    have hrest : d + forestDepth es ≤ bound := by omega
    rw [forestSymbols, List.append_assoc, climb_symbols e _ hfirst, climb_forestSymbols es _ hrest]

end

/-- The symbols from some place at the given depth on: trees, and then, as long as a form is open
there, its closing paren and so on further out. -/
inductive Closes (bound : Nat) : Nat → List Symbol → Prop
  | ground (es : List SExpr) (h : forestDepth es ≤ bound) : Closes bound 0 (forestSymbols es)
  | inside {d : Nat} (es : List SExpr) {w : List Symbol} (h : d + 1 + forestDepth es ≤ bound)
      (hw : Closes bound d w) : Closes bound (d + 1) (forestSymbols es ++ .rightParen :: w)

/-- A tree that is not too deep may stand before what closes. -/
theorem Closes.cons {bound d : Nat} {w : List Symbol} {e : SExpr} (he : d + e.depth ≤ bound)
    (h : Closes bound d w) : Closes bound d (e.symbols ++ w) := by
  cases h with
  | ground es h =>
    refine .ground (e :: es) ?_
    rw [forestDepth]
    omega
  | inside es h hw =>
    rw [← List.append_assoc]
    refine .inside (e :: es) ?_ hw
    rw [forestDepth]
    omega

/-- Symbols that climb to the ground close all forms that are open before them. -/
theorem closes_of_climb {bound : Nat} {w : List Symbol} {d : Nat} (hd : d ≤ bound)
    (h : Symbol.climb bound d w = some 0) : Closes bound d w := by
  induction w generalizing d with
  | nil =>
    rw [Symbol.climb_nil] at h
    cases h
    exact .ground [] (Nat.zero_le _)
  | cons s w ih =>
    cases s with
    | leftParen =>
      rw [Symbol.climb] at h
      split at h
      · next hlt =>
        cases ih hlt h with
        | inside es hes hw =>
          -- The trees up to the next paren that closes more than was opened, and this paren, make
          -- one form more in front of what is behind it.
          have hform : d + (form es).depth ≤ bound := by
            rw [depth]
            omega
          have hcons := hw.cons hform
          rw [symbols, List.cons_append, List.append_assoc] at hcons
          exact hcons
      · cases h
    | rightParen =>
      cases d with
      | zero => cases h
      | succ d => exact .inside [] hd (ih (Nat.le_of_succ_le hd) h)
    | token kind text =>
      rw [Symbol.climb_token] at h
      exact (ih hd h).cons (e := .token kind text) hd

/-- Symbols whose parens match are those of a forest, which is as deep as they climb. -/
theorem exists_forest_of_climb {bound : Nat} {w : List Symbol}
    (h : Symbol.climb bound 0 w = some 0) :
    ∃ es, forestSymbols es = w ∧ forestDepth es ≤ bound := by
  cases closes_of_climb (Nat.zero_le _) h with
  | ground es hes => exact ⟨es, rfl, hes⟩

end SExpr

/-- Symbols that can be written are printed by putting each on a line of its own. -/
theorem exists_laid {w : List Symbol} (h : ∀ s ∈ w, s.Plain) : ∃ cs, Laid w cs := by
  induction w with
  | nil => exact ⟨[], .nil⟩
  | cons s w ih =>
    obtain ⟨text, htext⟩ := (h s List.mem_cons_self).written
    obtain ⟨rest, hrest⟩ := ih fun s hs => h s (List.mem_cons_of_mem _ hs)
    have hgap : Gap s ['\n'] :=
      ⟨fun x hx => by rw [List.mem_singleton.1 hx]; rfl, fun _ x hx => by cases hx; rfl⟩
    exact ⟨_, .cons htext hgap (fun h => by cases h) hrest⟩

namespace Item

mutual

/-- The marks of an item are its symbols without the comments. -/
theorem marks_eq_symbols : ∀ i : Item,
    i.marks.map Prod.fst = (i.sexpr.symbols.filter fun s => !s.isComment).map some
  | .token t => by
    rw [marks, sexpr, SExpr.symbols, List.filter_singleton]
    show List.map _ (if t.kind.isComment then _ else _) =
      List.map _ (bif !t.kind.isComment then _ else _)
    cases t.kind.isComment <;> rfl
  | .form items span closing => by
    rw [marks, sexpr, SExpr.symbols, List.map_cons, List.map_append, allMarks_eq_symbols,
      List.filter_cons_of_pos rfl, List.filter_append]
    simp [Symbol.isComment]

/-- As `marks_eq_symbols`, over some items. -/
theorem allMarks_eq_symbols : ∀ items : List Item, (allMarks items).map Prod.fst =
    ((SExpr.forestSymbols (sexprs items)).filter fun s => !s.isComment).map some
  | [] => rfl
  | i :: rest => by
    rw [allMarks, sexprs, SExpr.forestSymbols, List.map_append, marks_eq_symbols,
      allMarks_eq_symbols, List.filter_append, List.map_append]

end

end Item

/-- Symbols that can be written and whose parens match are the word of a source. -/
theorem Cursor.exists_ofSource {w : List Symbol} (hplain : ∀ s ∈ w, s.Plain)
    (hclimb : Symbol.climb Item.maxNesting 0 w = some 0) (filename : Option String) :
    ∃ source c, ofSource source filename = .ok c ∧
      (c.word none).map Prod.fst = w.map some ++ [none] := by
  obtain ⟨es, rfl, hdepth⟩ := SExpr.exists_forest_of_climb hclimb
  obtain ⟨cs, hlaid⟩ := exists_laid hplain
  have hprinted : Printed (SExpr.forestSymbols es) (String.ofList cs).toList :=
    ⟨[], cs, String.toList_ofList, fun x hx => (by cases hx), hlaid⟩
  obtain ⟨items, hread, rfl⟩ := Item.exists_readAll hdepth hprinted filename
  refine ⟨String.ofList cs, _, by rw [ofSource, hread]; rfl, ?_⟩
  have hshown : (SExpr.forestSymbols (Item.sexprs items)).filter (fun s => !s.isComment) =
      SExpr.forestSymbols (Item.sexprs items) :=
    List.filter_eq_self.2 fun s hs => by rw [(hplain s hs).shown]; rfl
  rw [word, List.map_append, Item.allMarks_eq_symbols, hshown]
  rfl

/-! ## From sources to symbols -/

namespace Item

variable {filename : Option String} {depth : Nat}

/-! What a tree that turns into an item is made of. -/

/-- A leaf becomes a token. -/
theorem ofTree_leaf_ok {l : Leaf} {i : Item} (h : ofTree filename depth (.leaf l) = .ok i) :
    ∃ t, Token.ofLeaf filename l = .ok t ∧ i = .token t := by
  rw [ofTree_leaf] at h
  obtain ⟨t, ht, rfl⟩ := map_eq_ok h
  exact ⟨t, ht, rfl⟩

/-- A form becomes a form, inside few enough others, whose items are what its children become. -/
theorem ofTree_form_ok {opening closing : Position} {children : Forest} {i : Item}
    (h : ofTree filename depth (.form opening children closing) = .ok i) :
    depth < maxNesting ∧ ∃ items, ofForest filename (depth + 1) children = .ok items ∧
      i = .form items (opening.span filename) (closing.span filename) := by
  rw [ofTree_form] at h
  split at h
  · cases h
  · next hdepth =>
    obtain ⟨items, hitems, hi⟩ := bind_eq_ok h
    cases hi
    exact ⟨Nat.lt_of_not_le hdepth, items, hitems, rfl⟩

/-- Each tree becomes one item. -/
theorem ofForest_cons_ok {tree : Tree} {rest : Forest} {items : List Item}
    (h : ofForest filename depth (tree :: rest) = .ok items) :
    ∃ i is, ofTree filename depth tree = .ok i ∧ ofForest filename depth rest = .ok is ∧
      items = i :: is := by
  rw [ofForest_cons] at h
  obtain ⟨i, hi, h⟩ := bind_eq_ok h
  obtain ⟨is, his, h⟩ := bind_eq_ok h
  cases h
  exact ⟨i, is, hi, his, rfl⟩

mutual

/-- Items are nested no deeper than allowed. -/
theorem depth_ofTree : ∀ (tree : Tree) {depth : Nat} {i : Item}, depth ≤ maxNesting →
    ofTree filename depth tree = .ok i → depth + i.sexpr.depth ≤ maxNesting
  | .leaf l, depth, i, hdepth, h => by
    obtain ⟨t, -, rfl⟩ := ofTree_leaf_ok h
    exact hdepth
  | .form opening children closing, depth, i, hdepth, h => by
    obtain ⟨hlt, items, hitems, rfl⟩ := ofTree_form_ok h
    have := depth_ofForest children hlt hitems
    rw [sexpr, SExpr.depth]
    omega

/-- As `depth_ofTree`, over some trees. -/
theorem depth_ofForest : ∀ (forest : Forest) {depth : Nat} {items : List Item},
    depth ≤ maxNesting → ofForest filename depth forest = .ok items →
    depth + SExpr.forestDepth (sexprs items) ≤ maxNesting
  | [], depth, items, hdepth, h => by
    cases h
    exact hdepth
  | tree :: rest, depth, items, hdepth, h => by
    obtain ⟨i, is, hi, his, rfl⟩ := ofForest_cons_ok h
    have hfirst := depth_ofTree tree hdepth hi
    have hrest := depth_ofForest rest hdepth his
    rw [sexprs, SExpr.forestDepth]
    omega

end

/-- The token of a leaf can be written, if it is no comment. -/
theorem written_ofLeaf {l : Leaf} {t : Token} {rest : List Char}
    (hstands : Lexeme.Stands (.leaf l.kind) l.text.toList rest)
    (h : Token.ofLeaf filename l = .ok t) (hcomment : t.kind.isComment = false) :
    ∃ text, (Symbol.token t.kind t.text).Written text := by
  obtain ⟨kind, text, pos⟩ := l
  unfold Token.ofLeaf Token.ofLeafAs at h
  cases kind with
  | string =>
    dsimp only at h
    cases hdecode : Literal.decode (codePoints text) with
    | error fault => rw [hdecode] at h; cases h
    | ok denoted =>
      rw [hdecode] at h
      cases h
      exact ⟨_, .string (Literal.spells_encode denoted.toList)⟩
  | atom =>
    cases h
    generalize hcs : text.toList = cs at hstands
    cases hstands with
    | @atom c cs _ hatom _ =>
      have hwritten := Symbol.written_atom (List.cons_ne_nil c cs) hatom
      rw [← hcs, String.ofList_toList] at hwritten
      exact ⟨_, hwritten⟩
  | lineComment | blockComment => cases h; cases hcomment

mutual

/-- The symbols of items that trees turn into can be written, apart from comments perhaps. -/
theorem written_ofTree : ∀ (tree : Tree) {depth : Nat} {i : Item},
    (∀ l ∈ tree.lexemes, ∃ rest, Lexeme.Stands l.shape l.text.toList rest) →
    ofTree filename depth tree = .ok i →
    ∀ s ∈ i.sexpr.symbols, s.isComment = false → ∃ text, s.Written text
  | .leaf l, depth, i, hstands, h => by
    obtain ⟨t, ht, rfl⟩ := ofTree_leaf_ok h
    intro s hs hcomment
    obtain rfl := List.mem_singleton.1 hs
    obtain ⟨rest, hrest⟩ := hstands _ List.mem_cons_self
    exact written_ofLeaf hrest ht hcomment
  | .form opening children closing, depth, i, hstands, h => by
    obtain ⟨-, items, hitems, rfl⟩ := ofTree_form_ok h
    intro s hs hcomment
    rw [sexpr, SExpr.symbols, List.mem_cons, List.mem_append, List.mem_singleton] at hs
    rcases hs with rfl | hs | rfl
    · exact ⟨_, .leftParen⟩
    · refine written_ofForest children (fun l hl => hstands l ?_) hitems s hs hcomment
      exact List.mem_cons_of_mem _ (List.mem_append_left _ hl)
    · exact ⟨_, .rightParen⟩

/-- As `written_ofTree`, over some trees. -/
theorem written_ofForest : ∀ (forest : Forest) {depth : Nat} {items : List Item},
    (∀ l ∈ Tree.forestLexemes forest, ∃ rest, Lexeme.Stands l.shape l.text.toList rest) →
    ofForest filename depth forest = .ok items →
    ∀ s ∈ SExpr.forestSymbols (sexprs items), s.isComment = false → ∃ text, s.Written text
  | [], depth, items, hstands, h => by
    cases h
    intro s hs
    cases hs
  | tree :: rest, depth, items, hstands, h => by
    obtain ⟨i, is, hi, his, rfl⟩ := ofForest_cons_ok h
    intro s hs
    rcases List.mem_append.1 hs with hs | hs
    · exact written_ofTree tree (fun l hl => hstands l (List.mem_append_left _ hl)) hi s hs
    · exact written_ofForest rest (fun l hl => hstands l (List.mem_append_right _ hl)) his s hs

end

/-- A token is where its leaf is. -/
theorem span_ofLeaf {l : Leaf} {t : Token} (h : Token.ofLeaf filename l = .ok t) :
    t.span = l.pos.span filename := by
  obtain ⟨kind, text, pos⟩ := l
  unfold Token.ofLeaf Token.ofLeafAs at h
  cases kind with
  | string =>
    dsimp only at h
    cases hdecode : Literal.decode (codePoints text) with
    | error fault => rw [hdecode] at h; cases h
    | ok denoted => rw [hdecode] at h; cases h; rfl
  | atom | lineComment | blockComment => cases h; rfl

mutual

/-- Marks stand where the lexemes that they come from stand. -/
theorem spans_ofTree : ∀ (tree : Tree) {depth : Nat} {i : Item},
    ofTree filename depth tree = .ok i →
    (i.marks.map Prod.snd).Sublist (tree.lexemes.map fun l => l.pos.span filename)
  | .leaf l, depth, i, h => by
    obtain ⟨t, ht, rfl⟩ := ofTree_leaf_ok h
    have hspan := span_ofLeaf ht
    rw [marks]
    split
    · exact List.nil_sublist _
    · rw [List.map_singleton, hspan]
      exact List.Sublist.refl _
  | .form opening children closing, depth, i, h => by
    obtain ⟨-, items, hitems, rfl⟩ := ofTree_form_ok h
    have hinner := (spans_ofForest children hitems).append (.refl [closing.span filename])
    simp only [marks, Tree.lexemes, List.map_cons, List.map_append]
    exact hinner.cons_cons _

/-- As `spans_ofTree`, over some trees. -/
theorem spans_ofForest : ∀ (forest : Forest) {depth : Nat} {items : List Item},
    ofForest filename depth forest = .ok items →
    ((allMarks items).map Prod.snd).Sublist
      ((Tree.forestLexemes forest).map fun l => l.pos.span filename)
  | [], depth, items, h => by
    cases h
    exact List.nil_sublist _
  | tree :: rest, depth, items, h => by
    obtain ⟨i, is, hi, his, rfl⟩ := ofForest_cons_ok h
    rw [allMarks, Tree.forestLexemes, List.map_append, List.map_append]
    exact (spans_ofTree tree hi).append (spans_ofForest rest his)

end

end Item

/-- Items are read from the forest of the source. -/
theorem Item.readAll_ok {source : String} {filename : Option String} {items : List Item}
    (h : readAll source filename = .ok items) :
    ∃ forest, Forest.read source filename = .ok forest ∧
      ofForest filename 0 forest = .ok items :=
  bind_eq_ok h

/-- Each lexeme of a forest begins behind the one before it. -/
theorem Forest.pairwise_offset {source : String} {filename : Option String} {forest : Forest}
    (h : read source filename = .ok forest) :
    ((Tree.forestLexemes forest).map fun l => l.pos.span filename).Pairwise fun s s' =>
      s.offset < s'.offset := by
  rw [lexemes_of_read h, List.pairwise_map]
  exact (Scan.pairwise_offset .start source.toList).imp fun hlt => Int.ofNat_lt.2 hlt

namespace Cursor

variable {source : String} {filename : Option String} {c : Cursor}

/-- The cursor at the beginning has all items of the source. -/
theorem ofSource_ok (h : ofSource source filename = .ok c) :
    Item.readAll source filename = .ok c.items := by
  obtain ⟨items, hitems, hc⟩ := bind_eq_ok h
  cases hc
  exact hitems

/-- The word of a source is made up of symbols that can be written and whose parens match. -/
theorem exists_word (h : ofSource source filename = .ok c) :
    ∃ w : List Symbol, (Item.allMarks c.items).map Prod.fst = w.map some ∧ (∀ s ∈ w, s.Plain) ∧
      Symbol.climb Item.maxNesting 0 w = some 0 := by
  obtain ⟨forest, hread, hitems⟩ := Item.readAll_ok (ofSource_ok h)
  refine ⟨_, Item.allMarks_eq_symbols c.items, fun s hs => ?_, ?_⟩
  · obtain ⟨hmem, hshown⟩ := List.mem_filter.1 hs
    have hcomment : s.isComment = false := by simpa using hshown
    have hstands : ∀ l ∈ Tree.forestLexemes forest,
        ∃ rest, Lexeme.Stands l.shape l.text.toList rest := by
      rw [Forest.lexemes_of_read hread]
      exact Scan.stands_of_mem
    exact ⟨Item.written_ofForest forest hstands hitems s hmem hcomment, hcomment⟩
  · have hdepth := Item.depth_ofForest forest (Nat.zero_le _) hitems
    have hclimb := SExpr.climb_forestSymbols (Item.sexprs c.items) [] hdepth
    rw [List.append_nil] at hclimb
    rw [Symbol.climb_shown, hclimb, Symbol.climb_nil]

/-- Each mark of a source begins behind the one before it. -/
theorem pairwise_offset (h : ofSource source filename = .ok c) :
    (Item.allMarks c.items).Pairwise fun x y => x.2.offset < y.2.offset := by
  obtain ⟨forest, hread, hitems⟩ := Item.readAll_ok (ofSource_ok h)
  have hmarks := (Forest.pairwise_offset hread).sublist (Item.spans_ofForest forest hitems)
  rw [List.pairwise_map] at hmarks
  exact hmarks

end Cursor

end WitxFrontEnd
