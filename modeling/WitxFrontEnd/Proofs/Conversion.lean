import WitxFrontEnd.Proofs.Lossless
import WitxFrontEnd.Proofs.Mentions

/-!
# From trees to items

Turning the trees of a source into items can go wrong at a token in two ways (`Offends`): it is a
string that denotes nothing, or a left paren inside two hundred open forms, which is counted in the
parens before it. Trees are walked from left to right and from the outside in, so the tokens are
looked at in the order in which they stand, and what is reported is the first offence (`Judged`).
Where there is none, each tree has become one item, with the same children and in the same place
(`Converted`). `Item.readAll_of_read` puts all of this together.
-/

namespace WitxFrontEnd

/-! ## Offences -/

/-- What is wrong with a token, given the tokens before it. -/
inductive Offends (before : List Lexeme) (l : Lexeme) : String → Prop
  | literal {fault : LiteralFault} (hshape : l.shape = .leaf .string)
      (hdecode : Literal.decode (codePoints l.text) = .error fault) : Offends before l fault.message
  | nesting (hshape : l.shape = .leftParen)
      (hdeep : (before.map Lexeme.shape).count .rightParen + 200 ≤
        (before.map Lexeme.shape).count .leftParen) : Offends before l "item nesting too deep"

/-- One thing at most is wrong with a token. -/
theorem Offends.unique {before : List Lexeme} {l : Lexeme} {message message' : String}
    (h : Offends before l message) (h' : Offends before l message') : message = message' := by
  cases h with
  | literal hshape hdecode =>
    cases h' with
    | literal hshape' hdecode' =>
      rw [hdecode] at hdecode'
      cases hdecode'
      rfl
    | nesting hshape' hdeep => rw [hshape] at hshape'; cases hshape'
  | nesting hshape hdeep =>
    cases h' with
    | literal hshape' hdecode => rw [hshape] at hshape'; cases hshape'
    | nesting hshape' hdeep' => rfl

/-- Nothing is wrong with any of the tokens, with the others before them. -/
inductive Clean : List Lexeme → List Lexeme → Prop
  | nil (before : List Lexeme) : Clean before []
  | cons {before ls : List Lexeme} {l : Lexeme} (h : ∀ message, ¬Offends before l message)
      (hs : Clean (before ++ [l]) ls) : Clean before (l :: ls)

namespace Clean

variable {before ls ls' : List Lexeme}

theorem singleton {l : Lexeme} (h : ∀ message, ¬Offends before l message) : Clean before [l] :=
  .cons h (.nil _)

/-- Nothing is wrong with a token that is neither a string nor a left paren. -/
theorem of_shape {l : Lexeme} (hstring : l.shape ≠ .leaf .string) (hparen : l.shape ≠ .leftParen) :
    Clean before [l] := by
  refine .singleton ?_
  intro message hoffends
  cases hoffends with
  | literal hshape hdecode => exact hstring hshape
  | nesting hshape hdeep => exact hparen hshape

theorem append (h : Clean before ls) (h' : Clean (before ++ ls) ls') :
    Clean before (ls ++ ls') := by
  induction h with
  | nil => rwa [List.append_nil] at h'
  | cons hl hs ih =>
    refine .cons hl (ih ?_)
    rwa [List.append_assoc, List.singleton_append]

theorem not_offends {front back : List Lexeme} {l : Lexeme}
    (h : Clean before (front ++ l :: back)) (message : String) :
    ¬Offends (before ++ front) l message := by
  induction front generalizing before with
  | nil =>
    cases h with
    | cons hl hs =>
      rw [List.append_nil]
      exact hl message
  | cons first front ih =>
    cases h with
    | cons hl hs =>
      have := ih hs
      rwa [List.append_assoc, List.singleton_append] at this

end Clean

/-- The outcome of walking over some tokens, with the others before them: nothing is wrong with any
of them, or the error is about the first with which something is. -/
def Judged {α : Type} (filename : Option String) (before ls : List Lexeme) :
    Except ParseError α → Prop
  | .ok _ => Clean before ls
  | .error e => ∃ front l back, ls = front ++ l :: back ∧ Clean before front ∧
      Offends (before ++ front) l e.message ∧ e.span = some (l.pos.span filename)

namespace Judged

variable {α β : Type} {filename : Option String} {before ls ls' : List Lexeme}

/-- The tokens behind some with which nothing is wrong. -/
theorem append_left {x : Except ParseError α} (h : Clean before ls)
    (h' : Judged filename (before ++ ls) ls' x) : Judged filename before (ls ++ ls') x := by
  cases x with
  | ok a => exact h.append h'
  | error e =>
    obtain ⟨front, l, back, rfl, hfront, hoffends, hspan⟩ := h'
    refine ⟨ls ++ front, l, back, (List.append_assoc ..).symm, h.append hfront, ?_, hspan⟩
    rwa [← List.append_assoc]

/-- One walk and then another over the tokens behind. -/
theorem bind {x : Except ParseError α} {k : α → Except ParseError β}
    (h : Judged filename before ls x)
    (h' : ∀ a, Judged filename (before ++ ls) ls' (k a)) :
    Judged filename before (ls ++ ls') (x >>= k) := by
  cases x with
  | ok a => exact append_left h (h' a)
  | error e =>
    obtain ⟨front, l, back, rfl, hrest⟩ := h
    refine ⟨front, l, back ++ ls', ?_, hrest⟩
    rw [List.append_assoc, List.cons_append]

/-- What becomes of the outcome is no matter. -/
theorem map {x : Except ParseError α} {f : α → β} (h : Judged filename before ls x) :
    Judged filename before ls (f <$> x) := by
  cases x with
  | ok a => exact h
  | error e => exact h

/-- A walk that fails at the first token. -/
theorem first {l : Lexeme} {e : ParseError} (hoffends : Offends before l e.message)
    (hspan : e.span = some (l.pos.span filename)) :
    Judged (α := α) filename before (l :: ls) (.error e) := by
  refine ⟨[], l, ls, rfl, .nil _, ?_, hspan⟩
  rwa [List.append_nil]

end Judged

/-! ## The walk -/

/-- So many forms are open behind the tokens. -/
def Opens (ls : List Lexeme) (depth : Nat) : Prop :=
  (ls.map Lexeme.shape).count .leftParen = (ls.map Lexeme.shape).count .rightParen + depth

namespace Opens

variable {ls : List Lexeme} {depth : Nat}

theorem leftParen (h : Opens ls depth) (opening : Position) :
    Opens (ls ++ [⟨.leftParen, "(", opening⟩]) (depth + 1) := by
  unfold Opens at h ⊢
  simp only [List.map_append, List.map_cons, List.map_nil, List.count_append]
  have hleft : [Shape.leftParen].count .leftParen = 1 := rfl
  have hright : [Shape.leftParen].count .rightParen = 0 := rfl
  omega

/-- Behind a forest as many forms are open as before it. -/
theorem forestLexemes (h : Opens ls depth) (forest : Forest) :
    Opens (ls ++ Tree.forestLexemes forest) depth := by
  have hbalanced := (Tree.balanced_forestLexemes forest).total
  unfold Opens at h ⊢
  rw [List.map_append, List.count_append, List.count_append]
  omega

end Opens

namespace Item

variable {filename : Option String}

/-- A leaf is looked at as the one lexeme that it is. -/
theorem judged_ofLeaf (before : List Lexeme) (l : Leaf) :
    Judged filename before [⟨.leaf l.kind, l.text, l.pos⟩] (Token.ofLeaf filename l) := by
  obtain ⟨kind, text, pos⟩ := l
  unfold Token.ofLeaf Token.ofLeafAs
  cases kind with
  | string =>
    dsimp only
    cases hdecode : Literal.decode (codePoints text) with
    | error fault => exact .first (.literal rfl hdecode) rfl
    | ok denoted =>
      refine .singleton ?_
      intro message hoffends
      cases hoffends with
      | literal hshape hfault => rw [hdecode] at hfault; cases hfault
      | nesting hshape hdeep => cases hshape
  | atom | lineComment | blockComment => exact Clean.of_shape nofun nofun

mutual

/-- A tree is walked over in the order of its lexemes. -/
theorem judged_ofTree : ∀ (tree : Tree) {depth : Nat} {before : List Lexeme},
    Opens before depth → Judged filename before tree.lexemes (ofTree filename depth tree)
  | .leaf l, depth, before, _ => by
    rw [Tree.lexemes, ofTree_leaf]
    exact (judged_ofLeaf before l).map
  | .form opening children closing, depth, before, h => by
    have hopen := h.leftParen opening
    unfold Opens at h
    rw [Tree.lexemes, ofTree_form]
    -- the depth is the number of open forms, which is what the parens before the form count
    by_cases hdeep : maxNesting ≤ depth
    · rw [if_pos hdeep]
      refine .first (.nesting rfl ?_) rfl
      unfold maxNesting at hdeep
      omega
    · rw [if_neg hdeep]
      unfold maxNesting at hdeep
      have hopening : Clean before [⟨.leftParen, "(", opening⟩] := by
        refine .singleton ?_
        intro message hoffends
        cases hoffends with
        | literal hshape hfault => cases hshape
        | nesting hshape hover => omega
      have hclosing (before : List Lexeme) : Clean before [⟨.rightParen, ")", closing⟩] :=
        .of_shape nofun nofun
      have hchildren := judged_ofForest children hopen
      exact .append_left hopening (hchildren.bind fun items => hclosing _)

/-- As `judged_ofTree`, over some trees. -/
theorem judged_ofForest : ∀ (forest : Forest) {depth : Nat} {before : List Lexeme},
    Opens before depth →
    Judged filename before (Tree.forestLexemes forest) (ofForest filename depth forest)
  | [], depth, before, _ => .nil before
  | tree :: rest, depth, before, h => by
    rw [Tree.forestLexemes, ofForest_cons]
    have htree := h.forestLexemes [tree]
    rw [Tree.forestLexemes, Tree.forestLexemes, List.append_nil] at htree
    exact (judged_ofTree tree h).bind fun item => (judged_ofForest rest htree).map

end

end Item

/-! ## What trees become -/

/-- The token that a leaf denotes. -/
structure Leaf.Denotes (filename : Option String) (l : Leaf) (t : Token) : Prop where
  kind : t.kind.leafKind = l.kind
  atom : l.kind = .atom → t.kind = .ofAtom l.text
  string : l.kind = .string → Literal.decode (codePoints l.text) = .ok t.text
  verbatim : l.kind ≠ .string → t.text = l.text
  span : t.span = l.pos.span filename

/-- The item that a tree becomes: a token for a leaf, and for a form a form whose items are what
its children become, one from each. -/
inductive Converted (filename : Option String) : Tree → Item → Prop
  | leaf {l : Leaf} {t : Token} (h : l.Denotes filename t) : Converted filename (.leaf l) (.token t)
  | form {opening closing : Position} {children : Forest} {items : List Item}
      (h : List.Forall₂ (Converted filename) children items) :
      Converted filename (.form opening children closing)
        (.form items (opening.span filename) (closing.span filename))

/-- A leaf denotes the token that it is turned into. -/
theorem Token.denotes_of_ofLeaf {filename : Option String} {l : Leaf} {t : Token}
    (h : ofLeaf filename l = .ok t) : l.Denotes filename t := by
  obtain ⟨kind, text, pos⟩ := l
  unfold ofLeaf ofLeafAs at h
  cases kind with
  | string =>
    dsimp only at h
    cases hdecode : Literal.decode (codePoints text) with
    | error fault => rw [hdecode] at h; cases h
    | ok denoted =>
      rw [hdecode] at h
      cases h
      exact ⟨rfl, nofun, fun _ => hdecode, fun hne => absurd rfl hne, rfl⟩
  | atom =>
    cases h
    exact ⟨TokenKind.leafKind_ofAtom text, fun _ => rfl, nofun, fun _ => rfl, rfl⟩
  | lineComment | blockComment =>
    cases h
    exact ⟨rfl, nofun, nofun, fun _ => rfl, rfl⟩

namespace Item

variable {filename : Option String}

mutual

/-- A tree that is turned into an item becomes that item. -/
theorem converted_ofTree : ∀ (tree : Tree) {depth : Nat} {i : Item},
    ofTree filename depth tree = .ok i → Converted filename tree i
  | .leaf l, depth, i, h => by
    obtain ⟨t, ht, rfl⟩ := ofTree_leaf_ok h
    exact .leaf (Token.denotes_of_ofLeaf ht)
  | .form opening children closing, depth, i, h => by
    obtain ⟨-, items, hitems, rfl⟩ := ofTree_form_ok h
    exact .form (converted_ofForest children hitems)

/-- As `converted_ofTree`, over some trees. -/
theorem converted_ofForest : ∀ (forest : Forest) {depth : Nat} {items : List Item},
    ofForest filename depth forest = .ok items →
    List.Forall₂ (Converted filename) forest items
  | [], depth, items, h => by
    cases h
    exact .nil
  | tree :: rest, depth, items, h => by
    obtain ⟨i, is, hi, his, rfl⟩ := ofForest_cons_ok h
    exact .cons (converted_ofTree tree hi) (converted_ofForest rest his)

end

end Item

/-! ## Sources -/

/-- Of two places in a list one is before the other, or they are the same. -/
theorem append_cons_cases {α : Type} {as as' bs bs' : List α} {a a' : α}
    (h : as ++ a :: bs = as' ++ a' :: bs') :
    (as = as' ∧ a = a') ∨ (∃ mid, as' = as ++ a :: mid) ∨ ∃ mid, as = as' ++ a' :: mid := by
  rcases List.append_eq_append_iff.1 h with ⟨mid, rfl, hmid⟩ | ⟨mid, rfl, hmid⟩
  · cases mid with
    | nil =>
      cases hmid
      exact .inl ⟨(List.append_nil as).symm, rfl⟩
    | cons c mid =>
      cases hmid
      exact .inr (.inl ⟨mid, rfl⟩)
  · cases mid with
    | nil =>
      cases hmid
      exact .inl ⟨List.append_nil as', rfl⟩
    | cons c mid =>
      cases hmid
      exact .inr (.inr ⟨mid, rfl⟩)

namespace Item

variable {source : String} {filename : Option String}

/-- Reading a source that is a forest walks over its tokens. -/
theorem judged_readAll {forest : Forest} (h : Forest.read source filename = .ok forest) :
    Judged filename [] (Tree.forestLexemes forest) (readAll source filename) := by
  rw [readAll, h]
  exact judged_ofForest forest rfl

/-- A forest is not read as items if and only if something offends in it. -/
theorem exists_error_iff {forest : Forest} (h : Forest.read source filename = .ok forest) :
    (∃ e, readAll source filename = .error e) ↔
      ∃ before l after message, Tree.forestLexemes forest = before ++ l :: after ∧
        Offends before l message := by
  have hjudged := judged_readAll h
  constructor
  · rintro ⟨e, he⟩
    rw [he] at hjudged
    obtain ⟨before, l, after, htokens, -, hoffends, -⟩ := hjudged
    exact ⟨before, l, after, _, htokens, hoffends⟩
  · rintro ⟨before, l, after, message, htokens, hoffends⟩
    cases hitems : readAll source filename with
    | error e => exact ⟨e, rfl⟩
    | ok items =>
      rw [hitems, htokens] at hjudged
      exact absurd hoffends (Clean.not_offends hjudged message)

/-- All offences of a source come behind the first, or are that one. -/
theorem offset_lt_of_offends {forest : Forest} (hread : Forest.read source filename = .ok forest)
    {before before' after after' : List Lexeme} {l l' : Lexeme} {message message' : String}
    (htokens : Tree.forestLexemes forest = before ++ l :: after) (hclean : Clean [] before)
    (hoffends : Offends before l message)
    (htokens' : Tree.forestLexemes forest = before' ++ l' :: after')
    (hoffends' : Offends before' l' message') :
    l' = l ∧ message' = message ∨ l.pos.offset < l'.pos.offset := by
  have hordered := Scan.pairwise_offset .start source.toList
  change (Scan.ofSource source).lexemes.Pairwise _ at hordered
  rw [← Forest.lexemes_of_read hread] at hordered
  rcases append_cons_cases (htokens.symm.trans htokens') with
    ⟨rfl, rfl⟩ | ⟨mid, rfl⟩ | ⟨mid, rfl⟩
  · exact .inl ⟨rfl, hoffends'.unique hoffends⟩
  · rw [htokens', List.append_assoc, List.cons_append] at hordered
    have hbehind := (List.pairwise_cons.1 (List.pairwise_append.1 hordered).2.1).1
    exact .inr (hbehind l' (by simp))
  · -- nothing is wrong with the tokens before the first offence
    exact absurd hoffends' (hclean.not_offends message')

theorem forestDepth_le {items : List Item} (h : readAll source filename = .ok items) :
    SExpr.forestDepth (sexprs items) ≤ 200 := by
  obtain ⟨forest, -, hitems⟩ := readAll_ok h
  have hdepth := depth_ofForest forest (Nat.zero_le _) hitems
  rwa [Nat.zero_add] at hdepth

/-- No type that is mentioned is deeper than forms may be. -/
theorem wrappers_le {mentions : List Mention}
    (h : ∃ items, readAll source filename = .ok items ∧ Holds (View.bare items) mentions) :
    ∀ type, .type type ∈ mentions → type.wrappers ≤ 200 := by
  intro type htype
  obtain ⟨items, hitems, hholds⟩ := h
  exact Nat.le_trans (hholds.wrappers_le htype) (forestDepth_le hitems)

/-- For a source that is a forest: it is not turned into items if and only if something is wrong
with one of its tokens, and then the error is about the first such token. Where it is, each tree has
become one item in the same place and no more than two hundred forms are around each other; so no
type that is read from it has more than two hundred arrays and pointers around each other. -/
theorem readAll_of_read {forest : Forest} (h : Forest.read source filename = .ok forest) :
    ((∃ e, readAll source filename = .error e) ↔
      ∃ before l after message, Tree.forestLexemes forest = before ++ l :: after ∧
        Offends before l message) ∧
    (∀ e, readAll source filename = .error e →
      ∃ before l after, Tree.forestLexemes forest = before ++ l :: after ∧
        Offends before l e.message ∧ e.span = some (l.pos.span filename) ∧
        ∀ before' l' after' message, Tree.forestLexemes forest = before' ++ l' :: after' →
          Offends before' l' message →
          l' = l ∧ message = e.message ∨ l.pos.offset < l'.pos.offset) ∧
    (∀ items, readAll source filename = .ok items →
      List.Forall₂ (Converted filename) forest items ∧ SExpr.forestDepth (sexprs items) ≤ 200) ∧
    (∀ d, Document.parse source filename = .ok d →
      ∀ type, .type type ∈ d.mentions → type.wrappers ≤ 200) ∧
    (∀ definition, Typedef.parse source filename = .ok definition →
      ∀ type, .type type ∈ definition.mentions → type.wrappers ≤ 200) ∧
    ∀ t, Datatype.parse source filename = .ok t →
      ∀ type, .type type ∈ t.mentions → type.wrappers ≤ 200 := by
  refine ⟨exists_error_iff h, ?_, ?_,
    fun d hd => wrappers_le (Document.holds_of_parse hd),
    fun definition hdefinition => wrappers_le (Typedef.holds_of_parse hdefinition),
    fun t ht => wrappers_le (Datatype.holds_of_parse ht)⟩
  · intro e he
    have hjudged := judged_readAll h
    rw [he] at hjudged
    obtain ⟨before, l, after, htokens, hclean, hoffends, hspan⟩ := hjudged
    refine ⟨before, l, after, htokens, hoffends, hspan, ?_⟩
    intro before' l' after' message htokens' hoffends'
    exact offset_lt_of_offends h htokens hclean hoffends htokens' hoffends'
  · intro items hitems
    refine ⟨?_, forestDepth_le hitems⟩
    rw [readAll, h] at hitems
    exact converted_ofForest forest hitems

/-- Two strings that denote nothing, behind one that denotes something. The error is about the
first of them. -/
theorem readAll_of_read_two_literals :
    (∃ forest, Forest.read "(\"\\61\" \"\\q\" \"\\6\")" none = .ok forest ∧
      ∀ before l after message, Tree.forestLexemes forest = before ++ l :: after →
        Offends before l message → 7 ≤ l.pos.offset) ∧
    readAll "(\"\\61\" \"\\q\" \"\\6\")" none =
      .error ⟨.literal (.unknownEscape 'q'), some ⟨7, 1, 8, none⟩⟩ := by
  have hread : Forest.read "(\"\\61\" \"\\q\" \"\\6\")" none =
      .ok [.form ⟨0, 1, 1⟩ [.leaf ⟨.string, "\"\\61\"", ⟨1, 1, 2⟩⟩,
        .leaf ⟨.string, "\"\\q\"", ⟨7, 1, 8⟩⟩, .leaf ⟨.string, "\"\\6\"", ⟨12, 1, 13⟩⟩]
        ⟨16, 1, 17⟩] := by decide +kernel
  have herror : readAll "(\"\\61\" \"\\q\" \"\\6\")" none =
      .error ⟨.literal (.unknownEscape 'q'), some ⟨7, 1, 8, none⟩⟩ := by decide +kernel
  obtain ⟨before, l, after, -, -, hspan, hfirst⟩ := (readAll_of_read hread).2.1 _ herror
  have hoffset : (7 : Int) = l.pos.offset := congrArg Span.offset (Option.some.inj hspan)
  refine ⟨⟨_, hread, ?_⟩, herror⟩
  intro before' l' after' message htokens hoffends
  rcases hfirst before' l' after' message htokens hoffends with ⟨rfl, -⟩ | hlt
  · omega
  · omega

end Item

end WitxFrontEnd
