import Mathlib.Data.List.Induction
import WitxFrontEnd.Proofs.Conversion
import WitxFrontEnd.Proofs.Reclosing
import WitxFrontEnd.Proofs.ViablePrefix

/-!
# Every span is a place

Spans are made where a token is cut, where the source ends and where no token can be cut, and from
there they are handed on. What a span of a source has to be is said by `Span.IsPlace`: its line and
column are those of its offset. Each place that the tokens of a source lead to is one
(`Reaches.isPlace`). So it is enough to know of every span where it comes from: the spans of items
are those of the trees that they were (`Item.exists_tree`), the span of a name is that of the item
that the name is derived from, and an error is at a mark of the word of the source
(`Document.exists_mark`), at a token or where reading stops.
-/

namespace WitxFrontEnd

/-! ## Places -/

/-- The offset is the beginning of the source, or right behind a line feed. -/
def BeginsLine (source : String) (offset : Nat) : Prop :=
  offset = 0 ∨ source.toList[offset - 1]? = some '\n'

/-- The span is a place of the source: it has the line and the column that belong to its offset. -/
structure Span.IsPlace (s : Span) (source : String) (filename : Option String) : Prop where
  nonneg : 0 ≤ s.offset
  inside : s.offset ≤ source.length
  line : s.line = 1 + (source.toList.take s.offset.toNat).count '\n'
  /-- The line of the span begins at some offset, and no line feed is between it and the span. -/
  column : ∃ first ≤ s.offset.toNat, BeginsLine source first ∧
    '\n' ∉ (source.toList.take s.offset.toNat).drop first ∧ s.column = s.offset - first + 1
  file : s.filename = filename

/-- The text stands at the span as a token of the shape. -/
def StandsAt (source : String) (filename : Option String) (shape : Shape) (text : String)
    (s : Span) : Prop :=
  ∃ tokens p rest, Reaches .start source.toList tokens p (text.toList ++ rest) ∧
    Chosen shape text.toList rest ∧ s = p.span filename

/-- The column that characters lead to counts from the beginning of the last line. -/
theorem Position.column_advance (cs : List Char) :
    ∃ first ≤ cs.length, (first = 0 ∨ cs[first - 1]? = some '\n') ∧ '\n' ∉ cs.drop first ∧
      (start.advance cs).column + first = cs.length + 1 := by
  induction cs using List.reverseRecOn with
  | nil => exact ⟨0, Nat.le_refl _, .inl rfl, List.not_mem_nil, rfl⟩
  | append_singleton cs c ih =>
    obtain ⟨first, hle, hfirst, hline, hcolumn⟩ := ih
    rw [advance_append, advance_cons, advance_nil, List.length_append, List.length_singleton]
    -- a line feed begins a line right behind it, any other character goes on with the last one
    by_cases hc : c = '\n'
    · subst hc
      refine ⟨cs.length + 1, Nat.le_refl _, .inr ?_, ?_, ?_⟩
      · rw [Nat.add_sub_cancel, List.getElem?_append_right (Nat.le_refl _), Nat.sub_self]
        rfl
      · rw [List.drop_of_length_le (by simp)]
        exact List.not_mem_nil
      · exact Nat.add_comm _ _
    · refine ⟨first, Nat.le_succ_of_le hle, ?_, ?_, ?_⟩
      · rcases hfirst with hfirst | hfirst
        · exact .inl hfirst
        · have hlt := (List.getElem?_eq_some_iff.1 hfirst).1
          exact .inr (by rwa [List.getElem?_append_left hlt])
      · rw [List.drop_append_of_le_length hle, List.mem_append, List.mem_singleton]
        rintro (hmem | hmem)
        · exact hline hmem
        · exact hc hmem.symm
      · rw [next, if_neg hc]
        show (start.advance cs).column + 1 + first = cs.length + 1 + 1
        omega

variable {source : String} {filename : Option String}

namespace Reaches

variable {tokens : List Lexeme} {q : Position} {rest : List Char}

/-- Where the tokens of a source lead to is a place of the source. -/
theorem isPlace (h : Reaches .start source.toList tokens q rest) (filename : Option String) :
    (q.span filename).IsPlace source filename := by
  obtain ⟨passed, hsource, rfl⟩ := h.exists_append
  have hoffset : (Position.start.advance passed).offset = passed.length := by
    rw [Position.offset_advance]
    exact Nat.zero_add _
  have hlength : source.length = passed.length + rest.length := by
    rw [← String.length_toList, hsource, List.length_append]
  have htake : source.toList.take passed.length = passed := by rw [hsource, List.take_left]
  unfold Position.span
  rw [hoffset]
  refine ⟨Int.natCast_nonneg _, ?_, ?_, ?_, rfl⟩
  · show (passed.length : Int) ≤ source.length
    omega
  · show ((Position.start.advance passed).line : Int) =
      1 + ((source.toList.take passed.length).count '\n' : Nat)
    rw [htake, Position.line_advance]
    rfl
  · obtain ⟨first, hle, hfirst, hline, hcolumn⟩ := Position.column_advance passed
    refine ⟨first, hle, ?_, ?_, ?_⟩
    · rcases hfirst with hfirst | hfirst
      · exact .inl hfirst
      · have hlt := (List.getElem?_eq_some_iff.1 hfirst).1
        exact .inr (by rwa [hsource, List.getElem?_append_left hlt])
    · show '\n' ∉ (source.toList.take passed.length).drop first
      rwa [htake]
    · show ((Position.start.advance passed).column : Int) = passed.length - first + 1
      omega

/-- Each of the tokens stands where its position says. -/
theorem standsAt (h : Reaches .start source.toList tokens q rest) {l : Lexeme} (hl : l ∈ tokens)
    (filename : Option String) :
    StandsAt source filename l.shape l.text (l.pos.span filename) := by
  obtain ⟨before, after, rfl⟩ := List.append_of_mem hl
  obtain ⟨behind, hreaches, hchosen⟩ := h.split
  exact ⟨before, l.pos, behind, hreaches, hchosen, rfl⟩

end Reaches

theorem StandsAt.isPlace {shape : Shape} {text : String} {s : Span}
    (h : StandsAt source filename shape text s) : s.IsPlace source filename := by
  obtain ⟨tokens, p, rest, hreaches, -, rfl⟩ := h
  exact hreaches.isPlace filename

/-! ## Items -/

theorem Tree.Within.mono {tree : Tree} {forest forest' : Forest} (h : tree.Within forest)
    (hsub : forest ⊆ forest') : tree.Within forest' := by
  cases h with
  | here hmem => exact .here (hsub hmem)
  | inside hmem h => exact .inside (hsub hmem) h

/-- The lexeme of a leaf is among those of a forest that the leaf is within. -/
theorem Tree.Within.leaf_mem {l : Leaf} {forest : Forest} (h : (Tree.leaf l).Within forest) :
    ⟨.leaf l.kind, l.text, l.pos⟩ ∈ forestLexemes forest := by
  obtain ⟨before, behind, hlexemes⟩ := h.exists_append
  rw [hlexemes, lexemes]
  simp

namespace Item

mutual

/-- What is within an item was a tree within the tree that the item was. -/
theorem exists_tree_of_mem_preorder : ∀ (i : Item) {tree : Tree} {j : Item},
    Converted filename tree i → j ∈ i.preorder → ∃ t, t.Within [tree] ∧ Converted filename t j
  | .token t, tree, j, h, hj => by
    rw [List.mem_singleton.1 hj]
    exact ⟨tree, .here List.mem_cons_self, h⟩
  | .form items span closing, tree, j, h, hj => by
    rcases List.mem_cons.1 hj with rfl | hinner
    · exact ⟨tree, .here List.mem_cons_self, h⟩
    · cases h with
      | form hchildren =>
        obtain ⟨t, ht, hconverted⟩ := exists_tree items hchildren hinner
        exact ⟨t, .inside List.mem_cons_self ht, hconverted⟩

/-- As `exists_tree_of_mem_preorder`, over some items. -/
theorem exists_tree : ∀ (items : List Item) {forest : Forest} {j : Item},
    List.Forall₂ (Converted filename) forest items → j ∈ preorderAll items →
    ∃ t, t.Within forest ∧ Converted filename t j
  | [], forest, j, _, hj => nomatch hj
  | i :: rest, forest, j, h, hj => by
    cases h with
    | @cons tree _ forest _ hi hrest =>
      rcases List.mem_append.1 hj with hj | hj
      · obtain ⟨t, ht, hconverted⟩ := exists_tree_of_mem_preorder i hi hj
        exact ⟨t, ht.mono (by simp), hconverted⟩
      · obtain ⟨t, ht, hconverted⟩ := exists_tree rest hrest hj
        exact ⟨t, ht.mono (by simp), hconverted⟩

end

/-- Each item of a source was a tree of it. -/
theorem exists_tree_of_readAll {items : List Item} (h : readAll source filename = .ok items)
    {i : Item} (hi : i ∈ preorderAll items) :
    ∃ forest q tree, Forest.read source filename = .ok forest ∧
      Reaches .start source.toList (Tree.forestLexemes forest) q [] ∧ tree.Within forest ∧
      Converted filename tree i := by
  obtain ⟨forest, hread, hforest⟩ := readAll_ok h
  obtain ⟨q, hreaches⟩ := Forest.reaches_of_read hread
  obtain ⟨tree, htree, hconverted⟩ := exists_tree items (converted_ofForest forest hforest) hi
  exact ⟨forest, q, tree, hread, hreaches, htree, hconverted⟩

/-- A token of a source is where the text of its leaf stands. -/
theorem standsAt_of_token {items : List Item} (h : readAll source filename = .ok items)
    {t : Token} (ht : .token t ∈ preorderAll items) :
    ∃ l : Leaf, l.Denotes filename t ∧
      StandsAt source filename (.leaf l.kind) l.text t.span := by
  obtain ⟨forest, q, tree, hread, hreaches, htree, hconverted⟩ := exists_tree_of_readAll h ht
  cases hconverted with
  | @leaf l _ hdenotes =>
    refine ⟨l, hdenotes, ?_⟩
    rw [hdenotes.span]
    exact hreaches.standsAt htree.leaf_mem filename

/-- A form of a source is where two parens stand that match. -/
theorem matching_of_form {items children : List Item} {span closing : Span}
    (h : readAll source filename = .ok items)
    (hform : .form children span closing ∈ preorderAll items) :
    span.IsPlace source filename ∧ closing.IsPlace source filename ∧
      ∃ tokens q left inner right, Reaches .start source.toList tokens q [] ∧
        Matching tokens left inner right ∧ span = left.pos.span filename ∧
        closing = right.pos.span filename := by
  obtain ⟨forest, q, tree, hread, hreaches, htree, hconverted⟩ := exists_tree_of_readAll h hform
  cases hconverted with
  | form hchildren =>
    have hmatching := htree.matching
    have hopening := hreaches.standsAt hmatching.left_mem filename
    have hclosing := hreaches.standsAt hmatching.right_mem filename
    exact ⟨hopening.isPlace, hclosing.isPlace, _, q, _, _, _, hreaches, hmatching, rfl, rfl⟩

end Item

/-! ## Names -/

/-- An atom that is an identifier begins with a dollar sign. -/
theorem TokenKind.eq_of_ofAtom_identifier {text : String} (h : ofAtom text = .identifier) :
    text = "$" ++ String.ofList (text.toList.drop 1) := by
  unfold ofAtom at h
  split at h
  · next c cs htext =>
    have htail : (String.ofList (text.toList.drop 1)).toList = c :: cs := by
      rw [String.toList_ofList, htext]
      rfl
    rw [← String.toList_inj, String.toList_append, htail, htext]
    rfl
  · split at h <;> cases h
  · cases h

/-- Where a name stands that is derived from a token of a source: as an atom behind a dollar sign,
or as a string that denotes it. -/
theorem DerivesName.standsAt {items : List Item} (h : Item.readAll source filename = .ok items)
    {t : Token} (ht : .token t ∈ Item.preorderAll items) {ident : Identifier}
    (hname : DerivesName (.token t) ident) :
    (ident.quoted = false →
      StandsAt source filename (.leaf .atom) ("$" ++ ident.name) ident.span) ∧
    (ident.quoted = true → ∃ literal,
      StandsAt source filename (.leaf .string) literal ident.span ∧
        Literal.decode (codePoints literal) = .ok ident.name) := by
  obtain ⟨l, hdenotes, hstands⟩ := Item.standsAt_of_token h ht
  have hkind := hdenotes.kind
  cases hname with
  | identifier hidentifier =>
    cases hidentifier with
    | dollar text span =>
      refine ⟨fun _ => ?_, nofun⟩
      have hatom : l.kind = .atom := hkind.symm
      have htext : text = l.text := hdenotes.verbatim (by rw [hatom]; nofun)
      have hdollar := TokenKind.eq_of_ofAtom_identifier (hdenotes.atom hatom).symm
      rw [htext, ← hdollar, ← hatom]
      exact hstands
  | string text span =>
    have hstring : l.kind = .string := hkind.symm
    refine ⟨nofun, fun _ => ⟨l.text, ?_, hdenotes.string hstring⟩⟩
    rw [← hstring]
    exact hstands

/-! ## Errors -/

/-- Judging blames a mark, unless the marks run out before the goals do. -/
theorem Goal.judge_error {gs : List Goal} {w : List (Mark × Span)} {o : Option Span}
    (h : judge gs w = .error o) :
    (∃ x ∈ w, o = some x.2) ∨ ∃ S, run gs (w.map Prod.fst) = some S ∧ S ≠ [] := by
  induction w generalizing gs with
  | nil =>
    cases gs with
    | nil => cases h
    | cons g gs => exact .inr ⟨g :: gs, rfl, List.cons_ne_nil g gs⟩
  | cons x w ih =>
    obtain ⟨m, s⟩ := x
    cases gs with
    | nil =>
      cases h
      exact .inl ⟨(m, s), List.mem_cons_self, rfl⟩
    | cons g gs =>
      rw [judge] at h
      split at h
      · cases h
        exact .inl ⟨(m, s), List.mem_cons_self, rfl⟩
      · next next hstep =>
        split at h
        · cases h
          exact .inl ⟨(m, s), List.mem_cons_self, rfl⟩
        · rcases ih h with ⟨x, hx, hspan⟩ | ⟨S, hrun, hS⟩
          · exact .inl ⟨x, List.mem_cons_of_mem _ hx, hspan⟩
          · refine .inr ⟨S, ?_, hS⟩
            rw [List.map_cons, run_cons, feed, hstep]
            exact hrun

/-- What is wrong with a source that is read but is no document is at a mark of its word. -/
theorem Document.exists_mark {c : Cursor} {e : ParseError}
    (hc : Cursor.ofSource source filename = .ok c) (he : parse source filename = .error e) :
    ∃ x ∈ c.word none, e.span = some x.2 := by
  have hjudge : Goal.judge [.topLevels] (c.word none) = .error e.span := by
    rw [parse, hc] at he
    change Cursor.toEnd .expectedEnd (Grammar.document c) = _ at he
    rw [Goal.judge_document, he]
    rfl
  rcases Goal.judge_error hjudge with hmark | ⟨S, hrun, hS⟩
  · exact hmark
  · exact absurd (run_word hc hrun) hS

/-- The marks of a source are at places of it. -/
theorem Cursor.isPlace_of_mem_word {c : Cursor} (hc : ofSource source filename = .ok c)
    {x : Mark × Span} (hx : x ∈ c.word none) : x.2.IsPlace source filename := by
  obtain ⟨items, hitems, hcursor⟩ := bind_eq_ok hc
  cases hcursor
  obtain ⟨forest, hread, hforest⟩ := Item.readAll_ok hitems
  obtain ⟨q, hreaches⟩ := Forest.reaches_of_read hread
  rcases List.mem_append.1 hx with hx | hx
  · have hspan := (Item.spans_ofForest forest hforest).subset (List.mem_map_of_mem hx)
    obtain ⟨l, hl, hspan⟩ := List.mem_map.1 hspan
    rw [← hspan]
    exact (hreaches.standsAt hl filename).isPlace
  · obtain ⟨passed, hsource, rfl⟩ := hreaches.exists_append
    rw [List.append_nil] at hsource
    rw [List.mem_singleton.1 hx]
    have hplace := hreaches.isPlace filename
    rwa [← hsource] at hplace

/-- A mistake in a source that is read as no items is at a place of it. -/
theorem Item.exists_isPlace_of_readAll_error {e : ParseError}
    (h : readAll source filename = .error e) :
    ∃ s, e.span = some s ∧ s.IsPlace source filename := by
  cases hread : Forest.read source filename with
  | error e' =>
    rw [readAll, hread] at h
    cases h
    obtain ⟨tokens, q, rest, nest, hreaches, -, hspan, -⟩ := Forest.read_error hread
    exact ⟨q.span filename, hspan, hreaches.isPlace filename⟩
  | ok forest =>
    have hjudged := judged_readAll hread
    rw [h] at hjudged
    obtain ⟨before, l, after, htokens, -, -, hspan⟩ := hjudged
    obtain ⟨q, hreaches⟩ := Forest.reaches_of_read hread
    have hl : l ∈ Tree.forestLexemes forest := by
      rw [htokens]
      exact List.mem_append_right _ List.mem_cons_self
    exact ⟨l.pos.span filename, hspan, (hreaches.standsAt hl filename).isPlace⟩

/-- A mistake in a source that is no document is at a place of it. -/
theorem Document.exists_isPlace_of_parse_error {e : ParseError}
    (h : parse source filename = .error e) :
    ∃ s, e.span = some s ∧ s.IsPlace source filename := by
  cases hc : Cursor.ofSource source filename with
  | ok c =>
    obtain ⟨x, hx, hspan⟩ := exists_mark hc h
    exact ⟨x.2, hspan, Cursor.isPlace_of_mem_word hc hx⟩
  | error e' =>
    rw [parse, hc] at h
    cases h
    cases hitems : Item.readAll source filename with
    | ok items => rw [Cursor.ofSource, hitems] at hc; cases hc
    | error e'' =>
      rw [Cursor.ofSource, hitems] at hc
      cases hc
      exact Item.exists_isPlace_of_readAll_error hitems

/-! ## Sources -/

/-- Every span is a place: the spans of all items of a source, those of the names in the document
that it holds and those of its mistakes. A form is where two parens stand that match, a name where a
dollar sign and the name stand as one atom, or where a string stands that denotes the name; and a
mistake always has a span. -/
theorem Document.spans_isPlace (source : String) (filename : Option String) :
    (∀ items, Item.readAll source filename = .ok items → ∀ i ∈ Item.preorderAll items,
      i.span.IsPlace source filename ∧
      ∀ children opening closing, i = .form children opening closing →
        closing.IsPlace source filename ∧
        ∃ tokens q left inner right, Reaches .start source.toList tokens q [] ∧
          Matching tokens left inner right ∧ opening = left.pos.span filename ∧
          closing = right.pos.span filename) ∧
    (∀ d, parse source filename = .ok d → ∀ ident, .name ident ∈ d.mentions →
      ident.span.IsPlace source filename ∧
      (ident.quoted = false →
        StandsAt source filename (.leaf .atom) ("$" ++ ident.name) ident.span) ∧
      (ident.quoted = true → ∃ literal,
        StandsAt source filename (.leaf .string) literal ident.span ∧
          Literal.decode (codePoints literal) = .ok ident.name)) ∧
    ∀ e, parse source filename = .error e →
      ∃ s, e.span = some s ∧ s.IsPlace source filename := by
  refine ⟨?_, ?_, ?_⟩
  · intro items hitems i hi
    cases i with
    | token t =>
      obtain ⟨l, -, hstands⟩ := Item.standsAt_of_token hitems hi
      exact ⟨hstands.isPlace, nofun⟩
    | form children opening closing =>
      obtain ⟨hopening, hclosing, hmatching⟩ := Item.matching_of_form hitems hi
      refine ⟨hopening, ?_⟩
      intro children' opening' closing' hform
      cases hform
      exact ⟨hclosing, hmatching⟩
  · intro d hd ident hident
    obtain ⟨items, hitems, hholds⟩ := Document.holds_of_parse hd
    obtain ⟨t, ht, hname⟩ := hholds.exists_token hident
    have hstands := hname.standsAt hitems ht
    refine ⟨?_, hstands⟩
    cases hquoted : ident.quoted with
    | false => exact (hstands.1 hquoted).isPlace
    | true =>
      obtain ⟨literal, hliteral, -⟩ := hstands.2 hquoted
      exact hliteral.isPlace
  · exact fun e he => exists_isPlace_of_parse_error he

/-- A name on the line that begins within a string, and the end of a source that stops inside a form
behind a lone carriage return. -/
theorem Document.spans_isPlace_line_feed_in_string :
    (∃ d ident, parse "(use \"\n\") (module $m)" none = .ok d ∧ .name ident ∈ d.mentions ∧
      ident.span = ⟨18, 2, 12, none⟩ ∧
      StandsAt "(use \"\n\") (module $m)" none (.leaf .atom) "$m" ident.span) ∧
    parse "(use \"\n\"\n\r" none = .error ⟨.unclosedForm, some ⟨10, 3, 2, none⟩⟩ ∧
      (⟨10, 3, 2, none⟩ : Span).IsPlace "(use \"\n\"\n\r" none := by
  have hnames : ((parse "(use \"\n\") (module $m)" none).toOption.map fun d =>
      d.mentions.filterMap fun
        | .name ident => some (ident.name, ident.span, ident.quoted)
        | .type _ => none) = some [("m", ⟨18, 2, 12, none⟩, false)] := by decide +kernel
  have herror : parse "(use \"\n\"\n\r" none =
      .error ⟨.unclosedForm, some ⟨10, 3, 2, none⟩⟩ := by decide +kernel
  obtain ⟨s, hspan, hplace⟩ := (spans_isPlace "(use \"\n\"\n\r" none).2.2 _ herror
  cases hspan
  refine ⟨?_, herror, hplace⟩
  cases hd : parse "(use \"\n\") (module $m)" none with
  | error e => rw [hd] at hnames; cases hnames
  | ok d =>
    rw [hd] at hnames
    have hmem := List.mem_singleton_self (("m", ⟨18, 2, 12, none⟩, false) : String × Span × Bool)
    rw [← Option.some.inj hnames] at hmem
    obtain ⟨mention, hmention, hident⟩ := List.mem_filterMap.1 hmem
    cases mention with
    | type type => cases hident
    | name ident =>
      obtain ⟨name, span, quoted⟩ := ident
      cases hident
      have hname := (spans_isPlace "(use \"\n\") (module $m)" none).2.1 d hd _ hmention
      exact ⟨d, _, rfl, hmention, rfl, hname.2.1 rfl⟩

end WitxFrontEnd
