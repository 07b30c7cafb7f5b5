import Mathlib.Data.List.DropRight
import Mathlib.Data.List.Induction
import WitxFrontEnd.Proofs.Nest
import WitxFrontEnd.Proofs.Shift
import WitxFrontEnd.Proofs.View.Commutes

/-!
# One source behind another

A source that is a document, a line feed and any other source are together read as the one document
followed by what the other source is read as. Two things come over the seam. A left paren right
before a semicolon is a paren only as long as no end of a comment comes later, so the first source
may have none (`OpensBeforeSemicolon`). And comments behind its last construct, which belong to
nothing there, are in front of the first construct that follows (`Document.trailingComments`).

Each stage of reading has its lemma: `Scan.ofChars_append`, `Forest.read_append`,
`Item.readAll_append`, `Entry.documentedFrom_append`. Everything of the second source is moved down
by the lines of the first one (`Shift.behind`), mistakes included, which is what
`Document.parse_append` says in the end.
-/

namespace WitxFrontEnd

/-- A left paren of the source has a semicolon right behind it. -/
def OpensBeforeSemicolon (source : String) : Prop :=
  ∃ l ∈ (Scan.ofSource source).lexemes, l.shape = .leftParen ∧
    source.toList[l.pos.offset + 1]? = some ';'

/-- The move that a source and a line feed in front of a text make. -/
def Shift.behind (source : String) : Shift :=
  ⟨source.length + 1, source.toList.count '\n' + 1⟩

/-! ## Positions and scans -/

namespace Position

/-- Behind a line feed a text begins where a text begins, moved down. -/
theorem start_advance_newline (source : String) :
    start.advance (source.toList ++ ['\n']) = (Shift.behind source).pos start := by
  rw [advance_append]
  show (⟨_, _, 1⟩ : Position) = _
  rw [offset_advance, line_advance]
  simp only [Shift.behind, Shift.pos, start, String.length_toList]
  congr 1

end Position

namespace Scan

/-- The scan of a text without a left paren before a semicolon is the same in front of a line feed
and any other text. -/
theorem ofChars_append {p : Position} {cs : List Char} (hstuck : (ofChars p cs).stuck = none)
    (hparen : ∀ l ∈ (ofChars p cs).lexemes, l.shape = .leftParen →
      cs[l.pos.offset + 1 - p.offset]? ≠ some ';') (tail : List Char) :
    ofChars p (cs ++ '\n' :: tail) =
      ⟨(ofChars p cs).lexemes ++ (ofChars (p.advance (cs ++ ['\n'])) tail).lexemes,
        (ofChars (p.advance (cs ++ ['\n'])) tail).stuck⟩ := by
  fun_induction ofChars p cs with
  | case1 p => exact ofChars_space rfl tail
  | case2 p c cs hspace ih =>
    rw [List.cons_append, ofChars_space hspace]
    refine ih hstuck fun l hl hshape => ?_
    have hle : (p.next c).offset ≤ l.pos.offset := offset_le_of_mem l hl
    have hnext : (p.next c).offset = p.offset + 1 := p.offset_advance [c]
    have hindex : l.pos.offset + 1 - p.offset = l.pos.offset + 1 - (p.next c).offset + 1 := by omega
    have := hparen l hl hshape
    rwa [hindex, List.getElem?_cons_succ] at this
  | case3 p c cs hspace hmunch => cases hstuck
  | case4 p c cs hspace shape text rest hmunch more ih =>
    obtain ⟨hcs, hstands⟩ := Lexeme.munch_eq_some_iff.1 hmunch
    rw [hcs] at hparen ⊢
    have hfirst : shape = .leftParen → rest.head? ≠ some ';' := by
      rintro rfl
      cases hstands
      have := hparen ⟨.leftParen, _, p⟩ List.mem_cons_self rfl
      rwa [Nat.add_sub_cancel_left, List.singleton_append, List.getElem?_cons_succ,
        ← List.head?_eq_getElem?] at this
    have hrest := ih hstuck fun l hl hshape => by
      have hle : (p.advance text).offset ≤ l.pos.offset := offset_le_of_mem l hl
      have := hparen l (List.mem_cons_of_mem _ hl) hshape
      rw [Position.offset_advance] at hle ⊢
      rwa [List.getElem?_append_right (by omega), Nat.sub_sub] at this
    have hkept : Lexeme.Stands shape text (rest ++ '\n' :: tail) :=
      hstands.append_newline fun hshape cs hcs => absurd (by rw [hcs]; rfl) (hfirst hshape)
    rw [List.append_assoc, ofChars_stands hkept, hrest,
      List.append_assoc, Position.advance_append p text]
    rfl

/-- The scan of a source behind another one, of which nothing is left over. -/
theorem ofSource_append {source : String} (hstuck : (ofSource source).stuck = none)
    (hparen : ¬OpensBeforeSemicolon source) (other : String) :
    ofSource (source ++ "\n" ++ other) =
      ⟨(ofSource source).lexemes ++ ((Shift.behind source).scan (ofSource other)).lexemes,
        ((Shift.behind source).scan (ofSource other)).stuck⟩ := by
  have hchars : (source ++ "\n" ++ other).toList = source.toList ++ '\n' :: other.toList := by
    simp
  have happend := ofChars_append hstuck (fun l hl hshape h => hparen ⟨l, hl, hshape, h⟩)
    other.toList
  rw [Position.start_advance_newline, Shift.ofChars_pos] at happend
  rw [ofSource, hchars, happend]
  rfl

end Scan

/-! ## Forests and items -/

variable {filename : Option String}

/-- Where a source is read as a forest, any other source behind it is read as before, further down,
and its forest comes behind that forest. -/
theorem Forest.read_append {source : String} {forest : Forest}
    (h : Forest.read source filename = .ok forest) (hparen : ¬OpensBeforeSemicolon source)
    (other : String) :
    Forest.read (source ++ "\n" ++ other) filename =
      (Shift.behind source).view.outcome (forest ++ Tree.relocateAll (Shift.behind source).pos ·)
        (Forest.read other filename) := by
  obtain ⟨hstuck, hnest⟩ := Forest.read_ok h
  have hend : Position.start.advance (source ++ "\n" ++ other).toList =
      (Shift.behind source).pos (Position.start.advance other.toList) := by
    rw [← Shift.advance_pos, ← Position.start_advance_newline, ← Position.advance_append]
    simp
  have hfold := Nest.foldlM_relocate (Shift.behind source).pos forest.reverse
    (Scan.ofSource other).lexemes .empty
  unfold Forest.read
  rw [Scan.ofSource_append hstuck hparen, hend]
  have hlexemes : Nest.ofLexemes ((Scan.ofSource source).lexemes ++
      ((Shift.behind source).scan (Scan.ofSource other)).lexemes) =
        Nest.relocated (Shift.behind source).pos forest.reverse
          (Nest.ofLexemes (Scan.ofSource other).lexemes) := by
    rw [Nest.ofLexemes, List.foldlM_append]
    show (Nest.ofLexemes (Scan.ofSource source).lexemes >>= _) = _
    rw [hnest]
    exact hfold
  dsimp only
  rw [hlexemes]
  unfold Shift.scan
  cases Nest.ofLexemes (Scan.ofSource other).lexemes with
  | error p =>
    show Except.error _ = Except.error _
    rw [Shift.span_pos]
    rfl
  | ok nest =>
    obtain ⟨enclosing, trees⟩ := nest
    cases (Scan.ofSource other).stuck with
    | some stuck =>
      show Except.error _ = Except.error _
      rw [Shift.span_pos]
      rfl
    | none =>
      rcases enclosing with _ | ⟨⟨opening, outer⟩, _ | ⟨outermost, rest⟩⟩
      · show Except.ok (Tree.relocateAll _ trees ++ forest.reverse).reverse =
          Except.ok (forest ++ Tree.relocateAll _ trees.reverse)
        rw [List.reverse_append, List.reverse_reverse, Tree.relocateAll_reverse]
      · show Except.error _ = Except.error _
        rw [Shift.span_pos]
        rfl
      · show Except.error _ = Except.error _
        rw [Shift.span_pos]
        rfl

/-- The items of two forests, one behind the other. -/
theorem Item.ofForest_append {depth : Nat} {forest : Forest} {items : List Item}
    (h : ofForest filename depth forest = .ok items) (forest' : Forest) :
    ofForest filename depth (forest ++ forest') =
      (items ++ ·) <$> ofForest filename depth forest' := by
  induction forest generalizing items with
  | nil =>
    cases h
    exact (id_map (ofForest filename depth forest')).symm
  | cons tree forest ih =>
    rw [ofForest_cons] at h
    obtain ⟨i, htree, h⟩ := bind_eq_ok h
    obtain ⟨is, hforest, h⟩ := bind_eq_ok h
    cases h
    rw [List.cons_append, ofForest_cons, htree]
    show (ofForest filename depth (forest ++ forest') >>= _) = _
    rw [ih hforest]
    cases ofForest filename depth forest' <;> rfl

/-- Where a source is read as items, any other source behind it is read as before, further down. -/
theorem Item.readAll_append {source : String} {items : List Item}
    (h : readAll source filename = .ok items) (hparen : ¬OpensBeforeSemicolon source)
    (other : String) :
    readAll (source ++ "\n" ++ other) filename =
      (Shift.behind source).view.outcome (items ++ (Shift.behind source).view.items ·)
        (readAll other filename) := by
  obtain ⟨forest, hforest, h⟩ := bind_eq_ok h
  rw [readAll, readAll, Forest.read_append hforest hparen other]
  cases Forest.read other filename with
  | error e => rfl
  | ok forest' =>
    have hmoved := ofForest_relocate (v := (Shift.behind source).view) rfl
      (fun p => (Shift.behind source).span_pos p filename) forest' 0
    show ofForest filename 0 (forest ++ Tree.relocateAll (Shift.behind source).pos forest') =
      (Shift.behind source).view.outcome _ (ofForest filename 0 forest')
    rw [ofForest_append h, hmoved]
    cases ofForest filename 0 forest' <;> rfl

/-! ## Documented constructs -/

/-- Comments in front of the first of some constructs. -/
def Documented.prependComments {α : Type} (texts : List String) :
    List (Documented α) → List (Documented α)
  | [] => []
  | d :: rest => ⟨texts ++ d.comments, d.item⟩ :: rest

namespace Entry

variable {α : Type} {entry : Entry α}

/-- The comments that stand right before what follows the items, the given ones being right before
the items. -/
def pending : List String → List Item → List String
  | texts, [] => texts
  | texts, i :: rest =>
    match i.comment? with
    | some text => pending (texts ++ [text]) rest
    | none => pending [] rest

/-- What the items hold is the same behind more comments, which go to the first construct. -/
theorem documentedFrom_prepend (texts texts' : List String) (l : List Item) :
    entry.documentedFrom (texts ++ texts') l =
      Documented.prependComments texts <$> entry.documentedFrom texts' l := by
  induction l generalizing texts' with
  | nil => rfl
  | cons i rest ih =>
    rw [documentedFrom, documentedFrom]
    cases i.comment? with
    | some text =>
      dsimp only
      rw [List.append_assoc, ih]
    | none =>
      dsimp only
      cases entry i with
      | error e => rfl
      | ok a => cases entry.documentedFrom [] rest <;> rfl

theorem documentedFrom_texts (texts : List String) (l : List Item) :
    entry.documentedFrom texts l =
      Documented.prependComments texts <$> entry.documentedFrom [] l := by
  rw [← documentedFrom_prepend, List.append_nil]

/-- What the items hold, and what follows them with the comments that are pending there. -/
theorem documentedFrom_append {texts : List String} {l : List Item} {ds : List (Documented α)}
    (h : entry.documentedFrom texts l = .ok ds) (l' : List Item) :
    entry.documentedFrom texts (l ++ l') =
      (ds ++ ·) <$> entry.documentedFrom (pending texts l) l' := by
  induction l generalizing texts ds with
  | nil =>
    cases h
    exact (id_map (entry.documentedFrom texts l')).symm
  | cons i rest ih =>
    rw [documentedFrom] at h
    rw [List.cons_append, documentedFrom, pending]
    cases hcomment : i.comment? with
    | some text =>
      rw [hcomment] at h
      exact ih h
    | none =>
      rw [hcomment] at h
      dsimp only at h ⊢
      obtain ⟨a, hentry, h⟩ := bind_eq_ok h
      obtain ⟨more, hrest, h⟩ := bind_eq_ok h
      cases h
      rw [hentry]
      show (entry.documentedFrom [] (rest ++ l') >>= _) = _
      rw [ih hrest]
      cases entry.documentedFrom (pending [] rest) l' <;> rfl

theorem pending_concat (texts : List String) (l : List Item) (i : Item) :
    pending texts (l ++ [i]) =
      match i.comment? with
      | some text => pending texts l ++ [text]
      | none => [] := by
  induction l generalizing texts with
  | nil =>
    simp only [List.nil_append, pending]
  | cons j l ih =>
    rw [List.cons_append, pending, pending]
    cases j.comment? with
    | some text => exact ih _
    | none => exact ih _

/-- Nothing being pending before some items, it is their last comments that are pending behind. -/
theorem pending_nil (l : List Item) :
    pending [] l = (l.rtakeWhile Item.isComment).filterMap Item.comment? := by
  induction l using List.reverseRecOn with
  | nil => rfl
  | append_singleton l i ih =>
    have hsome := Item.isSome_comment? i
    rw [pending_concat, List.rtakeWhile_concat, ← hsome, ih]
    cases h : i.comment? with
    | some text =>
      dsimp only
      rw [if_pos Option.isSome_some, List.filterMap_append, List.filterMap_cons, h]
      rfl
    | none => rfl

end Entry

/-! ## Documents -/

namespace Document

/-- The comments behind the last form of a source. -/
def trailingComments (source : String) (filename : Option String) : List String :=
  match Item.readAll source filename with
  | .ok items => (items.rtakeWhile Item.isComment).filterMap Item.comment?
  | .error _ => []

/-- Behind the items of a document come those that any further items hold, with the comments that
are pending there. -/
theorem parse_of_readAll {source : String} {items items' : List Item} {d : Document}
    (hitems : Item.readAll source filename = .ok items)
    (hd : parse source filename = .ok d) (m : Shift) :
    Document.mk <$>
        (Entry.form Grammar.topLevel).documentedFrom [] (items ++ m.view.items items') =
      m.view.outcome
        (fun d' => ⟨d.items ++ Documented.prependComments (trailingComments source filename)
          (m.view.document d').items⟩)
        (Document.mk <$> (Entry.form Grammar.topLevel).documentedFrom [] items') := by
  obtain ⟨ds⟩ := d
  obtain ⟨items, hread, hds⟩ := parse_ok hd
  cases hitems.symm.trans hread
  have htrailing : trailingComments source filename = Entry.pending [] items := by
    rw [trailingComments, hitems, Entry.pending_nil]
  have hview := View.documentedFrom_items (v := m.view)
    (View.entryCommutes_form (View.commutes_topLevel _)) [] items'
  change (Entry.form Grammar.topLevel).documentedFrom [] (m.view.items items') = _ at hview
  rw [Entry.documentedFrom_append hds, Entry.documentedFrom_texts, hview, htrailing]
  cases (Entry.form Grammar.topLevel).documentedFrom [] items' <;> rfl

/-- A source behind a document is read as it is alone. What it declares comes, moved down and
otherwise equal, behind the declarations of the document, and the comments that end the document
belong to the first of it. What is wrong with it is wrong further down. -/
theorem parse_append {source : String} {d : Document} (h : parse source filename = .ok d)
    (hparen : ¬OpensBeforeSemicolon source) (other : String) :
    (∀ d', parse other filename = .ok d' →
      parse (source ++ "\n" ++ other) filename =
        .ok ⟨d.items ++ Documented.prependComments (trailingComments source filename)
          ((Shift.behind source).view.document d').items⟩ ∧
      ((Shift.behind source).view.document d' == d') = true) ∧
    ∀ e, parse other filename = .error e →
      parse (source ++ "\n" ++ other) filename =
        .error ⟨e.cause, e.span.map fun s =>
          { s with
            offset := s.offset + (source.length + 1 : Nat)
            line := s.line + (source.toList.count '\n' + 1 : Nat) }⟩ := by
  obtain ⟨items, hitems⟩ : ∃ items, Item.readAll source filename = .ok items := by
    rw [parse_eq] at h
    cases hread : Item.readAll source filename with
    | error e => rw [hread] at h; cases h
    | ok items => exact ⟨items, rfl⟩
  have hparse : parse (source ++ "\n" ++ other) filename =
      (Shift.behind source).view.outcome
        (fun d' => ⟨d.items ++ Documented.prependComments (trailingComments source filename)
          ((Shift.behind source).view.document d').items⟩) (parse other filename) := by
    rw [parse_eq, parse_eq, Item.readAll_append hitems hparen]
    cases Item.readAll other filename with
    | error e => rfl
    | ok items' => exact parse_of_readAll hitems h _
  constructor
  · intro d' hd'
    rw [hparse, hd']
    exact ⟨rfl, View.beq_document rfl d'⟩
  · intro e he
    rw [hparse, he]
    rfl

/-- A comment that ends the first source comes to the first declaration of the second. -/
theorem parse_append_trailing_comment :
    parse "(use \"a\") ;;x" none = .ok ⟨[⟨[], .use "a"⟩]⟩ ∧
      ¬OpensBeforeSemicolon "(use \"a\") ;;x" ∧
      parse "(;y;) (use \"b\")" none = .ok ⟨[⟨["y"], .use "b"⟩]⟩ ∧
      parse ("(use \"a\") ;;x" ++ "\n" ++ "(;y;) (use \"b\")") none =
        .ok ⟨[⟨[], .use "a"⟩, ⟨["x", "y"], .use "b"⟩]⟩ := by
  have hfirst : parse "(use \"a\") ;;x" none = .ok ⟨[⟨[], .use "a"⟩]⟩ := by decide +kernel
  have hsecond : parse "(;y;) (use \"b\")" none = .ok ⟨[⟨["y"], .use "b"⟩]⟩ := by decide +kernel
  have htrailing : trailingComments "(use \"a\") ;;x" none = ["x"] := by decide +kernel
  have hparen : ¬OpensBeforeSemicolon "(use \"a\") ;;x" := by
    rintro ⟨l, hl, hshape, hsemicolon⟩
    have hbehind : ((Scan.ofSource "(use \"a\") ;;x").lexemes.filter (·.shape == .leftParen)).map
        (fun l => "(use \"a\") ;;x".toList[l.pos.offset + 1]?) = [some 'u'] := by decide +kernel
    have hfilter : l ∈ (Scan.ofSource "(use \"a\") ;;x").lexemes.filter (·.shape == .leftParen) :=
      List.mem_filter.2 ⟨hl, beq_iff_eq.2 hshape⟩
    have hmem :=
      List.mem_map_of_mem (f := fun l => "(use \"a\") ;;x".toList[l.pos.offset + 1]?) hfilter
    rw [hbehind] at hmem
    rw [hsemicolon] at hmem
    exact absurd hmem (by decide)
  have h := ((parse_append hfirst hparen "(;y;) (use \"b\")").1 _ hsecond).1
  rw [htrailing] at h
  exact ⟨hfirst, hparen, hsecond, h⟩

end Document

end WitxFrontEnd
