import WitxFrontEnd.Proofs.Layout
import WitxFrontEnd.Proofs.Relocation
import WitxFrontEnd.Proofs.View.Commutes

/-!
# Layout decides nothing

Two sources of the `SameTokens` differ in no more than where their tokens stand. Seen from
`nowhere`, where all places are one, their parens match alike, and so, stage by stage, their
forests, their items and their documents are the same, or the same mistake is in them. What is the
same from nowhere is equal, since equality looks at no place: `Document.parse_layout_independent`.
-/

namespace WitxFrontEnd

/-- Both sources are cut into tokens of the same shapes and texts, comments among them. If the one
is cut only up to a character that starts no token, so is the other. -/
structure SameTokens (source source' : String) : Prop where
  tokens : (Scan.ofSource source).lexemes.map (fun l => (l.shape, l.text)) =
    (Scan.ofSource source').lexemes.map (fun l => (l.shape, l.text))
  stuck : (Scan.ofSource source).stuck.map Prod.snd = (Scan.ofSource source').stuck.map Prod.snd

/-- The view in which everything stands in one place. -/
def View.nowhere : View := ⟨true, fun _ => .nowhere⟩

/-- The beginning, for every position. -/
def Position.collapse (_ : Position) : Position := .start

theorem Position.span_collapse (p : Position) (filename : Option String) :
    p.collapse.span none = View.nowhere.span (p.span filename) := rfl

/-! ## Sources, stage by stage -/

/-- What reading a source comes to, given how its parens match and the character it stops at. -/
def Forest.ofNest : Except Position Nest → Option Char → Except ParseError Forest
  | .error _, _ => .error ⟨.strayClose, some .nowhere⟩
  | .ok _, some c => .error ⟨.unexpectedCharacter c, some .nowhere⟩
  | .ok ⟨[], trees⟩, none => .ok trees.reverse
  | .ok ⟨_ :: _, _⟩, none => .error ⟨.unclosedForm, some .nowhere⟩

/-- From nowhere, reading looks only at how the parens match and at the character it stops at. -/
theorem Forest.outcome_read (source : String) (filename : Option String) :
    View.nowhere.outcome (Tree.relocateAll Position.collapse) (read source filename) =
      ofNest (Nest.relocated Position.collapse [] (Nest.ofLexemes (Scan.ofSource source).lexemes))
        ((Scan.ofSource source).stuck.map Prod.snd) := by
  have hreverse (trees : Forest) : Tree.relocateAll Position.collapse trees.reverse =
      (Tree.relocateAll Position.collapse trees).reverse := by
    rw [Tree.relocateAll_eq_map, Tree.relocateAll_eq_map, List.map_reverse]
  unfold read
  dsimp only
  cases Nest.ofLexemes (Scan.ofSource source).lexemes with
  | error p => rfl
  | ok nest =>
    cases (Scan.ofSource source).stuck with
    | some found => rfl
    | none =>
      obtain ⟨_ | ⟨innermost, _ | ⟨next, outermost⟩⟩, trees⟩ := nest
      · show Except.ok (Tree.relocateAll Position.collapse trees.reverse) =
          Except.ok (Tree.relocateAll Position.collapse trees ++ []).reverse
        rw [hreverse, List.append_nil]
      · rfl
      · rfl

namespace SameTokens

variable {source source' : String} (h : SameTokens source source')
  (filename filename' : Option String)
include h

/-- The parens of both sources match alike. -/
theorem relocated_ofLexemes :
    Nest.relocated Position.collapse [] (Nest.ofLexemes (Scan.ofSource source).lexemes) =
      Nest.relocated Position.collapse [] (Nest.ofLexemes (Scan.ofSource source').lexemes) := by
  have hmap (ls : List Lexeme) : ls.map (Lexeme.relocate Position.collapse) =
      (ls.map fun l => (l.shape, l.text)).map fun p => ⟨p.1, p.2, .start⟩ := by
    rw [List.map_map]
    rfl
  have hnest (ls : List Lexeme) : Nest.relocated Position.collapse [] (Nest.ofLexemes ls) =
      (ls.map (Lexeme.relocate Position.collapse)).foldlM Nest.add Nest.empty :=
    (Nest.foldlM_relocate Position.collapse [] ls Nest.empty).symm
  rw [hnest, hnest, hmap, hmap, h.tokens]

/-- The items of both sources are the same, or the same mistake is in them. -/
theorem outcome_readAll :
    View.nowhere.outcome View.nowhere.items (Item.readAll source filename) =
      View.nowhere.outcome View.nowhere.items (Item.readAll source' filename') := by
  -- the items of a forest are decided by the forest as it is seen from nowhere
  have hitems (source : String) (filename : Option String) :
      View.nowhere.outcome View.nowhere.items (Item.readAll source filename) =
        View.nowhere.outcome (Tree.relocateAll Position.collapse) (Forest.read source filename) >>=
          Item.ofForest none 0 := by
    unfold Item.readAll
    cases Forest.read source filename with
    | error e => rfl
    | ok forest =>
      exact (Item.ofForest_relocate rfl (Position.span_collapse · filename) forest 0).symm
  rw [hitems, hitems, Forest.outcome_read, Forest.outcome_read, h.relocated_ofLexemes, h.stuck]

/-- The documents of both sources are the same, or the same mistake is in them. -/
theorem outcome_parse :
    View.nowhere.outcome View.nowhere.document (Document.parse source filename) =
      View.nowhere.outcome View.nowhere.document (Document.parse source' filename') := by
  -- the document of some items is decided by the items as they are seen from nowhere
  have hparse (source : String) (filename : Option String) :
      View.nowhere.outcome View.nowhere.document (Document.parse source filename) =
        View.nowhere.outcome View.nowhere.items (Item.readAll source filename) >>= fun items =>
          Document.mk <$> (Entry.form Grammar.topLevel).documentedFrom [] items := by
    rw [Document.parse_eq]
    cases Item.readAll source filename with
    | error e => rfl
    | ok items =>
      have hview := View.documentedFrom_items (v := View.nowhere)
        (View.entryCommutes_form (View.commutes_topLevel _)) [] items
      change (Entry.form Grammar.topLevel).documentedFrom [] (View.nowhere.items items) = _ at hview
      show View.nowhere.outcome _ (_ <$> (Entry.form Grammar.topLevel).documentedFrom [] items) =
        Document.mk <$> (Entry.form Grammar.topLevel).documentedFrom [] (View.nowhere.items items)
      rw [hview]
      cases (Entry.form Grammar.topLevel).documentedFrom [] items <;> rfl
  rw [hparse, hparse, h.outcome_readAll filename filename']

end SameTokens

/-! ## Documents -/

namespace Document

/-- What is the same from nowhere is equal. -/
theorem beq_of_view {d d' : Document}
    (h : View.nowhere.document d = View.nowhere.document d') : (d == d') = true := by
  have herase (d : Document) : (View.nowhere.document d).erase = d.erase :=
    (decides_erase.beq_iff _ _).1 (View.beq_document rfl d)
  rw [decides_erase.beq_iff, ← herase d, h, herase]

/-- Two sources of the same tokens, in whatever layout and from whatever file, are read as equal
documents with equal hashes, or the same is said to be wrong with them. -/
theorem parse_layout_independent {source source' : String} (h : SameTokens source source')
    (filename filename' : Option String) :
    (∃ d d', parse source filename = .ok d ∧ parse source' filename' = .ok d' ∧
      (d == d') = true ∧ hash d = hash d') ∨
    ∃ e e', parse source filename = .error e ∧ parse source' filename' = .error e' ∧
      e.message = e'.message := by
  have hparse := h.outcome_parse filename filename'
  cases hd : parse source filename with
  | ok d =>
    cases hd' : parse source' filename' with
    | ok d' =>
      rw [hd, hd'] at hparse
      have hbeq := beq_of_view (Except.ok.inj hparse)
      exact .inl ⟨d, d', rfl, rfl, hbeq, decides_erase.hash_eq_of_beq hbeq⟩
    | error e' => rw [hd, hd'] at hparse; cases hparse
  | error e =>
    cases hd' : parse source' filename' with
    | ok d' => rw [hd, hd'] at hparse; cases hparse
    | error e' =>
      rw [hd, hd'] at hparse
      injection hparse with hview
      have hcause : (View.nowhere.error e).cause = (View.nowhere.error e').cause := by rw [hview]
      exact .inr ⟨e, e', rfl, rfl, congrArg Cause.message hcause⟩

/-- A source on two lines of one file, and in other white space in another. -/
theorem parse_layout_independent_two_files :
    SameTokens "(;a;)(use\n\"b\")" " (;a;) ( use\t\"b\" )" ∧
      ∃ d d', parse "(;a;)(use\n\"b\")" (some "x") = .ok d ∧
        parse " (;a;) ( use\t\"b\" )" (some "y") = .ok d' ∧ (d == d') = true ∧
        hash d = hash d' := by
  have htokens : SameTokens "(;a;)(use\n\"b\")" " (;a;) ( use\t\"b\" )" :=
    ⟨by decide +kernel, by decide +kernel⟩
  have hread : (parse "(;a;)(use\n\"b\")" (some "x")).toBool = true := by decide +kernel
  rcases parse_layout_independent htokens (some "x") (some "y") with h | ⟨e, e', he, -, -⟩
  · exact ⟨htokens, h⟩
  · rw [he] at hread
    cases hread

end Document

end WitxFrontEnd
