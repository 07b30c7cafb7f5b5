import WitxFrontEnd.Proofs.Lookahead
import WitxFrontEnd.Proofs.Soundness
import WitxFrontEnd.Proofs.Sources

/-!
# Datatypes among type definitions

A type definition is a datatype, or a form that begins with the word of one of the five other kinds.
The rules for the two look ahead in different orders, and still they part the inputs in one way
(`Grammar.typedef_cases`): either the rule for definitions does what the rule for datatypes does, or
the next item is a form that is left to the other kinds. There the rule for datatypes fails at the
first word, which it takes for that of a pointer. `Typedef.parse_extends` says of whole sources what
follows from it.
-/

namespace WitxFrontEnd

open View

/-- The word that a definition's form begins with, unless the definition is another name for a
datatype. -/
def Typedef.word? : Typedef → Option String
  | .alias _ => none
  | .enum .. => some "enum"
  | .flags .. => some "flags"
  | .struct _ => some "struct"
  | .union _ => some "union"
  | .handle _ => some "handle"

/-! ## Cursors -/

namespace Cursor

variable {c : Cursor}

/-- A form is no identifier. -/
theorem peek_identifier_of_leftParen (h : c.peek .leftParen = true) :
    c.peek .identifier = false := by
  rcases View.skipComments_cases c.items with hl | ⟨i, rest, hl, -⟩
  · exact peek_of_nil hl _
  · rw [peek_of_cons hl] at h ⊢
    cases i with
    | token t => cases h
    | form => rfl

/-- A step over what is not there fails at what is. -/
theorem step_eq_error {pattern : Pattern} (h : c.peek pattern = false) :
    c.step pattern = .error (c.error (.expected [pattern])) := by
  rcases View.skipComments_cases c.items with hl | ⟨i, rest, hl, -⟩
  · exact step_of_nil hl pattern
  · rw [step_of_cons hl, h]
    rfl

/-- A cursor stands at the first of its items that is no comment. -/
theorem span_of_bare {t : Token} {after : List Item} (h : bare c.items = .token t :: after) :
    c.span = t.span := by
  unfold span next?
  rw [← bare_skipComments] at h
  rcases View.skipComments_cases c.items with hl | ⟨i, rest, hl, hi⟩
  · rw [hl] at h
    cases h
  · rw [hl, bare, items_cons_of_not_isComment hi] at h
    obtain ⟨hitem, -⟩ := List.cons.inj h
    have hspan : (uncommented.item i).span = i.span := span_item i
    rw [hitem] at hspan
    rw [hl]
    exact hspan.symm

/-- What is read and used up by a rule at a cursor. -/
theorem toEnd_eq_ok_iff {α : Type} {cause : Cause} {reading : Except ParseError (α × Cursor)}
    {a : α} :
    toEnd cause reading = .ok a ↔ ∃ rest, reading = .ok (a, rest) ∧ bare rest.items = [] := by
  refine ⟨toEnd_ok, ?_⟩
  rintro ⟨rest, rfl, hrest⟩
  show (rest.expectEnd cause >>= fun _ => .ok a) = .ok a
  rw [expectEnd, if_pos (isEmpty_iff.2 hrest)]
  rfl

end Cursor

/-! ## Rules -/

namespace Grammar

variable {c rest : Cursor}

/-- A form that does not begin with `array` is read as a pointer, which begins with `@witx`. -/
theorem datatype_eq_error {inner behind : Cursor} (henter : c.enter = .ok (inner, behind))
    (hform : c.peek .leftParen = true) (harray : c.peekSecond (.keyword "array") = false)
    (hwitx : inner.peek (.reserved "@witx") = false) :
    datatype c = .error (inner.error (.expected [.reserved "@witx"])) := by
  have hinner : pointerForm inner = .error (inner.error (.expected [.reserved "@witx"])) := by
    rw [pointerForm, Rule.reserved_bind, Rule.bind_apply, Rule.step_apply,
      Cursor.step_eq_error hwitx]
  have hpointer : Rule.inForm pointerForm c =
      .error (inner.error (.expected [.reserved "@witx"])) := by
    rw [Rule.inForm_apply, henter]
    simp only [hinner]
    rfl
  rw [datatype_eq, Cursor.peek_identifier_of_leftParen hform, harray, hform, ← hpointer]
  rfl

/-- A definition is read as a datatype, or it is a form which no datatype can be. -/
theorem typedef_cases (c : Cursor) :
    typedef c = (Typedef.alias <$> datatype : Rule Typedef) c ∨
      typedef c = Rule.inForm typedefForm c ∧ ∃ inner behind, c.enter = .ok (inner, behind) ∧
        datatype c = .error (inner.error (.expected [.reserved "@witx"])) := by
  rw [typedef_eq]
  split
  · rw [Rule.map_eq_bind]
    exact .inl rfl
  · next h =>
    simp only [Bool.or_eq_true, Bool.not_eq_true', not_or, Bool.not_eq_true,
      Bool.not_eq_false] at h
    obtain ⟨⟨hform, harray⟩, hwitx⟩ := h
    rcases c.enter_cases none with ⟨inner, behind, henter, -, hsecond, -⟩ | ⟨-, hnone⟩
    · rw [hsecond] at hwitx
      exact .inr ⟨rfl, inner, behind, henter, datatype_eq_error henter hform harray hwitx⟩
    · rw [hform] at hnone
      cases hnone

/-- The form of a definition that is no datatype begins with the word for its kind. -/
theorem typedefForm_word {definition : Typedef} (h : typedefForm c = .ok (definition, rest)) :
    ∃ word span after, definition.word? = some word ∧
      bare c.items = .keyword word span :: after := by
  obtain ⟨branch, hbranch, h⟩ := Rule.choose_ok h
  simp only [List.mem_cons, List.not_mem_nil, or_false] at hbranch
  rcases hbranch with rfl | rfl | rfl | rfl | rfl <;>
    obtain ⟨_, mid, hk, h⟩ := Rule.bind_ok h <;>
    obtain ⟨span, hk⟩ := Rule.keyword_ok hk
  · obtain ⟨repr, mid', -, h⟩ := Rule.bind_ok h
    obtain ⟨members, last, -, hp⟩ := Rule.bind_ok h
    cases hp
    exact ⟨_, span, _, rfl, hk⟩
  · obtain ⟨repr, mid', -, h⟩ := Rule.bind_ok h
    obtain ⟨members, last, -, hp⟩ := Rule.bind_ok h
    cases hp
    exact ⟨_, span, _, rfl, hk⟩
  all_goals
    obtain ⟨inside, last, -, hp⟩ := Rule.bind_ok h
    cases hp
    exact ⟨_, span, _, rfl, hk⟩

/-- Where a datatype stands, and only there, a definition is another name for it. -/
theorem typedef_eq_alias_iff {type : Datatype} :
    typedef c = .ok (.alias type, rest) ↔ datatype c = .ok (type, rest) := by
  rcases typedef_cases c with h | ⟨h, inner, behind, -, hdatatype⟩
  · rw [h]
    constructor
    · intro hmap
      obtain ⟨type', hd, heq⟩ := Rule.map_ok hmap
      cases heq
      exact hd
    · exact Rule.map_of_ok
  · rw [h, hdatatype]
    constructor
    · intro hform
      obtain ⟨inner, last, -, hr, -⟩ := Rule.inForm_enter_ok hform
      obtain ⟨word, span, after, hword, -⟩ := typedefForm_word hr
      cases hword
    · exact nofun

/-- Where a definition of another kind stands, there is no datatype, and the mistake is at the word
for the kind. -/
theorem datatype_eq_error_of_typedef {definition : Typedef} {word : String}
    (h : typedef c = .ok (definition, rest)) (hword : definition.word? = some word) :
    ∃ after span opening closing,
      bare c.items = .form (.keyword word span :: after) opening closing :: bare rest.items ∧
      datatype c = .error ⟨.expected [.reserved "@witx"], some span⟩ := by
  rcases typedef_cases c with heq | ⟨heq, inner, behind, henter, hdatatype⟩
  · rw [heq] at h
    obtain ⟨type, -, rfl⟩ := Rule.map_ok h
    cases hword
  · rw [heq] at h
    obtain ⟨inner', last, henter', hr, -⟩ := Rule.inForm_enter_ok h
    rw [henter] at henter'
    cases henter'
    obtain ⟨word', span, after, hword', hitems⟩ := typedefForm_word hr
    obtain rfl := Option.some.inj (hword'.symm.trans hword)
    obtain ⟨opening, closing, hform⟩ := Cursor.enter_ok henter
    refine ⟨after, span, opening, closing, by rw [hform, hitems], ?_⟩
    rw [hdatatype, Cursor.error, Cursor.span_of_bare hitems]

end Grammar

/-! ## Sources -/

/-- A source is a datatype if and only if it is a definition that is another name for it. If it is a
definition of another kind, it is no datatype: the mistake is at the keyword that its form begins
with, where `@witx` is missing. -/
theorem Typedef.parse_extends (source : String) (filename : Option String) :
    (∀ type, Datatype.parse source filename = .ok type ↔
      Typedef.parse source filename = .ok (.alias type)) ∧
    ∀ definition word, Typedef.parse source filename = .ok definition →
      definition.word? = some word →
      ∃ items after span opening closing e, Item.readAll source filename = .ok items ∧
        bare items = [.form (.keyword word span :: after) opening closing] ∧
        Datatype.parse source filename = .error e ∧ e.message = "expected `@witx`" ∧
        e.span = some span := by
  cases hc : Cursor.ofSource source filename with
  | error e =>
    rw [Typedef.parse, Datatype.parse, hc]
    exact ⟨fun type => ⟨nofun, nofun⟩, nofun⟩
  | ok c =>
    have hdatatype : Datatype.parse source filename =
        Cursor.toEnd .expectedEnd (Grammar.datatype c) := by
      rw [Datatype.parse, hc]
      rfl
    have htypedef : Typedef.parse source filename =
        Cursor.toEnd .expectedEnd (Grammar.typedef c) := by
      rw [Typedef.parse, hc]
      rfl
    rw [hdatatype, htypedef]
    refine ⟨fun type => ?_, fun definition word h hword => ?_⟩
    · simp only [Cursor.toEnd_eq_ok_iff, Grammar.typedef_eq_alias_iff]
    · obtain ⟨rest, hread, hrest⟩ := Cursor.toEnd_ok h
      obtain ⟨after, span, opening, closing, hitems, herror⟩ :=
        Grammar.datatype_eq_error_of_typedef hread hword
      rw [hrest] at hitems
      refine ⟨c.items, after, span, opening, closing, ⟨.expected [.reserved "@witx"], some span⟩,
        Cursor.ofSource_ok hc, hitems, ?_, rfl, rfl⟩
      rw [herror]
      rfl

/-- An enumeration with comments before its form and before its word. -/
theorem Typedef.parse_extends_comments :
    ∃ definition items after span opening closing e,
      Typedef.parse "(;a;) ( ;;b\n enum u8 $x)" none = .ok definition ∧
      definition.word? = some "enum" ∧
      Item.readAll "(;a;) ( ;;b\n enum u8 $x)" none = .ok items ∧
      bare items = [.form (.keyword "enum" span :: after) opening closing] ∧
      Datatype.parse "(;a;) ( ;;b\n enum u8 $x)" none = .error e ∧
      e.message = "expected `@witx`" ∧ e.span = some span := by
  have hword : (Typedef.parse "(;a;) ( ;;b\n enum u8 $x)" none).toOption.bind Typedef.word? =
      some "enum" := by decide +kernel
  cases hparse : Typedef.parse "(;a;) ( ;;b\n enum u8 $x)" none with
  | error e => rw [hparse] at hword; cases hword
  | ok definition =>
    rw [hparse] at hword
    obtain ⟨items, after, span, opening, closing, e, hitems, hbare, he, hmessage, hspan⟩ :=
      (parse_extends "(;a;) ( ;;b\n enum u8 $x)" none).2 definition "enum" hparse hword
    exact ⟨definition, items, after, span, opening, closing, e, rfl, hword, hitems, hbare, he,
      hmessage, hspan⟩

end WitxFrontEnd
