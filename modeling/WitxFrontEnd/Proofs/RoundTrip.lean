import WitxFrontEnd.Proofs.Completeness
import WitxFrontEnd.Proofs.Layout
import WitxFrontEnd.Proofs.Mentions
import WitxFrontEnd.Proofs.Reading

/-!
# Reading what is written

Identifiers and datatypes are written without more white space than they need, and a name that is
written as a string may hold anything. Each has a tree of its own (`sexpr`), its text is cut into
the symbols of that tree whatever comes behind it (`Cut.identifier`, `Cut.datatype`), and an item
that is this tree derives it again up to spans (`exists_derivesName`, `exists_derivesDatatype`).
`parse_toString` puts the two together with the grammar's completeness.
-/

namespace WitxFrontEnd

open Lexeme (isAtomChar)

/-! ## Names with a dollar sign -/

/-- The text is one atom: it has a character, and only characters of atoms. -/
def Lexeme.IsAtom (text : String) : Prop :=
  text.toList ≠ [] ∧ ∀ x ∈ text.toList, isAtomChar x = true

instance (text : String) : Decidable (Lexeme.IsAtom text) :=
  decidable_of_iff (text.toList ≠ [] ∧ text.toList.all isAtomChar = true)
    (and_congr_right fun _ => List.all_eq_true)

/-- An atom stands before anything that would not go on with it. -/
theorem Lexeme.IsAtom.stands {text : String} (h : IsAtom text) {rest : List Char}
    (hrest : ∀ x ∈ rest.head?, isAtomChar x = false) : Stands (.leaf .atom) text.toList rest := by
  obtain ⟨hne, hatom⟩ := h
  obtain ⟨c, cs, hcs⟩ := List.exists_cons_of_ne_nil hne
  rw [hcs] at hatom ⊢
  exact .atom hatom hrest

/-- A character of no atom ends the atom before it. -/
theorem Lexeme.ends_atom (c : Char) (hc : isAtomChar c = false) (cs : List Char) :
    ∀ x ∈ (c :: cs).head?, isAtomChar x = false := by
  intro x hx
  cases hx
  exact hc

/-- The identifier is written with a dollar sign, and its name can be. -/
structure Identifier.Dollar (ident : Identifier) : Prop where
  quoted : ident.quoted = false
  name : Lexeme.IsAtom ident.name

/-- All names in the datatype are written with a dollar sign. Only the name of a field, a parameter
or a result can be written as a string; a reference to a type cannot. -/
def Datatype.Dollar : Datatype → Prop
  | .scalar _ => True
  | .array element => element.Dollar
  | .pointer pointee => pointee.Dollar
  | .constPointer pointee => pointee.Dollar
  | .named ident => ident.Dollar

/-! ## Trees of what is written -/

/-- An atom. -/
def SExpr.word (text : String) : SExpr :=
  .token (.ofAtom text) text

/-- The tree that an identifier is written as. -/
def Identifier.sexpr (ident : Identifier) : SExpr :=
  if ident.quoted then .token .string ident.name else .word ("$" ++ ident.name)

/-- The tree that a datatype is written as. -/
def Datatype.sexpr : Datatype → SExpr
  | .scalar type => .word type.keyword
  | .array element => .form [.word "array", element.sexpr]
  | .pointer pointee => .form [.word "@witx", .word "pointer", pointee.sexpr]
  | .constPointer pointee => .form [.word "@witx", .word "const-pointer", pointee.sexpr]
  | .named ident => ident.sexpr

theorem Identifier.depth_sexpr (ident : Identifier) : ident.sexpr.depth = 0 := by
  rw [sexpr]
  split <;> rfl

/-- Every array and every pointer is a form. -/
theorem Datatype.depth_sexpr (type : Datatype) : type.sexpr.depth = type.wrappers := by
  induction type with
  | scalar => rfl
  | array element ih | pointer element ih | constPointer element ih =>
    simp [sexpr, SExpr.word, SExpr.depth, SExpr.forestDepth, ih, wrappers]
  | named ident => exact ident.depth_sexpr

namespace Cut

variable {symbols : List Symbol} {rest : List Char}

/-! ## Cutting what is written -/

/-- A closing paren is a symbol by itself. -/
theorem rightParen (h : Cut symbols rest) : Cut (.rightParen :: symbols) (')' :: rest) :=
  .symbol .rightParen .rightParen h

/-- An atom before anything that would not go on with it. -/
theorem word (text : String) (htext : Lexeme.IsAtom text)
    (hrest : ∀ x ∈ rest.head?, isAtomChar x = false) (h : Cut symbols rest) :
    Cut ((SExpr.word text).symbols ++ symbols) (text.toList ++ rest) := by
  have hwritten := Symbol.written_atom htext.1 htext.2
  rw [String.ofList_toList] at hwritten
  refine .symbol hwritten ?_ h
  rw [Symbol.shape, TokenKind.leafKind_ofAtom]
  exact htext.stands hrest

/-- An atom with a space behind it. -/
theorem wordSpace (text : String) (htext : Lexeme.IsAtom text) (h : Cut symbols rest) :
    Cut ((SExpr.word text).symbols ++ symbols) (text.toList ++ ' ' :: rest) := by
  exact word text htext (Lexeme.ends_atom ' ' (by decide) rest) (.space rfl h)

/-- The beginning of a form, up to what follows its first word. -/
theorem opening (text : String) (htext : Lexeme.IsAtom text) (h : Cut symbols rest) :
    Cut (.leftParen :: ((SExpr.word text).symbols ++ symbols))
      ('(' :: (text.toList ++ ' ' :: rest)) := by
  show Cut _ (['('] ++ _)
  refine .symbol .leftParen (.leftParen fun cs hcs => ?_) (wordSpace text htext h)
  obtain ⟨hne, hatom⟩ := htext
  obtain ⟨c, cs', htext⟩ := List.exists_cons_of_ne_nil hne
  rw [htext] at hatom hcs
  cases hcs
  exact absurd (hatom ';' List.mem_cons_self) (by decide)

/-- A form of two words and what is written behind them. -/
theorem witx (second : String) (hsecond : Lexeme.IsAtom second) {e : SExpr} {text : String}
    (h : Cut (e.symbols ++ .rightParen :: symbols) (text.toList ++ ')' :: rest)) :
    Cut ((SExpr.form [.word "@witx", .word second, e]).symbols ++ symbols)
      (("(@witx " ++ second ++ " " ++ text ++ ")").toList ++ rest) := by
  have hcut := opening "@witx" (by decide) (wordSpace second hsecond h)
  simpa [SExpr.symbols, SExpr.forestSymbols] using hcut

/-- A name with a dollar sign is an atom. A string ends at its own quote, whatever it holds. -/
theorem identifier {ident : Identifier} (h : ident.quoted = true ∨ ident.Dollar)
    (hrest : ∀ x ∈ rest.head?, isAtomChar x = false) (hcut : Cut symbols rest) :
    Cut (ident.sexpr.symbols ++ symbols) (ident.toString.toList ++ rest) := by
  unfold Identifier.sexpr Identifier.toString
  cases hquoted : ident.quoted with
  | true =>
    have hspells := Literal.spells_encode ident.name.toList
    rw [if_pos rfl, if_pos rfl, Literal.encode, String.toList_ofList]
    exact .symbol (.string hspells) (.string (Literal.closeQuote_of_spells hspells)) hcut
  | false =>
    have hname : Lexeme.IsAtom ident.name := by
      rcases h with h | h
      · rw [hquoted] at h; cases h
      · exact h.name
    refine word _ ⟨by simp, fun x hx => ?_⟩ hrest hcut
    rw [String.toList_append] at hx
    rcases List.mem_append.1 hx with hx | hx
    · rw [List.mem_singleton.1 hx]
      decide
    · exact hname.2 x hx

/-- A datatype whose names all have dollar signs is cut into the symbols of its tree. -/
theorem datatype {type : Datatype} (h : type.Dollar)
    (hrest : ∀ x ∈ rest.head?, isAtomChar x = false) (hcut : Cut symbols rest) :
    Cut (type.sexpr.symbols ++ symbols) (type.toString.toList ++ rest) := by
  have hparen := Lexeme.ends_atom ')' (by decide)
  induction type generalizing symbols rest with
  | scalar type =>
    have hkeyword : Lexeme.IsAtom type.keyword := by cases type <;> decide
    exact word type.keyword hkeyword hrest hcut
  | array element ih =>
    have htext : (Datatype.array element).toString = "(array " ++ element.toString ++ ")" := rfl
    have hcut' := opening "array" (by decide) (ih h (hparen rest) (rightParen hcut))
    rw [htext]
    simpa [Datatype.sexpr, SExpr.symbols, SExpr.forestSymbols] using hcut'
  | pointer pointee ih =>
    have htext : (Datatype.pointer pointee).toString =
        "(@witx " ++ "pointer" ++ " " ++ pointee.toString ++ ")" :=
      congrArg (· ++ pointee.toString ++ ")") (by decide : "(@witx pointer " = _)
    rw [htext]
    exact witx "pointer" (by decide) (ih h (hparen rest) (rightParen hcut))
  | constPointer pointee ih =>
    have htext : (Datatype.constPointer pointee).toString =
        "(@witx " ++ "const-pointer" ++ " " ++ pointee.toString ++ ")" :=
      congrArg (· ++ pointee.toString ++ ")") (by decide : "(@witx const-pointer " = _)
    rw [htext]
    exact witx "const-pointer" (by decide) (ih h (hparen rest) (rightParen hcut))
  | named ident => exact identifier (.inr h) hrest hcut

end Cut

/-! ## Deriving what was written -/

namespace Item

/-- An item whose tree is a token is that token, somewhere. -/
theorem eq_of_sexpr_token {i : Item} {kind : TokenKind} {text : String}
    (h : i.sexpr = .token kind text) : ∃ span, i = .token ⟨kind, text, span⟩ := by
  cases i with
  | token t =>
    cases h
    exact ⟨t.span, rfl⟩
  | form => cases h

/-- An item whose tree is a form is a form of items with the trees in it. -/
theorem eq_of_sexpr_form {i : Item} {es : List SExpr} (h : i.sexpr = .form es) :
    ∃ items span closing, i = .form items span closing ∧ sexprs items = es := by
  cases i with
  | token => cases h
  | form items span closing =>
    cases h
    exact ⟨items, span, closing, rfl, rfl⟩

/-- The first tree is that of the first item. -/
theorem eq_of_sexprs_cons {items : List Item} {e : SExpr} {es : List SExpr}
    (h : sexprs items = e :: es) :
    ∃ i rest, items = i :: rest ∧ i.sexpr = e ∧ sexprs rest = es := by
  cases items with
  | nil => cases h
  | cons i rest =>
    cases h
    exact ⟨i, rest, rfl, rfl, rfl⟩

theorem eq_of_sexprs_singleton {items : List Item} {e : SExpr} (h : sexprs items = [e]) :
    ∃ i, items = [i] ∧ i.sexpr = e := by
  obtain ⟨i, rest, rfl, hi, hrest⟩ := eq_of_sexprs_cons h
  cases rest with
  | nil => exact ⟨i, rfl, hi⟩
  | cons => cases hrest

/-- The first item is the word that the first tree is. -/
theorem eq_of_sexprs_word {items : List Item} {text : String} {es : List SExpr}
    (h : sexprs items = .word text :: es) :
    ∃ span rest, items = .token ⟨.ofAtom text, text, span⟩ :: rest ∧ sexprs rest = es := by
  obtain ⟨i, rest, rfl, hi, hrest⟩ := eq_of_sexprs_cons h
  obtain ⟨span, rfl⟩ := eq_of_sexpr_token hi
  exact ⟨span, rest, rfl, hrest⟩

theorem eq_of_sexpr_two_words {i : Item} {first second : String} {e : SExpr}
    (h : i.sexpr = .form [.word first, .word second, e]) :
    ∃ s s' j span closing, i = .form [.token ⟨.ofAtom first, first, s⟩,
      .token ⟨.ofAtom second, second, s'⟩, j] span closing ∧ j.sexpr = e := by
  obtain ⟨items, span, closing, rfl, hitems⟩ := eq_of_sexpr_form h
  obtain ⟨s, rest, rfl, hrest⟩ := eq_of_sexprs_word hitems
  obtain ⟨s', rest', rfl, hrest'⟩ := eq_of_sexprs_word hrest
  obtain ⟨j, rfl, hj⟩ := eq_of_sexprs_singleton hrest'
  exact ⟨s, s', j, span, closing, rfl, hj⟩

end Item

/-- The item with the tree of a name derives the name, with the span of the item. -/
theorem Identifier.Dollar.exists_derives {ident : Identifier} (h : ident.Dollar) {i : Item}
    (hi : i.sexpr = ident.sexpr) :
    ∃ span, DerivesIdentifier i ⟨ident.name, span, false⟩ := by
  obtain ⟨c, cs, hname⟩ := List.exists_cons_of_ne_nil h.name.1
  have htext : ("$" ++ ident.name).toList = '$' :: c :: cs := by simp [hname]
  have hkind : TokenKind.ofAtom ("$" ++ ident.name) = .identifier := by
    unfold TokenKind.ofAtom
    rw [htext]
    rfl
  rw [Identifier.sexpr, h.quoted, if_neg Bool.false_ne_true, SExpr.word, hkind] at hi
  obtain ⟨span, rfl⟩ := Item.eq_of_sexpr_token hi
  have hderives := DerivesIdentifier.dollar ("$" ++ ident.name) span
  rw [htext, List.drop_one, List.tail_cons, ← hname, String.ofList_toList] at hderives
  exact ⟨span, hderives⟩

/-- What an identifier was written as derives its name, and says how the name was written. -/
theorem exists_derivesName {ident : Identifier} (h : ident.quoted = true ∨ ident.Dollar) {i : Item}
    (hi : i.sexpr = ident.sexpr) : ∃ span, DerivesName i ⟨ident.name, span, ident.quoted⟩ := by
  cases hquoted : ident.quoted with
  | true =>
    rw [Identifier.sexpr, if_pos hquoted] at hi
    obtain ⟨span, rfl⟩ := Item.eq_of_sexpr_token hi
    exact ⟨span, .string ident.name span⟩
  | false =>
    have hdollar : ident.Dollar := by
      rcases h with h | h
      · rw [hquoted] at h; cases h
      · exact h
    obtain ⟨span, hderives⟩ := hdollar.exists_derives hi
    exact ⟨span, .identifier hderives⟩

/-- What a datatype was written as derives the datatype, but for spans. -/
theorem exists_derivesDatatype {type : Datatype} (h : type.Dollar) {i : Item}
    (hi : i.sexpr = type.sexpr) :
    ∃ type', DerivesDatatype i type' ∧ type'.erase = type.erase := by
  induction type generalizing i with
  | scalar type =>
    obtain ⟨span, rfl⟩ := Item.eq_of_sexpr_token hi
    have hkind : TokenKind.ofAtom type.keyword = .keyword := by cases type <;> rfl
    rw [hkind]
    exact ⟨.scalar type, .scalar (.keyword type span), rfl⟩
  | array element ih =>
    obtain ⟨items, span, closing, rfl, hitems⟩ := Item.eq_of_sexpr_form hi
    obtain ⟨s, rest, rfl, hrest⟩ := Item.eq_of_sexprs_word hitems
    obtain ⟨j, rfl, hj⟩ := Item.eq_of_sexprs_singleton hrest
    obtain ⟨element', hderives, herase⟩ := ih h hj
    exact ⟨.array element', .array hderives, congrArg Datatype.array herase⟩
  | pointer pointee ih =>
    obtain ⟨s, s', j, span, closing, rfl, hj⟩ := Item.eq_of_sexpr_two_words hi
    obtain ⟨pointee', hderives, herase⟩ := ih h hj
    exact ⟨.pointer pointee', .pointer hderives, congrArg Datatype.pointer herase⟩
  | constPointer pointee ih =>
    obtain ⟨s, s', j, span, closing, rfl, hj⟩ := Item.eq_of_sexpr_two_words hi
    obtain ⟨pointee', hderives, herase⟩ := ih h hj
    exact ⟨.constPointer pointee', .constPointer hderives, congrArg Datatype.constPointer herase⟩
  | named ident =>
    obtain ⟨span, hderives⟩ := h.exists_derives hi
    exact ⟨.named ⟨ident.name, span, false⟩, .named hderives, rfl⟩

/-- What a field was written as, behind a keyword, derives the field, but for spans. -/
theorem exists_derivesField {name : Identifier} {type : Datatype} {word : String}
    (hname : name.quoted = true ∨ name.Dollar) (htype : type.Dollar)
    (hword : TokenKind.ofAtom word = .keyword) {i : Item}
    (hi : i.sexpr = .form [.word word, name.sexpr, type.sexpr]) :
    ∃ span type', DerivesField word i ⟨⟨name.name, span, name.quoted⟩, type'⟩ ∧
      type'.erase = type.erase := by
  obtain ⟨items, opening, closing, rfl, hitems⟩ := Item.eq_of_sexpr_form hi
  obtain ⟨s, rest, rfl, hrest⟩ := Item.eq_of_sexprs_word hitems
  obtain ⟨n, rest', rfl, hn, hrest'⟩ := Item.eq_of_sexprs_cons hrest
  obtain ⟨t, rfl, ht⟩ := Item.eq_of_sexprs_singleton hrest'
  obtain ⟨span, hderivesName⟩ := exists_derivesName hname hn
  obtain ⟨type', hderivesType, herase⟩ := exists_derivesDatatype htype ht
  rw [hword]
  exact ⟨span, type', .slot hderivesName hderivesType, herase⟩

/-! ## Reading -/

/-- A text that is cut into the symbols of one tree is read as one item. -/
theorem Item.exists_readAll_singleton {e : SExpr} {source : String}
    (hdepth : e.depth ≤ maxNesting) (h : Cut e.symbols source.toList) (filename : Option String) :
    ∃ i, readAll source filename = .ok [i] ∧ i.sexpr = e := by
  have hcut : Cut (SExpr.forestSymbols [e]) source.toList := by
    simpa [SExpr.forestSymbols] using h
  have hnesting : SExpr.forestDepth [e] ≤ maxNesting := by simpa [SExpr.forestDepth] using hdepth
  obtain ⟨items, hread, hitems⟩ := exists_readAll_of_cut hnesting hcut filename
  obtain ⟨i, rfl, hi⟩ := eq_of_sexprs_singleton hitems
  exact ⟨i, hread, hi⟩

/-- A single item that derives a datatype is the datatype of the source. -/
theorem Datatype.parse_of_derives {source : String} {filename : Option String} {i : Item}
    {type : Datatype} (hread : Item.readAll source filename = .ok [i])
    (h : DerivesDatatype i type) : parse source filename = .ok type := by
  unfold parse Cursor.ofSource
  rw [hread]
  show Cursor.toEnd .expectedEnd (Grammar.datatype _) = _
  rw [Grammar.datatype_complete h]
  rfl

/-- A single item that derives a type definition is the definition of the source. -/
theorem Typedef.parse_of_derives {source : String} {filename : Option String} {i : Item}
    {definition : Typedef} (hread : Item.readAll source filename = .ok [i])
    (h : DerivesTypedef i definition) : parse source filename = .ok definition := by
  unfold parse Cursor.ofSource
  rw [hread]
  show Cursor.toEnd .expectedEnd (Grammar.typedef _) = _
  rw [Grammar.typedef_complete h]
  rfl

/-- The text of a structure with one field. -/
def Field.structText (f : Field) : String :=
  "(struct (field " ++ f.name.toString ++ " " ++ f.type.toString ++ "))"

/-- The tree that this structure is written as. -/
def Field.structTree (f : Field) : SExpr :=
  .form [.word "struct", .form [.word "field", f.name.sexpr, f.type.sexpr]]

/-- The text of a structure with one field is cut into the symbols of its tree. -/
theorem Field.cut_structText {f : Field} (hname : f.name.quoted = true ∨ f.name.Dollar)
    (htype : f.type.Dollar) : Cut f.structTree.symbols f.structText.toList := by
  have hspace := Lexeme.ends_atom ' ' (by decide)
  have hparen := Lexeme.ends_atom ')' (by decide)
  have htext : f.structText.toList = '(' :: ("struct".toList ++ ' ' :: '(' :: ("field".toList ++
      ' ' :: (f.name.toString.toList ++ ' ' :: (f.type.toString.toList ++ [')', ')'])))) := by
    show ("(struct (field " ++ f.name.toString ++ " " ++ f.type.toString ++ "))").toList = _
    simp
  have hsymbols : f.structTree.symbols = .leftParen :: ((SExpr.word "struct").symbols ++
      .leftParen :: ((SExpr.word "field").symbols ++ (f.name.sexpr.symbols ++
        (f.type.sexpr.symbols ++ [.rightParen, .rightParen])))) := by
    simp [structTree, SExpr.symbols, SExpr.forestSymbols]
  rw [htext, hsymbols]
  exact Cut.opening "struct" (by decide) <| Cut.opening "field" (by decide) <|
    Cut.identifier hname (hspace _) <| .space rfl <| Cut.datatype htype (hparen _) <|
    Cut.rightParen <| Cut.rightParen .nil

/-- The text of a datatype is read as the datatype, and that of a structure with one field as this
structure: a name that is written as a string may hold any characters, all others hold those of
atoms. Only the nesting of forms sets a bound. -/
theorem parse_toString {name : Identifier} {type : Datatype}
    (hname : name.quoted = true ∨ name.Dollar) (htype : type.Dollar) (filename : Option String) :
    (type.wrappers ≤ 198 → ∃ name' type',
      Typedef.parse ("(struct (field " ++ name.toString ++ " " ++ type.toString ++ "))") filename =
          .ok (.struct [⟨[], ⟨name', type'⟩⟩]) ∧
        name'.name = name.name ∧ name'.quoted = name.quoted ∧ (type' == type) = true) ∧
    (type.wrappers ≤ 200 → ∃ type', Datatype.parse type.toString filename = .ok type' ∧
      (type' == type) = true) := by
  constructor
  · intro hwrappers
    let f : Field := ⟨name, type⟩
    have hdepth : f.structTree.depth ≤ Item.maxNesting := by
      simp only [f, Field.structTree, SExpr.depth, SExpr.forestDepth, SExpr.word,
        name.depth_sexpr, type.depth_sexpr, Item.maxNesting]
      omega
    have hcut : Cut f.structTree.symbols f.structText.toList := Field.cut_structText hname htype
    obtain ⟨i, hread, hi⟩ := Item.exists_readAll_singleton hdepth hcut filename
    obtain ⟨items, opening, closing, rfl, hitems⟩ := Item.eq_of_sexpr_form hi
    obtain ⟨s, rest, rfl, hrest⟩ := Item.eq_of_sexprs_word hitems
    obtain ⟨j, rfl, hj⟩ := Item.eq_of_sexprs_singleton hrest
    obtain ⟨span, type', hfield, herase⟩ := exists_derivesField hname htype rfl hj
    have hfields : DerivesEach (DerivesField "field") [j]
        [⟨[], ⟨⟨name.name, span, name.quoted⟩, type'⟩⟩] := .cons ⟨rfl, hfield⟩ .nil
    exact ⟨_, type', Typedef.parse_of_derives hread (.struct hfields nofun), rfl, rfl,
      (Datatype.decides_erase.beq_iff type' type).2 herase⟩
  · intro hwrappers
    have hdepth : type.sexpr.depth ≤ Item.maxNesting := by rwa [type.depth_sexpr]
    have hcut : Cut type.sexpr.symbols type.toString.toList := by
      have hend : ∀ x ∈ ([] : List Char).head?, isAtomChar x = false := nofun
      simpa using Cut.datatype htype hend .nil
    obtain ⟨i, hread, hi⟩ := Item.exists_readAll_singleton hdepth hcut filename
    obtain ⟨type', hderives, herase⟩ := exists_derivesDatatype htype hi
    exact ⟨type', Datatype.parse_of_derives hread hderives,
      (Datatype.decides_erase.beq_iff type' type).2 herase⟩

/-- A field whose name holds what ends a string, an escape, a line, a comment and a form. -/
def Field.sample : Field :=
  ⟨⟨"\"\\\n;)(", .nowhere, true⟩, .array (.constPointer (.named ⟨"t", .nowhere, false⟩))⟩

/-- A field whose name has quotes, parens and a line feed in it. -/
theorem parse_toString_quoted_name :
    (Field.sample.name.quoted = true ∨ Field.sample.name.Dollar) ∧ Field.sample.type.Dollar ∧
      Field.sample.type.wrappers ≤ 198 ∧ ∃ name' type',
        Typedef.parse "(struct (field \"\\\"\\\\\n;)(\" (array (@witx const-pointer $t))))" none =
            .ok (.struct [⟨[], ⟨name', type'⟩⟩]) ∧
          name'.name = "\"\\\n;)(" ∧ name'.quoted = true ∧
          (type' == Field.sample.type) = true := by
  have htext : "(struct (field " ++ Field.sample.name.toString ++ " " ++
      Field.sample.type.toString ++ "))" =
        "(struct (field \"\\\"\\\\\n;)(\" (array (@witx const-pointer $t))))" := by
    decide +kernel
  have htype : Field.sample.type.Dollar := ⟨rfl, by decide⟩
  have hwrappers : Field.sample.type.wrappers ≤ 198 := by decide
  rw [← htext]
  exact ⟨.inl rfl, htype, hwrappers, (parse_toString (.inl rfl) htype none).1 hwrappers⟩

end WitxFrontEnd
