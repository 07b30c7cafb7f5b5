import WitxFrontEnd.Proofs.OutlineTrees

/-!
# What an outline keeps

Two definitions are alike if nothing tells them apart but where their names stand and how their
documentation was indented and ended (`Typedef.Alike`). The outlines of two parsed definitions are
the same if and only if the definitions are alike (`Typedef.outline_eq_iff`): an outline is read in
one way only, and as trees from which all of this can be got back. A comment is never the first tree
of a construct, so the comments before a construct end where it begins (`Tells.documented`).
-/

namespace WitxFrontEnd

open Text (splitLines trimRight)

/-! ## Definitions that are alike -/

/-- The same name, written in the same way. -/
structure Identifier.Alike (a b : Identifier) : Prop where
  name : a.name = b.name
  quoted : a.quoted = b.quoted

/-- The same type, wherever its names stand. -/
inductive Datatype.Alike : Datatype → Datatype → Prop
  | scalar (type : Scalar) : Alike (.scalar type) (.scalar type)
  | array {a b : Datatype} (h : Alike a b) : Alike (.array a) (.array b)
  | pointer {a b : Datatype} (h : Alike a b) : Alike (.pointer a) (.pointer b)
  | constPointer {a b : Datatype} (h : Alike a b) : Alike (.constPointer a) (.constPointer b)
  | named {a b : Identifier} (h : a.Alike b) : Alike (.named a) (.named b)

/-- The same name with the same type. -/
structure Field.Alike (f g : Field) : Prop where
  name : f.name.Alike g.name
  type : f.type.Alike g.type

/-- Constructs that are alike, with the same lines of documentation but for blanks at their ends. -/
structure Documented.Alike {α : Type} (R : α → α → Prop) (d d' : Documented α) : Prop where
  lines : (splitLines d.docs.toList).map trimRight = (splitLines d'.docs.toList).map trimRight
  item : R d.item d'.item

/-- Definitions of the same kind, of the same representation, and with members that are alike and in
the same order. -/
inductive Typedef.Alike : Typedef → Typedef → Prop
  | alias {type type' : Datatype} (h : type.Alike type') : Alike (.alias type) (.alias type')
  | enum {repr : Scalar} {members members' : List (Documented Identifier)}
      (h : List.Forall₂ (Documented.Alike Identifier.Alike) members members') :
      Alike (.enum repr members) (.enum repr members')
  | flags {repr : Scalar} {flags flags' : List (Documented Identifier)}
      (h : List.Forall₂ (Documented.Alike Identifier.Alike) flags flags') :
      Alike (.flags repr flags) (.flags repr flags')
  | struct {fields fields' : List (Documented Field)}
      (h : List.Forall₂ (Documented.Alike Field.Alike) fields fields') :
      Alike (.struct fields) (.struct fields')
  | union {fields fields' : List (Documented Field)}
      (h : List.Forall₂ (Documented.Alike Field.Alike) fields fields') :
      Alike (.union fields) (.union fields')
  | handle {supertypes supertypes' : List Identifier}
      (h : List.Forall₂ Identifier.Alike supertypes supertypes') :
      Alike (.handle supertypes) (.handle supertypes')

/-! ## What the trees of names and types tell -/

/-- A word tells its text. -/
theorem SExpr.word_inj {text text' : String} (h : word text = word text') : text = text' :=
  (token.inj h).2

/-- A word is neither a string nor a comment. -/
theorem SExpr.word_ne_token (kind : TokenKind) (hkind : kind.leafKind ≠ .atom)
    (text text' : String) : word text ≠ .token kind text' := by
  intro h
  rw [← (token.inj h).1, TokenKind.leafKind_ofAtom] at hkind
  exact hkind rfl

/-- A scalar's keyword tells the scalar. -/
theorem Scalar.keyword_inj {a b : Scalar} (h : a.keyword = b.keyword) : a = b := by
  have hall : ∀ a ∈ all, ∀ b ∈ all, a.keyword = b.keyword → a = b := by decide
  exact hall a a.mem_all b b.mem_all h

/-- A scalar's keyword has no dollar sign in front, so no identifier looks like it. -/
theorem Scalar.head?_keyword (type : Scalar) : type.keyword.toList.head? ≠ some '$' := by
  cases type <;> decide

namespace Identifier

/-- A name's tree tells the name and whether it is quoted. -/
theorem alike_of_sexpr {a b : Identifier} (h : a.sexpr = b.sexpr) : a.Alike b := by
  unfold sexpr at h
  cases ha : a.quoted <;> cases hb : b.quoted <;> rw [ha, hb] at h
  · have hname := SExpr.word_inj h
    refine ⟨?_, ha.trans hb.symm⟩
    rw [← String.toList_inj, String.toList_append, String.toList_append] at hname
    exact String.toList_inj.1 (List.append_cancel_left hname)
  · exact absurd h (SExpr.word_ne_token .string nofun _ _)
  · exact absurd h.symm (SExpr.word_ne_token .string nofun _ _)
  · exact ⟨(SExpr.token.inj h).2, ha.trans hb.symm⟩

/-- A name is written as no other word than one that begins with a dollar sign. -/
theorem sexpr_ne_word (ident : Identifier) {word : String}
    (hword : word.toList.head? ≠ some '$') : ident.sexpr ≠ .word word := by
  unfold sexpr
  split
  · exact (SExpr.word_ne_token .string nofun _ _).symm
  · intro h
    refine hword ?_
    rw [← SExpr.word_inj h, String.toList_append]
    rfl

/-- A name is no form. -/
theorem sexpr_ne_form (ident : Identifier) (items : List SExpr) : ident.sexpr ≠ .form items := by
  unfold sexpr
  split <;> nofun

/-- A name is no comment. -/
theorem sexpr_ne_lineComment (ident : Identifier) (text : String) :
    ident.sexpr ≠ .token .lineComment text := by
  unfold sexpr
  split
  · nofun
  · exact SExpr.word_ne_token .lineComment nofun _ _

end Identifier

namespace Datatype

/-- A datatype's tree tells the datatype. -/
theorem alike_of_sexpr {a b : Datatype} (h : a.sexpr = b.sexpr) : a.Alike b := by
  induction a generalizing b with
  | scalar type =>
    cases b with
    | scalar type' =>
      cases Scalar.keyword_inj (SExpr.word_inj h)
      exact .scalar type
    | named ident => exact absurd h.symm (ident.sexpr_ne_word type.head?_keyword)
    | array | pointer | constPointer => cases h
  | array element ih =>
    cases b with
    | array element' =>
      have hitems := SExpr.form.inj h
      exact .array (ih (List.cons.inj (List.cons.inj hitems).2).1)
    | scalar | pointer | constPointer => cases h
    | named ident => exact absurd h.symm (ident.sexpr_ne_form _)
  | pointer pointee ih =>
    cases b with
    | pointer pointee' =>
      have hitems := (List.cons.inj (SExpr.form.inj h)).2
      exact .pointer (ih (List.cons.inj (List.cons.inj hitems).2).1)
    | constPointer =>
      have hitems := (List.cons.inj (SExpr.form.inj h)).2
      exact absurd (SExpr.word_inj (List.cons.inj hitems).1) (by decide)
    | scalar | array => cases h
    | named ident => exact absurd h.symm (ident.sexpr_ne_form _)
  | constPointer pointee ih =>
    cases b with
    | constPointer pointee' =>
      have hitems := (List.cons.inj (SExpr.form.inj h)).2
      exact .constPointer (ih (List.cons.inj (List.cons.inj hitems).2).1)
    | pointer =>
      have hitems := (List.cons.inj (SExpr.form.inj h)).2
      exact absurd (SExpr.word_inj (List.cons.inj hitems).1) (by decide)
    | scalar | array => cases h
    | named ident => exact absurd h.symm (ident.sexpr_ne_form _)
  | named ident =>
    cases b with
    | named ident' => exact .named (Identifier.alike_of_sexpr h)
    | scalar type => exact absurd h (ident.sexpr_ne_word type.head?_keyword)
    | array | pointer | constPointer => exact absurd h (ident.sexpr_ne_form _)

/-- A type is written as a word only if it is a scalar or a name. -/
theorem sexpr_ne_word (type : Datatype) {word : String} (hword : word.toList.head? ≠ some '$')
    (hscalar : ∀ scalar ∈ Scalar.all, scalar.keyword ≠ word) : type.sexpr ≠ .word word := by
  cases type with
  | scalar type => exact fun h => hscalar type type.mem_all (SExpr.word_inj h)
  | named ident => exact ident.sexpr_ne_word hword
  | array | pointer | constPointer => nofun

end Datatype

/-! ## Documented constructs one after the other -/

namespace Outline

/-- Behind a space a line loses the same blanks at its end. -/
theorem drop_trimRight_space (line : List Char) :
    (trimRight (' ' :: line)).drop 1 = trimRight line := by
  have happend := Text.trimRight_append [' '] line
  split at happend
  · next hnil => rw [hnil, ← List.singleton_append, happend]; rfl
  · rw [← List.singleton_append, happend]; rfl

/-- A line of documentation is told by its tree, but for the blanks at its end. -/
theorem docTree_inj {line line' : List Char} (h : docTree line = docTree line') :
    trimRight line = trimRight line' := by
  have htext := String.ofList_injective (SExpr.token.inj h).2
  have hshown : trimRight (' ' :: line) = trimRight (' ' :: line') := by simpa using htext
  rw [← drop_trimRight_space line, hshown, drop_trimRight_space]

/-- Comments end where something else begins. -/
theorem docTrees_append_inj {lines lines' : List (List Char)} {es es' : List SExpr}
    (hes : ∀ e ∈ es.head?, ∀ text, e ≠ .token .lineComment text)
    (hes' : ∀ e ∈ es'.head?, ∀ text, e ≠ .token .lineComment text)
    (h : lines.map docTree ++ es = lines'.map docTree ++ es') :
    lines.map trimRight = lines'.map trimRight ∧ es = es' := by
  induction lines generalizing lines' with
  | nil =>
    cases lines' with
    | nil => exact ⟨rfl, h⟩
    | cons line' lines' =>
      rw [List.map_nil, List.nil_append] at h
      exact absurd rfl (hes (docTree line') (by rw [h]; rfl) _)
  | cons line lines ih =>
    cases lines' with
    | nil =>
      rw [List.map_nil, List.nil_append] at h
      exact absurd rfl (hes' (docTree line) (by rw [← h]; rfl) _)
    | cons line' lines' =>
      obtain ⟨hline, hrest⟩ := List.cons.inj h
      obtain ⟨hlines, hes⟩ := ih hrest
      exact ⟨congrArg₂ List.cons (docTree_inj hline) hlines, hes⟩

end Outline

/-- The trees of a construct tell what it is like, whatever trees come behind them, and they do not
begin with a comment. -/
structure Tells {α : Type} (trees : α → List SExpr) (R : α → α → Prop) : Prop where
  alike : ∀ {a a' : α} {es es' : List SExpr}, trees a ++ es = trees a' ++ es' → R a a' ∧ es = es'
  first : ∀ a : α, ∃ e es, trees a = e :: es ∧ ∀ text, e ≠ .token .lineComment text

/-- So do the trees of documented constructs one after the other. -/
theorem Tells.documented {α : Type} {trees : α → List SExpr} {R : α → α → Prop} (h : Tells trees R)
    {ds ds' : List (Documented α)} (heq : ds.flatMap (Outline.documentedTrees trees) =
      ds'.flatMap (Outline.documentedTrees trees)) : List.Forall₂ (Documented.Alike R) ds ds' := by
  have hhead (a : α) (rest : List SExpr) :
      ∀ e ∈ (trees a ++ rest).head?, ∀ text, e ≠ .token .lineComment text := by
    obtain ⟨first, es, htrees, hfirst⟩ := h.first a
    intro e he
    rw [htrees] at he
    cases he
    exact hfirst
  induction ds generalizing ds' with
  | nil =>
    cases ds' with
    | nil => exact .nil
    | cons d' ds' =>
      obtain ⟨first, es, htrees, -⟩ := h.first d'.item
      rw [List.flatMap_cons, Outline.documentedTrees, htrees] at heq
      simp at heq
  | cons d ds ih =>
    cases ds' with
    | nil =>
      obtain ⟨first, es, htrees, -⟩ := h.first d.item
      rw [List.flatMap_cons, Outline.documentedTrees, htrees] at heq
      simp at heq
    | cons d' ds' =>
      rw [List.flatMap_cons, List.flatMap_cons, Outline.documentedTrees, Outline.documentedTrees,
        List.append_assoc, List.append_assoc] at heq
      obtain ⟨hlines, hrest⟩ := Outline.docTrees_append_inj (hhead _ _) (hhead _ _) heq
      obtain ⟨hitem, hothers⟩ := h.alike hrest
      exact .cons ⟨hlines, hitem⟩ (ih hothers)

/-- Identifiers are told by their trees. -/
theorem tells_identifierTrees : Tells Outline.identifierTrees Identifier.Alike where
  alike h := by
    obtain ⟨hname, hrest⟩ := List.cons.inj h
    exact ⟨Identifier.alike_of_sexpr hname, hrest⟩
  first ident := ⟨_, [], rfl, ident.sexpr_ne_lineComment⟩

/-- Fields are told by their trees. -/
theorem tells_fieldTrees : Tells Outline.fieldTrees Field.Alike where
  alike h := by
    obtain ⟨hname, hrest⟩ := List.cons.inj h
    obtain ⟨htype, hrest⟩ := List.cons.inj hrest
    exact ⟨⟨Identifier.alike_of_sexpr hname, Datatype.alike_of_sexpr htype⟩, hrest⟩
  first f := ⟨_, _, rfl, f.name.sexpr_ne_lineComment⟩

/-! ## Type definitions -/

/-- The words that begin the definitions other than that of another name for a type. -/
def Typedef.heads : List String :=
  ["enum", "flags", "struct", "union", "handle"]

/-- A datatype does not look like the word that begins a definition. -/
theorem Datatype.sexpr_ne_head (type : Datatype) {word : String} (h : word ∈ Typedef.heads) :
    type.sexpr ≠ .word word := by
  have hdollar : ∀ word ∈ Typedef.heads, word.toList.head? ≠ some '$' := by decide
  have hscalar : ∀ word ∈ Typedef.heads, ∀ scalar ∈ Scalar.all, scalar.keyword ≠ word := by decide
  exact type.sexpr_ne_word (hdollar word h) (hscalar word h)

/-- Names are told by their trees one by one. -/
theorem Identifier.forall₂_alike_of_sexpr {idents idents' : List Identifier}
    (h : idents.map sexpr = idents'.map sexpr) : List.Forall₂ Alike idents idents' := by
  rw [← List.forall₂_eq_eq_eq, List.forall₂_map_left_iff, List.forall₂_map_right_iff] at h
  exact h.imp fun _ _ => alike_of_sexpr

/-- The trees of a type definition tell what it is like. -/
theorem Typedef.alike_of_typedefTrees {t t' : Typedef}
    (h : Outline.typedefTrees t = Outline.typedefTrees t') : t.Alike t' := by
  cases t with
  | «alias» type =>
    cases t' with
    | «alias» type' => exact .alias (Datatype.alike_of_sexpr (List.cons.inj h).1)
    | enum | flags | struct | union | handle =>
      exact absurd (List.cons.inj h).1 (type.sexpr_ne_head (by decide))
  | enum repr members =>
    cases t' with
    | enum repr' members' =>
      obtain ⟨hrepr, hmembers⟩ := List.cons.inj (List.cons.inj h).2
      cases Scalar.keyword_inj (SExpr.word_inj hrepr)
      exact .enum (tells_identifierTrees.documented hmembers)
    | «alias» type => exact absurd (List.cons.inj h).1.symm (type.sexpr_ne_head (by decide))
    | flags | struct | union | handle =>
      exact absurd (SExpr.word_inj (List.cons.inj h).1) (by decide)
  | flags repr flags =>
    cases t' with
    | flags repr' flags' =>
      obtain ⟨hrepr, hflags⟩ := List.cons.inj (List.cons.inj h).2
      cases Scalar.keyword_inj (SExpr.word_inj hrepr)
      exact .flags (tells_identifierTrees.documented hflags)
    | «alias» type => exact absurd (List.cons.inj h).1.symm (type.sexpr_ne_head (by decide))
    | enum | struct | union | handle =>
      exact absurd (SExpr.word_inj (List.cons.inj h).1) (by decide)
  | struct fields =>
    cases t' with
    | struct fields' => exact .struct (tells_fieldTrees.documented (List.cons.inj h).2)
    | «alias» type => exact absurd (List.cons.inj h).1.symm (type.sexpr_ne_head (by decide))
    | enum | flags | union | handle =>
      exact absurd (SExpr.word_inj (List.cons.inj h).1) (by decide)
  | union fields =>
    cases t' with
    | union fields' => exact .union (tells_fieldTrees.documented (List.cons.inj h).2)
    | «alias» type => exact absurd (List.cons.inj h).1.symm (type.sexpr_ne_head (by decide))
    | enum | flags | struct | handle =>
      exact absurd (SExpr.word_inj (List.cons.inj h).1) (by decide)
  | handle supertypes =>
    cases t' with
    | handle supertypes' => exact .handle (Identifier.forall₂_alike_of_sexpr (List.cons.inj h).2)
    | «alias» type => exact absurd (List.cons.inj h).1.symm (type.sexpr_ne_head (by decide))
    | enum | flags | struct | union =>
      exact absurd (SExpr.word_inj (List.cons.inj h).1) (by decide)

/-! ## Outlines of what is alike -/

/-- Names that are alike are written alike. -/
theorem Identifier.Alike.toString_eq {a b : Identifier} (h : a.Alike b) :
    a.toString = b.toString := by
  rw [Identifier.toString, Identifier.toString, h.name, h.quoted]

/-- Types that are alike are written alike. -/
theorem Datatype.Alike.toString_eq {a b : Datatype} (h : a.Alike b) : a.toString = b.toString := by
  induction h with
  | scalar => rfl
  | array _ ih => exact congrArg (fun text => "(array " ++ text ++ ")") ih
  | pointer _ ih => exact congrArg (fun text => "(@witx pointer " ++ text ++ ")") ih
  | constPointer _ ih => exact congrArg (fun text => "(@witx const-pointer " ++ text ++ ")") ih
  | named h => exact h.toString_eq

theorem map_eq_of_forall₂ {α β : Type} {R : α → α → Prop} {f : α → β} {as as' : List α}
    (hf : ∀ a a', R a a' → f a = f a') (h : List.Forall₂ R as as') : as.map f = as'.map f := by
  rw [← List.forall₂_eq_eq_eq, List.forall₂_map_left_iff, List.forall₂_map_right_iff]
  exact h.imp hf

namespace Outline

/-- What is shown of a line of documentation is what is left of it without the blanks at its end. -/
theorem docLines_eq (depth : Nat) (comments : List String) :
    docLines depth comments = ((Documentation.docLines comments).map trimRight).map fun line =>
      String.ofList ((pad depth).toList ++ ';' :: ';' :: ';' :: trimRight (' ' :: line)) := by
  rw [docLines, List.map_map]
  refine List.map_congr_left fun line _ => ?_
  have hspace : trimRight (' ' :: trimRight line) = trimRight (' ' :: line) := by
    rw [← List.singleton_append, Text.trimRight_append, Text.trimRight_trimRight,
      ← Text.trimRight_append, List.singleton_append]
  have hmark : Text.isBlankLine (";;; ".toList ++ line) = false :=
    Text.isBlankLine_cons_of_not_blank (by decide) _
  rw [Function.comp_apply, hspace, ← trimRight_docMark, List.append_assoc,
    Text.trimRight_append_of_not_blank hmark]

/-- Constructs that are alike one by one have the same outline, if the constructs themselves do. -/
theorem documented_eq {α : Type} {R : α → α → Prop} {construct : Nat → α → List String}
    {depth : Nat} (hconstruct : ∀ a a', R a a' → construct depth a = construct depth a')
    {ds ds' : List (Documented α)} (h : List.Forall₂ (Documented.Alike R) ds ds') :
    ds.flatMap (documented construct depth) = ds'.flatMap (documented construct depth) := by
  rw [List.flatMap_def, List.flatMap_def]
  refine congrArg List.flatten (map_eq_of_forall₂ (fun d d' hd => ?_) h)
  have hlines : (Documentation.docLines d.comments).map trimRight =
      (Documentation.docLines d'.comments).map trimRight := hd.lines
  rw [documented, documented, docLines_eq, docLines_eq, hlines, hconstruct _ _ hd.item]

/-- Names that are alike have the same outline. -/
theorem identifier_eq {a b : Identifier} (h : a.Alike b) (depth : Nat) :
    identifier depth a = identifier depth b := by
  rw [identifier, identifier, h.toString_eq]

/-- Fields that are alike have the same outline. -/
theorem field_eq {f g : Field} (h : f.Alike g) (depth : Nat) :
    field "" depth f = field "" depth g := by
  rw [field, field, h.name.toString_eq, h.type.toString_eq]

/-- Type definitions that are alike have the same outline. -/
theorem typedef_eq {t t' : Typedef} (h : t.Alike t') (depth : Nat) :
    typedef depth t = typedef depth t' := by
  cases h with
  | «alias» h => exact congrArg (line depth) h.toString_eq
  | enum h | flags h =>
    exact congrArg (_ ++ ·) (documented_eq (fun _ _ hname => identifier_eq hname _) h)
  | struct h | union h =>
    exact congrArg (_ ++ ·) (documented_eq (fun _ _ hfield => field_eq hfield _) h)
  | handle h =>
    have hnames := map_eq_of_forall₂ (fun _ _ hname => congrArg (" " ++ ·) hname.toString_eq) h
    exact congrArg (fun names => line depth ("handle" ++ String.join names)) hnames

end Outline

/-- Two type definitions that are parsed have the same outline if and only if they are alike. -/
theorem Typedef.outline_eq_iff {source source' : String} {filename filename' : Option String}
    {t t' : Typedef} (h : parse source filename = .ok t) (h' : parse source' filename' = .ok t') :
    (Node.typedef t).outline = (Node.typedef t').outline ↔ t.Alike t' := by
  constructor
  · intro houtline
    obtain ⟨items, hread, htrees⟩ := exists_readAll_outline h none
    obtain ⟨items', hread', htrees'⟩ := exists_readAll_outline h' none
    rw [houtline, hread'] at hread
    cases hread
    exact alike_of_typedefTrees (htrees.symm.trans htrees')
  · intro halike
    exact congrArg Outline.text (Outline.typedef_eq halike 0)

/-- A structure with one field, its documentation in a line comment. -/
def Typedef.sampleLine : Typedef :=
  .struct [⟨[";   a name"], ⟨⟨"x\ny", ⟨28, 2, 8, none⟩, true⟩, .scalar .u8⟩⟩]

/-- The same with other white space, and its documentation in a block comment. -/
def Typedef.sampleBlock : Typedef :=
  .struct [⟨["; a name "], ⟨⟨"x\ny", ⟨28, 1, 29, none⟩, true⟩, .scalar .u8⟩⟩]

/-- Two sources of one structure, whose outlines are the same. -/
theorem Typedef.outline_eq_iff_samples :
    parse "(struct ;;;   a name\n(field \"x\\ny\" u8))" none = .ok sampleLine ∧
      parse "(struct (;; a name ;)(field \"x\\ny\"  u8) )" none = .ok sampleBlock ∧
      sampleLine.Alike sampleBlock := by
  have hline : parse "(struct ;;;   a name\n(field \"x\\ny\" u8))" none = .ok sampleLine := by decide +kernel
  have hblock : parse "(struct (;; a name ;)(field \"x\\ny\"  u8) )" none = .ok sampleBlock := by
    decide +kernel
  have houtline : (Node.typedef sampleLine).outline = (Node.typedef sampleBlock).outline := by
    decide +kernel
  exact ⟨hline, hblock, (outline_eq_iff hline hblock).1 houtline⟩

end WitxFrontEnd
