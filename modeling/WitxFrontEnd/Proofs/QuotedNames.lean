import WitxFrontEnd.Proofs.Conversion
import WitxFrontEnd.Proofs.Decoding
import WitxFrontEnd.Proofs.Rereading

/-!
# Names between quotes

An outline has the name of a used file, of an import and of a function between quotes as it is. It
is read back as that name if and only if nothing in it is special in a literal, that is if it holds
no quote and no backslash (`Document.outline_names`). Written as a literal, as the quoted names of
fields are, every name is read back (`Outline.read_encode`).

That no other name is read back is a matter of counting: a spelling has at least as many bytes as
the text it denotes, and more if anything in it is escaped (`Literal.Spells.length_le`). So what is
taken for the literal is the whole name, and nothing in it is escaped.
-/

namespace WitxFrontEnd

namespace Literal

/-! ## The length of a spelling -/

/-- A spelling is no shorter than the bytes that it spells, and longer if it has an escape. -/
theorem Spells.length_le {body : List Char} {bytes : List UInt8} (h : Spells body bytes) :
    bytes.length ≤ (body.flatMap String.utf8EncodeChar).length ∧
      ('\\' ∈ body → bytes.length < (body.flatMap String.utf8EncodeChar).length) := by
  have hpos (c : Char) : 1 ≤ (String.utf8EncodeChar c).length := by
    rw [String.length_utf8EncodeChar]
    exact c.utf8Size_pos
  induction h with
  | nil => exact ⟨Nat.le_refl _, nofun⟩
  | @raw c cs bs _ hbackslash _ ih =>
    rw [List.flatMap_cons, List.length_append, List.length_append]
    refine ⟨Nat.add_le_add_left ih.1 _, fun hmem => Nat.add_lt_add_left (ih.2 ?_) _⟩
    rcases List.mem_cons.1 hmem with hmem | hmem
    · exact absurd hmem.symm hbackslash
    · exact hmem
  | @named c b cs bs _ _ ih =>
    have hlt : (b :: bs).length < (('\\' :: c :: cs).flatMap String.utf8EncodeChar).length := by
      simp only [List.flatMap_cons, List.length_append, List.length_cons]
      have hbackslash := hpos '\\'
      have hc := hpos c
      omega
    exact ⟨Nat.le_of_lt hlt, fun _ => hlt⟩
  | @byte c d m n cs bs _ _ _ ih =>
    have hlt : (UInt8.ofNat (16 * m + n) :: bs).length <
        (('\\' :: c :: d :: cs).flatMap String.utf8EncodeChar).length := by
      simp only [List.flatMap_cons, List.length_append, List.length_cons]
      have hbackslash := hpos '\\'
      have hc := hpos c
      omega
    exact ⟨Nat.le_of_lt hlt, fun _ => hlt⟩
  | @codePoint u ds cs bs hds _ ih =>
    have hlt : (String.utf8EncodeChar u ++ bs).length <
        (('\\' :: 'u' :: '\x7b' :: (ds ++ '\x7d' :: cs)).flatMap String.utf8EncodeChar).length := by
      obtain ⟨d, ds, rfl⟩ := hds.exists_cons
      simp only [List.flatMap_cons, List.flatMap_append, List.length_append, List.cons_append,
        String.length_utf8EncodeChar u]
      have hsize := u.utf8Size_le_four
      have hbackslash := hpos '\\'
      have hu := hpos 'u'
      have hopen := hpos '\x7b'
      have hclose := hpos '\x7d'
      have hd := hpos d
      omega
    exact ⟨Nat.le_of_lt hlt, fun _ => hlt⟩

/-- A quote is part of a spelling only behind a backslash. -/
theorem Spells.not_mem_quote {body : List Char} {bytes : List UInt8} (h : Spells body bytes)
    (hbackslash : '\\' ∉ body) : '\"' ∉ body := by
  induction h with
  | nil => exact nofun
  | raw hquote _ _ ih =>
    rw [List.mem_cons, not_or] at hbackslash ⊢
    exact ⟨Ne.symm hquote, ih hbackslash.2⟩
  | named | byte | codePoint => exact absurd List.mem_cons_self hbackslash

/-! ## Plain names -/

/-- Nothing in the text is special in a literal. -/
structure Plain (text : String) : Prop where
  quote : '\"' ∉ text.toList
  backslash : '\\' ∉ text.toList

/-- A plain name is written as it is, between quotes. -/
theorem Plain.toList_encode {text : String} (h : Plain text) :
    (encode text).toList = '\"' :: (text.toList ++ ['\"']) := by
  rw [encode, String.toList_ofList]
  congr 2
  rw [List.flatMap_congr (g := fun c => [c]) fun c hc => ?_]
  · exact List.flatMap_singleton' _
  · refine if_neg ?_
    rw [Bool.or_eq_true, beq_iff_eq, beq_iff_eq]
    rintro (rfl | rfl)
    · exact h.backslash hc
    · exact h.quote hc

open Lexeme (closeQuote)

/-- What a text is taken for that stands between quotes as it is denotes the text only if nothing in
it is special. -/
theorem plain_of_closeQuote {text : String} {behind body rest : List Char} (hbehind : '\"' ∉ behind)
    (hclose : closeQuote (text.toList ++ '\"' :: behind) = some (body, rest))
    (hdecode : decodeBody (body.map .char) = .ok text) : Plain text := by
  have hbody : QuotedBody body := Lexeme.closeQuote_eq_some_iff_quotedBody.1
    (Lexeme.closeQuote_eq_some_iff.1 hclose).2
  rw [← map_shown_char body] at hbody
  have hspells := writes_map_char.1 ((decodeBody_eq_ok_iff hbody).1 hdecode)
  obtain ⟨hle, hlt⟩ := hspells.length_le
  rcases append_cons_cases (Lexeme.closeQuote_append hclose) with
    ⟨hsame, -⟩ | ⟨mid, hmid⟩ | ⟨mid, rfl⟩
  · have hbackslash : '\\' ∉ body := by
      intro hmem
      have hlt := hlt hmem
      rw [hsame] at hlt
      exact Nat.lt_irrefl _ hlt
    have hquote := hspells.not_mem_quote hbackslash
    rw [hsame] at hbackslash hquote
    exact ⟨hquote, hbackslash⟩
  · -- The literal would end inside the text and be too short for it.
    rw [hmid, List.flatMap_append, List.length_append, List.flatMap_cons, List.length_append,
      String.length_utf8EncodeChar] at hle
    have hpos := '\"'.utf8Size_pos
    omega
  · -- The literal would end behind the quote that closes the text.
    have happend := Lexeme.closeQuote_append hclose
    rw [List.append_assoc, List.append_cancel_left_eq, List.cons_append] at happend
    have hmem : '\"' ∈ mid ++ '\"' :: rest := List.mem_append_right _ List.mem_cons_self
    rw [(List.cons.inj happend).2] at hmem
    exact absurd hmem hbehind

end Literal

/-! ## Reading a line with a name -/

/-- A string at the front of a text is read up to the quote that closes it. -/
theorem Scan.ofChars_quote {p : Position} {cs : List Char} {l : Lexeme} {lexemes : List Lexeme}
    (h : (ofChars p ('\"' :: cs)).lexemes = l :: lexemes) :
    ∃ body rest, Lexeme.closeQuote cs = some (body, rest) ∧
      l = ⟨.leaf .string, String.ofList ('\"' :: (body ++ ['\"'])), p⟩ := by
  cases hclose : Lexeme.closeQuote cs with
  | none =>
    have hmunch : Lexeme.munch ('\"' :: cs) = none := by
      show (Lexeme.closeQuote cs).map _ = none
      rw [hclose]
      rfl
    rw [ofChars_stuck rfl hmunch] at h
    cases h
  | some found =>
    obtain ⟨body, rest⟩ := found
    obtain ⟨rfl, hbody⟩ := Lexeme.closeQuote_eq_some_iff.1 hclose
    have hstands : Lexeme.Stands (.leaf .string) ('\"' :: (body ++ ['\"'])) rest := .string hbody
    have hscan := ofChars_stands (p := p) hstands
    have hcs : '\"' :: (body ++ ['\"']) ++ rest = '\"' :: (body ++ '\"' :: rest) := by simp
    rw [hcs] at hscan
    rw [hscan] at h
    exact ⟨body, rest, rfl, (List.cons.inj h).1.symm⟩

namespace Outline

variable {word tail : String} {es : List SExpr}

/-- A line with a name between quotes. -/
def named (depth : Nat) (word name tail : String) : String :=
  pad depth ++ (word ++ " \"" ++ name ++ "\"" ++ tail)

/-- The characters of a line with a name between quotes. -/
theorem toList_named (depth : Nat) (word name tail : String) :
    (named depth word name tail).toList = (pad depth).toList ++
      (word.toList ++ ' ' :: '\"' :: (name.toList ++ '\"' :: tail.toList)) := by
  show (pad depth ++ (word ++ " \"" ++ name ++ "\"" ++ tail)).toList = _
  simp

/-- A line with its name written as a literal is read as the word, the name and the rest. -/
theorem cut_encode (hword : Lexeme.IsAtom word) (hcut : Cut (SExpr.forestSymbols es) tail.toList)
    (depth : Nat) (name : String) :
    Cut (SExpr.forestSymbols (.word word :: .token .string name :: es))
      ((pad depth).toList ++
        (word.toList ++ ' ' :: ((Literal.encode name).toList ++ tail.toList))) := by
  have hspells := Literal.spells_encode name.toList
  refine .spaces (isSpace_pad depth) (.wordSpace word hword ?_)
  rw [Literal.encode, String.toList_ofList]
  exact .symbol (.string hspells) (.string (Literal.closeQuote_of_spells hspells)) hcut

/-- A name that is written as a literal is read back, whatever it holds. -/
theorem read_encode (hword : Lexeme.IsAtom word) (hcut : Cut (SExpr.forestSymbols es) tail.toList)
    (hdepth : SExpr.forestDepth es ≤ Item.maxNesting) (depth : Nat) (name : String)
    (filename : Option String) :
    (Item.readAll (pad depth ++ (word ++ " " ++ Literal.encode name ++ tail)) filename).map
      Item.sexprs = .ok (.word word :: .token .string name :: es) := by
  have hdepth' : SExpr.forestDepth (.word word :: .token .string name :: es) ≤ Item.maxNesting := by
    simpa [SExpr.forestDepth, SExpr.word, SExpr.depth] using hdepth
  have htext : (pad depth ++ (word ++ " " ++ Literal.encode name ++ tail)).toList =
      (pad depth).toList ++
        (word.toList ++ ' ' :: ((Literal.encode name).toList ++ tail.toList)) := by simp
  have hcut' := cut_encode hword hcut depth name
  rw [← htext] at hcut'
  obtain ⟨items, hread, hsexprs⟩ := Item.exists_readAll_of_cut hdepth' hcut' filename
  rw [hread, ← hsexprs]
  rfl

/-- If the line is read as one with the name in it, the name is plain. For the literal in it is the
one that begins at the first quote, and it is as long as the name. -/
theorem plain_of_read (hword : Lexeme.IsAtom word) (htail : '\"' ∉ tail.toList) {depth : Nat}
    {name : String} {filename : Option String} {items : List Item}
    (h : Item.readAll (named depth word name tail) filename = .ok items)
    (hsexprs : Item.sexprs items = .word word :: .token .string name :: es) :
    Literal.Plain name := by
  obtain ⟨forest, hread, hitems⟩ := Item.readAll_ok h
  have hconverted := Item.converted_ofForest forest hitems
  have hlexemes := Forest.lexemes_of_read hread
  obtain ⟨span, rest, rfl, hrest⟩ := Item.eq_of_sexprs_word hsexprs
  obtain ⟨item, later, rfl, hitem, -⟩ := Item.eq_of_sexprs_cons hrest
  obtain ⟨span', rfl⟩ := Item.eq_of_sexpr_token hitem
  obtain ⟨first, trees, hfirst, htrees, rfl⟩ := List.forall₂_cons_right_iff.1 hconverted
  obtain ⟨second, others, hsecond, -, rfl⟩ := List.forall₂_cons_right_iff.1 htrees
  cases hfirst
  cases hsecond with
  | @leaf l t hdenotes =>
    have hspace := Lexeme.ends_atom ' ' (by decide)
      ('\"' :: (name.toList ++ '\"' :: tail.toList))
    rw [Scan.ofSource, toList_named, Scan.ofChars_spaces (isSpace_pad depth),
      Scan.ofChars_stands (hword.stands hspace), Scan.ofChars_space rfl] at hlexemes
    obtain ⟨body, rest, hclose, hl⟩ := Scan.ofChars_quote (List.cons.inj hlexemes).2.symm
    have hkind : l.kind = .string := Shape.leaf.inj (congrArg Lexeme.shape hl)
    have htext : l.text = String.ofList ('\"' :: (body ++ ['\"'])) := congrArg Lexeme.text hl
    have hdecode := hdenotes.string hkind
    rw [htext, Literal.decode_codePoints_quoted String.toList_ofList] at hdecode
    exact Literal.plain_of_closeQuote htail hclose hdecode

/-- A name between quotes is read back if and only if nothing in it is special in a literal. -/
theorem read_named_iff (word tail : String) (es : List SExpr) (hword : Lexeme.IsAtom word)
    (hcut : Cut (SExpr.forestSymbols es) tail.toList)
    (hdepth : SExpr.forestDepth es ≤ Item.maxNesting) (htail : '\"' ∉ tail.toList) (depth : Nat)
    (name : String) (filename : Option String) :
    (Item.readAll (named depth word name tail) filename).map Item.sexprs =
      .ok (.word word :: .token .string name :: es) ↔ Literal.Plain name := by
  constructor
  · intro h
    cases hread : Item.readAll (named depth word name tail) filename with
    | error e => rw [hread] at h; cases h
    | ok items =>
      rw [hread] at h
      exact plain_of_read hword htail hread (Except.ok.inj h)
  · intro hplain
    have hline : named depth word name tail =
        pad depth ++ (word ++ " " ++ Literal.encode name ++ tail) := by
      rw [← String.toList_inj, toList_named]
      simp [hplain.toList_encode]
    rw [hline]
    exact read_encode hword hcut hdepth depth name filename

/-- The line of a use. -/
theorem use_eq_named (depth : Nat) (path : String) :
    use depth path = [named depth "use" path ""] := by
  rw [named, String.append_empty]
  rfl

/-- The line of an import. -/
theorem moduleImport_eq_named (depth : Nat) (decl : ModuleImport) :
    moduleImport depth decl = [named depth "import" decl.name " (memory)"] := by
  obtain ⟨name, span, type⟩ := decl
  cases type
  refine congrArg (fun text => [text]) ?_
  show pad depth ++ ("import \"" ++ name ++ "\" (" ++ "memory" ++ ")") = _
  rw [← String.toList_inj, toList_named]
  simp

/-- The first line of a function. -/
theorem head?_func (depth : Nat) (decl : InterfaceFunc) :
    (func depth decl).head? = some (named depth "func" decl.exportName "") := by
  rw [named, String.append_empty]
  rfl

/-- The kind of an import is a form behind its name. -/
theorem cut_memory : Cut (SExpr.forestSymbols [.form [.token .keyword "memory"]])
    " (memory)".toList := by
  have hend := Lexeme.ends_atom ')' (by decide) []
  have hword := Cut.word "memory" (by decide) hend (.rightParen .nil)
  have hparen : Lexeme.Stands .leftParen ['('] ("memory".toList ++ [')']) := .leftParen nofun
  exact .space rfl (.symbol .leftParen hparen hword)

/-- The line of a use is read as such if and only if the path is plain. -/
theorem read_use_iff (depth : Nat) (path : String) (filename : Option String) :
    (Item.readAll (named depth "use" path "") filename).map Item.sexprs =
      .ok [.token .keyword "use", .token .string path] ↔ Literal.Plain path :=
  read_named_iff "use" "" [] (by decide) .nil (by decide) (by decide) depth path filename

/-- The line of an import is read as such if and only if the name is plain. -/
theorem read_import_iff (depth : Nat) (name : String) (filename : Option String) :
    (Item.readAll (named depth "import" name " (memory)") filename).map Item.sexprs =
      .ok [.token .keyword "import", .token .string name, .form [.token .keyword "memory"]] ↔
        Literal.Plain name :=
  read_named_iff "import" " (memory)" _ (by decide) cut_memory (by decide) (by decide) depth name
    filename

/-- The first line of a function is read as such if and only if the name is plain. -/
theorem read_func_iff (depth : Nat) (name : String) (filename : Option String) :
    (Item.readAll (named depth "func" name "") filename).map Item.sexprs =
      .ok [.token .keyword "func", .token .string name] ↔ Literal.Plain name :=
  read_named_iff "func" "" [] (by decide) .nil (by decide) (by decide) depth name filename

end Outline

/-! ## Documents -/

namespace Document

variable {d : Document} {line : String}

/-- A path is used by one of the declarations. -/
theorem mem_uses {path : String} (h : path ∈ d.uses) :
    ∃ documented ∈ d.items, documented.item = .use path := by
  obtain ⟨⟨comments, item⟩, hmem, hpath⟩ := mem_pick.1 h
  cases item <;> cases hpath
  exact ⟨_, hmem, rfl⟩

/-- A module is one of the declarations. -/
theorem mem_modules {m : Module} (h : m ∈ d.modules) :
    ∃ documented ∈ d.items, documented.item = .module m := by
  obtain ⟨⟨comments, item⟩, hmem, hmodule⟩ := mem_pick.1 h
  cases item <;> cases hmodule
  exact ⟨_, hmem, rfl⟩

/-- The line of each used file is in the outline of the document. -/
theorem mem_outlineLines_of_use {path : String} (h : path ∈ d.uses)
    (hline : line ∈ Outline.use 0 path) : line ∈ (Node.document d).outlineLines := by
  obtain ⟨documented, hmem, hitem⟩ := mem_uses h
  refine List.mem_flatMap.2 ⟨documented, hmem, List.mem_append_right _ ?_⟩
  rw [hitem]
  exact hline

/-- So are the lines of each declaration inside a module. -/
theorem mem_outlineLines_of_decl {m : Module} (h : m ∈ d.modules) {decl : Documented ModuleDecl}
    (hdecl : decl ∈ m.decls) (hline : line ∈ Outline.moduleDecl 1 decl.item) :
    line ∈ (Node.document d).outlineLines := by
  obtain ⟨documented, hmem, hitem⟩ := mem_modules h
  refine List.mem_flatMap.2 ⟨documented, hmem, List.mem_append_right _ ?_⟩
  rw [hitem]
  exact List.mem_append_right _ (List.mem_flatMap.2 ⟨decl, hdecl, List.mem_append_right _ hline⟩)

/-- An outline has a line for each used file, each import and each function, by itself or in the
outline of the document. The line is read as its keyword and the name, and the kind behind it if it
is an import, if and only if the name holds no quote and no backslash. -/
theorem outline_names (d : Document) (depth : Nat) (filename : Option String) :
    (∀ path ∈ d.uses, ∃ line, Outline.use depth path = [line] ∧
      (depth = 0 → line ∈ (Node.document d).outlineLines) ∧
      ((Item.readAll line filename).map Item.sexprs =
        .ok [.token .keyword "use", .token .string path] ↔ Literal.Plain path)) ∧
    (∀ m ∈ d.modules, ∀ documented ∈ m.decls, ∀ decl, documented.item = .moduleImport decl →
      ∃ line, Outline.moduleImport depth decl = [line] ∧
        (depth = 1 → line ∈ (Node.document d).outlineLines) ∧
        ((Item.readAll line filename).map Item.sexprs =
          .ok [.token .keyword "import", .token .string decl.name,
            .form [.token .keyword "memory"]] ↔ Literal.Plain decl.name)) ∧
    ∀ m ∈ d.modules, ∀ documented ∈ m.decls, ∀ decl, documented.item = .func decl →
      ∃ line, (Outline.func depth decl).head? = some line ∧
        (depth = 1 → line ∈ (Node.document d).outlineLines) ∧
        ((Item.readAll line filename).map Item.sexprs =
          .ok [.token .keyword "func", .token .string decl.exportName] ↔
            Literal.Plain decl.exportName) := by
  refine ⟨fun path hpath => ?_, fun m hm documented hmem decl hitem => ?_,
    fun m hm documented hmem decl hitem => ?_⟩
  · refine ⟨_, Outline.use_eq_named depth path, ?_, Outline.read_use_iff depth path filename⟩
    rintro rfl
    refine mem_outlineLines_of_use hpath ?_
    rw [Outline.use_eq_named]
    exact List.mem_cons_self
  · refine ⟨_, Outline.moduleImport_eq_named depth decl, ?_,
      Outline.read_import_iff depth decl.name filename⟩
    rintro rfl
    refine mem_outlineLines_of_decl hm hmem ?_
    rw [hitem]
    show _ ∈ Outline.moduleImport 1 decl
    rw [Outline.moduleImport_eq_named]
    exact List.mem_cons_self
  · refine ⟨_, Outline.head?_func depth decl, ?_,
      Outline.read_func_iff depth decl.exportName filename⟩
    rintro rfl
    refine mem_outlineLines_of_decl hm hmem ?_
    rw [hitem]
    exact List.mem_of_mem_head? (Outline.head?_func 1 decl)

/-- A used file with a quote in its path. -/
def quotedPath : Document :=
  ⟨[⟨[], .use "a\"b"⟩]⟩

/-- A path with a quote in it, whose line is read as something else. -/
theorem outline_names_quoted_path :
    parse "(use \"a\\\"b\")" none = .ok quotedPath ∧
      (Node.document quotedPath).outline = "use \"a\"b\"" ∧
      (Item.readAll "use \"a\"b\"" none).map Item.sexprs ≠
        .ok [.token .keyword "use", .token .string "a\"b"] := by
  have hparse : parse "(use \"a\\\"b\")" none = .ok quotedPath := by decide +kernel
  have houtline : (Node.document quotedPath).outline = "use \"a\"b\"" := by decide
  refine ⟨hparse, houtline, fun hread => ?_⟩
  obtain ⟨line, hline, -, hplain⟩ :=
    (outline_names quotedPath 0 none).1 "a\"b" List.mem_cons_self
  have hshown : Outline.use 0 "a\"b" = ["use \"a\"b\""] := by decide
  cases hshown.symm.trans hline
  exact (hplain.1 hread).quote (by decide)

end Document

end WitxFrontEnd
