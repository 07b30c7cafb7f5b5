import WitxFrontEnd.Item
import WitxFrontEnd.Proofs.Munch
import WitxFrontEnd.Proofs.Spelling

/-!
# Trees without places

An `SExpr` is an item of which only the nesting, the kinds and the texts are left, and a `Symbol` is
what stands between two gaps when it is printed: a paren or a token. `Symbol.Written` says with
which characters a symbol is written. A token other than a string is written as its text, and the
text then makes out its kind; a string is written as any spelling of it between quotes.
`Written.stands` is the fact about one symbol on which reading rests: a gap behind what is written
is enough for it to be cut off there.
-/

namespace WitxFrontEnd

/-- A token or a form, without spans. -/
inductive SExpr where
  | token (kind : TokenKind) (text : String)
  | form (items : List SExpr)
deriving Repr

/-- A paren or a token. -/
inductive Symbol where
  | leftParen
  | rightParen
  | token (kind : TokenKind) (text : String)
deriving DecidableEq, Repr

namespace SExpr

mutual

/-- The symbols of a tree, from left to right. -/
def symbols : SExpr → List Symbol
  | .token kind text => [.token kind text]
  | .form items => .leftParen :: (forestSymbols items ++ [.rightParen])

/-- The symbols of some trees, from left to right. -/
def forestSymbols : List SExpr → List Symbol
  | [] => []
  | e :: rest => e.symbols ++ forestSymbols rest

end

mutual

/-- How many forms stand around each other at most. -/
def depth : SExpr → Nat
  | .token .. => 0
  | .form items => forestDepth items + 1

/-- As `depth`, over some trees. -/
def forestDepth : List SExpr → Nat
  | [] => 0
  | e :: rest => max e.depth (forestDepth rest)

end

end SExpr

namespace Item

mutual

/-- The item without its spans. -/
def sexpr : Item → SExpr
  | .token t => .token t.kind t.text
  | .form items _ _ => .form (sexprs items)

/-- The items without their spans. -/
def sexprs : List Item → List SExpr
  | [] => []
  | i :: rest => i.sexpr :: sexprs rest

end

end Item

/-! ## Written symbols -/

/-- The kind of lexeme that a kind of token is cut from. -/
def TokenKind.leafKind : TokenKind → LeafKind
  | .string => .string
  | .identifier | .keyword | .reserved => .atom
  | .lineComment => .lineComment
  | .blockComment => .blockComment

/-- The kind of an atom is one that is cut from atoms. -/
theorem TokenKind.leafKind_ofAtom (text : String) : (ofAtom text).leafKind = .atom := by
  unfold ofAtom
  split
  · rfl
  · split <;> rfl
  · rfl

namespace Symbol

open Lexeme (isSpace isAtomChar Stands)

/-- The shape of the lexeme that a symbol is cut from. -/
def shape : Symbol → Shape
  | .leftParen => .leftParen
  | .rightParen => .rightParen
  | .token kind _ => .leaf kind.leafKind

/-- The symbol may be written with the characters. -/
inductive Written : Symbol → List Char → Prop
  | leftParen : Written .leftParen ['(']
  | rightParen : Written .rightParen [')']
  | identifier {c : Char} {cs : List Char} (hatom : ∀ x ∈ c :: cs, isAtomChar x = true) :
      Written (.token .identifier (String.ofList ('$' :: c :: cs))) ('$' :: c :: cs)
  | keyword {c : Char} {cs : List Char} (hatom : ∀ x ∈ c :: cs, isAtomChar x = true)
      (hsmall : 'a' ≤ c ∧ c ≤ 'z') : Written (.token .keyword (String.ofList (c :: cs))) (c :: cs)
  | reserved {c : Char} {cs : List Char} (hatom : ∀ x ∈ c :: cs, isAtomChar x = true)
      (hsmall : ¬('a' ≤ c ∧ c ≤ 'z')) (hdollar : c = '$' → cs = []) :
      Written (.token .reserved (String.ofList (c :: cs))) (c :: cs)
  | string {text : String} {body : List Char}
      (hbody : Literal.Spells body (text.toList.flatMap String.utf8EncodeChar)) :
      Written (.token .string text) ('\"' :: (body ++ ['\"']))
  | lineComment {text : List Char} (htext : '\n' ∉ text) :
      Written (.token .lineComment (String.ofList (';' :: ';' :: text))) (';' :: ';' :: text)
  | blockComment {body : List Char}
      (hbody : ∀ before behind, body ++ [';', ')'] = before ++ ';' :: ')' :: behind → behind = []) :
      Written (.token .blockComment (String.ofList ('(' :: ';' :: (body ++ [';', ')']))))
        ('(' :: ';' :: (body ++ [';', ')']))

/-- What may stand right behind a symbol: nothing or white space, and behind a line comment
nothing or the end of the line. -/
def Parted (s : Symbol) (rest : List Char) : Prop :=
  ∀ x ∈ rest.head?, isSpace x = true ∧ (s.shape = .leaf .lineComment → x = '\n')

theorem Parted.isAtomChar {s : Symbol} {rest : List Char} (h : s.Parted rest) :
    ∀ x ∈ rest.head?, isAtomChar x = false := by
  intro x hx
  by_contra hatom
  rw [Bool.not_eq_false] at hatom
  have hspace := Lexeme.isSpace_eq_false_of_isAtomChar hatom
  rw [(h x hx).1] at hspace
  cases hspace

/-- What is written stands as a lexeme where the symbol is parted from the rest. -/
theorem Written.stands {s : Symbol} {text rest : List Char} (h : s.Written text)
    (hrest : s.Parted rest) : Stands s.shape text rest := by
  cases h with
  | leftParen =>
    refine .leftParen fun cs hcs => ?_
    have hspace := (hrest ';' (by rw [hcs]; rfl)).1
    cases hspace
  | rightParen => exact .rightParen
  | @identifier c cs hatom =>
    refine .atom (fun x hx => ?_) hrest.isAtomChar
    rcases List.mem_cons.1 hx with rfl | hx
    · decide
    · exact hatom x hx
  | keyword hatom => exact .atom hatom hrest.isAtomChar
  | reserved hatom => exact .atom hatom hrest.isAtomChar
  | string hbody => exact .string (Literal.closeQuote_of_spells hbody)
  | lineComment htext => exact .lineComment htext fun x hx => (hrest x hx).2 rfl
  | blockComment hbody => exact .blockComment (Lexeme.closeComment_body hbody)

/-! ## Tokens of written symbols -/

/-- The lexeme is the symbol as written. -/
structure WrittenAs (s : Symbol) (l : Lexeme) : Prop where
  shape : l.shape = s.shape
  text : s.Written l.text.toList

/-- The kind of an atom is the kind whose texts it is one of. -/
theorem Written.ofAtom {kind : TokenKind} {text : String} {cs : List Char}
    (h : (Symbol.token kind text).Written cs) (hkind : kind.leafKind = .atom) :
    TokenKind.ofAtom (String.ofList cs) = kind ∧ String.ofList cs = text := by
  cases h with
  | identifier hatom =>
    refine ⟨?_, rfl⟩
    unfold TokenKind.ofAtom
    rw [String.toList_ofList]
    rfl
  | @keyword c cs hatom hsmall =>
    refine ⟨?_, rfl⟩
    unfold TokenKind.ofAtom
    rw [String.toList_ofList]
    split
    · next h => cases h; exact absurd hsmall (by decide)
    · next h => cases h; rw [if_pos (by simpa using hsmall)]
    · next h => cases h
  | @reserved c cs hatom hsmall hdollar =>
    refine ⟨?_, rfl⟩
    unfold TokenKind.ofAtom
    rw [String.toList_ofList]
    split
    · next h => cases h; cases hdollar rfl
    · next h => cases h; rw [if_neg (by simpa using hsmall)]
    · next h => cases h
  | string | lineComment | blockComment => cases hkind

/-- A token's leaf is read as the token. -/
theorem Written.ofLeaf {kind : TokenKind} {text : String} {l : Leaf} (filename : Option String)
    (h : (Symbol.token kind text).Written l.text.toList) (hkind : l.kind = kind.leafKind) :
    Token.ofLeaf filename l = .ok ⟨kind, text, l.pos.span filename⟩ := by
  obtain ⟨leafKind, written, pos⟩ := l
  subst hkind
  by_cases hatom : kind.leafKind = .atom
  · obtain ⟨hkind, htext⟩ := h.ofAtom hatom
    rw [String.ofList_toList] at hkind htext
    subst htext
    rw [hatom]
    show Except.ok (Token.mk (.ofAtom written) written _) = _
    rw [hkind]
  · generalize hcs : written.toList = cs at h
    have hwritten : String.ofList cs = written := by rw [← hcs, String.ofList_toList]
    cases h with
    | identifier | keyword | reserved => exact absurd rfl hatom
    | @string text body hbody =>
      have hdecode : Literal.decode (codePoints written) = .ok text := by
        rw [Literal.decode_codePoints_quoted hcs]
        exact Literal.decodeBody_of_spells hbody
      unfold Token.ofLeaf Token.ofLeafAs
      dsimp only [TokenKind.leafKind]
      rw [hdecode]
    | lineComment => rw [hwritten]; rfl
    | blockComment => rw [hwritten]; rfl

/-- Every atom is a token of some kind. -/
theorem written_atom {cs : List Char} (hne : cs ≠ []) (hatom : ∀ x ∈ cs, isAtomChar x = true) :
    (Symbol.token (.ofAtom (String.ofList cs)) (String.ofList cs)).Written cs := by
  obtain ⟨c, cs, rfl⟩ := List.exists_cons_of_ne_nil hne
  by_cases hsmall : 'a' ≤ c ∧ c ≤ 'z'
  · have h := Written.keyword hatom hsmall
    rwa [(h.ofAtom rfl).1]
  · by_cases hdollar : c = '$' → cs = []
    · have h := Written.reserved hatom hsmall hdollar
      rwa [(h.ofAtom rfl).1]
    · obtain ⟨rfl, hcs⟩ := Classical.not_imp.1 hdollar
      obtain ⟨d, cs, rfl⟩ := List.exists_cons_of_ne_nil hcs
      have h := Written.identifier fun x hx => hatom x (List.mem_cons_of_mem _ hx)
      rwa [(h.ofAtom rfl).1]

end Symbol

end WitxFrontEnd
