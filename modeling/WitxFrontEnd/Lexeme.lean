import WitxFrontEnd.Position

/-!
# Lexemes

A lexeme is a paren, a string literal, an atom or a comment as it stands in the source, and
`scan` cuts a text into them. `munch` takes the lexeme at the front of a text; it loses nothing
and never takes nothing (`munch_append`, `munch_ne_nil`), which is what `scan` recurses on.

A block comment wins over a paren wherever its end follows, even when that end belongs to a later
comment. A paren before a semicolon is a paren only if no `;)` comes after it.
-/

namespace WitxFrontEnd

/-- The four kinds of lexemes other than parens. -/
inductive LeafKind where
  | string
  | atom
  | lineComment
  | blockComment
deriving DecidableEq, Repr

/-- A lexeme other than a paren: its text as written, and where it begins. -/
structure Leaf where
  kind : LeafKind
  text : String
  pos : Position
deriving DecidableEq, Repr

/-- What a lexeme is. -/
inductive Shape where
  | leftParen
  | rightParen
  | leaf (kind : LeafKind)
deriving DecidableEq, Repr

/-- A lexeme: its text as written, and where it begins. -/
structure Lexeme where
  shape : Shape
  text : String
  pos : Position
deriving DecidableEq, Repr

namespace Lexeme

/-! ## Character classes -/

/-- The white space that may stand between lexemes. -/
def isSpace (c : Char) : Bool :=
  c == ' ' || c == '\t' || c == '\x0c' || c == '\r' || c == '\n'

/-- The characters of which atoms are made. -/
def isAtomChar (c : Char) : Bool :=
  c.isAlphanum || "!#$%&'*+-./:<=>?@\\^_`|~".toList.contains c

/-! ## The ends of strings and comments -/

/-- The text up to the first quote that no backslash precedes, and what is behind that quote. A
backslash takes the character after it along, whichever it is. -/
def closeQuote : List Char → Option (List Char × List Char)
  | [] => none
  | '\"' :: rest => some ([], rest)
  | ['\\'] => none
  | '\\' :: c :: rest => (closeQuote rest).map fun (body, rest) => ('\\' :: c :: body, rest)
  | c :: rest => (closeQuote rest).map fun (body, rest) => (c :: body, rest)

/-- The text up to the first end of a block comment, and what is behind that end. -/
def closeComment : List Char → Option (List Char × List Char)
  | [] => none
  | ';' :: ')' :: rest => some ([], rest)
  | c :: rest => (closeComment rest).map fun (body, rest) => (c :: body, rest)

/-- A string ends at its closing quote. -/
theorem closeQuote_append {cs body rest : List Char} (h : closeQuote cs = some (body, rest)) :
    body ++ '\"' :: rest = cs := by
  fun_induction closeQuote cs generalizing body with
  | case1 | case3 => cases h
  | case2 r => cases h; rfl
  | case4 c r ih | case5 c r _ _ _ ih =>
    obtain ⟨⟨b, s⟩, hb, e⟩ := Option.map_eq_some_iff.1 h
    cases e
    simp [ih hb]

/-- A block comment ends at its closing mark. -/
theorem closeComment_append {cs body rest : List Char} (h : closeComment cs = some (body, rest)) :
    body ++ ';' :: ')' :: rest = cs := by
  fun_induction closeComment cs generalizing body with
  | case1 => cases h
  | case2 r => cases h; rfl
  | case3 c r _ ih =>
    obtain ⟨⟨b, s⟩, hb, e⟩ := Option.map_eq_some_iff.1 h
    cases e
    simp [ih hb]

/-! ## One lexeme -/

/-- The lexeme at the front of a text, as its shape, its characters and the rest. None if the
text starts with white space or with a character that starts no lexeme. -/
def munch : List Char → Option (Shape × List Char × List Char)
  | '(' :: ';' :: rest =>
    match closeComment rest with
    | some (body, rest) =>
      some (.leaf .blockComment, '(' :: ';' :: (body ++ [';', ')']), rest)
    | none => some (.leftParen, ['('], ';' :: rest)
  | '(' :: rest => some (.leftParen, ['('], rest)
  | ')' :: rest => some (.rightParen, [')'], rest)
  | '\"' :: rest =>
    (closeQuote rest).map fun (body, rest) => (.leaf .string, '\"' :: (body ++ ['\"']), rest)
  | ';' :: ';' :: rest =>
    some (.leaf .lineComment, ';' :: ';' :: rest.takeWhile (· != '\n'), rest.dropWhile (· != '\n'))
  | c :: rest =>
    if isAtomChar c then
      some (.leaf .atom, c :: rest.takeWhile isAtomChar, rest.dropWhile isAtomChar)
    else none
  | [] => none

/-- A lexeme's characters and the rest are the text it was taken from. -/
theorem munch_append {cs text rest : List Char} {shape : Shape}
    (h : munch cs = some (shape, text, rest)) : text ++ rest = cs := by
  unfold munch at h
  split at h
  · split at h <;> cases h
    · next hc => simp [← closeComment_append hc]
    · rfl
  · cases h; rfl
  · cases h; rfl
  · obtain ⟨⟨b, s⟩, hb, e⟩ := Option.map_eq_some_iff.1 h
    cases e
    simp [← closeQuote_append hb]
  · cases h; simp [List.takeWhile_append_dropWhile]
  · split at h <;> cases h
    simp [List.takeWhile_append_dropWhile]
  · cases h

/-- A lexeme has at least one character. -/
theorem munch_ne_nil {cs text rest : List Char} {shape : Shape}
    (h : munch cs = some (shape, text, rest)) : text ≠ [] := by
  unfold munch at h
  split at h
  · split at h <;> cases h <;> simp
  · cases h; simp
  · cases h; simp
  · obtain ⟨⟨b, s⟩, _, e⟩ := Option.map_eq_some_iff.1 h
    cases e
    simp
  · cases h; simp
  · split at h <;> cases h
    simp
  · cases h

/-- Taking a lexeme leaves less. -/
theorem length_munch_lt {cs text rest : List Char} {shape : Shape}
    (h : munch cs = some (shape, text, rest)) : rest.length < cs.length := by
  have hlen := congrArg List.length (munch_append h)
  have hpos := List.length_pos_iff.2 (munch_ne_nil h)
  rw [List.length_append] at hlen
  omega

end Lexeme

/-! ## A whole text -/

/-- What scanning a text finds: its lexemes in order, and the character with its position at which
no lexeme starts, if there is one. Nothing behind that character is looked at. -/
structure Scan where
  lexemes : List Lexeme
  stuck : Option (Position × Char)
deriving Repr

namespace Scan

/-- The scan of a text that begins at the given position. -/
def ofChars (p : Position) : List Char → Scan
  | [] => ⟨[], none⟩
  | c :: cs =>
    if Lexeme.isSpace c then ofChars (p.next c) cs
    else
      match _ : Lexeme.munch (c :: cs) with
      | none => ⟨[], some (p, c)⟩
      | some (shape, text, rest) =>
        let more := ofChars (p.advance text) rest
        ⟨⟨shape, String.ofList text, p⟩ :: more.lexemes, more.stuck⟩
termination_by cs => cs.length
decreasing_by
  · simp
  · exact Lexeme.length_munch_lt ‹_›

/-- The scan of a source. -/
def ofSource (source : String) : Scan :=
  ofChars .start source.toList

end Scan

end WitxFrontEnd
