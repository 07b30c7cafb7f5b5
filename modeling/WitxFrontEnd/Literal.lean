import WitxFrontEnd.ParseError
import WitxFrontEnd.Text.CodePoint

/-!
# String literals

The text between the quotes of a literal is a run of units, and each unit spells a few bytes: a
raw character its UTF-8 encoding, a named escape and a two-digit escape one byte, a code point
escape the encoding of that code point. The bytes of all units together have to be UTF-8, and the
text that they encode is what the literal denotes. Nothing asks a single unit to spell a whole
character. `encode` goes the other way and picks one literal for a text.
-/

namespace WitxFrontEnd.Literal

/-- One unit of a literal. -/
inductive StringUnit where
  /-- A character that stands for itself. -/
  | raw (c : Char)
  /-- A backslash and the letter or sign of a control character, quote or backslash. -/
  | named (c : Char) (b : UInt8)
  /-- A backslash and two hexadecimal digits. -/
  | byte (b : UInt8)
  /-- A backslash, a `u`, and hexadecimal digits in braces. -/
  | codePoint (c : Char)
deriving DecidableEq, Repr

/-- The bytes that a unit spells. -/
def StringUnit.bytes : StringUnit → List UInt8
  | .raw c => String.utf8EncodeChar c
  | .named _ b => [b]
  | .byte b => [b]
  | .codePoint c => String.utf8EncodeChar c

/-- A hexadecimal digit, in either case. -/
def isHexDigit (c : Char) : Bool :=
  c.isDigit || ('a' ≤ c && c ≤ 'f') || ('A' ≤ c && c ≤ 'F')

/-- The value of a hexadecimal digit. -/
def hexValue (c : Char) : Nat :=
  if c.isDigit then c.toNat - '0'.toNat
  else if 'a' ≤ c then c.toNat - 'a'.toNat + 10
  else c.toNat - 'A'.toNat + 10

/-- The number that hexadecimal digits write. -/
def hexNumber (digits : List Char) : Nat :=
  digits.foldl (fun n c => 16 * n + hexValue c) 0

/-- The byte that a named escape stands for. Reference: `_ESCAPES`. -/
def namedEscape? : Char → Option UInt8
  | 't' => some 0x09
  | 'n' => some 0x0A
  | 'r' => some 0x0D
  | '\"' => some 0x22
  | '\'' => some 0x27
  | '\\' => some 0x5C
  | _ => none

/-- The code point escape whose backslash and `u` have been read, and what is behind it. -/
def codePoint (cs : List Char) : Except LiteralFault (StringUnit × List Char) :=
  match cs with
  | '\x7b' :: rest =>
    let digits := rest.takeWhile isHexDigit
    match digits, rest.dropWhile isHexDigit with
    | _ :: _, '\x7d' :: rest =>
      if (hexNumber digits).isValidChar then .ok (.codePoint (Char.ofNat (hexNumber digits)), rest)
      else .error .scalarValue
    | _, _ => .error .unicodeEscape
  | _ => .error .unicodeEscape

/-- The escape whose backslash has been read, and what is behind it. Reference: `_decode_string`. -/
def escape : List Char → Except LiteralFault (StringUnit × List Char)
  | [] => .error .dangling
  | c :: rest =>
    match namedEscape? c with
    | some byte => .ok (.named c byte, rest)
    | none =>
      if c == 'u' then codePoint rest
      else
        match rest with
        | d :: rest =>
          if isHexDigit c && isHexDigit d then .ok (.byte (UInt8.ofNat (hexNumber [c, d])), rest)
          else .error (.unknownEscape c)
        | [] => .error (.unknownEscape c)

/-- An escape has at least one character. -/
theorem length_escape_lt {cs rest : List Char} {unit : StringUnit}
    (h : escape cs = .ok (unit, rest)) : rest.length < cs.length := by
  unfold escape at h
  split at h
  · cases h
  · next c cs =>
    split at h
    · cases h; simp
    · split at h
      · unfold codePoint at h
        split at h
        · next tail =>
          dsimp only at h
          split at h
          · next _ _ _ _ hd =>
            have hle := (List.dropWhile_suffix isHexDigit (l := tail)).length_le
            rw [hd] at hle
            split at h <;> cases h
            simp only [List.length_cons] at hle ⊢
            omega
          · cases h
        · cases h
      · split at h
        · split at h <;> cases h
          simp only [List.length_cons]
          omega
        · cases h

/-- The units of the code points between the quotes. The leftmost code point that begins no unit is
the one reported. Escapes are of ASCII characters, so where one ends does not depend on how
surrogates are shown. Reference: the loop of `_decode_string`. -/
def units : List CodePoint → Except LiteralFault (List StringUnit)
  | [] => .ok []
  | .surrogate half :: _ => .error (.surrogate half)
  | .char '\\' :: rest =>
    match escape (rest.map CodePoint.shown) with
    | .error fault => .error fault
    | .ok (unit, behind) => (units (rest.drop (rest.length - behind.length))).map (unit :: ·)
  | .char c :: rest => (units rest).map (.raw c :: ·)
termination_by body => body.length
decreasing_by
  · simp only [List.length_drop, List.length_cons]
    omega
  · simp

/-- The bytes that the units spell one after the other. -/
def bytes (units : List StringUnit) : ByteArray :=
  (units.flatMap StringUnit.bytes).toByteArray

/-- The text that a literal denotes, given the code points between its quotes. -/
def decodeBody (body : List CodePoint) : Except LiteralFault String :=
  match units body with
  | .error fault => .error fault
  | .ok units =>
    match String.fromUTF8? (bytes units) with
    | some text => .ok text
    | none => .error .encoding

/-- The text that a literal denotes, given the literal with its quotes. Reference:
`_decode_string`. -/
def decode (literal : List CodePoint) : Except LiteralFault String :=
  decodeBody (literal.drop 1).dropLast

/-- A literal that denotes the given text: every quote and backslash escaped, all else raw. -/
def encode (text : String) : String :=
  String.ofList ('\"' ::
    (text.toList.flatMap (fun c => if c == '\\' || c == '\"' then ['\\', c] else [c]) ++ ['\"']))

end WitxFrontEnd.Literal
