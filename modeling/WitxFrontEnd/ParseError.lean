import WitxFrontEnd.Pattern
import WitxFrontEnd.Position
import WitxFrontEnd.Text.Blank
import WitxFrontEnd.Text.Lines
import WitxFrontEnd.Text.Quoted

/-!
# Parse errors

Reading stops at the first mistake. A `ParseError` holds its cause and where it is; the wording is
in `Cause.message` alone. `report` shows an error together with the source line it points into.

Two of the causes are no mistakes that a reader reports but failures of its own (`ErrorKind`): a
literal whose last character is a backslash, and a literal with a raw code point in it that has no
encoding. No source that is a `String` leads to either (`Item.kind_of_readAll_error`).
-/

namespace WitxFrontEnd

/-- What an error counts as. -/
inductive ErrorKind where
  /-- A mistake in the source. -/
  | parse
  /-- A position behind the end of a text was asked for. -/
  | outOfRange
  /-- A code point was to be encoded that has no encoding. -/
  | unencodable
deriving DecidableEq, Repr

/-- Why a string literal is not decoded. Reference: `_decode_string`. -/
inductive LiteralFault where
  /-- A `u` escape that is not a brace, hexadecimal digits and a closing brace. -/
  | unicodeEscape
  /-- A `u` escape whose number is no Unicode scalar value. -/
  | scalarValue
  /-- A backslash before a character that starts no escape. -/
  | unknownEscape (c : Char)
  /-- Escapes that spell bytes which are not UTF-8. -/
  | encoding
  /-- A backslash with nothing behind it. No scanned literal ends so. -/
  | dangling
  /-- A raw surrogate without its other half. -/
  | surrogate (half : Fin 0x800)
deriving DecidableEq, Repr

/-- What a literal's fault counts as. -/
def LiteralFault.kind : LiteralFault → ErrorKind
  | .unicodeEscape | .scalarValue | .unknownEscape _ | .encoding => .parse
  | .dangling => .outOfRange
  | .surrogate _ => .unencodable

/-- The wording of a literal's fault. For the last two it is that of the operation which fails: the
look behind the end of a text, and the encoding of a code point. -/
def LiteralFault.message : LiteralFault → String
  | .unicodeEscape => "invalid unicode escape"
  | .scalarValue => "invalid unicode scalar value"
  | .unknownEscape c => "invalid string escape '\\" ++ c.toString ++ "'"
  | .encoding => "malformed UTF-8 encoding"
  | .dangling => "string index out of range"
  | .surrogate half =>
    "'utf-8' codec can't encode character '\\u" ++
      String.ofList (Text.hexDigits 4 (0xD800 + half)) ++
      "' in position 0: surrogates not allowed"

/-- The things that a form may have to hold at least one of. -/
inductive Constituent where
  | member
  | field
deriving DecidableEq, Repr

/-- The constituent's name in a message. -/
def Constituent.display : Constituent → String
  | .member => "member"
  | .field => "field"

/-- Why reading stopped. -/
inductive Cause where
  /-- A character that starts no token. -/
  | unexpectedCharacter (c : Char)
  /-- A closing paren that no paren opened. -/
  | strayClose
  /-- The source ends inside a form. -/
  | unclosedForm
  /-- A string literal that denotes no text. -/
  | literal (fault : LiteralFault)
  /-- A form inside too many others. -/
  | nestingTooDeep
  /-- None of the patterns that could go on from here. -/
  | expected (alternatives : List Pattern)
  /-- A form that goes on where it should end. -/
  | expectedClose
  /-- A source that goes on where it should end. -/
  | expectedEnd
  /-- A form that ends where something has to stand. -/
  | expectedSome (what : Constituent)
  /-- A caller's own words. -/
  | other (message : String)
deriving DecidableEq, Repr

/-- The wording of a cause. A choice of several patterns, or of none, is worded as a list. -/
def Cause.message : Cause → String
  | .unexpectedCharacter c => "unexpected character " ++ String.ofList (Text.quoted [c])
  | .strayClose => "unexpected `)`"
  | .unclosedForm => "unexpected end of input, expected `)`"
  | .literal fault => fault.message
  | .nestingTooDeep => "item nesting too deep"
  | .expected [pattern] => "expected " ++ pattern.display
  | .expected patterns =>
    "unexpected token, expected one of: " ++ String.intercalate ", " (patterns.map Pattern.display)
  | .expectedClose => "expected `)`"
  | .expectedEnd => "expected end of input"
  | .expectedSome what => "unexpected end of form, expected at least one " ++ what.display
  | .other message => message

/-- What a cause counts as. Only a literal's fault may be no mistake in the source. -/
def Cause.kind : Cause → ErrorKind
  | .literal fault => fault.kind
  | _ => .parse

/-- A mistake in a source, and where it is. Reference: `ParseError`. -/
structure ParseError where
  cause : Cause
  span : Option Span
deriving DecidableEq, Repr

namespace ParseError

/-- What the error says, without its place. -/
def message (e : ParseError) : String := e.cause.message

/-- What the error counts as. -/
def kind (e : ParseError) : ErrorKind := e.cause.kind

/-- The error's place, if it has one, and what it says. -/
def toString (e : ParseError) : String :=
  match e.span with
  | none => e.message
  | some span => span.toString ++ ": " ++ e.message

instance : ToString ParseError := ⟨toString⟩

/-- The line of the source that a span points into, and below it a caret under the span's column.
A span that lies on no line shows nothing. -/
def excerpt (span : Span) (source : String) : List String :=
  if span.line < 1 then []
  else
    match (Text.splitLines source.toList)[(span.line - 1).toNat]? with
    | none => []
    | some line =>
      ["  | " ++ String.ofList (Text.trimRight line),
        "  | " ++ String.ofList (List.replicate (span.column - 1).toNat ' ') ++ "^"]

/-- The error as the command line shows it, over the source it was found in. Reference:
`ParseError.render`. -/
def report (e : ParseError) (source : String) : String :=
  String.intercalate "\n"
    (("error: " ++ e.toString) ::
      match e.span with
      | none => []
      | some span => excerpt span source)

end ParseError

end WitxFrontEnd
