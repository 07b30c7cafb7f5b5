/-!
# Patterns

What a grammar rule may ask of the next item of the source. A pattern's `display` is how an error
message speaks of it.
-/

namespace WitxFrontEnd

/-- What the next item is expected to be: a form, an identifier, a string, or one certain word. -/
inductive Pattern where
  | leftParen
  | identifier
  | string
  | keyword (word : String)
  | reserved (word : String)
deriving DecidableEq, Repr

/-- The pattern's name in a message. -/
def Pattern.display : Pattern → String
  | .leftParen => "`(`"
  | .identifier => "an identifier"
  | .string => "a string"
  | .keyword word => "`" ++ word ++ "`"
  | .reserved word => "`" ++ word ++ "`"

end WitxFrontEnd
