/-!
# Lines of a text

`splitLines` cuts a text at every line break of Unicode, and a carriage return that a line feed
follows is one break together with it. `unifyNewlines` is what reading a file does: every
carriage return, alone or before a line feed, becomes one line feed. Positions count line feeds
only and have nothing to do with either.
-/

namespace WitxFrontEnd.Text

/-- A character at which `splitLines` cuts. -/
def isLineBreak (c : Char) : Bool :=
  let n := c.toNat
  (0x0A ≤ n && n ≤ 0x0D) || (0x1C ≤ n && n ≤ 0x1E) || n == 0x85 || n == 0x2028 || n == 0x2029

/-- The lines of a text without their breaks. A break at the very end starts no further line. -/
def splitLines : List Char → List (List Char)
  | [] => []
  | '\r' :: '\n' :: rest => [] :: splitLines rest
  | c :: rest =>
    if isLineBreak c then [] :: splitLines rest
    else
      match splitLines rest with
      | [] => [[c]]
      | line :: lines => (c :: line) :: lines

/-- The text with each carriage return, and the line feed after it if there is one, written as a
line feed. -/
def unifyNewlines : List Char → List Char
  | [] => []
  | '\r' :: '\n' :: rest => '\n' :: unifyNewlines rest
  | c :: rest => (if c == '\r' then '\n' else c) :: unifyNewlines rest

end WitxFrontEnd.Text
