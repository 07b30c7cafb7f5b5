/-!
# Code points

A text that is handed over in memory is a run of code points, and not each of them has to be a
character: one half of a surrogate pair may stand there by itself. Such a code point has no
encoding. What scans a text takes it for any other character outside of ASCII, and so is it
shown, as U+FFFD.
-/

namespace WitxFrontEnd

/-- An element of a text in memory: a character, or a surrogate without its other half. -/
inductive CodePoint where
  | char (c : Char)
  /-- The code point that lies so far behind U+D800. -/
  | surrogate (half : Fin 0x800)
deriving DecidableEq, Repr

/-- The character that a code point is scanned and shown as. -/
def CodePoint.shown : CodePoint → Char
  | .char c => c
  | .surrogate _ => '\ufffd'

/-- The code points of a text that holds characters only. -/
def codePoints (text : String) : List CodePoint :=
  text.toList.map .char

/-- The text that code points are scanned and shown as. -/
def shownText (source : List CodePoint) : String :=
  String.ofList (source.map CodePoint.shown)

/-- Characters are shown as they are. -/
theorem map_shown_char (cs : List Char) : (cs.map CodePoint.char).map CodePoint.shown = cs := by
  rw [List.map_map]
  exact List.map_id cs

end WitxFrontEnd
