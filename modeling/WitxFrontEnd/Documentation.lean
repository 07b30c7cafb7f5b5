import WitxFrontEnd.Text.Blank
import WitxFrontEnd.Text.Lines

/-!
# Documentation

A construct is documented by the comments right before it. Of these only doc comments count: what
such a comment says begins with one more semicolon. `docs` takes the least indentation among the
doc comments off all of them and ends each with a line feed. A comment is one unit here, also when
it runs over several lines: its first line alone is measured and cut.
-/

namespace WitxFrontEnd

/-- A construct with the comments before it, in order and without their marks. Reference:
`Documented`. -/
structure Documented (α : Type) where
  comments : List String
  item : α
deriving DecidableEq, Repr, BEq, Hashable

namespace Documentation

/-- The texts of the doc comments, without the semicolon that marks them and without the blanks at
their ends. -/
def docTexts (comments : List String) : List (List Char) :=
  comments.filterMap fun comment =>
    match Text.trimRight comment.toList with
    | ';' :: text => some text
    | _ => none

/-- The least indentation among the texts that are not empty, and zero if all are. -/
def margin (texts : List (List Char)) : Nat :=
  ((texts.filter fun text => !text.isEmpty).map Text.indentation).min?.getD 0

/-- The documentation that comments hold: each text without the common indentation and ended by a
line feed. Reference: `CommentSyntax.docs`. -/
def docs (comments : List String) : String :=
  let texts := docTexts comments
  String.ofList (texts.flatMap fun text => Text.trimRight (text.drop (margin texts)) ++ ['\n'])

/-- The lines of the documentation that comments hold. -/
def docLines (comments : List String) : List (List Char) :=
  Text.splitLines (docs comments).toList

end Documentation

/-- The documentation of a construct. Reference: `Documented.docs`. -/
def Documented.docs {α : Type} (documented : Documented α) : String :=
  Documentation.docs documented.comments

end WitxFrontEnd
