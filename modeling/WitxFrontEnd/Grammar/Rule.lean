import WitxFrontEnd.Cursor
import WitxFrontEnd.Documentation

/-!
# Grammar rules

A rule reads something at a cursor and leaves a later cursor, or fails with the first mistake; it
never goes back. A list of constructs that runs to the end of its form is read by an *entry*, which
turns one item into a construct, and `documented` gives each construct the comments before it. That
this is what a loop over the cursor gathers, turn by turn, is `Entry.ReadBy.loop`.
-/

namespace WitxFrontEnd

/-- A rule that reads an `α`. -/
abbrev Rule (α : Type) := StateT Cursor (Except ParseError) α

namespace Rule

/-- Takes the next item, which has to match. -/
def step (pattern : Pattern) : Rule Item :=
  fun c => c.step pattern

/-- Takes the next item, which has to be the given keyword. -/
def keyword (word : String) : Rule Unit := do
  let _ ← step (.keyword word)

/-- Takes the next item, which has to be the given reserved word. -/
def reserved (word : String) : Rule Unit := do
  let _ ← step (.reserved word)

/-- Whether the next item matches. -/
def peek (pattern : Pattern) : Rule Bool :=
  fun c => .ok (c.peek pattern, c)

/-- Whether the token after the next one matches. -/
def peekSecond (pattern : Pattern) : Rule Bool :=
  fun c => .ok (c.peekSecond pattern, c)

/-- Goes on with the first branch whose pattern the next item matches, which it leaves in place. If
none does, all patterns are what was expected. Reference: `Lookahead`. -/
def choose {α : Type} (branches : List (Pattern × Rule α)) : Rule α :=
  fun c =>
    match branches.find? fun branch => c.peek branch.1 with
    | some (_, rule) => rule c
    | none => .error (c.error (.expected (branches.map Prod.fst)))

/-- Reads the next item, which has to be a form, with a rule that has to use it up. Reference:
`Parser.parens`. -/
def inForm {α : Type} (rule : Rule α) : Rule α :=
  fun c => c.inForm fun inner _ => rule inner

end Rule

/-! ## Lists of constructs -/

/-- What reads a construct from one item. -/
abbrev Entry (α : Type) := Item → Except ParseError α

namespace Entry

/-- A form, read with a rule that has to use it up. Reference: `Parser.parens`. -/
def form {α : Type} (rule : Rule α) : Entry α
  | .token t => .error ⟨.expected [.leftParen], some t.span⟩
  | .form items _ closing => Cursor.toEnd .expectedClose (rule ⟨items, closing⟩)

/-- The constructs that items hold, each with the comments right before it. The comments given
stand before the first of the items. Comments behind the last construct belong to nothing. -/
def documentedFrom {α : Type} (entry : Entry α) :
    List String → List Item → Except ParseError (List (Documented α))
  | _, [] => .ok []
  | comments, item :: rest =>
    match item.comment? with
    | some comment => documentedFrom entry (comments ++ [comment]) rest
    | none => do
      let construct ← entry item
      let more ← documentedFrom entry [] rest
      return ⟨comments, construct⟩ :: more

end Entry

namespace Rule

/-- The constructs up to the end of the form, each with the comments right before it. Reference:
`_documented`. -/
def documented {α : Type} (entry : Entry α) : Rule (List (Documented α)) :=
  fun c => do
    let constructs ← entry.documentedFrom [] c.items
    return (constructs, { c with items := [] })

/-- As `documented`, for a form that has to hold at least one construct more. Reference:
`_one_or_more`. -/
def documentedSome {α : Type} (what : Constituent) (entry : Entry α) :
    Rule (List (Documented α)) :=
  fun c => if c.isEmpty then .error (c.error (.expectedSome what)) else documented entry c

end Rule

end WitxFrontEnd
