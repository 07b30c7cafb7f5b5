import WitxFrontEnd.Cursor

/-!
# Scripts of cursor operations

A script is a run of cursor operations as data. Each frame, that is the source and each form that a
`form` command enters, has a cursor of its own and a list of the patterns it has looked ahead
for. The outermost frame goes on after a command that fails. An inner frame goes on only if the
command is marked as caught; otherwise the mistake is passed to the `form` around it.
-/

namespace WitxFrontEnd.Script

/-- What a command does, apart from entering a form. -/
inductive Action where
  | peek (pattern : Pattern)
  | peekSecond (pattern : Pattern)
  | step (pattern : Pattern)
  | comments
  /-- Makes an error at the cursor and does not fail with it. -/
  | error (message : String)
  /-- Forgets what has been looked ahead for. -/
  | forgetAttempts
  /-- Peeks, and keeps the pattern for `attemptsError`. -/
  | attempt (pattern : Pattern)
  /-- Makes the error that all patterns looked ahead for were expected, and does not fail. -/
  | attemptsError
deriving DecidableEq, Repr

/-- One operation of a script. -/
inductive Command where
  | act (action : Action) (caught : Bool)
  | form (body : List Command) (caught : Bool)

/-- Whether an inner frame goes on after the command has failed. -/
def Command.caught : Command → Bool
  | .act _ caught => caught
  | .form _ caught => caught

/-- What an action answers. -/
inductive Answer where
  | nothing
  | verdict (b : Bool)
  | item (item : Item)
  | tokens (tokens : List Token)
  | error (e : ParseError)
  /-- The action failed. -/
  | raised (e : ParseError)
deriving Repr

/-- What a cursor shows of itself: where it stands and whether anything is left. -/
structure View where
  span : Span
  isEmpty : Bool
deriving DecidableEq, Repr

/-- What a command left behind: its answer or the entries of its body, and the view after it,
unless its mistake left the frame. -/
inductive Entry where
  | act (answer : Answer) (after : Option View)
  | form (inner : List Entry) (raised : Option ParseError) (after : Option View)

/-- The state of a frame. -/
structure Frame where
  cursor : Cursor
  attempts : List Pattern

namespace Frame

/-- A frame that has not looked ahead yet. -/
def ofCursor (c : Cursor) : Frame := ⟨c, []⟩

/-- The view of a frame's cursor. -/
def view (frame : Frame) : View :=
  ⟨frame.cursor.span, frame.cursor.isEmpty⟩

/-- Does an action. One that fails leaves the frame as it was. -/
def act (frame : Frame) : Action → Answer × Frame
  | .peek pattern => (.verdict (frame.cursor.peek pattern), frame)
  | .peekSecond pattern => (.verdict (frame.cursor.peekSecond pattern), frame)
  | .step pattern =>
    match frame.cursor.step pattern with
    | .ok (item, cursor) => (.item item, { frame with cursor })
    | .error e => (.raised e, frame)
  | .comments =>
    let (tokens, cursor) := frame.cursor.comments
    (.tokens tokens, { frame with cursor })
  | .error message => (.error (frame.cursor.error (.other message)), frame)
  | .forgetAttempts => (.nothing, { frame with attempts := [] })
  | .attempt pattern =>
    (.verdict (frame.cursor.peek pattern),
      { frame with attempts := frame.attempts ++ [pattern] })
  | .attemptsError => (.error (frame.cursor.error (.expected frame.attempts)), frame)

end Frame

/-- The mistake that an answer stands for, if it does. -/
def Answer.raised? : Answer → Option ParseError
  | .raised e => some e
  | _ => none

mutual

/-- Runs one command: its entry without the view after it, the mistake if it failed, and the frame
it leaves. -/
def runOne (frame : Frame) : Command → (Option View → Entry) × Option ParseError × Frame
  | .act action _ =>
    let (answer, frame) := frame.act action
    (.act answer, answer.raised?, frame)
  | .form body _ =>
    match frame.cursor.enter with
    | .error e => (.form [] (some e), some e, frame)
    | .ok (inner, behind) =>
      match run false (.ofCursor inner) body with
      | (entries, .error e) => (.form entries (some e), some e, frame)
      | (entries, .ok last) =>
        match last.cursor.expectEnd .expectedClose with
        | .error e => (.form entries (some e), some e, frame)
        | .ok () => (.form entries none, none, { frame with cursor := behind })

/-- Runs a script in a frame: the entries of the commands that were run, and the frame at the end
or the mistake that left it. -/
def run (outermost : Bool) (frame : Frame) :
    List Command → List Entry × Except ParseError Frame
  | [] => ([], .ok frame)
  | command :: rest =>
    let (entry, raised, frame) := runOne frame command
    match raised.filter fun _ => !outermost && !command.caught with
    | some e => ([entry none], .error e)
    | none =>
      let (entries, result) := run outermost frame rest
      (entry (some frame.view) :: entries, result)

end

/-- The entries of a script that is run over a whole source. -/
def entries (c : Cursor) (script : List Command) : List Entry :=
  (run true (.ofCursor c) script).1

end WitxFrontEnd.Script
