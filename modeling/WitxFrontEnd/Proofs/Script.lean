import WitxFrontEnd.Cursor.Script

/-!
# What one command does

A `form` command fails if there is no form, if its body fails, and if the body leaves something
behind; `runOne_form_cases` tells what is left in its frame. A command that fails leaves the frame
as it was (`runOne_of_raised`).
-/

namespace WitxFrontEnd.Script

/-! ## Entries -/

/-- The mistake that the command failed with, if it did. -/
def Entry.raised? : Entry → Option ParseError
  | .act answer _ => answer.raised?
  | .form _ raised _ => raised

/-- The view after the command, unless its mistake left the frame. -/
def Entry.after : Entry → Option View
  | .act _ after => after
  | .form _ _ after => after

/-! ## Forms -/

/-- What comes of a body at the end of its form: the mistake that left its frame, or one about what
is left there. -/
def formEnd (result : Except ParseError Frame) : Except ParseError Unit := do
  let last ← result
  last.cursor.expectEnd .expectedClose

/-- A form is left only with nothing but comments in it. -/
theorem isEmpty_of_formEnd {result : Except ParseError Frame} (h : formEnd result = .ok ()) :
    ∃ last, result = .ok last ∧ last.cursor.isEmpty = true := by
  cases result with
  | error e => cases h
  | ok last =>
    change last.cursor.expectEnd .expectedClose = .ok () at h
    unfold Cursor.expectEnd at h
    split at h
    · next hempty => exact ⟨last, rfl, hempty⟩
    · cases h

variable {frame : Frame} {command : Command} {e : ParseError}

/-- The body is run once, in a frame of its own. -/
theorem runOne_form (frame : Frame) (body : List Command) (caught : Bool) :
    runOne frame (.form body caught) =
      match frame.cursor.enter with
      | .error e => (.form [] (some e), some e, frame)
      | .ok (inner, behind) =>
        let (entries, result) := run false (.ofCursor inner) body
        match formEnd result with
        | .error e => (.form entries (some e), some e, frame)
        | .ok () => (.form entries none, none, { frame with cursor := behind }) := by
  rw [runOne]
  cases frame.cursor.enter with
  | error => rfl
  | ok cursors =>
    obtain ⟨inner, behind⟩ := cursors
    dsimp only
    obtain ⟨entries, result⟩ := run false (.ofCursor inner) body
    cases result <;> rfl

/-- The frame goes on behind the form only if the body used it up. -/
theorem runOne_form_cases (frame : Frame) (body : List Command) (caught : Bool) :
    (∃ e, frame.cursor.enter = .error e ∧
      runOne frame (.form body caught) = (.form [] (some e), some e, frame)) ∨
    ∃ inner behind, frame.cursor.enter = .ok (inner, behind) ∧
      ((∃ e, formEnd (run false (.ofCursor inner) body).2 = .error e ∧
        runOne frame (.form body caught) =
          (.form (run false (.ofCursor inner) body).1 (some e), some e, frame)) ∨
      formEnd (run false (.ofCursor inner) body).2 = .ok () ∧
        runOne frame (.form body caught) =
          (.form (run false (.ofCursor inner) body).1 none, none,
            { frame with cursor := behind })) := by
  rw [runOne_form]
  cases henter : frame.cursor.enter with
  | error e => exact .inl ⟨e, rfl, rfl⟩
  | ok cursors =>
    obtain ⟨inner, behind⟩ := cursors
    refine .inr ⟨inner, behind, rfl, ?_⟩
    dsimp only
    cases hend : formEnd (run false (.ofCursor inner) body).2 with
    | error e => exact .inl ⟨e, rfl, rfl⟩
    | ok => exact .inr ⟨rfl, rfl⟩

/-! ## Entries and frames -/

/-- The entry of a command tells the mistake that the command failed with. -/
theorem raised?_runOne (frame : Frame) (command : Command) (after : Option View) :
    ((runOne frame command).1 after).raised? = (runOne frame command).2.1 := by
  cases command with
  | act => rfl
  | form body caught =>
    obtain ⟨e, -, h⟩ | ⟨inner, behind, -, ⟨e, -, h⟩ | ⟨-, h⟩⟩ := runOne_form_cases frame body caught
    all_goals rw [h]; rfl

theorem after_runOne (frame : Frame) (command : Command) (after : Option View) :
    ((runOne frame command).1 after).after = after := by
  cases command with
  | act => rfl
  | form body caught =>
    obtain ⟨e, -, h⟩ | ⟨inner, behind, -, ⟨e, -, h⟩ | ⟨-, h⟩⟩ := runOne_form_cases frame body caught
    all_goals rw [h]; rfl

/-- An action that fails leaves the frame as it was. -/
theorem Frame.act_of_raised {action : Action} (h : (frame.act action).1.raised? = some e) :
    (frame.act action).2 = frame := by
  cases action with
  | step pattern =>
    cases hstep : frame.cursor.step pattern with
    | error => simp only [Frame.act, hstep]
    | ok => simp [Frame.act, hstep, Answer.raised?] at h
  | comments => cases h
  | peek | peekSecond | error | forgetAttempts | attempt | attemptsError => cases h

/-- A command that fails leaves the frame as it was, however much of a form was read before. -/
theorem runOne_of_raised (h : (runOne frame command).2.1 = some e) :
    (runOne frame command).2.2 = frame := by
  cases command with
  | act action caught => exact Frame.act_of_raised h
  | form body caught =>
    obtain ⟨e, -, hrun⟩ | ⟨inner, behind, -, ⟨e, -, hrun⟩ | ⟨-, hrun⟩⟩ :=
      runOne_form_cases frame body caught
    · rw [hrun]
    · rw [hrun]
    · rw [hrun] at h
      cases h

/-! ## Scripts -/

/-- The mistake of a command that leaves the frame with it, if it does. -/
def leaving (outermost : Bool) (frame : Frame) (command : Command) : Option ParseError :=
  (runOne frame command).2.1.filter fun _ => !outermost && !command.caught

theorem run_cons_of_leaving {outermost : Bool} {rest : List Command}
    (h : leaving outermost frame command = some e) :
    run outermost frame (command :: rest) = ([(runOne frame command).1 none], .error e) := by
  rcases hone : runOne frame command with ⟨entry, raised, next⟩
  rw [leaving, hone] at h
  rw [run, hone]
  dsimp only at h ⊢
  rw [h]

theorem run_cons_of_staying {outermost : Bool} {rest : List Command}
    (h : leaving outermost frame command = none) :
    run outermost frame (command :: rest) =
      let (entries, result) := run outermost (runOne frame command).2.2 rest
      ((runOne frame command).1 (some (runOne frame command).2.2.view) :: entries, result) := by
  rcases hone : runOne frame command with ⟨entry, raised, next⟩
  rw [leaving, hone] at h
  rw [run, hone]
  dsimp only at h ⊢
  rw [h]

end WitxFrontEnd.Script
