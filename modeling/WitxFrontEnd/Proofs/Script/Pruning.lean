import WitxFrontEnd.Proofs.Script

/-!
# Scripts without what failed in them

A command that fails leaves its frame as it was. So a script may be run again without the commands
that failed and were caught in their own frame, those inside its forms included: the commands that
are left answer as before and show the same cursors (`run_prune`).
-/

namespace WitxFrontEnd.Script

/-! ## Dropping commands and entries -/

/-- The command failed, and its frame went on. -/
def Entry.caughtFailure (entry : Entry) : Bool :=
  entry.raised?.isSome && entry.after.isSome

mutual

/-- The command without what failed and was caught in its body, going by its entry. -/
def Command.prune : Command → Entry → Command
  | .form body caught, .form inner _ _ => .form (pruneScript body inner) caught
  | command, _ => command

/-- The script without the commands that failed and were caught, going by the entries of its run.
Commands that were not run have no entries, and stay. -/
def pruneScript : List Command → List Entry → List Command
  | command :: rest, entry :: entries =>
    if entry.caughtFailure then pruneScript rest entries
    else command.prune entry :: pruneScript rest entries
  | script, _ => script

end

mutual

/-- The entry without the caught failures of its body. -/
def Entry.prune : Entry → Entry
  | .act answer after => .act answer after
  | .form inner raised after => .form (pruneEntries inner) raised after

/-- The entries without the caught failures. -/
def pruneEntries : List Entry → List Entry
  | [] => []
  | entry :: rest =>
    if entry.caughtFailure then pruneEntries rest else entry.prune :: pruneEntries rest

end

/-- Where nothing was run nothing is dropped. -/
theorem pruneScript_nil (script : List Command) : pruneScript script [] = script := by
  cases script <;> rfl

section

variable {command : Command} {entry : Entry} {rest : List Command} {entries : List Entry}

theorem pruneScript_cons_of_caught (h : entry.caughtFailure = true) :
    pruneScript (command :: rest) (entry :: entries) = pruneScript rest entries :=
  if_pos h

theorem pruneScript_cons_of_kept (h : entry.caughtFailure = false) :
    pruneScript (command :: rest) (entry :: entries) =
      command.prune entry :: pruneScript rest entries :=
  if_neg (Bool.eq_false_iff.1 h)

theorem pruneEntries_cons_of_caught (h : entry.caughtFailure = true) :
    pruneEntries (entry :: entries) = pruneEntries entries :=
  if_pos h

theorem pruneEntries_cons_of_kept (h : entry.caughtFailure = false) :
    pruneEntries (entry :: entries) = entry.prune :: pruneEntries entries :=
  if_neg (Bool.eq_false_iff.1 h)

end

/-- A command that is pruned catches the same. -/
theorem Command.caught_prune (command : Command) (entry : Entry) :
    (command.prune entry).caught = command.caught := by
  cases command <;> cases entry <;> rfl

/-! ## Running what is left -/

mutual

/-- A form without what was caught in its body runs as the whole form does. -/
theorem runOne_prune (frame : Frame) : ∀ (command : Command) (after : Option View),
    runOne frame (command.prune ((runOne frame command).1 after)) =
      (fun after => ((runOne frame command).1 after).prune, (runOne frame command).2)
  | .act action caught, after => rfl
  | .form body caught, after => by
    obtain ⟨e, -, h⟩ | ⟨inner, behind, henter, hend⟩ := runOne_form_cases frame body caught
    · rw [h]
      show runOne frame (.form (pruneScript body []) caught) = _
      rw [pruneScript_nil, h]
      rfl
    · have hprune : (Command.form body caught).prune ((runOne frame (.form body caught)).1 after) =
          .form (pruneScript body (run false (.ofCursor inner) body).1) caught := by
        obtain ⟨e, -, h⟩ | ⟨-, h⟩ := hend <;> rw [h] <;> rfl
      rw [hprune, runOne_form, henter]
      dsimp only
      rw [run_prune false (.ofCursor inner) body]
      dsimp only
      obtain ⟨e, hend, h⟩ | ⟨hend, h⟩ := hend <;> rw [hend, h] <;> rfl

/-- What is left of a script answers as before. What failed and was caught is skipped, since its
frame went on as it was. -/
theorem run_prune (outermost : Bool) (frame : Frame) : ∀ script : List Command,
    run outermost frame (pruneScript script (run outermost frame script).1) =
      (pruneEntries (run outermost frame script).1, (run outermost frame script).2)
  | [] => rfl
  | command :: rest => by
    have hprune := runOne_prune frame command
    have hleaving (after) : leaving outermost frame
        (command.prune ((runOne frame command).1 after)) = leaving outermost frame command := by
      rw [leaving, hprune, command.caught_prune]
      rfl
    cases h : leaving outermost frame command with
    | some e =>
      -- The mistake leaves the frame, so it is not caught here, and ends the shorter run as well.
      have hkept : ((runOne frame command).1 none).caughtFailure = false := by
        rw [Entry.caughtFailure, after_runOne, Option.isSome_none, Bool.and_false]
      rw [run_cons_of_leaving h]
      dsimp only
      rw [pruneScript_cons_of_kept hkept, pruneEntries_cons_of_kept hkept,
        run_cons_of_leaving ((hleaving none).trans h), hprune]
      rfl
    | none =>
      rw [run_cons_of_staying h]
      dsimp only
      cases hraised : (runOne frame command).2.1 with
      | some e =>
        -- The frame went on as it was: what follows runs from where the command began.
        have hdropped (view) : ((runOne frame command).1 (some view)).caughtFailure = true := by
          rw [Entry.caughtFailure, raised?_runOne, after_runOne, hraised]
          rfl
        rw [pruneScript_cons_of_caught (hdropped _), pruneEntries_cons_of_caught (hdropped _),
          runOne_of_raised hraised]
        exact run_prune outermost frame rest
      | none =>
        have hkept (view) : ((runOne frame command).1 (some view)).caughtFailure = false := by
          rw [Entry.caughtFailure, raised?_runOne, hraised]
          rfl
        rw [pruneScript_cons_of_kept (hkept _), pruneEntries_cons_of_kept (hkept _),
          run_cons_of_staying ((hleaving _).trans h), hprune]
        dsimp only
        rw [run_prune outermost _ rest]

end

/-- A command that fails leaves its frame as it was, and so do the forms around it that fail with
it. Without what failed and was caught in its own frame, in forms at any depth, a script answers as
before, shows the same cursors and ends in the same way. -/
theorem failure_leaves_no_trace (outermost : Bool) (frame : Frame) :
    (∀ command e, (runOne frame command).2.1 = some e → (runOne frame command).2.2 = frame) ∧
    ∀ script, run outermost frame (pruneScript script (run outermost frame script).1) =
      (pruneEntries (run outermost frame script).1, (run outermost frame script).2) := by
  exact ⟨fun _ _ => runOne_of_raised, run_prune outermost frame⟩

/-- At the beginning of `($x "s") $y`. -/
def Frame.sample : Frame :=
  .ofCursor ⟨[
    .form [.token ⟨.identifier, "$x", ⟨1, 1, 2, none⟩⟩, .token ⟨.string, "s", ⟨4, 1, 5, none⟩⟩]
      ⟨0, 1, 1, none⟩ ⟨7, 1, 8, none⟩,
    .token ⟨.identifier, "$y", ⟨9, 1, 10, none⟩⟩], ⟨11, 1, 12, none⟩⟩

/-- The form is left half read, and then read again past a mistake in it. -/
theorem failure_leaves_no_trace_half_read_form :
    let identifier := Command.act (.step .identifier) false
    let string := Command.act (.step .string) false
    let script := [identifier, .form [identifier] false,
      .form [identifier, .form [] true, string] false, identifier]
    let pruned := [.form [identifier, string] false, identifier]
    (runOne .sample (.form [identifier] false)).2.1 =
        some ⟨.expectedClose, some ⟨4, 1, 5, none⟩⟩ ∧
      (runOne .sample (.form [identifier] false)).2.2 = .sample ∧
      pruneScript script (run true .sample script).1 = pruned ∧
      run true .sample pruned =
        (pruneEntries (run true .sample script).1, (run true .sample script).2) := by
  intro identifier string script pruned
  have hraised : (runOne .sample (.form [identifier] false)).2.1 =
      some ⟨.expectedClose, some ⟨4, 1, 5, none⟩⟩ := rfl
  have hpruned : pruneScript script (run true .sample script).1 = pruned := rfl
  obtain ⟨hframe, hrun⟩ := failure_leaves_no_trace true .sample
  refine ⟨hraised, hframe _ _ hraised, hpruned, ?_⟩
  rw [← hpruned]
  exact hrun script

end WitxFrontEnd.Script
