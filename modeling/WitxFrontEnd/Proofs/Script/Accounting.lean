import Mathlib.Data.List.Infix
import WitxFrontEnd.Proofs.Script
import WitxFrontEnd.Proofs.Takes

/-!
# What cursors pass over

Each command passes over some of the items that are left (`Passes`): a step over its item, with the
comments before it; `comments` over what it answers; a form that was read to its end over itself,
with the comments before it; and all others over nothing. A run accounts for all items before its
cursor in this way, and the body of a form accounts for the items of the form (`Accounts`).
-/

namespace WitxFrontEnd.Script

/-- What a cursor shows if these items are left in its frame. -/
structure Shows (left : List Item) (closing : Span) (view : View) : Prop where
  span : view.span = ((left.find? fun i => !i.isComment).map Item.span).getD closing
  isEmpty : view.isEmpty = true ↔ ∀ i ∈ left, i.isComment = true

theorem Frame.shows (frame : Frame) :
    Shows frame.cursor.items frame.cursor.closing frame.view := by
  have hnext : frame.cursor.next? = frame.cursor.items.find? fun i => !i.isComment := by
    simp [Cursor.next?, Cursor.skipComments, List.find?_eq_head?_dropWhile_not]
  constructor
  · show Cursor.span _ = _
    unfold Cursor.span
    rw [hnext]
    cases frame.cursor.items.find? fun i => !i.isComment <;> rfl
  · show frame.cursor.next?.isNone = true ↔ _
    simp [hnext]

/-- The action only looks at what is left. -/
def Action.looks : Action → Bool
  | .step _ | .comments => false
  | .peek _ | .peekSecond _ | .error _ | .forgetAttempts | .attempt _ | .attemptsError => true

mutual

/-- With the items `left` in its frame, the command leaves the entry and passes over the items
`passed`. -/
inductive Passes : (left : List Item) → Command → Entry → (passed : List Item) → Prop where
  | look {left : List Item} {action : Action} {caught : Bool} {answer : Answer}
      {after : Option View} :
      action.looks = true → Passes left (.act action caught) (.act answer after) []
  | step {run : List Token} {i : Item} {rest : List Item} {pattern : Pattern} {caught : Bool}
      {after : Option View} :
      AllComments run → i.isComment = false →
      Passes (run.map .token ++ i :: rest) (.act (.step pattern) caught) (.act (.item i) after)
        (run.map .token ++ [i])
  | mismatch {left : List Item} {pattern : Pattern} {caught : Bool} {e : ParseError}
      {after : Option View} :
      Passes left (.act (.step pattern) caught) (.act (.raised e) after) []
  | comments {run : List Token} {rest : List Item} {caught : Bool} {after : Option View} :
      AllComments run → (∀ i ∈ rest.head?, i.isComment = false) →
      Passes (run.map .token ++ rest) (.act .comments caught) (.act (.tokens run) after)
        (run.map .token)
  | form {run : List Token} {children rest : List Item} {span closing : Span}
      {body : List Command} {caught : Bool} {inner : List Entry} {pieces : List (List Item)}
      {after : Option View} :
      AllComments run → Accounts children closing 0 body inner pieces →
      (∀ i ∈ children.drop pieces.flatten.length, i.isComment = true) →
      Passes (run.map .token ++ .form children span closing :: rest) (.form body caught)
        (.form inner none after) (run.map .token ++ [.form children span closing])
  | noForm {left : List Item} {body : List Command} {caught : Bool} {e : ParseError}
      {after : Option View} :
      Passes left (.form body caught) (.form [] (some e) after) []
  | formFailed {run : List Token} {children rest : List Item} {span closing : Span}
      {body : List Command} {caught : Bool} {inner : List Entry} {pieces : List (List Item)}
      {e : ParseError} {after : Option View} :
      AllComments run → Accounts children closing 0 body inner pieces →
      Passes (run.map .token ++ .form children span closing :: rest) (.form body caught)
        (.form inner (some e) after) []

/-- In a frame of these items, with the cursor at this position, the script leaves the entries and
passes over the pieces one after the other. The cursor shows after each command what is left
then. -/
inductive Accounts : (items : List Item) → (closing : Span) → (position : Nat) → List Command →
    List Entry → (pieces : List (List Item)) → Prop where
  | nil {items : List Item} {closing : Span} {position : Nat} :
      Accounts items closing position [] [] []
  | next {items : List Item} {closing : Span} {position : Nat} {command : Command}
      {script : List Command} {entry : Entry} {entries : List Entry} {passed : List Item}
      {pieces : List (List Item)} {view : View} :
      Passes (items.drop position) command entry passed → entry.after = some view →
      Shows (items.drop (position + passed.length)) closing view →
      Accounts items closing (position + passed.length) script entries pieces →
      Accounts items closing position (command :: script) (entry :: entries) (passed :: pieces)
  /-- The mistake of the command leaves the frame. -/
  | leave {items : List Item} {closing : Span} {position : Nat} {command : Command}
      {script : List Command} {entry : Entry} :
      Passes (items.drop position) command entry [] → entry.raised?.isSome = true →
      entry.after = none →
      Accounts items closing position (command :: script) [entry] [[]]

end

/-! ## What is passed over stands at the cursor -/

theorem Passes.isPrefix {left passed : List Item} {command : Command} {entry : Entry}
    (h : Passes left command entry passed) : passed <+: left := by
  cases h with
  | look | mismatch | noForm | formFailed => exact List.nil_prefix
  | step hrun hi => exact ⟨_, List.append_assoc ..⟩
  | comments => exact List.prefix_append ..
  | form => exact ⟨_, List.append_assoc ..⟩

/-- A command that fails passes over nothing. -/
theorem Passes.eq_nil_of_raised {left passed : List Item} {command : Command} {entry : Entry}
    {e : ParseError} (h : Passes left command entry passed) (he : entry.raised? = some e) :
    passed = [] := by
  cases h with
  | look | mismatch | noForm | formFailed => rfl
  | step | comments | form => cases he

/-- The pieces make up, in order, the items from the first position to the last. -/
theorem Accounts.isPrefix {items : List Item} {closing : Span} {position : Nat}
    {script : List Command} {entries : List Entry} {pieces : List (List Item)}
    (h : Accounts items closing position script entries pieces) :
    pieces.flatten <+: items.drop position := by
  induction pieces generalizing position script entries with
  | nil => exact List.nil_prefix
  | cons passed pieces ih =>
    cases h with
    | next hpasses _ _ hrest =>
      have hrest := ih hrest
      rw [← List.drop_drop] at hrest
      rw [List.flatten_cons, ← List.prefix_iff_eq_append.1 hpasses.isPrefix]
      exact (List.prefix_append_right_inj passed).2 hrest
    | leave => exact List.nil_prefix

/-- The items before the cursor after so many commands. -/
def positionAfter (pieces : List (List Item)) (n : Nat) : Nat :=
  (pieces.take n).flatten.length

/-- The position does not decrease and stays within the items. -/
theorem positionAfter_le {pieces : List (List Item)} {items : List Item}
    (h : pieces.flatten <+: items) (n : Nat) :
    positionAfter pieces n ≤ positionAfter pieces (n + 1) ∧
      positionAfter pieces (n + 1) ≤ items.length := by
  have hstep : pieces.take n <+: pieces.take (n + 1) :=
    List.take_prefix_take_left (Nat.le_succ n)
  have hwithin : (pieces.take (n + 1)).flatten <+: items :=
    (List.IsPrefix.flatten (List.take_prefix (n + 1) pieces)).trans h
  exact ⟨(List.IsPrefix.flatten hstep).length_le, hwithin.length_le⟩

/-! ## Running -/

/-- An action passes over what it takes, and the cursor goes on behind it. -/
theorem Frame.exists_passes (frame : Frame) (action : Action) (caught : Bool) :
    ∃ passed, (∀ after, Passes frame.cursor.items (.act action caught)
        (.act (frame.act action).1 after) passed) ∧
      (frame.act action).2.cursor =
        ⟨frame.cursor.items.drop passed.length, frame.cursor.closing⟩ := by
  cases action with
  | step pattern =>
    cases hstep : frame.cursor.step pattern with
    | error e =>
      simp only [Frame.act, hstep]
      exact ⟨[], fun _ => .mismatch, rfl⟩
    | ok taken =>
      obtain ⟨i, rest⟩ := taken
      obtain ⟨⟨hi, run, hrun, hitems⟩, -⟩ := Cursor.takes_of_step hstep
      simp only [Frame.act, hstep]
      refine ⟨run.map .token ++ [i], fun _ => hitems ▸ .step hrun hi, ?_⟩
      exact Cursor.eq_drop (by simp [hitems]) (Cursor.closing_of_step hstep)
  | comments =>
    obtain ⟨run, hrun, hitems⟩ := exists_run frame.cursor.items
    have hrest : ∀ i ∈ (Cursor.skipComments frame.cursor.items).head?, i.isComment = false := by
      intro i hi
      rcases View.skipComments_cases frame.cursor.items with hl | ⟨j, tail, hl, hj⟩
      · rw [hl] at hi
        cases hi
      · rw [hl] at hi
        cases hi
        exact hj
    have hspan := hrun.spanComments hrest
    rw [← hitems] at hspan
    simp only [Frame.act, Cursor.comments, hspan]
    refine ⟨run.map .token, fun _ => ?_, Cursor.eq_drop hitems rfl⟩
    rw [hitems]
    exact .comments hrun hrest
  | peek | peekSecond | error | forgetAttempts | attempt | attemptsError =>
    exact ⟨[], fun _ => .look rfl, rfl⟩

mutual

/-- A command passes over what it takes, and the cursor goes on behind it. -/
theorem runOne_passes (frame : Frame) : ∀ command : Command,
    ∃ passed, (∀ after, Passes frame.cursor.items command ((runOne frame command).1 after) passed) ∧
      (runOne frame command).2.2.cursor =
        ⟨frame.cursor.items.drop passed.length, frame.cursor.closing⟩
  | .act action caught => frame.exists_passes action caught
  | .form body caught => by
    obtain ⟨e, henter, h⟩ | ⟨inner, behind, henter, hend⟩ := runOne_form_cases frame body caught
    · rw [h]
      exact ⟨[], fun _ => .noForm, rfl⟩
    · obtain ⟨span, -, run, hrun, hitems⟩ := Cursor.takes_of_enter henter
      -- The body has been run either way; only its end decides whether the form is passed over.
      obtain ⟨pieces, haccounts, hlast⟩ :=
        run_accounts false (.ofCursor inner) inner.items inner.closing 0 rfl body
      obtain ⟨e, -, h⟩ | ⟨hend, h⟩ := hend
      · rw [h]
        exact ⟨[], fun _ => hitems ▸ .formFailed hrun haccounts, rfl⟩
      · obtain ⟨last, hlastRun, hempty⟩ := isEmpty_of_formEnd hend
        have hcomments := last.shows.isEmpty.1 hempty
        rw [hlast last hlastRun, Nat.zero_add] at hcomments
        rw [h]
        refine ⟨run.map .token ++ [.form inner.items span inner.closing],
          fun _ => hitems ▸ .form hrun haccounts hcomments, ?_⟩
        exact Cursor.eq_drop (by simp [hitems]) (Cursor.closing_of_enter henter)

/-- A script accounts for what its cursor passes over. -/
theorem run_accounts (outermost : Bool) (frame : Frame) (items : List Item) (closing : Span)
    (position : Nat) (hcursor : frame.cursor = ⟨items.drop position, closing⟩) :
    ∀ script : List Command, ∃ pieces,
      Accounts items closing position script (run outermost frame script).1 pieces ∧
        ∀ last, (run outermost frame script).2 = .ok last →
          last.cursor = ⟨items.drop (position + pieces.flatten.length), closing⟩
  | [] => ⟨[], .nil, fun last hlast => by cases hlast; exact hcursor⟩
  | command :: rest => by
    obtain ⟨passed, hpasses, hnext⟩ := runOne_passes frame command
    rw [hcursor] at hpasses hnext
    dsimp only at hpasses hnext
    cases h : leaving outermost frame command with
    | some e =>
      obtain ⟨hraised, -⟩ := Option.filter_eq_some_iff.1 h
      rw [run_cons_of_leaving h]
      have hentry : ((runOne frame command).1 none).raised? = some e :=
        (raised?_runOne ..).trans hraised
      have hpassed := (hpasses none).eq_nil_of_raised hentry
      subst hpassed
      refine ⟨[[]], .leave (hpasses none) ?_ (after_runOne ..), nofun⟩
      rw [hentry]
      rfl
    | none =>
      rw [run_cons_of_staying h]
      rw [List.drop_drop] at hnext
      obtain ⟨pieces, haccounts, hlast⟩ := run_accounts outermost (runOne frame command).2.2 items
        closing (position + passed.length) hnext rest
      have hshows := (runOne frame command).2.2.shows
      rw [hnext] at hshows
      refine ⟨passed :: pieces, .next (hpasses _) (after_runOne ..) hshows haccounts, ?_⟩
      intro last h
      rw [hlast last h, List.flatten_cons, List.length_append, Nat.add_assoc]

end

theorem exists_run_outermost (frame : Frame) (script : List Command) :
    ∃ last, (run true frame script).2 = .ok last := by
  induction script generalizing frame with
  | nil => exact ⟨frame, rfl⟩
  | cons command rest ih =>
    have hstaying : leaving true frame command = none := by
      rw [leaving, Option.filter_eq_none_iff]
      intro _ _ h
      cases h
    rw [run_cons_of_staying hstaying]
    exact ih _

/-- Over any items, any script of operations, with scripts in its forms to any depth, runs to its
end. Its position does not decrease and stays within the items; the items before it are, piece by
piece, those that the commands passed over; and the cursor shows what is left behind them, at the
beginning and after each command. -/
theorem entries_account (c : Cursor) (script : List Command) :
    Shows c.items c.closing (Frame.ofCursor c).view ∧
    ∃ pieces, Accounts c.items c.closing 0 script (entries c script) pieces ∧
      pieces.flatten <+: c.items ∧
      (∀ n, positionAfter pieces n ≤ positionAfter pieces (n + 1) ∧
        positionAfter pieces (n + 1) ≤ c.items.length) ∧
      ∃ last, (run true (.ofCursor c) script).2 = .ok last ∧
        last.cursor = ⟨c.items.drop pieces.flatten.length, c.closing⟩ := by
  obtain ⟨pieces, haccounts, hlast⟩ :=
    run_accounts true (.ofCursor c) c.items c.closing 0 rfl script
  obtain ⟨last, hrun⟩ := exists_run_outermost (.ofCursor c) script
  have hpieces := haccounts.isPrefix
  have hcursor := hlast last hrun
  rw [Nat.zero_add] at hcursor
  exact ⟨(Frame.ofCursor c).shows, pieces, haccounts, hpieces, positionAfter_le hpieces, last,
    hrun, hcursor⟩

end WitxFrontEnd.Script
