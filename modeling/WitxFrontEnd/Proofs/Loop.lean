import WitxFrontEnd.Proofs.Lookahead
import WitxFrontEnd.Proofs.Sites

/-!
# Lists of constructs, turn by turn

`Rule.documented` goes over all items of a form and carries the comments along. What it stands for is
a loop that moves a cursor: as long as more than comments is left, it takes the comments, reads a
construct behind them and gathers what it read. `Rule.Loop` is such a loop, whatever it gathers and
however, and `Entry.ReadBy` says that a rule reads at a cursor what an entry makes of the next item.
Then the loop gathers what `Rule.documented` finds, and fails where that fails
(`Entry.ReadBy.loop`).

Three kinds of loops are there in the grammar. One gathers constructs in one list
(`Rule.documented_of_loop`), one gathers the slots of a function in two (`Grammar.interfaceFunc_of_loop`),
and one leaves the comments alone (`Grammar.handle_of_loop`).
-/

namespace WitxFrontEnd

namespace Rule

variable {α β : Type}

/-- A loop that runs until nothing but comments is left: from what it has gathered at a cursor to
what it has gathered in the end, or to the mistake that it stops at. -/
inductive Loop (body : β → Rule β) : β → Cursor → Except ParseError β → Prop
  | stop {b : β} {c : Cursor} (hempty : c.isEmpty = true) : Loop body b c (.ok b)
  | fail {b : β} {c : Cursor} {e : ParseError} (hempty : c.isEmpty = false)
      (hbody : body b c = .error e) : Loop body b c (.error e)
  | turn {b b' : β} {c rest : Cursor} {outcome : Except ParseError β} (hempty : c.isEmpty = false)
      (hbody : body b c = .ok (b', rest)) (hrest : Loop body b' rest outcome) :
      Loop body b c outcome

/-- A loop has one outcome. -/
theorem Loop.unique {body : β → Rule β} {b : β} {c : Cursor} {outcome outcome' : Except ParseError β}
    (h : Loop body b c outcome) (h' : Loop body b c outcome') : outcome = outcome' := by
  induction h with
  | stop hempty =>
    cases h' with
    | stop => rfl
    | fail hempty' | turn hempty' => rw [hempty] at hempty'; cases hempty'
  | fail hempty hbody =>
    cases h' with
    | stop hempty' => rw [hempty] at hempty'; cases hempty'
    | fail _ hbody' => rw [hbody] at hbody'; cases hbody'; rfl
    | turn _ hbody' => rw [hbody] at hbody'; cases hbody'
  | turn hempty hbody _ ih =>
    cases h' with
    | stop hempty' => rw [hempty] at hempty'; cases hempty'
    | fail _ hbody' => rw [hbody] at hbody'; cases hbody'
    | turn _ hbody' hrest' => rw [hbody] at hbody'; cases hbody'; exact ih hrest'

/-- Takes the comments, and reads the construct behind them. Reference: `_documented`. -/
def documentedOne (rule : Rule α) : Rule (Documented α) :=
  fun c => do
    let (comments, behind) := c.comments
    let (a, rest) ← rule behind
    return (⟨comments.filterMap Token.comment?, a⟩, rest)

end Rule

namespace Entry

open Rule (Loop documentedOne)

variable {α β δ : Type} {entry : Entry α}

/-- The rule takes the next item with the comments before it, and what it makes of them is made of
the comments and of what the entry makes of the item. -/
def ReadBy (entry : Entry α) (make : List String → α → δ) (rule : Rule δ) : Prop :=
  ∀ (run : List Token) (i : Item) (rest : List Item) (closing : Span), AllComments run →
    i.isComment = false →
      rule ⟨run.map .token ++ i :: rest, closing⟩ =
        (entry i).map fun a => (make (run.filterMap Token.comment?) a, ⟨rest, closing⟩)

/-- A rule for what is inside a form reads the form, wherever it is behind comments. -/
theorem readBy_form (rule : Rule α) : (Entry.form rule).ReadBy (fun _ a => a) rule.inForm := by
  intro run i rest closing hrun hi
  have hskip := hrun.skip hi rest
  cases i with
  | token t =>
    have hnext : Cursor.skipComments (Cursor.mk (run.map .token ++ .token t :: rest) closing).items =
        .token t :: rest := hskip
    rw [Rule.inForm_apply, Cursor.enter, hnext]
    dsimp only
    rw [Cursor.error_of_cons hnext]
    rfl
  | form children span inner =>
    have hform : Cursor.skipComments (Cursor.mk (run.map .token ++ .form children span inner :: rest)
      closing).items = .form children span inner :: rest := hskip
    rw [Cursor.inForm_of_form hform, Entry.form]

/-- An identifier is read wherever it is behind comments. -/
theorem readBy_identifier :
    Grammar.identifierEntry.ReadBy (fun _ a => a) Grammar.identifier := by
  intro run i rest closing hrun hi
  have hnext : Cursor.skipComments (Cursor.mk (run.map .token ++ i :: rest) closing).items =
      i :: rest := hrun.skip hi rest
  rw [Grammar.identifier, Rule.bind_apply, Rule.step_apply, Cursor.step_of_cons hnext,
    Cursor.peek_of_cons hnext, Grammar.identifierEntry]
  cases Pattern.identifier.accepts i with
  | true => rfl
  | false =>
    rw [if_neg Bool.false_ne_true, if_neg Bool.false_ne_true, Cursor.error_of_cons hnext]
    rfl

/-- A rule that reads a construct reads it with the comments before it, if it takes them first. -/
theorem ReadBy.documentedOne {rule : Rule α} (h : entry.ReadBy (fun _ a => a) rule) :
    entry.ReadBy Documented.mk (documentedOne rule) := by
  intro run i rest closing hrun hi
  have hspan : Cursor.spanComments (run.map .token ++ i :: rest) = (run, i :: rest) :=
    hrun.spanComments (by rintro _ ⟨⟩; exact hi)
  have hread := h [] i rest closing .nil hi
  rw [List.map_nil, List.nil_append] at hread
  rw [Rule.documentedOne, Cursor.comments]
  dsimp only
  rw [hspan]
  dsimp only
  rw [hread]
  cases entry i <;> rfl

/-- The loop gathers the constructs that the items hold, and fails at the first that is none. -/
theorem ReadBy.loop {make : List String → α → δ} {rule : Rule δ} (h : entry.ReadBy make rule)
    (gather : β → δ → β) (b : β) (c : Cursor) :
    Loop (fun b => do let d ← rule; return gather b d) b c
      ((entry.documentedFrom [] c.items).map
        (List.foldl (fun b d => gather b (make d.comments d.item)) b)) := by
  obtain ⟨items, closing⟩ := c
  obtain ⟨ss, behind, hsites⟩ := Sites.exists_of items
  dsimp only
  -- a turn of the loop is a site: the comments that it takes, and the construct behind them
  induction hsites generalizing b with
  | @trailing run hrun =>
    rw [documentedFrom_comments hrun]
    exact .stop (Cursor.isEmpty_of_nil hrun.skip_all)
  | @site s rest ss behind hrun hitem _ ih =>
    have hempty : (Cursor.mk (s.comments.map .token ++ s.item :: rest) closing).isEmpty = false :=
      Cursor.isEmpty_of_cons (hrun.skip hitem rest)
    have hread := h s.comments s.item rest closing hrun hitem
    rw [documentedFrom_item hrun hitem]
    cases hentry : entry s.item with
    | error e =>
      refine .fail hempty ?_
      rw [Rule.bind_apply, hread, hentry]
      rfl
    | ok a =>
      have hturn : (do let d ← rule; return gather b d : Rule β)
          ⟨s.comments.map .token ++ s.item :: rest, closing⟩ =
            .ok (gather b (make (s.comments.filterMap Token.comment?) a), ⟨rest, closing⟩) := by
        rw [Rule.bind_apply, hread, hentry]
        rfl
      have hbehind := ih (gather b (make (s.comments.filterMap Token.comment?) a))
      refine .turn hempty hturn ?_
      cases hrest : entry.documentedFrom [] rest <;> rw [hrest] at hbehind <;> exact hbehind

end Entry

/-- What is gathered in one list, one after the other. -/
theorem Rule.foldl_concat {α β : Type} (f : α → β) (as : List α) (bs : List β) :
    as.foldl (fun bs a => bs ++ [f a]) bs = bs ++ as.map f := by
  induction as generalizing bs with
  | nil => exact (List.append_nil bs).symm
  | cons a as ih => rw [List.foldl_cons, ih, List.append_assoc, List.map_cons, List.singleton_append]

/-! ## The loops of the grammar -/

/-- The constructs up to the end of a form are what a loop gathers that takes the comments, reads a
construct behind them and puts it behind the others. -/
theorem Rule.documented_of_loop {α : Type} {entry : Entry α} {rule : Rule α}
    (h : entry.ReadBy (fun _ a => a) rule) {c : Cursor}
    {outcome : Except ParseError (List (Documented α))}
    (hloop : Loop (fun ds => do let d ← documentedOne rule; return ds ++ [d]) [] c outcome) :
    documented entry c = outcome.map (·, ⟨[], c.closing⟩) := by
  have hsame := h.documentedOne.loop (fun ds d => ds ++ [d]) [] c
  rw [hloop.unique hsame, documented]
  cases entry.documentedFrom [] c.items with
  | error e => rfl
  | ok ds =>
    have hgathered := Rule.foldl_concat (fun d : Documented α => Documented.mk d.comments d.item) ds []
    rw [List.nil_append] at hgathered
    show Except.ok (ds, _) = Except.ok (List.foldl _ [] ds, _)
    rw [hgathered]
    exact congrArg (fun ds => Except.ok (ds, _)) (List.map_id ds).symm

namespace Grammar

open Rule (Loop documentedOne)

/-- A slot of a function put behind the parameters or behind the results. -/
def gatherSlot (slots : List (Documented Field) × List (Documented Field))
    (slot : Documented (SlotKind × Field)) :
    List (Documented Field) × List (Documented Field) :=
  match slot.item.1 with
  | .param => (slots.1 ++ [⟨slot.comments, slot.item.2⟩], slots.2)
  | .result => (slots.1, slots.2 ++ [⟨slot.comments, slot.item.2⟩])

/-- Slots that are put there one by one are dealt out. -/
theorem foldl_gatherSlot (all : List (Documented (SlotKind × Field)))
    (slots : List (Documented Field) × List (Documented Field)) :
    all.foldl gatherSlot slots =
      (slots.1 ++ slotsOf .param all, slots.2 ++ slotsOf .result all) := by
  induction all generalizing slots with
  | nil => simp [slotsOf]
  | cons slot all ih =>
    obtain ⟨comments, kind, field⟩ := slot
    rw [List.foldl_cons, ih]
    cases kind <;> simp [gatherSlot, slotsOf]

/-- Behind its name an interface function is a loop over its slots that gathers parameters and
results apart. Reference: `_interface_func`. -/
theorem interfaceFunc_of_loop {c behind : Cursor} {name : Item}
    (hhead : (do Rule.reserved "@interface"; Rule.keyword "func"; Rule.inForm exportForm : Rule Item)
      c = .ok (name, behind))
    {outcome : Except ParseError (List (Documented Field) × List (Documented Field))}
    (hloop : Loop
      (fun slots => do
        let slot ← documentedOne (Rule.inForm slotForm)
        return gatherSlot slots slot)
      ([], []) behind outcome) :
    interfaceFunc c =
      outcome.map fun slots => (⟨name.text, name.span, slots.1, slots.2⟩, ⟨[], behind.closing⟩) := by
  have hsame := (Entry.readBy_form slotForm).documentedOne.loop gatherSlot ([], []) behind
  have hfunc : interfaceFunc =
      (do Rule.reserved "@interface"; Rule.keyword "func"; Rule.inForm exportForm : Rule Item) >>=
        fun name => do
          let slots ← Rule.documented (.form slotForm)
          return ⟨name.text, name.span, slotsOf .param slots, slotsOf .result slots⟩ := by
    simp only [interfaceFunc, bind_assoc]
  rw [hloop.unique hsame, hfunc, Rule.bind_of_ok hhead, Rule.bind_apply, Rule.documented]
  cases (Entry.form slotForm).documentedFrom [] behind.items with
  | error e => rfl
  | ok all =>
    have hgathered := foldl_gatherSlot all ([], [])
    rw [List.nil_append, List.nil_append] at hgathered
    show Except.ok (InterfaceFunc.mk _ _ _ _, _) = Except.ok
      (InterfaceFunc.mk _ _ (all.foldl gatherSlot ([], [])).1 (all.foldl gatherSlot ([], [])).2, _)
    rw [hgathered]

/-- Behind its keyword a handle is a loop over identifiers. Reference: `_handle`. -/
theorem handle_of_loop {c behind : Cursor} (hhead : Rule.keyword "handle" c = .ok ((), behind))
    {outcome : Except ParseError (List Identifier)}
    (hloop : Loop (fun idents => do let ident ← identifier; return idents ++ [ident]) [] behind
      outcome) :
    handle c = outcome.map fun supertypes => (.handle supertypes, ⟨[], behind.closing⟩) := by
  have hsame := Entry.readBy_identifier.loop (fun idents ident => idents ++ [ident]) [] behind
  rw [hloop.unique hsame, handle, Rule.bind_of_ok hhead, Rule.bind_apply, Rule.documented]
  cases identifierEntry.documentedFrom [] behind.items with
  | error e => rfl
  | ok ds =>
    have hgathered := Rule.foldl_concat (fun d : Documented Identifier => d.item) ds []
    rw [List.nil_append] at hgathered
    show Except.ok (Typedef.handle (ds.map Documented.item), _) =
      Except.ok (Typedef.handle (List.foldl _ [] ds), _)
    rw [hgathered]

end Grammar

end WitxFrontEnd
