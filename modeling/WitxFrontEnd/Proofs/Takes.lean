import Mathlib.Data.List.TakeWhile
import WitxFrontEnd.Proofs.View

/-!
# What a cursor takes

Items begin with a run of comments, behind which there is nothing or an item that is no comment. To
step and to enter a form is to take one item together with the run before it (`Cursor.Takes`).
-/

namespace WitxFrontEnd

/-- Nothing but comments. -/
def AllComments (run : List Token) : Prop :=
  ∀ t ∈ run, t.kind.isComment = true

theorem AllComments.nil : AllComments [] :=
  List.forall_mem_nil _

theorem AllComments.isComment {run : List Token} (h : AllComments run) :
    ∀ i ∈ run.map Item.token, i.isComment = true := by
  intro i hi
  obtain ⟨t, ht, rfl⟩ := List.mem_map.1 hi
  exact h t ht

/-- Comments with a construct behind them are skipped up to it. -/
theorem AllComments.skip {run : List Token} (h : AllComments run) {i : Item}
    (hi : i.isComment = false) (rest : List Item) :
    Cursor.skipComments (run.map .token ++ i :: rest) = i :: rest := by
  rw [Cursor.skipComments, List.dropWhile_append_of_pos h.isComment, List.dropWhile_cons_of_neg]
  simp [hi]

/-- Comments are skipped up to the end. -/
theorem AllComments.skip_all {run : List Token} (h : AllComments run) :
    Cursor.skipComments (run.map .token) = [] :=
  List.dropWhile_eq_nil_iff.2 h.isComment

/-- Comments are taken up to what is none. -/
theorem AllComments.spanComments {run : List Token} (h : AllComments run) {rest : List Item}
    (hrest : ∀ i ∈ rest.head?, i.isComment = false) :
    Cursor.spanComments (run.map .token ++ rest) = (run, rest) := by
  induction run with
  | nil =>
    match rest, hrest with
    | [], _ => rfl
    | .form .. :: _, _ => rfl
    | .token t :: rest, hrest =>
      have ht : t.kind.isComment = false := hrest _ rfl
      simp [Cursor.spanComments, ht]
  | cons t run ih =>
    obtain ⟨ht, hrun⟩ := List.forall_mem_cons.1 h
    simp [Cursor.spanComments, ht, ih hrun]

/-- All items begin with comments up to where skipping them leads. -/
theorem exists_run (l : List Item) :
    ∃ run, AllComments run ∧ l = run.map .token ++ Cursor.skipComments l := by
  induction l with
  | nil => exact ⟨[], .nil, rfl⟩
  | cons i rest ih =>
    cases hi : i.isComment with
    | false =>
      refine ⟨[], .nil, ?_⟩
      rw [Cursor.skipComments, List.dropWhile_cons_of_neg (by simp [hi])]
      rfl
    | true =>
      obtain ⟨run, hrun, hrest⟩ := ih
      cases i with
      | form => cases hi
      | token t =>
        refine ⟨t :: run, List.forall_mem_cons.2 ⟨hi, hrun⟩, ?_⟩
        rw [Cursor.skipComments, List.dropWhile_cons_of_pos hi]
        exact congrArg (Item.token t :: ·) hrest

/-- The comments right before a construct are those that are given it. -/
theorem Entry.documentedFrom_run {α : Type} {entry : Entry α} {run : List Token}
    (hrun : AllComments run) (texts : List String) (l : List Item) :
    entry.documentedFrom texts (run.map .token ++ l) =
      entry.documentedFrom (texts ++ run.filterMap Token.comment?) l := by
  induction run generalizing texts with
  | nil => rw [List.filterMap_nil, List.append_nil]; rfl
  | cons t run ih =>
    obtain ⟨ht, hrun⟩ := List.forall_mem_cons.1 hrun
    obtain ⟨text, htext⟩ : ∃ text, t.comment? = some text :=
      Option.isSome_iff_exists.1 ((Item.isSome_comment? (.token t)).trans ht)
    rw [List.map_cons, List.cons_append, documentedFrom, Item.comment?, htext]
    dsimp only
    rw [ih hrun, List.filterMap_cons_some htext, List.append_assoc, List.singleton_append]

/-- Comments alone document nothing. -/
theorem Entry.documentedFrom_comments {α : Type} {entry : Entry α} {run : List Token}
    (hrun : AllComments run) : entry.documentedFrom [] (run.map .token) = .ok [] := by
  rw [← List.append_nil (run.map Item.token), documentedFrom_run hrun]
  rfl

/-- A construct behind comments has these comments, and those behind it have their own. -/
theorem Entry.documentedFrom_item {α : Type} {entry : Entry α} {run : List Token}
    (hrun : AllComments run) {i : Item} (hi : i.isComment = false) (rest : List Item) :
    entry.documentedFrom [] (run.map .token ++ i :: rest) = do
      let a ← entry i
      let more ← entry.documentedFrom [] rest
      return ⟨run.filterMap Token.comment?, a⟩ :: more := by
  have hcomment : i.comment? = none := by
    rw [← Option.not_isSome_iff_eq_none, Item.isSome_comment?, hi]
    exact Bool.false_ne_true
  rw [documentedFrom_run hrun, documentedFrom, hcomment]
  rfl

/-- What is left of the cursor is behind the item, which comes first but for comments. -/
structure Cursor.Takes (c : Cursor) (i : Item) (rest : Cursor) : Prop where
  shown : i.isComment = false
  items : ∃ run, AllComments run ∧ c.items = run.map .token ++ i :: rest.items

namespace Cursor

variable {c rest : Cursor} {i : Item}

/-- What is next behind the comments is taken. -/
theorem takes_of_skipComments {tail : List Item} (h : skipComments c.items = i :: tail)
    (hi : i.isComment = false) (hrest : rest.items = tail) : c.Takes i rest := by
  obtain ⟨run, hrun, hitems⟩ := exists_run c.items
  exact ⟨hi, run, hrun, by rw [hitems, h, hrest]⟩

/-- A step takes the item that it steps over. -/
theorem takes_of_step {pattern : Pattern} (h : c.step pattern = .ok (i, rest)) :
    c.Takes i rest ∧ pattern.accepts i = true := by
  unfold step at h
  rcases View.skipComments_cases c.items with hl | ⟨j, tail, hl, hj⟩
  · rw [hl] at h; cases h
  · rw [hl] at h
    dsimp only at h
    split at h
    · next ha =>
      cases h
      exact ⟨takes_of_skipComments hl hj rfl, ha⟩
    · cases h

/-- Entering takes the form that it enters. -/
theorem takes_of_enter {inner : Cursor} (h : c.enter = .ok (inner, rest)) :
    ∃ span, c.Takes (.form inner.items span inner.closing) rest := by
  unfold enter at h
  rcases View.skipComments_cases c.items with hl | ⟨j, tail, hl, hj⟩
  · rw [hl] at h; cases h
  · rw [hl] at h
    cases j with
    | token t => cases h
    | form children span closing =>
      cases h
      exact ⟨span, takes_of_skipComments hl hj rfl⟩

/-! ## The end of the frame stays -/

/-- A step stays before the same end. -/
theorem closing_of_step {pattern : Pattern} (h : c.step pattern = .ok (i, rest)) :
    rest.closing = c.closing := by
  unfold step at h
  split at h
  · split at h <;> cases h
    rfl
  · cases h

/-- Behind a form the end is the same. -/
theorem closing_of_enter {inner : Cursor} (h : c.enter = .ok (inner, rest)) :
    rest.closing = c.closing := by
  unfold enter at h
  split at h <;> cases h
  rfl

/-- A cursor behind the passed items is where they end. -/
theorem eq_drop {passed : List Item} (hitems : c.items = passed ++ rest.items)
    (hclosing : rest.closing = c.closing) : rest = ⟨c.items.drop passed.length, c.closing⟩ := by
  rw [hitems, List.drop_left, ← hclosing]

end Cursor

end WitxFrontEnd
