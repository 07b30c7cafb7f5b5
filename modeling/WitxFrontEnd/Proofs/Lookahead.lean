import WitxFrontEnd.Proofs.Rule
import WitxFrontEnd.Proofs.Takes

/-!
# Looking ahead

Looking one item ahead, looking two items ahead, stepping and entering a form are functions of
their own, and each finds its own way through the comments. `Cursor.lookahead_foretells` says that
they agree: what is seen is what is taken, and what is seen behind the next item is what would be
seen from where moving over it, or into it, leads.
-/

namespace WitxFrontEnd

/-- A token that is no comment can be asked for. -/
theorem Pattern.exists_accepts {t : Token} (h : t.kind.isComment = false) :
    ∃ pattern : Pattern, pattern.accepts (.token t) = true := by
  obtain ⟨kind, text, span⟩ := t
  cases kind with
  | string => exact ⟨.string, rfl⟩
  | identifier => exact ⟨.identifier, rfl⟩
  | keyword => exact ⟨.keyword text, by simp [accepts]⟩
  | reserved => exact ⟨.reserved text, by simp [accepts]⟩
  | lineComment | blockComment => cases h

namespace Cursor

/-! ## Nothing is left -/

section

variable {c : Cursor} (h : skipComments c.items = [])
include h

/-- There is an end where nothing is next. -/
theorem isEmpty_of_nil : c.isEmpty = true := by
  rw [isEmpty, next?, h]
  rfl

/-- No pattern is seen at the end. -/
theorem peek_of_nil (pattern : Pattern) : c.peek pattern = false := by
  rw [peek, next?, h]
  rfl

/-- Nor is any behind it. -/
theorem peekSecond_of_nil (pattern : Pattern) : c.peekSecond pattern = false := by
  rw [peekSecond, second?, h]
  rfl

/-- Nothing can be stepped over at the end. -/
theorem step_of_nil (pattern : Pattern) :
    c.step pattern = .error (c.error (.expected [pattern])) := by
  rw [step, h]

end

/-! ## An item is next -/

section

variable {c : Cursor} {i : Item} {rest : List Item} (h : skipComments c.items = i :: rest)
include h

/-- There is no end where an item is next. -/
theorem isEmpty_of_cons : c.isEmpty = false := by
  rw [isEmpty, next?, h]
  rfl

/-- What is seen is the next item. -/
theorem peek_of_cons (pattern : Pattern) : c.peek pattern = pattern.accepts i := by
  rw [peek, next?, h]
  rfl

/-- Mistakes are at the next item. -/
theorem error_of_cons (cause : Cause) : c.error cause = ⟨cause, some i.span⟩ := by
  rw [error, span, next?, h]
  rfl

/-- What is seen is taken, and nothing else is. -/
theorem step_of_cons (pattern : Pattern) :
    c.step pattern =
      if c.peek pattern then .ok (i, ⟨rest, c.closing⟩)
      else .error (c.error (.expected [pattern])) := by
  rw [peek_of_cons h, step, h]

end

/-! ## What comes behind it -/

/-- To look at the item behind the next one is to look from another cursor. -/
theorem peekSecond_eq_peek {c d : Cursor} (h : c.second? = d.next?) (pattern : Pattern) :
    c.peekSecond pattern = d.peek pattern := by
  rw [peekSecond, peek, h]

/-- Behind a token the token after it is next. -/
theorem second?_of_token {c : Cursor} {t : Token} {rest : List Item}
    (h : skipComments c.items = .token t :: rest) :
    c.second? = (⟨rest, c.closing⟩ : Cursor).next? := by
  rw [second?, h]
  rfl

section

variable {c : Cursor} {children rest : List Item} {span closing : Span}
  (h : skipComments c.items = .form children span closing :: rest)
include h

/-- Inside a form its first token is next. -/
theorem second?_of_form : c.second? = (⟨children, closing⟩ : Cursor).next? := by
  rw [second?, h]
  rfl

/-- A form that is next can be entered. -/
theorem enter_of_form : c.enter = .ok (⟨children, closing⟩, ⟨rest, c.closing⟩) := by
  rw [enter, h]

/-- A rule for the form begins where the form does, and the cursor goes on behind the form. -/
theorem inForm_of_form {α : Type} (rule : Rule α) :
    rule.inForm c =
      (toEnd .expectedClose (rule ⟨children, closing⟩)).map (·, ⟨rest, c.closing⟩) := by
  rw [Rule.inForm_apply, enter_of_form h]
  cases hread : toEnd .expectedClose (rule ⟨children, closing⟩) <;> simp only [hread] <;> rfl

end

/-- Looking ahead tells what moving would show. If nothing but comments is left, nothing is seen
and no step succeeds. Otherwise an item is next, behind some comments. A step succeeds if and only
if the item is seen, and takes the item and these comments. What is seen behind it is what is seen
inside it where every rule for it begins, if it is a form, and what is seen behind a step over it,
if it is a token. -/
theorem lookahead_foretells (c : Cursor) :
    ((∀ i ∈ c.items, i.isComment = true) ∧ ∀ pattern : Pattern,
      c.peek pattern = false ∧ c.peekSecond pattern = false ∧
        c.step pattern = .error (c.error (.expected [pattern]))) ∨
    ∃ run i rest, AllComments run ∧ i.isComment = false ∧ c.items = run.map .token ++ i :: rest ∧
      (∀ pattern : Pattern, c.peek pattern = pattern.accepts i ∧
        c.step pattern =
          if c.peek pattern then .ok (i, ⟨rest, c.closing⟩)
          else .error (c.error (.expected [pattern]))) ∧
      match i with
      | .form children _ closing =>
        c.second? = (⟨children, closing⟩ : Cursor).next? ∧
        (∀ pattern, c.peekSecond pattern = (⟨children, closing⟩ : Cursor).peek pattern) ∧
        ∀ (α : Type) (rule : Rule α),
          rule.inForm c =
            (toEnd .expectedClose (rule ⟨children, closing⟩)).map (·, ⟨rest, c.closing⟩)
      | .token t =>
        (∃ pattern, c.step pattern = .ok (.token t, ⟨rest, c.closing⟩)) ∧
        c.second? = (⟨rest, c.closing⟩ : Cursor).next? ∧
        ∀ pattern, c.peekSecond pattern = (⟨rest, c.closing⟩ : Cursor).peek pattern := by
  obtain ⟨run, hrun, hitems⟩ := exists_run c.items
  rcases View.skipComments_cases c.items with h | ⟨i, rest, h, hi⟩
  · rw [h, List.append_nil] at hitems
    refine .inl ⟨?_, fun pattern => ⟨peek_of_nil h pattern, peekSecond_of_nil h pattern,
      step_of_nil h pattern⟩⟩
    rw [hitems]
    exact hrun.isComment
  · rw [h] at hitems
    refine .inr ⟨run, i, rest, hrun, hi, hitems,
      fun pattern => ⟨peek_of_cons h pattern, step_of_cons h pattern⟩, ?_⟩
    cases i with
    | form children span closing =>
      have hsecond := second?_of_form h
      exact ⟨hsecond, peekSecond_eq_peek hsecond, fun α rule => inForm_of_form h rule⟩
    | token t =>
      have hsecond := second?_of_token h
      obtain ⟨pattern, haccepts⟩ := Pattern.exists_accepts hi
      refine ⟨⟨pattern, ?_⟩, hsecond, peekSecond_eq_peek hsecond⟩
      rw [step_of_cons h, peek_of_cons h, if_pos haccepts]

end Cursor

end WitxFrontEnd
