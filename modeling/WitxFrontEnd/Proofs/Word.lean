import WitxFrontEnd.Proofs.Lookahead
import WitxFrontEnd.Proofs.Prediction

/-!
# Words

The word of some items is their symbols without the comments, each with its span; the word of a
cursor ends with what comes behind its items, which is the paren of its form or the end of the
source. What a cursor shows is the beginning of its word: where it stands (`word_eq_cons`), the
item that a step takes (`step_cases`), the form that it goes into (`enter_cases`), the token behind
the next one (`peekSecond_eq`) and whether anything is left (`isEmpty_cases`).
-/

namespace WitxFrontEnd

namespace Item

mutual

/-- The symbols of an item with their spans. A comment has none. -/
def marks : Item → List (Mark × Span)
  | .token t => if t.kind.isComment then [] else [(some (.token t.kind t.text), t.span)]
  | .form items span closing =>
    (some .leftParen, span) :: (allMarks items ++ [(some .rightParen, closing)])

/-- The symbols of some items with their spans. -/
def allMarks : List Item → List (Mark × Span)
  | [] => []
  | i :: rest => i.marks ++ allMarks rest

end

/-- Comments have no marks. -/
theorem marks_of_isComment {i : Item} (h : i.isComment = true) : i.marks = [] := by
  cases i with
  | token t => exact if_pos h
  | form items span closing => cases h

theorem marks_token {t : Token} (h : t.kind.isComment = false) :
    (Item.token t).marks = [(some (.token t.kind t.text), t.span)] :=
  if_neg (by rw [h]; exact Bool.false_ne_true)

/-- So skipping them skips none. -/
theorem allMarks_skipComments (l : List Item) :
    allMarks (Cursor.skipComments l) = allMarks l := by
  induction l with
  | nil => rfl
  | cons i rest ih =>
    cases hi : i.isComment with
    | true =>
      rw [allMarks, marks_of_isComment hi, List.nil_append, ← ih]
      exact congrArg allMarks (List.dropWhile_cons_of_pos hi)
    | false => exact congrArg allMarks (List.dropWhile_cons_of_neg (by rw [hi]; exact nofun))

end Item

/-- No pattern but that of a paren asks for a form. -/
theorem Pattern.accepts_form {pattern : Pattern} (h : pattern ≠ .leftParen) (items : List Item)
    (span closing : Span) : pattern.accepts (.form items span closing) = false := by
  cases pattern with
  | leftParen => exact absurd rfl h
  | identifier | string | keyword | reserved => rfl

namespace Item

/-- The symbol that an item begins with is what a pattern asks for if the item is. -/
theorem exists_marks {i : Item} (h : i.isComment = false) :
    ∃ m tail, i.marks = (m, i.span) :: tail ∧ m ≠ none ∧ m ≠ some .rightParen ∧
      ∀ pattern : Pattern, pattern.accepts i = pattern.matches m := by
  cases i with
  | token t =>
    refine ⟨some (.token t.kind t.text), [], marks_token h, nofun, nofun, fun pattern => ?_⟩
    cases pattern <;> rfl
  | form items span closing =>
    refine ⟨some .leftParen, _, rfl, nofun, nofun, fun pattern => ?_⟩
    cases pattern <;> rfl

end Item

namespace Cursor

/-- The word of a cursor behind which the given mark stands. -/
def word (c : Cursor) (last : Mark) : List (Mark × Span) :=
  Item.allMarks c.items ++ [(last, c.closing)]

variable {c : Cursor} {last : Mark}

/-- The word of a cursor has the marks of what is left behind the comments. -/
theorem word_eq (c : Cursor) (last : Mark) :
    c.word last = Item.allMarks (skipComments c.items) ++ [(last, c.closing)] := by
  rw [word, Item.allMarks_skipComments]

/-- A mark that stands behind items begins none of them. -/
def Ends (last : Mark) : Prop :=
  ∀ pattern : Pattern, pattern.matches last = false

theorem ends_rightParen : Ends (some .rightParen) := fun pattern => by cases pattern <;> rfl

/-- A cursor stands at the first mark of its word. -/
theorem word_eq_cons (hlast : Ends last) : ∃ m tail, c.word last = (m, c.span) :: tail ∧
    ∀ pattern, c.peek pattern = pattern.matches m := by
  rw [word_eq]
  unfold span peek next?
  rcases View.skipComments_cases c.items with h | ⟨i, rest, h, hi⟩
  · rw [h]
    exact ⟨last, [], rfl, fun pattern => (hlast pattern).symm⟩
  · rw [h]
    obtain ⟨m, tail, hm, -, -, haccepts⟩ := Item.exists_marks hi
    refine ⟨m, tail ++ Item.allMarks rest ++ [(last, c.closing)], ?_, haccepts⟩
    rw [Item.allMarks, hm]
    rfl

/-- Nothing but the mark behind a cursor is left, or the word goes on with another one. -/
theorem isEmpty_cases (c : Cursor) (last : Mark) :
    (c.isEmpty = true ∧ c.word last = [(last, c.span)]) ∨
      (c.isEmpty = false ∧ ∃ m tail, c.word last = (m, c.span) :: tail ∧ m ≠ none ∧
        m ≠ some .rightParen) := by
  rw [word_eq]
  unfold isEmpty span next?
  rcases View.skipComments_cases c.items with h | ⟨i, rest, h, hi⟩
  · rw [h]
    exact .inl ⟨rfl, rfl⟩
  · rw [h]
    obtain ⟨m, tail, hm, hnone, hright, -⟩ := Item.exists_marks hi
    refine .inr ⟨rfl, m, tail ++ Item.allMarks rest ++ [(last, c.closing)], ?_, hnone, hright⟩
    rw [Item.allMarks, hm]
    rfl

/-- A step over a token takes the first mark of the word, if it is what the pattern asks for. -/
theorem step_cases (c : Cursor) (last : Mark) {pattern : Pattern}
    (hpattern : pattern ≠ .leftParen) :
    (∃ i rest m, c.step pattern = .ok (i, rest) ∧ c.word last = (m, c.span) :: rest.word last ∧
      pattern.matches m = true) ∨
    (c.step pattern = .error (c.error (.expected [pattern])) ∧ c.peek pattern = false) := by
  rw [word_eq]
  rcases View.skipComments_cases c.items with h | ⟨i, rest, h, hi⟩
  · exact .inr ⟨step_of_nil h pattern, peek_of_nil h pattern⟩
  · cases haccepts : pattern.accepts i with
    | false =>
      have hpeek : c.peek pattern = false := (peek_of_cons h pattern).trans haccepts
      refine .inr ⟨?_, hpeek⟩
      rw [step_of_cons h, hpeek]
      rfl
    | true =>
      cases i with
      | form items span closing =>
        rw [Pattern.accepts_form hpattern] at haccepts
        cases haccepts
      | token t =>
        refine .inl ⟨.token t, ⟨rest, c.closing⟩, some (.token t.kind t.text), ?_, ?_, ?_⟩
        · rw [step_of_cons h, peek_of_cons h, if_pos haccepts]
        · rw [span, next?, h, Item.allMarks, Item.marks_token hi]
          rfl
        · cases pattern <;> exact haccepts

/-- Going into a form takes its opening paren and leaves its word in front of what is behind. -/
theorem enter_cases (c : Cursor) (last : Mark) :
    (∃ inner behind, c.enter = .ok (inner, behind) ∧ c.peek .leftParen = true ∧
      (∀ pattern, c.peekSecond pattern = inner.peek pattern) ∧
      c.word last = (some .leftParen, c.span) ::
        (inner.word (some .rightParen) ++ behind.word last)) ∨
    (c.enter = .error (c.error (.expected [.leftParen])) ∧ c.peek .leftParen = false) := by
  rw [word_eq]
  rcases View.skipComments_cases c.items with h | ⟨i, rest, h, hi⟩
  · exact .inr ⟨by rw [enter, h], peek_of_nil h _⟩
  · cases i with
    | token t => exact .inr ⟨by rw [enter, h], peek_of_cons h _⟩
    | form items span closing =>
      refine .inl ⟨⟨items, closing⟩, ⟨rest, c.closing⟩, enter_of_form h, peek_of_cons h _,
        peekSecond_eq_peek (second?_of_form h), ?_⟩
      rw [Cursor.span, next?, h, Item.allMarks, Item.marks]
      simp [word, Item.span]

/-- The token behind the next one is the second mark of the word, unless a form comes first. -/
theorem peekSecond_eq (hlast : Ends last) (hform : c.peek .leftParen = false) {m : Mark} {s : Span}
    {tail : List (Mark × Span)} (hword : c.word last = (m, s) :: tail) (pattern : Pattern) :
    c.peekSecond pattern = tail.head?.any fun next => pattern.matches next.1 := by
  rw [word_eq] at hword
  rcases View.skipComments_cases c.items with h | ⟨i, rest, h, hi⟩
  · rw [h] at hword
    cases hword
    exact peekSecond_of_nil h pattern
  · rw [h] at hword
    rw [peek_of_cons h] at hform
    cases i with
    | form items span closing => cases hform
    | token t =>
      rw [Item.allMarks, Item.marks_token hi] at hword
      cases hword
      obtain ⟨m', tail', hrest, hpeek⟩ := word_eq_cons (c := ⟨rest, c.closing⟩) hlast
      change Item.allMarks rest ++ [(last, c.closing)] = _ at hrest
      rw [peekSecond_eq_peek (second?_of_token h), hpeek]
      show _ = (Item.allMarks rest ++ [(last, c.closing)]).head?.any _
      rw [hrest]
      rfl

end Cursor

end WitxFrontEnd
