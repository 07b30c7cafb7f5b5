import WitxFrontEnd.Item

/-!
# Cursors

A `Cursor` stands before the items that are left of one form, or of the whole source. Comments
stay among the items: looking and stepping skip them, and only `comments` takes them. A cursor is
a value, so an operation that fails leaves nothing behind. Stepping and entering a form lead to a
smaller cursor (`size_step_lt`, `size_enter_lt`), which is what recursive grammar rules recurse on.
-/

namespace WitxFrontEnd

/-- The items not read yet, and the span at which the form, or the source, ends. Reference:
`Parser`. -/
structure Cursor where
  items : List Item
  closing : Span

namespace Cursor

/-- The cursor at the beginning of a source. Reference: `read`. -/
def ofSource (source : String) (filename : Option String) : Except ParseError Cursor := do
  let items ← Item.readAll source filename
  return ⟨items, (Position.start.advance source.toList).span filename⟩

/-- The cursor at the beginning of a source that is handed over as code points. -/
def ofCodePoints (source : List CodePoint) (filename : Option String) :
    Except ParseError Cursor := do
  let items ← Item.readCodePoints source filename
  return ⟨items, (Position.start.advance (shownText source).toList).span filename⟩

/-! ## Looking -/

/-- Items without the comments that they begin with. Reference: `_first`. -/
def skipComments (items : List Item) : List Item :=
  items.dropWhile Item.isComment

/-- The next item that is no comment. Reference: `Parser._next`. -/
def next? (c : Cursor) : Option Item :=
  (skipComments c.items).head?

/-- The token after the next one. If the next item is a form, that is its first. Reference:
`Parser._next2`. -/
def second? (c : Cursor) : Option Item :=
  match skipComments c.items with
  | [] => none
  | .form items _ _ :: _ => (skipComments items).head?
  | .token _ :: rest => (skipComments rest).head?

/-- Nothing but comments is left. Reference: `Parser.is_empty`. -/
def isEmpty (c : Cursor) : Bool :=
  c.next?.isNone

/-- Whether the next item matches. Reference: `Parser.peek`. -/
def peek (c : Cursor) (pattern : Pattern) : Bool :=
  c.next?.any pattern.accepts

/-- Whether the token after the next one matches. Reference: `Parser.peek2`. -/
def peekSecond (c : Cursor) (pattern : Pattern) : Bool :=
  c.second?.any pattern.accepts

/-- The span of the next item, or of the end. Reference: `Parser.cur_span`. -/
def span (c : Cursor) : Span :=
  match c.next? with
  | some item => item.span
  | none => c.closing

/-- An error at the next item. Reference: `Parser.error`. -/
def error (c : Cursor) (cause : Cause) : ParseError :=
  ⟨cause, some c.span⟩

/-! ## Moving -/

/-- Takes the next item, which has to match. Reference: `Parser.step`. -/
def step (c : Cursor) (pattern : Pattern) : Except ParseError (Item × Cursor) :=
  match skipComments c.items with
  | item :: rest =>
    if pattern.accepts item then .ok (item, { c with items := rest })
    else .error (c.error (.expected [pattern]))
  | [] => .error (c.error (.expected [pattern]))

/-- The comments that the items begin with, and the items behind them. -/
def spanComments : List Item → List Token × List Item
  | [] => ([], [])
  | .form items span closing :: rest => ([], .form items span closing :: rest)
  | .token t :: rest =>
    if t.kind.isComment then
      let (comments, rest) := spanComments rest
      (t :: comments, rest)
    else ([], .token t :: rest)

/-- Takes the comments that stand right at the cursor. Reference: `Parser.comments`. -/
def comments (c : Cursor) : List Token × Cursor :=
  let (comments, rest) := spanComments c.items
  (comments, { c with items := rest })

/-- Goes into the next item, which has to be a form: the cursor inside it, and the one behind. -/
def enter (c : Cursor) : Except ParseError (Cursor × Cursor) :=
  match skipComments c.items with
  | .form items _ closing :: rest => .ok (⟨items, closing⟩, { c with items := rest })
  | _ => .error (c.error (.expected [.leftParen]))

/-- Nothing may be left but comments. Reference: `_finish`. -/
def expectEnd (c : Cursor) (cause : Cause) : Except ParseError Unit :=
  if c.isEmpty then .ok () else .error (c.error cause)

/-- What was read, if it was read without a mistake and nothing is left. -/
def toEnd {α : Type} (cause : Cause) (reading : Except ParseError (α × Cursor)) :
    Except ParseError α := do
  let (a, rest) ← reading
  rest.expectEnd cause
  return a

/-! ## The size of what is left -/

/-- The number of tokens and forms that are left, those inside forms included. -/
def size (c : Cursor) : Nat :=
  Item.totalSize c.items

/-- Skipping comments makes nothing larger. -/
theorem totalSize_skipComments_le (items : List Item) :
    Item.totalSize (skipComments items) ≤ Item.totalSize items := by
  induction items with
  | nil => exact Nat.le_refl _
  | cons item rest ih =>
    unfold skipComments at ih ⊢
    rw [List.dropWhile_cons]
    split
    · simp only [Item.totalSize]; omega
    · exact Nat.le_refl _

/-- Less is left behind a step. -/
theorem size_step_lt {c rest : Cursor} {pattern : Pattern} {item : Item}
    (h : c.step pattern = .ok (item, rest)) : rest.size < c.size := by
  have hle := totalSize_skipComments_le c.items
  unfold step at h
  split at h
  · next hc =>
    split at h <;> cases h
    rw [hc, Item.totalSize] at hle
    have := item.size_pos
    simp only [size]
    omega
  · cases h

/-- Less is in a form than was left before it. -/
theorem size_enter_lt {c inner behind : Cursor} (h : c.enter = .ok (inner, behind)) :
    inner.size < c.size := by
  have hle := totalSize_skipComments_le c.items
  unfold enter at h
  split at h <;> cases h
  next hc =>
    rw [hc, Item.totalSize, Item.size] at hle
    simp only [size]
    omega

/-! ## Going on behind a word and inside a form -/

/-- Takes the next item, which has to match, and goes on behind it. What follows may rely on less
being left. -/
def past (c : Cursor) {α : Type} (pattern : Pattern)
    (next : (rest : Cursor) → rest.size < c.size → Except ParseError α) : Except ParseError α :=
  match h : c.step pattern with
  | .error e => .error e
  | .ok (_, rest) => next rest (size_step_lt h)

/-- Reads the next item, which has to be a form, with a rule that has to use it up. The rule may
rely on the form being smaller than what is left. Reference: `Parser.parens`. -/
def inForm (c : Cursor) {α : Type}
    (rule : (inner : Cursor) → inner.size < c.size → Except ParseError (α × Cursor)) :
    Except ParseError (α × Cursor) :=
  match h : c.enter with
  | .error e => .error e
  | .ok (inner, behind) => do
    let a ← toEnd .expectedClose (rule inner (size_enter_lt h))
    return (a, behind)

end Cursor

end WitxFrontEnd
