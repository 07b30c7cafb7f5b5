/-!
# Positions and spans

A `Position` is where a reader of the source stands: how many characters are behind it, and the
line and column that these characters lead to. Only a line feed ends a line here; a carriage
return takes one column like any other character. A `Span` is a position as a report names it,
with the file it belongs to.
-/

namespace WitxFrontEnd

/-- A place in a source text. The offset counts characters from zero, line and column from one. -/
structure Position where
  offset : Nat
  line : Nat
  column : Nat
deriving DecidableEq, Repr

namespace Position

/-- The beginning of a text. -/
def start : Position := ⟨0, 1, 1⟩

/-- The position behind one more character. -/
def next (p : Position) (c : Char) : Position :=
  if c = '\n' then ⟨p.offset + 1, p.line + 1, 1⟩ else ⟨p.offset + 1, p.line, p.column + 1⟩

/-- The position behind a run of characters. -/
def advance (p : Position) (cs : List Char) : Position :=
  cs.foldl next p

@[simp] theorem advance_nil (p : Position) : p.advance [] = p := rfl

@[simp] theorem advance_cons (p : Position) (c : Char) (cs : List Char) :
    p.advance (c :: cs) = (p.next c).advance cs := rfl

/-- A position moves over texts one behind the other. -/
theorem advance_append (p : Position) (cs ds : List Char) :
    p.advance (cs ++ ds) = (p.advance cs).advance ds :=
  List.foldl_append

/-- Every character moves the offset by one. -/
theorem offset_advance (p : Position) (cs : List Char) :
    (p.advance cs).offset = p.offset + cs.length := by
  induction cs generalizing p with
  | nil => rfl
  | cons c cs ih =>
    have hc : (p.next c).offset = p.offset + 1 := by unfold next; split <;> rfl
    rw [advance_cons, ih, hc, List.length_cons]
    omega

/-- Every line feed moves the line by one. -/
theorem line_advance (p : Position) (cs : List Char) :
    (p.advance cs).line = p.line + cs.count '\n' := by
  induction cs generalizing p with
  | nil => rfl
  | cons c cs ih =>
    rw [advance_cons, ih, List.count_cons]
    unfold next
    split
    · next hc => subst hc; simp only [beq_self_eq_true, ↓reduceIte]; omega
    · next hc => simp [hc]

end Position

/-- A position in a report. A span may also be made up by whoever reports, so its numbers are
integers and need not name a place of any text. Reference: `Span`. -/
structure Span where
  offset : Int
  line : Int
  column : Int
  filename : Option String
deriving DecidableEq, Repr, Hashable

/-- The span of a position in the given file. -/
def Position.span (p : Position) (filename : Option String) : Span :=
  ⟨p.offset, p.line, p.column, filename⟩

namespace Span

/-- Line and column, behind the file's name unless that is missing or empty. -/
def toString (s : Span) : String :=
  let place := ToString.toString s.line ++ ":" ++ ToString.toString s.column
  match s.filename with
  | none => place
  | some name => if name.isEmpty then place else name ++ ":" ++ place

instance : ToString Span := ⟨toString⟩

end Span

end WitxFrontEnd
