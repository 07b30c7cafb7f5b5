import WitxFrontEnd.Proofs.Munch
import WitxFrontEnd.Proofs.Relocation

/-!
# Texts moved down

A text that is put behind some whole lines is read as before, except that every position is moved
by the characters and the lines in front of it. A `Shift` is such a move. The scan commutes with it
(`ofChars_pos`), since a column depends on nothing but the characters of its own line. All that is
made of a scan commutes with every move (`Nest.foldlM_relocate`, `Item.ofForest_relocate`), and for
the grammar the shift is a view.
-/

namespace WitxFrontEnd

/-- How far positions are moved: by some characters, some of which end a line. -/
structure Shift where
  offset : Nat
  line : Nat

namespace Shift

variable (m : Shift)

/-! ## Positions -/

/-- A position moved down. Whole lines are in front of it, so its column stays. -/
def pos (p : Position) : Position :=
  ⟨p.offset + m.offset, p.line + m.line, p.column⟩

/-- A span moved down. -/
def span (s : Span) : Span :=
  { s with offset := s.offset + m.offset, line := s.line + m.line }

/-- Items and trees with their spans moved down. -/
def view : View :=
  ⟨true, m.span⟩

/-- The span of a position moved is its span moved. -/
theorem span_pos (p : Position) (filename : Option String) :
    (m.pos p).span filename = m.span (p.span filename) := by
  simp [pos, span, Position.span]

/-- Behind a character a position moved is the next one moved. -/
theorem next_pos (p : Position) (c : Char) : (m.pos p).next c = m.pos (p.next c) := by
  unfold Position.next
  split <;> simp [pos] <;> omega

/-- Behind some text as well. -/
theorem advance_pos (p : Position) (cs : List Char) :
    (m.pos p).advance cs = m.pos (p.advance cs) := by
  induction cs generalizing p with
  | nil => rfl
  | cons c cs ih => rw [Position.advance_cons, Position.advance_cons, next_pos, ih]

/-! ## Scans -/

/-- A scan moved down. -/
def scan (s : Scan) : Scan :=
  ⟨s.lexemes.map (Lexeme.relocate m.pos), s.stuck.map fun (p, c) => (m.pos p, c)⟩

/-- The scan of a text further down is its scan moved down. -/
theorem ofChars_pos (p : Position) (cs : List Char) :
    Scan.ofChars (m.pos p) cs = m.scan (Scan.ofChars p cs) := by
  fun_induction Scan.ofChars p cs with
  | case1 p => rw [Scan.ofChars]; rfl
  | case2 p c cs hspace ih => rw [Scan.ofChars_space hspace, next_pos, ih]
  | case3 p c cs hspace hmunch =>
    rw [Scan.ofChars_stuck (Bool.not_eq_true _ ▸ hspace) hmunch]
    rfl
  | case4 p c cs hspace shape text rest hmunch more ih =>
    obtain ⟨hcs, hstands⟩ := Lexeme.munch_eq_some_iff.1 hmunch
    rw [hcs, Scan.ofChars_stands hstands, advance_pos, ih]
    rfl

end Shift

end WitxFrontEnd
