import WitxFrontEnd.Proofs.CodePoints
import WitxFrontEnd.Proofs.Decoding

/-!
# Two ways to cut a literal

The scanner finds the end of a literal in cells of one or two characters: a backslash takes the next
character along. The loop that decodes the literal goes by units, and an escape has two characters,
three, or any number of them. `decode_in_step` says that the loop is never out of step with the
scanner: wherever a turn of it begins, a cell begins, so it never comes to a backslash that is the
last character of the body. The one turn that ends in no mistake of the source is one that begins at
a raw surrogate.

What carries the run is that the characters of a unit are themselves the body of a string
(`Turn.exists_text`, `quotedBody_of_spells`) and that a text has one cut into cells only
(`exists_append_of_flatten`). So a loop that has read whole cells has read whole cells after one
turn more (`Comes.exists_append`).
-/

namespace WitxFrontEnd.Literal

/-! ## Cells -/

/-- What the scanner takes at once from the body of a string: a code point that is no quote and no
backslash, or a backslash and the code point behind it. -/
inductive Cell : List CodePoint → Prop
  | plain {p : CodePoint} (hquote : p ≠ .char '\"') (hbackslash : p ≠ .char '\\') : Cell [p]
  | escaped (p : CodePoint) : Cell [.char '\\', p]

/-- A cell is not empty. -/
theorem Cell.ne_nil {cell : List CodePoint} (h : Cell cell) : cell ≠ [] := by
  cases h <;> exact List.cons_ne_nil _ _

/-- No cell is the beginning of another one. -/
theorem Cell.append_inj {cell cell' rest rest' : List CodePoint} (h : Cell cell) (h' : Cell cell')
    (heq : cell ++ rest = cell' ++ rest') : cell = cell' ∧ rest = rest' := by
  cases h with
  | plain _ hbackslash =>
    cases h' with
    | plain => simpa using heq
    | escaped => exact absurd (List.cons.inj heq).1 hbackslash
  | escaped c =>
    cases h' with
    | plain _ hbackslash => exact absurd (List.cons.inj heq).1.symm hbackslash
    | escaped => simpa using heq

/-- Whatever is cut into cells is the body of a string. -/
theorem quotedBody_flatten {cells : List (List CodePoint)} (h : ∀ cell ∈ cells, Cell cell) :
    QuotedBody (cells.flatten.map CodePoint.shown) := by
  induction cells with
  | nil => exact .nil
  | cons cell cells ih =>
    obtain ⟨hcell, hcells⟩ := List.forall_mem_cons.1 h
    rw [List.flatten_cons, List.map_append]
    cases hcell with
    | plain hquote hbackslash =>
      exact .plain (fun h => hquote (eq_char_of_shown h (by decide)))
        (fun h => hbackslash (eq_char_of_shown h (by decide))) (ih hcells)
    | escaped p => exact .escaped p.shown (ih hcells)

/-- The body of a string can be cut into cells. -/
theorem exists_cells {body : List CodePoint} (h : QuotedBody (body.map CodePoint.shown)) :
    ∃ cells : List (List CodePoint), (∀ cell ∈ cells, Cell cell) ∧ cells.flatten = body := by
  generalize hshown : body.map CodePoint.shown = shown at h
  induction h generalizing body with
  | nil =>
    rw [List.map_eq_nil_iff] at hshown
    exact ⟨[], List.forall_mem_nil _, hshown.symm⟩
  | plain hquote hbackslash _ ih =>
    obtain ⟨p, rest, rfl, rfl, hrest⟩ := List.map_eq_cons_iff.1 hshown
    obtain ⟨cells, hcells, rfl⟩ := ih hrest
    refine ⟨[p] :: cells, List.forall_mem_cons.2 ⟨.plain ?_ ?_, hcells⟩, rfl⟩
    · exact fun h => hquote (congrArg CodePoint.shown h)
    · exact fun h => hbackslash (congrArg CodePoint.shown h)
  | escaped c _ ih =>
    obtain ⟨p, tail, rfl, hp, htail⟩ := List.map_eq_cons_iff.1 hshown
    obtain ⟨q, rest, rfl, -, hrest⟩ := List.map_eq_cons_iff.1 htail
    obtain ⟨cells, hcells, rfl⟩ := ih hrest
    rw [eq_char_of_shown hp (by decide)]
    exact ⟨[.char '\\', q] :: cells, List.forall_mem_cons.2 ⟨.escaped q, hcells⟩, rfl⟩

/-- There is only one cut: cells at the front of a text are the first ones of all its cells. -/
theorem exists_append_of_flatten {cells first : List (List CodePoint)} {rest : List CodePoint}
    (hcells : ∀ cell ∈ cells, Cell cell) (hfirst : ∀ cell ∈ first, Cell cell)
    (h : cells.flatten = first.flatten ++ rest) :
    ∃ others, cells = first ++ others ∧ others.flatten = rest := by
  induction first generalizing cells with
  | nil => exact ⟨cells, rfl, h⟩
  | cons cell first ih =>
    rw [List.forall_mem_cons] at hfirst
    rw [List.flatten_cons, List.append_assoc] at h
    cases cells with
    | nil => exact absurd (List.append_eq_nil_iff.1 h.symm).1 hfirst.1.ne_nil
    | cons cell' cells =>
      rw [List.forall_mem_cons] at hcells
      rw [List.flatten_cons] at h
      obtain ⟨rfl, htail⟩ := hcells.1.append_inj hfirst.1 h
      obtain ⟨others, rfl, hothers⟩ := ih hcells.2 hfirst.2 htail
      exact ⟨others, rfl, hothers⟩

/-- A spelling is the body of a string. -/
theorem quotedBody_of_spells {text : List Char} {bs : List UInt8} (h : Spells text bs) :
    QuotedBody ((text.map CodePoint.char).map CodePoint.shown) := by
  rw [map_shown_char]
  exact Lexeme.closeQuote_eq_some_iff_quotedBody.1 (closeQuote_of_spells h)

/-! ## The loop -/

/-- A turn of the loop over a body reads a unit at a position and goes on at the position behind
the unit. -/
inductive Turn (body : List CodePoint) (pos : Nat) : StringUnit → Nat → Prop
  | raw {c : Char} {cs : List CodePoint} (hleft : body.drop pos = .char c :: cs)
      (hbackslash : c ≠ '\\') : Turn body pos (.raw c) (pos + 1)
  | escape {cs : List CodePoint} {rest : List Char} {unit : StringUnit} {next : Nat}
      (hleft : body.drop pos = .char '\\' :: cs)
      (hescape : Literal.escape (cs.map CodePoint.shown) = .ok (unit, rest))
      (hnext : next + rest.length = body.length) : Turn body pos unit next

/-- The turn at a position finds an escape that is none, or a code point without an encoding. -/
inductive Fails (body : List CodePoint) (pos : Nat) : LiteralFault → Prop
  | escape {cs : List CodePoint} {fault : LiteralFault} (hleft : body.drop pos = .char '\\' :: cs)
      (hescape : Literal.escape (cs.map CodePoint.shown) = .error fault) : Fails body pos fault
  | surrogate {half : Fin 0x800} {cs : List CodePoint}
      (hleft : body.drop pos = .surrogate half :: cs) : Fails body pos (.surrogate half)

/-- The loop over a body comes to the position and has then read the units. -/
inductive Comes (body : List CodePoint) : Nat → List StringUnit → Prop
  | start : Comes body 0 []
  | turn {pos next : Nat} {us : List StringUnit} {unit : StringUnit} (h : Comes body pos us)
      (hturn : Turn body pos unit next) : Comes body next (us ++ [unit])

/-- There is a turn wherever the body has not come to its end. -/
theorem exists_turn_or_fails {body : List CodePoint} {pos : Nat} (h : pos < body.length) :
    (∃ unit next, Turn body pos unit next) ∨ ∃ fault, Fails body pos fault := by
  have hleft := List.drop_eq_getElem_cons h
  cases hp : body[pos] with
  | surrogate half =>
    rw [hp] at hleft
    exact .inr ⟨_, .surrogate hleft⟩
  | char c =>
    rw [hp] at hleft
    by_cases hbackslash : c = '\\'
    · subst hbackslash
      cases hescape : escape ((body.drop (pos + 1)).map CodePoint.shown) with
      | ok found =>
        obtain ⟨unit, rest⟩ := found
        have hlt := length_escape_lt hescape
        rw [List.length_map, List.length_drop] at hlt
        exact .inl ⟨unit, body.length - rest.length, .escape hleft hescape (by omega)⟩
      | error fault => exact .inr ⟨fault, .escape hleft hescape⟩
    · exact .inl ⟨_, _, .raw hleft hbackslash⟩

section

variable {body : List CodePoint} {pos next : Nat} {unit : StringUnit} {us : List StringUnit}

/-- In a string's body a turn passes over characters that spell its unit, and the units of what is
left begin with it. -/
theorem Turn.exists_text (h : Turn body pos unit next)
    (hbody : QuotedBody ((body.drop pos).map CodePoint.shown)) :
    ∃ text rest, body.drop pos = text.map .char ++ rest ∧ next = pos + text.length ∧ text ≠ [] ∧
      Spells text unit.bytes ∧ units (text.map .char ++ rest) = (units rest).map (unit :: ·) := by
  cases h with
  | @raw c cs hleft hbackslash =>
    rw [hleft] at hbody
    have hraw := Spells.raw (quotedBody_of_cons hbody hbackslash).1 hbackslash .nil
    rw [List.append_nil] at hraw
    exact ⟨[c], cs, hleft, rfl, List.cons_ne_nil _ _, hraw, units_raw hbackslash cs⟩
  | @escape cs behind _ _ hleft hescape hnext =>
    rw [hleft] at hbody
    cases cs with
    | nil =>
      cases hbody with
      | plain _ hbackslash => exact absurd rfl hbackslash
    | cons p cs =>
      obtain ⟨text, rest, hcs, rfl, hspells, hunits⟩ := exists_of_escape hescape
      have hlength := congrArg List.length hleft
      rw [hcs, List.length_drop, List.length_cons, List.length_append, List.length_map] at hlength
      rw [List.length_map] at hnext
      refine ⟨'\\' :: text, rest, by rw [hleft, hcs]; rfl, ?_, List.cons_ne_nil _ _, hspells, ?_⟩
      · rw [List.length_cons]
        omega
      · rw [List.map_cons, List.cons_append, ← hcs]
        exact hunits

/-- No units can be read from where a turn fails. -/
theorem Fails.units_eq {fault : LiteralFault} (h : Fails body pos fault) :
    units (body.drop pos) = .error fault := by
  cases h with
  | escape hleft hescape => rw [hleft, units_of_escape_error hescape]
  | surrogate hleft => rw [hleft, units_surrogate]

/-- Where a turn over a string's body fails no unit begins. -/
theorem Fails.stops {fault : LiteralFault} (h : Fails body pos fault)
    (hbody : QuotedBody ((body.drop pos).map CodePoint.shown)) : Stops (body.drop pos) fault := by
  cases h with
  | surrogate hleft =>
    rw [hleft]
    exact .surrogate _ _
  | @escape cs _ hleft hescape =>
    rw [hleft] at hbody ⊢
    cases cs with
    | nil =>
      cases hbody with
      | plain _ hbackslash => exact absurd rfl hbackslash
    | cons p cs =>
      have hread := readOrBad_escape p.shown (cs.map CodePoint.shown)
      rw [← List.map_cons, hescape] at hread
      exact .escape hread.1 hread.2

end

/-! ## In step -/

/-- What is so wherever a turn of the loop begins over a body that is cut into these cells. -/
structure InStep (cells : List (List CodePoint)) (pos : Nat) : Prop where
  /-- A cell begins there. -/
  begins : ∃ before cell after, cells = before ++ cell :: after ∧ before.flatten.length = pos
  /-- A backslash that stands there is not the last character. -/
  behind : cells.flatten[pos]? = some (.char '\\') → pos + 1 < cells.flatten.length
  /-- The turn reads a unit, or it fails. -/
  turns : (∃ unit next, Turn cells.flatten pos unit next) ∨ ∃ fault, Fails cells.flatten pos fault
  /-- The next position is a later one within the body, and what is between the two spells the
  unit. -/
  advances : ∀ unit next, Turn cells.flatten pos unit next →
    pos < next ∧ next ≤ cells.flatten.length ∧
      Writes ((cells.flatten.take next).drop pos) unit.bytes
  /-- A turn fails for what stands there. -/
  fails : ∀ fault, Fails cells.flatten pos fault → Stops (cells.flatten.drop pos) fault

section

variable {cells : List (List CodePoint)} (hcells : ∀ cell ∈ cells, Cell cell)
include hcells

/-- The loop has read whole cells. -/
theorem Comes.exists_append {pos : Nat} {us : List StringUnit} (h : Comes cells.flatten pos us) :
    ∃ before after, cells = before ++ after ∧ before.flatten.length = pos ∧
      cells.flatten.drop pos = after.flatten := by
  induction h with
  | start => exact ⟨[], cells, rfl, rfl, rfl⟩
  | @turn pos next us unit _ hturn ih =>
    obtain ⟨before, after, hcut, hlength, hleft⟩ := ih
    have hafter : ∀ cell ∈ after, Cell cell := fun cell hcell =>
      hcells cell (hcut ▸ List.mem_append_right before hcell)
    obtain ⟨text, rest, htext, rfl, -, hspells, -⟩ :=
      hturn.exists_text (hleft ▸ quotedBody_flatten hafter)
    -- The characters of the unit have a cut of their own, which is where the cells go on.
    obtain ⟨first, hfirst, hflat⟩ := exists_cells (quotedBody_of_spells hspells)
    rw [← hflat] at htext
    obtain ⟨others, rfl, rfl⟩ := exists_append_of_flatten hafter hfirst (hleft ▸ htext)
    have hfirstLength : first.flatten.length = text.length := by rw [hflat, List.length_map]
    refine ⟨before ++ first, others, by rw [hcut, List.append_assoc], ?_, ?_⟩
    · rw [List.flatten_append, List.length_append, hlength, hfirstLength]
    · rw [← List.drop_drop, htext, List.drop_left' hfirstLength]

/-- What the loop has not read yet is the body of a string. -/
theorem Comes.quotedBody {pos : Nat} {us : List StringUnit} (h : Comes cells.flatten pos us) :
    QuotedBody ((cells.flatten.drop pos).map CodePoint.shown) := by
  obtain ⟨before, after, hcut, -, hleft⟩ := h.exists_append hcells
  rw [hleft]
  exact quotedBody_flatten fun cell hcell => hcells cell (hcut ▸ List.mem_append_right before hcell)

/-- The units of the body are those that the loop has read, and those of what is left. -/
theorem Comes.units_eq {pos : Nat} {us : List StringUnit} (h : Comes cells.flatten pos us) :
    units cells.flatten = (units (cells.flatten.drop pos)).map (us ++ ·) := by
  induction h with
  | start =>
    rw [List.drop_zero]
    cases units cells.flatten <;> rfl
  | @turn pos next us unit h hturn ih =>
    obtain ⟨text, rest, htext, rfl, -, -, hunits⟩ := hturn.exists_text (h.quotedBody hcells)
    rw [ih, ← List.drop_drop, htext, hunits, List.drop_left' (List.length_map _)]
    cases units rest <;> simp [Except.map]

/-- The loop never passes the end of the body. -/
theorem Comes.le_length {pos : Nat} {us : List StringUnit} (h : Comes cells.flatten pos us) :
    pos ≤ cells.flatten.length := by
  obtain ⟨before, after, hcut, hlength, -⟩ := h.exists_append hcells
  rw [hcut, List.flatten_append, List.length_append]
  omega

/-- Wherever a turn of the loop begins, the loop is in step with the cells. -/
theorem Comes.in_step {pos : Nat} {us : List StringUnit} (h : Comes cells.flatten pos us)
    (hpos : pos < cells.flatten.length) : InStep cells pos := by
  obtain ⟨before, after, hcut, hlength, hleft⟩ := h.exists_append hcells
  have hbody := h.quotedBody hcells
  refine ⟨?begins, ?behind, exists_turn_or_fails hpos, ?advances, ?fails⟩
  case begins =>
    cases after with
    | nil =>
      rw [List.flatten_nil, List.drop_eq_nil_iff] at hleft
      omega
    | cons cell others => exact ⟨before, cell, others, hcut, hlength⟩
  case behind =>
    intro hbackslash
    rw [← List.head?_drop, List.head?_eq_some_iff] at hbackslash
    obtain ⟨cs, hcs⟩ := hbackslash
    rw [hcs] at hbody
    cases cs with
    | nil =>
      cases hbody with
      | plain _ hne => exact absurd rfl hne
    | cons p cs =>
      have hleftLength := congrArg List.length hcs
      simp only [List.length_drop, List.length_cons] at hleftLength
      omega
  case advances =>
    intro unit next hturn
    obtain ⟨text, rest, htext, rfl, hne, hspells, -⟩ := hturn.exists_text hbody
    have hleftLength := congrArg List.length htext
    have htextLength := List.length_pos_iff.2 hne
    rw [List.length_drop, List.length_append, List.length_map] at hleftLength
    refine ⟨by omega, by omega, ?_⟩
    rw [List.drop_take, Nat.add_sub_cancel_left, htext, List.take_left' (List.length_map _)]
    exact writes_map_char.2 hspells
  case fails => exact fun fault hfails => hfails.stops hbody

/-- From wherever it stands the loop comes to the end, or to a turn that fails. -/
theorem Comes.exists_end {pos : Nat} {us : List StringUnit} (h : Comes cells.flatten pos us) :
    (∃ us, Comes cells.flatten cells.flatten.length us) ∨
      ∃ pos us fault, pos < cells.flatten.length ∧ Comes cells.flatten pos us ∧
        Fails cells.flatten pos fault := by
  induction hleft : cells.flatten.length - pos using Nat.strongRecOn generalizing pos us with
  | ind n ih =>
  rcases Nat.eq_or_lt_of_le (h.le_length hcells) with rfl | hpos
  · exact .inl ⟨us, h⟩
  · have hstep := h.in_step hcells hpos
    rcases hstep.turns with ⟨unit, next, hturn⟩ | ⟨fault, hfails⟩
    · obtain ⟨hlater, hwithin, -⟩ := hstep.advances unit next hturn
      exact ih _ (by omega) (h.turn hturn) rfl
    · exact .inr ⟨pos, us, fault, hpos, h, hfails⟩

/-- A loop that has come to the end has read all units of the body. -/
theorem Comes.units_eq_ok {us : List StringUnit} (h : Comes cells.flatten cells.flatten.length us) :
    units cells.flatten = .ok us := by
  rw [h.units_eq hcells, List.drop_length, units]
  show Except.ok (us ++ []) = _
  rw [List.append_nil]

/-- A body over which a turn fails has no units. -/
theorem Comes.units_eq_error {pos : Nat} {us : List StringUnit} {fault : LiteralFault}
    (h : Comes cells.flatten pos us) (hfails : Fails cells.flatten pos fault) :
    units cells.flatten = .error fault := by
  rw [h.units_eq hcells, hfails.units_eq]
  rfl

/-- Decoding is given up if and only if a turn of the loop begins at a surrogate. -/
theorem exists_comes_surrogate_iff :
    (∃ half, decodeBody cells.flatten = .error (.surrogate half)) ↔
      ∃ pos us half, Comes cells.flatten pos us ∧
        cells.flatten[pos]? = some (.surrogate half) := by
  constructor
  · rintro ⟨half, hdecode⟩
    rw [decodeBody] at hdecode
    rcases Comes.start.exists_end hcells with ⟨us, hend⟩ | ⟨pos, us, fault, -, hcomes, hfails⟩
    · rw [hend.units_eq_ok hcells] at hdecode
      dsimp only at hdecode
      split at hdecode <;> cases hdecode
    · rw [hcomes.units_eq_error hcells hfails] at hdecode
      cases hdecode
      have hstops := hfails.stops (hcomes.quotedBody hcells)
      generalize hleft : cells.flatten.drop pos = left at hstops
      cases hstops with
      | escape hkind => cases hkind
      | surrogate _ cs => exact ⟨pos, us, half, hcomes, by rw [← List.head?_drop, hleft]; rfl⟩
  · rintro ⟨pos, us, half, hcomes, hat⟩
    rw [← List.head?_drop, List.head?_eq_some_iff] at hat
    obtain ⟨cs, hleft⟩ := hat
    refine ⟨half, ?_⟩
    rw [decodeBody, hcomes.units_eq_error hcells (.surrogate hleft)]

end

/-- The loop that decodes a literal keeps in step with the scanner that found it. Wherever a turn
begins, a cell of the scanner's begins, a backslash there has a code point behind it, and the turn
leads to a later position within the body or fails for what stands there. The decoding ends as the
loop does, and it never looks behind the end of the body. What it ends with is a mistake in the
source, unless a turn begins at a surrogate: this has no encoding. -/
theorem decode_in_step {source : List CodePoint} {l : Lexeme}
    (hl : l ∈ (Scan.ofSource (shownText source)).lexemes) (hshape : l.shape = .leaf .string) :
    ∃ cells : List (List CodePoint), (∀ cell ∈ cells, Cell cell) ∧
      Leaf.writtenIn source ⟨.string, l.text, l.pos⟩ =
        .char '\"' :: (cells.flatten ++ [.char '\"']) ∧
      (∀ pos us, Comes cells.flatten pos us →
        pos = cells.flatten.length ∨ pos < cells.flatten.length ∧ InStep cells pos) ∧
      ((∃ us, Comes cells.flatten cells.flatten.length us ∧
          decode (Leaf.writtenIn source ⟨.string, l.text, l.pos⟩) =
            match String.fromUTF8? (bytes us) with
            | some text => .ok text
            | none => .error .encoding) ∨
        ∃ pos us fault, Comes cells.flatten pos us ∧ Fails cells.flatten pos fault ∧
          decode (Leaf.writtenIn source ⟨.string, l.text, l.pos⟩) = .error fault) ∧
      (∀ fault, decode (Leaf.writtenIn source ⟨.string, l.text, l.pos⟩) = .error fault →
        (fault.kind = .parse ∨ fault.kind = .unencodable) ∧
        (fault.kind = .unencodable ↔ ∃ pos us half, Comes cells.flatten pos us ∧
          cells.flatten[pos]? = some (.surrogate half))) := by
  obtain ⟨rest, hstands⟩ := Scan.stands_of_mem l hl
  have hmatches := hstands.isMatch
  have hshown : (Leaf.writtenIn source ⟨.string, l.text, l.pos⟩).map CodePoint.shown =
      l.text.toList := Scan.map_shown_of_mem hl
  rw [hshape, ← hshown] at hmatches
  obtain ⟨body, hliteral, hbody⟩ := exists_body hmatches
  obtain ⟨cells, hcells, rfl⟩ := exists_cells hbody
  have hin : ∀ pos us, Comes cells.flatten pos us →
      pos = cells.flatten.length ∨ pos < cells.flatten.length ∧ InStep cells pos := by
    intro pos us h
    rcases Nat.eq_or_lt_of_le (h.le_length hcells) with hpos | hpos
    · exact .inl hpos
    · exact .inr ⟨hpos, h.in_step hcells hpos⟩
  rw [hliteral, decode_quoted]
  refine ⟨cells, hcells, rfl, hin, ?_, ?_⟩
  · rw [decodeBody]
    rcases Comes.start.exists_end hcells with ⟨us, hend⟩ | ⟨pos, us, fault, hpos, hcomes, hfails⟩
    · rw [hend.units_eq_ok hcells]
      exact .inl ⟨us, hend, rfl⟩
    · rw [hcomes.units_eq_error hcells hfails]
      exact .inr ⟨pos, us, fault, hcomes, hfails, rfl⟩
  · intro fault hfault
    rw [← exists_comes_surrogate_iff hcells, hfault]
    rcases kind_of_decodeBody_error hbody hfault with hparse | ⟨half, rfl⟩
    · refine ⟨.inl hparse, fun hkind => ?_, ?_⟩
      · rw [hparse] at hkind
        cases hkind
      · rintro ⟨half, hhalf⟩
        cases hhalf
        cases hparse
    · exact ⟨.inr rfl, fun _ => ⟨half, rfl⟩, fun _ => rfl⟩

/-- Two bytes and a number, and behind them a surrogate, at which a turn begins. -/
theorem decode_in_step_surrogate_at_end :
    let body := ['\\', 'c', '3', '\\', 'a', '9', '\\', 'u', '\x7b', '4', '1', '\x7d'].map .char ++
      [CodePoint.surrogate 0]
    let literal := .char '\"' :: (body ++ [.char '\"'])
    let source := .char '(' :: (literal ++ [.char ')'])
    let l : Lexeme := ⟨.leaf .string, shownText literal, ⟨1, 1, 2⟩⟩
    l ∈ (Scan.ofSource (shownText source)).lexemes ∧ l.shape = .leaf .string ∧
      Comes body 12 [.byte 0xC3, .byte 0xA9, .codePoint 'A'] ∧
      ∃ cells, cells.flatten = body ∧ InStep cells 12 ∧
        decode (Leaf.writtenIn source ⟨.string, l.text, l.pos⟩) = .error (.surrogate 0) := by
  intro body literal source l
  have hopening : Lexeme.Stands .leftParen ['('] (literal.map CodePoint.shown ++ [')']) :=
    .leftParen fun cs h => by cases h
  have hstring : Lexeme.Stands (.leaf .string) (literal.map CodePoint.shown) [')'] :=
    @Lexeme.Stands.string (body.map CodePoint.shown) [')'] rfl
  have hl : l ∈ (Scan.ofSource (shownText source)).lexemes := by
    rw [Scan.ofSource, shownText, String.toList_ofList]
    change l ∈ (Scan.ofChars .start (['('] ++ (literal.map CodePoint.shown ++ [')']))).lexemes
    rw [Scan.ofChars_stands hopening, Scan.ofChars_stands hstring]
    exact List.mem_cons_of_mem _ List.mem_cons_self
  have hwritten : Leaf.writtenIn source ⟨.string, l.text, l.pos⟩ = literal := by
    show (source.drop 1).take (shownText literal).length = literal
    rw [shownText, String.length_ofList]
    rfl
  have hfirst : Turn body 0 (.byte 0xC3) 3 := .escape rfl rfl rfl
  have hsecond : Turn body 3 (.byte 0xA9) 6 := .escape rfl rfl rfl
  have hthird : Turn body 6 (.codePoint 'A') 12 := .escape rfl rfl rfl
  have hcomes := ((Comes.start.turn hfirst).turn hsecond).turn hthird
  have hfails : Fails body 12 (.surrogate 0) := .surrogate rfl
  obtain ⟨cells, hcell, hliteral, hin, -, -⟩ := decode_in_step hl rfl
  have hbody : body = cells.flatten := by
    rw [hwritten] at hliteral
    exact List.append_cancel_right (List.cons.inj hliteral).2
  refine ⟨hl, rfl, hcomes, cells, hbody.symm, ?_, ?_⟩
  · rcases hin 12 _ (hbody ▸ hcomes) with hend | ⟨-, hstep⟩
    · rw [← hbody] at hend
      cases hend
    · exact hstep
  · rw [hwritten, decode_quoted, decodeBody, hbody,
      (hbody ▸ hcomes : Comes cells.flatten 12 _).units_eq_error hcell (hbody ▸ hfails)]

end WitxFrontEnd.Literal
