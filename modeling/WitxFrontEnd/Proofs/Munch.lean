import Mathlib.Data.List.TakeWhile
import WitxFrontEnd.Lexeme

/-!
# Where a lexeme ends

What it takes for some characters to be the lexeme at the front of a text is said by
`Lexeme.Stands`: a property of the characters, and next to nothing about what follows them. An atom
and a line comment ask that the next character would not go on with them, and a left paren that no
block comment begins there; strings, block comments and right parens ask nothing. By
`munch_eq_some_iff` this is what `munch` looks for, so that whether a lexeme stays the same in front
of another text (`Stands.append_newline`) is read off the constructors. The scan follows lexeme by
lexeme.
-/

namespace WitxFrontEnd

namespace Lexeme

/-! ## The ends of strings and comments -/

/-- A character that is neither a quote nor a backslash is passed over. -/
theorem closeQuote_cons {c : Char} (hquote : c ≠ '\"') (hbackslash : c ≠ '\\') (cs : List Char) :
    closeQuote (c :: cs) = (closeQuote cs).map fun (body, rest) => (c :: body, rest) := by
  rw [closeQuote]
  · exact hquote
  · exact fun e _ => hbackslash e
  · exact fun _ _ e _ => hbackslash e

/-- The quote that ends a string ends it whatever follows. -/
theorem closeQuote_tail {cs body rest : List Char} (h : closeQuote cs = some (body, rest))
    (tail : List Char) : closeQuote (body ++ '\"' :: tail) = some (body, tail) := by
  fun_induction closeQuote cs generalizing body with
  | case1 | case3 => cases h
  | case2 r => cases h; rfl
  | case4 c r ih =>
    obtain ⟨⟨b, s⟩, hb, e⟩ := Option.map_eq_some_iff.1 h
    cases e
    simp [closeQuote, ih hb]
  | case5 c r hquote hsingle hescape ih =>
    obtain ⟨⟨b, s⟩, hb, e⟩ := Option.map_eq_some_iff.1 h
    cases e
    have hbackslash : c ≠ '\\' := by
      rintro rfl
      cases r with
      | nil => exact hsingle rfl rfl
      | cons d r => exact hescape d r rfl rfl
    rw [List.cons_append, closeQuote_cons hquote hbackslash, ih hb]
    rfl

/-- The mark that ends a block comment ends it whatever follows. -/
theorem closeComment_tail {cs body rest : List Char} (h : closeComment cs = some (body, rest))
    (tail : List Char) : closeComment (body ++ ';' :: ')' :: tail) = some (body, tail) := by
  fun_induction closeComment cs generalizing body with
  | case1 => cases h
  | case2 r => cases h; rfl
  | case3 c r hend ih =>
    obtain ⟨⟨b, s⟩, hb, e⟩ := Option.map_eq_some_iff.1 h
    cases e
    rw [List.cons_append, closeComment, ih hb]
    · rfl
    · intro r' hc hr'
      have hr := closeComment_append hb
      cases b with
      | nil => cases hr'
      | cons d b => cases hr'; exact hend _ hc hr.symm

/-- Whether characters are the body of a string is seen without what follows the string. -/
theorem closeQuote_eq_some_iff {cs body rest : List Char} :
    closeQuote cs = some (body, rest) ↔
      cs = body ++ '\"' :: rest ∧ closeQuote (body ++ ['\"']) = some (body, []) := by
  constructor
  · intro h
    exact ⟨(closeQuote_append h).symm, closeQuote_tail h []⟩
  · rintro ⟨rfl, h⟩
    exact closeQuote_tail h rest

/-- Whether characters are the body of a block comment is seen without what follows it. -/
theorem closeComment_eq_some_iff {cs body rest : List Char} :
    closeComment cs = some (body, rest) ↔
      cs = body ++ ';' :: ')' :: rest ∧ closeComment (body ++ [';', ')']) = some (body, []) := by
  constructor
  · intro h
    exact ⟨(closeComment_append h).symm, closeComment_tail h []⟩
  · rintro ⟨rfl, h⟩
    exact closeComment_tail h rest

/-- Somewhere before or at an end of a comment the first end is found. -/
theorem isSome_closeComment (body rest : List Char) :
    (closeComment (body ++ ';' :: ')' :: rest)).isSome := by
  induction body with
  | nil => rfl
  | cons c body ih =>
    rw [List.cons_append]
    unfold closeComment
    split
    · next h => cases h
    · rfl
    · next h => cases h; rwa [Option.isSome_map]

/-- No end of a comment is found if and only if there is none. -/
theorem closeComment_eq_none_iff {cs : List Char} :
    closeComment cs = none ↔ ∀ body rest, cs ≠ body ++ ';' :: ')' :: rest := by
  constructor
  · rintro h body rest rfl
    have hsome := isSome_closeComment body rest
    rw [h] at hsome
    cases hsome
  · intro h
    cases hc : closeComment cs with
    | none => rfl
    | some p => exact absurd (closeComment_append hc).symm (h p.1 p.2)

theorem closeComment_eq_none_of_append {cs ds : List Char} (h : closeComment (cs ++ ds) = none) :
    closeComment cs = none := by
  rw [closeComment_eq_none_iff] at h ⊢
  rintro body rest rfl
  exact h body (rest ++ ds) (by simp)

/-- No end of a comment comes about where a line feed joins two texts without one. -/
theorem closeComment_append_newline {cs ds : List Char} (hcs : closeComment cs = none)
    (hds : closeComment ds = none) : closeComment (cs ++ '\n' :: ds) = none := by
  rw [closeComment_eq_none_iff] at hcs hds ⊢
  intro body rest h
  rcases List.append_eq_append_iff.1 h with ⟨mid, rfl, hmid⟩ | ⟨mid, rfl, hmid⟩
  · -- the end is behind the first text
    cases mid with
    | nil => cases hmid
    | cons c mid => exact hds mid rest (List.cons.inj hmid).2
  · -- the end begins in the first text, and the line feed is no part of it
    rcases mid with _ | ⟨c, _ | ⟨d, mid⟩⟩
    · cases hmid
    · cases hmid
    · cases hmid
      exact hcs body mid rfl

/-- A block comment's end is found unless the body already holds one. -/
theorem closeComment_body {body : List Char}
    (h : ∀ before behind, body ++ [';', ')'] = before ++ ';' :: ')' :: behind → behind = []) :
    closeComment (body ++ [';', ')']) = some (body, []) := by
  cases hc : closeComment (body ++ [';', ')']) with
  | none =>
    have hsome := isSome_closeComment body []
    rw [hc] at hsome
    cases hsome
  | some p =>
    obtain ⟨body', rest⟩ := p
    have happ := closeComment_append hc
    have hrest := h _ _ happ.symm
    subst hrest
    rw [List.append_cancel_right happ]

/-! ## One lexeme -/

/-- The characters are a lexeme of the shape, if the given rest follows them. -/
inductive Stands : Shape → List Char → List Char → Prop
  | leftParen {rest : List Char} (hrest : ∀ cs, rest = ';' :: cs → closeComment cs = none) :
      Stands .leftParen ['('] rest
  | rightParen {rest : List Char} : Stands .rightParen [')'] rest
  | string {body rest : List Char} (hbody : closeQuote (body ++ ['\"']) = some (body, [])) :
      Stands (.leaf .string) ('\"' :: (body ++ ['\"'])) rest
  | atom {c : Char} {cs rest : List Char} (hatom : ∀ x ∈ c :: cs, isAtomChar x = true)
      (hrest : ∀ x ∈ rest.head?, isAtomChar x = false) : Stands (.leaf .atom) (c :: cs) rest
  | lineComment {text rest : List Char} (htext : '\n' ∉ text) (hrest : ∀ x ∈ rest.head?, x = '\n') :
      Stands (.leaf .lineComment) (';' :: ';' :: text) rest
  | blockComment {body rest : List Char}
      (hbody : closeComment (body ++ [';', ')']) = some (body, [])) :
      Stands (.leaf .blockComment) ('(' :: ';' :: (body ++ [';', ')'])) rest

/-- No character of an atom begins a lexeme of another shape. -/
theorem munch_of_isAtomChar {c : Char} (hc : isAtomChar c = true) (cs : List Char) :
    munch (c :: cs) =
      some (.leaf .atom, c :: cs.takeWhile isAtomChar, cs.dropWhile isAtomChar) := by
  unfold munch
  split
  · next h => cases h; cases hc
  · next h => cases h; cases hc
  · next h => cases h; cases hc
  · next h => cases h; cases hc
  · next h => cases h; cases hc
  · next h => cases h; rw [if_pos hc]
  · next h => cases h

/-- A run of characters of a class is taken whole if none of the class follows. -/
theorem takeWhile_run {p : Char → Bool} {cs rest : List Char} (hcs : ∀ x ∈ cs, p x = true)
    (hrest : ∀ x ∈ rest.head?, p x = false) :
    (cs ++ rest).takeWhile p = cs ∧ (cs ++ rest).dropWhile p = rest := by
  rw [List.takeWhile_append_of_pos hcs, List.dropWhile_append_of_pos hcs]
  cases rest with
  | nil => exact ⟨List.append_nil cs, rfl⟩
  | cons c rest =>
    have hc : p c = false := hrest c rfl
    rw [List.takeWhile_cons, List.dropWhile_cons, hc]
    exact ⟨List.append_nil cs, rfl⟩

/-- The lexeme at the front of a text is the characters that stand there as one. -/
theorem munch_of_stands {shape : Shape} {text rest : List Char} (h : Stands shape text rest) :
    munch (text ++ rest) = some (shape, text, rest) := by
  cases h with
  | leftParen hrest =>
    rw [List.singleton_append]
    unfold munch
    split
    · next h => cases h; rw [hrest _ rfl]
    · next h => cases h; rfl
    · next h => cases h
    · next h => cases h
    · next h => cases h
    · next hleft _ _ _ h => cases h; exact (hleft rfl).elim
    · next h => cases h
  | rightParen => rfl
  | @string body rest hbody =>
    have hclose : closeQuote (body ++ '\"' :: rest) = some (body, rest) :=
      closeQuote_eq_some_iff.2 ⟨rfl, hbody⟩
    rw [List.cons_append, List.append_assoc]
    show (closeQuote (body ++ '\"' :: rest)).map _ = _
    rw [hclose]
    rfl
  | atom hatom hrest =>
    obtain ⟨htake, hdrop⟩ := takeWhile_run (fun x hx => hatom x (List.mem_cons_of_mem _ hx)) hrest
    rw [List.cons_append, munch_of_isAtomChar (hatom _ List.mem_cons_self), htake, hdrop]
  | @lineComment text rest htext hrest =>
    have hcs : ∀ x ∈ text, (x != '\n') = true := fun x hx => by
      rw [bne_iff_ne]
      rintro rfl
      exact htext hx
    have hline : ∀ x ∈ rest.head?, (x != '\n') = false := fun x hx => by rw [hrest x hx]; rfl
    obtain ⟨htake, hdrop⟩ := takeWhile_run hcs hline
    show some (_, ';' :: ';' :: (text ++ rest).takeWhile (· != '\n'), _) = _
    rw [htake]
    show some (_, _, (text ++ rest).dropWhile (· != '\n')) = _
    rw [hdrop]
  | @blockComment body rest hbody =>
    have hclose : closeComment (body ++ ';' :: ')' :: rest) = some (body, rest) :=
      closeComment_eq_some_iff.2 ⟨rfl, hbody⟩
    rw [List.cons_append, List.cons_append, List.append_assoc]
    simp only [munch, List.cons_append, List.nil_append]
    rw [hclose]

/-- What is left of a text behind a run of a class does not begin with the class. -/
theorem eq_false_of_head?_dropWhile {p : Char → Bool} {cs : List Char} {x : Char}
    (hx : x ∈ (cs.dropWhile p).head?) : p x = false := by
  have hnot := List.head?_dropWhile_not p cs
  rw [Option.mem_def.1 hx] at hnot
  exact hnot

/-- The lexemes of parens are the parens. -/
theorem Stands.paren {shape : Shape} {text : String} {rest : List Char}
    (h : Stands shape text.toList rest) :
    (shape = .leftParen → text = "(") ∧ (shape = .rightParen → text = ")") := by
  rw [← String.ofList_toList (s := text)]
  generalize text.toList = cs at h
  cases h with
  | leftParen => exact ⟨fun _ => rfl, nofun⟩
  | rightParen => exact ⟨nofun, fun _ => rfl⟩
  | string | atom | lineComment | blockComment => exact ⟨nofun, nofun⟩

/-- The lexeme that is found at the front of a text stands there. -/
theorem stands_of_munch {cs text rest : List Char} {shape : Shape}
    (h : munch cs = some (shape, text, rest)) : Stands shape text rest := by
  unfold munch at h
  split at h
  · split at h
    · next hc => cases h; exact .blockComment (closeComment_eq_some_iff.1 hc).2
    · next hc => cases h; exact .leftParen fun cs hcs => by cases hcs; exact hc
  · next hsemicolon =>
    cases h
    exact .leftParen fun cs hcs => (hsemicolon cs hcs).elim
  · cases h; exact .rightParen
  · obtain ⟨⟨b, s⟩, hb, e⟩ := Option.map_eq_some_iff.1 h
    cases e
    exact .string (closeQuote_eq_some_iff.1 hb).2
  · cases h
    refine .lineComment (fun hmem => ?_) fun x hx => ?_
    · exact absurd (List.mem_takeWhile_imp hmem) (by decide)
    · simpa using eq_false_of_head?_dropWhile hx
  · split at h
    · next hc =>
      cases h
      refine .atom (fun x hx => ?_) fun x hx => eq_false_of_head?_dropWhile hx
      rcases List.mem_cons.1 hx with rfl | hx
      · exact hc
      · exact List.mem_takeWhile_imp hx
    · cases h
  · cases h

/-- What `munch` finds, said without it. -/
theorem munch_eq_some_iff {cs text rest : List Char} {shape : Shape} :
    munch cs = some (shape, text, rest) ↔ cs = text ++ rest ∧ Stands shape text rest := by
  constructor
  · intro h
    exact ⟨(munch_append h).symm, stands_of_munch h⟩
  · rintro ⟨rfl, h⟩
    exact munch_of_stands h

/-- A lexeme stays one when a line feed and any text come behind what follows it, unless it is a
paren that was one only because no end of a comment came after it. -/
theorem Stands.append_newline {shape : Shape} {text rest tail : List Char}
    (h : Stands shape text rest) (hparen : shape = .leftParen → ∀ cs, rest = ';' :: cs →
      closeComment (cs ++ '\n' :: tail) = none) :
    Stands shape text (rest ++ '\n' :: tail) := by
  have hhead {x : Char} (hx : x ∈ (rest ++ '\n' :: tail).head?) : x ∈ rest.head? ∨ x = '\n' := by
    cases rest with
    | nil => cases hx; exact .inr rfl
    | cons c cs => exact .inl hx
  cases h with
  | leftParen =>
    refine .leftParen fun cs hcs => ?_
    cases rest with
    | nil => cases hcs
    | cons c rest =>
      cases hcs
      exact hparen rfl rest rfl
  | rightParen => exact .rightParen
  | string hbody => exact .string hbody
  | atom hatom hrest =>
    refine .atom hatom fun x hx => ?_
    rcases hhead hx with hx | rfl
    · exact hrest x hx
    · decide
  | lineComment htext hrest =>
    refine .lineComment htext fun x hx => ?_
    rcases hhead hx with hx | rfl
    · exact hrest x hx
    · rfl
  | blockComment hbody => exact .blockComment hbody

/-- A lexeme stays one when what follows it is cut off somewhere. -/
theorem Stands.cut {shape : Shape} {text rest tail : List Char}
    (h : Stands shape text (rest ++ tail)) : Stands shape text rest := by
  have hhead {x : Char} (hx : x ∈ rest.head?) : x ∈ (rest ++ tail).head? := by
    cases rest with
    | nil => cases hx
    | cons c cs => exact hx
  cases h with
  | leftParen hrest =>
    refine .leftParen fun cs hcs => ?_
    subst hcs
    exact closeComment_eq_none_of_append (hrest (cs ++ tail) rfl)
  | rightParen => exact .rightParen
  | string hbody => exact .string hbody
  | atom hatom hrest => exact .atom hatom fun x hx => hrest x (hhead hx)
  | lineComment htext hrest => exact .lineComment htext fun x hx => hrest x (hhead hx)
  | blockComment hbody => exact .blockComment hbody

/-- A lexeme stays one when what follows it is cut off somewhere and goes on in another line,
without an end of a comment there. -/
theorem Stands.cut_newline {shape : Shape} {text rest behind tail : List Char}
    (h : Stands shape text (rest ++ behind)) (htail : closeComment tail = none) :
    Stands shape text (rest ++ '\n' :: tail) := by
  have hcut := h.cut
  refine hcut.append_newline fun hshape cs hcs => ?_
  subst hshape
  cases hcut with
  | leftParen hrest => exact closeComment_append_newline (hrest cs hcs) htail

/-- White space is in no atom. -/
theorem isSpace_eq_false_of_isAtomChar {c : Char} (h : isAtomChar c = true) :
    isSpace c = false := by
  by_contra hspace
  rw [Bool.not_eq_false] at hspace
  simp only [isSpace, Bool.or_eq_true, beq_iff_eq] at hspace
  rcases hspace with (((rfl | rfl) | rfl) | rfl) | rfl <;> exact absurd h (by decide)

/-- A lexeme begins with a character that is no white space. -/
theorem Stands.exists_cons {shape : Shape} {text rest : List Char} (h : Stands shape text rest) :
    ∃ c cs, text = c :: cs ∧ isSpace c = false := by
  cases h with
  | atom hatom => exact ⟨_, _, rfl, isSpace_eq_false_of_isAtomChar (hatom _ List.mem_cons_self)⟩
  | leftParen | rightParen | string | lineComment | blockComment => exact ⟨_, _, rfl, rfl⟩

end Lexeme

/-! ## A whole text -/

namespace Scan

open Lexeme

variable {p : Position}

/-- White space is passed over. -/
theorem ofChars_space {c : Char} (hc : isSpace c = true) (cs : List Char) :
    ofChars p (c :: cs) = ofChars (p.next c) cs := by
  rw [ofChars, if_pos hc]

/-- So is a run of white space. -/
theorem ofChars_spaces {gap : List Char} (hgap : ∀ c ∈ gap, isSpace c = true) (cs : List Char) :
    ofChars p (gap ++ cs) = ofChars (p.advance gap) cs := by
  induction gap generalizing p with
  | nil => rfl
  | cons c gap ih =>
    rw [List.cons_append, ofChars_space (hgap c List.mem_cons_self)]
    exact ih fun x hx => hgap x (List.mem_cons_of_mem c hx)

/-- A lexeme at the front is the first of the scan. -/
theorem ofChars_stands {shape : Shape} {text rest : List Char} (h : Stands shape text rest) :
    ofChars p (text ++ rest) =
      ⟨⟨shape, String.ofList text, p⟩ :: (ofChars (p.advance text) rest).lexemes,
        (ofChars (p.advance text) rest).stuck⟩ := by
  obtain ⟨c, cs, rfl, hc⟩ := h.exists_cons
  have hmunch := munch_of_stands h
  rw [List.cons_append] at hmunch ⊢
  rw [ofChars, if_neg (by rw [hc]; exact Bool.false_ne_true)]
  split
  · next hnone => rw [hmunch] at hnone; cases hnone
  · next hsome => rw [hmunch] at hsome; cases hsome; rfl

/-- Where no lexeme stands the scan ends. -/
theorem ofChars_stuck {c : Char} {cs : List Char} (hc : isSpace c = false)
    (h : munch (c :: cs) = none) : ofChars p (c :: cs) = ⟨[], some (p, c)⟩ := by
  rw [ofChars, if_neg (by rw [hc]; exact Bool.false_ne_true)]
  split
  · rfl
  · next hsome => rw [h] at hsome; cases hsome

/-- No lexeme begins before the text does. -/
theorem offset_le_of_mem {p : Position} {cs : List Char} :
    ∀ l ∈ (ofChars p cs).lexemes, p.offset ≤ l.pos.offset := by
  fun_induction ofChars p cs with
  | case1 p => intro l hl; cases hl
  | case2 p c cs hspace ih =>
    intro l hl
    have hnext : (p.next c).offset = p.offset + 1 := p.offset_advance [c]
    have := ih l hl
    omega
  | case3 p c cs hspace hmunch => intro l hl; cases hl
  | case4 p c cs hspace shape text rest hmunch more ih =>
    intro l hl
    rcases List.mem_cons.1 hl with rfl | hl
    · exact Nat.le_refl _
    · have := ih l hl
      rw [Position.offset_advance] at this
      omega

/-- Each lexeme begins behind the one before it. -/
theorem pairwise_offset (p : Position) (cs : List Char) :
    (ofChars p cs).lexemes.Pairwise fun l l' => l.pos.offset < l'.pos.offset := by
  fun_induction ofChars p cs with
  | case1 p => exact .nil
  | case2 p c cs hspace ih => exact ih
  | case3 p c cs hspace hmunch => exact .nil
  | case4 p c cs hspace shape text rest hmunch more ih =>
    refine .cons (fun l hl => ?_) ih
    have hle : (p.advance text).offset ≤ l.pos.offset := offset_le_of_mem l hl
    have hpos := List.length_pos_iff.2 (munch_ne_nil hmunch)
    rw [Position.offset_advance] at hle
    show p.offset < l.pos.offset
    omega

/-- Each lexeme is one where it was found. -/
theorem stands_of_mem {p : Position} {cs : List Char} :
    ∀ l ∈ (ofChars p cs).lexemes, ∃ rest, Stands l.shape l.text.toList rest := by
  fun_induction ofChars p cs with
  | case1 p => intro l hl; cases hl
  | case2 p c cs hspace ih => exact ih
  | case3 p c cs hspace hmunch => intro l hl; cases hl
  | case4 p c cs hspace shape text rest hmunch more ih =>
    intro l hl
    rcases List.mem_cons.1 hl with rfl | hl
    · exact ⟨rest, by rw [String.toList_ofList]; exact stands_of_munch hmunch⟩
    · exact ih l hl

end Scan

end WitxFrontEnd
