import WitxFrontEnd.Proofs.Munch

/-!
# The tokens of a text

What the lexemes of a text are, said without a scanner. Each shape `Matches` a set of texts. Of all
matches at the front of a text one is `Chosen`: a block comment before everything else, and of the
matches of one shape the longest, but of block comments the shortest. By `chosen_iff_stands` this
is what the scanner looks for. `Reaches` says which tokens lead from the
beginning of a text to a later place in it, and next to nothing behind that place matters to them
(`Reaches.cut`); a scan ends where the text does or where it is `Stuck` (`reaches_end_iff`,
`reaches_stuck_iff`).
-/

namespace WitxFrontEnd

open Lexeme (isSpace isAtomChar closeQuote closeComment munch Stands)

/-! ## Matches -/

/-- The texts between the quotes of a string: a quote or a backslash is there only behind a
backslash. -/
inductive QuotedBody : List Char → Prop
  | nil : QuotedBody []
  | plain {c : Char} {cs : List Char} (hquote : c ≠ '\"') (hbackslash : c ≠ '\\')
      (h : QuotedBody cs) : QuotedBody (c :: cs)
  | escaped (c : Char) {cs : List Char} (h : QuotedBody cs) : QuotedBody ('\\' :: c :: cs)

/-- The texts that a token of the shape may have. -/
inductive Shape.Matches : Shape → List Char → Prop
  | leftParen : Shape.Matches .leftParen ['(']
  | rightParen : Shape.Matches .rightParen [')']
  | string {body : List Char} (hbody : QuotedBody body) :
      Shape.Matches (.leaf .string) ('\"' :: (body ++ ['\"']))
  | atom {cs : List Char} (hne : cs ≠ []) (hatom : ∀ x ∈ cs, isAtomChar x = true) :
      Shape.Matches (.leaf .atom) cs
  | lineComment {text : List Char} (htext : '\n' ∉ text) :
      Shape.Matches (.leaf .lineComment) (';' :: ';' :: text)
  | blockComment (body : List Char) :
      Shape.Matches (.leaf .blockComment) ('(' :: ';' :: (body ++ [';', ')']))

/-- Of all matches at the front of a text, the one that is taken, and the rest of the text. -/
structure Chosen (shape : Shape) (text rest : List Char) : Prop where
  isMatch : shape.Matches text
  /-- Where a block comment matches, nothing else is taken. -/
  preferred : ∀ text' rest', text ++ rest = text' ++ rest' →
    Shape.Matches (.leaf .blockComment) text' → shape = .leaf .blockComment
  /-- No other match of a block comment is shorter. -/
  shortest : shape = .leaf .blockComment → ∀ text' rest', text ++ rest = text' ++ rest' →
    shape.Matches text' → text.length ≤ text'.length
  /-- No other match of anything else is longer. -/
  longest : shape ≠ .leaf .blockComment → ∀ text' rest', text ++ rest = text' ++ rest' →
    shape.Matches text' → text'.length ≤ text.length

namespace Lexeme

/-- The end of a string is found behind every body, and nowhere else. -/
theorem closeQuote_eq_some_iff_quotedBody {body : List Char} :
    closeQuote (body ++ ['\"']) = some (body, []) ↔ QuotedBody body := by
  constructor
  · intro h
    generalize hcs : body ++ ['\"'] = cs at h
    fun_induction closeQuote cs generalizing body with
    | case1 | case3 => cases h
    | case2 r => cases h; exact .nil
    | case4 c r ih =>
      obtain ⟨⟨b, s⟩, hb, e⟩ := Option.map_eq_some_iff.1 h
      cases e
      simp only [List.cons_append, List.cons.injEq, true_and] at hcs
      exact .escaped c (ih hcs hb)
    | case5 c r hquote hsingle hescape ih =>
      obtain ⟨⟨b, s⟩, hb, e⟩ := Option.map_eq_some_iff.1 h
      cases e
      rw [List.cons_append, List.cons.injEq] at hcs
      refine .plain hquote ?_ (ih hcs.2 hb)
      rintro rfl
      cases r with
      | nil => exact hsingle rfl rfl
      | cons d r => exact hescape d r rfl rfl
  · intro h
    induction h with
    | nil => rfl
    | plain hquote hbackslash h ih =>
      rw [List.cons_append, closeQuote_cons hquote hbackslash, ih]
      rfl
    | escaped c h ih =>
      show (closeQuote (_ ++ ['\"'])).map _ = _
      rw [ih]
      rfl

/-- The end of a comment is found no later than at any end. -/
theorem closeComment_le (body rest : List Char) :
    ∃ first behind, closeComment (body ++ ';' :: ')' :: rest) = some (first, behind) ∧
      first.length ≤ body.length := by
  induction body with
  | nil => exact ⟨[], rest, rfl, Nat.le_refl _⟩
  | cons c body ih =>
    obtain ⟨first, behind, hclose, hle⟩ := ih
    rw [List.cons_append]
    unfold closeComment
    split
    · next h => cases h
    · exact ⟨[], _, rfl, Nat.zero_le _⟩
    · next h =>
      cases h
      rw [hclose]
      exact ⟨c :: first, behind, rfl, Nat.succ_le_succ hle⟩

/-- Two runs of a class at the front of a text, the second of which nothing of the class follows. -/
theorem length_le_of_run (p : Char → Bool) {cs ds rest rest' : List Char}
    (hcs : ∀ x ∈ cs, p x = true) (hrest : ∀ x ∈ rest'.head?, p x = false)
    (h : ds ++ rest' = cs ++ rest) : cs.length ≤ ds.length := by
  by_contra hlt
  have hlt := Nat.lt_of_not_le hlt
  have hnext : rest'.head? = some cs[ds.length] := by
    have hget := congrArg (fun l => l[ds.length]?) h
    rwa [List.getElem?_append_right (Nat.le_refl _), Nat.sub_self, ← List.head?_eq_getElem?,
      List.getElem?_append_left hlt, List.getElem?_eq_getElem hlt] at hget
  have hfalse := hrest _ hnext
  rw [hcs _ (List.getElem_mem hlt)] at hfalse
  cases hfalse

end Lexeme

/-! ## The choice -/

open Lexeme

/-- A lexeme is a match of its shape. -/
theorem Lexeme.Stands.isMatch {shape : Shape} {text rest : List Char}
    (h : Stands shape text rest) : shape.Matches text := by
  cases h with
  | leftParen => exact .leftParen
  | rightParen => exact .rightParen
  | string hbody => exact .string (closeQuote_eq_some_iff_quotedBody.1 hbody)
  | atom hatom => exact .atom (List.cons_ne_nil _ _) hatom
  | lineComment htext => exact .lineComment htext
  | @blockComment body => exact .blockComment body

/-- A block comment begins with a paren and a semicolon. -/
theorem Shape.Matches.blockComment_eq {text : List Char}
    (h : Shape.Matches (.leaf .blockComment) text) :
    ∃ body, text = '(' :: ';' :: (body ++ [';', ')']) := by
  cases h with
  | blockComment body => exact ⟨body, rfl⟩

theorem Lexeme.Stands.chosen {shape : Shape} {text rest : List Char}
    (h : Stands shape text rest) : Chosen shape text rest := by
  refine ⟨h.isMatch, fun text' rest' happ h' => ?_, fun hshape text' rest' happ h' => ?_,
    fun hshape text' rest' happ h' => ?_⟩
  · obtain ⟨body, rfl⟩ := h'.blockComment_eq
    cases h with
    | leftParen hrest =>
      obtain ⟨first, behind, hclose, -⟩ := closeComment_le body rest'
      have hnone := hrest (body ++ ';' :: ')' :: rest') (by simpa using happ)
      rw [hclose] at hnone
      cases hnone
    | @atom c cs _ hatom =>
      obtain rfl : c = '(' := by simpa using congrArg List.head? happ
      exact absurd (hatom '(' List.mem_cons_self) (by decide)
    | rightParen | string | lineComment => cases happ
    | blockComment => rfl
  · subst hshape
    obtain ⟨body', rfl⟩ := h'.blockComment_eq
    cases h with
    | @blockComment body _ hbody =>
      obtain ⟨first, behind, hclose, hle⟩ := closeComment_le body' rest'
      have happ : body ++ ';' :: ')' :: rest = body' ++ ';' :: ')' :: rest' := by simpa using happ
      rw [← happ, closeComment_tail hbody] at hclose
      cases hclose
      simpa using hle
  · cases h' with
    | leftParen | rightParen => exact List.length_pos_iff.2 (by rintro rfl; cases h)
    | @string body' hbody' =>
      cases h with
      | @string body _ hbody =>
        have happ : body ++ '\"' :: rest = body' ++ '\"' :: rest' := by simpa using happ
        have hclose := closeQuote_tail hbody rest
        rw [happ, closeQuote_tail (closeQuote_eq_some_iff_quotedBody.2 hbody')] at hclose
        cases hclose
        exact Nat.le_refl _
    | atom hne hatom' =>
      cases h with
      | atom hatom hrest => exact length_le_of_run _ hatom' hrest happ
    | @lineComment text' htext' =>
      cases h with
      | @lineComment text _ htext hrest =>
        have happ : text ++ rest = text' ++ rest' := by simpa using happ
        have hle := length_le_of_run (fun x => x != '\n')
          (fun x hx => by simpa using fun hxn : x = '\n' => htext' (hxn ▸ hx))
          (fun x hx => by simpa using hrest x hx) happ
        simpa using hle
    | blockComment => exact absurd rfl hshape

/-- A match that is preferred and as long as it has to be is a lexeme. -/
theorem Chosen.stands {shape : Shape} {text rest : List Char} (h : Chosen shape text rest) :
    Stands shape text rest := by
  obtain ⟨hmatches, hpreferred, hshortest, hlongest⟩ := h
  cases hmatches with
  | leftParen =>
    refine .leftParen fun cs hcs => ?_
    cases hclose : closeComment cs with
    | none => rfl
    | some p =>
      obtain ⟨body, behind⟩ := p
      have happ : ['('] ++ rest = '(' :: ';' :: (body ++ [';', ')']) ++ behind := by
        simp [hcs, ← closeComment_append hclose]
      have := hpreferred _ behind happ (.blockComment body)
      cases this
  | rightParen => exact .rightParen
  | string hbody => exact .string (closeQuote_eq_some_iff_quotedBody.2 hbody)
  | atom hne hatom =>
    obtain ⟨c, cs, rfl⟩ := List.exists_cons_of_ne_nil hne
    refine .atom hatom fun x hx => ?_
    by_contra hx'
    obtain ⟨rest, rfl⟩ : ∃ r, rest = x :: r := List.head?_eq_some_iff.1 hx
    have hle := hlongest nofun (c :: cs ++ [x]) rest (by simp) (.atom (by simp) fun y hy => ?_)
    · rw [List.length_append, List.length_singleton] at hle
      omega
    · rcases List.mem_append.1 hy with hy | hy
      · exact hatom y hy
      · rw [List.mem_singleton.1 hy]
        simpa using hx'
  | @lineComment text htext =>
    refine .lineComment htext fun x hx => ?_
    by_contra hx'
    obtain ⟨rest, rfl⟩ : ∃ r, rest = x :: r := List.head?_eq_some_iff.1 hx
    have hle := hlongest nofun (';' :: ';' :: (text ++ [x])) rest (by simp)
      (.lineComment (by simp [htext, Ne.symm hx']))
    simp only [List.length_cons, List.length_append, List.length_nil] at hle
    omega
  | blockComment body =>
    refine .blockComment ?_
    obtain ⟨first, behind, hclose, hle⟩ := closeComment_le body []
    have happ := closeComment_append hclose
    have hlong := hshortest rfl ('(' :: ';' :: (first ++ [';', ')'])) (behind ++ rest)
      (by simpa using congrArg (· ++ rest) happ.symm) (.blockComment first)
    obtain ⟨rfl, hbehind⟩ : first = body ∧ ';' :: ')' :: behind = [';', ')'] :=
      List.append_inj happ (by simp at hlong; omega)
    cases hbehind
    exact hclose

/-- The choice among the matches is what the scanner looks for. -/
theorem chosen_iff_stands {shape : Shape} {text rest : List Char} :
    Chosen shape text rest ↔ Stands shape text rest :=
  ⟨Chosen.stands, Stands.chosen⟩

/-- Where something matches, a lexeme is found. -/
theorem Shape.Matches.munch_ne_none {shape : Shape} {text : List Char} (h : shape.Matches text)
    (rest : List Char) : munch (text ++ rest) ≠ none := by
  cases h with
  | leftParen =>
    rw [List.singleton_append]
    unfold munch
    split
    · split <;> nofun
    · nofun
    · nofun
    · next h => cases h
    · next h => cases h
    · next hleft _ _ _ h => cases h; exact (hleft rfl).elim
    · next h => cases h
  | rightParen => nofun
  | string hbody =>
    rw [munch_of_stands (.string (closeQuote_eq_some_iff_quotedBody.2 hbody))]
    nofun
  | atom hne hatom =>
    obtain ⟨c, cs, rfl⟩ := List.exists_cons_of_ne_nil hne
    rw [List.cons_append, munch_of_isAtomChar (hatom c List.mem_cons_self)]
    nofun
  | lineComment => nofun
  | blockComment body =>
    obtain ⟨first, behind, hclose, -⟩ := closeComment_le body rest
    simp [munch, hclose]

/-! ## Tokens of a text -/

/-- From a text at a position the tokens lead to a later text at a later position. Between them is
white space. -/
inductive Reaches : Position → List Char → List Lexeme → Position → List Char → Prop
  | here (p : Position) (cs : List Char) : Reaches p cs [] p cs
  | space {p q : Position} {c : Char} {cs rest : List Char} {tokens : List Lexeme}
      (hspace : isSpace c = true) (h : Reaches (p.next c) cs tokens q rest) :
      Reaches p (c :: cs) tokens q rest
  | token {p q : Position} {shape : Shape} {text cs rest : List Char} {tokens : List Lexeme}
      (hchosen : Chosen shape text cs) (h : Reaches (p.advance text) cs tokens q rest) :
      Reaches p (text ++ cs) (⟨shape, String.ofList text, p⟩ :: tokens) q rest

/-- At a character that is no white space nothing matches. -/
def Stuck (cs : List Char) : Prop :=
  ∃ c ∈ cs.head?, isSpace c = false ∧
    ∀ (shape : Shape) text rest, cs = text ++ rest → ¬shape.Matches text

namespace Reaches

variable {p q : Position} {cs rest : List Char} {tokens : List Lexeme}

/-- What is between the two places leads from the one to the other, and nothing behind it matters:
a line feed and any text without an end of a comment may come there. -/
theorem cut (h : Reaches p cs tokens q rest) :
    ∃ passed, cs = passed ++ rest ∧ q = p.advance passed ∧
      ∀ tail, closeComment tail = none →
        Reaches p (passed ++ '\n' :: tail) tokens q ('\n' :: tail) := by
  induction h with
  | here p cs => exact ⟨[], rfl, rfl, fun tail _ => .here p _⟩
  | @space p q c cs rest tokens hspace h ih =>
    obtain ⟨passed, rfl, rfl, hcut⟩ := ih
    exact ⟨c :: passed, rfl, rfl, fun tail htail => .space hspace (hcut tail htail)⟩
  | @token p q shape text cs rest tokens hchosen h ih =>
    obtain ⟨passed, rfl, rfl, hcut⟩ := ih
    refine ⟨text ++ passed, by rw [List.append_assoc], by rw [Position.advance_append], ?_⟩
    intro tail htail
    rw [List.append_assoc]
    have hstands := chosen_iff_stands.1 hchosen
    exact .token (chosen_iff_stands.2 (hstands.cut_newline htail)) (hcut tail htail)

/-- The place at the end is behind the characters that lead to it. -/
theorem exists_append (h : Reaches p cs tokens q rest) :
    ∃ passed, cs = passed ++ rest ∧ q = p.advance passed := by
  obtain ⟨passed, hcs, hq, -⟩ := h.cut
  exact ⟨passed, hcs, hq⟩

/-- What leads to some tokens leads to each of them on the way. -/
theorem split {before after : List Lexeme} {l : Lexeme}
    (h : Reaches p cs (before ++ l :: after) q rest) :
    ∃ behind, Reaches p cs before l.pos (l.text.toList ++ behind) ∧
      Chosen l.shape l.text.toList behind := by
  generalize htokens : before ++ l :: after = tokens at h
  induction h generalizing before with
  | here => simp at htokens
  | space hspace h ih =>
    obtain ⟨behind, hreaches, hchosen⟩ := ih htokens
    exact ⟨behind, .space hspace hreaches, hchosen⟩
  | @token p q shape text cs rest tokens hchosen h ih =>
    cases before with
    | nil =>
      cases htokens
      rw [String.toList_ofList]
      exact ⟨cs, .here p _, hchosen⟩
    | cons first before =>
      cases htokens
      obtain ⟨behind, hreaches, hlast⟩ := ih rfl
      exact ⟨behind, .token hchosen hreaches, hlast⟩

/-- A scan goes on from what is reached. -/
theorem ofChars (h : Reaches p cs tokens q rest) :
    Scan.ofChars p cs =
      ⟨tokens ++ (Scan.ofChars q rest).lexemes, (Scan.ofChars q rest).stuck⟩ := by
  induction h with
  | here => rfl
  | space hspace h ih => rw [Scan.ofChars_space hspace, ih]
  | token hchosen h ih => rw [Scan.ofChars_stands (chosen_iff_stands.1 hchosen), ih]; rfl

end Reaches

theorem stuck_iff {cs : List Char} :
    Stuck cs ↔ ∃ c rest, cs = c :: rest ∧ isSpace c = false ∧ munch cs = none := by
  constructor
  · rintro ⟨c, hc, hspace, hnone⟩
    obtain ⟨rest, rfl⟩ := List.head?_eq_some_iff.1 hc
    refine ⟨c, rest, rfl, hspace, ?_⟩
    cases hmunch : munch (c :: rest) with
    | none => rfl
    | some found =>
      obtain ⟨hcs, hstands⟩ := munch_eq_some_iff.1 hmunch
      exact absurd hstands.isMatch (hnone _ _ _ hcs)
  · rintro ⟨c, rest, rfl, hspace, hmunch⟩
    refine ⟨c, rfl, hspace, fun shape text rest' happ hmatches => ?_⟩
    rw [happ] at hmunch
    exact hmatches.munch_ne_none rest' hmunch

namespace Scan

/-- A scan's lexemes lead to the end of the text, or to where it is stuck. -/
theorem reaches (p : Position) (cs : List Char) :
    ∃ q rest, Reaches p cs (ofChars p cs).lexemes q rest ∧
      match (ofChars p cs).stuck with
      | none => rest = []
      | some (p', c) => p' = q ∧ rest.head? = some c ∧ Stuck rest := by
  fun_induction ofChars p cs with
  | case1 p => exact ⟨p, [], .here p [], rfl⟩
  | case2 p c cs hspace ih =>
    obtain ⟨q, rest, h, hend⟩ := ih
    exact ⟨q, rest, .space hspace h, hend⟩
  | case3 p c cs hspace hmunch =>
    have hspace : isSpace c = false := by simpa using hspace
    exact ⟨p, c :: cs, .here p _, rfl, rfl, stuck_iff.2 ⟨c, cs, rfl, hspace, hmunch⟩⟩
  | case4 p c cs hspace shape text rest hmunch more ih =>
    obtain ⟨q, rest', h, hend⟩ := ih
    obtain ⟨hcs, hstands⟩ := munch_eq_some_iff.1 hmunch
    rw [hcs]
    exact ⟨q, rest', .token (chosen_iff_stands.2 hstands) h, hend⟩

end Scan

/-- The tokens that lead to the end of a text are the lexemes of its scan. -/
theorem reaches_end_iff {p : Position} {cs : List Char} {tokens : List Lexeme} :
    (∃ q, Reaches p cs tokens q []) ↔ Scan.ofChars p cs = ⟨tokens, none⟩ := by
  constructor
  · rintro ⟨q, h⟩
    rw [h.ofChars, Scan.ofChars, List.append_nil]
  · intro h
    obtain ⟨q, rest, hreaches, hend⟩ := Scan.reaches p cs
    rw [h] at hreaches hend
    cases hend
    exact ⟨q, hreaches⟩

/-- A text is stuck somewhere if and only if its scan is. -/
theorem reaches_stuck_iff {p : Position} {cs : List Char} :
    (∃ tokens q rest, Reaches p cs tokens q rest ∧ Stuck rest) ↔
      (Scan.ofChars p cs).stuck ≠ none := by
  constructor
  · rintro ⟨tokens, q, rest, h, hstuck⟩
    obtain ⟨c, rest, rfl, hspace, hmunch⟩ := stuck_iff.1 hstuck
    rw [h.ofChars, Scan.ofChars_stuck hspace hmunch]
    nofun
  · intro h
    obtain ⟨q, rest, hreaches, hend⟩ := Scan.reaches p cs
    cases hstuck : (Scan.ofChars p cs).stuck with
    | none => exact absurd hstuck h
    | some found =>
      rw [hstuck] at hend
      exact ⟨_, q, rest, hreaches, hend.2.2⟩

end WitxFrontEnd
