import WitxFrontEnd.Proofs.Lossless

/-!
# Where reading stops

A source that is no forest is read up to a place where one of three things is in the way (`Halt`):
a right paren that closes nothing, a character that begins no token, or the end of the source inside
a form. What comes before that place is tokens of the source whose parens match so far
(`Forest.read_error`). So it can be made a forest by closing what is open there, and in no other
way: cut off at that place and followed by a line feed, the source asks for as many right parens as
there are forms open (`Forest.read_reclosed`). The line feed parts the last token from the parens,
and no paren ends a comment; therefore the cut changes no token before it (`Reaches.cut`).
-/

namespace WitxFrontEnd

/-- What is in the way of reading on at the rest of a source, inside so many open forms. -/
inductive Halt : Cause → Nat → List Char → Prop
  | strayClose (rest : List Char) : Halt .strayClose 0 (')' :: rest)
  | unexpectedCharacter {c : Char} {opened : Nat} {rest : List Char} (hstuck : Stuck (c :: rest)) :
      Halt (.unexpectedCharacter c) opened (c :: rest)
  | unclosedForm {opened : Nat} (hopen : 0 < opened) : Halt .unclosedForm opened []

/-- The first characters of a source, a line feed and some right parens. -/
def reclosed (source : String) (length parens : Nat) : String :=
  String.ofList (source.toList.take length ++ '\n' :: List.replicate parens ')')

/-! ## Nests -/

namespace Nest

/-- Where a run of lexemes fails, it does so at one of them and the ones before it go through. -/
theorem foldlM_error {ls : List Lexeme} {nest : Nest} {p : Position}
    (h : ls.foldlM add nest = .error p) :
    ∃ before l after nest', ls = before ++ l :: after ∧ before.foldlM add nest = .ok nest' ∧
      nest'.add l = .error p := by
  induction ls generalizing nest with
  | nil => cases h
  | cons l ls ih =>
    rw [List.foldlM_cons] at h
    cases hadd : nest.add l with
    | error p' =>
      rw [hadd] at h
      cases h
      exact ⟨[], l, ls, nest, rfl, rfl, hadd⟩
    | ok next =>
      rw [hadd] at h
      obtain ⟨before, l', after, nest', rfl, hbefore, herror⟩ := ih h
      refine ⟨l :: before, l', after, nest', rfl, ?_, herror⟩
      rw [List.foldlM_cons, hadd]
      exact hbefore

/-- Lexemes that go through are balanced with as many right parens behind them as there are forms
left open, and with no other number of them. -/
theorem balanced_append_iff {ls : List Lexeme} {nest : Nest} (h : ofLexemes ls = .ok nest)
    (k : Nat) :
    Balanced (ls.map Lexeme.shape ++ List.replicate k .rightParen) ↔
      k = nest.enclosing.length := by
  rcases foldlM_cases ls empty with ⟨nest', hrun, htotal, hclosed⟩ | ⟨p, n, hrun, -⟩
  · rw [ofLexemes, hrun] at h
    cases h
    simp only [empty, List.length_nil, Nat.zero_add] at htotal hclosed
    have hleft (j : Nat) : (List.replicate j Shape.rightParen).count .leftParen = 0 :=
      List.count_replicate
    constructor
    · intro hbalanced
      have hall := hbalanced.total
      rw [List.count_append, List.count_append, List.count_replicate_self, hleft] at hall
      omega
    · rintro rfl
      refine ⟨?_, ?_⟩
      · -- a first part ends among the lexemes, or has all of them and some of the parens
        intro n
        have hbefore := hclosed n
        rw [List.take_append, List.take_replicate, List.count_append, List.count_append, hleft,
          List.count_replicate_self]
        by_cases hn : n ≤ (ls.map Lexeme.shape).length
        · rw [Nat.sub_eq_zero_of_le hn]
          omega
        · rw [List.take_of_length_le (Nat.le_of_not_le hn)]
          omega
      · rw [List.count_append, List.count_append, List.count_replicate_self, hleft]
        omega
  · rw [ofLexemes, hrun] at h
    cases h

end Nest

/-! ## Right parens -/

/-- Right parens alone end no comment. -/
theorem Lexeme.closeComment_replicate (k : Nat) :
    closeComment (List.replicate k ')') = none := by
  rw [closeComment_eq_none_iff]
  intro body rest h
  have hmem : ';' ∈ List.replicate k ')' := by
    rw [h]
    simp
  cases List.eq_of_mem_replicate hmem

/-- Right parens are a token each. -/
theorem Scan.ofChars_replicate (p : Position) (k : Nat) :
    ∃ closers, ofChars p (List.replicate k ')') = ⟨closers, none⟩ ∧
      closers.map Lexeme.shape = List.replicate k .rightParen := by
  induction k generalizing p with
  | zero => exact ⟨[], by rw [List.replicate_zero, ofChars], rfl⟩
  | succ k ih =>
    obtain ⟨closers, hscan, hshapes⟩ := ih (p.advance [')'])
    have hstands : Lexeme.Stands .rightParen [')'] (List.replicate k ')') := .rightParen
    have hfirst := ofChars_stands (p := p) hstands
    rw [hscan] at hfirst
    refine ⟨_, hfirst, ?_⟩
    rw [List.map_cons, hshapes]
    rfl

/-- The tokens before a place of a source are the tokens of the source cut off there, with the right
parens behind them. -/
theorem Scan.ofSource_reclosed {source : String} {tokens : List Lexeme} {q : Position}
    {rest : List Char} (h : Reaches .start source.toList tokens q rest) (k : Nat) :
    ∃ closers, ofSource (reclosed source q.offset k) = ⟨tokens ++ closers, none⟩ ∧
      closers.map Lexeme.shape = List.replicate k .rightParen := by
  obtain ⟨passed, hsource, hq, hcut⟩ := h.cut
  have hlength : passed.length = q.offset := by
    rw [hq, Position.offset_advance]
    exact (Nat.zero_add _).symm
  obtain ⟨closers, hscan, hshapes⟩ := ofChars_replicate (q.next '\n') k
  refine ⟨closers, ?_, hshapes⟩
  rw [ofSource, reclosed, String.toList_ofList, hsource, ← hlength, List.take_left,
    (hcut _ (Lexeme.closeComment_replicate k)).ofChars, ofChars_space rfl, hscan]

/-! ## Sources -/

namespace Forest

variable {source : String} {filename : Option String}

/-- Where a source is no forest, its tokens up to some place nest, and at that place something is in
the way. -/
theorem read_error {e : ParseError} (h : read source filename = .error e) :
    ∃ tokens q rest nest, Reaches .start source.toList tokens q rest ∧
      Nest.ofLexemes tokens = .ok nest ∧ e.span = some (q.span filename) ∧
      Halt e.cause nest.enclosing.length rest := by
  obtain ⟨q, rest, hreaches, hend⟩ := Scan.reaches .start source.toList
  unfold read Scan.ofSource at h
  dsimp only at h
  split at h
  · next p hnest =>
    cases h
    obtain ⟨before, l, after, nest, hls, hbefore, hadd⟩ := Nest.foldlM_error hnest
    obtain ⟨hopen, hshape, rfl⟩ := Nest.add_error hadd
    rw [hls] at hreaches
    obtain ⟨behind, hreaches, hchosen⟩ := hreaches.split
    have hparen : l.text = ")" := (chosen_iff_stands.1 hchosen).paren.2 hshape
    refine ⟨before, l.pos, _, nest, hreaches, hbefore, rfl, ?_⟩
    rw [hopen, hparen]
    exact .strayClose behind
  · next nest p c hnest hstuck =>
    cases h
    rw [hstuck] at hend
    obtain ⟨rfl, hhead, hrest⟩ := hend
    obtain ⟨rest, rfl⟩ := List.head?_eq_some_iff.1 hhead
    exact ⟨_, p, _, nest, hreaches, hnest, rfl, .unexpectedCharacter hrest⟩
  · next nest hnest hstuck =>
    rw [hstuck] at hend
    subst hend
    obtain ⟨passed, hsource, hq⟩ := hreaches.exists_append
    rw [List.append_nil] at hsource
    subst hq
    split at h
    · cases h
    · next hopen =>
      cases h
      refine ⟨_, _, [], nest, hreaches, hnest, by rw [hsource], .unclosedForm ?_⟩
      rw [hopen]
      exact Nat.succ_pos _

/-- Where a source is no forest, the mistake is at a place up to which everything is tokens, and
something is in the way there. Cut off at that place, with a line feed behind it, the source is a
forest for one number of right parens that follow, which is the number of open forms; and its
lexemes are the tokens before that place and those parens. -/
theorem read_reclosed {e : ParseError} (h : read source filename = .error e) :
    ∃ tokens q rest k, Reaches .start source.toList tokens q rest ∧
      q.offset + rest.length = source.length ∧ e.span = some (q.span filename) ∧
      Halt e.cause k rest ∧
      (∀ k', (∃ forest, read (reclosed source q.offset k') filename = .ok forest) ↔ k' = k) ∧
      ∀ forest, read (reclosed source q.offset k) filename = .ok forest →
        ∃ closers, Tree.forestLexemes forest = tokens ++ closers ∧
          closers.map Lexeme.shape = List.replicate k .rightParen := by
  obtain ⟨tokens, q, rest, nest, hreaches, hnest, hspan, hhalt⟩ := read_error h
  refine ⟨tokens, q, rest, nest.enclosing.length, hreaches, ?_, hspan, hhalt, ?_, ?_⟩
  · obtain ⟨passed, hsource, rfl⟩ := hreaches.exists_append
    rw [Position.offset_advance, ← String.length_toList, hsource, List.length_append]
    exact congrArg (· + rest.length) (Nat.zero_add passed.length)
  · intro k
    obtain ⟨closers, hscan, hshapes⟩ := Scan.ofSource_reclosed hreaches k
    rw [exists_read_iff, hscan, List.map_append, hshapes, Nest.balanced_append_iff hnest]
    exact and_iff_right rfl
  · intro forest hread
    obtain ⟨closers, hscan, hshapes⟩ := Scan.ofSource_reclosed hreaches nest.enclosing.length
    refine ⟨closers, ?_, hshapes⟩
    rw [lexemes_of_read hread, hscan]

/-- A quote that no other quote follows, inside two forms. The second paren is one although a
semicolon follows it, and stays one although parens come behind the semicolon. -/
theorem read_reclosed_line_comment :
    read "((;;\n\"" none = .error ⟨.unexpectedCharacter '\"', some ⟨5, 2, 1, none⟩⟩ ∧
      ∀ k, (∃ forest, read (reclosed "((;;\n\"" 5 k) none = .ok forest) ↔ k = 2 := by
  have hread : read "((;;\n\"" none =
      .error ⟨.unexpectedCharacter '\"', some ⟨5, 2, 1, none⟩⟩ := by decide +kernel
  refine ⟨hread, ?_⟩
  obtain ⟨tokens, q, rest, k, -, -, hspan, -, hclosed, -⟩ := read_reclosed hread
  have hoffset : (5 : Int) = q.offset := congrArg Span.offset (Option.some.inj hspan)
  rw [show q.offset = 5 by omega] at hclosed
  have htwo : read (reclosed "((;;\n\"" 5 2) none = .ok [.form ⟨0, 1, 1⟩ [.form ⟨1, 1, 2⟩
      [.leaf ⟨.lineComment, ";;", ⟨2, 1, 3⟩⟩] ⟨6, 3, 1⟩] ⟨7, 3, 2⟩] := by decide +kernel
  obtain rfl : 2 = k := (hclosed 2).1 ⟨_, htwo⟩
  exact hclosed

end Forest

end WitxFrontEnd
