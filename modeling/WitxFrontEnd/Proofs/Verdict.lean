import WitxFrontEnd.Proofs.Rule
import WitxFrontEnd.Proofs.Word

/-!
# The verdict of the rules

Each rule of the grammar against the goals that it pursues. `ReadsAt` says that judging the goals
first on the word of a cursor comes to running the rule: where the rule succeeds the word behind it
is judged with the goals that are left, and where it fails its mistake is the verdict.
`ClosesAt` says the same of a rule that has to use up its form, with goals that include the closing
paren. Both are kept by the ways to put rules together, and `judge_document` is the outcome for
whole sources.
-/

namespace WitxFrontEnd.Goal

variable {g : Goal} {gs : List Goal} {m : Mark} {s : Span} {tail : List (Mark × Span)}

/-! ## One mark -/

/-- A mark with which a goal does not go on is where the mistake is. -/
theorem judge_of_step_eq_none (h : g.step m = none) :
    judge (g :: gs) ((m, s) :: tail) = .error (some s) := by
  rw [judge, h]

/-- A goal goes on with a mark that is not blamed. -/
theorem judge_of_step_eq_some {next : List Goal} (h : g.step m = some next)
    (hblames : g.blames m tail = false) :
    judge (g :: gs) ((m, s) :: tail) = judge (next ++ gs) tail := by
  rw [judge, h]
  dsimp only
  rw [hblames, if_neg Bool.false_ne_true]

/-- A mark that is blamed is where the mistake is, though the goal would go on with it. -/
theorem judge_of_blames {next : List Goal} (h : g.step m = some next)
    (hblames : g.blames m tail = true) : judge (g :: gs) ((m, s) :: tail) = .error (some s) := by
  rw [judge, h]
  dsimp only
  rw [hblames, if_pos rfl]

/-- Only what may be a datatype is blamed. -/
theorem blames_eq_false (hg : (g == datatype || g == typedef) = false) :
    g.blames m tail = false := by
  rw [blames, hg]
  rfl

/-- Nothing but a scalar is blamed. -/
theorem blames_eq_false_of_isScalar (hm : isScalar m = false) : g.blames m tail = false := by
  rw [blames, hm, Bool.and_false]
  rfl

/-- A goal with one alternative. -/
theorem step_of_alternatives {t : Terminal} {next : List Goal} (h : g.alternatives = [(t, next)])
    (m : Mark) : g.step m = if t.matches m then some next else none := by
  rw [step, h, List.find?_singleton]
  split <;> rfl

/-- Goals that go on alike behind the mark are judged alike, if neither can be blamed. -/
theorem judge_congr {g' : Goal} (h : g.step m = g'.step m)
    (hblames : g.blames m tail = g'.blames m tail) :
    judge (g :: gs) ((m, s) :: tail) = judge (g' :: gs) ((m, s) :: tail) := by
  rw [judge, judge, h, hblames]

/-! ## Rules -/

variable {α β : Type} {G G' : List Goal} {r : Rule α} {c : Cursor}

/-- The place of the mistake in a reading, or what is said of what was read. -/
def after (reading : Except ParseError α) (verdict : α → Except (Option Span) Unit) :
    Except (Option Span) Unit :=
  match reading with
  | .ok a => verdict a
  | .error e => .error e.span

/-- What is said of what was read. -/
@[simp] theorem after_ok (a : α) (verdict : α → Except (Option Span) Unit) :
    after (.ok a) verdict = verdict a := rfl

/-- A mistake is said to be where it is. -/
@[simp] theorem after_error (e : ParseError) (verdict : α → Except (Option Span) Unit) :
    after (.error e) verdict = .error e.span := rfl

/-- Judging the goals on a cursor's word comes to running the rule on the cursor. -/
def ReadsAt (G : List Goal) (r : Rule α) (c : Cursor) : Prop :=
  ∀ gs k, judge (G ++ gs) (c.word (some .rightParen) ++ k) =
    after (r c) fun p => judge gs (p.2.word (some .rightParen) ++ k)

/-- Judging the goals on a form's word comes to running the rule on the form to its end. -/
def ClosesAt (G : List Goal) (r : Rule α) (c : Cursor) : Prop :=
  ∀ gs k, judge (G ++ gs) (c.word (some .rightParen) ++ k) =
    after (Cursor.toEnd .expectedClose (r c)) fun _ => judge gs k

/-- A rule that reads nothing pursues no goal. -/
theorem readsAt_pure (a : α) : ReadsAt [] (pure a) c := fun _ _ => rfl

/-- Rules one behind the other pursue their goals one behind the other. -/
theorem readsAt_bind {f : α → Rule β} (hr : ReadsAt G r c)
    (hf : ∀ a rest, r c = .ok (a, rest) → ReadsAt G' (f a) rest) :
    ReadsAt (G ++ G') (r >>= f) c := by
  intro gs k
  rw [List.append_assoc, hr, Rule.bind_apply]
  cases h : r c with
  | error e => rfl
  | ok p => exact hf p.1 p.2 h gs k

/-- So they do if the second has to use up the form. -/
theorem closesAt_bind {f : α → Rule β} (hr : ReadsAt G r c)
    (hf : ∀ a rest, r c = .ok (a, rest) → ClosesAt G' (f a) rest) :
    ClosesAt (G ++ G') (r >>= f) c := by
  intro gs k
  rw [List.append_assoc, hr, Rule.bind_apply]
  cases h : r c with
  | error e => rfl
  | ok p => exact hf p.1 p.2 h gs k

/-- What is made of the result does not matter to the goals. -/
theorem readsAt_map (f : α → β) (hr : ReadsAt G r c) : ReadsAt G (f <$> r) c := by
  rw [Rule.map_eq_bind, ← List.append_nil G]
  exact readsAt_bind hr fun a _ _ => readsAt_pure (f a)

/-- Behind what was read nothing may be left. -/
theorem toEnd_ok (cause : Cause) (a : α) (rest : Cursor) :
    Cursor.toEnd cause (.ok (a, rest)) = (fun _ => a) <$> rest.expectEnd cause := by
  show (rest.expectEnd cause >>= fun _ => pure a) = _
  cases rest.expectEnd cause <;> rfl

/-- Nor does it in a rule that has to use up the form. -/
theorem closesAt_map (f : α → β) (hr : ClosesAt G r c) : ClosesAt G (f <$> r) c := by
  intro gs k
  rw [hr, Rule.map_eq_bind, Rule.bind_apply]
  cases r c with
  | error e => rfl
  | ok p =>
    obtain ⟨a, rest⟩ := p
    dsimp only
    rw [Rule.pure_apply, toEnd_ok, toEnd_ok]
    cases rest.expectEnd .expectedClose <;> rfl

/-- What a rule gives in the end does not matter to the goals. -/
theorem readsAt_return {f : α → β} (hr : ReadsAt G r c) :
    ReadsAt G (r >>= fun a => pure (f a)) c := by
  rw [← Rule.map_eq_bind]
  exact readsAt_map f hr

/-- Nor does it in a rule that has to use up the form. -/
theorem closesAt_return {f : α → β} (hr : ClosesAt G r c) :
    ClosesAt G (r >>= fun a => pure (f a)) c := by
  rw [← Rule.map_eq_bind]
  exact closesAt_map f hr

/-- Goals that go on alike where the cursor stands are judged alike there. -/
theorem judge_word_congr {g' : Goal}
    (h : ∀ m, (∀ pattern, c.peek pattern = pattern.matches m) → g.step m = g'.step m)
    (hblames : ∀ m tail, g.blames m tail = g'.blames m tail) (gs : List Goal)
    (k : List (Mark × Span)) :
    judge (g :: gs) (c.word (some .rightParen) ++ k) =
      judge (g' :: gs) (c.word (some .rightParen) ++ k) := by
  obtain ⟨m, tail, hword, hpeeks⟩ := c.word_eq_cons Cursor.ends_rightParen
  rw [hword]
  exact judge_congr (h m hpeeks) (hblames m _)

/-- A rule pursues any goal that goes on alike where the cursor stands. -/
theorem readsAt_congr {g g' : Goal} (hr : ReadsAt [g'] r c)
    (h : ∀ m, (∀ pattern, c.peek pattern = pattern.matches m) → g.step m = g'.step m)
    (hblames : ∀ m tail, g.blames m tail = g'.blames m tail) : ReadsAt [g] r c := by
  intro gs k
  rw [← hr]
  exact judge_word_congr h hblames gs k

/-- So does a rule that has to use up the form. -/
theorem closesAt_congr {g g' : Goal} (hr : ClosesAt [g'] r c)
    (h : ∀ m, (∀ pattern, c.peek pattern = pattern.matches m) → g.step m = g'.step m)
    (hblames : ∀ m tail, g.blames m tail = g'.blames m tail) : ClosesAt [g] r c := by
  intro gs k
  rw [← hr]
  exact judge_word_congr h hblames gs k

/-- A rule behind which the form has to be closed. -/
theorem closesAt_of_readsAt (hr : ReadsAt G r c) : ClosesAt (G ++ [close]) r c := by
  intro gs k
  rw [List.append_assoc, hr]
  cases r c with
  | error e => rfl
  | ok p =>
    obtain ⟨a, rest⟩ := p
    rw [after_ok, toEnd_ok]
    unfold Cursor.expectEnd
    rcases rest.isEmpty_cases (some .rightParen) with ⟨he, hword⟩ | ⟨he, m, tail, hword, -, hm⟩
    · simp only [he, hword]
      rfl
    · have hstep : close.step m = none := by
        rw [step_of_alternatives rfl, if_neg]
        simpa [Terminal.matches] using hm
      simp only [he, hword]
      exact judge_of_step_eq_none hstep

/-- A token that is asked for. -/
theorem readsAt_step {pattern : Pattern} (hpattern : pattern ≠ .leftParen)
    (h : g.alternatives = [(.item pattern, [])]) (hg : (g == datatype || g == typedef) = false)
    (c : Cursor) : ReadsAt [g] (Rule.step pattern) c := by
  intro gs k
  rw [Rule.step_apply]
  rcases c.step_cases (some .rightParen) hpattern with
    ⟨i, rest, m, hstep, hword, hm⟩ | ⟨hstep, hpeek⟩
  · have hnext : g.step m = some [] := by rw [step_of_alternatives h]; exact if_pos hm
    rw [hstep, hword]
    exact judge_of_step_eq_some hnext (blames_eq_false hg)
  · obtain ⟨m, tail, hword, hpeeks⟩ := c.word_eq_cons Cursor.ends_rightParen
    have hnext : g.step m = none := by
      rw [step_of_alternatives h]
      refine if_neg ?_
      show ¬pattern.matches m = true
      rw [← hpeeks, hpeek]
      exact Bool.false_ne_true
    rw [hstep, hword]
    exact judge_of_step_eq_none hnext

/-- A string is a goal by itself. -/
theorem readsAt_string (c : Cursor) : ReadsAt [string] (Rule.step .string) c :=
  readsAt_step (show Pattern.string ≠ .leftParen from nofun) rfl rfl c

/-- A goal whose only alternative is a keyword is pursued by taking it. -/
theorem readsAt_keyword {word : String} (h : g.alternatives = [(.item (.keyword word), [])])
    (hg : (g == datatype || g == typedef) = false) (c : Cursor) :
    ReadsAt [g] (Rule.keyword word) c :=
  readsAt_return (readsAt_step (show Pattern.keyword word ≠ .leftParen from nofun) h hg c)

/-- Only what a rule does at the cursor counts. -/
theorem closesAt_of_eq {r' : Rule α} (h : r c = r' c) (hr : ClosesAt G r' c) : ClosesAt G r c := by
  intro gs k
  rw [h]
  exact hr gs k

/-- Looking ahead reads nothing. -/
theorem readsAt_peek {pattern : Pattern} {k : Bool → Rule β}
    (hk : ReadsAt G (k (c.peek pattern)) c) : ReadsAt G (Rule.peek pattern >>= k) c := hk

/-- Looking ahead is no goal of a rule that has to use up the form either. -/
theorem closesAt_peek {pattern : Pattern} {k : Bool → Rule β}
    (hk : ClosesAt G (k (c.peek pattern)) c) : ClosesAt G (Rule.peek pattern >>= k) c := hk

/-- No alternative of the goal is led in by what a cursor stands at. -/
def FailsAt (g : Goal) (c : Cursor) : Prop :=
  ∀ alternative ∈ g.alternatives,
    ∃ pattern, alternative.1 = .item pattern ∧ c.peek pattern = false

/-- Where a goal fails the cursor's place is to blame. -/
theorem judge_of_failsAt (h : g.FailsAt c) (gs : List Goal) (k : List (Mark × Span)) :
    judge (g :: gs) (c.word (some .rightParen) ++ k) = .error (some c.span) := by
  obtain ⟨m, tail, hword, hpeeks⟩ := c.word_eq_cons Cursor.ends_rightParen
  rw [hword]
  refine judge_of_step_eq_none ?_
  rw [step, Option.map_eq_none_iff, List.find?_eq_none]
  intro alternative halternative
  obtain ⟨pattern, ht, hpeek⟩ := h alternative halternative
  rw [ht]
  show ¬pattern.matches m = true
  rw [← hpeeks, hpeek]
  exact Bool.false_ne_true

/-- A goal with two alternatives fails where neither is led in. -/
theorem failsAt_of_two_alternatives {pattern pattern' : Pattern} {next next' : List Goal}
    (h : g.alternatives = [(.item pattern, next), (.item pattern', next')])
    (hpeek : c.peek pattern = false) (hpeek' : c.peek pattern' = false) : g.FailsAt c := by
  intro alternative halternative
  rw [h, List.mem_cons, List.mem_singleton] at halternative
  rcases halternative with rfl | rfl
  · exact ⟨pattern, rfl, hpeek⟩
  · exact ⟨pattern', rfl, hpeek'⟩

/-- A goal with one alternative fails where that is not led in. -/
theorem failsAt_of_alternatives {pattern : Pattern} {next : List Goal}
    (h : g.alternatives = [(.item pattern, next)]) (hpeek : c.peek pattern = false) :
    g.FailsAt c := by
  intro alternative halternative
  rw [h, List.mem_singleton] at halternative
  exact ⟨pattern, by rw [halternative], hpeek⟩

/-- A word that leads in an alternative, and what the alternative goes on with. -/
theorem closesAt_word {pattern : Pattern} {next : List Goal} {f : Item → Rule β}
    (hpattern : pattern ≠ .leftParen)
    (hstep : ∀ m, pattern.matches m = true → g.step m = some next)
    (hblames : ∀ m tail, pattern.matches m = true → g.blames m tail = false)
    (hfails : c.peek pattern = false → g.FailsAt c)
    (hf : ∀ i rest, c.step pattern = .ok (i, rest) → ClosesAt next (f i) rest) :
    ClosesAt [g] (Rule.step pattern >>= f) c := by
  intro gs k
  rw [Rule.bind_apply, Rule.step_apply]
  rcases c.step_cases (some .rightParen) hpattern with
    ⟨i, rest, m, hok, hword, hm⟩ | ⟨herror, hpeek⟩
  · rw [hok, hword]
    exact (judge_of_step_eq_some (hstep m hm) (hblames m _ hm)).trans (hf i rest hok gs k)
  · rw [herror]
    exact judge_of_failsAt (hfails hpeek) gs k

/-- A keyword matches itself only. -/
theorem eq_of_matches_keyword {word : String} (h : (Pattern.keyword word).matches m = true) :
    m = some (.token .keyword word) := by
  rcases m with _ | _ | _ | ⟨kind, text⟩
  · cases h
  · cases h
  · cases h
  · have h : (kind == .keyword && text == word) = true := h
    rw [Bool.and_eq_true, beq_iff_eq, beq_iff_eq] at h
    rw [h.1, h.2]

/-- A reserved word matches itself only. -/
theorem eq_of_matches_reserved {word : String} (h : (Pattern.reserved word).matches m = true) :
    m = some (.token .reserved word) := by
  rcases m with _ | _ | _ | ⟨kind, text⟩
  · cases h
  · cases h
  · cases h
  · have h : (kind == .reserved && text == word) = true := h
    rw [Bool.and_eq_true, beq_iff_eq, beq_iff_eq] at h
    rw [h.1, h.2]

/-- A rule that begins with a keyword pursues the goal that goes on with the keyword to the goals of
the rest. -/
theorem closesAt_keyword {word : String} {next : List Goal} {k : Rule β}
    (hstep : g.step (some (.token .keyword word)) = some next)
    (hg : (g == datatype || g == typedef) = false)
    (hfails : c.peek (.keyword word) = false → g.FailsAt c)
    (hk : ∀ rest, Rule.keyword word c = .ok ((), rest) → ClosesAt next k rest) :
    ClosesAt [g] (Rule.keyword word >>= fun _ => k) c := by
  rw [Rule.keyword_bind]
  refine closesAt_word nofun (fun m hm => ?_) (fun _ _ _ => blames_eq_false hg) hfails
    fun i rest hi => hk rest ?_
  · rw [eq_of_matches_keyword hm, hstep]
  · rw [Rule.keyword, Rule.bind_apply, Rule.step_apply, hi]
    rfl

/-- A rule that begins with a reserved word, likewise. -/
theorem closesAt_reserved {word : String} {next : List Goal} {k : Rule β}
    (hstep : g.step (some (.token .reserved word)) = some next)
    (hg : (g == datatype || g == typedef) = false)
    (hfails : c.peek (.reserved word) = false → g.FailsAt c)
    (hk : ∀ rest, Rule.reserved word c = .ok ((), rest) → ClosesAt next k rest) :
    ClosesAt [g] (Rule.reserved word >>= fun _ => k) c := by
  rw [Rule.reserved_bind]
  refine closesAt_word nofun (fun m hm => ?_) (fun _ _ _ => blames_eq_false hg) hfails
    fun i rest hi => hk rest ?_
  · rw [eq_of_matches_reserved hm, hstep]
  · rw [Rule.reserved, Rule.bind_apply, Rule.step_apply, hi]
    rfl

/-- A choice whose branches all pursue the goal. -/
theorem closesAt_choose {branches : List (Pattern × Rule α)}
    (hfails : (∀ branch ∈ branches, c.peek branch.1 = false) → g.FailsAt c)
    (h : ∀ branch ∈ branches, c.peek branch.1 = true → ClosesAt [g] branch.2 c) :
    ClosesAt [g] (Rule.choose branches) c := by
  intro gs k
  unfold Rule.choose
  cases hfind : branches.find? fun branch => c.peek branch.1 with
  | some branch =>
    have hpeek : c.peek branch.1 = true := by
      simpa using List.find?_some hfind
    exact h branch (List.mem_of_find?_eq_some hfind) hpeek gs k
  | none =>
    refine judge_of_failsAt (hfails fun branch hbranch => ?_) gs k
    have := List.find?_eq_none.1 hfind branch hbranch
    rwa [Bool.not_eq_true] at this

/-! ## Forms -/

/-- A form whose inside pursues the first of the goals that its opening paren leads to. -/
theorem judge_form {G' : List Goal} {last : Mark} {inner behind : Cursor}
    (hstep : g.step (some .leftParen) = some (G ++ G')) (hr : ClosesAt G r inner)
    (hword : c.word last = (some .leftParen, c.span) ::
      (inner.word (some .rightParen) ++ behind.word last)) (gs : List Goal)
    (k : List (Mark × Span)) :
    judge (g :: gs) (c.word last ++ k) =
      after (Cursor.toEnd .expectedClose (r inner)) fun _ =>
        judge (G' ++ gs) (behind.word last ++ k) := by
  rw [hword, List.cons_append, judge_of_step_eq_some hstep (blames_eq_false_of_isScalar rfl),
    List.append_assoc, List.append_assoc]
  exact hr _ _

/-- A goal whose only alternative is a form is pursued by reading the form to its end. -/
theorem readsAt_inForm (h : g.alternatives = [(.item .leftParen, G)])
    (hr : ∀ inner, ClosesAt G r inner) (c : Cursor) : ReadsAt [g] (Rule.inForm r) c := by
  intro gs k
  rw [Rule.inForm_apply]
  rcases c.enter_cases (some .rightParen) with
    ⟨inner, behind, henter, -, -, hword⟩ | ⟨henter, hpeek⟩
  · have hstep : g.step (some .leftParen) = some (G ++ []) := by
      rw [step_of_alternatives h, List.append_nil]
      rfl
    rw [henter]
    refine (judge_form hstep (hr inner) hword gs k).trans ?_
    dsimp only
    cases Cursor.toEnd .expectedClose (r inner) <;> rfl
  · rw [henter]
    exact judge_of_failsAt (failsAt_of_alternatives h hpeek) gs k

/-- A form that stands last in another one. -/
theorem closesAt_inForm {inner behind : Cursor}
    (hstep : g.step (some .leftParen) = some (G ++ [close])) (hr : ClosesAt G r inner)
    (henter : c.enter = .ok (inner, behind))
    (hword : c.word (some .rightParen) = (some .leftParen, c.span) ::
      (inner.word (some .rightParen) ++ behind.word (some .rightParen))) :
    ClosesAt [g] (Rule.inForm r) c := by
  intro gs k
  rw [Rule.inForm_apply, henter]
  refine (judge_form hstep hr hword gs k).trans ?_
  dsimp only
  cases Cursor.toEnd .expectedClose (r inner) with
  | error e => rfl
  | ok a => exact closesAt_of_readsAt (readsAt_pure (c := behind) a) gs k

/-! ## Lists of constructs -/

section Lists

variable {entry : Entry α}

/-- The constructs that some items hold, for a goal to which each of them leads back. -/
theorem judge_documentedFrom {last : Mark} (hlast : g.step last = some [])
    (hg : (g == datatype || g == typedef) = false)
    (hentry : ∀ i gs k, i.isComment = false → judge (g :: gs) (i.marks ++ k) =
      after (entry i) fun _ => judge (g :: gs) k)
    (texts : List String) (l : List Item) (gs : List Goal) (k : List (Mark × Span)) :
    judge (g :: gs) (Item.allMarks l ++ (last, s) :: k) =
      after (entry.documentedFrom texts l) fun _ => judge gs k := by
  induction l generalizing texts with
  | nil =>
    exact judge_of_step_eq_some hlast (blames_eq_false hg)
  | cons i rest ih =>
    have hsome := Item.isSome_comment? i
    rw [Item.allMarks, Entry.documentedFrom]
    cases hi : i.isComment with
    | true =>
      rw [hi] at hsome
      obtain ⟨text, htext⟩ := Option.isSome_iff_exists.1 hsome
      rw [Item.marks_of_isComment hi, htext]
      exact ih _
    | false =>
      rw [hi, Option.isSome_eq_false_iff, Option.isNone_iff_eq_none] at hsome
      rw [hsome, List.append_assoc, hentry i gs _ hi]
      cases entry i with
      | error e => rfl
      | ok a =>
        dsimp only
        rw [ih []]
        cases entry.documentedFrom [] rest <;> rfl

/-- The forms of a list. -/
theorem judge_entry_form (hr : ∀ inner, ClosesAt G r inner)
    (hleft : g.step (some .leftParen) = some (G ++ [g]))
    (htoken : ∀ kind text, g.step (some (.token kind text)) = none) (i : Item) (gs : List Goal)
    (k : List (Mark × Span)) (hi : i.isComment = false) :
    judge (g :: gs) (i.marks ++ k) =
      after (Entry.form r i) fun _ => judge (g :: gs) k := by
  cases i with
  | token t =>
    rw [Item.marks_token hi]
    exact judge_of_step_eq_none (htoken t.kind t.text)
  | form items span closing =>
    rw [Item.marks, List.cons_append,
      judge_of_step_eq_some hleft (blames_eq_false_of_isScalar rfl), List.append_assoc]
    exact hr ⟨items, closing⟩ (g :: gs) k

/-- Documented constructs up to the end pursue the goal that each of them comes back to. -/
theorem closesAt_documented (hclose : g.step (some .rightParen) = some [])
    (hg : (g == datatype || g == typedef) = false)
    (hentry : ∀ i gs k, i.isComment = false → judge (g :: gs) (i.marks ++ k) =
      after (entry i) fun _ => judge (g :: gs) k) (c : Cursor) :
    ClosesAt [g] (Rule.documented entry) c := by
  intro gs k
  have h := judge_documentedFrom (s := c.closing) hclose hg hentry [] c.items gs k
  rw [Cursor.word, List.append_assoc]
  refine h.trans ?_
  unfold Rule.documented
  cases entry.documentedFrom [] c.items <;> rfl

/-- As `closesAt_documented`, where at least one construct is asked for. -/
theorem closesAt_documentedSome {g' : Goal} (what : Constituent)
    (hr : ClosesAt [g'] (Rule.documented entry) c) (hclose : g.step (some .rightParen) = none)
    (hcongr : ∀ m, m ≠ some .rightParen → g.step m = g'.step m)
    (hblames : ∀ m tail, g.blames m tail = g'.blames m tail) :
    ClosesAt [g] (Rule.documentedSome what entry) c := by
  intro gs k
  unfold Rule.documentedSome
  rcases c.isEmpty_cases (some .rightParen) with ⟨he, hword⟩ | ⟨he, m, tail, hword, -, hm⟩
  · rw [hword, he, if_pos rfl]
    exact judge_of_step_eq_none hclose
  · have h := hr gs k
    rw [he, if_neg Bool.false_ne_true, ← h, hword]
    exact judge_congr (hcongr m hm) (hblames m _)

end Lists

end WitxFrontEnd.Goal
