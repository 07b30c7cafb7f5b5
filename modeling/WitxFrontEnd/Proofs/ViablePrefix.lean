import Mathlib.Data.List.Basic
import WitxFrontEnd.Proofs.Completion
import WitxFrontEnd.Proofs.Verdict.Grammar

/-!
# The first mark with which no document goes on

A run of marks is viable if the word of some document begins with it. As everything that is to come
can come, these are the runs that lead somewhere (`viable_of_run`, `run_of_viable`), and where a
source is no document there is a first mark at which its word is viable no longer. `judge` gets
stuck at that mark (`Goal.judge_of_stuck`), so that is the place of the mistake
(`Document.parse_error_span`), with one exception: a scalar that stands for a datatype is blamed for
the keyword `array` right behind it.
-/

namespace WitxFrontEnd

/-- Some document's word begins with the marks. -/
def Viable (w : List Mark) : Prop :=
  ∃ source filename c d, Cursor.ofSource source filename = .ok c ∧
    Document.parse source filename = .ok d ∧ w <+: (c.word none).map Prod.fst

/-- A scalar follows the mark without being a datatype. -/
def Goal.takesScalar (m : Mark) : Bool :=
  (Pattern.keyword "enum").matches m || (Pattern.keyword "flags").matches m

/-- The mark is the keyword `array`, and the one before it a scalar's keyword that stands for a
datatype, which is to say not the scalar that an enumeration or flags begin with. -/
def ArrayBehindScalar (before : List Mark) (m : Mark) : Prop :=
  (Pattern.keyword "array").matches m = true ∧ ∃ rest scalar, before = rest ++ [scalar] ∧
    Goal.isScalar scalar = true ∧ ∀ last ∈ rest.getLast?, Goal.takesScalar last = false

namespace Goal

variable {g : Goal} {gs next S : List Goal} {m : Mark}

/-! ## Verdicts and runs -/

theorem matches_keyword_iff {text : String} :
    (Pattern.keyword text).matches m = true ↔ m = some (.token .keyword text) := by
  constructor
  · exact eq_of_matches_keyword
  · rintro rfl
    simp [Pattern.matches]

theorem isScalar_iff : isScalar m = true ↔ ∃ type : Scalar,
    m = some (.token .keyword type.keyword) := by
  rw [isScalar, List.any_eq_true]
  constructor
  · rintro ⟨type, -, h⟩
    exact ⟨type, matches_keyword_iff.1 h⟩
  · rintro ⟨type, rfl⟩
    exact ⟨type, type.mem_all, matches_keyword_iff.2 rfl⟩

/-- Scalars are what begins a datatype or a type definition, and what bare scalars are. -/
theorem step_of_isScalar (hm : isScalar m = true) (h : g.step m = some next) :
    g = scalar ∨ (g = datatype ∨ g = typedef) ∧ next = [close] := by
  obtain ⟨type, rfl⟩ := isScalar_iff.1 hm
  cases g with
  | scalar => exact .inl rfl
  | datatype =>
    refine .inr ⟨.inl rfl, ?_⟩
    cases type <;> exact (Option.some.inj h).symm
  | typedef =>
    refine .inr ⟨.inr rfl, ?_⟩
    cases type <;> exact (Option.some.inj h).symm
  | _ => cases type <;> cases h

theorem blames_iff {w : List (Mark × Span)} : g.blames m w = true ↔
    (g = datatype ∨ g = typedef) ∧ isScalar m = true ∧
      ∃ x tail, w = x :: tail ∧ (Pattern.keyword "array").matches x.1 = true := by
  rw [blames, Bool.and_eq_true, Bool.and_eq_true, Bool.or_eq_true, beq_iff_eq, beq_iff_eq,
    and_assoc]
  cases w <;> simp

/-- Behind a scalar that is blamed nothing goes on. -/
theorem feed_of_blames {w : List (Mark × Span)} (h : g.step m = some next)
    (hblames : g.blames m w = true) (gs : List Goal) :
    ∃ x tail, w = x :: tail ∧ feed (next ++ gs) x.1 = none := by
  obtain ⟨hg, hm, x, tail, hw, harray⟩ := blames_iff.1 hblames
  refine ⟨x, tail, hw, ?_⟩
  rw [matches_keyword_iff.1 harray]
  rcases step_of_isScalar hm h with rfl | ⟨-, rfl⟩
  · rcases hg with hg | hg <;> cases hg
  · rfl

/-- What goes on is judged by what is to come there. -/
theorem judge_append {before after : List (Mark × Span)} {x : Mark × Span}
    (hrun : run gs (before.map Prod.fst) = some S) (hfeed : feed S x.1 ≠ none) :
    judge gs (before ++ x :: after) = judge S (x :: after) := by
  induction before generalizing gs with
  | nil => cases hrun; rfl
  | cons y before ih =>
    obtain ⟨m, s⟩ := y
    rw [List.map_cons, run_cons] at hrun
    obtain ⟨gs₁, hfirst, hrest⟩ := Option.bind_eq_some_iff.1 hrun
    cases gs with
    | nil => cases hfirst
    | cons g gs =>
      obtain ⟨next, hstep, rfl⟩ := Option.map_eq_some_iff.1 hfirst
      have hblames : g.blames m (before ++ x :: after) = false := by
        by_contra hblames
        rw [Bool.not_eq_false] at hblames
        obtain ⟨z, tail, hz, hstuck⟩ := feed_of_blames hstep hblames gs
        cases before with
        | nil =>
          cases hz
          cases hrest
          exact hfeed hstuck
        | cons y before =>
          cases hz
          rw [List.map_cons, run_cons, hstuck] at hrest
          cases hrest
      rw [List.cons_append, judge_of_step_eq_some hstep hblames]
      exact ih hrest

/-- All goals are reached if and only if the verdict is good. -/
theorem judge_eq_ok_iff {w : List (Mark × Span)} :
    judge gs w = .ok () ↔ run gs (w.map Prod.fst) = some [] := by
  induction w generalizing gs with
  | nil => cases gs <;> simp [judge]
  | cons x w ih =>
    obtain ⟨m, s⟩ := x
    rw [List.map_cons, run_cons]
    cases gs with
    | nil => simp [judge, feed]
    | cons g gs =>
      cases hstep : g.step m with
      | none => simp [judge_of_step_eq_none hstep, feed, hstep]
      | some next =>
        have hfeed : feed (g :: gs) m = some (next ++ gs) := by
          rw [feed, hstep]
          rfl
        rw [hfeed]
        cases hblames : g.blames m w with
        | false =>
          rw [judge_of_step_eq_some hstep hblames, ih]
          rfl
        | true =>
          obtain ⟨x, tail, rfl, hstuck⟩ := feed_of_blames hstep hblames gs
          rw [judge_of_blames hstep hblames, Option.bind_some, List.map_cons, run_cons, hstuck]
          constructor
          · intro h
            cases h
          · intro h
            cases h

/-- A run that does not go through gets stuck at one of its marks. -/
theorem exists_stuck {w : List (Mark × Span)} (h : run gs (w.map Prod.fst) = none) :
    ∃ before x after S, w = before ++ x :: after ∧ run gs (before.map Prod.fst) = some S ∧
      feed S x.1 = none := by
  induction w generalizing gs with
  | nil => cases h
  | cons x w ih =>
    rw [List.map_cons, run_cons] at h
    cases hfeed : feed gs x.1 with
    | none => exact ⟨[], x, w, gs, rfl, rfl, hfeed⟩
    | some gs₁ =>
      rw [hfeed] at h
      obtain ⟨before, y, after, S, rfl, hrun, hstuck⟩ := ih h
      refine ⟨x :: before, y, after, S, rfl, ?_, hstuck⟩
      rw [List.map_cons, run_cons, hfeed]
      exact hrun

/-! ## Blame -/

/-- Whether a mark takes a scalar depends on which terminal it is. -/
theorem takesScalar_of_matches {t : Terminal} (h : t.matches m = true) :
    takesScalar m = (t == .item (.keyword "enum") || t == .item (.keyword "flags")) := by
  cases t with
  | finish => obtain rfl := eq_of_beq h; rfl
  | close => obtain rfl := eq_of_beq h; rfl
  | item pattern =>
    rcases m with _ | s
    · cases pattern <;> cases h
    · cases s with
      | leftParen =>
        cases pattern with
        | leftParen => rfl
        | identifier | string | keyword | reserved => cases h
      | rightParen => cases pattern <;> cases h
      | token kind text =>
        cases pattern with
        | leftParen => cases h
        | identifier | string => obtain rfl := eq_of_beq h; rfl
        | reserved word =>
          obtain ⟨hkind, -⟩ := Bool.and_eq_true_iff.1 h
          obtain rfl := eq_of_beq hkind
          rfl
        | keyword word =>
          have hkeyword : (Pattern.keyword word).matches (some (.token kind text)) = true := h
          cases matches_keyword_iff.1 hkeyword
          rw [Bool.eq_iff_iff]
          simp [takesScalar, Pattern.matches]

theorem Stack.head?_tail (hgs : Stack (g :: gs)) : gs.head? ≠ some scalar := by
  cases hgs with
  | bottom => exact nofun
  | push _ _ hscalar _ => exact hscalar

/-- A bare scalar is to come behind the keywords that take one, and behind no other symbol. -/
theorem Stack.takesScalar_iff (hgs : Stack gs) (h : Goal.feed gs m = some S) :
    takesScalar m = true ↔ S.head? = some scalar := by
  cases gs with
  | nil => cases h
  | cons g gs =>
    obtain ⟨next, hstep, rfl⟩ := Option.map_eq_some_iff.1 h
    obtain ⟨t, hmem, hmatches⟩ := step_eq_some hstep
    have hall : g.alternatives.all (fun a => (a.1 == .item (.keyword "enum") ||
        a.1 == .item (.keyword "flags")) == (a.2.head? == some scalar)) = true := by
      cases g <;> decide
    have hhead := eq_of_beq (List.all_eq_true.1 hall _ hmem)
    rw [takesScalar_of_matches hmatches, hhead, beq_iff_eq]
    cases next with
    | nil => exact ⟨nofun, fun h => absurd h hgs.head?_tail⟩
    | cons first rest => exact Iff.rfl

/-- Where a run of symbols leads to a bare scalar. -/
theorem scalar_iff_of_run {w : List Symbol} (h : run [topLevels] (w.map some) = some (g :: gs)) :
    g = scalar ↔ ∃ last ∈ (w.map some).getLast?, takesScalar last = true := by
  rcases List.eq_nil_or_concat' w with rfl | ⟨w, s, rfl⟩
  · cases h
    exact ⟨nofun, fun ⟨last, hlast, _⟩ => (by cases hlast)⟩
  · rw [List.map_append, List.map_singleton, run_concat] at h
    obtain ⟨gs₁, hrun, hfeed⟩ := Option.bind_eq_some_iff.1 h
    have hhead := (Stack.bottom.run hrun).takesScalar_iff hfeed
    rw [List.head?_cons, Option.some_inj] at hhead
    simp [← hhead]

/-- Where the marks before lead somewhere, a scalar is blamed exactly if it stands for a datatype
and has the keyword `array` behind it. -/
theorem blames_iff_arrayBehindScalar {w : List Symbol}
    (hrun : run [topLevels] (w.map some) = some (g :: gs)) (hstep : g.step m = some next)
    (x : Mark × Span) (after : List (Mark × Span)) :
    g.blames m (x :: after) = true ↔ ArrayBehindScalar (w.map some ++ [m]) x.1 := by
  have hscalar := scalar_iff_of_run hrun
  rw [blames_iff]
  constructor
  · rintro ⟨hg, hm, y, tail, hy, harray⟩
    cases hy
    refine ⟨harray, w.map some, m, rfl, hm, fun last hlast => ?_⟩
    by_contra htakes
    rw [Bool.not_eq_false] at htakes
    obtain rfl := hscalar.2 ⟨last, hlast, htakes⟩
    rcases hg with hg | hg <;> cases hg
  · rintro ⟨harray, rest, m', heq, hm, hrest⟩
    obtain ⟨hrest', hm'⟩ := List.append_inj' heq rfl
    subst hrest'
    cases hm'
    refine ⟨?_, hm, x, after, rfl, harray⟩
    rcases step_of_isScalar hm hstep with rfl | ⟨hg, -⟩
    · obtain ⟨last, hlast, htakes⟩ := hscalar.1 rfl
      rw [hrest last hlast] at htakes
      cases htakes
    · exact hg

/-- Where nothing goes on the verdict is bad. -/
theorem judge_of_feed_eq_none {x : Mark × Span} (h : feed gs x.1 = none)
    (after : List (Mark × Span)) : judge gs (x :: after) = .error (some x.2) := by
  cases gs with
  | nil => rfl
  | cons g gs => exact judge_of_step_eq_none (Option.map_eq_none_iff.1 h)

/-- Where a run gets stuck the verdict is bad, and the place to blame is the mark at which it got
stuck, or the scalar before it. -/
theorem judge_of_stuck {before : List (Mark × Span)} {x : Mark × Span} {w : List Symbol}
    (hw : before.map Prod.fst = w.map some)
    (hrun : run [topLevels] (before.map Prod.fst) = some S) (hstuck : feed S x.1 = none)
    (after : List (Mark × Span)) :
    (¬ArrayBehindScalar (before.map Prod.fst) x.1 ∧
      judge [topLevels] (before ++ x :: after) = .error (some x.2)) ∨
    (ArrayBehindScalar (before.map Prod.fst) x.1 ∧ ∃ y ∈ before.getLast?,
      judge [topLevels] (before ++ x :: after) = .error (some y.2)) := by
  rcases List.eq_nil_or_concat' before with rfl | ⟨before, y, rfl⟩
  · cases hrun
    refine .inl ⟨?_, judge_of_feed_eq_none hstuck after⟩
    rintro ⟨-, rest, scalar, hnil, -⟩
    cases rest <;> cases hnil
  · rcases List.eq_nil_or_concat' w with rfl | ⟨w, s, rfl⟩
    · simp at hw
    · rw [List.map_append, List.map_append] at hw
      obtain ⟨hw, -⟩ := List.append_inj' hw rfl
      rw [List.map_append, List.map_singleton, run_concat, hw] at hrun
      obtain ⟨gs₁, hbefore, hfeed⟩ := Option.bind_eq_some_iff.1 hrun
      cases gs₁ with
      | nil => cases hfeed
      | cons g gs =>
        obtain ⟨next, hstep, rfl⟩ := Option.map_eq_some_iff.1 hfeed
        have hjudge : judge [topLevels] (before ++ [y] ++ x :: after) =
            judge (g :: gs) (y :: x :: after) := by
          rw [List.append_assoc]
          exact judge_append (hw ▸ hbefore) (by rw [hfeed]; exact nofun)
        have hiff := blames_iff_arrayBehindScalar hbefore hstep x after
        rw [hjudge, List.map_append, hw, List.map_singleton, ← hiff]
        cases hblames : g.blames y.1 (x :: after) with
        | false =>
          refine .inl ⟨Bool.false_ne_true, ?_⟩
          rw [← judge_of_feed_eq_none hstuck after]
          exact judge_of_step_eq_some hstep hblames
        | true =>
          exact .inr ⟨rfl, y, List.getLast?_concat, judge_of_blames hstep hblames⟩

end Goal

/-! ## Viable words -/

open Goal (run topLevels)

variable {source : String} {filename : Option String} {c : Cursor}

/-- A source is a document if and only if its word goes through. -/
theorem Document.exists_parse_iff (hc : Cursor.ofSource source filename = .ok c) :
    (∃ d, parse source filename = .ok d) ↔
      run [topLevels] ((c.word none).map Prod.fst) = some [] := by
  rw [← Goal.judge_eq_ok_iff, Goal.judge_document, parse, hc]
  show (∃ d, Cursor.toEnd .expectedEnd (Grammar.document c) = .ok d) ↔ _
  cases Cursor.toEnd .expectedEnd (Grammar.document c) with
  | ok d => simp
  | error e => simp

/-- Symbols that can be written and lead somewhere begin the word of a document. -/
theorem viable_of_run {w : List Symbol} {d : Nat} {S : List Goal} (hplain : ∀ s ∈ w, s.Plain)
    (hclimb : Symbol.climb Item.maxNesting 0 w = some d)
    (hrun : run [topLevels] (w.map some) = some S) : Viable (w.map some) := by
  have hstack : Goal.Stack S := Goal.Stack.bottom.run hrun
  have hbound : 2 < Item.maxNesting := by decide
  obtain ⟨v, hplain', hrun', hclimb'⟩ := hstack.exists_completion hbound
  rw [Goal.depth_run hrun hclimb] at hclimb'
  have hall : ∀ s ∈ w ++ v, s.Plain := fun s hs =>
    (List.mem_append.1 hs).elim (hplain s) (hplain' s)
  have hground : Symbol.climb Item.maxNesting 0 (w ++ v) = some 0 := by
    rw [Symbol.climb_append, hclimb]
    exact hclimb'
  obtain ⟨source, c, hc, hword⟩ := Cursor.exists_ofSource hall hground none
  have hparse := (Document.exists_parse_iff hc).2 <| by
    rw [hword, List.map_append, List.append_assoc, Goal.run_append, hrun, Option.bind_some,
      Goal.run_append, hrun']
    rfl
  obtain ⟨d, hd⟩ := hparse
  refine ⟨source, none, c, d, hc, hd, ?_⟩
  rw [hword, List.map_append, List.append_assoc]
  exact List.prefix_append _ _

/-- Marks that begin the word of a document lead somewhere. -/
theorem run_of_viable {w : List Mark} (h : Viable w) : ∃ S, run [topLevels] w = some S := by
  obtain ⟨source, filename, c, d, hc, hd, rest, hword⟩ := h
  have hrun := (Document.exists_parse_iff hc).1 ⟨d, hd⟩
  rw [← hword, Goal.run_append] at hrun
  obtain ⟨S, hS, -⟩ := Option.bind_eq_some_iff.1 hrun
  exact ⟨S, hS⟩

/-- A run that gets to the end of a source has nothing left to come. -/
theorem run_word (hc : Cursor.ofSource source filename = .ok c) {S : List Goal}
    (h : run [topLevels] ((c.word none).map Prod.fst) = some S) : S = [] := by
  obtain ⟨w, hw, -⟩ := Cursor.exists_word hc
  rw [Cursor.word, List.map_append, hw, List.map_singleton, Goal.run_concat] at h
  obtain ⟨S', hrun, hfeed⟩ := Option.bind_eq_some_iff.1 h
  exact ((Goal.Stack.bottom.run hrun).feed_none hfeed).2

/-- What is in front of a mark of a word comes before all that the word ends with. -/
theorem Cursor.exists_rest {before after : List (Mark × Span)} {x : Mark × Span}
    (h : c.word none = before ++ x :: after) :
    ∃ rest, Item.allMarks c.items = before ++ rest ∧ x :: after = rest ++ [(none, c.closing)] := by
  rcases List.append_eq_append_iff.1 h with ⟨more, rfl, hend⟩ | ⟨rest, hitems, hrest⟩
  · cases more with
    | nil => exact ⟨[], by rw [List.append_nil, List.append_nil], hend.symm⟩
    | cons y more => simp at hend
  · exact ⟨rest, hitems, hrest⟩

/-- No mark in front of another one has its span. -/
theorem Cursor.span_ne (hc : ofSource source filename = .ok c) {before after : List (Mark × Span)}
    {x : Mark × Span} (h : c.word none = before ++ x :: after) (hx : x.1 ≠ none) :
    ∀ y ∈ before, y.2 ≠ x.2 := by
  obtain ⟨rest, hitems, hrest⟩ := exists_rest h
  have hpairs := pairwise_offset hc
  rw [hitems] at hpairs
  cases rest with
  | nil =>
    cases hrest
    exact absurd rfl hx
  | cons z rest =>
    cases hrest
    intro y hy heq
    have hlt := (List.pairwise_append.1 hpairs).2.2 y hy x List.mem_cons_self
    rw [heq] at hlt
    exact Int.lt_irrefl _ hlt

/-- For a source that is read but is no document, everything in front of some mark of its word can
go on to become a document, and nothing can with that mark. The mistake is at that mark if and only
if the mark is not the keyword `array` behind a scalar that stands for a datatype; otherwise it is
at that scalar. -/
theorem Document.parse_error_span {e : ParseError} (hc : Cursor.ofSource source filename = .ok c)
    (he : parse source filename = .error e) :
    ∃ before x after, c.word none = before ++ x :: after ∧ Viable (before.map Prod.fst) ∧
      ¬Viable ((before ++ [x]).map Prod.fst) ∧
      (e.span = some x.2 ↔ ¬ArrayBehindScalar (before.map Prod.fst) x.1) ∧
      (ArrayBehindScalar (before.map Prod.fst) x.1 → ∃ y ∈ before.getLast?, e.span = some y.2) := by
  have hjudge : Goal.judge [topLevels] (c.word none) = .error e.span := by
    rw [parse, hc] at he
    change Cursor.toEnd .expectedEnd (Grammar.document c) = _ at he
    rw [Goal.judge_document, he]
    rfl
  have hfails : run [topLevels] ((c.word none).map Prod.fst) = none := by
    cases hrun : run [topLevels] ((c.word none).map Prod.fst) with
    | none => rfl
    | some S =>
      obtain rfl := run_word hc hrun
      rw [Goal.judge_eq_ok_iff.2 hrun] at hjudge
      cases hjudge
  obtain ⟨before, x, after, S, hword, hrun, hstuck⟩ := Goal.exists_stuck hfails
  obtain ⟨rest, hitems, hrest⟩ := Cursor.exists_rest hword
  obtain ⟨w, hw, hplain, hclimb⟩ := Cursor.exists_word hc
  rw [hitems, List.map_append] at hw
  obtain ⟨w₁, w₂, rfl, hw₁, hw₂⟩ := List.map_eq_append_iff.1 hw.symm
  obtain ⟨d, hd, -⟩ := Option.bind_eq_some_iff.1 (Symbol.climb_append w₁ w₂ ▸ hclimb)
  refine ⟨before, x, after, hword, ?_, ?_, ?_⟩
  · rw [← hw₁] at hrun ⊢
    exact viable_of_run (fun s hs => hplain s (List.mem_append_left _ hs)) hd hrun
  · intro hviable
    obtain ⟨S', hS'⟩ := run_of_viable hviable
    rw [List.map_append, List.map_singleton, Goal.run_concat, hrun, Option.bind_some, hstuck] at hS'
    cases hS'
  · rw [hword] at hjudge
    rcases Goal.judge_of_stuck hw₁.symm hrun hstuck after with
      ⟨harray, hverdict⟩ | ⟨harray, y, hy, hverdict⟩
    · have hspan := Except.error.inj (hjudge.symm.trans hverdict)
      exact ⟨⟨fun _ => harray, fun _ => hspan⟩, fun h => absurd h harray⟩
    · have hspan := Except.error.inj (hjudge.symm.trans hverdict)
      have hx : x.1 ≠ none := by
        rw [Goal.matches_keyword_iff.1 harray.1]
        exact nofun
      have hne := Cursor.span_ne hc hword hx y (List.mem_of_getLast? hy)
      refine ⟨⟨fun h => ?_, fun h => absurd harray h⟩, fun _ => ⟨y, hy, hspan⟩⟩
      rw [hspan] at h
      exact absurd (Option.some.inj h) hne

/-- Where `array` comes behind the scalar `u8` the mistake is at `u8`. -/
theorem Document.parse_error_span_scalar :
    ∃ c e, Cursor.ofSource "(typename $t u8 array)" none = .ok c ∧
      parse "(typename $t u8 array)" none = .error e ∧ e.span = some ⟨13, 1, 14, none⟩ ∧
      ∃ before x after, c.word none = before ++ x :: after ∧ Viable (before.map Prod.fst) ∧
        ¬Viable ((before ++ [x]).map Prod.fst) ∧
        (e.span = some x.2 ↔ ¬ArrayBehindScalar (before.map Prod.fst) x.1) ∧
        (ArrayBehindScalar (before.map Prod.fst) x.1 →
          ∃ y ∈ before.getLast?, e.span = some y.2) := by
  have hread : (Cursor.ofSource "(typename $t u8 array)" none).toBool = true := by decide +kernel
  have hspan : Goal.after (parse "(typename $t u8 array)" none) (fun _ => .ok ()) =
      .error (some ⟨13, 1, 14, none⟩) := by
    decide +kernel
  cases hc : Cursor.ofSource "(typename $t u8 array)" none with
  | error e => rw [hc] at hread; cases hread
  | ok c =>
    cases he : parse "(typename $t u8 array)" none with
    | ok d => rw [he] at hspan; cases hspan
    | error e =>
      rw [he] at hspan
      exact ⟨c, e, rfl, rfl, Except.error.inj hspan, parse_error_span hc he⟩

end WitxFrontEnd
