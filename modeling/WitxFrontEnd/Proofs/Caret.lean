import Mathlib.Data.List.DropRight
import WitxFrontEnd.Proofs.Documented
import WitxFrontEnd.Proofs.Place

/-!
# The line a report shows

A report shows a line of the source with a caret under it. Which line a mistake is on is counted by
line feeds (`Span.OnLine`), but the line that is shown is looked up among all line breaks of
Unicode (`Text.splitLines`). The two agree as long as no line before it holds another break: then
what is shown is the mistake's line up to the first other break in it. So the report points at the
mistake if and only if the line has none before the blanks at its end
(`Document.report_of_parse_error`).
-/

namespace WitxFrontEnd

/-! ## Lines that line feeds end -/

namespace Text

/-- The first line, and what is behind its line feed if it has one. -/
theorem splitOn_cases (cs : List Char) :
    '\n' ∉ cs ∧ cs.splitOn '\n' = [cs] ∨
      ∃ line rest, '\n' ∉ line ∧ cs = line ++ '\n' :: rest ∧
        cs.splitOn '\n' = line :: rest.splitOn '\n' := by
  by_cases h : '\n' ∈ cs
  · obtain ⟨line, rest, rfl, hline⟩ := List.eq_append_cons_of_mem h
    refine .inr ⟨line, rest, hline, rfl, ?_⟩
    rw [List.splitOn_append_cons_self, List.splitOn_eq_singleton hline, List.singleton_append]
  · exact .inl ⟨h, List.splitOn_eq_singleton h⟩

/-- A line is followed up to the next line feed. -/
theorem takeWhile_append_of_not_mem {line : List Char} (h : '\n' ∉ line) (rest : List Char) :
    (line ++ rest).takeWhile (· != '\n') = line ++ rest.takeWhile (· != '\n') := by
  refine List.takeWhile_append_of_pos fun c hc => bne_iff_ne.2 ?_
  rintro rfl
  exact h hc

/-- The first line ends before the first line feed. -/
theorem exists_splitOn_eq_cons (cs : List Char) :
    ∃ later, cs.splitOn '\n' = cs.takeWhile (· != '\n') :: later := by
  rcases splitOn_cases cs with ⟨h, hsplit⟩ | ⟨line, rest, h, rfl, hsplit⟩
  · have hcs := takeWhile_append_of_not_mem h []
    rw [List.append_nil] at hcs
    exact ⟨[], by rw [hsplit, hcs, List.takeWhile_nil, List.append_nil]⟩
  · refine ⟨rest.splitOn '\n', ?_⟩
    rw [hsplit, takeWhile_append_of_not_mem h, List.takeWhile_cons_of_neg (by decide),
      List.append_nil]

/-- There is one line more than line feeds. -/
theorem length_splitOn (cs : List Char) : (cs.splitOn '\n').length = cs.count '\n' + 1 := by
  induction cs with
  | nil => rfl
  | cons c cs ih =>
    rw [List.splitOn_cons_eq_if_modifyHead, List.count_cons]
    split
    · rw [List.length_cons, ih]
    · rw [List.length_modifyHead, ih]

/-- A text that begins with whole lines, up to some place in the next line. -/
theorem exists_splitOn_append {front before : List Char}
    (hfront : front = [] ∨ ∃ lines, front = lines ++ ['\n']) (hbefore : '\n' ∉ before)
    (behind : List Char) :
    ∃ earlier later, (front ++ (before ++ behind)).splitOn '\n' =
        earlier ++ (before ++ behind.takeWhile (· != '\n')) :: later ∧
      (front ++ before).count '\n' = earlier.length := by
  obtain ⟨later, hlater⟩ := exists_splitOn_eq_cons (before ++ behind)
  rw [takeWhile_append_of_not_mem hbefore] at hlater
  have hcount : before.count '\n' = 0 := List.count_eq_zero.2 hbefore
  rcases hfront with rfl | ⟨lines, rfl⟩
  · exact ⟨[], later, hlater, hcount⟩
  · refine ⟨lines.splitOn '\n', later, ?_, ?_⟩
    · rw [List.append_assoc, List.singleton_append, List.splitOn_append_cons_self, hlater]
    · rw [List.count_append, List.count_append, hcount, length_splitOn]
      rfl

/-- The lines before one of them, each with its line feed, make up what is before it. -/
theorem eq_append_of_splitOn {cs line : List Char} {earlier later : List (List Char)}
    (h : cs.splitOn '\n' = earlier ++ line :: later) :
    ∃ rest, cs = earlier.flatMap (· ++ ['\n']) ++ (line ++ rest) ∧
      ∀ c ∈ rest.head?, c = '\n' := by
  induction earlier generalizing cs with
  | nil =>
    rcases splitOn_cases cs with ⟨-, hsplit⟩ | ⟨first, rest, -, rfl, hsplit⟩
    · obtain ⟨rfl, -⟩ := List.cons.inj (hsplit.symm.trans h)
      exact ⟨[], by simp, nofun⟩
    · obtain ⟨rfl, -⟩ := List.cons.inj (hsplit.symm.trans h)
      exact ⟨'\n' :: rest, rfl, fun c hc => by cases hc; rfl⟩
  | cons first earlier ih =>
    rcases splitOn_cases cs with ⟨-, hsplit⟩ | ⟨first, rest, -, rfl, hsplit⟩
    · obtain ⟨-, hnil⟩ := List.cons.inj (hsplit.symm.trans h)
      simp at hnil
    · obtain ⟨rfl, hrest⟩ := List.cons.inj (hsplit.symm.trans h)
      obtain ⟨behind, rfl, hbehind⟩ := ih hrest
      exact ⟨behind, by simp, hbehind⟩

/-! ## Lines that other breaks end -/

/-- Nothing in the text ends a line. -/
def Unbroken (cs : List Char) : Prop :=
  ∀ c ∈ cs, isLineBreak c = false

/-- Nothing in the line ends it, but maybe a carriage return before the line feed. -/
def OneLine (line : List Char) : Prop :=
  ∃ text, Unbroken text ∧ (line = text ∨ line = text ++ ['\r'])

/-- A character that breaks nothing belongs to the first line. -/
theorem splitLines_cons_of_unbroken {c : Char} (hc : isLineBreak c = false) (rest : List Char) :
    splitLines (c :: rest) =
      match splitLines rest with
      | [] => [[c]]
      | line :: lines => (c :: line) :: lines := by
  have hpair : ∀ rest', c = '\r' → rest = '\n' :: rest' → False := by
    rintro rest' rfl
    exact absurd hc (by decide)
  rw [splitLines.eq_3 c rest hpair, hc]
  cases splitLines rest <;> rfl

/-- A line feed, with or without a carriage return, ends a line. -/
theorem splitLines_append {text ending : List Char} (htext : Unbroken text)
    (hending : ending = ['\n'] ∨ ending = ['\r', '\n']) (rest : List Char) :
    splitLines (text ++ (ending ++ rest)) = text :: splitLines rest := by
  induction text with
  | nil => rcases hending with rfl | rfl <;> rfl
  | cons c text ih =>
    obtain ⟨hc, htext⟩ := List.forall_mem_cons.1 htext
    rw [List.cons_append, splitLines_cons_of_unbroken hc, ih htext]

/-- The first line that is left ends at the first break. -/
theorem head?_splitLines {cs : List Char} (h : cs ≠ []) :
    (splitLines cs).head? = some (cs.takeWhile fun c => !isLineBreak c) := by
  fun_induction splitLines cs with
  | case1 => exact absurd rfl h
  | case2 rest ih => rfl
  | case3 c rest _ hc ih => simp [hc]
  | case4 c rest _ hc hnil ih =>
    have hrest : rest = [] := by
      by_contra hne
      simpa [hnil] using ih hne
    simp [hrest, hc]
  | case5 c rest _ hc line lines hlines ih =>
    have hrest : rest ≠ [] := by
      rintro rfl
      cases hlines
    have hline : line = rest.takeWhile fun c => !isLineBreak c := by
      simpa [hlines] using ih hrest
    simp [hline, hc]

/-- Behind whole lines the other lines follow. -/
theorem getElem?_splitLines {earlier : List (List Char)} (h : ∀ line ∈ earlier, OneLine line)
    (rest : List Char) :
    (splitLines (earlier.flatMap (· ++ ['\n']) ++ rest))[earlier.length]? =
      (splitLines rest).head? := by
  induction earlier with
  | nil => exact List.head?_eq_getElem?.symm
  | cons line earlier ih =>
    obtain ⟨⟨text, htext, hline⟩, hearlier⟩ := List.forall_mem_cons.1 h
    obtain ⟨ending, hending, hline⟩ : ∃ ending, (ending = ['\n'] ∨ ending = ['\r', '\n']) ∧
        line ++ ['\n'] = text ++ ending := by
      rcases hline with rfl | rfl
      · exact ⟨['\n'], .inl rfl, rfl⟩
      · exact ⟨['\r', '\n'], .inr rfl, by simp⟩
    rw [List.flatMap_cons, hline, List.append_assoc, List.append_assoc,
      splitLines_append htext hending, List.length_cons, List.getElem?_cons_succ]
    exact ih hearlier

/-! ## Blanks at the end -/

/-- Blanks at the end do not matter to what is left without them. -/
theorem trimRight_append_blanks {cs blanks : List Char} (h : ∀ c ∈ blanks, isBlank c = true) :
    trimRight (cs ++ blanks) = trimRight cs := by
  have hnil : trimRight blanks = [] := List.rdropWhile_eq_nil_iff.2 h
  rw [trimRight_append, if_pos hnil]

/-- What a line has before a character of some kind is all of it, but for blanks, if and only if it
has no such character before the blanks at its end. -/
theorem trimRight_takeWhile (p : Char → Bool) (line : List Char) :
    trimRight (line.takeWhile p) = trimRight line ↔ ∀ c ∈ trimRight line, p c = true := by
  constructor
  · intro h c hc
    rw [← h] at hc
    exact List.mem_takeWhile_imp ((List.rdropWhile_prefix isBlank _).subset hc)
  · intro h
    have hline : trimRight line ++ line.rtakeWhile isBlank = line :=
      List.rdropWhile_append_rtakeWhile
    have hkept : ∀ c ∈ (line.rtakeWhile isBlank).takeWhile p, isBlank c = true :=
      fun c hc => List.mem_rtakeWhile_imp ((List.takeWhile_prefix p).subset hc)
    calc trimRight (line.takeWhile p)
      _ = trimRight ((trimRight line ++ line.rtakeWhile isBlank).takeWhile p) := by rw [hline]
      _ = trimRight (trimRight line ++ (line.rtakeWhile isBlank).takeWhile p) := by
        rw [List.takeWhile_append_of_pos h]
      _ = trimRight (trimRight line) := trimRight_append_blanks hkept
      _ = trimRight line := List.rdropWhile_idempotent isBlank line

/-- Behind whole lines, what is shown of a line is all of it, but for blanks, if and only if it has
no other line break before the blanks at its end. -/
theorem shows_iff {cs line : List Char} {earlier later : List (List Char)}
    (h : cs.splitOn '\n' = earlier ++ line :: later) (hearlier : ∀ l ∈ earlier, OneLine l)
    (hline : line ≠ []) :
    (splitLines cs)[earlier.length]?.map trimRight = some (trimRight line) ↔
      Unbroken (trimRight line) := by
  obtain ⟨rest, rfl, hrest⟩ := eq_append_of_splitOn h
  have hstop : rest.takeWhile (fun c => !isLineBreak c) = [] := by
    cases rest with
    | nil => rfl
    | cons c rest =>
      obtain rfl := hrest c rfl
      rfl
  have hshown : (line ++ rest).takeWhile (fun c => !isLineBreak c) =
      line.takeWhile fun c => !isLineBreak c := by
    rw [List.takeWhile_append]
    split
    · next hlength =>
      rw [hstop, List.append_nil]
      exact ((List.takeWhile_prefix _).eq_of_length hlength).symm
    · rfl
  rw [getElem?_splitLines hearlier, head?_splitLines (by simp [hline]), hshown, Option.map_some,
    Option.some_inj, trimRight_takeWhile]
  simp [Unbroken]

end Text

/-! ## Where a span points -/

/-- The span is on that line of the source, behind the earlier ones. Its column is where the line
goes on as the source does from the span's offset. -/
structure Span.OnLine (s : Span) (source : String) (earlier : List (List Char))
    (line : List Char) : Prop where
  lines : ∃ later, source.toList.splitOn '\n' = earlier ++ line :: later
  number : s.line = earlier.length + 1
  column : ∃ before, s.column = before.length + 1 ∧
    line = before ++ (source.toList.drop s.offset.toNat).takeWhile (· != '\n')

/-- A place of the source is on a line of it. -/
theorem Span.IsPlace.exists_onLine {s : Span} {source : String} {filename : Option String}
    (h : s.IsPlace source filename) : ∃ earlier line, s.OnLine source earlier line := by
  obtain ⟨first, hle, hbegins, hbefore, hcolumn⟩ := h.column
  have hnonneg := h.nonneg
  have hinside := h.inside
  have hlength := source.length_toList
  have htake : source.toList.take first ++ (source.toList.take s.offset.toNat).drop first =
      source.toList.take s.offset.toNat := by
    have hsplit := List.take_append_drop first (source.toList.take s.offset.toNat)
    rwa [List.take_take, Nat.min_eq_left hle] at hsplit
  have hsource : source.toList.take first ++ ((source.toList.take s.offset.toNat).drop first ++
      source.toList.drop s.offset.toNat) = source.toList := by
    rw [← List.append_assoc, htake, List.take_append_drop]
  have hfront : source.toList.take first = [] ∨
      ∃ lines, source.toList.take first = lines ++ ['\n'] := by
    cases first with
    | zero => exact .inl rfl
    | succ n =>
      have hnewline : source.toList[n]? = some '\n' := hbegins.resolve_left nofun
      exact .inr ⟨source.toList.take n, by rw [List.take_add_one, hnewline]; rfl⟩
  obtain ⟨earlier, later, hlines, hcount⟩ := Text.exists_splitOn_append hfront hbefore
    (source.toList.drop s.offset.toNat)
  rw [hsource] at hlines
  rw [htake] at hcount
  refine ⟨earlier, _, ⟨later, hlines⟩, ?_, _, ?_, rfl⟩
  · rw [h.line, hcount]
    omega
  · rw [hcolumn, List.length_drop, List.length_take]
    omega

/-! ## Reports -/

namespace ParseError

/-- The report that shows that line, with a caret under that column. -/
def pointing (e : ParseError) (line : List Char) (column : Int) : String :=
  String.intercalate "\n" ["error: " ++ e.toString, "  | " ++ String.ofList (Text.trimRight line),
    "  | " ++ String.ofList (List.replicate (column - 1).toNat ' ') ++ "^"]

/-- The characters of a report that points into a line. -/
theorem toList_pointing (e : ParseError) (line : List Char) (column : Int) :
    (e.pointing line column).toList = ("error: " ++ e.toString).toList ++ "\n  | ".toList ++
      Text.trimRight line ++
        ("\n  | ".toList ++ (List.replicate (column - 1).toNat ' ' ++ ['^'])) := by
  show ("error: " ++ e.toString ++ "\n" ++ ("  | " ++ String.ofList (Text.trimRight line)) ++
    "\n" ++ ("  | " ++ String.ofList (List.replicate (column - 1).toNat ' ') ++ "^")).toList = _
  simp

/-- Reports that point to one column differ only by their lines. -/
theorem pointing_inj {e : ParseError} {line line' : List Char} {column : Int} :
    e.pointing line column = e.pointing line' column ↔
      Text.trimRight line = Text.trimRight line' := by
  constructor
  · intro h
    have hlist := congrArg String.toList h
    rw [toList_pointing, toList_pointing] at hlist
    exact List.append_cancel_left (List.append_cancel_right hlist)
  · intro h
    rw [pointing, h, pointing]

/-- The report shows the line that is looked up, if there is one. -/
theorem report_eq {e : ParseError} {s : Span} {n : Nat} (hspan : e.span = some s)
    (hline : s.line = n + 1) (source : String) :
    e.report source =
      match (Text.splitLines source.toList)[n]? with
      | none => "error: " ++ e.toString
      | some line => e.pointing line s.column := by
  have hindex : (s.line - 1).toNat = n := by omega
  have hpos : ¬s.line < 1 := by omega
  rw [report, hspan]
  dsimp only
  rw [excerpt, if_neg hpos, hindex]
  cases (Text.splitLines source.toList)[n]? <;> rfl

/-- So it points at a line if and only if that is the line shown, but for blanks. -/
theorem report_eq_pointing_iff {e : ParseError} {s : Span} {n : Nat} (hspan : e.span = some s)
    (hline : s.line = n + 1) (source : String) (line : List Char) :
    e.report source = e.pointing line s.column ↔
      (Text.splitLines source.toList)[n]?.map Text.trimRight = some (Text.trimRight line) := by
  rw [report_eq hspan hline]
  cases (Text.splitLines source.toList)[n]? with
  | none =>
    refine iff_of_false (fun h => ?_) nofun
    have hlength := congrArg (fun text : String => text.toList.length) h
    simp [toList_pointing] at hlength
  | some shown =>
    dsimp only
    rw [pointing_inj, Option.map_some, Option.some_inj]

end ParseError

/-- Every mistake in a source is on a line of it. The report points at the mistake if and only if
the line that is looked up is that line, but for blanks. If no other line break than a line feed,
with or without a carriage return, is before the line, and the line is not empty, this comes down to
no line break being in it, but for blanks. -/
theorem Document.report_of_parse_error {source : String} {filename : Option String} {e : ParseError}
    (h : parse source filename = .error e) :
    ∃ s earlier line, e.span = some s ∧ s.OnLine source earlier line ∧
      (e.report source = e.pointing line s.column ↔
        (Text.splitLines source.toList)[earlier.length]?.map Text.trimRight =
          some (Text.trimRight line)) ∧
      (line ≠ [] → (∀ l ∈ earlier, Text.OneLine l) →
        (e.report source = e.pointing line s.column ↔ Text.Unbroken (Text.trimRight line))) := by
  obtain ⟨s, hspan, hplace⟩ := exists_isPlace_of_parse_error h
  obtain ⟨earlier, line, honLine⟩ := hplace.exists_onLine
  have hreport := ParseError.report_eq_pointing_iff hspan honLine.number source line
  refine ⟨s, earlier, line, hspan, honLine, hreport, fun hne hearlier => hreport.trans ?_⟩
  obtain ⟨later, hlines⟩ := honLine.lines
  exact Text.shows_iff hlines hearlier hne

/-- A form feed at the end of the first line, and a mistake on the second. -/
def ParseError.formFeedSource : String :=
  "(use \"a\")\x0c\n)"

/-- The mistake in it. -/
def ParseError.strayCloseOnLineTwo : ParseError :=
  ⟨.strayClose, some ⟨11, 2, 1, none⟩⟩

/-- The report shows an empty line instead. -/
theorem Document.report_of_parse_error_form_feed :
    parse ParseError.formFeedSource none = .error ParseError.strayCloseOnLineTwo ∧
      (⟨11, 2, 1, none⟩ : Span).OnLine ParseError.formFeedSource ["(use \"a\")\x0c".toList] [')'] ∧
      ParseError.strayCloseOnLineTwo.report ParseError.formFeedSource =
        "error: 2:1: unexpected `)`\n  | \n  | ^" ∧
      ParseError.strayCloseOnLineTwo.report ParseError.formFeedSource ≠
        ParseError.strayCloseOnLineTwo.pointing [')'] 1 := by
  have herror : parse ParseError.formFeedSource none = .error ParseError.strayCloseOnLineTwo := by
    decide +kernel
  have hreport : ParseError.strayCloseOnLineTwo.report ParseError.formFeedSource =
      "error: 2:1: unexpected `)`\n  | \n  | ^" := by decide +kernel
  have hsplit : ParseError.formFeedSource.toList.splitOn '\n' =
      ["(use \"a\")\x0c".toList, [')']] := by decide +kernel
  obtain ⟨s, earlier, line, hspan, honLine, hpoints, -⟩ := report_of_parse_error herror
  cases hspan
  obtain ⟨later, hlines⟩ := honLine.lines
  obtain ⟨rfl, rfl⟩ : earlier = ["(use \"a\")\x0c".toList] ∧ line = [')'] := by
    have hnumber : (2 : Int) = earlier.length + 1 := honLine.number
    obtain ⟨first, rfl⟩ := List.length_eq_one_iff.1 (by omega : earlier.length = 1)
    obtain ⟨hfirst, hrest⟩ := List.cons.inj (hsplit.symm.trans hlines)
    exact ⟨congrArg (fun l => [l]) hfirst.symm, (List.cons.inj hrest).1.symm⟩
  exact ⟨herror, honLine, hreport, fun heq => absurd (hpoints.1 heq) (by decide +kernel)⟩

example : (match Document.parse "(typename $a\n  (enum u8 nope))" none with
    | .ok _ => ""
    | .error e => e.report "(typename $a\n  (enum u8 nope))") =
      "error: 2:12: expected an identifier\n  |   (enum u8 nope))\n  |            ^" := by
  decide +kernel

end WitxFrontEnd
