import Mathlib.Algebra.Order.BigOperators.Group.List
import Mathlib.Algebra.Order.Group.Nat
import WitxFrontEnd.Proofs.Caret

/-!
# The indentation that documentation loses

Documentation is cut comment by comment (`Documentation.docs`): the indentation of a comment is
that of its first characters, and only there it is cut. What is promised is about lines, with one
least indentation that every line loses (`LineByLine`). A doc comment of one line is the same as its
line, so the promise is kept as long as no doc comment has more lines. A doc comment with more lines
ends in one that is not blank and that loses nothing; the promise is then kept only if nothing is
to be cut anywhere and no line has blanks at its end (`Documentation.docs_lineByLine_iff`).
-/

namespace WitxFrontEnd

namespace Text

/-! ## Blanks at both ends -/

/-- All characters of the line are blank. -/
def isBlankLine (line : List Char) : Bool :=
  line.all isBlank

/-- A line is blank if nothing is left of it without the blanks at its end. -/
theorem isBlankLine_iff {line : List Char} : isBlankLine line = true ↔ trimRight line = [] := by
  rw [isBlankLine, List.all_eq_true]
  exact List.rdropWhile_eq_nil_iff.symm

/-- A line is not blank if something is left of it. -/
theorem isBlankLine_eq_false_iff {line : List Char} :
    isBlankLine line = false ↔ trimRight line ≠ [] := by
  rw [← Bool.not_eq_true, isBlankLine_iff]

/-- There are no blanks left to take off. -/
theorem trimRight_trimRight (cs : List Char) : trimRight (trimRight cs) = trimRight cs :=
  List.rdropWhile_idempotent isBlank cs

/-- Nothing is taken off a text whose last character is not blank. -/
theorem trimRight_eq_self_iff {cs : List Char} :
    trimRight cs = cs ↔ ∀ h : cs ≠ [], isBlank (cs.getLast h) = false := by
  simp only [← Bool.not_eq_true]
  exact List.rdropWhile_eq_self_iff

/-- What is cut off in front of a text does not lay blanks open at its end. -/
theorem trimRight_drop {cs : List Char} (h : trimRight cs = cs) (n : Nat) :
    trimRight (cs.drop n) = cs.drop n := by
  rw [trimRight_eq_self_iff] at h ⊢
  intro hdrop
  rw [List.getLast_drop hdrop]
  exact h _

/-- Without the blanks at its end a text is no longer. -/
theorem length_trimRight_le (cs : List Char) : (trimRight cs).length ≤ cs.length :=
  (List.rdropWhile_prefix isBlank cs).length_le

/-- What is behind the indentation of a line that is not blank starts with no blank. -/
theorem drop_indentation {line : List Char} (h : isBlankLine line = false) :
    ∃ c rest, line.drop (indentation line) = c :: rest ∧ isBlank c = false := by
  have hdrop : line.drop (indentation line) = line.dropWhile isBlank := by
    have hleft : (line.takeWhile isBlank ++ line.dropWhile isBlank).drop
        (line.takeWhile isBlank).length = line.dropWhile isBlank := List.drop_left
    rwa [List.takeWhile_append_dropWhile] at hleft
  have hne : line.dropWhile isBlank ≠ [] := by
    intro hnil
    have hall : isBlankLine line = true := List.all_eq_true.2 (List.dropWhile_eq_nil_iff.1 hnil)
    rw [hall] at h
    cases h
  obtain ⟨c, rest, hcons⟩ := List.exists_cons_of_ne_nil hne
  refine ⟨c, rest, hdrop.trans hcons, ?_⟩
  have hhead := List.head_dropWhile_not isBlank hne
  simpa [hcons] using hhead

/-- A line whose first character is not blank is not indented. -/
theorem indentation_cons_of_not_blank {c : Char} (h : isBlank c = false) (rest : List Char) :
    indentation (c :: rest) = 0 := by
  simp [indentation, h]

/-- Nor is it blank. -/
theorem isBlankLine_cons_of_not_blank {c : Char} (h : isBlank c = false) (rest : List Char) :
    isBlankLine (c :: rest) = false := by
  simp [isBlankLine, h]

/-- A line is blank if both parts of it are. -/
theorem isBlankLine_append (line line' : List Char) :
    isBlankLine (line ++ line') = (isBlankLine line && isBlankLine line') :=
  List.all_append

/-- A line is as blank without the blanks at its end. -/
theorem isBlankLine_trimRight (line : List Char) :
    isBlankLine (trimRight line) = isBlankLine line := by
  rw [Bool.eq_iff_iff, isBlankLine_iff, isBlankLine_iff, trimRight_trimRight]

/-- Of a line that is not blank the end is taken off, whatever is in front of it. -/
theorem trimRight_append_of_not_blank {line : List Char} (h : isBlankLine line = false)
    (gap : List Char) : trimRight (gap ++ line) = gap ++ trimRight line := by
  rw [trimRight_append, if_neg (isBlankLine_eq_false_iff.1 h)]

/-- A semicolon is no blank. -/
theorem trimRight_semicolon (cs : List Char) : trimRight (';' :: cs) = ';' :: trimRight cs := by
  have happend := trimRight_append [';'] cs
  split at happend
  · next hnil =>
    rw [hnil]
    exact happend
  · exact happend

/-- Blanks in front are indentation, to which that of the line is added. -/
theorem indentation_append {gap : List Char} (h : ∀ c ∈ gap, isBlank c = true) (line : List Char) :
    indentation (gap ++ line) = gap.length + indentation line := by
  rw [indentation, List.takeWhile_append_of_pos h, List.length_append, indentation]

/-- The blanks at the end of a line are not those in front of it, unless it is blank. -/
theorem indentation_trimRight {line : List Char} (h : isBlankLine line = false) :
    indentation (trimRight line) = indentation line := by
  have hline : trimRight line ++ line.rtakeWhile isBlank = line :=
    List.rdropWhile_append_rtakeWhile
  have hne : ¬(trimRight line).takeWhile isBlank = trimRight line := by
    intro hall
    have hblank : isBlankLine (trimRight line) = true :=
      List.all_eq_true.2 (List.takeWhile_eq_self_iff.1 hall)
    rw [isBlankLine_trimRight, h] at hblank
    cases hblank
  have hshort : ¬((trimRight line).takeWhile isBlank).length = (trimRight line).length :=
    fun hlength => hne ((List.takeWhile_prefix _).eq_of_length hlength)
  conv_rhs => rw [← hline, indentation, List.takeWhile_append, if_neg hshort]
  rfl

/-- All characters that end a line are blank. -/
theorem isBlank_of_isLineBreak {c : Char} (h : isLineBreak c = true) : isBlank c = true := by
  simp only [isLineBreak, isBlank, Bool.or_eq_true, Bool.and_eq_true, decide_eq_true_eq,
    beq_iff_eq] at h ⊢
  omega

/-! ## Texts that line feeds end -/

/-- Texts with a line feed behind each are cut into the parts of each, and an empty one. -/
theorem splitOn_flatMap (texts : List (List Char)) :
    (texts.flatMap (· ++ ['\n'])).splitOn '\n' = texts.flatMap (·.splitOn '\n') ++ [[]] := by
  induction texts with
  | nil => rfl
  | cons text texts ih =>
    rw [List.flatMap_cons, List.flatMap_cons, List.append_assoc, List.append_assoc,
      List.singleton_append, List.splitOn_append_cons_self, ih]

/-- The first line of a text that starts with no blank starts with the same character. -/
theorem exists_splitOn_cons {c : Char} (hc : isBlank c = false) (rest : List Char) :
    ∃ line later, (c :: rest).splitOn '\n' = (c :: line) :: later := by
  have hne : (c != '\n') = true := by
    rw [bne_iff_ne]
    rintro rfl
    cases hc
  obtain ⟨later, hlater⟩ := exists_splitOn_eq_cons (c :: rest)
  rw [List.takeWhile_cons_of_pos (p := (· != '\n')) hne] at hlater
  exact ⟨_, later, hlater⟩

/-- A text with a line feed in it and no blanks at its end ends in a line that is not blank. -/
theorem exists_last_line {text : List Char} (htext : trimRight text = text) (h : '\n' ∈ text) :
    ∃ before last, text = before ++ '\n' :: last ∧ '\n' ∉ last ∧ isBlankLine last = false := by
  obtain ⟨last, before, hreverse, hlast⟩ := List.eq_append_cons_of_mem (List.mem_reverse.2 h)
  have htext' : text = before.reverse ++ '\n' :: last.reverse := by
    rw [← List.reverse_reverse text, hreverse]
    simp
  refine ⟨before.reverse, last.reverse, htext', by simpa using hlast, ?_⟩
  by_contra hblank
  -- Blank up to its end, the text would be cut before the line feed.
  have hnil : trimRight ('\n' :: last.reverse) = [] := by
    have hfeed : isBlank '\n' = true := rfl
    rw [← isBlankLine_iff]
    simpa [isBlankLine, hfeed] using hblank
  rw [htext', trimRight_append, if_pos hnil] at htext
  have hlength := congrArg List.length htext
  have hle := length_trimRight_le before.reverse
  simp at hlength hle
  omega

end Text

/-! ## Parts of two lists that belong together -/

/-- Lists in pieces that belong together agree piece by piece, if no piece of the one is longer than
that of the other. -/
theorem forall₂_of_flatMap {α β γ : Type} {R : β → γ → Prop} {f : α → List β} {g : α → List γ}
    {as : List α} (hlength : ∀ a ∈ as, (f a).length ≤ (g a).length)
    (h : List.Forall₂ R (as.flatMap f) (as.flatMap g)) : ∀ a ∈ as, List.Forall₂ R (f a) (g a) := by
  induction as with
  | nil => exact nofun
  | cons a as ih =>
    obtain ⟨hhead, htail⟩ := List.forall_mem_cons.1 hlength
    rw [List.flatMap_cons, List.flatMap_cons] at h
    obtain ⟨first, others, hfirst, hothers, happend⟩ := forall₂_append_left h
    have hsum : (as.flatMap f).length ≤ (as.flatMap g).length := by
      rw [List.length_flatMap, List.length_flatMap]
      exact List.sum_le_sum htail
    have htotal := congrArg List.length happend
    rw [List.length_append, List.length_append, ← hfirst.length_eq, ← hothers.length_eq] at htotal
    obtain ⟨rfl, rfl⟩ := List.append_inj happend (by rw [← hfirst.length_eq]; omega)
    exact List.forall_mem_cons.2 ⟨hfirst, ih htail hothers⟩

namespace Documentation

open Text (isBlankLine indentation trimRight)

variable {comments : List String} {texts lines : List (List Char)}

/-! ## The least indentation -/

/-- The least indentation among the lines that are not blank, and zero if all are. -/
def leastIndentation (lines : List (List Char)) : Nat :=
  ((lines.filter fun line => !isBlankLine line).map indentation).min?.getD 0

/-- The least indentation is at most that of any line that is not blank. -/
theorem leastIndentation_le {line : List Char} (h : line ∈ lines)
    (hblank : isBlankLine line = false) : leastIndentation lines ≤ indentation line := by
  refine List.min?_getD_le_of_mem (List.mem_map_of_mem (List.mem_filter.2 ⟨h, ?_⟩))
  rw [hblank]
  rfl

/-- Some line has the least indentation, unless all are blank. -/
theorem leastIndentation_cases (lines : List (List Char)) :
    (∀ line ∈ lines, isBlankLine line = true) ∧ leastIndentation lines = 0 ∨
      ∃ line ∈ lines, isBlankLine line = false ∧ indentation line = leastIndentation lines := by
  cases hmin : ((lines.filter fun line => !isBlankLine line).map indentation).min? with
  | none =>
    refine .inl ⟨fun line hline => ?_, ?_⟩
    · have hnil := List.min?_eq_none_iff.1 hmin
      rw [List.map_eq_nil_iff, List.filter_eq_nil_iff] at hnil
      simpa using hnil line hline
    · rw [leastIndentation, hmin]
      rfl
  | some n =>
    obtain ⟨line, hline, hn⟩ := List.mem_map.1 (List.min?_mem hmin)
    obtain ⟨hline, hblank⟩ := List.mem_filter.1 hline
    refine .inr ⟨line, hline, by simpa using hblank, ?_⟩
    rw [leastIndentation, hmin, hn]
    rfl

/-- Texts without blanks at their ends are blank only if they are empty, so the margin of texts is
the least indentation. -/
theorem margin_eq_leastIndentation (h : ∀ text ∈ texts, trimRight text = text) :
    margin texts = leastIndentation texts := by
  have hfilter : (texts.filter fun text => !text.isEmpty) =
      texts.filter fun text => !isBlankLine text := by
    refine List.filter_congr fun text htext => ?_
    rw [Bool.not_inj_iff, Bool.eq_iff_iff, Text.isBlankLine_iff, h text htext, List.isEmpty_iff]
  rw [margin, leastIndentation, hfilter]

/-! ## The lines of doc comments -/

/-- The texts of doc comments have no blanks at their ends. -/
theorem trimRight_of_mem_docTexts {text : List Char} (h : text ∈ docTexts comments) :
    trimRight text = text := by
  obtain ⟨comment, -, hcomment⟩ := List.mem_filterMap.1 h
  split at hcomment
  · next text' htrim =>
    cases hcomment
    have hself := Text.trimRight_trimRight comment.toList
    rw [htrim] at hself
    exact Text.trimRight_drop hself 1
  · cases hcomment

/-- The margin of doc comments is the least indentation of their texts. -/
theorem margin_docTexts (comments : List String) :
    margin (docTexts comments) = leastIndentation (docTexts comments) :=
  margin_eq_leastIndentation fun _ => trimRight_of_mem_docTexts

/-- The texts of doc comments have no blanks at their ends, and so they have none after the cut. -/
theorem toList_docs (comments : List String) :
    (docs comments).toList =
      (docTexts comments).flatMap fun text => text.drop (margin (docTexts comments)) ++ ['\n'] := by
  rw [docs, String.toList_ofList]
  refine List.flatMap_congr fun text htext => ?_
  rw [Text.trimRight_drop (trimRight_of_mem_docTexts htext)]

/-- The lines that doc comments have. -/
def sourceLines (comments : List String) : List (List Char) :=
  (docTexts comments).flatMap (·.splitOn '\n')

/-- The lines that are left of the lines of doc comments. -/
def shownLines (comments : List String) : List (List Char) :=
  (docTexts comments).flatMap fun text => (text.drop (margin (docTexts comments))).splitOn '\n'

/-- The lines of the documentation, the last of which is ended as well. -/
theorem splitOn_docs (comments : List String) :
    (docs comments).toList.splitOn '\n' = shownLines comments ++ [[]] := by
  have hlines := Text.splitOn_flatMap
    ((docTexts comments).map (·.drop (margin (docTexts comments))))
  rw [List.flatMap_map, List.flatMap_map] at hlines
  rw [toList_docs]
  exact hlines

/-! ## Cut line by line -/

/-- Documentation is cut line by line: none of its lines has blanks at its end, and each line that
is not blank is the line at its place in the doc comments without their least indentation and
without the blanks at its end. -/
structure LineByLine (comments : List String) : Prop where
  trimmed : ∀ line ∈ (docs comments).toList.splitOn '\n', trimRight line = line
  cut : ∃ shown, (docs comments).toList.splitOn '\n' = shown ++ [[]] ∧
    List.Forall₂ (fun line source => isBlankLine line = false →
      line = trimRight (source.drop (leastIndentation (sourceLines comments))))
      shown (sourceLines comments)

/-- The promise in terms of the lines that are shown: they are trimmed, and each is its line in the
source without the least indentation. -/
theorem lineByLine_iff_shownLines : LineByLine comments ↔
    (∀ line ∈ shownLines comments, trimRight line = line) ∧
      List.Forall₂ (fun line source => isBlankLine line = false →
        line = trimRight (source.drop (leastIndentation (sourceLines comments))))
        (shownLines comments) (sourceLines comments) := by
  constructor
  · rintro ⟨htrimmed, shown, hshown, hcut⟩
    rw [splitOn_docs] at htrimmed hshown
    obtain rfl := List.append_cancel_right hshown
    exact ⟨fun line hline => htrimmed line (List.mem_append_left _ hline), hcut⟩
  · rintro ⟨htrimmed, hcut⟩
    refine ⟨?_, _, splitOn_docs comments, hcut⟩
    rw [splitOn_docs]
    intro line hline
    rcases List.mem_append.1 hline with hline | hline
    · exact htrimmed line hline
    · obtain rfl := List.mem_singleton.1 hline
      rfl

/-- Each doc comment is cut line by line then. -/
theorem LineByLine.cut_text (h : LineByLine comments) : ∀ text ∈ docTexts comments,
    List.Forall₂ (fun line source => isBlankLine line = false →
      line = trimRight (source.drop (leastIndentation (sourceLines comments))))
      ((text.drop (margin (docTexts comments))).splitOn '\n') (text.splitOn '\n') := by
  refine forall₂_of_flatMap (fun text _ => ?_) (lineByLine_iff_shownLines.1 h).2
  rw [Text.length_splitOn, Text.length_splitOn]
  exact Nat.succ_le_succ ((List.drop_sublist _ _).count_le _)

/-- A doc comment of one line is that line. -/
theorem lineByLine_of_single (h : ∀ text ∈ docTexts comments, '\n' ∉ text) :
    LineByLine comments := by
  have hsource : sourceLines comments = docTexts comments := by
    rw [sourceLines, List.flatMap_congr fun text htext => List.splitOn_eq_singleton (h text htext),
      List.flatMap_singleton']
  have hshown : shownLines comments =
      (docTexts comments).map (·.drop (margin (docTexts comments))) := by
    rw [shownLines, ← List.flatMap_pure_eq_map]
    refine List.flatMap_congr fun text htext => ?_
    exact List.splitOn_eq_singleton fun hmem => h text htext (List.mem_of_mem_drop hmem)
  rw [lineByLine_iff_shownLines, hsource, hshown, ← margin_docTexts]
  constructor
  · rw [List.forall_mem_map]
    exact fun text htext => Text.trimRight_drop (trimRight_of_mem_docTexts htext) _
  · rw [List.forall₂_map_left_iff, List.forall₂_same]
    intro text htext _
    exact (Text.trimRight_drop (trimRight_of_mem_docTexts htext) _).symm

/-- If the margin is zero nothing is cut off, and the lines are those of the source. -/
theorem shownLines_of_margin (h : margin (docTexts comments) = 0) :
    shownLines comments = sourceLines comments := by
  rw [shownLines, h, sourceLines]
  rfl

/-- Where nothing is cut, some line of the doc comments is not indented, or all are blank. -/
theorem leastIndentation_sourceLines (h : margin (docTexts comments) = 0) :
    leastIndentation (sourceLines comments) = 0 := by
  rcases leastIndentation_cases (sourceLines comments) with ⟨-, hzero⟩ | ⟨line, hline, hblank, -⟩
  · exact hzero
  obtain ⟨text, htext, hline⟩ := List.mem_flatMap.1 hline
  rw [margin_docTexts] at h
  rcases leastIndentation_cases (docTexts comments) with ⟨hall, -⟩ | ⟨first, hfirst, hne, hleast⟩
  · -- The line would be one of an empty text.
    have hnil := Text.isBlankLine_iff.1 (hall text htext)
    rw [trimRight_of_mem_docTexts htext] at hnil
    subst hnil
    obtain rfl := List.mem_singleton.1 hline
    cases hblank
  · obtain ⟨c, rest, hdrop, hc⟩ := Text.drop_indentation hne
    rw [hleast, h, List.drop_zero] at hdrop
    obtain ⟨line, later, hsplit⟩ := Text.exists_splitOn_cons hc rest
    have hmem : c :: line ∈ sourceLines comments := by
      refine List.mem_flatMap.2 ⟨first, hfirst, ?_⟩
      rw [hdrop, hsplit]
      exact List.mem_cons_self
    have hle := leastIndentation_le hmem (Text.isBlankLine_cons_of_not_blank hc line)
    rw [Text.indentation_cons_of_not_blank hc] at hle
    omega

/-- Nothing is to be cut, neither in front nor at the ends of the lines. -/
theorem lineByLine_of_uncut (hmargin : margin (docTexts comments) = 0)
    (h : ∀ line ∈ sourceLines comments, trimRight line = line) : LineByLine comments := by
  rw [lineByLine_iff_shownLines, shownLines_of_margin hmargin,
    leastIndentation_sourceLines hmargin]
  refine ⟨h, List.forall₂_same.2 fun line hline _ => ?_⟩
  rw [List.drop_zero, h line hline]

/-- The last line of a doc comment with several lines loses nothing in front. -/
theorem LineByLine.leastIndentation_eq_zero (h : LineByLine comments) {text : List Char}
    (htext : text ∈ docTexts comments) (hfeed : '\n' ∈ text) :
    leastIndentation (sourceLines comments) = 0 := by
  obtain ⟨before, last, rfl, hlast, hblank⟩ :=
    Text.exists_last_line (trimRight_of_mem_docTexts htext) hfeed
  have hlines := h.cut_text _ htext
  have hsource : (before ++ '\n' :: last).splitOn '\n' = before.splitOn '\n' ++ [last] := by
    rw [List.splitOn_append_cons_self, List.splitOn_eq_singleton hlast]
  -- No line feed is cut off, as no line is.
  have hbefore : margin (docTexts comments) ≤ before.length := by
    by_contra hlt
    obtain ⟨k, hk⟩ := Nat.exists_eq_add_of_lt (Nat.not_le.1 hlt)
    have hrest : (before ++ '\n' :: last).drop (margin (docTexts comments)) = last.drop k := by
      rw [hk, Nat.add_assoc, List.drop_length_add_append, List.drop_succ_cons]
    have hcount : (last.drop k).count '\n' = 0 :=
      List.count_eq_zero.2 fun hmem => hlast (List.mem_of_mem_drop hmem)
    have hlength := hlines.length_eq
    rw [hrest, Text.length_splitOn, hcount, Text.length_splitOn, List.count_append,
      List.count_cons_self] at hlength
    omega
  rw [List.drop_append_of_le_length hbefore, hsource, List.splitOn_append_cons_self,
    List.splitOn_eq_singleton hlast] at hlines
  obtain ⟨earlier, final, -, hfinal, happend⟩ := forall₂_append_left hlines
  obtain ⟨source, _, hsourceLine, hnil, rfl⟩ := List.forall₂_cons_left_iff.1 hfinal
  cases hnil
  obtain ⟨-, hsame⟩ := List.append_inj' happend rfl
  cases hsame
  have hcut := hsourceLine hblank
  have hle := Text.length_trimRight_le (last.drop (leastIndentation (sourceLines comments)))
  have hpos : last.length ≠ 0 := by
    intro hzero
    rw [List.length_eq_zero_iff.1 hzero] at hblank
    cases hblank
  rw [← hcut, List.length_drop] at hle
  omega

/-- Then no first line loses anything either: it would still be indented as it was, and some first
line is not indented any more. -/
theorem LineByLine.margin_eq_zero (h : LineByLine comments)
    (hzero : leastIndentation (sourceLines comments) = 0) : margin (docTexts comments) = 0 := by
  rw [margin_docTexts]
  rcases leastIndentation_cases (docTexts comments) with ⟨-, hnone⟩ | ⟨text, htext, hne, hleast⟩
  · exact hnone
  obtain ⟨c, rest, hdrop, hc⟩ := Text.drop_indentation hne
  obtain ⟨line, later, hshown⟩ := Text.exists_splitOn_cons hc rest
  obtain ⟨later', hsource⟩ := Text.exists_splitOn_eq_cons text
  have hlines := h.cut_text text htext
  rw [margin_docTexts, ← hleast, hdrop, hshown, hsource, hzero] at hlines
  have hfirst : c :: line = trimRight (text.takeWhile (· != '\n')) :=
    (List.forall₂_cons.1 hlines).1 (Text.isBlankLine_cons_of_not_blank hc line)
  have hbegins : c :: line <+: text := by
    rw [hfirst]
    exact (List.rdropWhile_prefix _ _).trans (List.takeWhile_prefix _)
  obtain ⟨rest', rfl⟩ := hbegins
  rw [← hleast]
  exact Text.indentation_cons_of_not_blank hc _

/-- Documentation is the text of each doc comment with its first characters cut, as many as the
least indentation of a doc comment. It is cut line by line as long as every doc comment is one line;
otherwise only if that is nothing and no line of a doc comment has blanks at its end. -/
theorem docs_lineByLine_iff (comments : List String) :
    (docs comments).toList = ((docTexts comments).flatMap fun text =>
        text.drop (margin (docTexts comments)) ++ ['\n']) ∧
      (LineByLine comments ↔
        (∀ text ∈ docTexts comments, '\n' ∉ text) ∨
          (margin (docTexts comments) = 0 ∧
            ∀ line ∈ sourceLines comments, trimRight line = line)) := by
  refine ⟨toList_docs comments, fun h => ?_, ?_⟩
  · by_cases hsingle : ∀ text ∈ docTexts comments, '\n' ∉ text
    · exact .inl hsingle
    · simp only [not_forall, not_not] at hsingle
      obtain ⟨text, htext, hfeed⟩ := hsingle
      have hmargin := h.margin_eq_zero (h.leastIndentation_eq_zero htext hfeed)
      refine .inr ⟨hmargin, fun line hline => ?_⟩
      rw [← shownLines_of_margin hmargin] at hline
      exact (lineByLine_iff_shownLines.1 h).1 line hline
  · rintro (hsingle | ⟨hmargin, htrimmed⟩)
    · exact lineByLine_of_single hsingle
    · exact lineByLine_of_uncut hmargin htrimmed

/-- A used file whose documentation is a block comment of two lines. -/
def blockDocumented : Document :=
  ⟨[⟨[";  a\n   b "], .use "x"⟩]⟩

/-- The second line keeps all of its indentation. -/
theorem docs_lineByLine_iff_block_comment :
    Document.parse "(;;  a\n   b ;)(use \"x\")" none = .ok blockDocumented ∧
      docs [";  a\n   b "] = "a\n   b\n" ∧
      leastIndentation (sourceLines [";  a\n   b "]) = 2 ∧ ¬LineByLine [";  a\n   b "] := by
  have hparse : Document.parse "(;;  a\n   b ;)(use \"x\")" none = .ok blockDocumented := by decide +kernel
  have hdocs : docs [";  a\n   b "] = "a\n   b\n" := by decide
  have hleast : leastIndentation (sourceLines [";  a\n   b "]) = 2 := by decide
  refine ⟨hparse, hdocs, hleast, fun h => ?_⟩
  rcases (docs_lineByLine_iff [";  a\n   b "]).2.1 h with hsingle | ⟨hmargin, -⟩
  · exact hsingle "  a\n   b".toList (by decide) (by decide)
  · exact absurd hmargin (by decide)

end Documentation
end WitxFrontEnd
