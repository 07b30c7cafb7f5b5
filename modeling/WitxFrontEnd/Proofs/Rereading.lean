import WitxFrontEnd.Proofs.Normalization
import WitxFrontEnd.Proofs.RoundTrip

/-!
# Documentation read back

An outline has a line comment for each line of documentation, with a space between the mark and the
line. Read back, these comments document the same lines (`Documentation.docs_reread`). The space is
taken off again since documentation has a line that is not indented, unless all its lines are blank
(`leastIndentation_docLines`): it has lost its least indentation before.

Lines are read one by one (`LinesCut`): a line feed ends a comment, and what is cut from a line does
not go on behind its end.
-/

namespace WitxFrontEnd

/-! ## Lines that are read one by one -/

namespace SExpr

/-- The symbols of trees one behind the other. -/
theorem forestSymbols_append (es es' : List SExpr) :
    forestSymbols (es ++ es') = forestSymbols es ++ forestSymbols es' := by
  induction es with
  | nil => rfl
  | cons e es ih =>
    rw [List.cons_append, forestSymbols, ih, forestSymbols, List.append_assoc]

/-- Trees are no deeper than each of them is. -/
theorem forestDepth_le {es : List SExpr} {n : Nat} (h : ∀ e ∈ es, e.depth ≤ n) :
    forestDepth es ≤ n := by
  induction es with
  | nil => exact Nat.zero_le n
  | cons e es ih =>
    obtain ⟨hhead, htail⟩ := List.forall_mem_cons.1 h
    exact Nat.max_le.2 ⟨hhead, ih htail⟩

end SExpr

/-- The line is cut into the symbols of the trees, whatever is on the lines behind it. -/
def LineCut (es : List SExpr) (line : String) : Prop :=
  ∀ ⦃symbols : List Symbol⦄ ⦃rest : List Char⦄, (∀ x ∈ rest.head?, x = '\n') → Cut symbols rest →
    Cut (SExpr.forestSymbols es ++ symbols) (line.toList ++ rest)

/-- Each line is cut into the symbols of some of the trees. -/
inductive LinesCut : List SExpr → List String → Prop
  | nil : LinesCut [] []
  | cons {es es' : List SExpr} {line : String} {lines : List String} (hline : LineCut es line)
      (h : LinesCut es' lines) : LinesCut (es ++ es') (line :: lines)

namespace LinesCut

/-- One line by itself. -/
theorem line {es : List SExpr} {line : String} (h : LineCut es line) : LinesCut es [line] := by
  have hcut := LinesCut.cons h .nil
  rwa [List.append_nil] at hcut

/-- Lines behind other lines. -/
theorem append {es es' : List SExpr} {lines lines' : List String} (h : LinesCut es lines)
    (h' : LinesCut es' lines') : LinesCut (es ++ es') (lines ++ lines') := by
  induction h with
  | nil => exact h'
  | cons hline _ ih =>
    rw [List.append_assoc]
    exact .cons hline ih

/-- The lines of several things, one behind the other. -/
theorem flatMap {α : Type} {trees : α → List SExpr} {lines : α → List String} {as : List α}
    (h : ∀ a ∈ as, LinesCut (trees a) (lines a)) :
    LinesCut (as.flatMap trees) (as.flatMap lines) := by
  induction as with
  | nil => exact .nil
  | cons a as ih =>
    obtain ⟨hhead, htail⟩ := List.forall_mem_cons.1 h
    exact hhead.append (ih htail)

/-- Line feeds part the lines. -/
theorem cut {es : List SExpr} {lines : List String} (h : LinesCut es lines) :
    Cut (SExpr.forestSymbols es) (Outline.text lines).toList := by
  rw [Outline.text, String.toList_intercalate]
  induction h with
  | nil => exact .nil
  | @cons es es' line lines hline h ih =>
    rw [SExpr.forestSymbols_append, List.map_cons]
    cases lines with
    | nil =>
      cases h
      have hend : ∀ x ∈ ([] : List Char).head?, x = '\n' := nofun
      have hcut := hline hend .nil
      rw [List.append_nil] at hcut
      simpa [List.intercalate, SExpr.forestSymbols] using hcut
    | cons line' lines =>
      have hfeed : ∀ x ∈ ('\n' :: List.intercalate "\n".toList
          ((line' :: lines).map String.toList)).head?, x = '\n' := by
        intro x hx
        cases hx
        rfl
      have hcut := hline hfeed (.space rfl ih)
      simpa [List.intercalate] using hcut

/-- So lines are read as the trees that they are cut into. -/
theorem exists_readAll {es : List SExpr} {lines : List String} (h : LinesCut es lines)
    (hdepth : SExpr.forestDepth es ≤ Item.maxNesting) (filename : Option String) :
    ∃ items, Item.readAll (Outline.text lines) filename = .ok items ∧ Item.sexprs items = es :=
  Item.exists_readAll_of_cut hdepth h.cut filename

end LinesCut

/-! ## Lines of a text -/

namespace Text

/-- There is no break within a line. -/
theorem unbroken_of_mem_splitLines {cs line : List Char} (h : line ∈ splitLines cs) :
    Unbroken line := by
  fun_induction splitLines cs generalizing line with
  | case1 => cases h
  | case2 rest ih | case3 c rest _ _ ih =>
    rcases List.mem_cons.1 h with rfl | h
    · exact List.forall_mem_nil _
    · exact ih h
  | case4 c rest _ hc _ ih =>
    obtain rfl := List.mem_singleton.1 h
    simpa [Unbroken] using hc
  | case5 c rest _ hc first lines hlines ih =>
    rcases List.mem_cons.1 h with rfl | h
    · have hfirst : Unbroken first := ih (by rw [hlines]; exact List.mem_cons_self)
      exact List.forall_mem_cons.2 ⟨by simpa using hc, hfirst⟩
    · exact ih (by rw [hlines]; exact List.mem_cons_of_mem _ h)

/-- A break in front ends an empty line, if it is no carriage return with its line feed behind it.
-/
theorem splitLines_cons_of_break {c : Char} (hc : isLineBreak c = true) {cs : List Char}
    (hpair : ∀ rest, c = '\r' → cs = '\n' :: rest → False) :
    splitLines (c :: cs) = [] :: splitLines cs := by
  rw [splitLines.eq_3 c cs hpair, if_pos hc]

/-- A line feed ends a line, whatever follows it. -/
theorem splitLines_feed (cs rest : List Char) :
    splitLines (cs ++ '\n' :: rest) = splitLines (cs ++ ['\n']) ++ splitLines rest := by
  induction cs using splitLines.induct with
  | case1 => rfl
  | case2 cs ih => exact congrArg ([] :: ·) ih
  | case3 c cs hpair hc ih =>
    cases cs with
    | nil =>
      by_cases hreturn : c = '\r'
      · rw [hreturn]
        rfl
      · have hfeed (after : List Char) :
            splitLines (c :: '\n' :: after) = [] :: [] :: splitLines after :=
          splitLines_cons_of_break hc fun _ h => absurd h hreturn
        rw [List.cons_append, List.cons_append, List.nil_append, List.nil_append, hfeed, hfeed]
        rfl
    | cons d cs =>
      have hbreak (after : List Char) :
          splitLines (c :: (d :: cs ++ after)) = [] :: splitLines (d :: cs ++ after) := by
        refine splitLines_cons_of_break hc fun rest hc hrest => ?_
        obtain ⟨rfl, -⟩ := List.cons.inj hrest
        exact hpair cs hc rfl
      show splitLines (c :: (d :: cs ++ '\n' :: rest)) =
        splitLines (c :: (d :: cs ++ ['\n'])) ++ splitLines rest
      rw [hbreak, hbreak, ih]
      rfl
  | case4 c cs _ hc _ ih | case5 c cs _ hc _ _ _ ih =>
    rw [List.cons_append, List.cons_append, splitLines_cons_of_unbroken (by simpa using hc),
      splitLines_cons_of_unbroken (by simpa using hc), ih]
    cases hlines : splitLines (cs ++ ['\n']) with
    | nil =>
      have hne : cs ++ ['\n'] ≠ [] := by simp
      have hhead := head?_splitLines hne
      rw [hlines] at hhead
      cases hhead
    | cons => rfl

/-- Texts with a line feed behind each have the lines of each. -/
theorem splitLines_flatMap (texts : List (List Char)) :
    splitLines (texts.flatMap (· ++ ['\n'])) =
      texts.flatMap fun text => splitLines (text ++ ['\n']) := by
  induction texts with
  | nil => rfl
  | cons text texts ih =>
    rw [List.flatMap_cons, List.flatMap_cons, List.append_assoc, List.singleton_append,
      splitLines_feed, ih]

/-- The first line of a text that starts with no break starts with the same character. -/
theorem exists_splitLines_cons {c : Char} (hc : isLineBreak c = false) (rest : List Char) :
    ∃ line later, splitLines (c :: rest) = (c :: line) :: later := by
  rw [splitLines_cons_of_unbroken hc]
  cases splitLines rest with
  | nil => exact ⟨[], [], rfl⟩
  | cons line later => exact ⟨line, later, rfl⟩

end Text

namespace Documentation

open Text (isBlankLine indentation trimRight)

variable {comments : List String} {lines : List (List Char)} {gap : List Char}

/-! ## Documentation that is not indented -/

/-- The lines of documentation are those of the texts, without the margin. -/
theorem docLines_eq (comments : List String) :
    docLines comments = (docTexts comments).flatMap fun text =>
      Text.splitLines (text.drop (margin (docTexts comments)) ++ ['\n']) := by
  have hlines := Text.splitLines_flatMap
    ((docTexts comments).map (·.drop (margin (docTexts comments))))
  rw [List.flatMap_map, List.flatMap_map] at hlines
  rw [docLines, toList_docs]
  exact hlines

/-- Documentation has lost its least indentation. -/
theorem leastIndentation_docLines (comments : List String) :
    leastIndentation (docLines comments) = 0 := by
  rcases leastIndentation_cases (docTexts comments) with
    ⟨hall, -⟩ | ⟨text, htext, hblank, hleast⟩
  · rcases leastIndentation_cases (docLines comments) with ⟨-, hzero⟩ | ⟨line, hline, hne, -⟩
    · exact hzero
    · -- empty texts have no lines but empty ones
      rw [docLines_eq] at hline
      obtain ⟨text, htext, hline⟩ := List.mem_flatMap.1 hline
      have hnil := Text.isBlankLine_iff.1 (hall text htext)
      rw [trimRight_of_mem_docTexts htext] at hnil
      rw [hnil, List.drop_nil] at hline
      obtain rfl := List.mem_singleton.1 hline
      cases hne
  · obtain ⟨c, rest, hdrop, hc⟩ := Text.drop_indentation hblank
    have hbreak : Text.isLineBreak c = false := by
      rw [← Bool.not_eq_true]
      exact fun h => absurd (Text.isBlank_of_isLineBreak h) (by simp [hc])
    obtain ⟨line, hline⟩ : ∃ line, c :: line ∈ docLines comments := by
      obtain ⟨line, later, hlines⟩ := Text.exists_splitLines_cons hbreak (rest ++ ['\n'])
      refine ⟨line, ?_⟩
      rw [docLines_eq]
      refine List.mem_flatMap.2 ⟨text, htext, ?_⟩
      rw [margin_docTexts, ← hleast, hdrop, List.cons_append, hlines]
      exact List.mem_cons_self
    have hle := leastIndentation_le hline (Text.isBlankLine_cons_of_not_blank hc line)
    rw [Text.indentation_cons_of_not_blank hc] at hle
    omega

/-! ## Documentation behind a mark -/

/-- Comments whose text is a semicolon and something behind it are doc comments. -/
theorem docTexts_map {f : List Char → String} {g : List Char → List Char}
    (h : ∀ line ∈ lines, trimRight (f line).toList = ';' :: g line) :
    docTexts (lines.map f) = lines.map g := by
  induction lines with
  | nil => rfl
  | cons line lines ih =>
    obtain ⟨hline, hlines⟩ := List.forall_mem_cons.1 h
    have hcons : docTexts ((line :: lines).map f) = g line :: docTexts (lines.map f) := by
      rw [docTexts, List.map_cons, List.filterMap_cons, hline]
      rfl
    rw [hcons, ih hlines, List.map_cons]

/-- The blanks at the ends of lines do not matter to their least indentation. -/
theorem leastIndentation_map_trimRight (lines : List (List Char)) :
    leastIndentation (lines.map trimRight) = leastIndentation lines := by
  have hfilter : ((lines.map trimRight).filter fun line => !isBlankLine line) =
      (lines.filter fun line => !isBlankLine line).map trimRight := by
    rw [List.filter_map]
    exact congrArg (List.map trimRight)
      (List.filter_congr fun line _ => congrArg (!·) (Text.isBlankLine_trimRight line))
  have hindentation : ∀ line ∈ lines.filter fun line => !isBlankLine line,
      indentation (trimRight line) = indentation line := by
    intro line hline
    exact Text.indentation_trimRight (by simpa using (List.mem_filter.1 hline).2)
  rw [leastIndentation, leastIndentation, hfilter, List.map_map]
  exact congrArg (fun indentations => indentations.min?.getD 0) (List.map_congr_left hindentation)

/-- Lines that are not indented say what they are. -/
theorem docs_of_leastIndentation (hleast : leastIndentation lines = 0)
    (h : docTexts comments = lines.map trimRight) :
    docs comments = String.ofList (lines.flatMap fun line => trimRight line ++ ['\n']) := by
  have hmargin : margin (docTexts comments) = 0 := by
    rw [margin_docTexts, h, leastIndentation_map_trimRight, hleast]
  rw [← String.toList_inj, toList_docs, String.toList_ofList, hmargin, h, List.flatMap_map]
  simp only [List.drop_zero]

/-- A text behind a gap is deeper by the gap, also without the blanks at the ends. -/
theorem deeperBy_trimRight (hgap : ∀ c ∈ gap, Text.isBlank c = true) (line : List Char) :
    DeeperBy gap.length (trimRight line) (trimRight (gap ++ line)) := by
  cases hblank : isBlankLine line with
  | true =>
    have hall : isBlankLine (gap ++ line) = true := by
      rw [Text.isBlankLine_append, hblank, isBlankLine, List.all_eq_true.2 hgap]
      rfl
    rw [Text.isBlankLine_iff.1 hall, Text.isBlankLine_iff.1 hblank]
    exact .empty
  | false =>
    rw [Text.trimRight_append_of_not_blank hblank]
    exact .text hgap rfl (Text.isBlankLine_eq_false_iff.1 hblank)

/-- Lines of documentation behind a mark, with the same blanks between the mark and each of them,
are the same documentation. -/
theorem docs_of_docTexts (hgap : ∀ c ∈ gap, Text.isBlank c = true)
    (hleast : leastIndentation lines = 0)
    (h : docTexts comments = lines.map fun line => trimRight (gap ++ line)) :
    docs comments = String.ofList (lines.flatMap fun line => trimRight line ++ ['\n']) := by
  have hplain : docTexts (lines.map fun line => String.ofList (';' :: line)) =
      lines.map trimRight := by
    refine docTexts_map fun line _ => ?_
    rw [String.toList_ofList, Text.trimRight_semicolon]
  rw [← docs_of_leastIndentation hleast hplain]
  have hdeeper : List.Forall₂ (DeeperBy gap.length) (lines.map trimRight)
      (lines.map fun line => trimRight (gap ++ line)) := by
    rw [List.forall₂_map_left_iff, List.forall₂_map_right_iff, List.forall₂_same]
    exact fun line _ => deeperBy_trimRight hgap line
  rw [← hplain, ← h] at hdeeper
  exact docs_deeper hdeeper

end Documentation

/-! ## Comments of an outline -/

namespace Outline

open Text (isBlankLine trimRight)

/-- The comment that shows a line of documentation. -/
def docTree (doc : List Char) : SExpr :=
  .token .lineComment (String.ofList (';' :: ';' :: ';' :: trimRight (' ' :: doc)))

/-- The mark of a doc comment stays, whatever is behind it. -/
theorem trimRight_docMark (doc : List Char) :
    trimRight (";;; ".toList ++ doc) = ';' :: ';' :: ';' :: trimRight (' ' :: doc) := by
  show trimRight (';' :: ';' :: ';' :: ' ' :: doc) = _
  rw [Text.trimRight_semicolon, Text.trimRight_semicolon, Text.trimRight_semicolon]

/-- The indentation of an outline is white space to the scanner. -/
theorem isSpace_pad (depth : Nat) : ∀ x ∈ (pad depth).toList, Lexeme.isSpace x = true := by
  intro x hx
  rw [pad, String.toList_ofList] at hx
  rw [List.eq_of_mem_replicate hx]
  rfl

/-- A comment ends where its line does. -/
theorem lineCut_doc {doc : List Char} (h : Text.Unbroken doc) (depth : Nat) :
    LineCut [docTree doc]
      (String.ofList (trimRight ((pad depth).toList ++ ";;; ".toList ++ doc))) := by
  have hmark : isBlankLine (";;; ".toList ++ doc) = false :=
    Text.isBlankLine_cons_of_not_blank (by decide) _
  have hfeed : '\n' ∉ ';' :: trimRight (' ' :: doc) := by
    intro hmem
    rcases List.mem_cons.1 hmem with hmem | hmem
    · cases hmem
    rcases List.mem_cons.1 ((List.rdropWhile_prefix _ _).subset hmem) with hmem | hmem
    · cases hmem
    · exact absurd (h '\n' hmem) (by decide)
  intro symbols rest hrest hcut
  rw [String.toList_ofList, List.append_assoc, Text.trimRight_append_of_not_blank hmark,
    List.append_assoc]
  refine .spaces (isSpace_pad depth) ?_
  rw [trimRight_docMark]
  exact .symbol (.lineComment hfeed) (.lineComment hfeed hrest) hcut

/-- The lines above a construct are comments, one for each line of its documentation. -/
theorem linesCut_docLines (depth : Nat) (comments : List String) :
    LinesCut ((Documentation.docLines comments).map docTree) (docLines depth comments) := by
  rw [docLines, ← List.flatMap_pure_eq_map, ← List.flatMap_pure_eq_map]
  refine .flatMap fun doc hdoc => .line ?_
  exact lineCut_doc (Text.unbroken_of_mem_splitLines hdoc) depth

end Outline

/-- The items of such comments are comments and say the lines of documentation, each behind a
semicolon and a space. -/
theorem Item.comments_of_docTrees {items : List Item} {lines : List (List Char)}
    (h : sexprs items = lines.map Outline.docTree) :
    (∀ item ∈ items, ∃ token, item = .token token ∧ token.kind = .lineComment) ∧
      items.filterMap comment? =
        lines.map fun line => String.ofList (';' :: Text.trimRight (' ' :: line)) := by
  induction lines generalizing items with
  | nil =>
    cases items with
    | nil => exact ⟨nofun, rfl⟩
    | cons => cases h
  | cons line lines ih =>
    obtain ⟨item, rest, rfl, hitem, hrest⟩ := eq_of_sexprs_cons h
    obtain ⟨span, rfl⟩ := eq_of_sexpr_token hitem
    obtain ⟨hkinds, hcomments⟩ := ih hrest
    have hcomment : (Item.token ⟨.lineComment,
        String.ofList (';' :: ';' :: ';' :: Text.trimRight (' ' :: line)), span⟩).comment? =
          some (String.ofList (';' :: Text.trimRight (' ' :: line))) := by
      show some (String.ofList ((String.ofList _).toList.drop 2)) = _
      rw [String.toList_ofList]
      rfl
    refine ⟨List.forall_mem_cons.2 ⟨⟨_, rfl, rfl⟩, hkinds⟩, ?_⟩
    rw [List.filterMap_cons, hcomment, hcomments, List.map_cons]

namespace Documentation

open Text (splitLines trimRight)

/-- Lines without breaks and with a line feed behind each are the lines of their text. -/
theorem splitLines_flatMap_trimRight {lines : List (List Char)}
    (h : ∀ line ∈ lines, Text.Unbroken line) :
    Text.splitLines (lines.flatMap fun line => trimRight line ++ ['\n']) = lines.map trimRight := by
  induction lines with
  | nil => rfl
  | cons line lines ih =>
    obtain ⟨hline, hlines⟩ := List.forall_mem_cons.1 h
    have hunbroken : Text.Unbroken (trimRight line) :=
      fun c hc => hline c ((List.rdropWhile_prefix _ _).subset hc)
    rw [List.flatMap_cons, List.append_assoc, Text.splitLines_append hunbroken (.inl rfl),
      ih hlines, List.map_cons]

/-- The lines of documentation in an outline are line comments, and these document the same lines
without the blanks at their ends. So do the lines themselves as doc comments, without a space in
front: documentation that is documented again loses no indentation and no line. -/
theorem docs_reread (comments : List String) (depth : Nat) (filename : Option String) :
    ∃ items, Item.readAll (Outline.text (Outline.docLines depth comments)) filename = .ok items ∧
      (∀ item ∈ items, ∃ token, item = .token token ∧ token.kind = .lineComment) ∧
      docs (items.filterMap Item.comment?) = String.ofList
        ((splitLines (docs comments).toList).flatMap fun line => trimRight line ++ ['\n']) ∧
      docs ((splitLines (docs comments).toList).map fun line => String.ofList (';' :: line)) =
        String.ofList
          ((splitLines (docs comments).toList).flatMap fun line => trimRight line ++ ['\n']) ∧
      splitLines (docs (items.filterMap Item.comment?)).toList =
        (splitLines (docs comments).toList).map trimRight := by
  have hdepth : SExpr.forestDepth ((docLines comments).map Outline.docTree) ≤ Item.maxNesting :=
    SExpr.forestDepth_le (List.forall_mem_map.2 fun _ _ => Nat.zero_le _)
  obtain ⟨items, hread, hsexprs⟩ :=
    (Outline.linesCut_docLines depth comments).exists_readAll hdepth filename
  obtain ⟨hkinds, hcomments⟩ := Item.comments_of_docTrees hsexprs
  have hspace : ∀ c ∈ [' '], Text.isBlank c = true := List.forall_mem_singleton.2 rfl
  have hnone : ∀ c ∈ ([] : List Char), Text.isBlank c = true := nofun
  have hreread : docs (items.filterMap Item.comment?) =
      String.ofList ((docLines comments).flatMap fun line => trimRight line ++ ['\n']) := by
    rw [hcomments]
    refine docs_of_docTexts hspace (leastIndentation_docLines comments)
      (docTexts_map fun line _ => ?_)
    rw [String.toList_ofList, Text.trimRight_semicolon, Text.trimRight_trimRight]
    rfl
  have hagain : docs ((docLines comments).map fun line => String.ofList (';' :: line)) =
      String.ofList ((docLines comments).flatMap fun line => trimRight line ++ ['\n']) := by
    refine docs_of_docTexts hnone (leastIndentation_docLines comments)
      (docTexts_map fun line _ => ?_)
    rw [String.toList_ofList, Text.trimRight_semicolon]
    rfl
  refine ⟨items, hread, hkinds, hreread, hagain, ?_⟩
  rw [hreread, String.toList_ofList]
  exact splitLines_flatMap_trimRight fun line hline => Text.unbroken_of_mem_splitLines hline

end Documentation

end WitxFrontEnd
