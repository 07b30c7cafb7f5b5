import WitxFrontEnd.Proofs.Indentation

/-!
# What documentation depends on

Documentation is made from the texts of the doc comments alone, and of these it keeps every
character that is not blank: blanks are cut from both ends of a text, and the cut in front takes no
more than the text is indented by (`Documentation.margin_le`). Blanks of one common number in front
of all texts move the margin by that number (`Documentation.margin_deeper`), so that the same
characters are left. `Documentation.docs_normal` has what follows for comments.
-/

namespace WitxFrontEnd

namespace Text

/-! ## Characters that are not blank -/

/-- The characters of a text that are not blank. -/
def visible (cs : List Char) : List Char :=
  cs.filter fun c => !isBlank c

/-- Both parts of a text are visible. -/
theorem visible_append (cs ds : List Char) : visible (cs ++ ds) = visible cs ++ visible ds :=
  List.filter_append cs ds

/-- Blanks are not visible. -/
theorem visible_eq_nil {cs : List Char} (h : ∀ c ∈ cs, isBlank c = true) : visible cs = [] := by
  rw [visible, List.filter_eq_nil_iff]
  intro c hc
  simp [h c hc]

/-- Trimming takes blanks only. -/
theorem visible_trimRight (cs : List Char) : visible (trimRight cs) = visible cs := by
  have hcs : trimRight cs ++ cs.rtakeWhile isBlank = cs := List.rdropWhile_append_rtakeWhile
  have hblank : visible (cs.rtakeWhile isBlank) = [] :=
    visible_eq_nil fun _ => List.mem_rtakeWhile_imp
  conv_rhs => rw [← hcs, visible_append, hblank, List.append_nil]

/-- So does a cut that is no longer than the indentation. -/
theorem visible_drop {cs : List Char} {n : Nat} (h : n ≤ indentation cs) :
    visible (cs.drop n) = visible cs := by
  have hblank : visible (cs.take n) = [] := by
    refine visible_eq_nil fun c hc => ?_
    have hfront : cs.take n <+: cs.takeWhile isBlank :=
      List.prefix_of_prefix_length_le (List.take_prefix n cs) (List.takeWhile_prefix _)
        ((List.length_take_le n cs).trans h)
    exact List.mem_takeWhile_imp (hfront.subset hc)
  conv_rhs => rw [← List.take_append_drop n cs, visible_append, hblank, List.nil_append]

end Text

namespace Documentation

open Text (isBlank isBlankLine indentation trimRight visible)

variable {comments comments' : List String} {texts texts' : List (List Char)} {n : Nat}

/-! ## Doc comments -/

/-- The comment is a doc comment: without the blanks at its end it starts with a semicolon. -/
def isDoc (comment : String) : Bool :=
  (trimRight comment.toList).head? == some ';'

/-- Trimming does not matter for the semicolon. -/
theorem isDoc_iff {comment : String} :
    isDoc comment = true ↔ ∃ rest, comment.toList = ';' :: rest := by
  constructor
  · intro h
    obtain ⟨rest, hrest⟩ := List.head?_eq_some_iff.1 (beq_iff_eq.1 h)
    have hfront : trimRight comment.toList <+: comment.toList := List.rdropWhile_prefix _ _
    obtain ⟨behind, hbehind⟩ := hfront
    rw [hrest] at hbehind
    exact ⟨rest ++ behind, hbehind.symm⟩
  · rintro ⟨rest, hrest⟩
    rw [isDoc, hrest, Text.trimRight_semicolon]
    rfl

/-- A doc comment has a text. -/
theorem docTexts_cons_of_doc {comment : String} {rest : List Char}
    (h : comment.toList = ';' :: rest) (comments : List String) :
    docTexts (comment :: comments) = trimRight rest :: docTexts comments := by
  rw [docTexts, List.filterMap_cons, h, Text.trimRight_semicolon]
  rfl

/-- A comment that is no doc comment has none. -/
theorem docTexts_cons_of_plain {comment : String} (h : isDoc comment = false)
    (comments : List String) : docTexts (comment :: comments) = docTexts comments := by
  rw [docTexts, List.filterMap_cons]
  split
  · rfl
  · next text htext =>
    split at htext
    · next htrim =>
      rw [isDoc, htrim] at h
      cases h
    · cases htext

/-- The texts are those of the doc comments, without the semicolon and the blanks at the end. -/
theorem docTexts_eq (comments : List String) : docTexts comments =
    (comments.filter isDoc).map fun comment => trimRight (comment.toList.drop 1) := by
  induction comments with
  | nil => rfl
  | cons comment comments ih =>
    cases hdoc : isDoc comment with
    | true =>
      obtain ⟨rest, hrest⟩ := isDoc_iff.1 hdoc
      rw [docTexts_cons_of_doc hrest, ih, List.filter_cons_of_pos hdoc, List.map_cons, hrest]
      rfl
    | false =>
      rw [docTexts_cons_of_plain hdoc, ih, List.filter_cons_of_neg (by simp [hdoc])]

/-! ## The cut takes blanks only -/

/-- No text that is not empty is indented by less than the margin. -/
theorem margin_le {text : List Char} (h : text ∈ texts) (hne : text ≠ []) :
    margin texts ≤ indentation text := by
  refine List.min?_getD_le_of_mem (List.mem_map_of_mem (List.mem_filter.2 ⟨h, ?_⟩))
  simpa using hne

/-- Cutting the margin off cuts nothing visible off. -/
theorem visible_drop_margin {text : List Char} (h : text ∈ texts) :
    visible (text.drop (margin texts)) = visible text := by
  cases text with
  | nil => rw [List.drop_nil]
  | cons c rest => exact Text.visible_drop (margin_le h (List.cons_ne_nil c rest))

/-- All that is visible in doc comments is in the documentation, in order, and nothing else. -/
theorem visible_docs (comments : List String) : visible (docs comments).toList =
    (comments.filter isDoc).flatMap fun comment => visible (comment.toList.drop 1) := by
  have hfeed : visible ['\n'] = [] := rfl
  have htexts : visible (docs comments).toList = (docTexts comments).flatMap visible := by
    rw [toList_docs, visible, List.filter_flatMap]
    refine List.flatMap_congr fun text htext => ?_
    show visible (text.drop (margin (docTexts comments)) ++ ['\n']) = visible text
    rw [Text.visible_append, visible_drop_margin htext, hfeed, List.append_nil]
  rw [htexts, docTexts_eq, List.flatMap_map]
  simp only [Text.visible_trimRight]

/-! ## Deeper texts -/

/-- The second text is the first one behind `n` blanks, or nothing is in either. -/
inductive DeeperBy (n : Nat) : List Char → List Char → Prop
  | empty : DeeperBy n [] []
  | text {gap text : List Char} (hgap : ∀ c ∈ gap, isBlank c = true) (hlength : gap.length = n)
      (htext : text ≠ []) : DeeperBy n text (gap ++ text)

/-- Blanks in front of all texts go to the margin. -/
theorem margin_deeper (h : List.Forall₂ (DeeperBy n) texts texts') {text : List Char}
    (htext : text ∈ texts) (hne : text ≠ []) : margin texts' = n + margin texts := by
  have hindentations : (texts'.filter fun text => !text.isEmpty).map indentation =
      ((texts.filter fun text => !text.isEmpty).map indentation).map (n + ·) := by
    clear htext
    induction h with
    | nil => rfl
    | cons hdeeper _ ih =>
      cases hdeeper with
      | empty => exact ih
      | @text gap _ hgap hlength hline =>
        have happend := List.append_ne_nil_of_right_ne_nil gap hline
        rw [List.filter_cons_of_pos (by simpa using happend),
          List.filter_cons_of_pos (by simpa using hline), List.map_cons, ih,
          Text.indentation_append hgap, hlength]
        rfl
  have hmem : indentation text ∈ (texts.filter fun text => !text.isEmpty).map indentation :=
    List.mem_map_of_mem (List.mem_filter.2 ⟨htext, by simpa using hne⟩)
  rw [margin, margin, hindentations]
  cases hmin : ((texts.filter fun text => !text.isEmpty).map indentation).min? with
  | none =>
    rw [List.min?_eq_none_iff.1 hmin] at hmem
    cases hmem
  | some least =>
    obtain ⟨hleast, hle⟩ := List.min?_eq_some_iff.1 hmin
    have hdeeper : (((texts.filter fun text => !text.isEmpty).map indentation).map (n + ·)).min? =
        some (n + least) := by
      refine List.min?_eq_some_iff.2 ⟨List.mem_map_of_mem hleast, ?_⟩
      exact List.forall_mem_map.2 fun b hb => Nat.add_le_add_left (hle b hb) n
    rw [hdeeper]
    rfl

/-- The same characters are left of deeper texts. -/
theorem docs_deeper (h : List.Forall₂ (DeeperBy n) (docTexts comments) (docTexts comments')) :
    docs comments' = docs comments := by
  have hmem := (List.forall₂_and_left (docTexts comments) (docTexts comments')).2 ⟨fun _ => id, h⟩
  have hcut :
      (docTexts comments).map (fun text => text.drop (margin (docTexts comments)) ++ ['\n']) =
      (docTexts comments').map fun text => text.drop (margin (docTexts comments')) ++ ['\n'] := by
    rw [← List.forall₂_eq_eq_eq, List.forall₂_map_left_iff, List.forall₂_map_right_iff]
    refine hmem.imp ?_
    rintro text _ ⟨htext, hdeeper⟩
    cases hdeeper with
    | empty => rw [List.drop_nil, List.drop_nil]
    | text hgap hlength hne =>
      rw [margin_deeper h htext hne, ← hlength, List.drop_length_add_append]
  rw [← String.toList_inj, toList_docs, toList_docs, List.flatMap_def, List.flatMap_def, hcut]

/-! ## Deeper comments -/

/-- The second comment is the first one with `n` blanks right behind the semicolon of a doc comment
that says something, and the same if the first one is no such comment. -/
inductive IndentedBy (n : Nat) : String → String → Prop
  | said {gap rest : List Char} (hgap : ∀ c ∈ gap, isBlank c = true) (hlength : gap.length = n)
      (hrest : isBlankLine rest = false) :
      IndentedBy n (String.ofList (';' :: rest)) (String.ofList (';' :: (gap ++ rest)))
  | same {comment : String} (h : ∀ rest, comment.toList = ';' :: rest → isBlankLine rest = true) :
      IndentedBy n comment comment

/-- Deeper comments have deeper texts. -/
theorem docTexts_indented (h : List.Forall₂ (IndentedBy n) comments comments') :
    List.Forall₂ (DeeperBy n) (docTexts comments) (docTexts comments') := by
  induction h with
  | nil => exact .nil
  | cons hindented _ ih =>
    cases hindented with
    | said hgap hlength hrest =>
      rw [docTexts_cons_of_doc String.toList_ofList, docTexts_cons_of_doc String.toList_ofList,
        Text.trimRight_append_of_not_blank hrest]
      exact .cons (.text hgap hlength (Text.isBlankLine_eq_false_iff.1 hrest)) ih
    | @same _ hsame =>
      cases hdoc : isDoc _ with
      | true =>
        obtain ⟨rest, hrest⟩ := isDoc_iff.1 hdoc
        rw [docTexts_cons_of_doc hrest, docTexts_cons_of_doc hrest,
          Text.isBlankLine_iff.1 (hsame rest hrest)]
        exact .cons .empty ih
      | false =>
        rw [docTexts_cons_of_plain hdoc, docTexts_cons_of_plain hdoc]
        exact ih

/-! ## What is kept, what does not matter -/

/-- Each doc comment ends a line, so documentation is empty only without any. -/
theorem docs_eq_empty_iff (comments : List String) :
    docs comments = "" ↔ ∀ comment ∈ comments, isDoc comment = false := by
  have htexts : (docs comments).toList = [] ↔ docTexts comments = [] := by
    rw [toList_docs]
    cases docTexts comments <;> simp
  rw [← String.toList_inj, String.toList_empty, htexts, docTexts_eq, List.map_eq_nil_iff,
    List.filter_eq_nil_iff]
  simp only [Bool.not_eq_true]

/-- Documentation has the characters of the doc comments that are not blank, in order and without
the semicolons that mark them. Other comments do not matter to it, nor do blanks behind these
semicolons, as many in front of all that doc comments say; and it is empty only without doc
comments. -/
theorem docs_normal (comments : List String) :
    visible (docs comments).toList =
        (comments.filter isDoc).flatMap (fun comment => visible (comment.toList.drop 1)) ∧
      (∀ comments', comments'.filter isDoc = comments.filter isDoc →
        docs comments' = docs comments) ∧
      (∀ n comments', List.Forall₂ (IndentedBy n) comments comments' →
        docs comments' = docs comments) ∧
      (docs comments = "" ↔ ∀ comment ∈ comments, isDoc comment = false) := by
  refine ⟨visible_docs comments, fun comments' hfilter => ?_,
    fun n comments' h => docs_deeper (docTexts_indented h), docs_eq_empty_iff comments⟩
  have htexts : docTexts comments' = docTexts comments := by
    rw [docTexts_eq, docTexts_eq, hfilter]
  rw [docs, docs, htexts]

/-- Two doc comments, one of them deeper, with an empty one and a plain one between them; and the
same with the plain one moved to the front and blanks of two kinds behind the semicolons. -/
theorem docs_normal_reindented :
    docs [";  a ", "plain", ";", "; b"] = " a\n\nb\n" ∧
      docs ["plain", ";  a ", ";", "; b"] = " a\n\nb\n" ∧
      docs [";\t   a ", "plain", ";", "; \t b"] = " a\n\nb\n" := by
  have hdocs : docs [";  a ", "plain", ";", "; b"] = " a\n\nb\n" := by decide
  obtain ⟨-, hplain, hindented, -⟩ := docs_normal [";  a ", "plain", ";", "; b"]
  have htab : ∀ c ∈ ['\t', ' '], isBlank c = true :=
    List.forall_mem_cons.2 ⟨rfl, List.forall_mem_singleton.2 rfl⟩
  have hspace : ∀ c ∈ [' ', '\t'], isBlank c = true :=
    List.forall_mem_cons.2 ⟨rfl, List.forall_mem_singleton.2 rfl⟩
  have hfirst : IndentedBy 2 ";  a " ";\t   a " :=
    @IndentedBy.said 2 ['\t', ' '] "  a ".toList htab rfl rfl
  have hlast : IndentedBy 2 "; b" "; \t b" :=
    @IndentedBy.said 2 [' ', '\t'] " b".toList hspace rfl rfl
  have hplain' : IndentedBy 2 "plain" "plain" := .same (by rintro rest ⟨⟩)
  have hempty : IndentedBy 2 ";" ";" := .same (by rintro rest ⟨⟩; rfl)
  have hdeeper : List.Forall₂ (IndentedBy 2) [";  a ", "plain", ";", "; b"]
      [";\t   a ", "plain", ";", "; \t b"] :=
    .cons hfirst (.cons hplain' (.cons hempty (.cons hlast .nil)))
  exact ⟨hdocs, (hplain _ (by decide)).trans hdocs, (hindented 2 _ hdeeper).trans hdocs⟩

end Documentation

end WitxFrontEnd
