import WitxFrontEnd.CommandLine.Run
import WitxFrontEnd.Proofs.Rule
import WitxFrontEnd.Proofs.Sources
import WitxFrontEnd.Proofs.TokenListing

/-!
# The modes of the command line

The modes show a source in different ways, but judge it alike. Showing the tree and showing the
documentation parse it, showing the tokens only reads its forest, and what is wrong with the forest
is what parsing stops at (`Document.parse_of_read_error`). A file is read once for the report and
once more to be parsed, and both readings give the same source (`Document.parseFile_of_source`).

`Calls` says which arguments call for a mode on a source: any switches written in full, around the
source or before a separator. They lead to the options that they name (`Calls.options`), whatever
else is switched on; `run_modes_agree` then compares the runs.

The listing of tokens is the one mode that may end in another way than with a code: a forest that is
read may have more levels than the stack has room for. No forest of a document does, unless the room
is tiny (`Forest.height_le_of_readAll`).
-/

namespace WitxFrontEnd

/-- A mistake in the forest of a source is the first that parsing the source finds. -/
theorem Document.parse_of_read_error {source : String} {filename : Option String} {e : ParseError}
    (h : Forest.read source filename = .error e) : parse source filename = .error e := by
  rw [parse_eq, Item.readAll, h]
  rfl

namespace CommandLine

/-! ## Arguments that name switches -/

/-- What a switch in full is told to be. -/
def Argument.ofSpelling (entry : String × Switch) : Argument :=
  .switch entry.1 entry.2 none

/-- Each of the arguments is a switch, written in full. -/
def Spelled (given : List (String × Switch)) : Prop :=
  ∀ entry ∈ given, entry ∈ Switch.spellings

/-- A switch in full is told apart as that switch. -/
theorem classify_spelling {entry : String × Switch} (h : entry ∈ Switch.spellings) :
    (entry.1 == "--") = false ∧ classify entry.1 = .ok (.ofSpelling entry) := by
  simp only [Switch.spellings, List.mem_cons, List.not_mem_nil, or_false] at h
  rcases h with rfl | rfl | rfl | rfl | rfl | rfl | rfl | rfl | rfl <;> exact ⟨rfl, rfl⟩

/-- So are several before other arguments. -/
theorem classifyAll_spelled {given : List (String × Switch)} (h : Spelled given)
    {arguments : List String} {rest : List Argument} (hrest : classifyAll arguments = .ok rest) :
    classifyAll (given.map Prod.fst ++ arguments) = .ok (given.map .ofSpelling ++ rest) := by
  induction given with
  | nil => exact hrest
  | cons entry given ih =>
    obtain ⟨hentry, hgiven⟩ := List.forall_mem_cons.1 h
    obtain ⟨hseparator, hclassify⟩ := classify_spelling hentry
    rw [List.map_cons, List.cons_append, classifyAll, hseparator, hclassify, ih hgiven]
    rfl

/-- The switch of a mode. -/
def Mode.switch : Mode → Switch
  | .tree => .tree
  | .docs => .docs
  | .tokens => .tokens

theorem Switch.eq_switch {s : Switch} {mode : Mode} (h : s.mode? = some mode) :
    s = mode.switch := by
  cases s <;> cases h <;> rfl

/-- None of the switches asks for help or for another mode. -/
def Agree (mode : Mode) (switches : List Switch) : Prop :=
  ∀ s ∈ switches, s ≠ .help ∧ ∀ m, s.mode? = some m → m = mode

namespace Taken

variable {mode : Mode} {taken : Taken}

/-- A switch that agrees with those before it is taken. -/
theorem takeSwitch_of_agree {s : Switch} (h : Agree mode (taken.switches ++ [s])) :
    takeSwitch taken s = .ok { taken with switches := taken.switches ++ [s] } := by
  obtain ⟨hearlier, hs⟩ := List.forall_mem_append.1 h
  obtain ⟨hhelp, hmode⟩ := List.forall_mem_singleton.1 hs
  have hnone : taken.switches.find? (fun earlier => earlier.mode?.isSome && s.mode?.isSome &&
      earlier != s) = none := by
    refine List.find?_eq_none.2 fun earlier hmem hconflict => ?_
    simp only [Bool.and_eq_true, Option.isSome_iff_exists, bne_iff_ne] at hconflict
    obtain ⟨⟨⟨m, hm⟩, m', hm'⟩, hne⟩ := hconflict
    obtain rfl := (hearlier earlier hmem).2 m hm
    obtain rfl := hmode m' hm'
    exact hne ((Switch.eq_switch hm).trans (Switch.eq_switch hm').symm)
  rw [takeSwitch, if_neg hhelp, hnone]

/-- Switches that agree are all taken. -/
theorem takeAll_spelled {given : List (String × Switch)} {rest : List Argument}
    (h : Agree mode (taken.switches ++ given.map Prod.snd)) :
    takeAll taken (given.map .ofSpelling ++ rest) =
      takeAll { taken with switches := taken.switches ++ given.map Prod.snd } rest := by
  induction given generalizing taken with
  | nil => rw [List.map_nil, List.map_nil, List.append_nil, List.nil_append]
  | cons entry given ih =>
    obtain ⟨spelling, s⟩ := entry
    rw [List.map_cons, List.append_cons] at h
    have hs := takeSwitch_of_agree fun s' hs' => h s' (List.mem_append_left _ hs')
    have htaken := @ih { taken with switches := taken.switches ++ [s] } h
    rw [List.append_assoc] at htaken
    rw [List.map_cons, List.cons_append, Argument.ofSpelling, takeAll, expand]
    show (do takeAll (← [s].foldlM takeSwitch taken) _) = _
    rw [List.foldlM_cons, hs]
    exact htaken

end Taken

/-! ## Arguments that call for a mode -/

/-- The arguments name those switches, in full, and that word. Before a separator the switches come
first and the word may be any. Without one the word may stand anywhere, but must not begin with a
dash. -/
inductive Names : List String → List Switch → String → Prop
  | separated {given : List (String × Switch)} {word : String} (hgiven : Spelled given) :
      Names (given.map Prod.fst ++ ["--", word]) (given.map Prod.snd) word
  | among {before behind : List (String × Switch)} {word : String} (hbefore : Spelled before)
      (hbehind : Spelled behind) (hword : word.toList.head? ≠ some '-') :
      Names (before.map Prod.fst ++ word :: behind.map Prod.fst)
        (before.map Prod.snd ++ behind.map Prod.snd) word

/-- Arguments that name switches and a word come to these switches and this source. -/
theorem Names.taken {arguments : List String} {switches : List Switch} {word : String} {mode : Mode}
    (h : Names arguments switches word) (hagree : Agree mode switches) :
    ∃ classified, classifyAll arguments = .ok classified ∧
      Taken.takeAll ⟨none, [], []⟩ classified = .ok ⟨some word, switches, []⟩ := by
  cases h with
  | @separated given word hgiven =>
    have hword : classifyAll ["--", word] = .ok [.separator, .word word] := rfl
    refine ⟨_, classifyAll_spelled hgiven hword, ?_⟩
    rw [Taken.takeAll_spelled hagree]
    rfl
  | @among before behind word hbefore hbehind hword =>
    have hclassify : classify word = .ok (.word word) := by
      rw [classify, if_pos (bne_iff_ne.2 hword)]
    have hseparator : (word == "--") = false := by
      refine beq_eq_false_iff_ne.2 ?_
      rintro rfl
      exact hword rfl
    have hbehind : classifyAll (behind.map Prod.fst) = .ok (behind.map .ofSpelling) := by
      simpa using classifyAll_spelled hbehind (rfl : classifyAll [] = .ok [])
    have hrest : classifyAll (word :: behind.map Prod.fst) =
        .ok (.word word :: behind.map .ofSpelling) := by
      rw [classifyAll, hseparator, hclassify, hbehind]
      rfl
    refine ⟨_, classifyAll_spelled hbefore hrest, ?_⟩
    have hfirst : Taken.takeAll ⟨none, [], []⟩
        (before.map .ofSpelling ++ .word word :: behind.map .ofSpelling) =
          Taken.takeAll ⟨none, before.map Prod.snd, []⟩ (.word word :: behind.map .ofSpelling) :=
      Taken.takeAll_spelled (show Agree mode _ from fun s hs =>
        hagree s (List.mem_append_left _ hs))
    have hsource : Taken.takeAll ⟨none, before.map Prod.snd, []⟩
        (.word word :: behind.map .ofSpelling) =
          Taken.takeAll ⟨some word, before.map Prod.snd, []⟩ (behind.map .ofSpelling) := by
      cases behind <;> rfl
    have hlast : Taken.takeAll ⟨some word, before.map Prod.snd, []⟩
        (behind.map .ofSpelling ++ []) =
          Taken.takeAll ⟨some word, before.map Prod.snd ++ behind.map Prod.snd, []⟩ [] :=
      Taken.takeAll_spelled hagree
    rw [hfirst, hsource, ← List.append_nil (behind.map _), hlast]
    rfl

/-- The switches select the mode, without a log, for a source that is given as text or as a path.
The first mode needs no switch. -/
structure Selects (switches : List Switch) (mode : Mode) (isText : Bool) : Prop where
  agree : Agree mode switches
  chosen : mode = .tree ∨ ∃ s ∈ switches, s.mode? = some mode
  text_iff : .text ∈ switches ↔ isText = true
  quiet : .verbose ∉ switches

/-- The mode is the one that is selected, or the default. -/
theorem Selects.findSome? {switches : List Switch} {mode : Mode} {isText : Bool}
    (h : Selects switches mode isText) : (switches.findSome? Switch.mode?).getD .tree = mode := by
  cases hfound : switches.findSome? Switch.mode? with
  | some m =>
    obtain ⟨s, hs, hm⟩ := List.exists_of_findSome?_eq_some hfound
    exact (h.agree s hs).2 m hm
  | none =>
    rcases h.chosen with rfl | ⟨s, hs, hm⟩
    · rfl
    · rw [List.findSome?_eq_none_iff.1 hfound s hs] at hm
      cases hm

/-- The arguments call for the mode, without a log, on that word. -/
def Calls (mode : Mode) (isText : Bool) (word : String) (arguments : List String) : Prop :=
  ∃ switches, Names arguments switches word ∧ Selects switches mode isText

/-- Arguments lead to the options that they call for. -/
theorem Calls.options {mode : Mode} {isText : Bool} {word : String} {arguments : List String}
    (h : Calls mode isText word arguments) :
    ∃ positions, Options.ofArguments arguments = .ok ⟨word, isText, mode, positions, false⟩ := by
  obtain ⟨switches, hnames, hselects⟩ := h
  obtain ⟨classified, hclassified, htaken⟩ := hnames.taken hselects.agree
  refine ⟨switches.contains .positions, ?_⟩
  have htext : switches.contains .text = isText := by
    rw [Bool.eq_iff_iff, List.contains_iff_mem, hselects.text_iff]
  have hverbose : switches.contains .verbose = false := by simpa using hselects.quiet
  rw [Options.ofArguments, hclassified]
  show (do (← Taken.takeAll ⟨none, [], []⟩ classified).options) = _
  rw [htaken]
  show Taken.options ⟨some word, switches, []⟩ = _
  rw [Taken.options, htext, hverbose, hselects.findSome?]

/-! ## Showing a source -/

/-- The end of a run without a log that shows a text, or the mistake instead of it. -/
def conclude (source : String) : Except ParseError String → Output
  | .ok text => ⟨0, text, ""⟩
  | .error e => mistake "" e source

/-- The run ends with code zero if the source was accepted, and with code one if it was not. -/
def Judges (output : Output) (accepted : Prop) : Prop :=
  (output.code = 0 ↔ accepted) ∧ (output.code = 1 ↔ ¬accepted)

/-- A run judges a reading if it shows what comes of it. -/
theorem judges_conclude {α : Type} (source : String) (f : α → String)
    (reading : Except ParseError α) :
    Judges (conclude source (reading.map f)) (∃ a, reading = .ok a) := by
  cases reading with
  | ok a => exact ⟨⟨fun _ => ⟨a, rfl⟩, fun _ => rfl⟩, nofun, fun h => absurd ⟨a, rfl⟩ h⟩
  | error e => exact ⟨⟨nofun, nofun⟩, fun _ => nofun, fun _ => rfl⟩

section

variable (room : Nat) (word : String) (isText positions : Bool) (filename : Option String)
  (source : String)

/-- What comes of parsing is shown or reported. -/
theorem showParsed_eq_conclude (mode : Mode) (log : List LogRecord) :
    showParsed ⟨word, isText, mode, positions, false⟩ source
        ((Document.parse source filename).mapError .parse, log) =
      .exit (conclude source ((Document.parse source filename).map (showDocument mode))) := by
  cases Document.parse source filename <;> rfl

/-- A listing for which there is room is shown, and so is a mistake. -/
theorem showTokens_of_fits
    (h : ∀ forest, Forest.read source filename = .ok forest → forest.ruleTree.height ≤ room) :
    showTokens room ⟨word, isText, .tokens, positions, false⟩ filename source =
      .exit (conclude source ((Forest.read source filename).map fun forest =>
        unlines (forest.ruleTree.listing positions))) := by
  unfold showTokens
  cases hread : Forest.read source filename with
  | error e => rfl
  | ok forest =>
    dsimp only
    rw [RuleTree.print_of_le (h forest hread)]
    rfl

/-- The listing of a forest of too many levels ends in a failure. -/
theorem showTokens_of_lt {forest : Forest} (hread : Forest.read source filename = .ok forest)
    (h : room < forest.ruleTree.height) :
    showTokens room ⟨word, isText, .tokens, positions, false⟩ filename source =
      .failed .stackOverflow (unlines (forest.ruleTree.print positions room 0).lines) "" := by
  unfold showTokens
  rw [hread]
  dsimp only
  rw [(RuleTree.print_of_lt h).1]
  rfl

end

/-- What shows what came of parsing shows a mistake and nothing else, if it shows one. -/
theorem stdout_showParsed {options : Options} {source : String} {output : Output}
    {parsed : Except FileError Document × List LogRecord}
    (h : showParsed options source parsed = .exit output) (hcode : output.code = 1) :
    output.stdout = "" := by
  obtain ⟨_ | _, log⟩ := parsed
  · next e => cases e <;> cases h; rfl
  · cases h
    cases hcode

/-- So does what lists tokens. -/
theorem stdout_showTokens {room : Nat} {options : Options} {filename : Option String}
    {source : String} {output : Output}
    (h : showTokens room options filename source = .exit output) (hcode : output.code = 1) :
    output.stdout = "" := by
  unfold showTokens at h
  split at h
  · dsimp only at h
    split at h <;> cases h
    cases hcode
  · cases h
    rfl

/-- So does a whole run that ends with a code, whatever went wrong in it. -/
theorem run_stdout {room : Nat} {arguments : List String} {files : FileTree} {output : Output}
    (h : run room arguments files = .exit output) (hcode : output.code = 1) :
    output.stdout = "" := by
  unfold run at h
  split at h
  · next stop _ =>
    cases h
    cases stop <;> cases hcode
  · next options _ =>
    unfold runOptions at h
    split at h
    · unfold runText at h
      split at h
      · exact stdout_showTokens h hcode
      · exact stdout_showParsed h hcode
      · exact stdout_showParsed h hcode
    · unfold runFile at h
      dsimp only at h
      split at h
      · split at h
        · cases h
        · split at h
          · exact stdout_showTokens h hcode
          · exact stdout_showParsed h hcode
          · exact stdout_showParsed h hcode
      all_goals
        cases h
        rfl

end CommandLine

/-! ## Two readings of a file -/

/-- A file is parsed as the source that the first reading found in it. -/
theorem Document.parseFile_of_source {path source : String} {found : FileStatus}
    (h : found.source = .ok source) :
    Document.parseFile path found =
      ((Document.parse source (some (normalizePath path))).mapError .parse,
        LogRecord.ofReading (normalizePath path)
          ((Document.parse source (some (normalizePath path))).mapError FileError.parse)) := by
  unfold Document.parseFile
  rw [h]
  rfl

/-! ## How high the forest of a document is -/

namespace Forest

variable {filename : Option String}

/-- The highest of some trees and others is the highest of them all. -/
theorem heightAll_append (trees trees' : List RuleTree) :
    RuleTree.heightAll (trees ++ trees') =
      max (RuleTree.heightAll trees) (RuleTree.heightAll trees') := by
  induction trees with
  | nil => simp [RuleTree.heightAll]
  | cons tree trees ih => rw [List.cons_append, RuleTree.heightAll, ih, RuleTree.heightAll, Nat.max_assoc]

mutual

/-- A tree that becomes an item has no more levels than forms may be nested, and one for a leaf. -/
theorem height_of_ofTree : ∀ (tree : Tree) {depth : Nat} {i : Item}, depth ≤ Item.maxNesting →
    Item.ofTree filename depth tree = .ok i →
      depth + tree.ruleTree.height ≤ Item.maxNesting + 1
  | .leaf l, depth, i, hdepth, h => by
    rw [Tree.ruleTree, RuleTree.height]
    omega
  | .form opening children closing, depth, i, hdepth, h => by
    obtain ⟨hlt, items, hitems, rfl⟩ := Item.ofTree_form_ok h
    have hchildren := height_of_ofForest children hlt hitems
    simp only [Tree.ruleTree, RuleTree.height, RuleTree.heightAll, heightAll_append]
    omega

/-- As `height_of_ofTree`, over some trees. -/
theorem height_of_ofForest : ∀ (forest : List Tree) {depth : Nat} {items : List Item},
    depth ≤ Item.maxNesting → Item.ofForest filename depth forest = .ok items →
      depth + RuleTree.heightAll (ruleTrees forest) ≤ Item.maxNesting + 1
  | [], depth, items, hdepth, h => by
    rw [ruleTrees, RuleTree.heightAll]
    omega
  | tree :: rest, depth, items, hdepth, h => by
    obtain ⟨i, is, hi, his, rfl⟩ := Item.ofForest_cons_ok h
    have htree := height_of_ofTree tree hdepth hi
    have hrest := height_of_ofForest rest hdepth his
    rw [ruleTrees, RuleTree.heightAll]
    omega

end

/-- A source that is read as items has no more levels than forms may be nested, one for the leaves
and one for the source. -/
theorem height_le_of_readAll {source : String} {forest : Forest} {items : List Item}
    (hread : read source filename = .ok forest)
    (hitems : Item.readAll source filename = .ok items) :
    forest.ruleTree.height ≤ Item.maxNesting + 2 := by
  rw [Item.readAll, hread] at hitems
  have hheight := height_of_ofForest forest (Nat.zero_le _) hitems
  rw [ruleTree, RuleTree.height]
  omega

end Forest

namespace CommandLine

/-! ## Runs on one source -/

/-- The source that a run is given, and the name of its file: the word itself, or what the bytes of
the file hold whose path the word is. -/
inductive Given (files : FileTree) : Bool → String → Option String → String → Prop
  | text (source : String) : Given files true source none source
  | file {path source : String} {bytes : ByteArray} (hfile : files.status path = .file bytes)
      (hdecode : decodeSource bytes = some source) :
      Given files false path (some (normalizePath path)) source

/-- A run that is called for parses the source that is given and shows what comes of it. -/
theorem run_of_calls {room : Nat} {files : FileTree} {mode : Mode} {isText : Bool}
    {word source : String} {filename : Option String} {arguments : List String}
    (hgiven : Given files isText word filename source) (hmode : mode ≠ .tokens)
    (hcalls : Calls mode isText word arguments) :
    run room arguments files =
      .exit (conclude source ((Document.parse source filename).map (showDocument mode))) := by
  obtain ⟨positions, hoptions⟩ := hcalls.options
  rw [run, hoptions]
  cases hgiven with
  | text =>
    cases mode with
    | tokens => exact absurd rfl hmode
    | tree | docs => exact showParsed_eq_conclude ..
  | @file path source bytes hfile hdecode =>
    have hsource : (FileStatus.file bytes).source = .ok source := by
      rw [FileStatus.source, hdecode]
    show runFile room ⟨word, false, mode, positions, false⟩ (files.status word) = _
    rw [hfile, runFile, hsource]
    cases mode with
    | tokens => exact absurd rfl hmode
    | tree | docs =>
      dsimp only
      rw [Document.parseFile_of_source hsource]
      exact showParsed_eq_conclude ..

/-- A run that is called for lists the tokens of the source that is given. -/
theorem run_tokens_of_calls {room : Nat} {files : FileTree} {isText : Bool} {word source : String}
    {filename : Option String} {arguments : List String}
    (hgiven : Given files isText word filename source)
    (hcalls : Calls .tokens isText word arguments) :
    ∃ positions, run room arguments files =
      showTokens room ⟨word, isText, .tokens, positions, false⟩ filename source := by
  obtain ⟨positions, hoptions⟩ := hcalls.options
  refine ⟨positions, ?_⟩
  rw [run, hoptions]
  cases hgiven with
  | text => rfl
  | @file path source bytes hfile hdecode =>
    have hsource : (FileStatus.file bytes).source = .ok source := by
      rw [FileStatus.source, hdecode]
    show runFile room ⟨word, false, .tokens, positions, false⟩ (files.status word) = _
    rw [hfile, runFile, hsource]

/-- Three runs on one source, one in each mode, compared. -/
structure ModesAgree (tree docs tokens : Output) : Prop where
  code : tree.code = docs.code
  stderr : tree.stderr = docs.stderr
  of_tokens_fail : tokens.code = 1 →
    tree.code = 1 ∧ tree.stderr = tokens.stderr ∧ docs.code = 1 ∧ docs.stderr = tokens.stderr
  of_tree_succeed : tree.code = 0 → tokens.code = 0

/-- What is shown of a source in the three modes agrees, whatever is shown of its forest. For a
mistake in the forest is the one that parsing finds, and without one the forest is shown. -/
theorem modesAgree_conclude (source : String) (filename : Option String) (shown : Forest → String) :
    ModesAgree (conclude source ((Document.parse source filename).map (showDocument .tree)))
      (conclude source ((Document.parse source filename).map (showDocument .docs)))
      (conclude source ((Forest.read source filename).map shown)) := by
  cases hread : Forest.read source filename with
  | error e =>
    rw [Document.parse_of_read_error hread]
    exact ⟨rfl, rfl, fun _ => ⟨rfl, rfl, rfl, rfl⟩, nofun⟩
  | ok forest =>
    cases Document.parse source filename with
    | error e => exact ⟨rfl, rfl, nofun, fun _ => rfl⟩
    | ok d => exact ⟨rfl, rfl, nofun, fun _ => rfl⟩

/-- For every source, given as text or in a file, and whatever arguments call for it without a log:
showing the tree and showing the documentation end alike, and as showing the tokens does if that
fails. Each run succeeds if and only if the source is accepted, and no run whatsoever that ends with
code one prints anything on the standard output.

Showing the tokens ends in this way if and only if the source is not accepted or the stack has room
for its forest, as it has for that of a document. Otherwise the front of the listing is printed, and
then the run fails. -/
theorem run_modes_agree {room : Nat} {files : FileTree} {isText : Bool} {word source : String}
    {filename : Option String} (hgiven : Given files isText word filename source)
    {treeArguments docsArguments tokensArguments : List String}
    (htree : Calls .tree isText word treeArguments) (hdocs : Calls .docs isText word docsArguments)
    (htokens : Calls .tokens isText word tokensArguments) :
    (∃ tree docs, run room treeArguments files = .exit tree ∧
      run room docsArguments files = .exit docs ∧
      tree.code = docs.code ∧ tree.stderr = docs.stderr ∧
      Judges tree (∃ d, Document.parse source filename = .ok d) ∧
      Judges docs (∃ d, Document.parse source filename = .ok d) ∧
      ((∀ forest, Forest.read source filename = .ok forest → forest.ruleTree.height ≤ room) →
        ∃ tokens, run room tokensArguments files = .exit tokens ∧ ModesAgree tree docs tokens ∧
          Judges tokens (∃ forest, Forest.read source filename = .ok forest)) ∧
      (∀ forest, Forest.read source filename = .ok forest → room < forest.ruleTree.height →
        ∃ positions shown rest, run room tokensArguments files =
            .failed .stackOverflow (unlines shown) "" ∧
          rest ≠ [] ∧ shown ++ rest = forest.ruleTree.listing positions) ∧
      (202 ≤ room → tree.code = 0 →
        ∃ tokens, run room tokensArguments files = .exit tokens ∧ tokens.code = 0)) ∧
    ∀ room arguments files output, run room arguments files = .exit output → output.code = 1 →
      output.stdout = "" := by
  refine ⟨?_, fun _ _ _ _ => run_stdout⟩
  obtain ⟨positions, hrunTokens⟩ : ∃ positions, run room tokensArguments files = _ :=
    run_tokens_of_calls hgiven htokens
  have hjudges (mode : Mode) := judges_conclude source (showDocument mode)
    (Document.parse source filename)
  have hfits (h : ∀ forest, Forest.read source filename = .ok forest →
      forest.ruleTree.height ≤ room) :
      ∃ tokens, run room tokensArguments files = .exit tokens ∧
        ModesAgree (conclude source ((Document.parse source filename).map (showDocument .tree)))
          (conclude source ((Document.parse source filename).map (showDocument .docs))) tokens ∧
        Judges tokens (∃ forest, Forest.read source filename = .ok forest) := by
    rw [hrunTokens, showTokens_of_fits room word isText positions filename source h]
    exact ⟨_, rfl, modesAgree_conclude source filename _, judges_conclude ..⟩
  refine ⟨_, _, run_of_calls hgiven (by decide) htree, run_of_calls hgiven (by decide) hdocs,
    ?code, ?stderr, hjudges .tree, hjudges .docs, hfits, ?cut, ?document⟩
  case code => cases Document.parse source filename <;> rfl
  case stderr => cases Document.parse source filename <;> rfl
  case cut =>
    intro forest hread hlt
    obtain ⟨-, rest, hrest, hlines⟩ := @RuleTree.print_of_lt forest.ruleTree room positions hlt
    exact ⟨positions, _, rest, hrunTokens.trans (showTokens_of_lt _ _ _ _ _ _ hread hlt), hrest,
      hlines.symm⟩
  case document =>
    intro hroom hcode
    obtain ⟨d, hd⟩ := (hjudges .tree).1.1 hcode
    obtain ⟨items, hitems, -⟩ := Document.parse_ok hd
    -- reading the items refuses deeper forms than there is room for
    obtain ⟨tokens, hrun, hagree, -⟩ := hfits fun forest hread =>
      Nat.le_trans (Forest.height_le_of_readAll hread hitems) hroom
    exact ⟨tokens, hrun, hagree.of_tree_succeed hcode⟩

/-- A directory with two files. One source closes a form that it did not open, and the other is an
empty form. -/
def sampleFiles : FileTree :=
  ⟨[(["a"], "(;a;))".toUTF8), (["b"], "()".toUTF8)]⟩

/-- What is wrong with one file is said alike in all modes. Where there is room for two levels the
tokens of the other one, which has three, are not listed to the end. -/
theorem run_modes_agree_sample :
    Given sampleFiles false "./a" (some "a") "(;a;))" ∧
      Given sampleFiles false "./b" (some "b") "()" ∧
      (∀ word ∈ ["./a", "./b"], Calls .tree false word [word] ∧
        Calls .docs false word ["--docs", word] ∧
        Calls .tokens false word ["--pos", "--tokens", "--", word]) ∧
      (∃ tree docs tokens, run defaultRoom ["./a"] sampleFiles = .exit tree ∧
        run defaultRoom ["--docs", "./a"] sampleFiles = .exit docs ∧
        run defaultRoom ["--pos", "--tokens", "--", "./a"] sampleFiles = .exit tokens ∧
        ModesAgree tree docs tokens) ∧
      ∃ shown, run 2 ["--pos", "--tokens", "--", "./b"] sampleFiles =
        .failed .stackOverflow (unlines shown) "" := by
  have hgiven : Given sampleFiles false "./a" (some "a") "(;a;))" := by
    have hfile : sampleFiles.status "./a" = .file "(;a;))".toUTF8 := rfl
    have hdecode : decodeSource "(;a;))".toUTF8 = some "(;a;))" := by decide +kernel
    have hpath : normalizePath "./a" = "a" := by decide +kernel
    rw [← hpath]
    exact .file hfile hdecode
  have hgiven' : Given sampleFiles false "./b" (some "b") "()" := by
    have hfile : sampleFiles.status "./b" = .file "()".toUTF8 := rfl
    have hdecode : decodeSource "()".toUTF8 = some "()" := by decide +kernel
    have hpath : normalizePath "./b" = "b" := by decide +kernel
    rw [← hpath]
    exact .file hfile hdecode
  have hspelled (given : List (String × Switch)) (h : given ⊆ Switch.spellings) : Spelled given :=
    fun _ hentry => h hentry
  have hcalls : ∀ word ∈ ["./a", "./b"], Calls .tree false word [word] ∧
      Calls .docs false word ["--docs", word] ∧
      Calls .tokens false word ["--pos", "--tokens", "--", word] := by
    intro word hmem
    have hwords : ∀ word ∈ ["./a", "./b"], word.toList.head? ≠ some '-' := by decide
    have hword := hwords word hmem
    refine ⟨?_, ?_, ?_⟩
    · exact ⟨[], .among (hspelled [] nofun) (hspelled [] nofun) hword, nofun, .inl rfl, by decide,
        nofun⟩
    · exact ⟨[.docs], .among (hspelled [("--docs", .docs)] (by decide)) (hspelled [] nofun) hword,
        by simp [Agree, Switch.mode?], .inr ⟨.docs, by decide, rfl⟩, by decide, by decide⟩
    · exact ⟨[.positions, .tokens],
        .separated (hspelled [("--pos", .positions), ("--tokens", .tokens)] (by decide)),
        by simp [Agree, Switch.mode?], .inr ⟨.tokens, by decide, rfl⟩, by decide, by decide⟩
  obtain ⟨htree, hdocs, htokens⟩ := hcalls "./a" (by decide)
  obtain ⟨htree', hdocs', htokens'⟩ := hcalls "./b" (by decide)
  have hread : Forest.read "(;a;))" (some "a") = .error ⟨.strayClose, some ⟨5, 1, 6, "a"⟩⟩ := by
    decide +kernel
  have hread' : Forest.read "()" (some "b") = .ok [.form ⟨0, 1, 1⟩ [] ⟨1, 1, 2⟩] := by decide +kernel
  obtain ⟨⟨tree, docs, hrunTree, hrunDocs, -, -, -, -, hfits, -⟩, -⟩ :=
    run_modes_agree hgiven htree hdocs htokens
  obtain ⟨⟨-, -, -, -, -, -, -, -, -, hcut, -⟩, -⟩ :=
    @run_modes_agree 2 _ _ _ _ _ hgiven' _ _ _ htree' hdocs' htokens'
  obtain ⟨tokens, hrunTokens, hagree, -⟩ := hfits fun forest h => by
    rw [hread] at h
    cases h
  obtain ⟨positions, shown, rest, hfailed, -⟩ := hcut _ hread' (by decide)
  exact ⟨hgiven, hgiven', hcalls, ⟨tree, docs, tokens, hrunTree, hrunDocs, hrunTokens, hagree⟩,
    shown, hfailed⟩

end CommandLine

end WitxFrontEnd
