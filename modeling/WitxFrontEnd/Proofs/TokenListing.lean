import WitxFrontEnd.CommandLine.Run
import WitxFrontEnd.Proofs.Escaping
import WitxFrontEnd.Proofs.Indentation

/-!
# The listing of a forest tells the forest

A listing shows the tree of rules and tokens that the grammar of lexemes gives a source
(`Forest.ruleTree`): one line for each node, before the lines of what the node holds
(`RuleTree.print_cases`). A line tells its depth, since no name starts with a blank, and then its
name, since no name has a colon in it. Depths in preorder tell what is inside what
(`alike_of_lines`), so that two forests are listed alike only if they differ in nothing but what is
cut from long texts.

All of this is so where the stack has room for the forest. The printer calls itself for each level,
and where the levels go on behind the room it stops: what it has printed then is the front of the
listing and not all of it.
-/

namespace WitxFrontEnd

/-! ## Texts that are shown alike -/

/-- The texts are one text of fewer than sixty characters, or both have as many or more and begin
with the same fifty-seven. -/
def ShownAlike (text text' : String) : Prop :=
  (text = text' ∧ text.length < 60) ∨
    (60 ≤ text.length ∧ 60 ≤ text'.length ∧ text.toList.take 57 = text'.toList.take 57)

/-- What stands between the quotes of a text in a listing. -/
def shownChars (cs : List Char) : List Char :=
  if cs.length < 60 then cs else cs.take 57 ++ ['.', '.', '.']

/-- A short text is shown as it is. -/
theorem shownChars_of_lt {cs : List Char} (h : cs.length < 60) : shownChars cs = cs :=
  if_pos h

/-- A long text is shown as its front and three dots. -/
theorem shownChars_of_le {cs : List Char} (h : 60 ≤ cs.length) :
    shownChars cs = cs.take 57 ++ ['.', '.', '.'] :=
  if_neg (Nat.not_lt.2 h)

/-- A text that is cut is shown with sixty characters, so it is not taken for a text that is not. -/
theorem length_shownChars_lt_iff {cs : List Char} :
    (shownChars cs).length < 60 ↔ cs.length < 60 := by
  rcases Nat.lt_or_ge cs.length 60 with h | h
  · rw [shownChars_of_lt h]
  · rw [shownChars_of_le h, List.length_append, List.length_take]
    simp only [List.length_cons, List.length_nil]
    omega

/-- Texts look alike in a listing if and only if they are one short text or long ones with the same
front. -/
theorem RuleTree.shownText_eq_iff {text text' : String} :
    RuleTree.shownText text = RuleTree.shownText text' ↔ ShownAlike text text' := by
  have hquoted (text : String) : RuleTree.shownText text =
      String.ofList (Text.quoted (shownChars text.toList)) := rfl
  rw [hquoted, hquoted, String.ofList_inj, Text.quoted_injective.eq_iff, ShownAlike,
    ← String.length_toList, ← String.length_toList, ← String.toList_inj]
  constructor
  · intro h
    have hboth : text.toList.length < 60 ↔ text'.toList.length < 60 := by
      rw [← length_shownChars_lt_iff, h, length_shownChars_lt_iff]
    rcases Nat.lt_or_ge text.toList.length 60 with hshort | hlong
    · rw [shownChars_of_lt hshort, shownChars_of_lt (hboth.1 hshort)] at h
      exact .inl ⟨h, hshort⟩
    · have hlong' : 60 ≤ text'.toList.length := by omega
      rw [shownChars_of_le hlong, shownChars_of_le hlong'] at h
      exact .inr ⟨hlong, hlong', List.append_cancel_right h⟩
  · rintro (⟨h, -⟩ | ⟨hlong, hlong', htake⟩)
    · rw [h]
    · rw [shownChars_of_le hlong, shownChars_of_le hlong', htake]

/-! ## Nodes -/

namespace RuleTree

/-- What a rule holds. A token holds nothing. -/
def children : RuleTree → List RuleTree
  | .rule _ _ children => children
  | .token .. => []

/-- The line of a node at a depth. -/
def line (positions : Bool) (node : Nat × RuleTree) : String :=
  Outline.pad node.1 ++ label positions node.2

mutual

/-- The nodes of a tree with their depths, each before the nodes that it holds. -/
def preorder (depth : Nat) : RuleTree → List (Nat × RuleTree)
  | .rule name begins children =>
    (depth, .rule name begins children) :: preorderAll (depth + 1) children
  | .token type text pos => [(depth, .token type text pos)]

/-- The nodes of some trees, tree by tree. -/
def preorderAll (depth : Nat) : List RuleTree → List (Nat × RuleTree)
  | [] => []
  | tree :: rest => preorder depth tree ++ preorderAll depth rest

end

mutual

/-- The number of levels of a tree. -/
def height : RuleTree → Nat
  | .rule _ _ children => heightAll children + 1
  | .token .. => 1

/-- The number of levels of the highest of some trees. -/
def heightAll : List RuleTree → Nat
  | [] => 0
  | tree :: rest => max tree.height (heightAll rest)

end

/-- The trees have the same shape, the same rules and types of tokens, and the texts of their tokens
are shown alike. Where something stands has no part in it. -/
inductive Alike : RuleTree → RuleTree → Prop
  | rule {name : RuleName} {begins begins' : Option Position} {children children' : List RuleTree}
      (h : List.Forall₂ Alike children children') :
      Alike (.rule name begins children) (.rule name begins' children')
  | token {type : Shape} {text text' : String} {pos pos' : Position} (h : ShownAlike text text') :
      Alike (.token type text pos) (.token type text' pos')

variable {tree tree' : RuleTree} {trees trees' : List RuleTree} {depth : Nat}

/-- A tree's first node is the tree itself, and then come those of what it holds. -/
theorem preorder_eq (depth : Nat) (tree : RuleTree) :
    tree.preorder depth = (depth, tree) :: preorderAll (depth + 1) tree.children := by
  cases tree <;> rfl

/-! ## What is printed -/

/-- What a printer prints of the lines is all of them if there is room, and the front of them if
there is not. -/
def Prints (fits : Prop) (lines : List String) (printout : Printout) : Prop :=
  (fits ∧ printout = ⟨lines, true⟩) ∨
    (¬fits ∧ printout.complete = false ∧ ∃ rest, rest ≠ [] ∧ lines = printout.lines ++ rest)

/-- What is printed behind other lines. -/
theorem Prints.append {fits fits' : Prop} {lines lines' : List String} {first next : Printout}
    (h : Prints fits lines first) (h' : Prints fits' lines' next) :
    Prints (fits ∧ fits') (lines ++ lines') (first ++ next) := by
  rcases h with ⟨hfits, rfl⟩ | ⟨hfits, hcomplete, rest, hrest, rfl⟩
  · rcases h' with ⟨hfits', rfl⟩ | ⟨hfits', hcomplete, rest, hrest, rfl⟩
    · exact .inl ⟨⟨hfits, hfits'⟩, rfl⟩
    · exact .inr ⟨fun h => hfits' h.2, hcomplete, rest, hrest, (List.append_assoc ..).symm⟩
  · have hcut : first ++ next = first := by
      show Printout.append first next = first
      rw [Printout.append, hcomplete]
      rfl
    rw [hcut]
    refine .inr ⟨fun h => hfits h.1, hcomplete, rest ++ lines', ?_, List.append_assoc ..⟩
    exact fun h => hrest (List.append_eq_nil_iff.1 h).1

mutual

/-- A tree is printed node by node if the room is for as many levels as it has, and otherwise up to
some node that is not its last. -/
theorem prints_print (positions : Bool) : ∀ (tree : RuleTree) (room depth : Nat),
    Prints (tree.height ≤ room) ((tree.preorder depth).map (line positions))
      (print positions room depth tree)
  | .rule name begins children, 0, depth => by
    refine .inr ⟨by simp [height], rfl, _, ?_, rfl⟩
    exact List.cons_ne_nil _ _
  | .rule name begins children, room + 1, depth => by
    -- the node's own line is always printed, and one call less is left for what it holds
    have hline : Prints True [line positions (depth, .rule name begins children)]
      (.line (line positions (depth, .rule name begins children))) := .inl ⟨trivial, rfl⟩
    have h := hline.append (prints_printAll positions children room (depth + 1))
    rw [true_and, ← Nat.add_le_add_iff_right (n := 1)] at h
    rw [height, preorder, List.map_cons, print]
    exact h
  | .token type text pos, 0, depth => .inr ⟨by simp [height], rfl, _, List.cons_ne_nil _ _, rfl⟩
  | .token type text pos, room + 1, depth => .inl ⟨by simp [height], rfl⟩

/-- As `prints_print`, for some trees. -/
theorem prints_printAll (positions : Bool) : ∀ (trees : List RuleTree) (room depth : Nat),
    Prints (heightAll trees ≤ room) ((preorderAll depth trees).map (line positions))
      (printAll positions room depth trees)
  | [], room, depth => .inl ⟨Nat.zero_le room, rfl⟩
  | tree :: rest, room, depth => by
    have h := (prints_print positions tree room depth).append
      (prints_printAll positions rest room depth)
    rw [heightAll, preorderAll, List.map_append, printAll, Nat.max_le]
    exact h

end

/-! ## What a line tells -/

/-- The name that a label starts with. -/
def name : RuleTree → String
  | .rule r _ _ => r.name
  | .token type _ _ => type.name

/-- What is in a label behind the colon. -/
def value : RuleTree → List Char
  | .rule .. => []
  | .token _ text _ => ' ' :: (shownText text).toList

/-- Without positions a label is a name, a colon and a value. -/
theorem toList_label (tree : RuleTree) :
    (tree.label false).toList = tree.name.toList ++ ':' :: tree.value := by
  cases tree with
  | rule r begins children => cases begins <;> simp [label, name, value, place]
  | token type text pos => simp [label, name, value, place]

/-- Names are words. -/
theorem name_plain (tree : RuleTree) :
    ∀ c ∈ tree.name.toList, c ≠ ':' ∧ Text.isBlank c = false := by
  have hnames : ∀ name ∈ ["start", "form", "LPAR", "RPAR", "STRING", "ATOM", "LINE_COMMENT",
      "BLOCK_COMMENT"], (name.toList.all fun c => c != ':' && !Text.isBlank c) = true := by
    decide
  have hmem : tree.name ∈ ["start", "form", "LPAR", "RPAR", "STRING", "ATOM", "LINE_COMMENT",
      "BLOCK_COMMENT"] := by
    rcases tree with ⟨⟨⟩, _, _⟩ | ⟨_ | _ | ⟨⟨⟩⟩, _, _⟩ <;>
      simp [name, RuleName.name, Shape.name]
  simpa using hnames tree.name hmem

/-- No two rules and no two kinds of tokens have one name. -/
theorem name_injective : Function.Injective RuleName.name ∧ Function.Injective Shape.name := by
  constructor
  · rintro ⟨⟩ ⟨⟩ h <;> first | rfl | exact absurd h (by decide)
  · rintro (_ | _ | ⟨⟨⟩⟩) (_ | _ | ⟨⟨⟩⟩) h <;> first | rfl | exact absurd h (by decide)

/-- A label has no break in it, since the text of a token is quoted. -/
theorem unbroken_label (tree : RuleTree) : Text.Unbroken (tree.label false).toList := by
  have hname : Text.Unbroken tree.name.toList := by
    intro c hc
    rw [← Bool.not_eq_true]
    exact fun h => absurd (Text.isBlank_of_isLineBreak h) (by simp [(name_plain tree c hc).2])
  have hvalue : Text.Unbroken tree.value := by
    cases tree with
    | rule r begins children => exact List.forall_mem_nil _
    | token type text pos =>
      refine List.forall_mem_cons.2 ⟨rfl, ?_⟩
      rw [shownText, String.toList_ofList]
      exact Text.unbroken_quoted _
  rw [toList_label]
  exact List.forall_mem_append.2 ⟨hname, List.forall_mem_cons.2 ⟨rfl, hvalue⟩⟩

/-- A label does not begin with a blank. -/
theorem indentation_label (tree : RuleTree) : Text.indentation (tree.label false).toList = 0 := by
  rw [toList_label]
  cases hname : tree.name.toList with
  | nil => exact Text.indentation_cons_of_not_blank rfl _
  | cons c rest =>
    have hc : c ∈ tree.name.toList := hname ▸ List.mem_cons_self
    exact Text.indentation_cons_of_not_blank (name_plain tree c hc).2 _

/-- A line is indented by two spaces for each level. -/
theorem indentation_line (node : Nat × RuleTree) :
    Text.indentation (line false node).toList = 2 * node.1 := by
  have hpad : ∀ c ∈ List.replicate (2 * node.1) ' ', Text.isBlank c = true := by
    intro c hc
    rw [List.eq_of_mem_replicate hc]
    rfl
  rw [line, Outline.pad, String.toList_append, String.toList_ofList, Text.indentation_append hpad,
    List.length_replicate, indentation_label, Nat.add_zero]

/-- A line has no break in it. -/
theorem unbroken_line (node : Nat × RuleTree) : Text.Unbroken (line false node).toList := by
  rw [line, Outline.pad, String.toList_append, String.toList_ofList]
  refine List.forall_mem_append.2 ⟨fun c hc => ?_, unbroken_label node.2⟩
  rw [List.eq_of_mem_replicate hc]
  rfl

/-- A line tells its depth. -/
theorem label_of_line {depth' : Nat} (h : line false (depth, tree) = line false (depth', tree')) :
    depth = depth' ∧ tree.label false = tree'.label false := by
  have hindentation := congrArg (fun text : String => Text.indentation text.toList) h
  simp only [indentation_line] at hindentation
  obtain rfl : depth = depth' := by omega
  rw [line, line, ← String.toList_inj, String.toList_append, String.toList_append] at h
  exact ⟨rfl, String.toList_inj.1 (List.append_cancel_left h)⟩

/-- A label has the name before its first colon. -/
theorem takeWhile_label (tree : RuleTree) :
    (tree.label false).toList.takeWhile (· != ':') = tree.name.toList := by
  rw [toList_label, List.takeWhile_append_of_pos fun c hc => bne_iff_ne.2 (name_plain tree c hc).1,
    List.takeWhile_cons_of_neg (by simp), List.append_nil]

/-- A label tells the name, which ends before the first colon. -/
theorem name_of_label (h : tree.label false = tree'.label false) :
    tree.name = tree'.name ∧ tree.value = tree'.value := by
  have hname : tree.name.toList = tree'.name.toList := by
    rw [← takeWhile_label, ← takeWhile_label, h]
  rw [← String.toList_inj, toList_label, toList_label, hname] at h
  exact ⟨String.toList_inj.1 hname, (List.cons.inj (List.append_cancel_left h)).2⟩

/-- A label tells what the node is, apart from what is inside. -/
theorem alike_of_label (hlabel : tree.label false = tree'.label false)
    (hchildren : List.Forall₂ Alike tree.children tree'.children) : tree.Alike tree' := by
  obtain ⟨hname, hvalue⟩ := name_of_label hlabel
  cases tree with
  | rule r begins children =>
    cases tree' with
    | rule r' begins' children' =>
      obtain rfl := name_injective.1 hname
      exact .rule hchildren
    | token type' text' pos' => cases hvalue
  | token type text pos =>
    cases tree' with
    | rule r' begins' children' => cases hvalue
    | token type' text' pos' =>
      obtain rfl := name_injective.2 hname
      exact .token (shownText_eq_iff.1 (String.toList_inj.1 (List.cons.inj hvalue).2))

/-- Trees that are alike have the same label. -/
theorem Alike.label_eq (h : tree.Alike tree') : tree.label false = tree'.label false := by
  cases h with
  | @rule _ begins begins' => cases begins <;> cases begins' <;> rfl
  | token h => rw [label, label, shownText_eq_iff.2 h]; rfl

/-- Trees that are alike have children that are alike. -/
theorem Alike.children (h : tree.Alike tree') :
    List.Forall₂ Alike tree.children tree'.children := by
  cases h with
  | rule h => exact h
  | token => exact .nil

/-! ## What all lines tell -/

/-- The lines are those of no node at the depth or deeper, as far as the first of them tells. -/
def Ends (depth : Nat) (lines : List String) : Prop :=
  ∀ line ∈ lines.head?, Text.indentation line.toList < 2 * depth

/-- The lines of trees begin with the first one's, behind which come those of its children. -/
theorem lines_cons (depth : Nat) (tree : RuleTree) (trees : List RuleTree) (rest : List String) :
    (preorderAll depth (tree :: trees)).map (line false) ++ rest =
      line false (depth, tree) :: ((preorderAll (depth + 1) tree.children).map (line false) ++
        ((preorderAll depth trees).map (line false) ++ rest)) := by
  rw [preorderAll, preorder_eq, List.map_append, List.map_cons, List.append_assoc, List.cons_append]

/-- What ends at a depth does not begin with a line of that depth. -/
theorem Ends.not_line {lines : List String} (h : Ends depth (line false (depth, tree) :: lines)) :
    False := by
  have hlt := h _ rfl
  rw [indentation_line] at hlt
  exact Nat.lt_irrefl _ hlt

/-- What ends at a depth does so behind lines that are deeper. -/
theorem Ends.lines {rest : List String} (h : Ends depth rest) (trees : List RuleTree) :
    Ends (depth + 1) ((preorderAll depth trees).map (line false) ++ rest) := by
  intro first hfirst
  cases trees with
  | nil =>
    have hlt := h first hfirst
    omega
  | cons tree trees =>
    rw [lines_cons] at hfirst
    obtain rfl := Option.mem_some_iff.1 hfirst
    rw [indentation_line]
    omega

theorem sizeOf_children_lt (tree : RuleTree) (trees : List RuleTree) :
    sizeOf tree.children < sizeOf (tree :: trees) := by
  cases tree <;> simp [children] <;> omega

/-- The lines of trees tell the trees, up to the first line that is less deep. -/
theorem alike_of_lines : ∀ (trees trees' : List RuleTree) {depth : Nat} {rest rest' : List String},
    Ends depth rest → Ends depth rest' →
      (preorderAll depth trees).map (line false) ++ rest = (preorderAll depth trees').map (line false) ++ rest' →
        List.Forall₂ Alike trees trees' ∧ rest = rest'
  | [], [], _, _, _, _, _, h => ⟨.nil, h⟩
  | [], tree' :: trees', _, _, _, hends, _, h => by
    rw [lines_cons] at h
    subst h
    exact hends.not_line.elim
  | tree :: trees, [], _, _, _, _, hends', h => by
    rw [lines_cons] at h
    subst h
    exact hends'.not_line.elim
  | tree :: trees, tree' :: trees', _, _, _, hends, hends', h => by
    rw [lines_cons, lines_cons] at h
    obtain ⟨hhead, htail⟩ := List.cons.inj h
    obtain ⟨hchildren, htail⟩ := alike_of_lines tree.children tree'.children
      (hends.lines trees) (hends'.lines trees') htail
    obtain ⟨htrees, hrest⟩ := alike_of_lines trees trees' hends hends' htail
    exact ⟨.cons (alike_of_label (label_of_line hhead).2 hchildren) htrees, hrest⟩
termination_by trees => sizeOf trees
decreasing_by
  · exact sizeOf_children_lt tree trees
  · simp

/-- Trees that are alike have the same lines. -/
theorem lines_of_alike : ∀ {trees trees' : List RuleTree} (depth : Nat),
    List.Forall₂ Alike trees trees' →
      (preorderAll depth trees).map (line false) = (preorderAll depth trees').map (line false)
  | [], _, _, .nil => rfl
  | tree :: trees, tree' :: trees', depth, .cons htree htrees => by
    have hchildren := lines_of_alike (depth + 1) htree.children
    have hrest := lines_of_alike depth htrees
    have hline : line false (depth, tree) = line false (depth, tree') := by
      rw [line, line, htree.label_eq]
    simp only [preorderAll, preorder_eq, List.map_append, List.map_cons, hchildren, hrest, hline]
termination_by trees => sizeOf trees
decreasing_by
  · exact sizeOf_children_lt tree trees
  · simp

/-- Two trees have the same lines only if they are alike. -/
theorem lines_eq_iff : (tree.preorder 0).map (line false) = (tree'.preorder 0).map (line false) ↔
    tree.Alike tree' := by
  have hends : Ends 0 [] := nofun
  have hsingle (tree : RuleTree) : (preorderAll 0 [tree]).map (line false) ++ [] =
      (tree.preorder 0).map (line false) := by
    rw [List.append_nil, preorderAll, preorderAll, List.append_nil]
  constructor
  · intro h
    rw [← hsingle tree, ← hsingle tree'] at h
    exact (List.forall₂_cons.1 (alike_of_lines [tree] [tree'] hends hends h).1).1
  · intro h
    rw [← hsingle tree, ← hsingle tree', lines_of_alike 0 (.cons h .nil)]

end RuleTree

/-! ## The listing of a forest -/

/-- Lines that are printed one below the other are the lines of what is printed. -/
theorem CommandLine.splitLines_unlines {lines : List String}
    (h : ∀ line ∈ lines, Text.Unbroken line.toList) :
    Text.splitLines (unlines lines).toList = lines.map String.toList := by
  induction lines with
  | nil => rfl
  | cons line lines ih =>
    obtain ⟨hline, hlines⟩ := List.forall_mem_cons.1 h
    have hcons : (unlines (line :: lines)).toList =
        line.toList ++ (['\n'] ++ (unlines lines).toList) := by
      rw [unlines, List.map_cons, String.join_cons, String.toList_append, String.toList_append,
        List.append_assoc]
      rfl
    rw [hcons, Text.splitLines_append hline (.inl rfl), ih hlines, List.map_cons]

namespace RuleTree

variable {tree tree' : RuleTree} {room : Nat} {positions : Bool}

/-- The whole listing of a tree: the line of each of its nodes. -/
def listing (positions : Bool) (tree : RuleTree) : List String :=
  (tree.preorder 0).map (line positions)

/-- Where there is room for it a tree is listed as a whole. -/
theorem print_of_le (h : tree.height ≤ room) :
    print positions room 0 tree = ⟨tree.listing positions, true⟩ := by
  rcases prints_print positions tree room 0 with ⟨-, hprint⟩ | ⟨hnot, -⟩
  · exact hprint
  · exact absurd h hnot

/-- Where there is none the listing is cut off. -/
theorem print_of_lt (h : room < tree.height) :
    (print positions room 0 tree).complete = false ∧
      ∃ rest, rest ≠ [] ∧ tree.listing positions = (print positions room 0 tree).lines ++ rest := by
  rcases prints_print positions tree room 0 with ⟨hle, -⟩ | ⟨-, hcut⟩
  · omega
  · exact hcut

/-- A listing comes to its end if and only if there is room for it. -/
theorem complete_print_iff :
    (print positions room 0 tree).complete = true ↔ tree.height ≤ room := by
  rcases Nat.lt_or_ge room tree.height with hlt | hle
  · rw [(print_of_lt hlt).1]
    exact ⟨Bool.noConfusion, fun h => absurd hlt (Nat.not_lt.2 h)⟩
  · rw [print_of_le hle]
    exact ⟨fun _ => hle, fun _ => rfl⟩

/-- Whether cut off or not, what is printed are lines of the listing. -/
theorem mem_listing_of_mem_print {text : String}
    (h : text ∈ (print positions room 0 tree).lines) : text ∈ tree.listing positions := by
  rcases Nat.lt_or_ge room tree.height with hlt | hle
  · obtain ⟨-, rest, -, hlines⟩ := @print_of_lt tree room positions hlt
    rw [hlines]
    exact List.mem_append_left rest h
  · rwa [print_of_le hle] at h

/-- What is printed without positions is cut into the lines that were printed. -/
theorem splitLines_print (room : Nat) (tree : RuleTree) :
    Text.splitLines (CommandLine.unlines (print false room 0 tree).lines).toList =
      (print false room 0 tree).lines.map String.toList := by
  refine CommandLine.splitLines_unlines fun text htext => ?_
  obtain ⟨node, -, rfl⟩ := List.mem_map.1 (mem_listing_of_mem_print htext)
  exact unbroken_line node

/-- Two listings that came to their ends are the same if and only if the trees are alike. -/
theorem unlines_print_eq_iff (h : tree.height ≤ room) (h' : tree'.height ≤ room) :
    CommandLine.unlines (print false room 0 tree).lines =
      CommandLine.unlines (print false room 0 tree').lines ↔ tree.Alike tree' := by
  rw [← lines_eq_iff]
  constructor
  · intro heq
    have hsplit := congrArg (fun text : String => Text.splitLines text.toList) heq
    simp only [splitLines_print] at hsplit
    rw [print_of_le h, print_of_le h'] at hsplit
    exact List.map_injective_iff.2 (fun _ _ => String.toList_inj.1) hsplit
  · intro heq
    rw [print_of_le h, print_of_le h', listing, listing, heq]

end RuleTree

/-- With room for so many levels a forest is listed as a whole if and only if it has no more. Its
listing is then one line for each rule and token, in preorder and indented by two spaces for each
level, and two forests have the same listing if and only if they have the same rules and tokens in
the same places, apart from what is cut from long texts. A forest of more levels is listed up to
some line only, and the end is missing. Nothing in a source ends a line of a listing. -/
theorem Forest.print_tells (room : Nat) (forest : Forest) :
    ((forest.ruleTree.print false room 0).complete = true ↔ forest.ruleTree.height ≤ room) ∧
      (forest.ruleTree.height ≤ room →
        (forest.ruleTree.print false room 0).lines =
          (forest.ruleTree.preorder 0).map (RuleTree.line false) ∧
        ∀ forest' : Forest, forest'.ruleTree.height ≤ room →
          (CommandLine.unlines (forest.ruleTree.print false room 0).lines =
            CommandLine.unlines (forest'.ruleTree.print false room 0).lines ↔
              forest.ruleTree.Alike forest'.ruleTree)) ∧
      (room < forest.ruleTree.height → ∃ rest, rest ≠ [] ∧
        (forest.ruleTree.preorder 0).map (RuleTree.line false) =
          (forest.ruleTree.print false room 0).lines ++ rest) ∧
      Text.splitLines
          (CommandLine.unlines (forest.ruleTree.print false room 0).lines).toList =
        (forest.ruleTree.print false room 0).lines.map String.toList ∧
      ∀ text, Text.Unbroken (RuleTree.shownText text).toList := by
  refine ⟨RuleTree.complete_print_iff, fun hle => ⟨?_, fun forest' hle' => ?_⟩, fun hlt => ?_,
    RuleTree.splitLines_print room _, fun text => ?_⟩
  · rw [RuleTree.print_of_le hle]
    rfl
  · exact RuleTree.unlines_print_eq_iff hle hle'
  · exact (RuleTree.print_of_lt hlt).2
  · rw [RuleTree.shownText, String.toList_ofList]
    exact Text.unbroken_quoted _

/-- Room for three levels is room for a form, but not for a form inside it. -/
theorem Forest.print_tells_three_levels :
    let flat : Forest := [.form .start [] .start]
    let nested : Forest := [.form .start [.form .start [] .start] .start]
    (flat.ruleTree.print false 3 0).complete = true ∧
      (flat.ruleTree.print false 3 0).lines =
        ["start:", "  form:", "    LPAR: '('", "    RPAR: ')'"] ∧
      (nested.ruleTree.print false 3 0).complete = false ∧
      (nested.ruleTree.print false 3 0).lines =
        ["start:", "  form:", "    LPAR: '('", "    form:"] := by
  intro flat nested
  have hflat : flat.ruleTree.height ≤ 3 := by decide
  have hnested : ¬nested.ruleTree.height ≤ 3 := by decide
  have hcut := mt (Forest.print_tells 3 nested).1.1 hnested
  refine ⟨(Forest.print_tells 3 flat).1.2 hflat, ?_, Bool.not_eq_true _ ▸ hcut, ?_⟩
  · decide +kernel
  · decide +kernel

/-- A line separator in a string literal does not end the line of the literal. -/
example : (Forest.ruleTree [.leaf ⟨.string, "\"a\u2028\"", .start⟩]).print false 2 0 =
    ⟨["start:", "  STRING: '\"a\\u2028\"'"], true⟩ := by
  decide +kernel

end WitxFrontEnd
