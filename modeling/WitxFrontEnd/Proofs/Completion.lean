import WitxFrontEnd.Proofs.Prediction
import WitxFrontEnd.Proofs.Sources

/-!
# Everything that is to come can come

`Goal.Stack` is what all goals that a run leads to have in common; one mark keeps it (`Stack.feed`)
and so does a run (`Stack.run`). Each goal has a shortest thing that could come (`sample`), and the
samples of the goals on a stack, one behind the other, are a completion: it leads back to where
only forms at the top are to come, its parens match those that are open, and as it nests at most
one form deeper where hardly any is open, a source may have it (`Stack.exists_completion`).
-/

namespace WitxFrontEnd

/-! ## Plain symbols -/

namespace Symbol

/-- Whether a symbol is a paren, a string or an atom of the kind that it is said to be. -/
def isPlain : Symbol → Bool
  | .leftParen | .rightParen => true
  | .token kind text =>
    kind == .string || text != "" && text.toList.all Lexeme.isAtomChar && .ofAtom text == kind

/-- The test for plain symbols is right. -/
theorem plain_of_isPlain {s : Symbol} (h : s.isPlain = true) : s.Plain := by
  cases s with
  | leftParen => exact ⟨⟨_, .leftParen⟩, rfl⟩
  | rightParen => exact ⟨⟨_, .rightParen⟩, rfl⟩
  | token kind text =>
    rw [isPlain, Bool.or_eq_true, Bool.and_eq_true, Bool.and_eq_true] at h
    rcases h with h | ⟨⟨hne, hatom⟩, hkind⟩
    · obtain rfl := eq_of_beq h
      exact ⟨⟨_, .string (Literal.spells_encode text.toList)⟩, rfl⟩
    · obtain rfl := eq_of_beq hkind
      have hcs : text.toList ≠ [] := by simpa using hne
      have hwritten := written_atom hcs (List.all_eq_true.1 hatom)
      rw [String.ofList_toList] at hwritten
      refine ⟨⟨_, hwritten⟩, ?_⟩
      show (TokenKind.ofAtom text).isComment = false
      unfold TokenKind.ofAtom
      split
      · rfl
      · split <;> rfl
      · rfl

end Symbol

/-! ## Parens among the terminals -/

namespace Terminal

/-- How many forms a terminal opens. -/
def opens : Terminal → Nat
  | .item .leftParen => 1
  | _ => 0

/-- How many forms a terminal closes. -/
def closes : Terminal → Nat
  | .close => 1
  | _ => 0

theorem climb_of_matches {t : Terminal} {s : Symbol} {bound d d' : Nat}
    (h : t.matches (some s) = true) (hclimb : Symbol.climb bound d [s] = some d') :
    d + t.opens = d' + t.closes := by
  cases t with
  | finish => cases s <;> cases h
  | close =>
    obtain rfl : s = .rightParen := Option.some.inj (eq_of_beq h)
    cases d with
    | zero => cases hclimb
    | succ d =>
      rw [Symbol.climb, Symbol.climb_nil] at hclimb
      cases hclimb
      rfl
  | item pattern =>
    cases s with
    | rightParen => cases pattern <;> cases h
    | leftParen =>
      rw [Symbol.climb, Symbol.climb_nil] at hclimb
      split at hclimb
      · cases hclimb
        cases pattern with
        | leftParen => rfl
        | identifier | string | keyword | reserved => cases h
      · cases hclimb
    | token kind text =>
      rw [Symbol.climb_token, Symbol.climb_nil] at hclimb
      cases hclimb
      cases pattern with
      | leftParen => cases h
      | identifier | string | keyword | reserved => rfl

end Terminal

namespace Goal

variable {g : Goal} {gs next : List Goal} {m : Mark}

/-! ## One step -/

/-- What is to come behind a mark comes from an alternative that the mark leads in. -/
theorem step_eq_some (h : g.step m = some next) :
    ∃ t, (t, next) ∈ g.alternatives ∧ t.matches m = true := by
  rw [step] at h
  obtain ⟨⟨t, rest⟩, hfind, rfl⟩ := Option.map_eq_some_iff.1 h
  have hmatches := List.find?_some hfind
  exact ⟨t, List.mem_of_find?_eq_some hfind, hmatches⟩

/-- What is to come behind a mark does not depend on what is to come later. -/
theorem feed_append {gs' : List Goal} (h : feed gs m = some gs') (more : List Goal) :
    feed (gs ++ more) m = some (gs' ++ more) := by
  cases gs with
  | nil => cases h
  | cons g gs =>
    obtain ⟨next, hstep, rfl⟩ := Option.map_eq_some_iff.1 h
    rw [List.cons_append, feed, hstep, List.append_assoc]
    rfl

/-- Further goals below do not change a run. -/
theorem run_append_goals {w : List Mark} {gs' : List Goal} (h : run gs w = some gs')
    (more : List Goal) : run (gs ++ more) w = some (gs' ++ more) := by
  induction w generalizing gs with
  | nil => cases h; rfl
  | cons m w ih =>
    rw [run_cons] at h ⊢
    obtain ⟨next, hfeed, hrun⟩ := Option.bind_eq_some_iff.1 h
    rw [feed_append hfeed]
    exact ih hrun

/-- Nothing but the end of a source leads in the end of a source. -/
theorem eq_topLevels_of_step_none (h : g.step none = some next) : g = topLevels := by
  cases g with
  | topLevels => rfl
  | _ => cases h

/-! ## Depth -/

/-- How many forms a goal closes that were open before it. -/
def closes : Goal → Nat
  | topLevels | scalar | name | importType | memory | exported | exportWord | func | identifier
  | string => 0
  | _ => 1

/-- How many forms are open before some goals. -/
def depth : List Goal → Nat
  | [] => 0
  | g :: gs => g.closes + depth gs

/-- The depth of goals one behind the other. -/
theorem depth_append (gs gs' : List Goal) : depth (gs ++ gs') = depth gs + depth gs' := by
  induction gs with
  | nil => exact (Nat.zero_add _).symm
  | cons g gs ih =>
    rw [List.cons_append, depth, depth, ih]
    omega

/-- What an alternative opens is closed by its own terminals and by its goals. -/
theorem alternatives_balanced : ∀ a ∈ g.alternatives,
    g.closes + a.1.opens = depth a.2 + a.1.closes := by
  have h : g.alternatives.all
      (fun a => g.closes + a.1.opens == depth a.2 + a.1.closes) = true := by
    cases g <;> rfl
  intro a ha
  exact eq_of_beq (List.all_eq_true.1 h a ha)

/-- One symbol changes the depth as its parens say. -/
theorem depth_step {bound k d : Nat} {s : Symbol} (h : g.step (some s) = some next)
    (hclimb : Symbol.climb bound (g.closes + k) [s] = some d) : depth next + k = d := by
  obtain ⟨t, hmem, hmatches⟩ := step_eq_some h
  have hbalanced := alternatives_balanced _ hmem
  have hsymbol := Terminal.climb_of_matches hmatches hclimb
  dsimp only at hbalanced
  omega

/-- What is to come behind some symbols closes the forms that are open there. -/
theorem depth_run {bound d : Nat} {w : List Symbol} {gs' : List Goal}
    (h : run gs (w.map some) = some gs') (hclimb : Symbol.climb bound (depth gs) w = some d) :
    depth gs' = d := by
  induction w generalizing gs with
  | nil =>
    cases h
    rw [Symbol.climb_nil] at hclimb
    cases hclimb
    rfl
  | cons s w ih =>
    rw [List.map_cons, run_cons] at h
    obtain ⟨gs₁, hfeed, hrun⟩ := Option.bind_eq_some_iff.1 h
    rw [← List.singleton_append, Symbol.climb_append] at hclimb
    obtain ⟨d₁, hfirst, hrest⟩ := Option.bind_eq_some_iff.1 hclimb
    cases gs with
    | nil => cases hfeed
    | cons g gs =>
      obtain ⟨next, hstep, rfl⟩ := Option.map_eq_some_iff.1 hfeed
      rw [depth] at hfirst
      refine ih hrun ?_
      rw [depth_append, depth_step hstep hfirst]
      exact hrest

/-! ## Stacks -/

/-- The depth before a goal and what comes behind it, where it is always the same: for the goals
whose sample opens a form that is not open yet, and for those that lead to them. -/
def level : Goal → Option Nat
  | topLevels => some 0
  | topLevel | decls | typedef => some 1
  | decl | importType | exported | typedefForm | someFields => some 2
  | _ => none

/-- There are no levels above two. -/
theorem level_le_two : ∀ n ∈ g.level, n ≤ 2 := by
  cases g <;> simp [level]

/-- Whether goals may come instead of a goal: the sources' forms come nowhere else, a bare scalar
only first, and goals of a fixed depth only at that depth. -/
def fits (g : Goal) : List Goal → Bool
  | [] => true
  | h :: rest =>
    h != topLevels && rest.head? != some scalar &&
      (h.level.all fun n => g.level.any fun n' => n + g.closes == n' + depth (h :: rest)) &&
      fits g rest

/-- All that is to come, as it may be when some of a source is behind. -/
inductive Stack : List Goal → Prop
  | bottom : Stack [topLevels]
  | push {g : Goal} {gs : List Goal} (hg : g ≠ topLevels)
      (hlevel : ∀ n ∈ g.level, depth (g :: gs) = n) (hscalar : gs.head? ≠ some scalar)
      (h : Stack gs) : Stack (g :: gs)

/-- Each alternative puts goals on the stack that fit the goal it was taken from. -/
theorem alternatives_fit : ∀ a ∈ g.alternatives, g ≠ topLevels → g.fits a.2 = true := by
  have h : (g == topLevels || g.alternatives.all fun a => g.fits a.2) = true := by
    cases g <;> rfl
  intro a ha hg
  rcases Bool.or_eq_true_iff.1 h with h | h
  · exact absurd (eq_of_beq h) hg
  · exact List.all_eq_true.1 h a ha

/-- Goals that fit come in place of a goal. -/
theorem Stack.replace (hlevel : ∀ n ∈ g.level, depth (g :: gs) = n)
    (hscalar : gs.head? ≠ some scalar) (hgs : Stack gs) (h : g.fits next = true) :
    Stack (next ++ gs) := by
  induction next with
  | nil => exact hgs
  | cons first rest ih =>
    rw [fits, Bool.and_eq_true, Bool.and_eq_true, Bool.and_eq_true] at h
    obtain ⟨⟨⟨htop, hhead⟩, hfirst⟩, hrest⟩ := h
    refine .push (by simpa using htop) (fun n hn => ?_) ?_ (ih hrest)
    · rw [Option.mem_def.1 hn, Option.all_some] at hfirst
      cases hg : g.level with
      | none => rw [hg] at hfirst; cases hfirst
      | some n' =>
        rw [hg, Option.any_some, beq_iff_eq] at hfirst
        have hdepth := hlevel n' hg
        show depth ((first :: rest) ++ gs) = n
        rw [depth_append]
        rw [depth] at hdepth
        omega
    · cases rest with
      | nil => exact hscalar
      | cons second rest => simpa using hhead

/-- One symbol leads from stack to stack. -/
theorem Stack.feed {s : Symbol} {gs' : List Goal} (hgs : Stack gs)
    (h : Goal.feed gs (some s) = some gs') : Stack gs' := by
  cases hgs with
  | bottom =>
    cases s with
    | leftParen =>
      cases h
      refine .push nofun (fun n hn => ?_) nofun .bottom
      cases hn
      rfl
    | rightParen | token => cases h
  | @push g gs hg hlevel hscalar hgs =>
    obtain ⟨next, hstep, rfl⟩ := Option.map_eq_some_iff.1 h
    obtain ⟨t, hmem, -⟩ := step_eq_some hstep
    exact hgs.replace hlevel hscalar (alternatives_fit _ hmem hg)

/-- A run leads from stacks to stacks. -/
theorem Stack.run {w : List Symbol} {gs' : List Goal} (hgs : Stack gs)
    (h : Goal.run gs (w.map some) = some gs') : Stack gs' := by
  induction w generalizing gs with
  | nil => cases h; exact hgs
  | cons s w ih =>
    rw [List.map_cons, run_cons] at h
    obtain ⟨gs₁, hfeed, hrun⟩ := Option.bind_eq_some_iff.1 h
    exact ih (hgs.feed hfeed) hrun

/-- At the end of a source nothing may be left to come but forms at the top. -/
theorem Stack.feed_none {gs' : List Goal} (hgs : Stack gs) (h : Goal.feed gs none = some gs') :
    gs = [topLevels] ∧ gs' = [] := by
  cases hgs with
  | bottom => cases h; exact ⟨rfl, rfl⟩
  | @push g gs hg hlevel hscalar hgs =>
    obtain ⟨next, hstep, -⟩ := Option.map_eq_some_iff.1 h
    exact absurd (eq_topLevels_of_step_none hstep) hg

/-! ## Samples -/

/-- A keyword. -/
def word (text : String) : Symbol := .token .keyword text

/-- Some identifier. -/
def someName : Symbol := .token .identifier "$a"

/-- Some string. -/
def someText : Symbol := .token .string ""

/-- Something short that a goal could be. -/
def sample : Goal → List Symbol
  | topLevels => []
  | topLevel => [word "use", someText, .rightParen]
  | decls | slots | fields | members | close => [.rightParen]
  | decl =>
    [word "import", someText, .leftParen, word "memory", .rightParen, .rightParen]
  | slot => [word "param", someName, someName, .rightParen]
  | typedef | someMembers | datatype => [someName, .rightParen]
  | typedefForm => [word "handle", .rightParen]
  | someFields =>
    [.leftParen, word "field", someName, someName, .rightParen, .rightParen]
  | field => [word "field", someName, someName, .rightParen]
  | datatypeForm => [word "array", someName, .rightParen]
  | pointer => [word "pointer", someName, .rightParen]
  | scalar => [word "u8"]
  | name | identifier => [someName]
  | importType => [.leftParen, word "memory", .rightParen]
  | memory => [word "memory"]
  | exported => [.leftParen, word "export", someText, .rightParen]
  | exportWord => [word "export"]
  | func => [word "func"]
  | string => [someText]

/-- The samples are plain. -/
theorem plain_sample (g : Goal) : ∀ s ∈ g.sample, s.Plain := by
  have h : g.sample.all Symbol.isPlain = true := by
    cases g <;> decide
  exact fun s hs => Symbol.plain_of_isPlain (List.all_eq_true.1 h s hs)

/-- A goal is reached by its sample. -/
theorem run_sample (hg : g ≠ topLevels) : run (g :: gs) (g.sample.map some) = some gs := by
  have h : run [g] (g.sample.map some) = some [] := by
    cases g with
    | topLevels => exact absurd rfl hg
    | _ => decide
  exact run_append_goals h gs

/-- A sample closes what its goal does. It may nest one form deeper, but only if the goal is one of
a fixed depth. -/
theorem climb_sample {bound d : Nat} (hg : ∀ n ∈ g.level, d + g.closes < bound) :
    Symbol.climb bound (d + g.closes) g.sample = some d := by
  cases g with
  | decl | someFields | importType | exported =>
    have hlt := hg _ rfl
    simp only [closes, Nat.add_zero] at hlt
    simp [sample, closes, word, someName, someText, Symbol.climb_leftParen hlt]
  | _ => simp [sample, closes, word, someName, someText]

/-- What is to come can come: behind the symbols given nothing is left but forms at the top. They
can be written, and their parens match those that are open. -/
theorem Stack.exists_completion (hgs : Stack gs) {bound : Nat} (hbound : 2 < bound) :
    ∃ w : List Symbol, (∀ s ∈ w, s.Plain) ∧ Goal.run gs (w.map some) = some [topLevels] ∧
      Symbol.climb bound (depth gs) w = some 0 := by
  induction hgs with
  | bottom => exact ⟨[], fun s hs => (by cases hs), rfl, Symbol.climb_nil⟩
  | @push g gs hg hlevel hscalar hgs ih =>
    obtain ⟨w, hplain, hrun, hclimb⟩ := ih
    refine ⟨g.sample ++ w, ?_, ?_, ?_⟩
    · intro s hs
      rcases List.mem_append.1 hs with hs | hs
      · exact plain_sample g s hs
      · exact hplain s hs
    · rw [List.map_append, run_append, run_sample hg]
      exact hrun
    · have hlt : ∀ n ∈ g.level, depth gs + g.closes < bound := by
        intro n hn
        have hdepth := hlevel n hn
        have hle := level_le_two n hn
        rw [depth] at hdepth
        omega
      rw [depth, Nat.add_comm, Symbol.climb_append, climb_sample hlt]
      exact hclimb

end Goal

end WitxFrontEnd
