import Mathlib.Data.List.Flatten
import Mathlib.Data.List.Nodup
import Mathlib.Data.List.Pairwise
import WitxFrontEnd.Proofs.Sources
import WitxFrontEnd.Proofs.Takes

/-!
# Where constructs stand

A form, or a source, is cut into `Sites`: each item that is no comment, with all comments right
before it. The sites at every depth of a source are told apart by what they hold. For an item
stands in one `Level` only (`Level.unique`), as each item of a source begins behind the one before
it (`Item.nodup_preorderAll`), and a level is cut into sites in one way only (`Sites.unique`).
-/

namespace WitxFrontEnd

/-- Where a construct stands: its item, and the comments right before it. -/
structure Site where
  comments : List Token
  item : Item

namespace Site

/-- What the comments say, without their marks. -/
def texts (s : Site) : List String :=
  s.comments.filterMap Token.comment?

/-- The comments, and behind them the construct. -/
def items (s : Site) : List Item :=
  s.comments.map .token ++ [s.item]

end Site

/-- The sites of some items, in order, and the comments that no construct follows. What is right
before the comments of a site is a construct or the beginning, so they are all there are. -/
inductive Sites : List Item → List Site → List Token → Prop
  | trailing {run : List Token} (hrun : AllComments run) : Sites (run.map .token) [] run
  | site {s : Site} {rest : List Item} {ss : List Site} {behind : List Token}
      (hrun : AllComments s.comments) (hitem : s.item.isComment = false)
      (h : Sites rest ss behind) : Sites (s.comments.map .token ++ s.item :: rest) (s :: ss) behind

/-- The items themselves, or the items of a form among them or within them. -/
inductive Level : List Item → List Item → Prop
  | here {items : List Item} : Level items items
  | inside {items children level : List Item} {span closing : Span}
      (hmem : .form children span closing ∈ items) (h : Level children level) : Level items level

/-- The site is one of those in the items, at any depth. -/
def Site.Within (s : Site) (items : List Item) : Prop :=
  ∃ level ss behind, Level items level ∧ Sites level ss behind ∧ s ∈ ss

/-! ## Cutting -/

namespace Sites

variable {l : List Item} {ss ss' : List Site} {behind behind' : List Token}

/-- All items are cut into sites. -/
theorem exists_of (l : List Item) : ∃ ss behind, Sites l ss behind := by
  induction hn : l.length using Nat.strongRecOn generalizing l with
  | ind n ih =>
    subst hn
    obtain ⟨run, hrun, hl⟩ := exists_run l
    rcases View.skipComments_cases l with hnil | ⟨i, rest, hcons, hi⟩
    · rw [hnil, List.append_nil] at hl
      exact ⟨[], run, hl ▸ .trailing hrun⟩
    · rw [hcons] at hl
      have hlt : rest.length < l.length := by
        rw [hl, List.length_append, List.length_cons]
        omega
      obtain ⟨ss, behind, h⟩ := ih _ hlt rest rfl
      exact ⟨⟨run, i⟩ :: ss, behind, hl ▸ .site (s := ⟨run, i⟩) hrun hi h⟩

/-- There is one way to cut items into sites. -/
theorem unique (h : Sites l ss behind) (h' : Sites l ss' behind') :
    ss = ss' ∧ behind = behind' := by
  have hinj {run run' : List Token} (h : run.map Item.token = run'.map .token) : run = run' :=
    List.map_injective_iff.2 (fun _ _ => Item.token.inj) h
  induction h generalizing ss' behind' with
  | @trailing run hrun =>
    generalize hl : run.map Item.token = l at h'
    have hskip := hl ▸ hrun.skip_all
    cases h' with
    | trailing => exact ⟨rfl, hinj hl⟩
    | site hrun' hitem' h' => rw [hrun'.skip hitem'] at hskip; cases hskip
  | @site s rest ss behind hrun hitem h ih =>
    generalize hl : s.comments.map Item.token ++ s.item :: rest = l at h'
    have hskip := hl ▸ hrun.skip hitem rest
    cases h' with
    | trailing hrun' => rw [hrun'.skip_all] at hskip; cases hskip
    | @site s' rest' ss' behind' hrun' hitem' h' =>
      rw [hrun'.skip hitem'] at hskip
      obtain ⟨hitem, hrest⟩ := List.cons.inj hskip
      rw [hitem, hrest] at hl
      obtain ⟨rfl, rfl⟩ := ih (hrest ▸ h')
      obtain ⟨comments, item⟩ := s
      obtain ⟨comments', item'⟩ := s'
      cases hitem
      cases hinj (List.append_cancel_right hl)
      exact ⟨rfl, rfl⟩

/-- Sites leave nothing out. -/
theorem eq_append (h : Sites l ss behind) : l = ss.flatMap Site.items ++ behind.map .token := by
  induction h with
  | trailing => rfl
  | site hrun hitem h ih =>
    rw [List.flatMap_cons, Site.items, List.append_assoc, List.append_assoc, ← ih]
    rfl

/-- A comment is before the construct of a site, or no construct follows it. -/
theorem cases_of_comment (h : Sites l ss behind) {before after : List Item} {t : Token}
    (hl : l = before ++ .token t :: after) (ht : t.kind.isComment = true) :
    (∃ s ∈ ss, t ∈ s.comments ∧ (Cursor.skipComments after).head? = some s.item) ∨
      t ∈ behind ∧ (Cursor.skipComments after).head? = none := by
  induction h generalizing before with
  | @trailing run hrun =>
    obtain ⟨front, back, rfl, -, hback⟩ := List.map_eq_append_iff.1 hl
    obtain ⟨t', run', rfl, ht', rfl⟩ := List.map_eq_cons_iff.1 hback
    cases ht'
    have hrun' : AllComments run' := fun u hu => hrun u (by simp [hu])
    exact .inr ⟨by simp, by rw [hrun'.skip_all]; rfl⟩
  | @site s rest ss behind hrun hitem h ih =>
    rcases List.append_eq_append_iff.1 hl with ⟨mid, -, hmid⟩ | ⟨mid, hcomments, hmid⟩
    · -- the comment is behind the first construct, unless it is that construct
      rcases List.cons_eq_append_iff.1 hmid with ⟨-, hcons⟩ | ⟨mid', -, hrest⟩
      · obtain ⟨hitem', -⟩ := List.cons.inj hcons
        rw [← hitem'] at hitem
        exact absurd (hitem.symm.trans ht) nofun
      · rcases ih hrest with ⟨s', hs', hbefore⟩ | hbehind
        · exact .inl ⟨s', List.mem_cons_of_mem _ hs', hbefore⟩
        · exact .inr hbehind
    · -- the comment is before the first construct, unless it is that construct
      rcases List.cons_eq_append_iff.1 hmid with ⟨-, hcons⟩ | ⟨mid', rfl, rfl⟩
      · obtain ⟨hitem', -⟩ := List.cons.inj hcons
        rw [hitem'] at hitem
        exact absurd (hitem.symm.trans ht) nofun
      · obtain ⟨front, back, hfront, -, hback⟩ := List.map_eq_append_iff.1 hcomments
        obtain ⟨t', run', rfl, ht', rfl⟩ := List.map_eq_cons_iff.1 hback
        cases ht'
        have hmem (u : Token) (hu : u ∈ t :: run') : u ∈ s.comments := by
          rw [hfront]
          exact List.mem_append_right _ hu
        have hrun' : AllComments run' := fun u hu => hrun u (hmem u (List.mem_cons_of_mem _ hu))
        exact .inl ⟨s, List.mem_cons_self, hmem t List.mem_cons_self,
          by rw [hrun'.skip hitem]; rfl⟩

end Sites

/-! ## Telling items apart -/

namespace Item

/-- The items that a form is made of. -/
def children : Item → List Item
  | .token _ => []
  | .form items _ _ => items

mutual

/-- An item and all that is within it, in the order in which they begin. -/
def preorder : Item → List Item
  | .token t => [.token t]
  | .form items span closing => .form items span closing :: preorderAll items

/-- As `preorder`, over some items. -/
def preorderAll : List Item → List Item
  | [] => []
  | i :: rest => i.preorder ++ preorderAll rest

end

/-- The items within some items, one item after the other. -/
theorem preorderAll_eq_flatMap (l : List Item) : preorderAll l = l.flatMap preorder := by
  induction l with
  | nil => rfl
  | cons i rest ih => rw [preorderAll, List.flatMap_cons, ih]

/-- The items within items one behind the other. -/
theorem preorderAll_append (l l' : List Item) :
    preorderAll (l ++ l') = preorderAll l ++ preorderAll l' := by
  simp only [preorderAll_eq_flatMap, List.flatMap_append]

/-- Within tokens there are no other items. -/
theorem preorderAll_tokens (run : List Token) : preorderAll (run.map .token) = run.map .token := by
  induction run with
  | nil => rfl
  | cons t run ih => rw [List.map_cons, preorderAll, ih]; rfl

/-- What is within one of some items is within these, in the same order. -/
theorem preorder_sublist {i : Item} {l : List Item} (h : i ∈ l) :
    i.preorder.Sublist (preorderAll l) := by
  obtain ⟨front, back, rfl⟩ := List.append_of_mem h
  rw [preorderAll_append, preorderAll]
  exact (List.sublist_append_left _ _).trans (List.sublist_append_right _ _)

/-- Within an item is first the item itself and then what its form holds. -/
theorem preorder_eq_cons (i : Item) : i.preorder = i :: preorderAll i.children := by
  cases i <;> rfl

/-- An item is within itself. -/
theorem self_mem_preorder (i : Item) : i ∈ i.preorder := by
  rw [preorder_eq_cons]
  exact List.mem_cons_self

/-- The items of a level are among all that there are, in their order. -/
theorem sublist_preorderAll (l : List Item) : l.Sublist (preorderAll l) := by
  induction l with
  | nil => exact .slnil
  | cons i rest ih =>
    rw [preorderAll]
    exact (List.singleton_sublist.2 i.self_mem_preorder).append ih

section

variable {filename : Option String}

mutual

/-- The items within an item begin at lexemes of its tree, each at another one and in order. -/
theorem spans_preorder_ofTree : ∀ (tree : Tree) {depth : Nat} {i : Item},
    ofTree filename depth tree = .ok i →
    (i.preorder.map span).Sublist (tree.lexemes.map fun l => l.pos.span filename)
  | .leaf l, depth, i, h => by
    obtain ⟨t, ht, rfl⟩ := ofTree_leaf_ok h
    rw [preorder, List.map_singleton, Item.span, span_ofLeaf ht]
    exact .refl _
  | .form opening children closing, depth, i, h => by
    obtain ⟨-, items, hitems, rfl⟩ := ofTree_form_ok h
    have hinner := spans_preorder_ofForest children hitems
    simp only [preorder, Tree.lexemes, List.map_cons, List.map_append]
    exact (hinner.trans (List.sublist_append_left _ _)).cons_cons _

/-- Items begin where the lexemes that they come from begin. -/
theorem spans_preorder_ofForest : ∀ (forest : Forest) {depth : Nat} {items : List Item},
    ofForest filename depth forest = .ok items →
    ((preorderAll items).map span).Sublist
      ((Tree.forestLexemes forest).map fun l => l.pos.span filename)
  | [], depth, items, h => by
    cases h
    exact .slnil
  | tree :: rest, depth, items, h => by
    obtain ⟨i, is, hi, his, rfl⟩ := ofForest_cons_ok h
    rw [preorderAll, Tree.forestLexemes, List.map_append, List.map_append]
    exact (spans_preorder_ofTree tree hi).append (spans_preorder_ofForest rest his)

end

end

/-- Each item of a source begins behind the one before it, and no item is there twice. -/
theorem nodup_preorderAll {source : String} {filename : Option String} {items : List Item}
    (h : readAll source filename = .ok items) : (preorderAll items).Nodup := by
  obtain ⟨forest, hread, hitems⟩ := readAll_ok h
  have hspans :=
    (Forest.pairwise_offset hread).sublist (spans_preorder_ofForest forest hitems)
  rw [List.pairwise_map] at hspans
  refine hspans.imp fun hlt heq => ?_
  rw [heq] at hlt
  exact absurd hlt (Int.lt_irrefl _)

end Item

/-- Elements of a list that share something are the same, if nothing is there twice. -/
theorem eq_of_mem_flatMap {α β : Type} {f : α → List β} {l : List α} (h : (l.flatMap f).Nodup)
    {a a' : α} (ha : a ∈ l) (ha' : a' ∈ l) {b : β} (hb : b ∈ f a) (hb' : b ∈ f a') : a = a' := by
  have hsymm : Std.Symm (Function.onFun List.Disjoint f) := ⟨fun _ _ h => List.disjoint_symm h⟩
  by_contra hne
  exact (List.nodup_flatMap.1 h).2.forall ha ha' hne hb hb'

namespace Level

variable {items level level' : List Item}

/-- What is in a level is among all that there is. -/
theorem mem_preorderAll (h : Level items level) {i : Item} (hi : i ∈ level) :
    i ∈ Item.preorderAll items := by
  induction h with
  | here => exact (Item.sublist_preorderAll _).subset hi
  | @inside items children level span closing hmem h ih =>
    rw [Item.preorderAll_eq_flatMap]
    exact List.mem_flatMap.2 ⟨_, hmem, List.mem_cons_of_mem _ (ih hi)⟩

/-- No item is in two levels. -/
theorem unique (hnodup : (Item.preorderAll items).Nodup) (h : Level items level)
    (h' : Level items level') {i : Item} (hi : i ∈ level) (hi' : i ∈ level') : level = level' := by
  -- an item is not both in a form and beside it, nor in two forms
  have hbeside {items children level : List Item} {span closing : Span}
      (hnodup : (Item.preorderAll items).Nodup) (hmem : .form children span closing ∈ items)
      (h : Level children level) {i : Item} (hi : i ∈ level) : i ∉ items := by
    intro htop
    rw [Item.preorderAll_eq_flatMap] at hnodup
    have hin := h.mem_preorderAll hi
    obtain rfl := eq_of_mem_flatMap hnodup htop hmem i.self_mem_preorder
      (List.mem_cons_of_mem _ hin)
    exact (List.nodup_cons.1 ((List.nodup_flatMap.1 hnodup).1 _ hmem)).1 hin
  induction h generalizing level' with
  | here =>
    cases h' with
    | here => rfl
    | inside hmem' h' => exact absurd hi (hbeside hnodup hmem' h' hi')
  | @inside items children level span closing hmem h ih =>
    cases h' with
    | here => exact absurd hi' (hbeside hnodup hmem h hi)
    | @inside _ children' _ span' closing' hmem' h' =>
      have hnodup' := hnodup
      rw [Item.preorderAll_eq_flatMap] at hnodup'
      have hform := eq_of_mem_flatMap hnodup' hmem hmem'
        (List.mem_cons_of_mem _ (h.mem_preorderAll hi))
        (List.mem_cons_of_mem _ (h'.mem_preorderAll hi'))
      cases hform
      exact ih (List.nodup_cons.1 ((List.nodup_flatMap.1 hnodup').1 _ hmem)).2 h' hi hi'

end Level

/-! ## Sites at every depth -/

/-- The site, and then what is within its construct. -/
def Site.preorder (s : Site) : List Item :=
  s.comments.map .token ++ s.item.preorder

/-- Sites of the items, at any depth and in the order in which they stand there. -/
structure Among (sites : List Site) (items : List Item) : Prop where
  within : ∀ s ∈ sites, s.Within items
  inOrder : (sites.flatMap Site.items).Sublist (Item.preorderAll items)

/-- No sites are among any. -/
theorem Among.nil (items : List Item) : Among [] items :=
  ⟨nofun, List.nil_sublist _⟩

namespace Sites

variable {l : List Item} {ss ss' inner : List Site} {behind : List Token} {s s' : Site}

/-- What is within some items is within their sites, but for the comments at the end. -/
theorem preorderAll_eq (h : Sites l ss behind) :
    Item.preorderAll l = ss.flatMap Site.preorder ++ behind.map .token := by
  induction h with
  | trailing => exact Item.preorderAll_tokens _
  | site hrun hitem h ih =>
    rw [Item.preorderAll_append, Item.preorderAll_tokens, Item.preorderAll, ih, List.flatMap_cons,
      Site.preorder, List.append_assoc, List.append_assoc]

/-- The item of a site is one of the items that were cut. -/
theorem item_mem (h : Sites l ss behind) (hs : s ∈ ss) : s.item ∈ l := by
  rw [h.eq_append]
  refine List.mem_append_left _ (List.mem_flatMap.2 ⟨s, hs, ?_⟩)
  exact List.mem_append_right _ List.mem_cons_self

/-- What is within the construct of a site is within the items around it. -/
theorem within (h : Sites l ss behind) (hs : s ∈ ss) (hs' : s'.Within s.item.children) :
    s'.Within l := by
  have hmem := h.item_mem hs
  obtain ⟨level, ss', behind', hlevel, hsites, hs'⟩ := hs'
  cases hi : s.item with
  | token t =>
    rw [hi] at hlevel
    cases hlevel with
    | here => cases hsites.item_mem hs'
    | inside hmem => cases hmem
  | form children span closing =>
    rw [hi] at hmem hlevel
    exact ⟨level, ss', behind', .inside hmem hlevel, hsites, hs'⟩

/-- The sites of a level, or some of them. -/
theorem among (h : Sites l ss behind) (hsub : ss'.Sublist ss) : Among ss' l where
  within s hs := ⟨l, ss, behind, .here, h, hsub.subset hs⟩
  inOrder := by
    refine .trans ?_ (Item.sublist_preorderAll l)
    rw [h.eq_append]
    exact (hsub.flatMap _).trans (List.sublist_append_left _ _)

/-- The sites within the construct of a site. -/
theorem among_children (h : Sites l ss behind) (hs : s ∈ ss)
    (hinner : Among inner s.item.children) : Among inner l where
  within s' hs' := h.within hs (hinner.within s' hs')
  inOrder := by
    have hitem := Item.preorder_sublist (h.item_mem hs)
    rw [Item.preorder_eq_cons] at hitem
    exact hinner.inOrder.trans ((List.sublist_cons_self _ _).trans hitem)

end Sites

/-! ## Telling sites apart -/

section

variable {items level : List Item} (hnodup : (Item.preorderAll items).Nodup)
include hnodup

/-- The items of a level are told apart. -/
theorem Level.nodup (h : Level items level) : level.Nodup := by
  induction h with
  | here => exact hnodup.sublist (Item.sublist_preorderAll _)
  | inside hmem h ih =>
    exact ih ((hnodup.sublist (Item.preorder_sublist hmem)).sublist (List.sublist_cons_self _ _))

/-- A site with an item that stands in a level is a site of the level. -/
theorem Site.Within.mem_sites {s : Site} {ss : List Site} {behind : List Token} {i : Item}
    (h : s.Within items) (hlevel : Level items level) (hsites : Sites level ss behind)
    (hi : i ∈ s.items) (hmem : i ∈ level) : s ∈ ss := by
  obtain ⟨level', ss', behind', hlevel', hsites', hs⟩ := h
  have hmem' : i ∈ level' := by
    rw [hsites'.eq_append]
    exact List.mem_append_left _ (List.mem_flatMap.2 ⟨s, hs, hi⟩)
  obtain rfl := hlevel'.unique hnodup hlevel hmem' hmem
  obtain ⟨rfl, -⟩ := hsites'.unique hsites
  exact hs

namespace Among

variable {sites : List Site}

/-- No comment is in two sites, or in one of them twice. -/
theorem nodup_comments (h : Among sites items) : (sites.flatMap Site.comments).Nodup := by
  have hsub :
      ((sites.flatMap Site.comments).map Item.token).Sublist (sites.flatMap Site.items) := by
    rw [List.map_flatMap]
    exact List.Sublist.flatMap_right _ fun s _ => List.sublist_append_left _ _
  exact (hnodup.sublist (hsub.trans h.inOrder)).of_map _

/-- A comment belongs to one of the sites if and only if the next item of its form that is no
comment is the construct of one of them. -/
theorem mem_comments_iff (h : Among sites items) (hlevel : Level items level)
    {before after : List Item} {t : Token} (hl : level = before ++ .token t :: after)
    (ht : t.kind.isComment = true) :
    (∃ s ∈ sites, t ∈ s.comments) ↔
      ∃ s ∈ sites, (Cursor.skipComments after).head? = some s.item := by
  have hmem : .token t ∈ level := by
    rw [hl]
    exact List.mem_append_right _ List.mem_cons_self
  have hcomment {s : Site} (hts : t ∈ s.comments) : .token t ∈ s.items :=
    List.mem_append_left _ (List.mem_map_of_mem hts)
  obtain ⟨ss, behind, hsites⟩ := Sites.exists_of level
  have hdistinct := hlevel.nodup hnodup
  rw [hsites.eq_append] at hdistinct
  rcases hsites.cases_of_comment hl ht with ⟨s', hs', hts', hnext⟩ | ⟨hbehind, hnext⟩
  · have heq {s : Site} (hs : s ∈ sites) {i : Item} (hi : i ∈ s.items) (hi' : i ∈ s'.items)
        (hil : i ∈ level) : s = s' :=
      eq_of_mem_flatMap hdistinct.of_append_left
        ((h.within s hs).mem_sites hnodup hlevel hsites hi hil) hs' hi hi'
    constructor
    · rintro ⟨s, hs, hts⟩
      exact ⟨s, hs, heq hs (hcomment hts) (hcomment hts') hmem ▸ hnext⟩
    · rintro ⟨s, hs, hnext'⟩
      have hitem : s'.item = s.item := Option.some.inj (hnext.symm.trans hnext')
      have hself (s : Site) : s.item ∈ s.items := List.mem_append_right _ List.mem_cons_self
      have hs'' := heq hs (hself s) (hitem ▸ hself s') (hitem ▸ hsites.item_mem hs')
      exact ⟨s, hs, hs'' ▸ hts'⟩
  · constructor
    · rintro ⟨s, hs, hts⟩
      have hss := (h.within s hs).mem_sites hnodup hlevel hsites (hcomment hts) hmem
      have hin := List.mem_flatMap.2 ⟨s, hss, hcomment hts⟩
      exact absurd (List.mem_map_of_mem hbehind) (List.disjoint_of_nodup_append hdistinct hin)
    · rintro ⟨s, -, hnext'⟩
      rw [hnext] at hnext'
      cases hnext'

end Among

end

end WitxFrontEnd
