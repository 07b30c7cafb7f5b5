import WitxFrontEnd.Proofs.Layout
import WitxFrontEnd.Proofs.Sites
import WitxFrontEnd.Proofs.Soundness

/-!
# Comments belong to the construct behind them

Every documented construct of a document stands at a site of the source, and its comments are those
of the site. `DocumentDocs` says so for a whole document and gathers the sites, in the order of the
source, also where a function's slots were dealt out to parameters and results. What one rule takes
from a cursor is one item with the comments before it (`Cursor.Takes`); so the items of a form are
cut where its rule steps, and a list of constructs goes on with the sites that are left.
`Document.parse_attribution` adds which comments of the source are attached.
-/

namespace WitxFrontEnd

open View

/-! ## The sites of documented constructs -/

/-- The construct is the one at the site, and it has the comments there. -/
structure DocumentedAt {α : Type} (Derives : Item → α → Prop) (s : Site) (d : Documented α) :
    Prop where
  comments : d.comments = s.texts
  derives : Derives (uncommented.item s.item) d.item

/-- The members or fields of the definition that an item is, at their sites. A definition of another
kind has no documented constructs in it. -/
inductive TypedefDocs : Item → Typedef → List Site → Prop
  | alias {i : Item} {type : Datatype} : TypedefDocs i (.alias type) []
  | enum {children : List Item} {span closing : Span} {word scalar : Site} {ss : List Site}
      {behind : List Token} {repr : Scalar} {members : List (Documented Identifier)}
      (hsites : Sites children (word :: scalar :: ss) behind)
      (hmembers : List.Forall₂ (DocumentedAt DerivesIdentifier) ss members) :
      TypedefDocs (.form children span closing) (.enum repr members) ss
  | flags {children : List Item} {span closing : Span} {word scalar : Site} {ss : List Site}
      {behind : List Token} {repr : Scalar} {members : List (Documented Identifier)}
      (hsites : Sites children (word :: scalar :: ss) behind)
      (hmembers : List.Forall₂ (DocumentedAt DerivesIdentifier) ss members) :
      TypedefDocs (.form children span closing) (.flags repr members) ss
  | struct {children : List Item} {span closing : Span} {word : Site} {ss : List Site}
      {behind : List Token} {fields : List (Documented Field)}
      (hsites : Sites children (word :: ss) behind)
      (hfields : List.Forall₂ (DocumentedAt (DerivesField "field")) ss fields) :
      TypedefDocs (.form children span closing) (.struct fields) ss
  | union {children : List Item} {span closing : Span} {word : Site} {ss : List Site}
      {behind : List Token} {fields : List (Documented Field)}
      (hsites : Sites children (word :: ss) behind)
      (hfields : List.Forall₂ (DocumentedAt (DerivesField "field")) ss fields) :
      TypedefDocs (.form children span closing) (.union fields) ss
  | handle {i : Item} {supertypes : List Identifier} : TypedefDocs i (.handle supertypes) []

/-- The slots of a function at their sites, the parameters and the results each in order. -/
inductive SlotDocs : List Site → List (Documented Field) → List (Documented Field) → Prop
  | nil : SlotDocs [] [] []
  | param {s : Site} {d : Documented Field} {ss : List Site}
      {params results : List (Documented Field)} (h : DocumentedAt (DerivesField "param") s d)
      (hs : SlotDocs ss params results) : SlotDocs (s :: ss) (d :: params) results
  | result {s : Site} {d : Documented Field} {ss : List Site}
      {params results : List (Documented Field)} (h : DocumentedAt (DerivesField "result") s d)
      (hs : SlotDocs ss params results) : SlotDocs (s :: ss) params (d :: results)

/-- The slots of the declaration that an item is, at their sites. -/
inductive ModuleDeclDocs : Item → ModuleDecl → List Site → Prop
  | moduleImport {i : Item} {decl : ModuleImport} : ModuleDeclDocs i (.moduleImport decl) []
  | func {children : List Item} {span closing : Span} {word func export_ : Site} {ss : List Site}
      {behind : List Token} {decl : InterfaceFunc}
      (hsites : Sites children (word :: func :: export_ :: ss) behind)
      (hslots : SlotDocs ss decl.params decl.results) :
      ModuleDeclDocs (.form children span closing) (.func decl) ss

/-- Constructs at their sites. Those within a construct have theirs behind its own. -/
inductive EachDocs {α : Type} (Derives : Item → α → Prop) (Docs : Item → α → List Site → Prop) :
    List Site → List (Documented α) → List Site → Prop
  | nil : EachDocs Derives Docs [] [] []
  | cons {s : Site} {d : Documented α} {ss inner sites : List Site} {ds : List (Documented α)}
      (h : DocumentedAt Derives s d) (hinner : Docs s.item d.item inner)
      (hs : EachDocs Derives Docs ss ds sites) :
      EachDocs Derives Docs (s :: ss) (d :: ds) (s :: (inner ++ sites))

/-- The documented constructs in the declaration that an item is, at their sites. -/
inductive TopLevelDocs : Item → TopLevel → List Site → Prop
  | use {i : Item} {path : String} : TopLevelDocs i (.use path) []
  | typename {children : List Item} {span closing : Span} {word name definition : Site}
      {behind : List Token} {sites : List Site} {decl : Typename}
      (hsites : Sites children [word, name, definition] behind)
      (hdefinition : TypedefDocs definition.item decl.definition sites) :
      TopLevelDocs (.form children span closing) (.typename decl) sites
  | module {children : List Item} {span closing : Span} {word name : Site} {ss sites : List Site}
      {behind : List Token} {decl : Module} (hsites : Sites children (word :: name :: ss) behind)
      (hdecls : EachDocs (fun i a => DerivesModuleDecl i (uncommented.moduleDecl a)) ModuleDeclDocs
        ss decl.decls sites) :
      TopLevelDocs (.form children span closing) (.module decl) sites

/-- The documented constructs of a document that some items are, at their sites. -/
def DocumentDocs (items : List Item) (d : Document) (sites : List Site) : Prop :=
  ∃ ss behind, Sites items ss behind ∧
    EachDocs (fun i a => DerivesTopLevel i (uncommented.topLevel a)) TopLevelDocs ss d.items sites

/-! ## Sites in order -/

/-- The sites of a definition's members are within its form. -/
theorem TypedefDocs.among {i : Item} {definition : Typedef} {sites : List Site}
    (h : TypedefDocs i definition sites) : Among sites i.children := by
  cases h with
  | «alias» | handle => exact .nil _
  | enum hsites | flags hsites => exact hsites.among (List.sublist_append_right [_, _] _)
  | struct hsites | union hsites => exact hsites.among (List.sublist_append_right [_] _)

/-- The sites of a function's slots are within its form. -/
theorem ModuleDeclDocs.among {i : Item} {decl : ModuleDecl} {sites : List Site}
    (h : ModuleDeclDocs i decl sites) : Among sites i.children := by
  cases h with
  | moduleImport => exact .nil _
  | func hsites => exact hsites.among (List.sublist_append_right [_, _, _] _)

/-- The sites of constructs and of what is within them, if the constructs are at some of the sites
of a level. -/
theorem EachDocs.among {α : Type} {Derives : Item → α → Prop} {Docs : Item → α → List Site → Prop}
    {l : List Item} {all ss sites : List Site} {behind : List Token} {ds : List (Documented α)}
    (h : EachDocs Derives Docs ss ds sites) (hsites : Sites l all behind) (hsub : ss.Sublist all)
    (hdocs : ∀ {i a inner}, Docs i a inner → Among inner i.children) : Among sites l := by
  have hparts : (∀ s ∈ sites, s.Within l) ∧
      (sites.flatMap Site.items).Sublist (ss.flatMap Site.preorder) := by
    induction h with
    | nil => exact ⟨nofun, .slnil⟩
    | @cons s d ss inner sites ds hs hinner hrest ih =>
      obtain ⟨hwithin, hinOrder⟩ := ih ((List.sublist_cons_self _ _).trans hsub)
      have hmem : s ∈ all := hsub.subset List.mem_cons_self
      have hamong := hdocs hinner
      constructor
      · simp only [List.mem_cons, List.mem_append]
        rintro s' (rfl | hs' | hs')
        · exact (hsites.among (.refl _)).within s' hmem
        · exact hsites.within hmem (hamong.within s' hs')
        · exact hwithin s' hs'
      · have hitem := hamong.inOrder.cons_cons s.item
        rw [← Item.preorder_eq_cons] at hitem
        have hsite := ((List.Sublist.refl (s.comments.map .token)).append hitem).append hinOrder
        simpa [Site.items, Site.preorder] using hsite
  refine ⟨hparts.1, hparts.2.trans ?_⟩
  rw [hsites.preorderAll_eq]
  exact (hsub.flatMap _).trans (List.sublist_append_left _ _)

/-- The sites of all that is documented in a declaration are within its form. -/
theorem TopLevelDocs.among {i : Item} {decl : TopLevel} {sites : List Site}
    (h : TopLevelDocs i decl sites) : Among sites i.children := by
  cases h with
  | use => exact .nil _
  | typename hsites hdefinition =>
    exact hsites.among_children (by simp) hdefinition.among
  | module hsites hdecls =>
    exact hdecls.among hsites (List.sublist_append_right [_, _] _) ModuleDeclDocs.among

/-! ## What a rule takes -/

namespace Cursor

variable {c rest : Cursor} {i : Item}

/-- Before the sites that are left there is one for the item that was taken. -/
theorem Takes.sites (h : c.Takes i rest) {ss : List Site} {behind : List Token}
    (hrest : Sites rest.items ss behind) :
    ∃ s : Site, s.item = i ∧ Sites c.items (s :: ss) behind := by
  obtain ⟨run, hrun, hitems⟩ := h.items
  exact ⟨⟨run, i⟩, rfl, hitems ▸ .site (s := ⟨run, i⟩) hrun h.shown hrest⟩

end Cursor

namespace Rule

variable {α : Type} {c rest : Cursor}

/-- Taking a keyword takes one item. -/
theorem takes_of_keyword {word : String} {u : Unit} (h : keyword word c = .ok (u, rest)) :
    ∃ i, c.Takes i rest := by
  obtain ⟨i, mid, hs, hk⟩ := bind_ok h
  cases hk
  exact ⟨i, (Cursor.takes_of_step hs).1⟩

/-- Taking a reserved word takes one item. -/
theorem takes_of_reserved {word : String} {u : Unit} (h : reserved word c = .ok (u, rest)) :
    ∃ i, c.Takes i rest := by
  obtain ⟨i, mid, hs, hk⟩ := bind_ok h
  cases hk
  exact ⟨i, (Cursor.takes_of_step hs).1⟩

/-- A rule inside a form takes the form, whose items it uses up. -/
theorem takes_of_inForm {r : Rule α} {a : α} (h : inForm r c = .ok (a, rest)) :
    ∃ inner last span, r inner = .ok (a, last) ∧ bare last.items = [] ∧
      c.Takes (.form inner.items span inner.closing) rest := by
  obtain ⟨inner, last, he, hr, hl⟩ := inForm_enter_ok h
  obtain ⟨span, htakes⟩ := Cursor.takes_of_enter he
  exact ⟨inner, last, span, hr, hl, htakes⟩

end Rule

/-- If nothing but comments is left, no site is left. -/
theorem Sites.of_bare_eq_nil {l : List Item} (h : bare l = []) : ∃ behind, Sites l [] behind := by
  obtain ⟨ss, behind, hsites⟩ := Sites.exists_of l
  cases hsites with
  | trailing hrun => exact ⟨behind, .trailing hrun⟩
  | site hrun hitem h' =>
    rw [← bare_skipComments, hrun.skip hitem, bare, items_cons_of_not_isComment hitem] at h
    cases h

/-! ## Lists of constructs -/

/-- The construct was read from the site. -/
structure Entry.ReadAt {α : Type} (entry : Entry α) (s : Site) (d : Documented α) : Prop where
  comments : d.comments = s.texts
  read : entry s.item = .ok d.item

section

variable {α : Type} {entry : Entry α}

/-- The constructs of some items are read from their sites, one from each. -/
theorem Entry.sites_of_documentedFrom {run : List Token} (hrun : AllComments run) {l : List Item}
    {ds : List (Documented α)}
    (h : entry.documentedFrom (run.filterMap Token.comment?) l = .ok ds) :
    ∃ ss behind, Sites (run.map .token ++ l) ss behind ∧ List.Forall₂ entry.ReadAt ss ds := by
  induction l generalizing run ds with
  | nil =>
    cases h
    exact ⟨[], run, by rw [List.append_nil]; exact .trailing hrun, .nil⟩
  | cons i rest ih =>
    rw [documentedFrom] at h
    have hsome := Item.isSome_comment? i
    cases hc : i.comment? with
    | some text =>
      cases i with
      | form => cases hc
      | token t =>
        rw [hc] at h hsome
        dsimp only at h
        have hrun' : AllComments (run ++ [t]) :=
          List.forall_mem_append.2 ⟨hrun, List.forall_mem_singleton.2 hsome.symm⟩
        have htexts : (run ++ [t]).filterMap Token.comment? =
            run.filterMap Token.comment? ++ [text] := by
          rw [List.filterMap_append, List.filterMap_cons, show t.comment? = some text from hc]
          rfl
        rw [← htexts] at h
        obtain ⟨ss, behind, hsites, hread⟩ := ih hrun' h
        refine ⟨ss, behind, ?_, hread⟩
        rwa [List.map_append, List.append_assoc] at hsites
    | none =>
      rw [hc] at h hsome
      obtain ⟨a, he, h⟩ := bind_eq_ok h
      obtain ⟨more, hm, h⟩ := bind_eq_ok h
      cases h
      obtain ⟨ss, behind, hsites, hread⟩ := ih .nil hm
      exact ⟨⟨run, i⟩ :: ss, behind, .site (s := ⟨run, i⟩) hrun hsome.symm hsites,
        .cons ⟨rfl, he⟩ hread⟩

/-- Documented constructs are read at the sites that are left of a form, one at each. -/
theorem Rule.sites_of_documented {c rest : Cursor} {ds : List (Documented α)}
    (h : documented entry c = .ok (ds, rest)) :
    ∃ ss behind, Sites c.items ss behind ∧ List.Forall₂ entry.ReadAt ss ds :=
  Entry.sites_of_documentedFrom .nil (documentedFrom_ok h).1

/-- Constructs that are read have their sites, and those within them. -/
theorem EachDocs.of_readAt {Derives : Item → α → Prop} {Docs : Item → α → List Site → Prop}
    (hentry : ∀ i a, entry i = .ok a → Derives (uncommented.item i) a ∧ ∃ inner, Docs i a inner)
    {ss : List Site} {ds : List (Documented α)} (h : List.Forall₂ entry.ReadAt ss ds) :
    ∃ sites, EachDocs Derives Docs ss ds sites := by
  induction h with
  | nil => exact ⟨[], .nil⟩
  | cons hread hs ih =>
    obtain ⟨hderives, inner, hinner⟩ := hentry _ _ hread.read
    obtain ⟨sites, hsites⟩ := ih
    exact ⟨_, .cons ⟨hread.comments, hderives⟩ hinner hsites⟩

end

/-! ## The grammar -/

namespace Grammar

variable {c rest : Cursor}

/-- Reading an identifier takes one item. -/
theorem takes_of_identifier {ident : Identifier} (h : identifier c = .ok (ident, rest)) :
    ∃ i, c.Takes i rest := by
  obtain ⟨i, mid, hs, hk⟩ := Rule.bind_ok h
  cases hk
  exact ⟨i, (Cursor.takes_of_step hs).1⟩

/-- Reading a scalar takes one item. -/
theorem takes_of_scalar {type : Scalar} (h : scalar c = .ok (type, rest)) :
    ∃ i, c.Takes i rest := by
  obtain ⟨branch, hbranch, h⟩ := Rule.choose_ok h
  obtain ⟨type', _, rfl⟩ := List.mem_map.1 hbranch
  obtain ⟨_, mid, hk, hp⟩ := Rule.bind_ok h
  cases hp
  exact Rule.takes_of_keyword hk

/-- Reading a datatype takes one item. -/
theorem takes_of_datatype {type : Datatype} (h : datatype c = .ok (type, rest)) :
    ∃ i, c.Takes i rest := by
  rw [datatype_eq] at h
  split at h
  · obtain ⟨ident, mid, hi, hp⟩ := Rule.bind_ok h
    cases hp
    exact takes_of_identifier hi
  split at h
  · obtain ⟨inner, last, span, -, -, htakes⟩ := Rule.takes_of_inForm h
    exact ⟨_, htakes⟩
  split at h
  · obtain ⟨inner, last, span, -, -, htakes⟩ := Rule.takes_of_inForm h
    exact ⟨_, htakes⟩
  · obtain ⟨type, mid, hs, hp⟩ := Rule.bind_ok h
    cases hp
    exact takes_of_scalar hs

/-- Members are documented by what stands before them. -/
theorem documentedAt_members {ss : List Site} {members : List (Documented Identifier)}
    (h : List.Forall₂ (Entry.ReadAt identifierEntry) ss members) :
    List.Forall₂ (DocumentedAt DerivesIdentifier) ss members :=
  h.imp fun _ _ hread => ⟨hread.comments, identifierEntry_sound _ _ hread.read⟩

/-- Fields are documented by what stands before them. -/
theorem documentedAt_fields {ss : List Site} {fields : List (Documented Field)}
    (h : List.Forall₂ (Entry.ReadAt (.form fieldForm)) ss fields) :
    List.Forall₂ (DocumentedAt (DerivesField "field")) ss fields :=
  h.imp fun _ d hread =>
    ⟨hread.comments, by rw [← uncommented_field d.item]; exact fieldForm_sound _ _ hread.read⟩

/-- Behind the word of a definition, and behind its representation if it has one, every item that
is no comment is a member or a field. -/
theorem typedefForm_docs {definition : Typedef} (h : typedefForm c = .ok (definition, rest))
    (span closing : Span) : ∃ sites, TypedefDocs (.form c.items span closing) definition sites := by
  obtain ⟨branch, hbranch, h⟩ := Rule.choose_ok h
  simp only [List.mem_cons, List.not_mem_nil, or_false] at hbranch
  rcases hbranch with rfl | rfl | rfl | rfl | rfl <;>
    obtain ⟨_, mid, hk, h⟩ := Rule.bind_ok h <;>
    obtain ⟨word, hword⟩ := Rule.takes_of_keyword hk
  · obtain ⟨repr, mid', hs, h⟩ := Rule.bind_ok h
    obtain ⟨members, last, hm, hp⟩ := Rule.bind_ok h
    cases hp
    obtain ⟨i, hscalar⟩ := takes_of_scalar hs
    obtain ⟨ss, behind, hsites, hread⟩ :=
      Rule.sites_of_documented (Rule.documented_of_documentedSome hm).1
    obtain ⟨_, -, hsites⟩ := hscalar.sites hsites
    obtain ⟨_, -, hsites⟩ := hword.sites hsites
    exact ⟨ss, .enum hsites (documentedAt_members hread)⟩
  · obtain ⟨repr, mid', hs, h⟩ := Rule.bind_ok h
    obtain ⟨members, last, hm, hp⟩ := Rule.bind_ok h
    cases hp
    obtain ⟨i, hscalar⟩ := takes_of_scalar hs
    obtain ⟨ss, behind, hsites, hread⟩ := Rule.sites_of_documented hm
    obtain ⟨_, -, hsites⟩ := hscalar.sites hsites
    obtain ⟨_, -, hsites⟩ := hword.sites hsites
    exact ⟨ss, .flags hsites (documentedAt_members hread)⟩
  · obtain ⟨fields, last, hm, hp⟩ := Rule.bind_ok h
    cases hp
    obtain ⟨ss, behind, hsites, hread⟩ :=
      Rule.sites_of_documented (Rule.documented_of_documentedSome hm).1
    obtain ⟨_, -, hsites⟩ := hword.sites hsites
    exact ⟨ss, .struct hsites (documentedAt_fields hread)⟩
  · obtain ⟨fields, last, hm, hp⟩ := Rule.bind_ok h
    cases hp
    obtain ⟨ss, behind, hsites, hread⟩ :=
      Rule.sites_of_documented (Rule.documented_of_documentedSome hm).1
    obtain ⟨_, -, hsites⟩ := hword.sites hsites
    exact ⟨ss, .union hsites (documentedAt_fields hread)⟩
  · obtain ⟨ids, last, hm, hp⟩ := Rule.bind_ok h
    cases hp
    exact ⟨[], .handle⟩

/-- A type definition is read from one item, and its members are at their sites. -/
theorem typedef_docs {definition : Typedef} (h : typedef c = .ok (definition, rest)) :
    ∃ i sites, c.Takes i rest ∧ TypedefDocs i definition sites := by
  rw [typedef_eq] at h
  split at h
  · obtain ⟨type, mid, ht, hp⟩ := Rule.bind_ok h
    cases hp
    obtain ⟨i, htakes⟩ := takes_of_datatype ht
    exact ⟨i, [], htakes, .alias⟩
  · obtain ⟨inner, last, span, hr, -, htakes⟩ := Rule.takes_of_inForm h
    obtain ⟨sites, hsites⟩ := typedefForm_docs hr span inner.closing
    exact ⟨_, sites, htakes, hsites⟩

/-- Dealt out to parameters and results, slots keep their comments. -/
theorem slotDocs_of_readAt {ss : List Site} {slots : List (Documented (SlotKind × Field))}
    (h : List.Forall₂ (Entry.ReadAt (.form slotForm)) ss slots) :
    SlotDocs ss (slotsOf .param slots) (slotsOf .result slots) := by
  induction h with
  | nil => exact .nil
  | @cons s d ss slots hread hs ih =>
    have hslot := slotForm_sound _ _ hread.read
    have hcomments := hread.comments
    obtain ⟨comments, kind, f⟩ := d
    cases kind with
    | param => exact .param ⟨hcomments, hslot⟩ ih
    | result => exact .result ⟨hcomments, hslot⟩ ih

/-- Behind the words and the export of a function, every item that is no comment is a slot. -/
theorem interfaceFunc_docs {decl : InterfaceFunc} (h : interfaceFunc c = .ok (decl, rest))
    (span closing : Span) :
    ∃ sites, ModuleDeclDocs (.form c.items span closing) (.func decl) sites := by
  obtain ⟨_, mid, hr, h⟩ := Rule.bind_ok h
  obtain ⟨_, mid', hk, h⟩ := Rule.bind_ok h
  obtain ⟨name, behind, hf, h⟩ := Rule.bind_ok h
  obtain ⟨slots, last, hs, hp⟩ := Rule.bind_ok h
  cases hp
  obtain ⟨word, hword⟩ := Rule.takes_of_reserved hr
  obtain ⟨func, hfunc⟩ := Rule.takes_of_keyword hk
  obtain ⟨inner, end_, span', -, -, hexport⟩ := Rule.takes_of_inForm hf
  obtain ⟨ss, behind, hsites, hread⟩ := Rule.sites_of_documented hs
  obtain ⟨_, -, hsites⟩ := hexport.sites hsites
  obtain ⟨_, -, hsites⟩ := hfunc.sites hsites
  obtain ⟨_, -, hsites⟩ := hword.sites hsites
  exact ⟨ss, .func hsites (slotDocs_of_readAt hread)⟩

/-- The slots of a declaration inside a module are at their sites. -/
theorem moduleDecl_docs (i : Item) (decl : ModuleDecl) (h : Entry.form moduleDecl i = .ok decl) :
    ∃ sites, ModuleDeclDocs i decl sites := by
  obtain ⟨children, span, closing, last, rfl, hr, -⟩ := Entry.form_read h
  obtain ⟨branch, hbranch, hr⟩ := Rule.choose_ok hr
  simp only [List.mem_cons, List.not_mem_nil, or_false] at hbranch
  rcases hbranch with rfl | rfl
  · obtain ⟨decl, hd, rfl⟩ := Rule.map_ok hr
    exact ⟨[], .moduleImport⟩
  · obtain ⟨decl, hd, rfl⟩ := Rule.map_ok hr
    exact interfaceFunc_docs hd span closing

/-- Behind the word and the name of a module, every item that is no comment is a declaration. -/
theorem module_docs {decl : Module} (h : module c = .ok (decl, rest)) (span closing : Span) :
    ∃ sites, TopLevelDocs (.form c.items span closing) (.module decl) sites := by
  obtain ⟨_, mid, hk, h⟩ := Rule.bind_ok h
  obtain ⟨ident, mid', hi, h⟩ := Rule.bind_ok h
  obtain ⟨decls, last, hd, hp⟩ := Rule.bind_ok h
  cases hp
  obtain ⟨word, hword⟩ := Rule.takes_of_keyword hk
  obtain ⟨name, hname⟩ := takes_of_identifier hi
  obtain ⟨ss, behind, hsites, hread⟩ := Rule.sites_of_documented hd
  obtain ⟨_, -, hsites⟩ := hname.sites hsites
  obtain ⟨_, -, hsites⟩ := hword.sites hsites
  obtain ⟨sites, hdecls⟩ : ∃ sites, EachDocs
      (fun i a => DerivesModuleDecl i (uncommented.moduleDecl a)) ModuleDeclDocs ss decls sites :=
    EachDocs.of_readAt (fun i a ha => ⟨moduleDecl_sound i a ha, moduleDecl_docs i a ha⟩) hread
  exact ⟨sites, .module hsites hdecls⟩

/-- The members in a type name's definition are at their sites. -/
theorem typename_docs {decl : Typename} (h : typename c = .ok (decl, rest))
    (hrest : bare rest.items = []) (span closing : Span) :
    ∃ sites, TopLevelDocs (.form c.items span closing) (.typename decl) sites := by
  obtain ⟨_, mid, hk, h⟩ := Rule.bind_ok h
  obtain ⟨ident, mid', hi, h⟩ := Rule.bind_ok h
  obtain ⟨definition, last, hd, hp⟩ := Rule.bind_ok h
  cases hp
  obtain ⟨word, hword⟩ := Rule.takes_of_keyword hk
  obtain ⟨name, hname⟩ := takes_of_identifier hi
  obtain ⟨i, sites, hdefinition, hdocs⟩ := typedef_docs hd
  obtain ⟨behind, hsites⟩ := Sites.of_bare_eq_nil hrest
  obtain ⟨s, rfl, hsites⟩ := hdefinition.sites hsites
  obtain ⟨_, -, hsites⟩ := hname.sites hsites
  obtain ⟨_, -, hsites⟩ := hword.sites hsites
  exact ⟨sites, .typename hsites hdocs⟩

/-- All that is documented in a declaration of a document is at its site. -/
theorem topLevel_docs (i : Item) (decl : TopLevel) (h : Entry.form topLevel i = .ok decl) :
    ∃ sites, TopLevelDocs i decl sites := by
  obtain ⟨children, span, closing, last, rfl, hr, hl⟩ := Entry.form_read h
  unfold topLevel at hr
  rw [Rule.peek_bind] at hr
  split at hr
  · obtain ⟨path, hu, rfl⟩ := Rule.map_ok hr
    exact ⟨[], .use⟩
  · obtain ⟨branch, hbranch, hr⟩ := Rule.choose_ok hr
    simp only [List.mem_cons, List.not_mem_nil, or_false] at hbranch
    rcases hbranch with rfl | rfl
    · obtain ⟨decl, hd, rfl⟩ := Rule.map_ok hr
      exact module_docs hd span closing
    · obtain ⟨decl, hd, rfl⟩ := Rule.map_ok hr
      exact typename_docs hd hl span closing

end Grammar

/-! ## Documents -/

/-- In every document that a source is read as, the documented constructs stand at sites of the
source, with the comments there. No comment of the source is attached to two of them, and a comment
is attached if and only if the next item of its form that is no comment is one of them. -/
theorem Document.parse_attribution {source : String} {filename : Option String} {d : Document}
    (h : parse source filename = .ok d) :
    ∃ items attached, Item.readAll source filename = .ok items ∧ DocumentDocs items d attached ∧
      (attached.flatMap Site.comments).Nodup ∧
      ∀ level before t after, Level items level → level = before ++ .token t :: after →
        t.kind.isComment = true → ((∃ s ∈ attached, t ∈ s.comments) ↔
          ∃ s ∈ attached, (Cursor.skipComments after).head? = some s.item) := by
  obtain ⟨items, hitems, hread⟩ := parse_ok h
  have hnodup := Item.nodup_preorderAll hitems
  obtain ⟨ss, behind, hsites, hread⟩ := Entry.sites_of_documentedFrom .nil hread
  obtain ⟨attached, hdocs⟩ : ∃ attached, EachDocs
      (fun i a => DerivesTopLevel i (uncommented.topLevel a)) TopLevelDocs ss d.items attached :=
    EachDocs.of_readAt
      (fun i a ha => ⟨Grammar.topLevel_sound i a ha, Grammar.topLevel_docs i a ha⟩) hread
  have hamong := hdocs.among hsites (.refl _) TopLevelDocs.among
  exact ⟨items, attached, hitems, ⟨ss, behind, hsites, hdocs⟩, hamong.nodup_comments hnodup,
    fun level before t after hlevel hl ht => hamong.mem_comments_iff hnodup hlevel hl ht⟩

/-- A function with a result before its parameter, and comments wherever they may stand. -/
def Document.sampleSource : String :=
  "(module $m (;a;) (@interface func (export \"f\") ;;b
    (result $r u8) (;c;)(;d;) (param $p u8) (;e;)))"

/-- What the sample declares, up to layout. The comment behind the last slot is attached to
nothing. -/
def Document.sample : Document :=
  ⟨[⟨[], .module ⟨⟨"m", .nowhere, false⟩, [⟨["a"], .func ⟨"f", .nowhere,
    [⟨["c", "d"], ⟨"p", .nowhere, false⟩, .scalar .u8⟩],
    [⟨["b"], ⟨"r", .nowhere, false⟩, .scalar .u8⟩]⟩⟩]⟩⟩]⟩

/-- A sample with comments before, between and behind its constructs. -/
theorem Document.parse_attribution_sample :
    ∃ d items attached, parse sampleSource none = .ok d ∧ (d == sample) = true ∧
      DocumentDocs items d attached ∧ (attached.flatMap Site.comments).Nodup := by
  have hread : (parse sampleSource none).toOption.map (· == sample) = some true := by
    decide +kernel
  cases hd : parse sampleSource none with
  | error e => rw [hd] at hread; cases hread
  | ok d =>
    rw [hd] at hread
    obtain ⟨items, attached, -, hdocs, hnodup, -⟩ := parse_attribution hd
    exact ⟨d, items, attached, rfl, Option.some.inj hread, hdocs, hnodup⟩

end WitxFrontEnd
