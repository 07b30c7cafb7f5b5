import WitxFrontEnd.Proofs.Attribution
import WitxFrontEnd.Proofs.Exactness
import WitxFrontEnd.Proofs.LayoutIndependence
import WitxFrontEnd.Proofs.RoundTrip

/-!
# Parameters and results in any order

The slots of a function may be mixed: its parameters and its results are each a list of their own,
and a text that interleaves the two lists is read as both of them again, whatever the interleaving
(`Document.parse_interleaved`). Slots are given by their `Site`s, so that comments come with them.

The invariant is `SlotDocs`, which an interleaving keeps as it takes from the one list or from the
other. Reading follows it at the sites themselves (`Interleaves.moduleDecl`), and where else the
same tree stands, the same is read but for layout (`Entry.exists_of_sexpr`).
-/

namespace WitxFrontEnd

open View

/-! ## Interleavings -/

/-- The third list is made of the other two, each of which keeps its order in it. -/
inductive Interleaves {α : Type} : List α → List α → List α → Prop
  | nil : Interleaves [] [] []
  | left {a : α} {xs ys zs : List α} (h : Interleaves xs ys zs) :
      Interleaves (a :: xs) ys (a :: zs)
  | right {a : α} {xs ys zs : List α} (h : Interleaves xs ys zs) :
      Interleaves xs (a :: ys) (a :: zs)

/-- A slot of the kind, with the comments before it, as it may stand in a function of a module: the
two forms around it are counted in. -/
structure SlotAt (kind : Grammar.SlotKind) (s : Site) (d : Documented Field) : Prop where
  comments : AllComments s.comments
  documented : DocumentedAt (DerivesField kind.keyword) s d
  nesting : s.item.sexpr.depth + 2 ≤ Item.maxNesting

theorem SlotAt.isComment {kind : Grammar.SlotKind} {s : Site} {d : Documented Field}
    (h : SlotAt kind s d) : s.item.isComment = false := by
  obtain ⟨_, _, _, _, _, hform, -⟩ := Grammar.slot_complete h.documented.derives
  rw [← isComment_item (v := uncommented), hform]
  rfl

section

variable {P R zs : List Site} {params results : List (Documented Field)}

/-- What holds of all slots holds of those of an interleaving. -/
theorem Interleaves.forall_slots (h : Interleaves P R zs)
    (hparams : List.Forall₂ (SlotAt .param) P params)
    (hresults : List.Forall₂ (SlotAt .result) R results) {p : Site → Prop}
    (hp : ∀ {kind s d}, SlotAt kind s d → p s) : ∀ s ∈ zs, p s := by
  induction h generalizing params results with
  | nil => exact List.forall_mem_nil _
  | left h ih =>
    cases hparams with
    | cons hd hparams => exact List.forall_mem_cons.2 ⟨hp hd, ih hparams hresults⟩
  | right h ih =>
    cases hresults with
    | cons hd hresults => exact List.forall_mem_cons.2 ⟨hp hd, ih hparams hresults⟩

/-- Each step of an interleaving adds to the one list or to the other. -/
theorem Interleaves.slotDocs (h : Interleaves P R zs)
    (hparams : List.Forall₂ (SlotAt .param) P params)
    (hresults : List.Forall₂ (SlotAt .result) R results) : SlotDocs zs params results := by
  induction h generalizing params results with
  | nil =>
    cases hparams
    cases hresults
    exact .nil
  | left h ih =>
    cases hparams with
    | cons hd hparams => exact .param hd.documented (ih hparams hresults)
  | right h ih =>
    cases hresults with
    | cons hd hresults => exact .result hd.documented (ih hparams hresults)

end

/-! ## At the sites themselves -/

/-- One site behind the other. -/
theorem Sites.of_forall {ss : List Site} (hcomments : ∀ s ∈ ss, AllComments s.comments)
    (hitems : ∀ s ∈ ss, s.item.isComment = false) : Sites (ss.flatMap Site.items) ss [] := by
  induction ss with
  | nil => exact .trailing .nil
  | cons s ss ih =>
    obtain ⟨hcomment, hcomments⟩ := List.forall_mem_cons.1 hcomments
    obtain ⟨hitem, hitems⟩ := List.forall_mem_cons.1 hitems
    rw [List.flatMap_cons, Site.items, List.append_assoc]
    exact .site hcomment hitem (ih hcomments hitems)

/-- What is read at the sites is read, in their order and with their comments. -/
theorem Entry.documentedFrom_of_sites {α : Type} {entry : Entry α} {l : List Item} {ss : List Site}
    {behind : List Token} {ds : List (Documented α)} (h : Sites l ss behind)
    (hread : List.Forall₂ entry.ReadAt ss ds) : entry.documentedFrom [] l = .ok ds := by
  induction h generalizing ds with
  | @trailing run hrun =>
    cases hread
    exact documentedFrom_comments hrun
  | @site s rest ss behind hrun hitem h ih =>
    cases hread with
    | @cons _ d _ ds hd hread =>
      rw [documentedFrom_item hrun hitem, hd.read, ih hread]
      obtain ⟨comments, a⟩ := d
      cases hd.comments
      rfl

/-- So are they up to the end of a form. -/
theorem Rule.documented_of_sites {α : Type} {entry : Entry α} {l : List Item} {ss : List Site}
    {behind : List Token} {ds : List (Documented α)} (h : Sites l ss behind)
    (hread : List.Forall₂ entry.ReadAt ss ds) (closing : Span) :
    documented entry ⟨l, closing⟩ = .ok (ds, ⟨[], closing⟩) := by
  show (entry.documentedFrom [] l >>= fun ds => .ok (ds, (⟨[], closing⟩ : Cursor))) = _
  rw [Entry.documentedFrom_of_sites h hread]
  rfl

/-- A function of that name with those slots, standing nowhere. -/
def Item.func (name : String) (slots : List Item) : Item :=
  .form (.reserved "@interface" .nowhere :: .keyword "func" .nowhere ::
    .form [.keyword "export" .nowhere, .string name .nowhere] .nowhere .nowhere :: slots)
    .nowhere .nowhere

namespace Grammar

/-- Comments inside a slot do not keep it from being read. -/
theorem slotForm_of_documentedAt (kind : SlotKind) {s : Site} {d : Documented Field}
    (h : DocumentedAt (DerivesField kind.keyword) s d) (hitem : s.item.isComment = false) :
    Entry.form slotForm s.item = .ok (kind, d.item) := by
  obtain ⟨hbare, -⟩ := slotForm_follows _ (kind, d.item) h.derives
  rw [entryCommutes_form (commutes_slotForm uncommented) s.item hitem] at hbare
  obtain ⟨⟨kind', f⟩, hread, hslot⟩ := outcome_eq_ok hbare
  rw [Prod.map_apply, uncommented_field] at hslot
  rw [hread, ← hslot]
  rfl

/-- The converse of `slotDocs_of_readAt`. -/
theorem readAt_of_slotDocs {ss : List Site} {params results : List (Documented Field)}
    (h : SlotDocs ss params results) (hitems : ∀ s ∈ ss, s.item.isComment = false) :
    ∃ slots, List.Forall₂ (Entry.ReadAt (.form slotForm)) ss slots ∧
      slotsOf .param slots = params ∧ slotsOf .result slots = results := by
  induction h with
  | nil => exact ⟨[], .nil, rfl, rfl⟩
  | @param s d ss params results hd _ ih =>
    obtain ⟨hitem, hitems⟩ := List.forall_mem_cons.1 hitems
    obtain ⟨slots, hread, rfl, rfl⟩ := ih hitems
    have hslot := slotForm_of_documentedAt .param hd hitem
    exact ⟨⟨d.comments, .param, d.item⟩ :: slots, .cons ⟨hd.comments, hslot⟩ hread, rfl, rfl⟩
  | @result s d ss params results hd _ ih =>
    obtain ⟨hitem, hitems⟩ := List.forall_mem_cons.1 hitems
    obtain ⟨slots, hread, rfl, rfl⟩ := ih hitems
    have hslot := slotForm_of_documentedAt .result hd hitem
    exact ⟨⟨d.comments, .result, d.item⟩ :: slots, .cons ⟨hd.comments, hslot⟩ hread, rfl, rfl⟩

/-- A function's slots, wherever comments stand among them, are read as both of its lists. -/
theorem moduleDecl_of_slotDocs {l : List Item} {ss : List Site} {behind : List Token}
    {params results : List (Documented Field)} (hsites : Sites l ss behind)
    (hitems : ∀ s ∈ ss, s.item.isComment = false) (hslots : SlotDocs ss params results)
    (name : String) :
    Entry.form moduleDecl (Item.func name l) =
      .ok (.func ⟨name, .nowhere, params, results⟩) := by
  obtain ⟨slots, hread, rfl, rfl⟩ := readAt_of_slotDocs hslots hitems
  have hexport : exportForm ⟨[.keyword "export" .nowhere, .string name .nowhere], .nowhere⟩ =
      .ok (.string name .nowhere, ⟨[], .nowhere⟩) :=
    (Rule.bind_of_ok (Rule.keyword_cons _ _)).trans (Cursor.step_string _ _)
  have hdocumented := Rule.documented_of_sites hsites hread .nowhere
  have hfunc : interfaceFunc ⟨(Item.func name l).children, .nowhere⟩ =
      .ok (⟨name, .nowhere, slotsOf .param slots, slotsOf .result slots⟩, ⟨[], .nowhere⟩) :=
    (Rule.bind_of_ok (Rule.reserved_cons _ _)).trans <|
      (Rule.bind_of_ok (Rule.keyword_cons _ _)).trans <|
        (Rule.bind_of_ok (Rule.inForm_cons hexport)).trans <| Rule.bind_of_ok hdocumented
  exact Entry.form_cons (Rule.map_of_ok hfunc)

end Grammar

/-- At the sites of an interleaving both lists are read again. -/
theorem Interleaves.moduleDecl {P R zs : List Site} {params results : List (Documented Field)}
    (h : Interleaves P R zs) (hparams : List.Forall₂ (SlotAt .param) P params)
    (hresults : List.Forall₂ (SlotAt .result) R results) (name : String) :
    Entry.form Grammar.moduleDecl (Item.func name (zs.flatMap Site.items)) =
      .ok (.func ⟨name, .nowhere, params, results⟩) := by
  have hcomments := h.forall_slots hparams hresults SlotAt.comments
  have hitems := h.forall_slots hparams hresults SlotAt.isComment
  exact Grammar.moduleDecl_of_slotDocs (.of_forall hcomments hitems) hitems
    (h.slotDocs hparams hresults) name

/-! ## Where else the same tree stands -/

mutual

/-- From nowhere, items of one tree are the same. -/
theorem View.item_nowhere_of_sexpr : ∀ (i j : Item), i.sexpr = j.sexpr →
    nowhere.item i = nowhere.item j
  | .token ⟨kind, text, _⟩, .token ⟨kind', text', _⟩, h => by
    cases h
    rfl
  | .token _, .form .., h => nomatch h
  | .form .., .token _, h => nomatch h
  | .form l span closing, .form l' span' closing', h => by
    have hitems := items_nowhere_of_sexprs l l' (SExpr.form.inj h)
    rw [item, item, hitems]
    rfl

theorem View.items_nowhere_of_sexprs : ∀ l l' : List Item, Item.sexprs l = Item.sexprs l' →
    nowhere.items l = nowhere.items l'
  | [], [], _ => rfl
  | [], _ :: _, h => nomatch h
  | _ :: _, [], h => nomatch h
  | i :: l, j :: l', h => by
    obtain ⟨hi, hl⟩ := List.cons.inj h
    have hcons (k : Item) (rest : List Item) :
        nowhere.items (k :: rest) = nowhere.item k :: nowhere.items rest := by
      simp [items, nowhere]
    rw [hcons, hcons, item_nowhere_of_sexpr i j hi, items_nowhere_of_sexprs l l' hl]

end

theorem Item.isComment_of_sexpr {i j : Item} (h : i.sexpr = j.sexpr) :
    i.isComment = j.isComment := by
  rw [← isComment_item (v := View.nowhere), View.item_nowhere_of_sexpr i j h, isComment_item]

/-- A construct is read from an item as from any other item of the same tree, but for layout. -/
theorem Entry.exists_of_sexpr {α : Type} {f : α → α} {entry : Entry α}
    (hentry : View.nowhere.EntryCommutes f entry) {i j : Item} {b : α} (h : i.sexpr = j.sexpr)
    (hj : j.isComment = false) (hread : entry j = .ok b) : ∃ a, entry i = .ok a ∧ f a = f b := by
  have hview := hentry i (hj ▸ Item.isComment_of_sexpr h)
  rw [View.item_nowhere_of_sexpr i j h, hentry j hj, hread] at hview
  exact outcome_eq_ok hview.symm

/-- A module that declares one thing, standing nowhere. -/
def Item.moduleOf (ident : String) (decl : Item) : Item :=
  .form [.keyword "module" .nowhere, .token ⟨.identifier, ident, .nowhere⟩, decl] .nowhere .nowhere

/-- Where the tree of a function stands, a function equal to it is read. -/
theorem InterfaceFunc.exists_of_sexpr {i j : Item} {g : InterfaceFunc} (h : i.sexpr = j.sexpr)
    (hj : j.isComment = false) (hread : Entry.form Grammar.moduleDecl j = .ok (.func g)) :
    ∃ f, Entry.form Grammar.moduleDecl i = .ok (.func f) ∧ (f == g) = true := by
  obtain ⟨decl, hdecl, hview⟩ :=
    Entry.exists_of_sexpr (entryCommutes_form (commutes_moduleDecl View.nowhere)) h hj hread
  have herase (decl : ModuleDecl) : (View.nowhere.moduleDecl decl).erase = decl.erase :=
    (ModuleDecl.decides_erase.beq_iff _ _).1 (beq_moduleDecl rfl decl)
  have hbeq : (decl == .func g) = true := by
    rw [ModuleDecl.decides_erase.beq_iff, ← herase decl, hview, herase]
  cases decl with
  | moduleImport => cases hbeq
  | func f => exact ⟨f, hdecl, hbeq⟩

/-! ## In a source -/

/-- A single item without comments is a site. -/
theorem Sites.singleton {i : Item} (hi : i.isComment = false) : Sites [i] [⟨[], i⟩] [] :=
  .site (s := ⟨[], i⟩) .nil hi (.trailing .nil)

/-- A module is read around what it declares. -/
theorem Grammar.topLevel_of_moduleOf {ident : String} {i : Item} {decl : ModuleDecl}
    (hi : i.isComment = false) (h : Entry.form moduleDecl i = .ok decl) :
    Entry.form topLevel (Item.moduleOf ident i) =
      .ok (.module ⟨⟨String.ofList (ident.toList.drop 1), .nowhere, false⟩, [⟨[], decl⟩]⟩) := by
  have hdecls : Rule.documented (.form moduleDecl) ⟨[i], .nowhere⟩ =
      .ok ([⟨[], decl⟩], ⟨[], .nowhere⟩) :=
    Rule.documented_of_sites (.singleton hi) (.cons ⟨rfl, h⟩ .nil) .nowhere
  have hmodule : module ⟨[.keyword "module" .nowhere, .token ⟨.identifier, ident, .nowhere⟩, i],
      .nowhere⟩ = .ok (⟨⟨String.ofList (ident.toList.drop 1), .nowhere, false⟩, [⟨[], decl⟩]⟩,
        ⟨[], .nowhere⟩) :=
    (Rule.bind_of_ok (Rule.keyword_cons _ _)).trans <|
      (Rule.bind_of_ok (identifier_complete (.dollar ident .nowhere))).trans <|
        Rule.bind_of_ok hdecls
  exact Entry.form_cons (Rule.map_of_ok hmodule)

/-- A source that is cut into the tree of one declaration is the document of this declaration. -/
theorem Document.exists_parse_of_cut {i : Item} {decl : TopLevel} (hi : i.isComment = false)
    (h : Entry.form Grammar.topLevel i = .ok decl) (hdepth : i.sexpr.depth ≤ Item.maxNesting)
    {source : String} (hcut : Cut i.sexpr.symbols source.toList) (filename : Option String) :
    ∃ d, parse source filename = .ok d ∧ (d == ⟨[⟨[], decl⟩]⟩) = true := by
  obtain ⟨j, hread, hj⟩ := Item.exists_readAll_singleton hdepth hcut filename
  obtain ⟨decl', hdecl', hview⟩ :=
    Entry.exists_of_sexpr (entryCommutes_form (commutes_topLevel View.nowhere)) hj hi h
  refine ⟨⟨[⟨[], decl'⟩]⟩, ?_, beq_of_view ?_⟩
  · have hsites : Sites [j] [⟨[], j⟩] [] := .singleton (hi ▸ Item.isComment_of_sexpr hj)
    have hreadAt : List.Forall₂ (Entry.ReadAt (.form Grammar.topLevel)) [⟨[], j⟩]
        [⟨[], decl'⟩] := .cons ⟨rfl, hdecl'⟩ .nil
    rw [parse_eq, hread]
    show Document.mk <$> (Entry.form Grammar.topLevel).documentedFrom [] [j] = _
    rw [Entry.documentedFrom_of_sites hsites hreadAt]
    rfl
  · exact congrArg (fun decl : TopLevel => (⟨[⟨[], decl⟩]⟩ : Document)) hview

theorem Item.forestDepth_sexprs_le {l : List Item} {n : Nat} (h : ∀ i ∈ l, i.sexpr.depth ≤ n) :
    SExpr.forestDepth (sexprs l) ≤ n := by
  induction l with
  | nil => exact Nat.zero_le n
  | cons i l ih =>
    obtain ⟨hi, hl⟩ := List.forall_mem_cons.1 h
    exact Nat.max_le.2 ⟨hi, ih hl⟩

/-- Around slots that leave room for them, a function and a module are not too deep. -/
theorem Item.depth_moduleOf_func {ss : List Site}
    (h : ∀ s ∈ ss, s.item.sexpr.depth + 2 ≤ maxNesting) (ident name : String) :
    (moduleOf ident (func name (ss.flatMap Site.items))).sexpr.depth ≤ maxNesting := by
  have hslots : SExpr.forestDepth (sexprs (ss.flatMap Site.items)) ≤ maxNesting - 2 := by
    refine forestDepth_sexprs_le fun i hi => ?_
    obtain ⟨s, hs, hi⟩ := List.mem_flatMap.1 hi
    rcases List.mem_append.1 hi with hi | hi
    · obtain ⟨t, -, rfl⟩ := List.mem_map.1 hi
      exact Nat.zero_le _
    · rw [List.mem_singleton.1 hi]
      exact Nat.le_sub_of_add_le (h s hs)
  simp only [moduleOf, func, keyword, reserved, string, sexpr, sexprs, SExpr.depth,
    SExpr.forestDepth, maxNesting] at hslots ⊢
  omega

/-! ## Every interleaving -/

/-- Of whatever parameters and results, each with the comments before it, and in whatever
interleaving: wherever the function with these slots stands, it is read with these parameters and
these results, each list in its order and each slot with its own comments. In particular a source
that is cut into the function in a module is parsed so, and all interleavings are equal. -/
theorem Document.parse_interleaved {P R : List Site} {params results : List (Documented Field)}
    (hparams : List.Forall₂ (SlotAt .param) P params)
    (hresults : List.Forall₂ (SlotAt .result) R results) (name : String) :
    (∀ zs i, Interleaves P R zs → i.sexpr = (Item.func name (zs.flatMap Site.items)).sexpr →
      ∃ f, Entry.form Grammar.moduleDecl i = .ok (.func f) ∧ f.exportName = name ∧
        (f.params == params) = true ∧ (f.results == results) = true) ∧
    (∀ zs ident source filename, Interleaves P R zs →
      Cut (Item.moduleOf ident (Item.func name (zs.flatMap Site.items))).sexpr.symbols
        source.toList →
      ∃ d, parse source filename = .ok d ∧
        (d == ⟨[⟨[], .module ⟨⟨String.ofList (ident.toList.drop 1), .nowhere, false⟩,
          [⟨[], .func ⟨name, .nowhere, params, results⟩⟩]⟩⟩]⟩) = true) ∧
    ∀ zs zs' i i' f f', Interleaves P R zs → Interleaves P R zs' →
      i.sexpr = (Item.func name (zs.flatMap Site.items)).sexpr →
      i'.sexpr = (Item.func name (zs'.flatMap Site.items)).sexpr →
      Entry.form Grammar.moduleDecl i = .ok (.func f) →
      Entry.form Grammar.moduleDecl i' = .ok (.func f') → (f == f') = true ∧ hash f = hash f' := by
  have hread {zs : List Site} {i : Item} (h : Interleaves P R zs)
      (hi : i.sexpr = (Item.func name (zs.flatMap Site.items)).sexpr) :
      ∃ f, Entry.form Grammar.moduleDecl i = .ok (.func f) ∧
        (f == ⟨name, .nowhere, params, results⟩) = true :=
    InterfaceFunc.exists_of_sexpr hi rfl (h.moduleDecl hparams hresults name)
  refine ⟨fun zs i h hi => ?_, fun zs ident source filename h hcut => ?_,
    fun zs zs' i i' f f' h h' hi hi' hf hf' => ?_⟩
  · obtain ⟨f, hf, hbeq⟩ := hread h hi
    change (f.exportName == name && f.params == params && f.results == results) = true at hbeq
    rw [Bool.and_eq_true, Bool.and_eq_true, beq_iff_eq] at hbeq
    exact ⟨f, hf, hbeq.1.1, hbeq.1.2, hbeq.2⟩
  · have hdepth := Item.depth_moduleOf_func (h.forall_slots hparams hresults SlotAt.nesting) ident
      name
    exact exists_parse_of_cut rfl
      (Grammar.topLevel_of_moduleOf rfl (h.moduleDecl hparams hresults name)) hdepth hcut filename
  · obtain ⟨g, hg, hbeq⟩ := hread h hi
    obtain ⟨g', hg', hbeq'⟩ := hread h' hi'
    cases hf.symm.trans hg
    cases hf'.symm.trans hg'
    have hsame : (f == f') = true := by
      rw [InterfaceFunc.decides_erase.beq_iff] at hbeq hbeq' ⊢
      rw [hbeq, hbeq']
    exact ⟨hsame, InterfaceFunc.decides_erase.hash_eq_of_beq hsame⟩

/-- A slot for a byte, with its name in a comment before it. -/
def Site.ofName (kind : Grammar.SlotKind) (name : String) : Site :=
  ⟨[⟨.lineComment, ";;" ++ name, .nowhere⟩], .form [.keyword kind.keyword .nowhere,
    .token ⟨.identifier, "$" ++ name, .nowhere⟩, .keyword "u8" .nowhere] .nowhere .nowhere⟩

/-- What this slot documents. -/
def Field.ofName (name : String) : Documented Field :=
  ⟨[name], ⟨⟨name, .nowhere, false⟩, .scalar .u8⟩⟩

/-- A result between two parameters. -/
def Document.interleavedSource : String :=
  "(module $m (@interface func (export \"f\") ;;x\n(param $x u8) ;;r\n(result $r u8) " ++
    ";;y\n(param $y u8) ))"

theorem Document.parse_interleaved_result_between :
    List.Forall₂ (SlotAt .param) [.ofName .param "x", .ofName .param "y"]
        [Field.ofName "x", Field.ofName "y"] ∧
      List.Forall₂ (SlotAt .result) [.ofName .result "r"] [Field.ofName "r"] ∧
      ∃ d, parse interleavedSource none = .ok d ∧
        (d == ⟨[⟨[], .module ⟨⟨"m", .nowhere, false⟩, [⟨[], .func ⟨"f", .nowhere,
          [Field.ofName "x", Field.ofName "y"], [Field.ofName "r"]⟩⟩]⟩⟩]⟩) = true := by
  have hslot (kind : Grammar.SlotKind) (name : String)
      (htexts : (Site.ofName kind name).texts = [name])
      (hname : String.ofList (("$" ++ name).toList.drop 1) = name) :
      SlotAt kind (.ofName kind name) (Field.ofName name) := by
    refine ⟨List.forall_mem_singleton.2 rfl, ⟨htexts.symm, ?_⟩, ?_⟩
    · have hident := DerivesIdentifier.dollar ("$" ++ name) .nowhere
      rw [hname] at hident
      exact .slot (.identifier hident) (.scalar (.keyword .u8 .nowhere))
    · show 1 + 2 ≤ 200
      decide
  have hparams : List.Forall₂ (SlotAt .param) [.ofName .param "x", .ofName .param "y"]
      [Field.ofName "x", Field.ofName "y"] :=
    .cons (hslot .param "x" rfl rfl) (.cons (hslot .param "y" rfl rfl) .nil)
  have hresults : List.Forall₂ (SlotAt .result) [.ofName .result "r"] [Field.ofName "r"] :=
    .cons (hslot .result "r" rfl rfl) .nil
  have hinterleaves : Interleaves [Site.ofName .param "x", .ofName .param "y"]
      [.ofName .result "r"] [.ofName .param "x", .ofName .result "r", .ofName .param "y"] :=
    .left (.right (.left .nil))
  have hcutSlot (kind : Grammar.SlotKind) (name : String) (hname : Lexeme.IsAtom ("$" ++ name))
      (hline : '\n' ∉ name.toList) {symbols : List Symbol} {rest : List Char}
      (h : Cut symbols rest) :=
    have hkeyword : Lexeme.IsAtom kind.keyword := by cases kind <;> decide
    have hcomment := Symbol.Written.lineComment hline
    Cut.symbol hcomment (hcomment.stands fun c hc => by cases hc; exact ⟨rfl, fun _ => rfl⟩) <|
      .space rfl <| Cut.opening kind.keyword hkeyword <| Cut.wordSpace ("$" ++ name) hname <|
        Cut.word "u8" (by decide) (Lexeme.ends_atom ')' (by decide) _) <| Cut.rightParen <|
          .space (c := ' ') rfl h
  have hcut := Cut.opening "module" (by decide) <| Cut.wordSpace "$m" (by decide) <|
    Cut.opening "@interface" (by decide) <| Cut.wordSpace "func" (by decide) <|
      Cut.opening "export" (by decide) <|
        @Cut.identifier _ _ ⟨"f", .nowhere, true⟩ (.inl rfl) (Lexeme.ends_atom ')' (by decide) _) <|
          Cut.rightParen <| .space (c := ' ') rfl <|
            hcutSlot .param "x" (by decide) (by decide) <|
              hcutSlot .result "r" (by decide) (by decide) <|
                hcutSlot .param "y" (by decide) (by decide) <|
                  Cut.rightParen <| Cut.rightParen .nil
  have hsource : Cut (Item.moduleOf "$m" (Item.func "f" ([Site.ofName .param "x",
      .ofName .result "r", .ofName .param "y"].flatMap Site.items))).sexpr.symbols
        interleavedSource.toList :=
    (congrArg₂ Cut (by decide +kernel) (by decide +kernel)).mp hcut
  exact ⟨hparams, hresults,
    (parse_interleaved hparams hresults "f").2.1 _ "$m" _ none hinterleaves hsource⟩

end WitxFrontEnd
