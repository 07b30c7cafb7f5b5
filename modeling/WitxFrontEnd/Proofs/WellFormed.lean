import WitxFrontEnd.Proofs.Attribution
import WitxFrontEnd.Proofs.Writable

/-!
# Parsed trees are well-formed

Every tree that is read from a source is well-formed (`Document.WellFormed`, `Typedef.WellFormed`,
`Datatype.Dollar`): only fields, parameters and results have quoted names, all other names are
atoms, enumerations, structures and unions are not empty, and comments can be written again. What
the scanner makes sure of (`Token.Sound`) is handed on by the rules of the grammar: what a rule
gives for sound tokens (`Rule.Gives`) is stated for each way to put rules together, and then for
each rule.
-/

namespace WitxFrontEnd

variable {α β : Type}

/-! ## Well-formed trees -/

/-- The comments can be written again, and the construct is what it has to be. -/
structure Documented.WellFormed (P : α → Prop) (d : Documented α) : Prop where
  comments : ∀ text ∈ d.comments, Documentation.Rewritable text
  item : P d.item

/-- The name is a string, or it has a dollar sign. -/
def Identifier.Named (ident : Identifier) : Prop :=
  ident.quoted = true ∨ ident.Dollar

/-- The name of a field may be a string, those in its type may not. -/
structure Field.WellFormed (f : Field) : Prop where
  name : f.name.Named
  type : f.type.Dollar

/-- No names are strings but those of fields, and nothing is empty but flags and handles. -/
def Typedef.WellFormed : Typedef → Prop
  | .alias type => type.Dollar
  | .enum _ members => members ≠ [] ∧ ∀ d ∈ members, d.WellFormed Identifier.Dollar
  | .flags _ members => ∀ d ∈ members, d.WellFormed Identifier.Dollar
  | .struct fields => fields ≠ [] ∧ ∀ d ∈ fields, d.WellFormed Field.WellFormed
  | .union fields => fields ≠ [] ∧ ∀ d ∈ fields, d.WellFormed Field.WellFormed
  | .handle supertypes => ∀ ident ∈ supertypes, ident.Dollar

/-- The name is an atom with a dollar sign, and what it stands for is well-formed. -/
structure Typename.WellFormed (decl : Typename) : Prop where
  ident : decl.ident.Dollar
  definition : decl.definition.WellFormed

/-- Both the parameters and the results are well-formed, each with its comments. -/
structure InterfaceFunc.WellFormed (decl : InterfaceFunc) : Prop where
  params : ∀ d ∈ decl.params, d.WellFormed Field.WellFormed
  results : ∀ d ∈ decl.results, d.WellFormed Field.WellFormed

/-- Nothing is asked of an import, and a function is well-formed. -/
def ModuleDecl.WellFormed : ModuleDecl → Prop
  | .moduleImport _ => True
  | .func decl => decl.WellFormed

/-- The name is an atom with a dollar sign, and each declaration is well-formed. -/
structure Module.WellFormed (decl : Module) : Prop where
  name : decl.name.Dollar
  decls : ∀ d ∈ decl.decls, d.WellFormed ModuleDecl.WellFormed

/-- Nothing is asked of a use, and the other declarations are well-formed. -/
def TopLevel.WellFormed : TopLevel → Prop
  | .use _ => True
  | .typename decl => decl.WellFormed
  | .module decl => decl.WellFormed

/-- Each declaration is well-formed, with the comments before it. -/
def Document.WellFormed (document : Document) : Prop :=
  ∀ d ∈ document.items, d.WellFormed TopLevel.WellFormed

/-! ## Sound items -/

/-- All tokens that are left are sound. -/
def Cursor.Sound (c : Cursor) : Prop :=
  ∀ i ∈ c.items, i.Sound

/-- All that is left of a source is sound. -/
theorem Cursor.sound_of_readAll {source : String} {filename : Option String} {c : Cursor}
    (h : Item.readAll source filename = .ok c.items) : c.Sound :=
  fun _ hi _ ht => Token.sound_of_readAll h ((Item.preorder_sublist hi).subset ht)

/-- An item loses no token when it loses its comments, so it stays sound. -/
theorem Item.Sound.bare {i : Item} (h : i.Sound) : (View.uncommented.item i).Sound :=
  fun t ht => h t (token_mem_preorder_of_bare i ht)

/-- What is taken from sound items is sound, and so is what is left. -/
theorem Cursor.Takes.sound {c rest : Cursor} {i : Item} (h : c.Takes i rest) (hc : c.Sound) :
    i.Sound ∧ rest.Sound := by
  obtain ⟨run, -, hitems⟩ := h.items
  have hrest : ∀ j ∈ i :: rest.items, j.Sound := by
    intro j hj
    exact hc j (hitems ▸ List.mem_append_right _ hj)
  exact List.forall_mem_cons.1 hrest

/-! ## What a rule gives -/

/-- For sound tokens the rule reads what has the property, and it leaves sound tokens. -/
def Rule.Gives (P : α → Prop) (r : Rule α) : Prop :=
  ∀ ⦃c rest : Cursor⦄ ⦃a : α⦄, c.Sound → r c = .ok (a, rest) → P a ∧ rest.Sound

/-- For a sound item the entry reads what has the property. -/
def Entry.Gives (P : α → Prop) (entry : Entry α) : Prop :=
  ∀ ⦃i : Item⦄ ⦃a : α⦄, i.Sound → entry i = .ok a → P a

namespace Rule

variable {P : α → Prop} {Q : β → Prop}

/-- A rule that reads nothing gives what it is made from. -/
theorem gives_pure {a : α} (h : P a) : Gives P (pure a) := by
  rintro c rest _ hc ⟨⟩
  exact ⟨h, hc⟩

/-- What the second rule gives may rely on what the first one gives. -/
theorem Gives.bind {r : Rule α} {k : α → Rule β} (hr : Gives P r)
    (hk : ∀ a, P a → Gives Q (k a)) : Gives Q (r >>= k) := by
  intro c rest b hc h
  obtain ⟨a, mid, hread, h⟩ := bind_ok h
  obtain ⟨ha, hmid⟩ := hr hc hread
  exact hk a ha hmid h

/-- A rule gives what follows from what it gives. -/
theorem Gives.imp {P' : α → Prop} {r : Rule α} (hr : Gives P r) (h : ∀ a, P a → P' a) :
    Gives P' r :=
  fun _ _ a hc hread => (hr hc hread).imp_left (h a)

/-- What is made of the result has a property if the result has one that implies it. -/
theorem Gives.map {r : Rule α} {f : α → β} (hr : Gives P r) (hf : ∀ a, P a → Q (f a)) :
    Gives Q (f <$> r) := by
  rw [map_eq_bind]
  exact hr.bind fun a ha => gives_pure (hf a ha)

/-- Stepping gives a sound item that is accepted. -/
theorem gives_step (pattern : Pattern) :
    Gives (fun i => i.Sound ∧ pattern.accepts i = true) (step pattern) := by
  intro c rest i hc h
  obtain ⟨htakes, haccepts⟩ := Cursor.takes_of_step h
  obtain ⟨hi, hrest⟩ := htakes.sound hc
  exact ⟨⟨hi, haccepts⟩, hrest⟩

/-- Keywords give nothing of their own. -/
theorem gives_keyword (word : String) : Gives (fun _ => True) (keyword word) :=
  (gives_step _).bind fun _ _ => gives_pure trivial

/-- Nor do reserved words. -/
theorem gives_reserved (word : String) : Gives (fun _ => True) (reserved word) :=
  (gives_step _).bind fun _ _ => gives_pure trivial

/-- A choice gives what all its branches give. -/
theorem gives_choose {branches : List (Pattern × Rule α)}
    (h : ∀ branch ∈ branches, Gives P branch.2) : Gives P (choose branches) := by
  intro c rest a hc hread
  obtain ⟨branch, hbranch, hread⟩ := choose_ok hread
  exact h branch hbranch hc hread

/-- Inside a form all is as sound as the form. -/
theorem Gives.inForm {r : Rule α} (hr : Gives P r) : Gives P (inForm r) := by
  intro c rest a hc h
  obtain ⟨inner, last, span, hread, -, htakes⟩ := takes_of_inForm h
  obtain ⟨hform, hrest⟩ := htakes.sound hc
  exact ⟨(hr hform.of_mem hread).1, hrest⟩

/-- A form gives as an entry what the rule inside it gives. -/
theorem Gives.form {r : Rule α} (hr : Gives P r) : Entry.Gives P (.form r) := by
  intro i a hi h
  obtain ⟨children, opening, closing, last, rfl, hread, -⟩ := Entry.form_read h
  exact (@hr ⟨children, closing⟩ last a hi.of_mem hread).1

/-- Each construct has the comments that stood before it. -/
theorem documentedFrom_wellFormed {entry : Entry α} (hentry : entry.Gives P) {items : List Item}
    (hitems : ∀ i ∈ items, i.Sound) {texts : List String}
    (htexts : ∀ text ∈ texts, Documentation.Rewritable text) {ds : List (Documented α)}
    (h : entry.documentedFrom texts items = .ok ds) : ∀ d ∈ ds, d.WellFormed P := by
  induction items generalizing texts ds with
  | nil =>
    cases h
    exact List.forall_mem_nil _
  | cons i rest ih =>
    obtain ⟨hi, hrest⟩ := List.forall_mem_cons.1 hitems
    rw [Entry.documentedFrom] at h
    cases hcomment : i.comment? with
    | some text =>
      rw [hcomment] at h
      have htext : Documentation.Rewritable text := by
        cases i with
        | token t => exact (hi t List.mem_cons_self).comment text hcomment
        | form => cases hcomment
      exact ih hrest (List.forall_mem_append.2 ⟨htexts, List.forall_mem_singleton.2 htext⟩) h
    | none =>
      rw [hcomment] at h
      obtain ⟨a, hread, h⟩ := bind_eq_ok h
      obtain ⟨more, hmore, h⟩ := bind_eq_ok h
      cases h
      exact List.forall_mem_cons.2
        ⟨⟨htexts, hentry hi hread⟩, ih hrest (List.forall_mem_nil _) hmore⟩

/-- Documented constructs are well-formed if their entry gives what they have to be. -/
theorem gives_documented {entry : Entry α} (hentry : entry.Gives P) :
    Gives (fun ds => ∀ d ∈ ds, d.WellFormed P) (documented entry) := by
  intro c rest ds hc h
  obtain ⟨hread, hrest⟩ := documentedFrom_ok h
  refine ⟨documentedFrom_wellFormed hentry hc (List.forall_mem_nil _) hread, ?_⟩
  rw [Cursor.Sound, hrest]
  exact List.forall_mem_nil _

/-- A construct is read from each item that is no comment. -/
theorem gives_documentedSome {what : Constituent} {entry : Entry α} (hentry : entry.Gives P) :
    Gives (fun ds => ds ≠ [] ∧ ∀ d ∈ ds, d.WellFormed P) (documentedSome what entry) := by
  intro c rest ds hc h
  obtain ⟨hds, hrest⟩ := gives_documented hentry hc (documented_of_documentedSome h).1
  have hread : DerivesEach (fun _ _ => True) (View.bare c.items)
      (ds.map (View.uncommented.documented id)) ∧ View.bare c.items ≠ [] ∧ _ :=
    documentedSome_ok (fun _ _ _ => trivial) h
  refine ⟨⟨?_, hds⟩, hrest⟩
  rintro rfl
  exact hread.2.1 (List.forall₂_nil_right_iff.1 hread.1)

end Rule

/-! ## The grammar -/

namespace Grammar

open Rule

/-- An identifier as an entry is an atom with a dollar sign. -/
theorem gives_identifierEntry : identifierEntry.Gives Identifier.Dollar :=
  fun _ _ hi h => (identifierEntry_sound _ _ h).dollar_of_sound hi.bare

/-- An identifier is an atom with a dollar sign. -/
theorem gives_identifier : Gives Identifier.Dollar identifier := by
  refine (gives_step .identifier).bind ?_
  rintro i ⟨hi, haccepts⟩
  obtain ⟨text, span, rfl⟩ := Pattern.accepts_identifier haccepts
  exact gives_pure ((DerivesIdentifier.dollar text span).dollar_of_sound hi)

/-- Only where a string is next the name of a slot is quoted. -/
theorem gives_fieldName : Gives Identifier.Named fieldName := by
  have hstring : Gives Identifier.Named
      (do let item ← Rule.step .string; return ⟨item.text, item.span, true⟩) :=
    (gives_step .string).bind fun _ _ => gives_pure (.inl rfl)
  have hidentifier : Gives Identifier.Named identifier := gives_identifier.imp fun _ => .inr
  intro c rest ident hc h
  unfold fieldName at h
  rw [Rule.peek_bind] at h
  split at h
  · exact hstring hc h
  · exact hidentifier hc h

/-- Scalars are what they are. -/
theorem gives_scalar : Gives (fun _ => True) scalar := by
  refine gives_choose (List.forall_mem_map.2 fun type _ => ?_)
  exact (gives_keyword _).bind fun _ _ => gives_pure trivial

/-- No name in a datatype is quoted. -/
theorem gives_datatype : Gives Datatype.Dollar datatype := by
  intro c rest type hc h
  obtain ⟨i, htakes⟩ := takes_of_datatype h
  obtain ⟨j, hitems, hderives⟩ := datatype_sound h
  obtain ⟨hi, hrest⟩ := htakes.sound hc
  rw [htakes.bare_items] at hitems
  rw [← (List.cons.inj hitems).1] at hderives
  exact ⟨hderives.dollar_of_sound hi.bare, hrest⟩

/-- A slot's name may be quoted, the names in its type are not. -/
theorem gives_slot : Gives Field.WellFormed slot :=
  gives_fieldName.bind fun _ hname => gives_datatype.bind fun _ htype => gives_pure ⟨hname, htype⟩

/-- Fields are well-formed. -/
theorem gives_fieldForm : Gives Field.WellFormed fieldForm :=
  (gives_keyword _).bind fun _ _ => gives_slot

/-- An enumeration has a member at least. -/
theorem gives_enum : Gives Typedef.WellFormed enum :=
  (gives_keyword _).bind fun _ _ => gives_scalar.bind fun _ _ =>
    (gives_documentedSome gives_identifierEntry).bind fun _ h => gives_pure h

/-- Flags are well-formed, and there may be none. -/
theorem gives_flags : Gives Typedef.WellFormed flags :=
  (gives_keyword _).bind fun _ _ => gives_scalar.bind fun _ _ =>
    (gives_documented gives_identifierEntry).bind fun _ h => gives_pure h

/-- A structure has a field at least. -/
theorem gives_struct : Gives Typedef.WellFormed struct :=
  (gives_keyword _).bind fun _ _ =>
    (gives_documentedSome gives_fieldForm.form).bind fun _ h => gives_pure h

/-- A union has a field at least. -/
theorem gives_union : Gives Typedef.WellFormed union :=
  (gives_keyword _).bind fun _ _ =>
    (gives_documentedSome gives_fieldForm.form).bind fun _ h => gives_pure h

/-- The supertypes of a handle are atoms with a dollar sign. -/
theorem gives_handle : Gives Typedef.WellFormed handle :=
  (gives_keyword _).bind fun _ _ =>
    (gives_documented gives_identifierEntry).bind fun _ h =>
      gives_pure (List.forall_mem_map.2 fun d hd => (h d hd).item)

/-- All five kinds of definitions are well-formed. -/
theorem gives_typedefForm : Gives Typedef.WellFormed typedefForm := by
  refine gives_choose ?_
  simp only [List.forall_mem_cons, List.not_mem_nil, false_imp_iff, implies_true, and_true]
  exact ⟨gives_enum, gives_flags, gives_struct, gives_union, gives_handle⟩

/-- Type definitions are well-formed. -/
theorem gives_typedef : Gives Typedef.WellFormed typedef := by
  have halias : Gives Typedef.WellFormed (do let type ← datatype; return .alias type) :=
    gives_datatype.bind fun _ h => gives_pure h
  intro c rest definition hc h
  rw [typedef_eq] at h
  split at h
  · exact halias hc h
  · exact gives_typedefForm.inForm hc h

/-- Type names are well-formed. -/
theorem gives_typename : Gives Typename.WellFormed typename :=
  (gives_keyword _).bind fun _ _ => gives_identifier.bind fun _ hident =>
    gives_typedef.bind fun _ hdefinition => gives_pure ⟨hident, hdefinition⟩

/-- Nothing is asked of an import. -/
theorem gives_moduleImport : Gives (fun _ => True) moduleImport := by
  have htype : Gives (fun _ => True) importType :=
    (gives_keyword _).bind fun _ _ => gives_pure trivial
  exact (gives_keyword _).bind fun _ _ => (gives_step _).bind fun _ _ =>
    htype.inForm.bind fun _ _ => gives_pure trivial

/-- The field in a function's slot is well-formed. -/
theorem gives_slotForm : Gives (fun slot => Field.WellFormed slot.2) slotForm := by
  refine gives_choose (List.forall_mem_map.2 fun kind _ => ?_)
  exact (gives_keyword _).bind fun _ _ => gives_slot.bind fun _ h => gives_pure h

/-- Dealt out to parameters and results, slots stay what they are. -/
theorem slotsOf_wellFormed {slots : List (Documented (SlotKind × Field))}
    (h : ∀ d ∈ slots, d.WellFormed fun slot => Field.WellFormed slot.2) (kind : SlotKind) :
    ∀ d ∈ slotsOf kind slots, d.WellFormed Field.WellFormed := by
  intro d hd
  obtain ⟨slot, hslot, hsome⟩ := List.mem_filterMap.1 hd
  split at hsome
  · cases hsome
    exact ⟨(h slot hslot).comments, (h slot hslot).item⟩
  · cases hsome

/-- Interface functions are well-formed in their parameters and in their results. -/
theorem gives_interfaceFunc : Gives InterfaceFunc.WellFormed interfaceFunc := by
  have hexport : Gives (fun _ => True) exportForm :=
    (gives_keyword _).bind fun _ _ => (gives_step .string).imp fun _ _ => trivial
  refine (gives_reserved _).bind fun _ _ => (gives_keyword _).bind fun _ _ =>
    hexport.inForm.bind fun _ _ => (gives_documented gives_slotForm.form).bind fun _ h => ?_
  exact gives_pure ⟨slotsOf_wellFormed h .param, slotsOf_wellFormed h .result⟩

/-- Declarations inside a module are well-formed. -/
theorem gives_moduleDecl : Gives ModuleDecl.WellFormed moduleDecl := by
  refine gives_choose ?_
  simp only [List.forall_mem_cons, List.not_mem_nil, false_imp_iff, implies_true, and_true]
  exact ⟨gives_moduleImport.map fun _ _ => trivial, gives_interfaceFunc.map fun _ h => h⟩

/-- Modules are well-formed. -/
theorem gives_module : Gives Module.WellFormed module :=
  (gives_keyword _).bind fun _ _ => gives_identifier.bind fun _ hname =>
    (gives_documented gives_moduleDecl.form).bind fun _ hdecls => gives_pure ⟨hname, hdecls⟩

/-- Declarations of a document are well-formed. -/
theorem gives_topLevel : Gives TopLevel.WellFormed topLevel := by
  have huse : Gives (fun _ => True) use :=
    (gives_keyword _).bind fun _ _ => (gives_step _).bind fun _ _ => gives_pure trivial
  have hdecl : Gives TopLevel.WellFormed decl := by
    refine gives_choose ?_
    simp only [List.forall_mem_cons, List.not_mem_nil, false_imp_iff, implies_true, and_true]
    exact ⟨gives_module.map fun _ h => h, gives_typename.map fun _ h => h⟩
  intro c rest d hc h
  unfold topLevel at h
  rw [Rule.peek_bind] at h
  split at h
  · exact huse.map (fun _ _ => trivial) hc h
  · exact hdecl hc h

/-- Documents are well-formed. -/
theorem gives_document : Gives Document.WellFormed document :=
  (gives_documented gives_topLevel.form).bind fun _ h => gives_pure h

end Grammar

/-- What a rule reads from a whole source has the property. -/
theorem Rule.Gives.of_source {P : α → Prop} {r : Rule α} (hr : Gives P r) {source : String}
    {filename : Option String} {cause : Cause} {a : α}
    (h : (Cursor.ofSource source filename >>= fun c => Cursor.toEnd cause (r c)) = .ok a) :
    P a := by
  obtain ⟨c, rest, hitems, hread⟩ := Cursor.exists_of_toEnd h
  exact (hr (Cursor.sound_of_readAll hitems) hread).1

/-- Whatever is read from a source is well-formed, be it a document, a type definition or a
datatype. -/
theorem parse_wellFormed (source : String) (filename : Option String) :
    (∀ document, Document.parse source filename = .ok document → document.WellFormed) ∧
      (∀ definition, Typedef.parse source filename = .ok definition → definition.WellFormed) ∧
      ∀ type, Datatype.parse source filename = .ok type → type.Dollar :=
  ⟨fun _ h => Grammar.gives_document.of_source h, fun _ h => Grammar.gives_typedef.of_source h,
    fun _ h => Grammar.gives_datatype.of_source h⟩

/-- A structure with the shortest block comment in it and a quoted name. -/
theorem parse_wellFormed_struct :
    ∃ definition, Typedef.parse "(struct (;;) (field \"a\" $u))" none = .ok definition ∧
      definition.WellFormed := by
  have hsome : (Typedef.parse "(struct (;;) (field \"a\" $u))" none).toOption.isSome = true := by
    decide +kernel
  cases hparse : Typedef.parse "(struct (;;) (field \"a\" $u))" none with
  | error e => rw [hparse] at hsome; cases hsome
  | ok definition =>
    exact ⟨definition, rfl, (parse_wellFormed "(struct (;;) (field \"a\" $u))" none).2.1 _ hparse⟩

end WitxFrontEnd
