import WitxFrontEnd.Proofs.Derivation
import WitxFrontEnd.Proofs.Rule

/-!
# What can be derived is read

Every derivation of a tree is followed by the rules, which read exactly that tree and use the items
up (`document_complete`, `typedef_complete`, `datatype_complete`). A datatype is always the last of
its form, and the statements rely on it: behind a scalar's keyword, `array` would be an error.
-/

namespace WitxFrontEnd

/-! ## Cursors before a known item -/

section Cursors

variable {i : Item} {rest : List Item} {closing : Span}

/-- Nothing is skipped before an item that is no comment. -/
theorem Cursor.skipComments_cons (h : i.isComment = false) :
    skipComments (i :: rest) = i :: rest := by
  simp [skipComments, h]

/-- A cursor steps over an item that is accepted. -/
theorem Cursor.step_cons {pattern : Pattern} (h : i.isComment = false)
    (ha : pattern.accepts i = true) :
    (⟨i :: rest, closing⟩ : Cursor).step pattern = .ok (i, ⟨rest, closing⟩) := by
  simp [step, skipComments_cons h, ha]

/-- A cursor enters a form that is next. -/
@[simp] theorem Cursor.enter_cons (children : List Item) (s e : Span) :
    (⟨.form children s e :: rest, closing⟩ : Cursor).enter =
      .ok (⟨children, e⟩, ⟨rest, closing⟩) := rfl

/-- A keyword that is next is taken. -/
@[simp] theorem Rule.keyword_cons (word : String) (s : Span) :
    Rule.keyword word ⟨.keyword word s :: rest, closing⟩ = .ok ((), ⟨rest, closing⟩) := by
  have ha : (Pattern.keyword word).accepts (.keyword word s) = true := by
    simp [Pattern.accepts, Item.keyword]
  rw [Rule.keyword, Rule.bind_apply, Rule.step_apply, Cursor.step_cons rfl ha]
  rfl

/-- A reserved word that is next is taken. -/
@[simp] theorem Rule.reserved_cons (word : String) (s : Span) :
    Rule.reserved word ⟨.reserved word s :: rest, closing⟩ = .ok ((), ⟨rest, closing⟩) := by
  have ha : (Pattern.reserved word).accepts (.reserved word s) = true := by
    simp [Pattern.accepts, Item.reserved]
  rw [Rule.reserved, Rule.bind_apply, Rule.step_apply, Cursor.step_cons rfl ha]
  rfl

/-- A string that is next is taken. -/
@[simp] theorem Cursor.step_string (text : String) (s : Span) :
    (⟨.string text s :: rest, closing⟩ : Cursor).step .string =
      .ok (.string text s, ⟨rest, closing⟩) :=
  step_cons rfl rfl

/-- A form is read by a rule that uses its items up. -/
theorem Rule.inForm_cons {α : Type} {r : Rule α} {children : List Item} {a : α} {s e : Span}
    (h : r ⟨children, e⟩ = .ok (a, ⟨[], e⟩)) :
    Rule.inForm r ⟨.form children s e :: rest, closing⟩ = .ok (a, ⟨rest, closing⟩) := by
  rw [Rule.inForm_apply]
  simp only [Cursor.enter_cons, h]
  rfl

/-- A rule that uses up the inside of a form reads the form as an entry. -/
theorem Entry.form_cons {α : Type} {r : Rule α} {children : List Item} {a : α} {s e : Span}
    (h : r ⟨children, e⟩ = .ok (a, ⟨[], e⟩)) : Entry.form r (.form children s e) = .ok a := by
  show Cursor.toEnd _ (r ⟨children, e⟩) = _
  rw [h]
  rfl

end Cursors

/-! ## Lists of constructs -/

/-- An entry follows the derivations of constructs from single items, none of them a comment. -/
def Entry.Follows {α : Type} (entry : Entry α) (Derives : Item → α → Prop) : Prop :=
  ∀ i a, Derives i a → entry i = .ok a ∧ i.isComment = false

/-- Items from which constructs are derived are read as these constructs. -/
theorem Rule.documented_complete {α : Type} {entry : Entry α} {Derives : Item → α → Prop}
    (hentry : entry.Follows Derives) {is : List Item} {ds : List (Documented α)}
    (h : DerivesEach Derives is ds) (closing : Span) :
    Rule.documented entry ⟨is, closing⟩ = .ok (ds, ⟨[], closing⟩) := by
  have hfrom : entry.documentedFrom [] is = .ok ds := by
    induction h with
    | nil => rfl
    | @cons i d is ds hd _ ih =>
      obtain ⟨comments, a⟩ := d
      obtain ⟨rfl, hd⟩ := hd
      obtain ⟨ha, hi⟩ := hentry i a hd
      have hc : i.comment? = none := by simpa [hi] using Item.isSome_comment? i
      rw [Entry.documentedFrom, hc]
      simp only [ha, ih]
      rfl
  show (entry.documentedFrom [] is >>= fun ds => .ok (ds, (⟨[], closing⟩ : Cursor))) = _
  rw [hfrom]
  rfl

/-- So are they where one is asked for, if there are any. -/
theorem Rule.documentedSome_complete {α : Type} {what : Constituent} {entry : Entry α}
    {Derives : Item → α → Prop} (hentry : entry.Follows Derives) {is : List Item}
    {ds : List (Documented α)} (h : DerivesEach Derives is ds) (hne : is ≠ []) (closing : Span) :
    Rule.documentedSome what entry ⟨is, closing⟩ = .ok (ds, ⟨[], closing⟩) := by
  have hempty : (⟨is, closing⟩ : Cursor).isEmpty = false := by
    cases h with
    | nil => exact absurd rfl hne
    | @cons i d is ds hd _ =>
      obtain ⟨-, hi⟩ := hentry _ _ hd.2
      simp [Cursor.isEmpty, Cursor.next?, Cursor.skipComments_cons hi]
  unfold Rule.documentedSome
  rw [hempty]
  exact documented_complete hentry h closing

/-! ## The grammar -/

namespace Grammar

variable {rest : List Item} {closing : Span}

/-- An identifier is read from the item that derives it. -/
theorem identifier_complete {i : Item} {ident : Identifier} (h : DerivesIdentifier i ident) :
    identifier ⟨i :: rest, closing⟩ = .ok (ident, ⟨rest, closing⟩) := by
  cases h with
  | dollar text span => rfl

/-- So it is as an entry. -/
theorem identifierEntry_follows : Entry.Follows identifierEntry DerivesIdentifier := by
  rintro _ _ ⟨text, span⟩
  exact ⟨rfl, rfl⟩

/-- The name of a slot is read from the item that derives it. -/
theorem fieldName_complete {i : Item} {name : Identifier} (h : DerivesName i name) :
    fieldName ⟨i :: rest, closing⟩ = .ok (name, ⟨rest, closing⟩) := by
  cases h with
  | identifier h =>
    cases h with
    | dollar text span => rfl
  | string text span => rfl

/-- A scalar is read from the item that derives it. -/
theorem scalar_complete {i : Item} {type : Scalar} (h : DerivesScalar i type) :
    scalar ⟨i :: rest, closing⟩ = .ok (type, ⟨rest, closing⟩) := by
  cases h with
  | keyword type span =>
    cases type <;> rfl

/-- The derivation decides every look ahead, and what is inside a form follows by induction. -/
theorem datatype_complete {i : Item} {type : Datatype} (h : DerivesDatatype i type)
    (closing : Span) : datatype ⟨[i], closing⟩ = .ok (type, ⟨[], closing⟩) := by
  induction h generalizing closing with
  | @named i ident h =>
    have hpeek : (⟨[i], closing⟩ : Cursor).peek .identifier = true := by cases h; rfl
    rw [datatype_eq, if_pos hpeek]
    exact Rule.bind_of_ok (identifier_complete h)
  | @scalar i type h =>
    have hrule : (do let type ← scalar; return .scalar type : Rule Datatype) ⟨[i], closing⟩ =
        .ok (.scalar type, ⟨[], closing⟩) := Rule.bind_of_ok (scalar_complete h)
    cases h
    exact (datatype_eq _).trans <| Eq.trans (if_neg nofun) <| Eq.trans (if_neg nofun) <|
      Eq.trans (if_neg nofun) hrule
  | @array i element s opening closing' _ ih =>
    have hinner : arrayForm ⟨[.keyword "array" s, i], closing'⟩ =
        .ok (.array element, ⟨[], closing'⟩) :=
      (Rule.bind_of_ok (Rule.keyword_cons _ _)).trans (Rule.bind_of_ok (ih _))
    exact (datatype_eq _).trans <| Eq.trans (if_neg nofun) <| Eq.trans (if_pos rfl) <|
      Rule.inForm_cons hinner
  | @pointer i pointee s s' opening closing' _ ih =>
    have hinner : pointerForm ⟨[.reserved "@witx" s, .keyword "pointer" s', i], closing'⟩ =
        .ok (.pointer pointee, ⟨[], closing'⟩) := by
      refine (Rule.bind_of_ok (Rule.reserved_cons _ _)).trans ?_
      rw [Rule.peek_bind]
      exact (Rule.bind_of_ok (Rule.keyword_cons _ _)).trans (Rule.bind_of_ok (ih _))
    exact (datatype_eq _).trans <| Eq.trans (if_neg nofun) <| Eq.trans (if_neg nofun) <|
      Eq.trans (if_pos rfl) <| Rule.inForm_cons hinner
  | @constPointer i pointee s s' opening closing' _ ih =>
    have hinner : pointerForm ⟨[.reserved "@witx" s, .keyword "const-pointer" s', i], closing'⟩ =
        .ok (.constPointer pointee, ⟨[], closing'⟩) := by
      refine (Rule.bind_of_ok (Rule.reserved_cons _ _)).trans ?_
      rw [Rule.peek_bind]
      exact (Rule.bind_of_ok (Rule.keyword_cons _ _)).trans (Rule.bind_of_ok (ih _))
    exact (datatype_eq _).trans <| Eq.trans (if_neg nofun) <| Eq.trans (if_neg nofun) <|
      Eq.trans (if_pos rfl) <| Rule.inForm_cons hinner

/-- A field behind a word, which may be any. -/
theorem slot_complete {word : String} {i : Item} {f : Field} (h : DerivesField word i f) :
    ∃ s opening closing n t, i = .form [.keyword word s, n, t] opening closing ∧
      slot ⟨[n, t], closing⟩ = .ok (f, ⟨[], closing⟩) := by
  cases h with
  | @slot n t name type s opening closing hname htype =>
    refine ⟨s, opening, closing, n, t, rfl, ?_⟩
    exact (Rule.bind_of_ok (fieldName_complete hname)).trans
      (Rule.bind_of_ok (datatype_complete htype closing))

/-- A form that derives a field is read as the field. -/
theorem fieldForm_follows : Entry.Follows (.form fieldForm) (DerivesField "field") := by
  intro i f h
  obtain ⟨s, opening, closing, n, t, rfl, hslot⟩ := slot_complete h
  exact ⟨Entry.form_cons ((Rule.bind_of_ok (Rule.keyword_cons _ _)).trans hslot), rfl⟩

/-- The inside of a definition's form, by the word that it begins with. -/
theorem typedefForm_complete {children : List Item} {opening closing : Span} {definition : Typedef}
    (h : DerivesTypedef (.form children opening closing) definition)
    (halias : ∀ type, definition ≠ .alias type) :
    typedefForm ⟨children, closing⟩ = .ok (definition, ⟨[], closing⟩) := by
  cases h with
  | «alias» => exact absurd rfl (halias _)
  | enum hrepr hmembers hne =>
    exact (Rule.bind_of_ok (Rule.keyword_cons _ _)).trans <|
      (Rule.bind_of_ok (scalar_complete hrepr)).trans <|
        Rule.bind_of_ok (Rule.documentedSome_complete identifierEntry_follows hmembers hne _)
  | flags hrepr hflags =>
    exact (Rule.bind_of_ok (Rule.keyword_cons _ _)).trans <|
      (Rule.bind_of_ok (scalar_complete hrepr)).trans <|
        Rule.bind_of_ok (Rule.documented_complete identifierEntry_follows hflags _)
  | struct hfields hne =>
    exact (Rule.bind_of_ok (Rule.keyword_cons _ _)).trans <|
      Rule.bind_of_ok (Rule.documentedSome_complete fieldForm_follows hfields hne _)
  | union hfields hne =>
    exact (Rule.bind_of_ok (Rule.keyword_cons _ _)).trans <|
      Rule.bind_of_ok (Rule.documentedSome_complete fieldForm_follows hfields hne _)
  | @handle is supertypes _ _ _ hsupertypes =>
    have hds : DerivesEach DerivesIdentifier is (supertypes.map (⟨[], ·⟩)) := by
      rw [DerivesEach, List.forall₂_map_right_iff]
      exact hsupertypes.imp fun _ _ h => ⟨rfl, h⟩
    have hitem : (supertypes.map fun ident => (⟨[], ident⟩ : Documented Identifier)).map
        Documented.item = supertypes := by
      rw [List.map_map]
      exact List.map_id _
    refine (Rule.bind_of_ok (Rule.keyword_cons _ _)).trans <|
      (Rule.bind_of_ok (Rule.documented_complete identifierEntry_follows hds _)).trans ?_
    rw [hitem]
    rfl

/-- A type definition is read from the item that derives it, where nothing follows. -/
theorem typedef_complete {i : Item} {definition : Typedef} (h : DerivesTypedef i definition)
    (closing : Span) : typedef ⟨[i], closing⟩ = .ok (definition, ⟨[], closing⟩) := by
  have halias {type : Datatype} (h : DerivesDatatype i type) :
      (do let type ← datatype; return .alias type : Rule Typedef) ⟨[i], closing⟩ =
        .ok (.alias type, ⟨[], closing⟩) := Rule.bind_of_ok (datatype_complete h closing)
  have hform := h
  cases h with
  | «alias» h =>
    have hrule := halias h
    rw [typedef_eq]
    cases h with
    | named h => cases h; exact Eq.trans (if_pos rfl) hrule
    | scalar h => cases h; exact Eq.trans (if_pos rfl) hrule
    | array | pointer | constPointer => exact Eq.trans (if_pos rfl) hrule
  | enum | flags | struct | union | handle =>
    exact (typedef_eq _).trans <| Eq.trans (if_neg nofun) <|
      Rule.inForm_cons (typedefForm_complete hform nofun)

/-- A form that derives a parameter or a result is read as a slot of this kind. -/
theorem slotForm_follows : Entry.Follows (.form slotForm)
    fun i (slot : SlotKind × Field) => DerivesField slot.1.keyword i slot.2 := by
  rintro i ⟨kind, f⟩ h
  obtain ⟨s, opening, closing, n, t, rfl, hslot⟩ := slot_complete h
  refine ⟨Entry.form_cons ?_, rfl⟩
  cases kind <;>
    exact (Rule.bind_of_ok (Rule.keyword_cons _ _)).trans (Rule.bind_of_ok hslot)

/-- The slots of a function are read in one run, from which both lists are dealt out. -/
theorem slots_complete {is : List Item} {params results : List (Documented Field)}
    (h : DerivesSlots is params results) (closing : Span) :
    ∃ slots, Rule.documented (.form slotForm) ⟨is, closing⟩ = .ok (slots, ⟨[], closing⟩) ∧
      slotsOf .param slots = params ∧ slotsOf .result slots = results := by
  have hslots : ∃ slots : List (Documented (SlotKind × Field)),
      DerivesEach (fun i slot => DerivesField slot.1.keyword i slot.2) is slots ∧
        slotsOf .param slots = params ∧ slotsOf .result slots = results := by
    induction h with
    | nil => exact ⟨[], .nil, rfl, rfl⟩
    | @param i is f params results hf _ ih =>
      obtain ⟨slots, hs, rfl, rfl⟩ := ih
      exact ⟨⟨[], .param, f⟩ :: slots, .cons ⟨rfl, hf⟩ hs, rfl, rfl⟩
    | @result i is f params results hf _ ih =>
      obtain ⟨slots, hs, rfl, rfl⟩ := ih
      exact ⟨⟨[], .result, f⟩ :: slots, .cons ⟨rfl, hf⟩ hs, rfl, rfl⟩
  obtain ⟨slots, hs, hp, hr⟩ := hslots
  exact ⟨slots, Rule.documented_complete slotForm_follows hs closing, hp, hr⟩

/-- A form that derives a declaration inside a module is read as it. -/
theorem moduleDecl_follows : Entry.Follows (.form moduleDecl) DerivesModuleDecl := by
  intro i decl h
  cases h with
  | @moduleImport name nameSpan s s' opening closing opening' closing' =>
    have htype : importType ⟨[.keyword "memory" s'], closing'⟩ = .ok (.memory, ⟨[], closing'⟩) :=
      Rule.bind_of_ok (Rule.keyword_cons _ _)
    have hdecl : moduleImport ⟨[.keyword "import" s, .string name nameSpan,
        .form [.keyword "memory" s'] opening' closing'], closing⟩ =
          .ok (⟨name, nameSpan, .memory⟩, ⟨[], closing⟩) :=
      (Rule.bind_of_ok (Rule.keyword_cons _ _)).trans <|
        (Rule.bind_of_ok (Cursor.step_string _ _)).trans <|
          Rule.bind_of_ok (Rule.inForm_cons htype)
    exact ⟨Entry.form_cons (Rule.map_of_ok hdecl), rfl⟩
  | @func name nameSpan s s' s'' opening closing opening' closing' is params results hslots =>
    have hexport : exportForm ⟨[.keyword "export" s'', .string name nameSpan], closing'⟩ =
        .ok (.string name nameSpan, ⟨[], closing'⟩) :=
      (Rule.bind_of_ok (Rule.keyword_cons _ _)).trans (Cursor.step_string _ _)
    obtain ⟨slots, hs, rfl, rfl⟩ := slots_complete hslots closing
    have hdecl : interfaceFunc ⟨.reserved "@interface" s :: .keyword "func" s' ::
        .form [.keyword "export" s'', .string name nameSpan] opening' closing' :: is, closing⟩ =
          .ok (⟨name, nameSpan, slotsOf .param slots, slotsOf .result slots⟩, ⟨[], closing⟩) :=
      (Rule.bind_of_ok (Rule.reserved_cons _ _)).trans <|
        (Rule.bind_of_ok (Rule.keyword_cons _ _)).trans <|
          (Rule.bind_of_ok (Rule.inForm_cons hexport)).trans <| Rule.bind_of_ok hs
    exact ⟨Entry.form_cons (Rule.map_of_ok hdecl), rfl⟩

/-- A form that derives a declaration of a document is read as it. -/
theorem topLevel_follows : Entry.Follows (.form topLevel) DerivesTopLevel := by
  intro i decl h
  cases h with
  | @use path pathSpan s opening closing =>
    have huse : use ⟨[.keyword "use" s, .string path pathSpan], closing⟩ =
        .ok (path, ⟨[], closing⟩) :=
      (Rule.bind_of_ok (Rule.keyword_cons _ _)).trans <|
        (Rule.bind_of_ok (Cursor.step_string _ _)).trans rfl
    exact ⟨Entry.form_cons (Rule.map_of_ok huse), rfl⟩
  | @typename n t ident definition s opening closing hident hdefinition =>
    have hdecl : typename ⟨[.keyword "typename" s, n, t], closing⟩ =
        .ok (⟨ident, definition⟩, ⟨[], closing⟩) :=
      (Rule.bind_of_ok (Rule.keyword_cons _ _)).trans <|
        (Rule.bind_of_ok (identifier_complete hident)).trans <|
          Rule.bind_of_ok (typedef_complete hdefinition closing)
    exact ⟨Entry.form_cons (Rule.map_of_ok hdecl), rfl⟩
  | @module n name is decls s opening closing hname hdecls =>
    have hdecl : module ⟨.keyword "module" s :: n :: is, closing⟩ =
        .ok (⟨name, decls⟩, ⟨[], closing⟩) :=
      (Rule.bind_of_ok (Rule.keyword_cons _ _)).trans <|
        (Rule.bind_of_ok (identifier_complete hname)).trans <|
          Rule.bind_of_ok (Rule.documented_complete moduleDecl_follows hdecls closing)
    exact ⟨Entry.form_cons (Rule.map_of_ok hdecl), rfl⟩

/-- Items that derive a document are read as the document. -/
theorem document_complete {is : List Item} {d : Document} (h : DerivesDocument is d)
    (closing : Span) : document ⟨is, closing⟩ = .ok (d, ⟨[], closing⟩) :=
  Rule.bind_of_ok (Rule.documented_complete topLevel_follows h closing)

end Grammar

end WitxFrontEnd
