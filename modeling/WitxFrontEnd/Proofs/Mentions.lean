import WitxFrontEnd.Proofs.Sites
import WitxFrontEnd.Proofs.Soundness

/-!
# Names and types in a tree

A tree mentions names and types, at any depth. Each mention is derived from an item of its own,
which is among the items of the source (`Holds`, one lemma a production, and `holds_of_parse` for
the three readings). What is said of that item, where it stands or how deep it is, is said of the
mention. So a type has no more arrays and pointers around each other than forms stand around each
other in the source (`Holds.wrappers_le`).
-/

namespace WitxFrontEnd

open View

/-! ## Mentions -/

/-- A name or a type in a tree. The name of an import or an export is one that is a string. -/
inductive Mention where
  | name (ident : Identifier)
  | type (type : Datatype)

/-- The mentions of documented constructs, in order. -/
def mentionsOf {α : Type} (mentions : α → List Mention) (ds : List (Documented α)) :
    List Mention :=
  ds.flatMap fun d => mentions d.item

/-- The mentions of the first construct are before those of the others. -/
theorem mentionsOf_cons {α : Type} (mentions : α → List Mention) (d : Documented α)
    (ds : List (Documented α)) :
    mentionsOf mentions (d :: ds) = mentions d.item ++ mentionsOf mentions ds :=
  rfl

namespace Datatype

/-- How many arrays and pointers are around each other. -/
def wrappers : Datatype → Nat
  | .scalar _ => 0
  | .array element => element.wrappers + 1
  | .pointer pointee => pointee.wrappers + 1
  | .constPointer pointee => pointee.wrappers + 1
  | .named _ => 0

/-- The type itself, and what is in it. -/
def mentions : Datatype → List Mention
  | .scalar type => [.type (.scalar type)]
  | .array element => .type (.array element) :: element.mentions
  | .pointer pointee => .type (.pointer pointee) :: pointee.mentions
  | .constPointer pointee => .type (.constPointer pointee) :: pointee.mentions
  | .named ident => [.type (.named ident), .name ident]

end Datatype

/-- The field's name and the mentions of its type. -/
def Field.mentions (f : Field) : List Mention :=
  .name f.name :: f.type.mentions

/-- The mentions of a type definition. -/
def Typedef.mentions : Typedef → List Mention
  | .alias type => type.mentions
  | .enum _ members => mentionsOf (fun ident => [.name ident]) members
  | .flags _ members => mentionsOf (fun ident => [.name ident]) members
  | .struct fields => mentionsOf Field.mentions fields
  | .union fields => mentionsOf Field.mentions fields
  | .handle supertypes => supertypes.map .name

/-- The mentions of a declaration in a module. -/
def ModuleDecl.mentions : ModuleDecl → List Mention
  | .moduleImport decl => [.name ⟨decl.name, decl.nameSpan, true⟩]
  | .func decl =>
    .name ⟨decl.exportName, decl.exportSpan, true⟩ ::
      (mentionsOf Field.mentions decl.params ++ mentionsOf Field.mentions decl.results)

/-- The mentions of a declaration in a document. -/
def TopLevel.mentions : TopLevel → List Mention
  | .use _ => []
  | .typename decl => .name decl.ident :: decl.definition.mentions
  | .module decl => .name decl.name :: mentionsOf ModuleDecl.mentions decl.decls

/-- The mentions of a document. -/
def Document.mentions (d : Document) : List Mention :=
  mentionsOf TopLevel.mentions d.items

/-! ## Comments are no mentions -/

section Uncommented

/-- What is changed about a construct does not matter if its mentions stay. -/
theorem mentionsOf_uncommented {α : Type} {mentions : α → List Mention} {f : α → α}
    (h : ∀ a, mentions (f a) = mentions a) (ds : List (Documented α)) :
    mentionsOf mentions (ds.map (uncommented.documented f)) = mentionsOf mentions ds := by
  unfold mentionsOf
  rw [List.flatMap_map]
  simp only [documented, h]

/-- Fields mention the same without their comments. -/
@[simp] theorem fieldMentions_uncommented (fields : List (Documented Field)) :
    mentionsOf Field.mentions (fields.map (uncommented.documented uncommented.field)) =
      mentionsOf Field.mentions fields :=
  mentionsOf_uncommented (fun f => by rw [uncommented_field]) fields

/-- A type definition mentions the same without its comments. -/
theorem Typedef.mentions_uncommented (definition : Typedef) :
    (uncommented.typedef definition).mentions = definition.mentions := by
  have hname (ds : List (Documented Identifier)) :
      mentionsOf (fun ident => [.name ident])
          (ds.map (uncommented.documented uncommented.identifier)) =
        mentionsOf (fun ident => [.name ident]) ds := mentionsOf_uncommented (fun _ => rfl) ds
  cases definition with
  | «alias» type => simp only [typedef, mentions, uncommented_datatype]
  | enum repr members => exact hname members
  | flags repr flags => exact hname flags
  | struct fields => exact fieldMentions_uncommented fields
  | union fields => exact fieldMentions_uncommented fields
  | handle supertypes =>
    simp only [typedef, mentions, List.map_map]
    rfl

/-- A declaration inside a module mentions the same without its comments. -/
theorem ModuleDecl.mentions_uncommented (decl : ModuleDecl) :
    (uncommented.moduleDecl decl).mentions = decl.mentions := by
  cases decl with
  | moduleImport decl => rfl
  | func decl =>
    have hparams := fieldMentions_uncommented decl.params
    have hresults := fieldMentions_uncommented decl.results
    exact congrArg₂ (fun params results => _ :: (params ++ results)) hparams hresults

/-- A declaration of a document mentions the same without its comments. -/
theorem TopLevel.mentions_uncommented (item : TopLevel) :
    (uncommented.topLevel item).mentions = item.mentions := by
  cases item with
  | use path => rfl
  | typename decl => exact congrArg (_ :: ·) decl.definition.mentions_uncommented
  | module decl =>
    exact congrArg (_ :: ·) (mentionsOf_uncommented ModuleDecl.mentions_uncommented decl.decls)

/-- A document mentions the same without its comments. -/
theorem Document.mentions_uncommented (d : Document) :
    (uncommented.document d).mentions = d.mentions :=
  mentionsOf_uncommented TopLevel.mentions_uncommented d.items

end Uncommented

/-! ## From a mention to its item -/

/-- The item that a mention is derived from. -/
inductive DerivesMention : Item → Mention → Prop
  | name {i : Item} {ident : Identifier} (h : DerivesName i ident) : DerivesMention i (.name ident)
  | type {i : Item} {type : Datatype} (h : DerivesDatatype i type) : DerivesMention i (.type type)

/-- Each of the mentions is derived from one of the items or from an item within them. -/
def Holds (items : List Item) (mentions : List Mention) : Prop :=
  ∀ mention ∈ mentions, ∃ i ∈ Item.preorderAll items, DerivesMention i mention

namespace Holds

variable {i : Item} {is is' : List Item} {mentions mentions' : List Mention}

/-- Nothing is held anywhere. -/
theorem nil : Holds is [] := nofun

/-- Mentions are held one by one. -/
theorem append_iff : Holds is (mentions ++ mentions') ↔ Holds is mentions ∧ Holds is mentions' :=
  List.forall_mem_append

/-- An item that a mention is derived from, and its other mentions. -/
theorem cons {mention : Mention} (h : DerivesMention i mention) (hs : Holds [i] mentions) :
    Holds [i] (mention :: mentions) :=
  List.forall_mem_cons.2 ⟨⟨i, (Item.sublist_preorderAll _).subset List.mem_cons_self, h⟩, hs⟩

/-- More items hold as much. -/
theorem mono (hsub : is ⊆ is') (h : Holds is mentions) : Holds is' mentions := by
  intro mention hmention
  obtain ⟨j, hj, hderives⟩ := h mention hmention
  rw [Item.preorderAll_eq_flatMap] at hj
  obtain ⟨i, hi, hj⟩ := List.mem_flatMap.1 hj
  exact ⟨j, (Item.preorder_sublist (hsub hi)).subset hj, hderives⟩

/-- A form holds what its items do. -/
theorem form (opening closing : Span) (h : Holds is mentions) :
    Holds [.form is opening closing] mentions := by
  intro mention hmention
  obtain ⟨j, hj, hderives⟩ := h mention hmention
  refine ⟨j, ?_, hderives⟩
  rw [Item.preorderAll, Item.preorder]
  exact List.mem_append_left _ (List.mem_cons_of_mem _ hj)

/-- A form holds what some of its items do. -/
theorem form_of_subset {opening closing : Span} (h : Holds is mentions) (hsub : is ⊆ is') :
    Holds [.form is' opening closing] mentions :=
  (h.mono hsub).form opening closing

/-- One item more, and what it holds. -/
theorem cons_items (h : Holds [i] mentions) (hs : Holds is mentions') :
    Holds (i :: is) (mentions ++ mentions') :=
  append_iff.2 ⟨h.mono (by simp), hs.mono (by simp)⟩

/-- The item of an identifier holds its name. -/
theorem name {ident : Identifier} (h : DerivesIdentifier i ident) : Holds [i] [.name ident] :=
  cons (.name (.identifier h)) nil

/-- The items of identifiers hold their names. -/
theorem names {idents : List Identifier} (h : List.Forall₂ DerivesIdentifier is idents) :
    Holds is (idents.map .name) := by
  induction h with
  | nil => exact nil
  | cons h hs ih => exact (name h).cons_items ih

/-- Items from which constructs are derived, one from each. -/
theorem each {α : Type} {Derives : Item → α → Prop} {mentions : α → List Mention}
    (hmentions : ∀ i a, Derives i a → Holds [i] (mentions a)) {ds : List (Documented α)}
    (h : DerivesEach Derives is ds) : Holds is (mentionsOf mentions ds) := by
  induction h with
  | nil => exact nil
  | cons hd hds ih => exact (hmentions _ _ hd.2).cons_items ih

end Holds

/-- The item of a datatype holds the types and the names in it. -/
theorem DerivesDatatype.holds {i : Item} {type : Datatype} (h : DerivesDatatype i type) :
    Holds [i] type.mentions := by
  induction h with
  | named h => exact .cons (.type (.named h)) (.name h)
  | scalar h => exact .cons (.type (.scalar h)) .nil
  | array h ih => exact .cons (.type (.array h)) (ih.form_of_subset (by simp))
  | pointer h ih => exact .cons (.type (.pointer h)) (ih.form_of_subset (by simp))
  | constPointer h ih => exact .cons (.type (.constPointer h)) (ih.form_of_subset (by simp))

/-- The item of a field holds its name and what its type mentions. -/
theorem DerivesField.holds {word : String} {i : Item} {f : Field} (h : DerivesField word i f) :
    Holds [i] f.mentions := by
  cases h with
  | @slot n t name type s opening closing hname htype =>
    have hmentions : Holds [n, t] (.name name :: type.mentions) :=
      (Holds.cons (.name hname) .nil).cons_items htype.holds
    exact hmentions.form_of_subset (by simp)

/-- The item of a type definition holds what the definition mentions. -/
theorem DerivesTypedef.holds {i : Item} {definition : Typedef} (h : DerivesTypedef i definition) :
    Holds [i] definition.mentions := by
  have hname (i : Item) (ident : Identifier) (h : DerivesIdentifier i ident) :
      Holds [i] [.name ident] := .name h
  have hfield (i : Item) (f : Field) (h : DerivesField "field" i f) : Holds [i] f.mentions :=
    h.holds
  cases h with
  | «alias» htype => exact htype.holds
  | enum hrepr hmembers hne => exact (Holds.each hname hmembers).form_of_subset (by simp)
  | flags hrepr hflags => exact (Holds.each hname hflags).form_of_subset (by simp)
  | struct hfields hne => exact (Holds.each hfield hfields).form_of_subset (by simp)
  | union hfields hne => exact (Holds.each hfield hfields).form_of_subset (by simp)
  | handle hsupertypes => exact (Holds.names hsupertypes).form_of_subset (by simp)

/-- The items of slots hold what parameters and results mention, in whichever order they stand. -/
theorem DerivesSlots.holds {is : List Item} {params results : List (Documented Field)}
    (h : DerivesSlots is params results) :
    Holds is (mentionsOf Field.mentions params ++ mentionsOf Field.mentions results) := by
  induction h with
  | nil => exact .nil
  | param hfield hs ih =>
    rw [mentionsOf_cons, List.append_assoc]
    exact hfield.holds.cons_items ih
  | result hfield hs ih =>
    obtain ⟨hparams, hresults⟩ := Holds.append_iff.1 ih
    rw [mentionsOf_cons, Holds.append_iff]
    exact ⟨hparams.mono (by simp), hfield.holds.cons_items hresults⟩

/-- The item of a declaration inside a module holds what it mentions. -/
theorem DerivesModuleDecl.holds {i : Item} {decl : ModuleDecl} (h : DerivesModuleDecl i decl) :
    Holds [i] decl.mentions := by
  have hname (name : String) (span : Span) :
      Holds [.string name span] [.name ⟨name, span, true⟩] := .cons (.name (.string name span)) .nil
  cases h with
  | moduleImport => exact (hname _ _).form_of_subset (by simp)
  | @func name nameSpan s s' s'' opening closing opening' closing' is params results hslots =>
    have hexport : Holds [.form [.keyword "export" s'', .string name nameSpan] opening' closing']
        [.name ⟨name, nameSpan, true⟩] := (hname name nameSpan).form_of_subset (by simp)
    exact (hexport.cons_items hslots.holds).form_of_subset (by simp)

/-- The item of a declaration of a document holds what it mentions. -/
theorem DerivesTopLevel.holds {i : Item} {item : TopLevel} (h : DerivesTopLevel i item) :
    Holds [i] item.mentions := by
  cases h with
  | use => exact .nil
  | typename hident hdefinition =>
    exact ((Holds.name hident).cons_items hdefinition.holds).form_of_subset (by simp)
  | module hname hdecls =>
    have hmentions := Holds.each (fun _ _ hdecl => DerivesModuleDecl.holds hdecl) hdecls
    exact ((Holds.name hname).cons_items hmentions).form_of_subset (by simp)

/-- The items of a document hold what it mentions. -/
theorem DerivesDocument.holds {is : List Item} {d : Document} (h : DerivesDocument is d) :
    Holds is d.mentions :=
  .each (fun _ _ hitem => DerivesTopLevel.holds hitem) h

/-! ## Where a name is -/

namespace Item

mutual

/-- The tokens within an item without comments are within the item. -/
theorem token_mem_preorder_of_bare {t : Token} : ∀ i : Item,
    .token t ∈ (uncommented.item i).preorder → .token t ∈ i.preorder
  | .token u, h => h
  | .form items span closing, h => by
    rcases List.mem_cons.1 h with h | h
    · cases h
    · exact List.mem_cons_of_mem _ (token_mem_preorderAll_of_bare items h)

/-- As `token_mem_preorder_of_bare`, over some items. -/
theorem token_mem_preorderAll_of_bare {t : Token} : ∀ items : List Item,
    .token t ∈ preorderAll (bare items) → .token t ∈ preorderAll items
  | [], h => h
  | i :: rest, h => by
    have hrest := token_mem_preorderAll_of_bare (t := t) rest
    rw [bare, View.items] at h
    split at h
    · exact List.mem_append_right _ (hrest h)
    · rcases List.mem_append.1 h with h | h
      · exact List.mem_append_left _ (token_mem_preorder_of_bare i h)
      · exact List.mem_append_right _ (hrest h)

end

end Item

/-- A name that is mentioned is derived from one token of the items. -/
theorem Holds.exists_token {items : List Item} {mentions : List Mention}
    (h : Holds (bare items) mentions) {ident : Identifier} (hident : .name ident ∈ mentions) :
    ∃ t, .token t ∈ Item.preorderAll items ∧ DerivesName (.token t) ident := by
  obtain ⟨i, hi, hderives⟩ := h _ hident
  cases hderives with
  | name hname =>
    cases i with
    | token t => exact ⟨t, Item.token_mem_preorderAll_of_bare items hi, hname⟩
    | form items span closing =>
      cases hname with
      | identifier hidentifier => cases hidentifier

/-! ## How deep a type is -/

/-- Around each array or pointer there is a form of its own. -/
theorem DerivesDatatype.wrappers_le {i : Item} {type : Datatype} (h : DerivesDatatype i type) :
    type.wrappers ≤ i.sexpr.depth := by
  induction h with
  | named | scalar => exact Nat.zero_le _
  | array h ih | pointer h ih | constPointer h ih =>
    simp only [Datatype.wrappers, Item.sexpr, Item.sexprs, SExpr.depth, SExpr.forestDepth]
    omega

namespace Item

mutual

/-- Dropping comments makes no item deeper. -/
theorem depth_view (v : View) : ∀ i : Item, (v.item i).sexpr.depth ≤ i.sexpr.depth
  | .token t => Nat.le_refl _
  | .form items span closing => by
    have := forestDepth_view v items
    simp only [View.item, sexpr, SExpr.depth]
    omega

/-- As `depth_view`, over some items. -/
theorem forestDepth_view (v : View) : ∀ items : List Item,
    SExpr.forestDepth (sexprs (v.items items)) ≤ SExpr.forestDepth (sexprs items)
  | [] => Nat.le_refl _
  | i :: rest => by
    have hfirst := depth_view v i
    have hrest := forestDepth_view v rest
    rw [View.items, sexprs, SExpr.forestDepth]
    split
    · omega
    · rw [sexprs, SExpr.forestDepth]
      omega

end

mutual

/-- No item is deeper than what it is in. -/
theorem depth_le_of_mem_preorder : ∀ (i : Item) {j : Item}, j ∈ i.preorder →
    j.sexpr.depth ≤ i.sexpr.depth
  | .token t, j, h => by
    rw [List.mem_singleton.1 h]
  | .form items span closing, j, h => by
    rcases List.mem_cons.1 h with rfl | h
    · exact Nat.le_refl _
    · have := depth_le_of_mem_preorderAll items h
      rw [sexpr, SExpr.depth]
      omega

/-- As `depth_le_of_mem_preorder`, over some items. -/
theorem depth_le_of_mem_preorderAll : ∀ (items : List Item) {j : Item}, j ∈ preorderAll items →
    j.sexpr.depth ≤ SExpr.forestDepth (sexprs items)
  | [], j, h => nomatch h
  | i :: rest, j, h => by
    rw [sexprs, SExpr.forestDepth]
    rcases List.mem_append.1 h with h | h
    · have := depth_le_of_mem_preorder i h
      omega
    · have := depth_le_of_mem_preorderAll rest h
      omega

end

end Item

/-- A type that is mentioned is no deeper than the items that hold the mention. -/
theorem Holds.wrappers_le {items : List Item} {mentions : List Mention}
    (h : Holds (bare items) mentions) {type : Datatype} (htype : .type type ∈ mentions) :
    type.wrappers ≤ SExpr.forestDepth (Item.sexprs items) := by
  obtain ⟨i, hi, hderives⟩ := h _ htype
  cases hderives with
  | type hderives =>
    calc type.wrappers ≤ i.sexpr.depth := hderives.wrappers_le
      _ ≤ SExpr.forestDepth (Item.sexprs (bare items)) := Item.depth_le_of_mem_preorderAll _ hi
      _ ≤ SExpr.forestDepth (Item.sexprs items) := Item.forestDepth_view uncommented items

/-! ## Parsed trees -/

section Parsed

variable {source : String} {filename : Option String}

/-- What a rule reads from a whole source is read from the items of the source. -/
theorem Cursor.exists_of_toEnd {α : Type} {r : Rule α} {cause : Cause} {a : α}
    (h : (ofSource source filename >>= fun c => toEnd cause (r c)) = .ok a) :
    ∃ c rest, Item.readAll source filename = .ok c.items ∧ r c = .ok (a, rest) := by
  obtain ⟨c, hc, h⟩ := bind_eq_ok h
  obtain ⟨rest, hr, -⟩ := Cursor.toEnd_ok h
  exact ⟨c, rest, ofSource_ok hc, hr⟩

/-- What a parsed document mentions is held by the items of its source. -/
theorem Document.holds_of_parse {d : Document} (h : Document.parse source filename = .ok d) :
    ∃ items, Item.readAll source filename = .ok items ∧ Holds (bare items) d.mentions := by
  obtain ⟨c, rest, hitems, hd⟩ := Cursor.exists_of_toEnd h
  refine ⟨c.items, hitems, ?_⟩
  rw [← d.mentions_uncommented]
  exact (Grammar.document_sound hd).holds

/-- So is what a parsed type definition mentions. -/
theorem Typedef.holds_of_parse {definition : Typedef}
    (h : Typedef.parse source filename = .ok definition) :
    ∃ items, Item.readAll source filename = .ok items ∧ Holds (bare items) definition.mentions := by
  obtain ⟨c, rest, hitems, hd⟩ := Cursor.exists_of_toEnd h
  obtain ⟨i, hi, hderives⟩ := Grammar.typedef_sound hd
  refine ⟨c.items, hitems, ?_⟩
  rw [← definition.mentions_uncommented]
  exact hderives.holds.mono (by simp [hi])

/-- So is what a parsed datatype mentions. -/
theorem Datatype.holds_of_parse {type : Datatype}
    (h : Datatype.parse source filename = .ok type) :
    ∃ items, Item.readAll source filename = .ok items ∧ Holds (bare items) type.mentions := by
  obtain ⟨c, rest, hitems, hd⟩ := Cursor.exists_of_toEnd h
  obtain ⟨i, hi, hderives⟩ := Grammar.datatype_sound hd
  exact ⟨c.items, hitems, hderives.holds.mono (by simp [hi])⟩

end Parsed

end WitxFrontEnd
