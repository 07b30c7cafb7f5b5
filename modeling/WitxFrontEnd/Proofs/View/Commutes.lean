import WitxFrontEnd.Proofs.View

/-!
# Rules commute with views

`Commutes f r r'` says of a cursor that `r'` on its view does what `r` does on the cursor itself,
with `f` for the view of what is read. It holds of the steps of a cursor and is kept by the ways to
put rules together, so every rule of the grammar has it, one theorem a rule. The only rule that
refers to itself is `Grammar.datatype`, for which the induction is on what is left.
-/

namespace WitxFrontEnd.View

variable {v : View} {α β γ δ : Type}

/-- What `r'` does on the view of the cursor is the view of what `r` does on the cursor. -/
def Commutes (v : View) (f : α → β) (r : Rule α) (r' : Rule β) (c : Cursor) : Prop :=
  r' (v.cursor c) = v.outcome (Prod.map f v.cursor) (r c)

/-! ## Ways to put rules together -/

/-- A rule that reads nothing commutes if its result does. -/
theorem commutes_pure {f : α → β} {a : α} {b : β} {c : Cursor} (h : f a = b) :
    v.Commutes f (pure a) (pure b) c := by
  subst h; rfl

/-- Rules commute one behind the other, the second on whatever the first one read. -/
theorem commutes_bind {f : α → β} {g : γ → δ} {r : Rule α} {r' : Rule β} {k : α → Rule γ}
    {k' : β → Rule δ} {c : Cursor} (hr : v.Commutes f r r' c)
    (hk : ∀ a rest, r c = .ok (a, rest) → v.Commutes g (k a) (k' (f a)) rest) :
    v.Commutes g (r >>= k) (r' >>= k') c := by
  unfold Commutes at hr ⊢
  rw [Rule.bind_apply, Rule.bind_apply, hr]
  cases h : r c with
  | error e => rfl
  | ok p => exact hk p.1 p.2 h

/-- What is made of the result may be made of its view. -/
theorem commutes_map {f : α → β} {g : γ → δ} {r : Rule α} {r' : Rule β} {h : α → γ} {h' : β → δ}
    {c : Cursor} (hr : v.Commutes f r r' c) (hh : ∀ a, g (h a) = h' (f a)) :
    v.Commutes g (h <$> r) (h' <$> r') c := by
  rw [Rule.map_eq_bind, Rule.map_eq_bind]
  exact commutes_bind hr fun a rest _ => commutes_pure (hh a)

/-- Looking commutes, and so does everything that is decided by it. -/
theorem commutes_peek (pattern : Pattern) (c : Cursor) :
    v.Commutes id (Rule.peek pattern) (Rule.peek pattern) c := by
  show Except.ok ((v.cursor c).peek pattern, v.cursor c) = _
  rw [peek_cursor]
  rfl

/-- Stepping commutes with the view of the item that it takes. -/
theorem commutes_step (pattern : Pattern) (c : Cursor) :
    v.Commutes v.item (Rule.step pattern) (Rule.step pattern) c :=
  step_cursor pattern

/-- A keyword is taken in the view as well. -/
theorem commutes_keyword (word : String) (c : Cursor) :
    v.Commutes id (Rule.keyword word) (Rule.keyword word) c :=
  commutes_bind (commutes_step _ c) fun _ _ _ => commutes_pure rfl

/-- A reserved word is taken in the view as well. -/
theorem commutes_reserved (word : String) (c : Cursor) :
    v.Commutes id (Rule.reserved word) (Rule.reserved word) c :=
  commutes_bind (commutes_step _ c) fun _ _ _ => commutes_pure rfl

/-- A choice takes the same branch on both sides, or fails on both. -/
theorem commutes_choose {f : α → α} {branches : List (Pattern × Rule α)} {c : Cursor}
    (h : ∀ branch ∈ branches, v.Commutes f branch.2 branch.2 c) :
    v.Commutes f (Rule.choose branches) (Rule.choose branches) c := by
  unfold Commutes Rule.choose
  simp only [peek_cursor, error_cursor]
  cases hb : branches.find? fun branch => c.peek branch.1 with
  | none => rfl
  | some branch => exact h branch (List.mem_of_find?_eq_some hb)

/-- A rule inside a form commutes if it does so on the cursor inside. -/
theorem commutes_inForm {f : α → β} {r : Rule α} {r' : Rule β} {c : Cursor}
    (h : ∀ inner behind, c.enter = .ok (inner, behind) → v.Commutes f r r' inner) :
    v.Commutes f (Rule.inForm r) (Rule.inForm r') c := by
  unfold Commutes
  rw [Rule.inForm_apply, Rule.inForm_apply, enter_cursor]
  cases hc : c.enter with
  | error e => rfl
  | ok p =>
    obtain ⟨inner, behind⟩ := p
    have hr : r' (v.cursor inner) = v.outcome (Prod.map f v.cursor) (r inner) :=
      h inner behind hc
    simp only [outcome, Prod.map]
    rw [hr, toEnd_outcome]
    cases Cursor.toEnd .expectedClose (r inner) <;> rfl

/-! ## Lists of constructs -/

/-- An entry reads the view of an item as the view of what it reads from the item. -/
def EntryCommutes (v : View) (f : α → α) (entry : Entry α) : Prop :=
  ∀ i : Item, i.isComment = false → entry (v.item i) = v.outcome f (entry i)

/-- A form commutes as an entry if the rule inside it commutes. -/
theorem entryCommutes_form {f : α → α} {r : Rule α} (h : ∀ c, v.Commutes f r r c) :
    v.EntryCommutes f (.form r) := by
  intro i _
  cases i with
  | token t => rfl
  | form children span closing =>
    show Cursor.toEnd _ (r (v.cursor ⟨children, closing⟩)) = _
    rw [h ⟨children, closing⟩, toEnd_outcome]
    rfl

/-- Comments gather in front of a construct on both sides, or are dropped on the one. -/
theorem documentedFrom_items {f : α → α} {entry : Entry α} (h : v.EntryCommutes f entry)
    (texts : List String) (l : List Item) :
    entry.documentedFrom (v.comments texts) (v.items l) =
      v.outcome (List.map (v.documented f)) (entry.documentedFrom texts l) := by
  induction l generalizing texts with
  | nil => rfl
  | cons i rest ih =>
    have hnil : v.comments [] = [] := by unfold comments; split <;> rfl
    rw [Entry.documentedFrom]
    cases hi : i.isComment with
    | false =>
      have hc : i.comment? = none := by simpa [hi] using Item.isSome_comment? i
      rw [items_cons_of_not_isComment hi, Entry.documentedFrom, comment?_item, hc]
      simp only
      rw [h i hi]
      have ih := ih []
      rw [hnil] at ih
      rw [ih]
      cases entry i with
      | error e => rfl
      | ok a => cases entry.documentedFrom [] rest <;> rfl
    | true =>
      obtain ⟨text, hc⟩ := Option.isSome_iff_exists.1 ((Item.isSome_comment? i).trans hi)
      rw [hc]
      simp only
      rw [← ih, items, hi]
      cases hv : v.keepsComments with
      | false => simp [comments, hv]
      | true => simp [comments, hv, Entry.documentedFrom, hc]

/-- Documented constructs up to the end commute if their entry does. -/
theorem commutes_documented {f : α → α} {entry : Entry α} (h : v.EntryCommutes f entry)
    (c : Cursor) :
    v.Commutes (List.map (v.documented f)) (Rule.documented entry) (Rule.documented entry) c := by
  have hnil : v.comments [] = [] := by unfold comments; split <;> rfl
  have hl := documentedFrom_items h [] c.items
  rw [hnil] at hl
  show (entry.documentedFrom [] (v.items c.items) >>= fun ds => _) =
    v.outcome _ (entry.documentedFrom [] c.items >>= fun ds => _)
  rw [hl]
  cases entry.documentedFrom [] c.items <;> rfl

/-- So do they if there has to be one at least. -/
theorem commutes_documentedSome {f : α → α} {entry : Entry α} (what : Constituent)
    (h : v.EntryCommutes f entry) (c : Cursor) :
    v.Commutes (List.map (v.documented f)) (Rule.documentedSome what entry)
      (Rule.documentedSome what entry) c := by
  unfold Commutes Rule.documentedSome
  rw [isEmpty_cursor, error_cursor]
  split
  · rfl
  · exact commutes_documented h c

/-! ## The grammar -/

section Grammar

variable (v : View) (c : Cursor)

/-- Identifiers commute. -/
theorem commutes_identifier :
    v.Commutes v.identifier Grammar.identifier Grammar.identifier c :=
  commutes_bind (commutes_step _ c) fun i _ _ => commutes_pure (by simp [identifier])

/-- Names of slots commute, whether they are quoted or not. -/
theorem commutes_fieldName :
    v.Commutes v.identifier Grammar.fieldName Grammar.fieldName c := by
  refine commutes_bind (commutes_peek _ c) fun b rest _ => ?_
  cases b with
  | true =>
    exact commutes_bind (commutes_step _ rest) fun i _ _ => commutes_pure (by simp [identifier])
  | false => exact commutes_identifier v rest

/-- Scalars commute, of which a view changes nothing. -/
theorem commutes_scalar : v.Commutes id Grammar.scalar Grammar.scalar c := by
  refine commutes_choose fun branch hbranch => ?_
  obtain ⟨type, _, rfl⟩ := List.mem_map.1 hbranch
  exact commutes_bind (commutes_keyword _ c) fun _ _ _ => commutes_pure rfl

/-- The datatypes of a form are read inside it, where less is left. -/
theorem commutes_datatype :
    v.Commutes v.datatype Grammar.datatype Grammar.datatype c := by
  induction hn : c.size using Nat.strongRecOn generalizing c with
  | ind n ih =>
  subst hn
  have harray (inner behind : Cursor) (hc : c.enter = .ok (inner, behind)) :
      v.Commutes v.datatype Grammar.arrayForm Grammar.arrayForm inner := by
    have hinner := Cursor.size_enter_lt hc
    refine commutes_bind (commutes_keyword _ inner) fun _ rest h => ?_
    have hrest := Rule.size_keyword_lt h
    exact commutes_bind (ih _ (by omega) rest rfl) fun _ _ _ => commutes_pure rfl
  have hpointer (inner behind : Cursor) (hc : c.enter = .ok (inner, behind)) :
      v.Commutes v.datatype Grammar.pointerForm Grammar.pointerForm inner := by
    have hinner := Cursor.size_enter_lt hc
    refine commutes_bind (commutes_reserved _ inner) fun _ rest h => ?_
    have hrest := Rule.size_reserved_lt h
    refine commutes_bind (commutes_peek _ rest) fun b rest' h' => ?_
    obtain rfl : rest = rest' := by cases h'; rfl
    cases b with
    | true =>
      refine commutes_bind (commutes_keyword _ rest) fun _ last h => ?_
      have hlast := Rule.size_keyword_lt h
      exact commutes_bind (ih _ (by omega) last rfl) fun _ _ _ => commutes_pure rfl
    | false =>
      refine commutes_bind (commutes_keyword _ rest) fun _ last h => ?_
      have hlast := Rule.size_keyword_lt h
      exact commutes_bind (ih _ (by omega) last rfl) fun _ _ _ => commutes_pure rfl
  unfold Commutes
  rw [Grammar.datatype_eq, Grammar.datatype_eq]
  simp only [peek_cursor, peekSecond_cursor]
  split
  · exact commutes_bind (commutes_identifier v c) fun _ _ _ => commutes_pure rfl
  split
  · exact commutes_inForm harray
  split
  · exact commutes_inForm hpointer
  · exact commutes_bind (commutes_scalar v c) fun _ _ _ => commutes_pure rfl

/-- A slot's name and type commute. -/
theorem commutes_slot : v.Commutes v.field Grammar.slot Grammar.slot c :=
  commutes_bind (commutes_fieldName v c) fun _ rest _ =>
    commutes_bind (commutes_datatype v rest) fun _ _ _ => commutes_pure rfl

/-- The inside of a field commutes. -/
theorem commutes_fieldForm : v.Commutes v.field Grammar.fieldForm Grammar.fieldForm c :=
  commutes_bind (commutes_keyword _ c) fun _ rest _ => commutes_slot v rest

/-- Identifiers commute as entries. -/
theorem entryCommutes_identifier : v.EntryCommutes v.identifier Grammar.identifierEntry := by
  intro i _
  unfold Grammar.identifierEntry
  simp only [accepts_item, text_item, span_item]
  split <;> rfl

/-- Enumerations commute. -/
theorem commutes_enum : v.Commutes v.typedef Grammar.enum Grammar.enum c :=
  commutes_bind (commutes_keyword _ c) fun _ rest _ =>
    commutes_bind (commutes_scalar v rest) fun _ rest _ =>
      commutes_bind (commutes_documentedSome _ (entryCommutes_identifier v) rest) fun _ _ _ =>
        commutes_pure rfl

/-- Sets of flags commute. -/
theorem commutes_flags : v.Commutes v.typedef Grammar.flags Grammar.flags c :=
  commutes_bind (commutes_keyword _ c) fun _ rest _ =>
    commutes_bind (commutes_scalar v rest) fun _ rest _ =>
      commutes_bind (commutes_documented (entryCommutes_identifier v) rest) fun _ _ _ =>
        commutes_pure rfl

/-- Structures commute. -/
theorem commutes_struct : v.Commutes v.typedef Grammar.struct Grammar.struct c :=
  commutes_bind (commutes_keyword _ c) fun _ rest _ =>
    commutes_bind (commutes_documentedSome _ (entryCommutes_form (commutes_fieldForm v)) rest)
      fun _ _ _ => commutes_pure rfl

/-- Unions commute. -/
theorem commutes_union : v.Commutes v.typedef Grammar.union Grammar.union c :=
  commutes_bind (commutes_keyword _ c) fun _ rest _ =>
    commutes_bind (commutes_documentedSome _ (entryCommutes_form (commutes_fieldForm v)) rest)
      fun _ _ _ => commutes_pure rfl

/-- Handles commute; they have no comments that a view could drop. -/
theorem commutes_handle : v.Commutes v.typedef Grammar.handle Grammar.handle c := by
  refine commutes_bind (commutes_keyword _ c) fun _ rest _ => ?_
  refine commutes_bind (commutes_documented (entryCommutes_identifier v) rest) fun ids _ _ => ?_
  refine commutes_pure ?_
  simp [typedef, documented]

/-- The inside of a definition's form commutes, whichever of the five it is. -/
theorem commutes_typedefForm :
    v.Commutes v.typedef Grammar.typedefForm Grammar.typedefForm c := by
  refine commutes_choose fun branch hbranch => ?_
  simp only [List.mem_cons, List.not_mem_nil, or_false] at hbranch
  rcases hbranch with rfl | rfl | rfl | rfl | rfl
  · exact commutes_enum v c
  · exact commutes_flags v c
  · exact commutes_struct v c
  · exact commutes_union v c
  · exact commutes_handle v c

/-- Type definitions commute. -/
theorem commutes_typedef : v.Commutes v.typedef Grammar.typedef Grammar.typedef c := by
  unfold Commutes
  rw [Grammar.typedef_eq, Grammar.typedef_eq]
  simp only [peek_cursor, peekSecond_cursor]
  split
  · exact commutes_bind (commutes_datatype v c) fun _ _ _ => commutes_pure rfl
  · exact commutes_inForm fun inner _ _ => commutes_typedefForm v inner

/-- Type names commute. -/
theorem commutes_typename :
    v.Commutes v.typename Grammar.typename Grammar.typename c :=
  commutes_bind (commutes_keyword _ c) fun _ rest _ =>
    commutes_bind (commutes_identifier v rest) fun _ rest _ =>
      commutes_bind (commutes_typedef v rest) fun _ _ _ => commutes_pure rfl

theorem commutes_importType :
    v.Commutes id Grammar.importType Grammar.importType c :=
  commutes_bind (commutes_keyword _ c) fun _ _ _ => commutes_pure rfl

/-- Imports commute. -/
theorem commutes_moduleImport :
    v.Commutes v.moduleImport Grammar.moduleImport Grammar.moduleImport c :=
  commutes_bind (commutes_keyword _ c) fun _ rest _ =>
    commutes_bind (commutes_step _ rest) fun i rest _ =>
      commutes_bind (commutes_inForm fun inner _ _ => commutes_importType v inner) fun _ _ _ =>
        commutes_pure (by simp [moduleImport])

theorem commutes_exportForm :
    v.Commutes v.item Grammar.exportForm Grammar.exportForm c :=
  commutes_bind (commutes_keyword _ c) fun _ rest _ => commutes_step _ rest

/-- A slot keeps its kind in the view. -/
theorem commutes_slotForm :
    v.Commutes (Prod.map id v.field) Grammar.slotForm Grammar.slotForm c := by
  refine commutes_choose fun branch hbranch => ?_
  obtain ⟨kind, _, rfl⟩ := List.mem_map.1 hbranch
  exact commutes_bind (commutes_keyword _ c) fun _ rest _ =>
    commutes_bind (commutes_slot v rest) fun _ _ _ => commutes_pure rfl

/-- A view deals out the same slots. -/
theorem slotsOf_documented (kind : Grammar.SlotKind)
    (slots : List (Documented (Grammar.SlotKind × Field))) :
    Grammar.slotsOf kind (slots.map (v.documented (Prod.map id v.field))) =
      (Grammar.slotsOf kind slots).map (v.documented v.field) := by
  unfold Grammar.slotsOf
  rw [List.filterMap_map, List.map_filterMap]
  congr 1
  funext slot
  show (if slot.item.1 = kind then _ else _) = Option.map _ (if slot.item.1 = kind then _ else _)
  split <;> rfl

/-- Interface functions commute. -/
theorem commutes_interfaceFunc :
    v.Commutes v.func Grammar.interfaceFunc Grammar.interfaceFunc c := by
  refine commutes_bind (commutes_reserved _ c) fun _ rest _ => ?_
  refine commutes_bind (commutes_keyword _ rest) fun _ rest _ => ?_
  refine commutes_bind (commutes_inForm fun inner _ _ => commutes_exportForm v inner)
    fun name rest _ => ?_
  refine commutes_bind (commutes_documented (entryCommutes_form (commutes_slotForm v)) rest)
    fun slots rest _ => ?_
  refine commutes_pure ?_
  simp [func, slotsOf_documented]

/-- Declarations inside a module commute. -/
theorem commutes_moduleDecl :
    v.Commutes v.moduleDecl Grammar.moduleDecl Grammar.moduleDecl c := by
  refine commutes_choose fun branch hbranch => ?_
  simp only [List.mem_cons, List.not_mem_nil, or_false] at hbranch
  rcases hbranch with rfl | rfl
  · exact commutes_map (commutes_moduleImport v c) fun _ => rfl
  · exact commutes_map (commutes_interfaceFunc v c) fun _ => rfl

/-- Modules commute. -/
theorem commutes_module : v.Commutes v.module Grammar.module Grammar.module c :=
  commutes_bind (commutes_keyword _ c) fun _ rest _ =>
    commutes_bind (commutes_identifier v rest) fun _ rest _ =>
      commutes_bind (commutes_documented (entryCommutes_form (commutes_moduleDecl v)) rest)
        fun _ _ _ => commutes_pure rfl

theorem commutes_use : v.Commutes id Grammar.use Grammar.use c :=
  commutes_bind (commutes_keyword _ c) fun _ rest _ =>
    commutes_bind (commutes_step _ rest) fun _ _ _ => commutes_pure (by simp)

theorem commutes_decl : v.Commutes v.topLevel Grammar.decl Grammar.decl c := by
  refine commutes_choose fun branch hbranch => ?_
  simp only [List.mem_cons, List.not_mem_nil, or_false] at hbranch
  rcases hbranch with rfl | rfl
  · exact commutes_map (commutes_module v c) fun _ => rfl
  · exact commutes_map (commutes_typename v c) fun _ => rfl

/-- The forms of a document commute. -/
theorem commutes_topLevel :
    v.Commutes v.topLevel Grammar.topLevel Grammar.topLevel c := by
  refine commutes_bind (commutes_peek _ c) fun b rest _ => ?_
  cases b with
  | true => exact commutes_map (commutes_use v rest) fun _ => rfl
  | false => exact commutes_decl v rest

/-- Documents commute: a view of a source is read as the view of its document. -/
theorem commutes_document :
    v.Commutes v.document Grammar.document Grammar.document c :=
  commutes_bind (commutes_documented (entryCommutes_form (commutes_topLevel v)) c) fun _ _ _ =>
    commutes_pure rfl

end Grammar

end WitxFrontEnd.View
