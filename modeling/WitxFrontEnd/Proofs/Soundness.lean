import WitxFrontEnd.Proofs.Derivation
import WitxFrontEnd.Proofs.Takes
import WitxFrontEnd.Proofs.View.Commutes

/-!
# What a rule reads can be derived

If a rule succeeds at a cursor, the items it took, without their comments, derive what it read,
without its comments (`document_sound`, `typedef_sound`, `datatype_sound`). Every statement is
about the items in the view `View.uncommented`, before and behind what the rule took; the comments
that the steps of a cursor skip are then not there.
-/

namespace WitxFrontEnd

/-! ## What a pattern accepts -/

/-- Only the keyword itself is accepted as a keyword. -/
theorem Pattern.accepts_keyword {word : String} {i : Item}
    (h : (Pattern.keyword word).accepts i = true) : ∃ span, i = .keyword word span := by
  cases i with
  | form => cases h
  | token t =>
    obtain ⟨kind, text, span⟩ := t
    simp only [accepts, Bool.and_eq_true, beq_iff_eq] at h
    obtain ⟨rfl, rfl⟩ := h
    exact ⟨span, rfl⟩

/-- Only the reserved word itself is accepted as one. -/
theorem Pattern.accepts_reserved {word : String} {i : Item}
    (h : (Pattern.reserved word).accepts i = true) : ∃ span, i = .reserved word span := by
  cases i with
  | form => cases h
  | token t =>
    obtain ⟨kind, text, span⟩ := t
    simp only [accepts, Bool.and_eq_true, beq_iff_eq] at h
    obtain ⟨rfl, rfl⟩ := h
    exact ⟨span, rfl⟩

/-- Only strings are accepted as strings. -/
theorem Pattern.accepts_string {i : Item} (h : Pattern.string.accepts i = true) :
    ∃ text span, i = .string text span := by
  cases i with
  | form => cases h
  | token t =>
    obtain ⟨kind, text, span⟩ := t
    simp only [accepts, beq_iff_eq] at h
    subst h
    exact ⟨text, span, rfl⟩

/-- Only identifiers are accepted as identifiers. -/
theorem Pattern.accepts_identifier {i : Item} (h : Pattern.identifier.accepts i = true) :
    ∃ text span, i = .token ⟨.identifier, text, span⟩ := by
  cases i with
  | form => cases h
  | token t =>
    obtain ⟨kind, text, span⟩ := t
    simp only [accepts, beq_iff_eq] at h
    subst h
    exact ⟨text, span, rfl⟩

namespace View

/-- The items without their comments. -/
abbrev bare (l : List Item) : List Item := uncommented.items l

/-- Skipping comments skips no bare item. -/
theorem bare_skipComments (l : List Item) : bare (Cursor.skipComments l) = bare l := by
  induction l with
  | nil => rfl
  | cons i rest ih =>
    unfold Cursor.skipComments at ih ⊢
    rw [List.dropWhile_cons]
    split
    · next h => simpa [bare, items, h, uncommented] using ih
    · rfl

/-- Nothing but comments is left if and only if no bare item is left. -/
theorem isEmpty_iff {c : Cursor} : c.isEmpty = true ↔ bare c.items = [] := by
  rw [← bare_skipComments]
  unfold Cursor.isEmpty Cursor.next?
  rcases skipComments_cases c.items with hl | ⟨i, rest, hl, hi⟩
  · rw [hl]
    exact ⟨fun _ => rfl, fun _ => rfl⟩
  · rw [hl, bare, items_cons_of_not_isComment hi]
    exact ⟨nofun, nofun⟩

/-- There are no comments in a datatype. -/
@[simp] theorem uncommented_datatype (type : Datatype) :
    uncommented.datatype type = type := by
  induction type with
  | scalar | named => rfl
  | array element ih | pointer element ih | constPointer element ih => rw [datatype, ih]

/-- There are no comments in a field. -/
@[simp] theorem uncommented_field (f : Field) : uncommented.field f = f := by
  rw [field, uncommented_datatype]
  rfl

end View

open View

/-! ## Steps of a cursor -/

/-- Of the bare items one is taken. -/
theorem Cursor.Takes.bare_items {c rest : Cursor} {i : Item} (h : c.Takes i rest) :
    bare c.items = uncommented.item i :: bare rest.items := by
  obtain ⟨run, hrun, hitems⟩ := h.items
  rw [← bare_skipComments, hitems, hrun.skip h.shown]
  exact items_cons_of_not_isComment h.shown _

/-- A step takes one bare item, which the pattern accepts. -/
theorem Cursor.step_ok {c rest : Cursor} {pattern : Pattern} {i : Item}
    (h : c.step pattern = .ok (i, rest)) :
    bare c.items = uncommented.item i :: bare rest.items ∧ pattern.accepts i = true := by
  obtain ⟨htakes, haccepts⟩ := takes_of_step h
  exact ⟨htakes.bare_items, haccepts⟩

/-- Entering takes one bare form, whose bare items the inner cursor has. -/
theorem Cursor.enter_ok {c inner behind : Cursor} (h : c.enter = .ok (inner, behind)) :
    ∃ opening closing, bare c.items = .form (bare inner.items) opening closing ::
      bare behind.items := by
  obtain ⟨span, htakes⟩ := takes_of_enter h
  exact ⟨span, inner.closing, htakes.bare_items⟩

/-- What was read to the end was read, and no bare item is left behind it. -/
theorem Cursor.toEnd_ok {α : Type} {cause : Cause} {reading : Except ParseError (α × Cursor)}
    {a : α} (h : toEnd cause reading = .ok a) :
    ∃ rest, reading = .ok (a, rest) ∧ bare rest.items = [] := by
  obtain ⟨⟨b, rest⟩, hreading, h⟩ := bind_eq_ok h
  change (rest.expectEnd cause >>= fun _ => .ok b) = .ok a at h
  obtain ⟨_, hend, hb⟩ := bind_eq_ok h
  cases hb
  unfold expectEnd at hend
  split at hend
  · next he => exact ⟨rest, hreading, isEmpty_iff.1 he⟩
  · cases hend

namespace Rule

variable {α β : Type}

/-- A run of two rules succeeds through both. -/
theorem bind_ok {r : Rule α} {k : α → Rule β} {c rest : Cursor} {b : β}
    (h : (r >>= k) c = .ok (b, rest)) :
    ∃ a mid, r c = .ok (a, mid) ∧ k a mid = .ok (b, rest) := by
  obtain ⟨⟨a, mid⟩, hr, hk⟩ := bind_eq_ok h
  exact ⟨a, mid, hr, hk⟩

/-- What is made of a result was made of what the rule read. -/
theorem map_ok {f : α → β} {r : Rule α} {c rest : Cursor} {b : β}
    (h : (f <$> r) c = .ok (b, rest)) : ∃ a, r c = .ok (a, rest) ∧ b = f a := by
  rw [map_eq_bind] at h
  obtain ⟨a, mid, hr, hk⟩ := bind_ok h
  cases hk
  exact ⟨a, hr, rfl⟩

/-- A keyword that was taken was the next bare item. -/
theorem keyword_ok {word : String} {c rest : Cursor} {u : Unit}
    (h : keyword word c = .ok (u, rest)) :
    ∃ span, bare c.items = .keyword word span :: bare rest.items := by
  obtain ⟨i, mid, hs, hk⟩ := bind_ok h
  cases hk
  obtain ⟨hb, ha⟩ := Cursor.step_ok hs
  obtain ⟨span, rfl⟩ := Pattern.accepts_keyword ha
  exact ⟨span, hb⟩

/-- A reserved word that was taken was the next bare item. -/
theorem reserved_ok {word : String} {c rest : Cursor} {u : Unit}
    (h : reserved word c = .ok (u, rest)) :
    ∃ span, bare c.items = .reserved word span :: bare rest.items := by
  obtain ⟨i, mid, hs, hk⟩ := bind_ok h
  cases hk
  obtain ⟨hb, ha⟩ := Cursor.step_ok hs
  obtain ⟨span, rfl⟩ := Pattern.accepts_reserved ha
  exact ⟨span, hb⟩

/-- A string that was taken was the next bare item. -/
theorem string_ok {c rest : Cursor} {i : Item} (h : c.step .string = .ok (i, rest)) :
    ∃ text span, i = .string text span ∧ bare c.items = .string text span :: bare rest.items := by
  obtain ⟨hb, ha⟩ := Cursor.step_ok h
  obtain ⟨text, span, rfl⟩ := Pattern.accepts_string ha
  exact ⟨text, span, rfl, hb⟩

/-- A rule inside a form enters it and uses it up. -/
theorem inForm_enter_ok {r : Rule α} {c rest : Cursor} {a : α}
    (h : inForm r c = .ok (a, rest)) :
    ∃ inner last, c.enter = .ok (inner, rest) ∧ r inner = .ok (a, last) ∧
      bare last.items = [] := by
  rw [inForm_apply] at h
  cases he : c.enter with
  | error e => rw [he] at h; cases h
  | ok p =>
    obtain ⟨inner, behind⟩ := p
    rw [he] at h
    dsimp only at h
    cases ht : Cursor.toEnd .expectedClose (r inner) with
    | error e => rw [ht] at h; cases h
    | ok b =>
      rw [ht] at h
      cases h
      obtain ⟨last, hr, hl⟩ := Cursor.toEnd_ok ht
      exact ⟨inner, last, rfl, hr, hl⟩

/-- A rule inside a form uses all of the form's bare items. -/
theorem inForm_ok {r : Rule α} {c rest : Cursor} {a : α} (h : inForm r c = .ok (a, rest)) :
    ∃ inner last opening closing, r inner = .ok (a, last) ∧ inner.size < c.size ∧
      bare last.items = [] ∧
      bare c.items = .form (bare inner.items) opening closing :: bare rest.items := by
  obtain ⟨inner, last, he, hr, hl⟩ := inForm_enter_ok h
  obtain ⟨opening, closing, hb⟩ := Cursor.enter_ok he
  exact ⟨inner, last, opening, closing, hr, Cursor.size_enter_lt he, hl, hb⟩

/-- A choice succeeds through one of its branches. -/
theorem choose_ok {branches : List (Pattern × Rule α)} {c rest : Cursor} {a : α}
    (h : choose branches c = .ok (a, rest)) : ∃ branch ∈ branches, branch.2 c = .ok (a, rest) := by
  unfold choose at h
  cases hb : branches.find? fun branch => c.peek branch.1 with
  | none => rw [hb] at h; cases h
  | some branch =>
    rw [hb] at h
    exact ⟨branch, List.mem_of_find?_eq_some hb, h⟩

end Rule

/-! ## Lists of constructs -/

/-- The constructs of a list are those of its bare items, one each. -/
theorem Entry.documentedFrom_ok {α β : Type} {entry : Entry α} {f : α → β}
    {Derives : Item → β → Prop}
    (hentry : ∀ i a, entry i = .ok a → Derives (uncommented.item i) (f a))
    {texts : List String} {l : List Item} {ds : List (Documented α)}
    (h : entry.documentedFrom texts l = .ok ds) :
    DerivesEach Derives (bare l) (ds.map (uncommented.documented f)) := by
  induction l generalizing texts ds with
  | nil => cases h; exact .nil
  | cons i rest ih =>
    rw [documentedFrom] at h
    have hsome := Item.isSome_comment? i
    cases hc : i.comment? with
    | some text =>
      rw [hc] at h hsome
      have hbare : bare (i :: rest) = bare rest := by simp [bare, items, ← hsome, uncommented]
      rw [hbare]
      exact ih h
    | none =>
      rw [hc] at h hsome
      rw [bare, items_cons_of_not_isComment hsome.symm]
      obtain ⟨a, he, h⟩ := bind_eq_ok h
      obtain ⟨more, hm, h⟩ := bind_eq_ok h
      cases h
      exact .cons ⟨rfl, hentry i a he⟩ (ih hm)

/-- A form that is read as an entry is used up. -/
theorem Entry.form_read {α : Type} {r : Rule α} {i : Item} {a : α} (h : form r i = .ok a) :
    ∃ children opening closing last, i = .form children opening closing ∧
      r ⟨children, closing⟩ = .ok (a, last) ∧ bare last.items = [] := by
  cases i with
  | token t => cases h
  | form children opening closing =>
    obtain ⟨last, hr, hl⟩ := Cursor.toEnd_ok h
    exact ⟨children, opening, closing, last, rfl, hr, hl⟩

/-- The form of an entry, with the bare items that its rule used up. -/
theorem Entry.form_ok {α : Type} {r : Rule α} {i : Item} {a : α} (h : form r i = .ok a) :
    ∃ inner last opening closing, r inner = .ok (a, last) ∧ bare last.items = [] ∧
      uncommented.item i = .form (bare inner.items) opening closing := by
  obtain ⟨children, opening, closing, last, rfl, hr, hl⟩ := form_read h
  exact ⟨⟨children, closing⟩, last, opening, closing, hr, hl, rfl⟩

/-- A list of constructs is read from all items that are left. -/
theorem Rule.documentedFrom_ok {α : Type} {entry : Entry α} {c rest : Cursor}
    {ds : List (Documented α)} (h : documented entry c = .ok (ds, rest)) :
    entry.documentedFrom [] c.items = .ok ds ∧ rest.items = [] := by
  obtain ⟨ds', hds, hpair⟩ := bind_eq_ok h
  cases hpair
  exact ⟨hds, rfl⟩

/-- A list that may not be empty is read where something is left. -/
theorem Rule.documented_of_documentedSome {α : Type} {what : Constituent} {entry : Entry α}
    {c rest : Cursor} {ds : List (Documented α)}
    (h : documentedSome what entry c = .ok (ds, rest)) :
    documented entry c = .ok (ds, rest) ∧ bare c.items ≠ [] := by
  unfold documentedSome at h
  split at h
  · cases h
  · next he => exact ⟨h, fun hnil => he (isEmpty_iff.2 hnil)⟩

/-- Constructs that were read up to the end are derived from the bare items that were left, one from
each. -/
theorem Rule.documented_ok {α β : Type} {entry : Entry α} {f : α → β}
    {Derives : Item → β → Prop}
    (hentry : ∀ i a, entry i = .ok a → Derives (uncommented.item i) (f a))
    {c rest : Cursor} {ds : List (Documented α)} (h : documented entry c = .ok (ds, rest)) :
    DerivesEach Derives (bare c.items) (ds.map (uncommented.documented f)) ∧
      bare rest.items = [] := by
  obtain ⟨hds, hrest⟩ := documentedFrom_ok h
  exact ⟨Entry.documentedFrom_ok hentry hds, by rw [hrest]; rfl⟩

/-- So are they where one was asked for, and there was an item. -/
theorem Rule.documentedSome_ok {α β : Type} {what : Constituent} {entry : Entry α} {f : α → β}
    {Derives : Item → β → Prop}
    (hentry : ∀ i a, entry i = .ok a → Derives (uncommented.item i) (f a))
    {c rest : Cursor} {ds : List (Documented α)}
    (h : documentedSome what entry c = .ok (ds, rest)) :
    DerivesEach Derives (bare c.items) (ds.map (uncommented.documented f)) ∧
      bare c.items ≠ [] ∧ bare rest.items = [] := by
  obtain ⟨h, hne⟩ := documented_of_documentedSome h
  obtain ⟨hds, hrest⟩ := documented_ok hentry h
  exact ⟨hds, hne, hrest⟩

/-! ## The grammar -/

namespace Grammar

variable {c rest : Cursor}

/-- An identifier that was read is derived from the item that was taken. -/
theorem identifier_sound {ident : Identifier} (h : identifier c = .ok (ident, rest)) :
    ∃ i, bare c.items = i :: bare rest.items ∧ DerivesIdentifier i ident := by
  obtain ⟨i, mid, hs, hk⟩ := Rule.bind_ok h
  cases hk
  obtain ⟨hb, ha⟩ := Cursor.step_ok hs
  obtain ⟨text, span, rfl⟩ := Pattern.accepts_identifier ha
  exact ⟨_, hb, .dollar text span⟩

/-- So is one that was read as an entry. -/
theorem identifierEntry_sound (i : Item) (ident : Identifier)
    (h : identifierEntry i = .ok ident) : DerivesIdentifier (uncommented.item i) ident := by
  unfold identifierEntry at h
  split at h
  · next ha =>
    cases h
    obtain ⟨text, span, rfl⟩ := Pattern.accepts_identifier ha
    exact .dollar text span
  · cases h

/-- The name of a slot is derived from a string or from an identifier. -/
theorem fieldName_sound {ident : Identifier} (h : fieldName c = .ok (ident, rest)) :
    ∃ i, bare c.items = i :: bare rest.items ∧ DerivesName i ident := by
  unfold fieldName at h
  rw [Rule.peek_bind] at h
  split at h
  · obtain ⟨i, mid, hs, hk⟩ := Rule.bind_ok h
    cases hk
    obtain ⟨text, span, rfl, hb⟩ := Rule.string_ok hs
    exact ⟨_, hb, .string text span⟩
  · obtain ⟨i, hb, hi⟩ := identifier_sound h
    exact ⟨i, hb, .identifier hi⟩

/-- A scalar is derived from its keyword. -/
theorem scalar_sound {type : Scalar} (h : scalar c = .ok (type, rest)) :
    ∃ i, bare c.items = i :: bare rest.items ∧ DerivesScalar i type := by
  obtain ⟨branch, hbranch, h⟩ := Rule.choose_ok h
  obtain ⟨type', _, rfl⟩ := List.mem_map.1 hbranch
  obtain ⟨_, mid, hk, hp⟩ := Rule.bind_ok h
  cases hp
  obtain ⟨span, hb⟩ := Rule.keyword_ok hk
  exact ⟨_, hb, .keyword type span⟩

/-- The datatype inside a form is read from less than what is left. -/
theorem datatype_sound {type : Datatype} (h : datatype c = .ok (type, rest)) :
    ∃ i, bare c.items = i :: bare rest.items ∧ DerivesDatatype i type := by
  induction hn : c.size using Nat.strongRecOn generalizing c rest type with
  | ind n ih =>
  subst hn
  rw [datatype_eq] at h
  split at h
  · obtain ⟨ident, mid, hi, hp⟩ := Rule.bind_ok h
    cases hp
    obtain ⟨i, hb, hi⟩ := identifier_sound hi
    exact ⟨i, hb, .named hi⟩
  split at h
  · obtain ⟨inner, last, opening, closing, hr, hsize, hl, hb⟩ := Rule.inForm_ok h
    obtain ⟨_, mid, hk, hr⟩ := Rule.bind_ok hr
    obtain ⟨element, last', hd, hp⟩ := Rule.bind_ok hr
    cases hp
    have hmid := Rule.size_keyword_lt hk
    obtain ⟨span, hk⟩ := Rule.keyword_ok hk
    obtain ⟨i, hi, hd⟩ := ih _ (by omega) hd rfl
    rw [hk, hi, hl] at hb
    exact ⟨_, hb, .array hd⟩
  split at h
  · obtain ⟨inner, last, opening, closing, hr, hsize, hl, hb⟩ := Rule.inForm_ok h
    obtain ⟨_, mid, hw, hr⟩ := Rule.bind_ok hr
    have hmid := Rule.size_reserved_lt hw
    obtain ⟨span, hw⟩ := Rule.reserved_ok hw
    rw [Rule.peek_bind] at hr
    split at hr
    · obtain ⟨_, mid', hk, hr⟩ := Rule.bind_ok hr
      obtain ⟨pointee, last', hd, hp⟩ := Rule.bind_ok hr
      cases hp
      have hmid' := Rule.size_keyword_lt hk
      obtain ⟨span', hk⟩ := Rule.keyword_ok hk
      obtain ⟨i, hi, hd⟩ := ih _ (by omega) hd rfl
      rw [hw, hk, hi, hl] at hb
      exact ⟨_, hb, .constPointer hd⟩
    · obtain ⟨_, mid', hk, hr⟩ := Rule.bind_ok hr
      obtain ⟨pointee, last', hd, hp⟩ := Rule.bind_ok hr
      cases hp
      have hmid' := Rule.size_keyword_lt hk
      obtain ⟨span', hk⟩ := Rule.keyword_ok hk
      obtain ⟨i, hi, hd⟩ := ih _ (by omega) hd rfl
      rw [hw, hk, hi, hl] at hb
      exact ⟨_, hb, .pointer hd⟩
  · obtain ⟨type, mid, hs, hp⟩ := Rule.bind_ok h
    cases hp
    obtain ⟨i, hb, hs⟩ := scalar_sound hs
    exact ⟨i, hb, .scalar hs⟩

/-- Behind the word of its form, a slot is a name and a type. -/
theorem slot_sound {f : Field} (h : slot c = .ok (f, rest)) :
    ∃ n t, bare c.items = n :: t :: bare rest.items ∧ DerivesName n f.name ∧
      DerivesDatatype t f.type := by
  obtain ⟨name, mid, hn, h⟩ := Rule.bind_ok h
  obtain ⟨type, mid', ht, hp⟩ := Rule.bind_ok h
  cases hp
  obtain ⟨n, hb, hn⟩ := fieldName_sound hn
  obtain ⟨t, hb', ht⟩ := datatype_sound ht
  exact ⟨n, t, by rw [hb, hb'], hn, ht⟩

/-- A field is derived from its form. -/
theorem fieldForm_sound (i : Item) (f : Field) (h : Entry.form fieldForm i = .ok f) :
    DerivesField "field" (uncommented.item i) (uncommented.field f) := by
  obtain ⟨inner, last, opening, closing, hr, hl, hi⟩ := Entry.form_ok h
  obtain ⟨_, mid, hk, hr⟩ := Rule.bind_ok hr
  obtain ⟨span, hk⟩ := Rule.keyword_ok hk
  obtain ⟨n, t, hb, hn, ht⟩ := slot_sound hr
  rw [hi, hk, hb, hl, uncommented_field]
  exact .slot hn ht

/-- The inside of a definition's form, as the bare items that the form is made of. -/
theorem typedefForm_sound {definition : Typedef} {opening closing : Span}
    (h : typedefForm c = .ok (definition, rest)) :
    DerivesTypedef (.form (bare c.items) opening closing) (uncommented.typedef definition) := by
  obtain ⟨branch, hbranch, h⟩ := Rule.choose_ok h
  simp only [List.mem_cons, List.not_mem_nil, or_false] at hbranch
  rcases hbranch with rfl | rfl | rfl | rfl | rfl <;>
    obtain ⟨_, mid, hk, h⟩ := Rule.bind_ok h <;>
    obtain ⟨span, hk⟩ := Rule.keyword_ok hk <;>
    rw [hk]
  · obtain ⟨repr, mid', hs, h⟩ := Rule.bind_ok h
    obtain ⟨members, last, hm, hp⟩ := Rule.bind_ok h
    cases hp
    obtain ⟨r, hb, hs⟩ := scalar_sound hs
    obtain ⟨hm, hne, -⟩ :=
      Rule.documentedSome_ok (f := uncommented.identifier) identifierEntry_sound hm
    rw [hb]
    exact .enum hs hm hne
  · obtain ⟨repr, mid', hs, h⟩ := Rule.bind_ok h
    obtain ⟨members, last, hm, hp⟩ := Rule.bind_ok h
    cases hp
    obtain ⟨r, hb, hs⟩ := scalar_sound hs
    obtain ⟨hm, -⟩ := Rule.documented_ok (f := uncommented.identifier) identifierEntry_sound hm
    rw [hb]
    exact .flags hs hm
  · obtain ⟨fields, last, hm, hp⟩ := Rule.bind_ok h
    cases hp
    obtain ⟨hm, hne, -⟩ := Rule.documentedSome_ok (f := uncommented.field) fieldForm_sound hm
    exact .struct hm hne
  · obtain ⟨fields, last, hm, hp⟩ := Rule.bind_ok h
    cases hp
    obtain ⟨hm, hne, -⟩ := Rule.documentedSome_ok (f := uncommented.field) fieldForm_sound hm
    exact .union hm hne
  · obtain ⟨ids, last, hm, hp⟩ := Rule.bind_ok h
    cases hp
    obtain ⟨hm, -⟩ := Rule.documented_ok (f := uncommented.identifier) identifierEntry_sound hm
    refine .handle ?_
    rw [List.map_map]
    have hpoint : List.Forall₂ (fun i (d : Documented Identifier) => DerivesIdentifier i d.item)
        (bare mid.items) (ids.map (uncommented.documented uncommented.identifier)) :=
      hm.imp fun _ _ h => h.2
    rw [List.forall₂_map_right_iff] at hpoint ⊢
    exact hpoint

/-- A type definition is derived from the item that was taken. -/
theorem typedef_sound {definition : Typedef} (h : typedef c = .ok (definition, rest)) :
    ∃ i, bare c.items = i :: bare rest.items ∧
      DerivesTypedef i (uncommented.typedef definition) := by
  rw [typedef_eq] at h
  split at h
  · obtain ⟨type, mid, ht, hp⟩ := Rule.bind_ok h
    cases hp
    obtain ⟨i, hb, ht⟩ := datatype_sound ht
    rw [View.typedef, uncommented_datatype]
    exact ⟨i, hb, .alias ht⟩
  · obtain ⟨inner, last, opening, closing, hr, -, -, hb⟩ := Rule.inForm_ok h
    exact ⟨_, hb, typedefForm_sound hr⟩

/-- A type name is derived from its form, if nothing was left in it. -/
theorem typename_sound {decl : Typename} {opening closing : Span}
    (h : typename c = .ok (decl, rest)) (hrest : bare rest.items = []) :
    DerivesTopLevel (.form (bare c.items) opening closing)
      (.typename (uncommented.typename decl)) := by
  obtain ⟨_, mid, hk, h⟩ := Rule.bind_ok h
  obtain ⟨ident, mid', hi, h⟩ := Rule.bind_ok h
  obtain ⟨definition, last, hd, hp⟩ := Rule.bind_ok h
  cases hp
  obtain ⟨span, hk⟩ := Rule.keyword_ok hk
  obtain ⟨n, hn, hi⟩ := identifier_sound hi
  obtain ⟨t, ht, hd⟩ := typedef_sound hd
  rw [hk, hn, ht, hrest]
  exact .typename hi hd

/-- An import is derived from its form, if nothing was left in it. -/
theorem moduleImport_sound {decl : ModuleImport} {opening closing : Span}
    (h : moduleImport c = .ok (decl, rest)) (hrest : bare rest.items = []) :
    DerivesModuleDecl (.form (bare c.items) opening closing)
      (.moduleImport (uncommented.moduleImport decl)) := by
  obtain ⟨_, mid, hk, h⟩ := Rule.bind_ok h
  obtain ⟨i, mid', hs, h⟩ := Rule.bind_ok h
  obtain ⟨type, last, hf, hp⟩ := Rule.bind_ok h
  cases hp
  obtain ⟨span, hk⟩ := Rule.keyword_ok hk
  obtain ⟨name, nameSpan, rfl, hname⟩ := Rule.string_ok hs
  obtain ⟨inner, end_, opening', closing', hr, -, hl, htype⟩ := Rule.inForm_ok hf
  obtain ⟨_, mid'', hm, hp⟩ := Rule.bind_ok hr
  cases hp
  obtain ⟨span', hmemory⟩ := Rule.keyword_ok hm
  rw [hk, hname, htype, hmemory, hl, hrest]
  exact .moduleImport

/-- A slot of a function is a field behind the word of its kind. -/
def DerivesSlot (i : Item) (slot : SlotKind × Field) : Prop :=
  DerivesField slot.1.keyword i slot.2

/-- A slot of a function is derived from its form, with its kind. -/
theorem slotForm_sound (i : Item) (slot : SlotKind × Field)
    (h : Entry.form slotForm i = .ok slot) : DerivesSlot (uncommented.item i) slot := by
  obtain ⟨inner, last, opening, closing, hr, hl, hi⟩ := Entry.form_ok h
  obtain ⟨branch, hbranch, hr⟩ := Rule.choose_ok hr
  obtain ⟨kind, _, rfl⟩ := List.mem_map.1 hbranch
  obtain ⟨_, mid, hk, hr⟩ := Rule.bind_ok hr
  obtain ⟨f, mid', hf, hp⟩ := Rule.bind_ok hr
  cases hp
  obtain ⟨span, hk⟩ := Rule.keyword_ok hk
  obtain ⟨n, t, hb, hn, ht⟩ := slot_sound hf
  rw [hi, hk, hb, hl]
  exact .slot hn ht

/-- Dealing the slots out to parameters and results is how they are derived. -/
theorem slotsOf_sound {is : List Item} {slots : List (Documented (SlotKind × Field))}
    (h : DerivesEach DerivesSlot is slots) :
    DerivesSlots is (slotsOf .param slots) (slotsOf .result slots) := by
  induction h with
  | nil => exact .nil
  | @cons i d is ds h hs ih =>
    obtain ⟨comments, kind, f⟩ := d
    obtain ⟨rfl, hf⟩ := h
    cases kind with
    | param => exact .param hf ih
    | result => exact .result hf ih

/-- An interface function is derived from its form, of which nothing can be left. -/
theorem interfaceFunc_sound {decl : InterfaceFunc} {opening closing : Span}
    (h : interfaceFunc c = .ok (decl, rest)) :
    DerivesModuleDecl (.form (bare c.items) opening closing)
      (.func (uncommented.func decl)) := by
  obtain ⟨_, mid, hr, h⟩ := Rule.bind_ok h
  obtain ⟨_, mid', hk, h⟩ := Rule.bind_ok h
  obtain ⟨i, behind, hf, h⟩ := Rule.bind_ok h
  obtain ⟨slots, last, hs, hp⟩ := Rule.bind_ok h
  cases hp
  obtain ⟨span, hreserved⟩ := Rule.reserved_ok hr
  obtain ⟨span', hfunc⟩ := Rule.keyword_ok hk
  obtain ⟨inner, end_, opening', closing', he, -, hl, hform⟩ := Rule.inForm_ok hf
  obtain ⟨_, mid'', he, hn⟩ := Rule.bind_ok he
  obtain ⟨span'', hexport⟩ := Rule.keyword_ok he
  obtain ⟨name, nameSpan, rfl, hname⟩ := Rule.string_ok hn
  have hentry (i : Item) (slot : SlotKind × Field) (h : Entry.form slotForm i = .ok slot) :
      DerivesSlot (uncommented.item i) (Prod.map id uncommented.field slot) := by
    rw [DerivesSlot, Prod.map_snd, uncommented_field]
    exact slotForm_sound i slot h
  obtain ⟨hs, -⟩ := Rule.documented_ok hentry hs
  have hslots := slotsOf_sound hs
  rw [slotsOf_documented, slotsOf_documented] at hslots
  rw [hreserved, hfunc, hform, hexport, hname, hl]
  exact .func hslots

/-- A declaration inside a module is derived from its form. -/
theorem moduleDecl_sound (i : Item) (decl : ModuleDecl) (h : Entry.form moduleDecl i = .ok decl) :
    DerivesModuleDecl (uncommented.item i) (uncommented.moduleDecl decl) := by
  obtain ⟨inner, last, opening, closing, hr, hl, hi⟩ := Entry.form_ok h
  obtain ⟨branch, hbranch, hr⟩ := Rule.choose_ok hr
  simp only [List.mem_cons, List.not_mem_nil, or_false] at hbranch
  rw [hi]
  rcases hbranch with rfl | rfl
  · obtain ⟨decl, hd, rfl⟩ := Rule.map_ok hr
    exact moduleImport_sound hd hl
  · obtain ⟨decl, hd, rfl⟩ := Rule.map_ok hr
    exact interfaceFunc_sound hd

/-- A module is derived from its form, of which nothing can be left. -/
theorem module_sound {decl : Module} {opening closing : Span}
    (h : module c = .ok (decl, rest)) :
    DerivesTopLevel (.form (bare c.items) opening closing) (.module (uncommented.module decl)) := by
  obtain ⟨_, mid, hk, h⟩ := Rule.bind_ok h
  obtain ⟨ident, mid', hi, h⟩ := Rule.bind_ok h
  obtain ⟨decls, last, hd, hp⟩ := Rule.bind_ok h
  cases hp
  obtain ⟨span, hk⟩ := Rule.keyword_ok hk
  obtain ⟨n, hn, hi⟩ := identifier_sound hi
  obtain ⟨hd, -⟩ := Rule.documented_ok (f := uncommented.moduleDecl) moduleDecl_sound hd
  rw [hk, hn]
  exact .module hi hd

/-- A declaration of a document is derived from its form. -/
theorem topLevel_sound (i : Item) (decl : TopLevel) (h : Entry.form topLevel i = .ok decl) :
    DerivesTopLevel (uncommented.item i) (uncommented.topLevel decl) := by
  obtain ⟨inner, last, opening, closing, hr, hl, hi⟩ := Entry.form_ok h
  unfold topLevel at hr
  rw [Rule.peek_bind] at hr
  rw [hi]
  split at hr
  · obtain ⟨path, hu, rfl⟩ := Rule.map_ok hr
    obtain ⟨_, mid, hk, hu⟩ := Rule.bind_ok hu
    obtain ⟨i, mid', hs, hp⟩ := Rule.bind_ok hu
    cases hp
    obtain ⟨span, hk⟩ := Rule.keyword_ok hk
    obtain ⟨path, pathSpan, rfl, hpath⟩ := Rule.string_ok hs
    rw [hk, hpath, hl]
    exact .use
  · obtain ⟨branch, hbranch, hr⟩ := Rule.choose_ok hr
    simp only [List.mem_cons, List.not_mem_nil, or_false] at hbranch
    rcases hbranch with rfl | rfl
    · obtain ⟨decl, hd, rfl⟩ := Rule.map_ok hr
      exact module_sound hd
    · obtain ⟨decl, hd, rfl⟩ := Rule.map_ok hr
      exact typename_sound hd hl

/-- A document is derived from all items of its source but the comments. -/
theorem document_sound {d : Document} (h : document c = .ok (d, rest)) :
    DerivesDocument (bare c.items) (uncommented.document d) := by
  obtain ⟨items, last, hd, hp⟩ := Rule.bind_ok h
  cases hp
  exact (Rule.documented_ok (f := uncommented.topLevel) topLevel_sound hd).1

end Grammar

end WitxFrontEnd
