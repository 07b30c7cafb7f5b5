import WitxFrontEnd.Proofs.Rule

/-!
# Views of a source

A `View` changes what no rule of the grammar decides on: it may drop the comments, and it renames
the spans. Items, cursors, errors and trees each have their view, and `commutes_document`,
`commutes_typedef` and `commutes_datatype` say that a rule run on the view of a cursor gives the
view of what it gives on the cursor, whether it succeeds or fails.

A rule that goes on with what it read cannot be the same rule on both sides, since what it read is
seen through the view as well. `Commutes` therefore speaks of two rules.
-/

namespace WitxFrontEnd

/-- Whether comments are kept, and what becomes of every span. -/
structure View where
  keepsComments : Bool
  span : Span → Span

namespace View

/-- The view without comments. -/
def uncommented : View := ⟨false, id⟩

/-! ## Items, cursors and errors -/

section Items

variable (v : View)

mutual

/-- An item in the view. -/
def item : Item → Item
  | .token t => .token { t with span := v.span t.span }
  | .form children span closing => .form (items children) (v.span span) (v.span closing)

/-- The items of a form, or of a source, in the view. -/
def items : List Item → List Item
  | [] => []
  | i :: rest => if i.isComment && !v.keepsComments then items rest else item i :: items rest

end

/-- The comments of a construct in the view. -/
def comments (texts : List String) : List String :=
  if v.keepsComments then texts else []

/-- A cursor in the view. -/
def cursor (c : Cursor) : Cursor :=
  ⟨v.items c.items, v.span c.closing⟩

/-- An error in the view, which has the same cause. -/
def error (e : ParseError) : ParseError :=
  ⟨e.cause, e.span.map v.span⟩

/-- The outcome of reading something, in the view. -/
def outcome {α β : Type} (f : α → β) : Except ParseError α → Except ParseError β
  | .ok a => .ok (f a)
  | .error e => .error (v.error e)

end Items

/-! ## Trees -/

section Trees

variable (v : View)

/-- An identifier in the view. -/
def identifier (ident : Identifier) : Identifier :=
  { ident with span := v.span ident.span }

/-- A datatype in the view. -/
def datatype : Datatype → Datatype
  | .scalar type => .scalar type
  | .array element => .array (datatype element)
  | .pointer pointee => .pointer (datatype pointee)
  | .constPointer pointee => .constPointer (datatype pointee)
  | .named ident => .named (v.identifier ident)

/-- A documented construct in the view. -/
def documented {α β : Type} (f : α → β) (d : Documented α) : Documented β :=
  ⟨v.comments d.comments, f d.item⟩

/-- A field in the view. -/
def field (f : Field) : Field :=
  ⟨v.identifier f.name, v.datatype f.type⟩

/-- A type definition in the view. -/
def typedef : Typedef → Typedef
  | .alias type => .alias (v.datatype type)
  | .enum repr members => .enum repr (members.map (v.documented v.identifier))
  | .flags repr flags => .flags repr (flags.map (v.documented v.identifier))
  | .struct fields => .struct (fields.map (v.documented v.field))
  | .union fields => .union (fields.map (v.documented v.field))
  | .handle supertypes => .handle (supertypes.map v.identifier)

/-- A type name in the view. -/
def typename (decl : Typename) : Typename :=
  ⟨v.identifier decl.ident, v.typedef decl.definition⟩

/-- An import in the view. -/
def moduleImport (decl : ModuleImport) : ModuleImport :=
  { decl with nameSpan := v.span decl.nameSpan }

/-- An interface function in the view. -/
def func (decl : InterfaceFunc) : InterfaceFunc :=
  ⟨decl.exportName, v.span decl.exportSpan, decl.params.map (v.documented v.field),
    decl.results.map (v.documented v.field)⟩

/-- A declaration of a module in the view. -/
def moduleDecl : ModuleDecl → ModuleDecl
  | .moduleImport decl => .moduleImport (v.moduleImport decl)
  | .func decl => .func (v.func decl)

/-- A module in the view. -/
def module (decl : Module) : Module :=
  ⟨v.identifier decl.name, decl.decls.map (v.documented v.moduleDecl)⟩

/-- A declaration of a document in the view. -/
def topLevel : TopLevel → TopLevel
  | .use path => .use path
  | .typename decl => .typename (v.typename decl)
  | .module decl => .module (v.module decl)

/-- A document in the view. -/
def document (d : Document) : Document :=
  ⟨d.items.map (v.documented v.topLevel)⟩

end Trees

/-! ## What a cursor shows -/

section Cursors

variable {v : View} {c : Cursor}

/-- A view keeps comments apart from everything else. -/
@[simp] theorem isComment_item (i : Item) : (v.item i).isComment = i.isComment := by
  cases i <;> rfl

/-- A view leaves the text of a comment as it is. -/
@[simp] theorem comment?_item (i : Item) : (v.item i).comment? = i.comment? := by
  cases i <;> rfl

/-- The span of an item in the view. -/
@[simp] theorem span_item (i : Item) : (v.item i).span = v.span i.span := by
  cases i <;> rfl

/-- A view leaves the text of a token as it is. -/
@[simp] theorem text_item (i : Item) : (v.item i).text = i.text := by
  cases i <;> rfl

/-- What a rule may ask of an item has the same answer in the view. -/
@[simp] theorem accepts_item (pattern : Pattern) (i : Item) :
    pattern.accepts (v.item i) = pattern.accepts i := by
  cases pattern <;> cases i <;> rfl

/-- A view keeps every item that is no comment. -/
theorem items_cons_of_not_isComment {i : Item} (h : i.isComment = false) (rest : List Item) :
    v.items (i :: rest) = v.item i :: v.items rest := by
  rw [items, h]
  rfl

/-- Skipping comments and dropping them do not get into each other's way. -/
theorem skipComments_items (l : List Item) :
    Cursor.skipComments (v.items l) = v.items (Cursor.skipComments l) := by
  induction l with
  | nil => rfl
  | cons i rest ih =>
    unfold Cursor.skipComments at ih ⊢
    rw [items]
    cases hi : i.isComment with
    | false => simp [hi, items_cons_of_not_isComment hi]
    | true => cases hv : v.keepsComments <;> simpa [hi] using ih

/-- Behind the comments there is nothing, or an item that is no comment. -/
theorem skipComments_cases (l : List Item) :
    Cursor.skipComments l = [] ∨
      ∃ i rest, Cursor.skipComments l = i :: rest ∧ i.isComment = false := by
  have h := List.head?_dropWhile_not Item.isComment l
  unfold Cursor.skipComments
  cases hl : l.dropWhile Item.isComment with
  | nil => exact .inl rfl
  | cons i rest =>
    rw [hl] at h
    exact .inr ⟨i, rest, rfl, h⟩

/-- The next item in the view, whether comments are kept or not. -/
@[simp] theorem next?_cursor : (v.cursor c).next? = c.next?.map v.item := by
  unfold Cursor.next? cursor
  rw [skipComments_items]
  rcases skipComments_cases c.items with h | ⟨i, rest, h, hi⟩
  · rw [h]; rfl
  · rw [h, items_cons_of_not_isComment hi]; rfl

/-- The token after the next one in the view. -/
@[simp] theorem second?_cursor : (v.cursor c).second? = c.second?.map v.item := by
  have hhead (l : List Item) :
      (Cursor.skipComments (v.items l)).head? = (Cursor.skipComments l).head?.map v.item :=
    next?_cursor (c := ⟨l, c.closing⟩)
  unfold Cursor.second? cursor
  rw [skipComments_items]
  rcases skipComments_cases c.items with h | ⟨i, rest, h, hi⟩
  · rw [h]; rfl
  · rw [h, items_cons_of_not_isComment hi]
    cases i with
    | token t => exact hhead rest
    | form children span closing => exact hhead children

/-- The view ends where the source ends. -/
@[simp] theorem isEmpty_cursor : (v.cursor c).isEmpty = c.isEmpty := by
  simp [Cursor.isEmpty]

/-- Looking at the next item decides the same in the view. -/
@[simp] theorem peek_cursor (pattern : Pattern) : (v.cursor c).peek pattern = c.peek pattern := by
  simp [Cursor.peek, Option.any_map]

/-- Looking at the token after it decides the same in the view. -/
@[simp] theorem peekSecond_cursor (pattern : Pattern) :
    (v.cursor c).peekSecond pattern = c.peekSecond pattern := by
  simp [Cursor.peekSecond, Option.any_map]

/-- The place of a mistake in the view. -/
@[simp] theorem span_cursor : (v.cursor c).span = v.span c.span := by
  unfold Cursor.span
  rw [next?_cursor]
  cases c.next? with
  | none => rfl
  | some i => exact span_item i

/-- A mistake at the same item has the same cause in the view. -/
@[simp] theorem error_cursor (cause : Cause) :
    (v.cursor c).error cause = v.error (c.error cause) := by
  simp [Cursor.error, error]

/-- Stepping in the view leads to the view of where stepping leads. -/
theorem step_cursor (pattern : Pattern) :
    (v.cursor c).step pattern = v.outcome (Prod.map v.item v.cursor) (c.step pattern) := by
  have herror : (v.cursor c).error (.expected [pattern]) =
      v.error (c.error (.expected [pattern])) :=
    error_cursor _
  unfold Cursor.step
  rw [herror, show (v.cursor c).items = v.items c.items from rfl, skipComments_items]
  rcases skipComments_cases c.items with h | ⟨i, rest, h, hi⟩
  · rw [h]; rfl
  · rw [h, items_cons_of_not_isComment hi]
    simp only [accepts_item]
    split <;> rfl

/-- Entering a form in the view leads into the view of the form. -/
theorem enter_cursor :
    (v.cursor c).enter = v.outcome (Prod.map v.cursor v.cursor) c.enter := by
  have herror : (v.cursor c).error (.expected [.leftParen]) =
      v.error (c.error (.expected [.leftParen])) := error_cursor _
  unfold Cursor.enter
  rw [herror, show (v.cursor c).items = v.items c.items from rfl, skipComments_items]
  rcases skipComments_cases c.items with h | ⟨i, rest, h, hi⟩
  · rw [h]; rfl
  · rw [h, items_cons_of_not_isComment hi]
    cases i <;> rfl

/-- What has to be used up is used up in the view as well. -/
theorem expectEnd_cursor (cause : Cause) :
    (v.cursor c).expectEnd cause = v.outcome id (c.expectEnd cause) := by
  unfold Cursor.expectEnd
  rw [isEmpty_cursor, error_cursor]
  split <;> rfl

/-- A reading that has to use everything up has to do so in the view. -/
theorem toEnd_outcome {α β : Type} (cause : Cause) (f : α → β)
    (reading : Except ParseError (α × Cursor)) :
    Cursor.toEnd cause (v.outcome (Prod.map f v.cursor) reading) =
      v.outcome f (Cursor.toEnd cause reading) := by
  cases reading with
  | error e => rfl
  | ok p =>
    obtain ⟨a, rest⟩ := p
    show ((v.cursor rest).expectEnd cause >>= fun _ => .ok (f a)) =
      v.outcome f (rest.expectEnd cause >>= fun _ => .ok a)
    rw [expectEnd_cursor]
    cases rest.expectEnd cause <;> rfl

end Cursors

/-! ## Equality

Where a construct stands plays no part in whether it equals another, so a view that keeps the
comments gives equal trees. -/

section Equality

variable (v : View)

/-- Lists are equal to what becomes of their elements if these are. -/
theorem beq_map {α : Type} [BEq α] {f : α → α} (h : ∀ a, (f a == a) = true) (l : List α) :
    (l.map f == l) = true := by
  induction l with
  | nil => rfl
  | cons a l ih =>
    show (f a == a && l.map f == l) = true
    rw [h a, ih]
    rfl

/-- A view that keeps comments changes a documented construct only where equality does not look. -/
theorem beq_documented (hv : v.keepsComments = true) {α : Type} [BEq α] {f : α → α}
    (h : ∀ a, (f a == a) = true) (d : Documented α) : (v.documented f d == d) = true := by
  show (v.comments d.comments == d.comments && f d.item == d.item) = true
  rw [comments, if_pos hv, h, beq_self_eq_true]
  rfl

/-- Names are equal wherever they stand. -/
theorem beq_identifier (ident : Identifier) : (v.identifier ident == ident) = true :=
  beq_self_eq_true ident.name

/-- Datatypes are equal wherever the names in them stand. -/
theorem beq_datatype (type : Datatype) : (v.datatype type == type) = true := by
  induction type with
  | scalar type => exact beq_self_eq_true type
  | array element ih => exact ih
  | pointer pointee ih => exact ih
  | constPointer pointee ih => exact ih
  | named ident => exact v.beq_identifier ident

/-- Fields are equal wherever the names in them stand. -/
theorem beq_field (f : Field) : (v.field f == f) = true := by
  show (v.identifier f.name == f.name && v.datatype f.type == f.type) = true
  rw [beq_identifier, beq_datatype]
  rfl

variable {v} (hv : v.keepsComments = true)
include hv

/-- Documented fields are equal to their view. -/
theorem beq_fields (fields : List (Documented Field)) :
    (fields.map (v.documented v.field) == fields) = true :=
  beq_map (v.beq_documented hv v.beq_field) fields

/-- Documented members are equal to their view. -/
theorem beq_members (members : List (Documented Identifier)) :
    (members.map (v.documented v.identifier) == members) = true :=
  beq_map (v.beq_documented hv v.beq_identifier) members

/-- A type definition is equal to its view. -/
theorem beq_typedef (definition : Typedef) : (v.typedef definition == definition) = true := by
  cases definition with
  | «alias» type => exact v.beq_datatype type
  | enum repr members =>
    show (repr == repr && members.map _ == members) = true
    rw [beq_self_eq_true, beq_members hv]
    rfl
  | flags repr flags =>
    show (repr == repr && flags.map _ == flags) = true
    rw [beq_self_eq_true, beq_members hv]
    rfl
  | struct fields => exact beq_fields hv fields
  | union fields => exact beq_fields hv fields
  | handle supertypes => exact beq_map v.beq_identifier supertypes

/-- A declaration inside a module is equal to its view. -/
theorem beq_moduleDecl (decl : ModuleDecl) : (v.moduleDecl decl == decl) = true := by
  cases decl with
  | moduleImport decl =>
    show (decl.name == decl.name && decl.type == decl.type) = true
    rw [beq_self_eq_true, beq_self_eq_true]
    rfl
  | func decl =>
    show (decl.exportName == decl.exportName && decl.params.map _ == decl.params &&
      decl.results.map _ == decl.results) = true
    rw [beq_self_eq_true, beq_fields hv, beq_fields hv]
    rfl

/-- A declaration of a document is equal to its view. -/
theorem beq_topLevel (item : TopLevel) : (v.topLevel item == item) = true := by
  cases item with
  | use path => exact beq_self_eq_true path
  | typename decl =>
    show (v.identifier decl.ident == decl.ident && v.typedef decl.definition == decl.definition) =
      true
    rw [beq_identifier, beq_typedef hv]
    rfl
  | module decl =>
    show (v.identifier decl.name == decl.name && decl.decls.map _ == decl.decls) = true
    rw [beq_identifier, beq_map (v.beq_documented hv (beq_moduleDecl hv))]
    rfl

/-- A document is equal to its view, if the view keeps the comments. -/
theorem beq_document (d : Document) : (v.document d == d) = true :=
  beq_map (v.beq_documented hv (beq_topLevel hv)) d.items

end Equality

end View

end WitxFrontEnd
