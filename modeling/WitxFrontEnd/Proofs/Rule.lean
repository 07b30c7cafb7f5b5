import WitxFrontEnd.Grammar.Document

/-!
# Rules at a cursor

What a rule that is put together from others does at one cursor, and `Grammar.datatype` as such a
rule. The definition of `Grammar.datatype` passes proofs along that less is left; `datatype_eq`
is the same rule without them, so that whatever holds of every combination of rules holds of it
by an induction on what is left.
-/

namespace WitxFrontEnd

/-- What succeeds in two steps succeeds in the first. -/
theorem bind_eq_ok {ε α β : Type} {x : Except ε α} {k : α → Except ε β} {b : β}
    (h : x >>= k = .ok b) : ∃ a, x = .ok a ∧ k a = .ok b := by
  cases x with
  | error e => cases h
  | ok a => exact ⟨a, rfl, h⟩

/-- What is made of a result was made of a result. -/
theorem map_eq_ok {ε α β : Type} {f : α → β} {x : Except ε α} {b : β}
    (h : f <$> x = .ok b) : ∃ a, x = .ok a ∧ f a = b := by
  cases x with
  | error e => cases h
  | ok a => cases h; exact ⟨a, rfl, rfl⟩

namespace Rule

variable {α β : Type}

/-- A rule goes on where the one before it stopped, and fails where that one failed. -/
theorem bind_apply (r : Rule α) (k : α → Rule β) (c : Cursor) :
    (r >>= k) c =
      match r c with
      | .ok (a, rest) => k a rest
      | .error e => .error e := by
  show (r c >>= fun p => k p.1 p.2) = _
  cases r c <;> rfl

/-- Behind a rule that succeeds, the rest of the run. -/
theorem bind_of_ok {r : Rule α} {k : α → Rule β} {c rest : Cursor} {a : α}
    (h : r c = .ok (a, rest)) : (r >>= k) c = k a rest := by
  rw [bind_apply, h]

@[simp] theorem pure_apply (a : α) (c : Cursor) : (pure a : Rule α) c = .ok (a, c) := rfl

/-- Mapping a rule is going on with a rule that reads nothing. -/
theorem map_eq_bind (f : α → β) (r : Rule α) : f <$> r = r >>= fun a => pure (f a) := by
  funext c
  show (r c >>= fun p => .ok (f p.1, p.2)) = (r c >>= fun p => .ok (f p.1, p.2))
  rfl

/-- What is made of a result that was read. -/
theorem map_of_ok {f : α → β} {r : Rule α} {c rest : Cursor} {a : α} (h : r c = .ok (a, rest)) :
    (f <$> r) c = .ok (f a, rest) := by
  rw [map_eq_bind, bind_of_ok h]
  rfl

@[simp] theorem step_apply (pattern : Pattern) (c : Cursor) :
    step pattern c = c.step pattern := rfl

/-- Looking ahead decides between two rules without moving. -/
theorem peek_bind (pattern : Pattern) (k : Bool → Rule β) (c : Cursor) :
    (peek pattern >>= k) c = k (c.peek pattern) c := rfl

/-- Reading a form step by step: it is entered, read to its end, and left behind. -/
theorem inForm_apply (r : Rule α) (c : Cursor) :
    inForm r c =
      match c.enter with
      | .ok (inner, behind) =>
        match Cursor.toEnd .expectedClose (r inner) with
        | .ok a => .ok (a, behind)
        | .error e => .error e
      | .error e => .error e := by
  show Cursor.inForm c _ = _
  unfold Cursor.inForm
  split
  · next h => rw [h]
  · next inner behind h =>
    dsimp only
    rw [h]
    cases h' : Cursor.toEnd .expectedClose (r inner) <;> simp only [h'] <;> rfl

/-- Taking a keyword is taking an item. -/
theorem keyword_bind (word : String) (k : Unit → Rule β) :
    keyword word >>= k = step (.keyword word) >>= fun _ => k () := by
  funext c
  rw [bind_apply, bind_apply, keyword, bind_apply, step_apply]
  cases c.step (.keyword word) <;> rfl

/-- Taking a reserved word is taking an item. -/
theorem reserved_bind (word : String) (k : Unit → Rule β) :
    reserved word >>= k = step (.reserved word) >>= fun _ => k () := by
  funext c
  rw [bind_apply, bind_apply, reserved, bind_apply, step_apply]
  cases c.step (.reserved word) <;> rfl

/-- Behind a keyword less is left. -/
theorem size_keyword_lt {word : String} {c rest : Cursor} {u : Unit}
    (h : keyword word c = .ok (u, rest)) : rest.size < c.size := by
  obtain ⟨⟨i, mid⟩, hstep, hrest⟩ := bind_eq_ok h
  cases hrest
  exact Cursor.size_step_lt hstep

/-- Behind a reserved word less is left. -/
theorem size_reserved_lt {word : String} {c rest : Cursor} {u : Unit}
    (h : reserved word c = .ok (u, rest)) : rest.size < c.size := by
  obtain ⟨⟨i, mid⟩, hstep, hrest⟩ := bind_eq_ok h
  cases hrest
  exact Cursor.size_step_lt hstep

/-- Going on behind a word, as a rule. -/
theorem past_apply (pattern : Pattern) (r : Rule α) (c : Cursor) :
    c.past pattern (fun rest _ => r rest) = (step pattern >>= fun _ => r) c := by
  rw [bind_apply, step_apply]
  unfold Cursor.past
  split
  · next h => rw [h]
  · next h =>
    dsimp only
    rw [h]

end Rule

namespace Grammar

/-- The inside of an array's form. -/
def arrayForm : Rule Datatype := do
  Rule.keyword "array"
  let element ← datatype
  return .array element

/-- The inside of a pointer's form. -/
def pointerForm : Rule Datatype := do
  Rule.reserved "@witx"
  if ← Rule.peek (.keyword "const-pointer") then
    Rule.keyword "const-pointer"
    let pointee ← datatype
    return .constPointer pointee
  else
    Rule.keyword "pointer"
    let pointee ← datatype
    return .pointer pointee

/-- A datatype behind a word, wrapped in what the word stands for. -/
theorem past_datatype (pattern : Pattern) (wrap : Datatype → Datatype) (c : Cursor) :
    (Rule.step pattern >>= fun _ => do let type ← datatype; return wrap type) c =
      c.past pattern fun rest _ => do
        let (type, rest) ← datatype rest
        return (wrap type, rest) :=
  (Rule.past_apply pattern (do let type ← datatype; return wrap type) c).symm

/-- A datatype by its four alternatives, in the order in which they are tried. -/
theorem datatype_eq (c : Cursor) :
    datatype c =
      if c.peek .identifier then (do let ident ← identifier; return .named ident : Rule _) c
      else if c.peekSecond (.keyword "array") then Rule.inForm arrayForm c
      else if c.peek .leftParen then Rule.inForm pointerForm c
      else (do let type ← scalar; return .scalar type : Rule _) c := by
  have hpointer (inner : Cursor) : pointerForm inner =
      inner.past (.reserved "@witx") fun rest _ =>
        if rest.peek (.keyword "const-pointer") then
          rest.past (.keyword "const-pointer") fun rest _ => do
            let (pointee, rest) ← datatype rest
            return (.constPointer pointee, rest)
        else
          rest.past (.keyword "pointer") fun rest _ => do
            let (pointee, rest) ← datatype rest
            return (.pointer pointee, rest) := by
    rw [pointerForm, Rule.reserved_bind, ← Rule.past_apply]
    congr 1
    funext rest _
    rw [Rule.peek_bind, Rule.keyword_bind, Rule.keyword_bind]
    split
    · exact past_datatype _ .constPointer rest
    · exact past_datatype _ .pointer rest
  have harray (inner : Cursor) : arrayForm inner =
      inner.past (.keyword "array") fun rest _ => do
        let (element, rest) ← datatype rest
        return (.array element, rest) := by
    rw [arrayForm, Rule.keyword_bind]
    exact past_datatype _ .array inner
  rw [datatype]
  simp only [← harray, ← hpointer]
  rfl

/-- A type definition by its two alternatives. -/
theorem typedef_eq (c : Cursor) :
    typedef c =
      if !c.peek .leftParen || c.peekSecond (.keyword "array") ||
          c.peekSecond (.reserved "@witx") then
        (do let type ← datatype; return .alias type : Rule _) c
      else Rule.inForm typedefForm c := by
  show (if _ then _ else _ : Rule Typedef) c = _
  split <;> rfl

end Grammar

/-! ## Documents -/

namespace Document

variable {source : String} {filename : Option String}

/-- A document is made of the constructs of a source's items. -/
theorem parse_eq (source : String) (filename : Option String) :
    parse source filename = Item.readAll source filename >>= fun items =>
      Document.mk <$> (Entry.form Grammar.topLevel).documentedFrom [] items := by
  unfold parse Cursor.ofSource
  cases Item.readAll source filename with
  | error e => rfl
  | ok items =>
    show Cursor.toEnd .expectedEnd
      (((Entry.form Grammar.topLevel).documentedFrom [] items >>= _) >>= _) = _ <$> _
    cases (Entry.form Grammar.topLevel).documentedFrom [] items <;> rfl

/-- A document that is parsed was read from the items of its source. -/
theorem parse_ok {d : Document} (h : parse source filename = .ok d) :
    ∃ items, Item.readAll source filename = .ok items ∧
      (Entry.form Grammar.topLevel).documentedFrom [] items = .ok d.items := by
  rw [parse_eq] at h
  obtain ⟨items, hitems, h⟩ := bind_eq_ok h
  obtain ⟨ds, hds, rfl⟩ := map_eq_ok h
  exact ⟨items, hitems, hds⟩

end Document

end WitxFrontEnd
