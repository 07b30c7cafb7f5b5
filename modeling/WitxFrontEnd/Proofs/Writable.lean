import WitxFrontEnd.Proofs.Place
import WitxFrontEnd.Proofs.RoundTrip

/-!
# What can be written again

The scanner cuts names out of atoms and texts out of comments, so that they can be written again
(`Token.Sound`): behind a dollar sign there is an atom (`Item.isAtom_of_identifier`), and between
the marks of a comment there is no line feed or no end of a block comment
(`Token.rewritable_of_stands`). What is derived from items that have only such tokens has names that
can be written again; a name that a type refers to is never a string then
(`DerivesDatatype.dollar_of_sound`). `Mention.Writable` says this of the names and types in a tree,
and `Holds.writable` has it for all that a parsed tree mentions.
-/

namespace WitxFrontEnd

variable {source : String} {filename : Option String}

/-! ## Names in a source -/

/-- An identifier has a character behind its dollar sign. -/
theorem TokenKind.toList_of_ofAtom_identifier {text : String} (h : ofAtom text = .identifier) :
    ∃ c cs, text.toList = '$' :: c :: cs := by
  unfold ofAtom at h
  split at h
  · next c cs htext => exact ⟨c, cs, htext⟩
  · split at h <;> cases h
  · cases h

/-- What a source has behind the dollar sign of an identifier is an atom. -/
theorem Item.isAtom_of_identifier {items : List Item} (h : readAll source filename = .ok items)
    {text : String} {span : Span} (ht : .token ⟨.identifier, text, span⟩ ∈ preorderAll items) :
    Lexeme.IsAtom (String.ofList (text.toList.drop 1)) := by
  obtain ⟨l, hdenotes, tokens, p, rest, -, hchosen, -⟩ := standsAt_of_token h ht
  have hkind : l.kind = .atom := hdenotes.kind.symm
  have htext : text = l.text := hdenotes.verbatim (by rw [hkind]; nofun)
  obtain ⟨c, cs, hlist⟩ := TokenKind.toList_of_ofAtom_identifier (hdenotes.atom hkind).symm
  have hstands := hchosen.stands
  rw [hkind, hlist] at hstands
  rw [htext, hlist, Lexeme.IsAtom, String.toList_ofList]
  cases hstands with
  | atom hatom => exact ⟨List.cons_ne_nil c cs, fun x hx => hatom x (List.mem_cons_of_mem _ hx)⟩

/-! ## Comments in a source -/

/-- The text of a comment can be written again behind the mark of a line comment, or between those
of a block comment. -/
def Documentation.Rewritable (text : String) : Prop :=
  '\n' ∉ text.toList ∨ ¬[';', ')'] <:+: text.toList

/-- The body of a block comment does not go on behind an end. -/
theorem Lexeme.not_infix_of_closeComment {body : List Char}
    (h : closeComment (body ++ [';', ')']) = some (body, [])) : ¬[';', ')'] <:+: body := by
  rintro ⟨before, behind, hbody⟩
  obtain ⟨first, rest, hclose, hle⟩ := closeComment_le before (behind ++ [';', ')'])
  have happend : before ++ ';' :: ')' :: (behind ++ [';', ')']) = body ++ [';', ')'] := by
    rw [← hbody]
    simp
  rw [happend, h] at hclose
  cases hclose
  have hlength := congrArg List.length hbody
  simp only [List.length_append, List.length_cons, List.length_nil] at hlength
  omega

/-- What is left of a comment between its marks can be written again. -/
theorem Token.rewritable_of_stands {t : Token} {rest : List Char}
    (hstands : Lexeme.Stands (.leaf t.kind.leafKind) t.text.toList rest) {text : String}
    (h : t.comment? = some text) : Documentation.Rewritable text := by
  obtain ⟨kind, written, span⟩ := t
  cases kind with
  | string | identifier | keyword | reserved => cases h
  | lineComment =>
    obtain rfl := Option.some.inj h
    rw [Documentation.Rewritable, String.toList_ofList]
    generalize written.toList = cs at hstands
    cases hstands with
    | lineComment htext => exact .inl htext
  | blockComment =>
    obtain rfl := Option.some.inj h
    rw [Documentation.Rewritable, String.toList_ofList]
    generalize written.toList = cs at hstands
    cases hstands with
    | @blockComment body _ hbody =>
      have hcut : (('(' :: ';' :: (body ++ [';', ')'])).drop 2).dropLast.dropLast = body := by
        simp
      rw [hcut]
      exact .inr (Lexeme.not_infix_of_closeComment hbody)

/-! ## Sound tokens -/

/-- What is cut out of the token can be written again. -/
structure Token.Sound (t : Token) : Prop where
  name : t.kind = .identifier → Lexeme.IsAtom (String.ofList (t.text.toList.drop 1))
  comment : ∀ text, t.comment? = some text → Documentation.Rewritable text

/-- All tokens in the item are sound. -/
def Item.Sound (i : Item) : Prop :=
  ∀ t, .token t ∈ i.preorder → t.Sound

/-- The tokens of a source are sound. -/
theorem Token.sound_of_readAll {items : List Item} (h : Item.readAll source filename = .ok items)
    {t : Token} (ht : .token t ∈ Item.preorderAll items) : t.Sound where
  name hkind := by
    obtain ⟨kind, text, span⟩ := t
    cases hkind
    exact Item.isAtom_of_identifier h ht
  comment text htext := by
    obtain ⟨l, hdenotes, tokens, p, rest, -, hchosen, -⟩ := Item.standsAt_of_token h ht
    have hstring : l.kind ≠ .string := by
      rw [← hdenotes.kind]
      intro hkind
      obtain ⟨kind, written, span⟩ := t
      cases kind <;> cases htext <;> cases hkind
    have hstands := hchosen.stands
    rw [← hdenotes.verbatim hstring, ← hdenotes.kind] at hstands
    exact rewritable_of_stands hstands htext

theorem Item.Sound.of_mem {items : List Item} {span closing : Span}
    (h : (form items span closing).Sound) : ∀ i ∈ items, i.Sound :=
  fun _ hi t ht => h t (List.mem_cons_of_mem _ ((preorder_sublist hi).subset ht))

/-! ## Derived names -/

theorem DerivesIdentifier.dollar_of_sound {i : Item} {ident : Identifier} (hi : i.Sound)
    (h : DerivesIdentifier i ident) : ident.Dollar := by
  cases h with
  | dollar text span => exact ⟨rfl, (hi _ List.mem_cons_self).name rfl⟩

/-- A name that is derived can be written again. -/
theorem DerivesName.writable {i : Item} {ident : Identifier} (hi : i.Sound)
    (h : DerivesName i ident) : ident.quoted = true ∨ ident.Dollar := by
  cases h with
  | identifier h => exact .inr (h.dollar_of_sound hi)
  | string => exact .inl rfl

/-- No name in a type is a string. -/
theorem DerivesDatatype.dollar_of_sound {i : Item} {type : Datatype} (hi : i.Sound)
    (h : DerivesDatatype i type) : type.Dollar := by
  induction h with
  | named h => exact h.dollar_of_sound hi
  | scalar => trivial
  | array _ ih | pointer _ ih | constPointer _ ih => exact ih (hi.of_mem _ (by simp))

/-! ## Mentions -/

theorem Datatype.self_mem_mentions (type : Datatype) : .type type ∈ type.mentions := by
  cases type <;> exact List.mem_cons_self

namespace Item

mutual

/-- What is within an item that is within another is within the other. -/
theorem mem_preorder_trans : ∀ (i : Item) {j k : Item}, j ∈ i.preorder → k ∈ j.preorder →
    k ∈ i.preorder
  | .token t, j, k, hj, hk => by
    rwa [List.mem_singleton.1 hj] at hk
  | .form items span closing, j, k, hj, hk => by
    rcases List.mem_cons.1 hj with rfl | hj
    · exact hk
    · exact List.mem_cons_of_mem _ (mem_preorderAll_trans items hj hk)

/-- As `mem_preorder_trans`, over some items. -/
theorem mem_preorderAll_trans : ∀ (items : List Item) {j k : Item}, j ∈ preorderAll items →
    k ∈ j.preorder → k ∈ preorderAll items
  | [], j, k, hj, _ => nomatch hj
  | i :: rest, j, k, hj, hk => by
    rcases List.mem_append.1 hj with hj | hj
    · exact List.mem_append_left _ (mem_preorder_trans i hj hk)
    · exact List.mem_append_right _ (mem_preorderAll_trans rest hj hk)

end

end Item

/-- A name that can be written, or a type all of whose names can be. -/
def Mention.Writable : Mention → Prop
  | .name ident => ident.quoted = true ∨ ident.Dollar
  | .type t => t.Dollar

/-- All that items of a source hold can be written again. -/
theorem Holds.writable {items : List Item} (h : Item.readAll source filename = .ok items)
    {mentions : List Mention} (hholds : Holds (View.bare items) mentions) :
    ∀ mention ∈ mentions, mention.Writable := by
  intro mention hmention
  obtain ⟨i, hi, hderives⟩ := hholds mention hmention
  have hsound : i.Sound := fun t ht => Token.sound_of_readAll h
    (Item.token_mem_preorderAll_of_bare items (Item.mem_preorderAll_trans _ hi ht))
  cases hderives with
  | name hname => exact hname.writable hsound
  | type htype => exact htype.dollar_of_sound hsound

theorem Typedef.writable_of_parse {definition : Typedef}
    (h : parse source filename = .ok definition) :
    ∀ mention ∈ definition.mentions, mention.Writable := by
  obtain ⟨items, hitems, hholds⟩ := holds_of_parse h
  exact hholds.writable hitems

end WitxFrontEnd
