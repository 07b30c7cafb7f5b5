import WitxFrontEnd.Proofs.Verdict

/-!
# The verdict of the grammar

One theorem for each rule of the grammar: which goals it pursues, and that it does. The place where
a rule may fail before the machine does is in `closesAt_datatype` only.
-/

namespace WitxFrontEnd.Goal

variable {g : Goal} {c : Cursor}

/-! ## Names and scalars -/

/-- An identifier is a goal by itself. -/
theorem readsAt_identifier (c : Cursor) : ReadsAt [identifier] Grammar.identifier c :=
  readsAt_return (readsAt_step (show Pattern.identifier ≠ .leftParen from nofun) rfl rfl c)

/-- The name of a slot is a goal with two alternatives, of which the string is looked for first. -/
theorem readsAt_fieldName (c : Cursor) : ReadsAt [name] Grammar.fieldName c := by
  refine readsAt_peek ?_
  cases hpeek : c.peek .string with
  | true =>
    refine readsAt_congr (readsAt_return (readsAt_string c)) (fun m hm => ?_) fun _ _ => rfl
    have hmatch : Pattern.string.matches m = true := by rw [← hm, hpeek]
    simp [step, alternatives, Terminal.matches, hmatch]
  | false =>
    rw [if_neg Bool.false_ne_true]
    refine readsAt_congr (readsAt_identifier c) (fun m hm => ?_) fun _ _ => rfl
    have hmatch : Pattern.string.matches m = false := by rw [← hm, hpeek]
    simp [step, alternatives, Terminal.matches, hmatch, List.find?_cons]

/-- A scalar is its keyword, and without one the mistake is where the cursor stands. -/
theorem scalar_cases (c : Cursor) (last : Mark) :
    (∃ type rest, Grammar.scalar c = .ok (type, rest) ∧
      c.word last = (some (.token .keyword type.keyword), c.span) :: rest.word last) ∨
    (∃ e, Grammar.scalar c = .error e ∧ e.span = some c.span ∧
      ∀ type : Scalar, c.peek (.keyword type.keyword) = false) := by
  unfold Grammar.scalar Rule.choose
  cases hfind : (Scalar.all.map fun type : Scalar => (Pattern.keyword type.keyword,
      (do Rule.keyword type.keyword; return type : Rule Scalar))).find?
        fun branch => c.peek branch.1 with
  | some branch =>
    obtain ⟨type, _, rfl⟩ := List.mem_map.1 (List.mem_of_find?_eq_some hfind)
    have hpeek : c.peek (.keyword type.keyword) = true := by simpa using List.find?_some hfind
    rcases c.step_cases last (show Pattern.keyword type.keyword ≠ .leftParen from nofun) with
      ⟨i, rest, m, hstep, hword, hm⟩ | ⟨-, hnot⟩
    · refine .inl ⟨type, rest, ?_, ?_⟩
      · show (Rule.keyword type.keyword >>= fun _ => pure type : Rule Scalar) c = _
        rw [Rule.keyword_bind, Rule.bind_apply, Rule.step_apply, hstep]
        rfl
      · rw [hword, eq_of_matches_keyword hm]
    · rw [hpeek] at hnot
      cases hnot
  | none =>
    refine .inr ⟨_, rfl, rfl, fun type => ?_⟩
    have := List.find?_eq_none.1 hfind _ (List.mem_map_of_mem type.mem_all)
    rwa [Bool.not_eq_true] at this

/-- A goal whose alternatives are scalars and patterns that fail fails without a scalar. -/
theorem exists_of_mem_scalars {next : List Goal} {alternative : Terminal × List Goal}
    (hscalars : ∀ type : Scalar, c.peek (.keyword type.keyword) = false)
    (h : alternative ∈ scalars next) :
    ∃ pattern, alternative.1 = .item pattern ∧ c.peek pattern = false := by
  obtain ⟨type, _, rfl⟩ := List.mem_map.1 h
  exact ⟨_, rfl, hscalars type⟩

/-- A scalar is a goal with one alternative for each keyword. -/
theorem readsAt_scalar (c : Cursor) : ReadsAt [scalar] Grammar.scalar c := by
  intro gs k
  rcases scalar_cases c (some .rightParen) with ⟨type, rest, hok, hword⟩ | ⟨e, herror, he, hnone⟩
  · have hstep : scalar.step (some (.token .keyword type.keyword)) = some [] := by
      cases type <;> rfl
    rw [hok, hword]
    exact judge_of_step_eq_some hstep (blames_eq_false rfl)
  · have hfails : FailsAt scalar c := fun alternative (h : alternative ∈ scalars []) =>
      exists_of_mem_scalars hnone h
    rw [herror, after_error, he]
    exact judge_of_failsAt hfails gs k

/-! ## Datatypes -/

/-- The inside of an array, as long as the datatype in it is what it has to be. -/
theorem closesAt_arrayForm (hpeek : c.peek (.keyword "array") = true)
    (hstep : g.step (some (.token .keyword "array")) = some [datatype])
    (hg : (g == datatype || g == typedef) = false)
    (hdatatype : ∀ rest : Cursor, rest.size < c.size → ClosesAt [datatype] Grammar.datatype rest) :
    ClosesAt [g] Grammar.arrayForm c := by
  refine closesAt_keyword hstep hg (fun h => ?_) fun rest h => ?_
  · rw [hpeek] at h
    cases h
  · exact closesAt_return (hdatatype rest (Rule.size_keyword_lt h))

/-- The inside of a pointer, as long as the datatype in it is what it has to be. -/
theorem closesAt_pointerForm
    (hfails : c.peek (.reserved "@witx") = false → g.FailsAt c)
    (hstep : g.step (some (.token .reserved "@witx")) = some [pointer])
    (hg : (g == datatype || g == typedef) = false)
    (hdatatype : ∀ rest : Cursor, rest.size < c.size → ClosesAt [datatype] Grammar.datatype rest) :
    ClosesAt [g] Grammar.pointerForm c := by
  refine closesAt_reserved hstep hg hfails fun rest h => closesAt_peek ?_
  have hrest := Rule.size_reserved_lt h
  cases hpeek : rest.peek (.keyword "const-pointer") with
  | true =>
    refine closesAt_keyword rfl rfl (fun h => ?_) fun last h => ?_
    · rw [hpeek] at h
      cases h
    · have hlast := Rule.size_keyword_lt h
      exact closesAt_return (hdatatype last (by omega))
  | false =>
    have hstep : pointer.step (some (.token .keyword "pointer")) = some [datatype] := rfl
    refine closesAt_keyword hstep rfl (fun h => ?_) fun last h => ?_
    · exact failsAt_of_two_alternatives rfl hpeek h
    · have hlast := Rule.size_keyword_lt h
      exact closesAt_return (hdatatype last (by omega))

/-- A name is no scalar. -/
theorem isScalar_of_identifier {m : Mark} (h : Pattern.identifier.matches m = true) :
    isScalar m = false := by
  rcases m with _ | _ | _ | ⟨kind, text⟩
  · cases h
  · cases h
  · cases h
  · obtain rfl : kind = .identifier := beq_iff_eq.1 h
    rfl

/-- Where an identifier is next the goal of a datatype is pursued by taking it. -/
theorem closesAt_identifier (hident : c.peek .identifier = true) :
    ClosesAt [datatype] Grammar.identifier c := by
  refine closesAt_word (show Pattern.identifier ≠ .leftParen from nofun) (fun m hm => ?_)
    (fun m _ hm => blames_eq_false_of_isScalar (isScalar_of_identifier hm)) (fun h => ?_)
    fun i rest _ => closesAt_of_readsAt (readsAt_pure _)
  · have hfind : (alternatives datatype).find? (fun alternative => alternative.1.matches m) =
        some (.item .identifier, [close]) := List.find?_cons_of_pos hm
    rw [step, hfind]
    rfl
  · rw [hident] at h
    cases h

/-- Where neither a form nor the keyword `array` behind the next token decides, a datatype is a
scalar. -/
theorem closesAt_scalar (hident : c.peek .identifier = false) (hleft : c.peek .leftParen = false)
    (harray : c.peekSecond (.keyword "array") = false) :
    ClosesAt [datatype] (Datatype.scalar <$> Grammar.scalar) c := by
  intro gs k
  rw [Rule.map_eq_bind, Rule.bind_apply]
  rcases scalar_cases c (some .rightParen) with ⟨type, rest, hok, hword⟩ | ⟨e, herror, he, hnone⟩
  · have hstep : datatype.step (some (.token .keyword type.keyword)) = some [close] := by
      cases type <;> rfl
    have hblames : datatype.blames (some (.token .keyword type.keyword))
        (rest.word (some .rightParen) ++ k) = false := by
      have hsecond := Cursor.peekSecond_eq Cursor.ends_rightParen hleft hword (.keyword "array")
      obtain ⟨m, tail, hrest, -⟩ := rest.word_eq_cons Cursor.ends_rightParen
      rw [harray, hrest] at hsecond
      rw [hrest, blames, List.cons_append, List.head?_cons]
      rw [List.head?_cons] at hsecond
      rw [← hsecond, Bool.and_false]
    rw [hok, hword]
    refine (judge_of_step_eq_some hstep hblames).trans ?_
    exact closesAt_of_readsAt (readsAt_pure (c := rest) (Datatype.scalar type)) gs k
  · have hfails : FailsAt datatype c := by
      intro alternative h
      rcases List.mem_cons.1 h with rfl | h
      · exact ⟨_, rfl, hident⟩
      rcases List.mem_cons.1 h with rfl | h
      · exact ⟨_, rfl, hleft⟩
      · exact exists_of_mem_scalars hnone h
    rw [herror]
    show _ = Except.error e.span
    rw [he]
    exact judge_of_failsAt hfails gs k

/-- Where no form comes and the keyword `array` is the second token, the first token is to blame,
whether it begins a datatype or not. -/
theorem judge_datatype_array (hident : c.peek .identifier = false)
    (hleft : c.peek .leftParen = false) (harray : c.peekSecond (.keyword "array") = true)
    (gs : List Goal) (k : List (Mark × Span)) :
    judge (datatype :: gs) (c.word (some .rightParen) ++ k) = .error (some c.span) := by
  obtain ⟨m, tail, hword, hpeeks⟩ := c.word_eq_cons Cursor.ends_rightParen
  rw [Cursor.peekSecond_eq Cursor.ends_rightParen hleft hword] at harray
  rw [hword, List.cons_append]
  cases hstep : datatype.step m with
  | none => exact judge_of_step_eq_none hstep
  | some next =>
    obtain ⟨alternative, hfind, rfl⟩ := Option.map_eq_some_iff.1 hstep
    have hm : alternative.1.matches m = true := by simpa using List.find?_some hfind
    have hscalar : isScalar m = true := by
      rcases List.mem_cons.1 (List.mem_of_find?_eq_some hfind) with rfl | h
      · rw [hpeeks] at hident
        exact absurd (hm.symm.trans hident) nofun
      rcases List.mem_cons.1 h with rfl | h
      · rw [hpeeks] at hleft
        exact absurd (hm.symm.trans hleft) nofun
      · obtain ⟨type, htype, rfl⟩ := List.mem_map.1 h
        exact List.any_eq_true.2 ⟨type, htype, hm⟩
    have hblames : datatype.blames m (tail ++ k) = true := by
      cases tail with
      | nil => cases harray
      | cons next tail =>
        rw [blames, hscalar]
        exact harray
    exact judge_of_blames hstep hblames

/-- The datatypes of a form are inside it, where less is left. -/
theorem closesAt_datatype (c : Cursor) : ClosesAt [datatype] Grammar.datatype c := by
  induction hn : c.size using Nat.strongRecOn generalizing c with
  | ind n ih =>
  subst hn
  have hrec (inner behind rest : Cursor) (henter : c.enter = .ok (inner, behind))
      (hrest : rest.size < inner.size) : ClosesAt [datatype] Grammar.datatype rest := by
    have hinner := Cursor.size_enter_lt henter
    exact ih _ (by omega) rest rfl
  have heq := Grammar.datatype_eq c
  cases hident : c.peek .identifier with
  | true =>
    rw [hident, if_pos rfl] at heq
    exact closesAt_of_eq heq (closesAt_return (closesAt_identifier hident))
  | false =>
    rw [hident, if_neg Bool.false_ne_true] at heq
    rcases c.enter_cases (some .rightParen) with
      ⟨inner, behind, henter, hleft, hsecond, hword⟩ | ⟨henter, hleft⟩
    · rw [hsecond, hleft] at heq
      cases harray : inner.peek (.keyword "array") with
      | true =>
        rw [harray, if_pos rfl] at heq
        have hform := closesAt_arrayForm (g := datatypeForm) harray rfl rfl fun rest =>
          hrec inner behind rest henter
        exact closesAt_of_eq heq (closesAt_inForm rfl hform henter hword)
      | false =>
        rw [harray, if_neg Bool.false_ne_true, if_pos rfl] at heq
        have hfails (hwitx : inner.peek (.reserved "@witx") = false) :
            datatypeForm.FailsAt inner :=
          failsAt_of_two_alternatives rfl harray hwitx
        have hform := closesAt_pointerForm hfails rfl rfl fun rest => hrec inner behind rest henter
        exact closesAt_of_eq heq (closesAt_inForm rfl hform henter hword)
    · cases harray : c.peekSecond (.keyword "array") with
      | true =>
        rw [harray, if_pos rfl] at heq
        intro gs k
        rw [heq, Rule.inForm_apply, henter]
        exact judge_datatype_array hident hleft harray gs k
      | false =>
        rw [harray, hleft, if_neg Bool.false_ne_true, if_neg Bool.false_ne_true,
          ← Rule.map_eq_bind] at heq
        exact closesAt_of_eq heq (closesAt_scalar hident hleft harray)

/-! ## Type definitions -/

/-- A slot pursues a name and a datatype. -/
theorem closesAt_slot (c : Cursor) : ClosesAt [name, datatype] Grammar.slot c :=
  closesAt_bind (G := [name]) (readsAt_fieldName c) fun _ rest _ =>
    closesAt_return (closesAt_datatype rest)

/-- The inside of a field pursues what begins with its keyword. -/
theorem closesAt_fieldForm (c : Cursor) : ClosesAt [field] Grammar.fieldForm c :=
  closesAt_keyword rfl rfl (failsAt_of_alternatives rfl) fun rest _ => closesAt_slot rest

/-- The goals that stand for forms up to the end of a form. -/
theorem closesAt_fields (c : Cursor) :
    ClosesAt [fields] (Rule.documented (.form Grammar.fieldForm)) c :=
  closesAt_documented rfl rfl
    (judge_entry_form closesAt_fieldForm rfl fun _ _ => rfl) c

/-- An identifier leaves the goal of members as it is. -/
theorem judge_identifierEntry (i : Item) (gs : List Goal) (k : List (Mark × Span))
    (hi : i.isComment = false) :
    judge (members :: gs) (i.marks ++ k) =
      after (Grammar.identifierEntry i) fun _ => judge (members :: gs) k := by
  cases i with
  | token t =>
    rw [Item.marks_token hi, List.singleton_append]
    obtain ⟨kind, text, span⟩ := t
    cases kind with
    | identifier =>
      have hstep : members.step (some (.token .identifier text)) = some [members] := rfl
      exact judge_of_step_eq_some hstep (blames_eq_false rfl)
    | string | keyword | reserved | lineComment | blockComment => exact judge_of_step_eq_none rfl
  | form items span closing => exact judge_of_step_eq_none rfl

/-- Members up to the end pursue one goal. -/
theorem closesAt_members (c : Cursor) :
    ClosesAt [members] (Rule.documented Grammar.identifierEntry) c :=
  closesAt_documented rfl rfl judge_identifierEntry c

/-- A goal that asks for one construct more is, but for that, the goal that asks for none. -/
theorem step_someMembers {m : Mark} (hm : m ≠ some .rightParen) :
    someMembers.step m = members.step m := by
  have hclose : Terminal.close.matches m = false := beq_false_of_ne hm
  simp [step, alternatives, List.find?_cons, hclose]

/-- Likewise for fields. -/
theorem step_someFields {m : Mark} (hm : m ≠ some .rightParen) :
    someFields.step m = fields.step m := by
  have hclose : Terminal.close.matches m = false := beq_false_of_ne hm
  simp [step, alternatives, List.find?_cons, hclose]

/-- Members of which there has to be one at least. -/
theorem closesAt_someMembers (c : Cursor) :
    ClosesAt [someMembers] (Rule.documentedSome .member Grammar.identifierEntry) c :=
  closesAt_documentedSome _ (closesAt_members c) rfl (fun _ => step_someMembers) fun _ _ => rfl

/-- Fields of which there has to be one at least. -/
theorem closesAt_someFields (c : Cursor) :
    ClosesAt [someFields] (Rule.documentedSome .field (.form Grammar.fieldForm)) c :=
  closesAt_documentedSome _ (closesAt_fields c) rfl (fun _ => step_someFields) fun _ _ => rfl

/-- The keyword that leads in a branch that has been chosen is there. -/
theorem closesAt_branch {α : Type} {word : String} {next : List Goal} {k : Rule α}
    (hpeek : c.peek (.keyword word) = true)
    (hstep : g.step (some (.token .keyword word)) = some next)
    (hg : (g == datatype || g == typedef) = false) (hk : ∀ rest, ClosesAt next k rest) :
    ClosesAt [g] (Rule.keyword word >>= fun _ => k) c := by
  refine closesAt_keyword hstep hg (fun h => ?_) fun rest _ => hk rest
  rw [hpeek] at h
  cases h

/-- An enumeration pursues the goal of a definition's form. -/
theorem closesAt_enum (hpeek : c.peek (.keyword "enum") = true) :
    ClosesAt [typedefForm] Grammar.enum c :=
  closesAt_branch hpeek rfl rfl fun rest =>
    closesAt_bind (readsAt_scalar rest) fun _ last _ => closesAt_return (closesAt_someMembers last)

/-- Flags pursue the goal of a definition's form. -/
theorem closesAt_flags (hpeek : c.peek (.keyword "flags") = true) :
    ClosesAt [typedefForm] Grammar.flags c :=
  closesAt_branch hpeek rfl rfl fun rest =>
    closesAt_bind (readsAt_scalar rest) fun _ last _ => closesAt_return (closesAt_members last)

/-- A structure pursues the goal of a definition's form. -/
theorem closesAt_struct (hpeek : c.peek (.keyword "struct") = true) :
    ClosesAt [typedefForm] Grammar.struct c :=
  closesAt_branch hpeek rfl rfl fun rest => closesAt_return (closesAt_someFields rest)

/-- A union pursues the goal of a definition's form. -/
theorem closesAt_union (hpeek : c.peek (.keyword "union") = true) :
    ClosesAt [typedefForm] Grammar.union c :=
  closesAt_branch hpeek rfl rfl fun rest => closesAt_return (closesAt_someFields rest)

/-- A handle pursues the goal of a definition's form. -/
theorem closesAt_handle (hpeek : c.peek (.keyword "handle") = true) :
    ClosesAt [typedefForm] Grammar.handle c :=
  closesAt_branch hpeek rfl rfl fun rest => closesAt_return (closesAt_members rest)

/-- The five kinds of definitions pursue one goal. It has the two datatypes that are forms as
alternatives too, but neither is next here. -/
theorem closesAt_typedefForm (harray : c.peek (.keyword "array") = false)
    (hwitx : c.peek (.reserved "@witx") = false) :
    ClosesAt [typedefForm] Grammar.typedefForm c := by
  refine closesAt_choose (fun hnone => ?_) fun branch hbranch hpeek => ?_
  · simp only [List.forall_mem_cons] at hnone
    obtain ⟨henum, hflags, hstruct, hunion, hhandle, -⟩ := hnone
    intro alternative halternative
    simp only [alternatives, List.mem_cons, List.not_mem_nil, or_false] at halternative
    rcases halternative with rfl | rfl | rfl | rfl | rfl | rfl | rfl
    · exact ⟨_, rfl, harray⟩
    · exact ⟨_, rfl, hwitx⟩
    · exact ⟨_, rfl, henum⟩
    · exact ⟨_, rfl, hflags⟩
    · exact ⟨_, rfl, hstruct⟩
    · exact ⟨_, rfl, hunion⟩
    · exact ⟨_, rfl, hhandle⟩
  · simp only [List.mem_cons, List.not_mem_nil, or_false] at hbranch
    rcases hbranch with rfl | rfl | rfl | rfl | rfl
    · exact closesAt_enum hpeek
    · exact closesAt_flags hpeek
    · exact closesAt_struct hpeek
    · exact closesAt_union hpeek
    · exact closesAt_handle hpeek

/-- Without a form, a type definition is a datatype. -/
theorem step_typedef {m : Mark} (hleft : Pattern.leftParen.matches m = false) :
    typedef.step m = datatype.step m := by
  simp [step, alternatives, List.find?_cons, Terminal.matches, hleft]

/-- Type definitions pursue one goal. -/
theorem closesAt_typedef (c : Cursor) : ClosesAt [typedef] Grammar.typedef c := by
  have heq := Grammar.typedef_eq c
  rcases c.enter_cases (some .rightParen) with
    ⟨inner, behind, henter, hleft, hsecond, hword⟩ | ⟨-, hleft⟩
  · have hident : c.peek .identifier = false := by
      obtain ⟨m, tail, hm, hpeeks⟩ := c.word_eq_cons Cursor.ends_rightParen
      rw [hword] at hm
      cases hm
      rw [hpeeks]
      rfl
    have hdatatype := Grammar.datatype_eq c
    rw [hident, if_neg Bool.false_ne_true, hsecond, hleft] at hdatatype
    rw [hleft, hsecond, hsecond] at heq
    cases harray : inner.peek (.keyword "array") with
    | true =>
      rw [harray, if_pos rfl] at hdatatype
      rw [harray] at heq
      exact closesAt_of_eq heq (closesAt_return (closesAt_of_eq hdatatype (closesAt_inForm rfl
        (closesAt_arrayForm harray rfl rfl fun rest _ => closesAt_datatype rest) henter hword)))
    | false =>
      cases hwitx : inner.peek (.reserved "@witx") with
      | true =>
        have hfails (h : inner.peek (.reserved "@witx") = false) : FailsAt typedefForm inner := by
          rw [hwitx] at h
          cases h
        rw [harray, if_neg Bool.false_ne_true, if_pos rfl] at hdatatype
        rw [harray, hwitx] at heq
        exact closesAt_of_eq heq (closesAt_return (closesAt_of_eq hdatatype (closesAt_inForm rfl
          (closesAt_pointerForm hfails rfl rfl fun rest _ => closesAt_datatype rest)
          henter hword)))
      | false =>
        rw [harray, hwitx] at heq
        exact closesAt_of_eq heq
          (closesAt_inForm rfl (closesAt_typedefForm harray hwitx) henter hword)
  · rw [hleft] at heq
    refine closesAt_of_eq heq (closesAt_return ?_)
    refine closesAt_congr (closesAt_datatype c) (fun m hm => step_typedef ?_) fun _ _ => rfl
    rw [← hm, hleft]

/-! ## Modules -/

/-- What an import is of pursues a memory. -/
theorem closesAt_importType (c : Cursor) : ClosesAt [memory, close] Grammar.importType c :=
  closesAt_of_readsAt (G := [memory]) (readsAt_return (readsAt_keyword rfl rfl c))

/-- The inside of an export pursues its keyword and a string. -/
theorem closesAt_exportForm (c : Cursor) :
    ClosesAt [exportWord, string, close] Grammar.exportForm c :=
  closesAt_of_readsAt (G := [exportWord, string])
    (readsAt_bind (readsAt_keyword rfl rfl c) fun _ rest _ => readsAt_string rest)

/-- An import pursues the goal of a declaration. -/
theorem closesAt_moduleImport (hpeek : c.peek (.keyword "import") = true) :
    ClosesAt [decl] Grammar.moduleImport c :=
  closesAt_branch hpeek rfl rfl fun rest =>
    closesAt_bind (readsAt_string rest) fun _ last _ =>
      closesAt_of_readsAt (readsAt_return (readsAt_inForm rfl closesAt_importType last))

/-- The inside of a slot pursues the goal of a slot, whether it is a parameter or a result. -/
theorem closesAt_slotForm (c : Cursor) : ClosesAt [slot] Grammar.slotForm c := by
  refine closesAt_choose (fun hnone => ?_) fun branch hbranch hpeek => ?_
  · have hparam := hnone _ (List.mem_map_of_mem List.mem_cons_self)
    have hresult := hnone _ (List.mem_map_of_mem (List.mem_cons_of_mem _ List.mem_cons_self))
    exact failsAt_of_two_alternatives rfl hparam hresult
  · obtain ⟨kind, _, rfl⟩ := List.mem_map.1 hbranch
    refine closesAt_branch hpeek ?_ rfl fun rest => closesAt_return (closesAt_slot rest)
    cases kind <;> rfl

/-- Slots up to the end pursue one goal. -/
theorem closesAt_slots (c : Cursor) :
    ClosesAt [slots] (Rule.documented (.form Grammar.slotForm)) c :=
  closesAt_documented rfl rfl (judge_entry_form closesAt_slotForm rfl fun _ _ => rfl) c

/-- An interface function pursues the goal of a declaration. -/
theorem closesAt_interfaceFunc (hpeek : c.peek (.reserved "@interface") = true) :
    ClosesAt [decl] Grammar.interfaceFunc c := by
  refine closesAt_reserved rfl rfl (fun h => ?_) fun rest _ => ?_
  · rw [hpeek] at h
    cases h
  · exact closesAt_bind (readsAt_keyword rfl rfl rest) fun _ rest' _ =>
      closesAt_bind (readsAt_inForm rfl closesAt_exportForm rest') fun _ last _ =>
        closesAt_return (closesAt_slots last)

/-- Declarations inside a module pursue one goal. -/
theorem closesAt_moduleDecl (c : Cursor) : ClosesAt [decl] Grammar.moduleDecl c := by
  refine closesAt_choose (fun hnone => ?_) fun branch hbranch hpeek => ?_
  · simp only [List.forall_mem_cons] at hnone
    obtain ⟨himport, hinterface, -⟩ := hnone
    exact failsAt_of_two_alternatives rfl himport hinterface
  · simp only [List.mem_cons, List.not_mem_nil, or_false] at hbranch
    rcases hbranch with rfl | rfl
    · exact closesAt_map _ (closesAt_moduleImport hpeek)
    · exact closesAt_map _ (closesAt_interfaceFunc hpeek)

/-- Declarations up to the end pursue one goal. -/
theorem closesAt_decls (c : Cursor) :
    ClosesAt [decls] (Rule.documented (.form Grammar.moduleDecl)) c :=
  closesAt_documented rfl rfl (judge_entry_form closesAt_moduleDecl rfl fun _ _ => rfl) c

/-- A module pursues the goal of a document's form. -/
theorem closesAt_module (hpeek : c.peek (.keyword "module") = true) :
    ClosesAt [topLevel] Grammar.module c :=
  closesAt_branch hpeek rfl rfl fun rest =>
    closesAt_bind (readsAt_identifier rest) fun _ last _ => closesAt_return (closesAt_decls last)

/-! ## Documents -/

/-- A use pursues the goal of a document's form. -/
theorem closesAt_use (hpeek : c.peek (.keyword "use") = true) :
    ClosesAt [topLevel] Grammar.use c :=
  closesAt_branch hpeek rfl rfl fun rest =>
    closesAt_of_readsAt (readsAt_return (readsAt_string rest))

/-- A type name pursues the goal of a document's form. -/
theorem closesAt_typename (hpeek : c.peek (.keyword "typename") = true) :
    ClosesAt [topLevel] Grammar.typename c :=
  closesAt_branch hpeek rfl rfl fun rest =>
    closesAt_bind (readsAt_identifier rest) fun _ last _ =>
      closesAt_return (closesAt_typedef last)

/-- All forms of a document pursue one goal. -/
theorem closesAt_topLevel (c : Cursor) : ClosesAt [topLevel] Grammar.topLevel c := by
  refine closesAt_peek ?_
  cases huse : c.peek (.keyword "use") with
  | true => exact closesAt_map _ (closesAt_use huse)
  | false =>
    refine closesAt_choose (fun hnone => ?_) fun branch hbranch hpeek => ?_
    · simp only [List.forall_mem_cons] at hnone
      obtain ⟨hmodule, htypename, -⟩ := hnone
      intro alternative halternative
      simp only [alternatives, List.mem_cons, List.not_mem_nil, or_false] at halternative
      rcases halternative with rfl | rfl | rfl
      · exact ⟨_, rfl, huse⟩
      · exact ⟨_, rfl, hmodule⟩
      · exact ⟨_, rfl, htypename⟩
    · simp only [List.mem_cons, List.not_mem_nil, or_false] at hbranch
      rcases hbranch with rfl | rfl
      · exact closesAt_map _ (closesAt_module hpeek)
      · exact closesAt_map _ (closesAt_typename hpeek)

/-- Judging a whole source comes to reading it as a document. -/
theorem judge_document (c : Cursor) :
    judge [topLevels] (c.word none) =
      after (Cursor.toEnd .expectedEnd (Grammar.document c)) fun _ => .ok () := by
  have hentry := judge_entry_form (g := topLevels) closesAt_topLevel rfl fun _ _ => rfl
  have h := judge_documentedFrom (s := c.closing) (show topLevels.step none = some [] from rfl) rfl
    hentry [] c.items [] []
  refine h.trans ?_
  unfold Grammar.document
  rw [Rule.bind_apply]
  unfold Rule.documented
  cases (Entry.form Grammar.topLevel).documentedFrom [] c.items <;> rfl

end WitxFrontEnd.Goal
