import WitxFrontEnd.Proofs.Completeness
import WitxFrontEnd.Proofs.Soundness

/-!
# The rules read the grammar

The three readings of a source against the grammar as it is derived, with `grammar_exact` for all
of them: a reading succeeds if and only if the items without their comments derive something, and
what it gives, without its comments, is then the only thing that they derive. Soundness says that
what is read is derived. For the converse the derivation is followed on the bare items, and since
rules commute with the view that drops the comments, they succeed on the items as they were, with
the same tree but for the comments.
-/

namespace WitxFrontEnd

open View

/-- A reading accepts if and only if something can be derived, and what it gives is, seen through
`see`, the one thing that can be derived. -/
structure Exact {α : Type} (reading : Except ParseError α) (see : α → α) (Derives : α → Prop) :
    Prop where
  accepts_iff : (∃ a, reading = .ok a) ↔ ∃ b, Derives b
  derives_iff : ∀ a, reading = .ok a → ∀ b, Derives b ↔ b = see a

/-- An outcome in the view is a success only if the outcome is one. -/
theorem View.outcome_eq_ok {v : View} {α β : Type} {f : α → β} {reading : Except ParseError α}
    {b : β} (h : v.outcome f reading = .ok b) : ∃ a, reading = .ok a ∧ f a = b := by
  cases reading with
  | error e => cases h
  | ok a => cases h; exact ⟨a, rfl, rfl⟩

/-- Soundness for what is read, and completeness for what is read without comments. -/
theorem Exact.of_sound_of_complete {α : Type} {reading : Except ParseError α} {see : α → α}
    {Derives : α → Prop} (hsound : ∀ a, reading = .ok a → Derives (see a))
    (hcomplete : ∀ b, Derives b → uncommented.outcome see reading = .ok b) :
    Exact reading see Derives where
  accepts_iff := by
    constructor
    · rintro ⟨a, ha⟩
      exact ⟨see a, hsound a ha⟩
    · rintro ⟨b, hb⟩
      obtain ⟨a, ha, -⟩ := outcome_eq_ok (hcomplete b hb)
      exact ⟨a, ha⟩
  derives_iff a ha b := by
    constructor
    · intro hb
      obtain ⟨a', ha', rfl⟩ := outcome_eq_ok (hcomplete b hb)
      rw [ha] at ha'
      cases ha'
      rfl
    · rintro rfl
      exact hsound a ha

/-- A rule that takes one item from the bare ones and is read to the end. -/
theorem Exact.toEnd {α : Type} {r : Rule α} {see : α → α} {Derives : Item → α → Prop} {c : Cursor}
    (hsound : ∀ {a rest}, r c = .ok (a, rest) →
      ∃ i, bare c.items = i :: bare rest.items ∧ Derives i (see a))
    (hcomplete : ∀ {i b}, Derives i b → ∀ closing, r ⟨[i], closing⟩ = .ok (b, ⟨[], closing⟩))
    (hcommutes : uncommented.Commutes see r r c) :
    Exact (Cursor.toEnd .expectedEnd (r c)) see fun b => ∃ i, bare c.items = [i] ∧ Derives i b := by
  refine .of_sound_of_complete (fun a ha => ?_) fun b hb => ?_
  · obtain ⟨rest, hr, hrest⟩ := Cursor.toEnd_ok ha
    obtain ⟨i, hi, hd⟩ := hsound hr
    exact ⟨i, by rw [hi, hrest], hd⟩
  · obtain ⟨i, hi, hd⟩ := hb
    have hcursor : uncommented.cursor c = ⟨[i], c.closing⟩ := by
      show (⟨bare c.items, c.closing⟩ : Cursor) = _
      rw [hi]
    rw [← toEnd_outcome, ← hcommutes, hcursor, hcomplete hd]
    rfl

/-- For every run of items: the document, the type definition and the datatype that they are read
as exist if and only if the items without comments derive one, and are then, without comments, the
only one that is derived. -/
theorem grammar_exact (c : Cursor) :
    Exact ((Grammar.document c).map Prod.fst) uncommented.document
        (DerivesDocument (bare c.items)) ∧
      Exact (Cursor.toEnd .expectedEnd (Grammar.typedef c)) uncommented.typedef
        (fun definition => ∃ i, bare c.items = [i] ∧ DerivesTypedef i definition) ∧
      Exact (Cursor.toEnd .expectedEnd (Grammar.datatype c)) uncommented.datatype
        (fun type => ∃ i, bare c.items = [i] ∧ DerivesDatatype i type) := by
  refine ⟨.of_sound_of_complete (fun d hd => ?_) fun d hd => ?_,
    .toEnd Grammar.typedef_sound Grammar.typedef_complete (commutes_typedef _ c),
    .toEnd (fun h => ?_) Grammar.datatype_complete (commutes_datatype _ c)⟩
  · cases h : Grammar.document c with
    | error e => rw [h] at hd; cases hd
    | ok p =>
      rw [h] at hd
      cases hd
      exact Grammar.document_sound h
  · have h := commutes_document uncommented c
    rw [Commutes, show uncommented.cursor c = ⟨bare c.items, c.closing⟩ from rfl,
      Grammar.document_complete hd] at h
    cases hdoc : Grammar.document c with
    | error e => rw [hdoc] at h; cases h
    | ok p =>
      rw [hdoc] at h
      have hfst := congrArg (Except.map Prod.fst) h
      exact hfst.symm
  · simpa using Grammar.datatype_sound h

end WitxFrontEnd
