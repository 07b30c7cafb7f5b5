import WitxFrontEnd.Proofs.View.Commutes

/-!
# Comments decide nothing

The view that drops every comment, of a form as of the source, and keeps all spans. Since the rules
commute with it, the three readings of a source go on without comments as they do with them
(`readings_uncommented`): they give the same tree with no comments attached, or they stop with the
same error at the same place.
-/

namespace WitxFrontEnd.View

/-- An error has nothing of the comments. -/
@[simp] theorem uncommented_error (e : ParseError) : uncommented.error e = e := by
  obtain ⟨cause, span⟩ := e
  show ParseError.mk cause (span.map id) = _
  rw [Option.map_id, id]

/-- What is read without comments is what was read with them, seen without them, and a mistake is
the same mistake. -/
theorem uncommented_outcome {α β : Type} (f : α → β) (reading : Except ParseError α) :
    uncommented.outcome f reading = reading.map f := by
  cases reading with
  | ok a => rfl
  | error e => exact congrArg Except.error (uncommented_error e)

/-- A rule that commutes with dropping the comments, read to the end. -/
theorem toEnd_uncommented {α : Type} {f : α → α} {r : Rule α} {c : Cursor} (cause : Cause)
    (h : uncommented.Commutes f r r c) :
    Cursor.toEnd cause (r (uncommented.cursor c)) = (Cursor.toEnd cause (r c)).map f := by
  rw [h, toEnd_outcome, uncommented_outcome]

/-- For every run of items and the same items without any comment: a document, a type definition
and a datatype are read from both alike, but for the comments of the tree, and what is wrong with
the one is wrong with the other, in the same words and at the same place. -/
theorem readings_uncommented (c : Cursor) :
    (Grammar.document (uncommented.cursor c)).map Prod.fst =
        ((Grammar.document c).map Prod.fst).map uncommented.document ∧
      Cursor.toEnd .expectedEnd (Grammar.typedef (uncommented.cursor c)) =
        (Cursor.toEnd .expectedEnd (Grammar.typedef c)).map uncommented.typedef ∧
      Cursor.toEnd .expectedEnd (Grammar.datatype (uncommented.cursor c)) =
        (Cursor.toEnd .expectedEnd (Grammar.datatype c)).map uncommented.datatype := by
  refine ⟨?_, toEnd_uncommented _ (commutes_typedef _ c),
    toEnd_uncommented _ (commutes_datatype _ c)⟩
  have h := commutes_document uncommented c
  rw [Commutes, uncommented_outcome] at h
  rw [h]
  cases Grammar.document c <;> rfl

end WitxFrontEnd.View
