import Mathlib.Algebra.Group.Nat.Defs
import WitxFrontEnd.Proofs.Caret
import WitxFrontEnd.Proofs.Spelling
import WitxFrontEnd.Text.Quoted

/-!
# Quoted text read back

A quoted text is one line, and it tells the text. `unescape` reads one character of it back,
whatever is behind that character (`unescape_escapeChar`), and the mark in front tells which of the
two marks is escaped; so different texts are different between quotes (`quoted_injective`). Every
character that ends a line is unprintable and therefore escaped, and no escape has such a character
in it (`unbroken_quoted`).
-/

namespace WitxFrontEnd.Text

/-! ## Hexadecimal digits -/

/-- A number that fits into the digits is read back from them. -/
theorem hexNumber_hexDigits {width n : Nat} (h : n < 16 ^ width) :
    Literal.hexNumber (hexDigits width n) = n := by
  induction width generalizing n with
  | zero =>
    obtain rfl := Nat.lt_one_iff.1 h
    rfl
  | succ width ih =>
    have hdigit : Literal.HexDigit (Nat.digitChar (n % 16)) (n % 16) :=
      ⟨Nat.mod_lt n (by decide), .inl rfl⟩
    have hhigh : n / 16 < 16 ^ width := Nat.div_lt_of_lt_mul (by rwa [← Nat.pow_succ'])
    rw [hexDigits, Literal.hexNumber, List.foldl_append, ← Literal.hexNumber, ih hhigh]
    show 16 * (n / 16) + Literal.hexValue _ = n
    rw [hdigit.hexValue, Nat.div_add_mod]

/-- Digits break no line. -/
theorem unbroken_hexDigits (width n : Nat) : Unbroken (hexDigits width n) := by
  have hdigit : ∀ d < 16, isLineBreak (Nat.digitChar d) = false := by decide
  induction width generalizing n with
  | zero => exact List.forall_mem_nil _
  | succ width ih =>
    exact List.forall_mem_append.2
      ⟨ih _, List.forall_mem_singleton.2 (hdigit _ (Nat.mod_lt n (by decide)))⟩

/-! ## Escapes -/

/-- The character that stands first between quotes, escaped or not, and what is behind it. -/
def unescape : List Char → Option (Char × List Char)
  | [] => none
  | '\\' :: 'n' :: rest => some ('\n', rest)
  | '\\' :: 'r' :: rest => some ('\r', rest)
  | '\\' :: 't' :: rest => some ('\t', rest)
  | '\\' :: 'x' :: rest => some (Char.ofNat (Literal.hexNumber (rest.take 2)), rest.drop 2)
  | '\\' :: 'u' :: rest => some (Char.ofNat (Literal.hexNumber (rest.take 4)), rest.drop 4)
  | '\\' :: 'U' :: rest => some (Char.ofNat (Literal.hexNumber (rest.take 8)), rest.drop 8)
  | '\\' :: c :: rest => some (c, rest)
  | c :: rest => some (c, rest)

/-- The marks that a text can stand between. -/
def IsQuote (quote : Char) : Prop :=
  quote = '\'' ∨ quote = '\"'

/-- The mark that is chosen is one of the two. -/
theorem isQuote_quoteMark (cs : List Char) : IsQuote (quoteMark cs) := by
  rw [quoteMark]
  split
  · exact .inr rfl
  · exact .inl rfl

variable {quote c : Char}

/-- The digits of an escape tell its character. -/
theorem unescape_hexDigits (width : Nat) (h : c.toNat < 16 ^ width) (rest : List Char) :
    some (Char.ofNat (Literal.hexNumber ((hexDigits width c.toNat ++ rest).take width)),
      (hexDigits width c.toNat ++ rest).drop width) = some (c, rest) := by
  rw [List.take_left' (length_hexDigits _ _), List.drop_left' (length_hexDigits _ _),
    hexNumber_hexDigits h, Char.ofNat_toNat]

/-- The first character is read back, whatever is behind it. -/
theorem unescape_escapeChar (hquote : IsQuote quote) (c : Char) (rest : List Char) :
    unescape (escapeChar quote c ++ rest) = some (c, rest) := by
  unfold escapeChar
  split
  · next h =>
    rw [Bool.or_eq_true, beq_iff_eq, beq_iff_eq] at h
    rcases h with rfl | rfl
    · rcases hquote with rfl | rfl <;> rfl
    · rfl
  · next h =>
    have hbackslash : c ≠ '\\' := by
      rintro rfl
      simp at h
    split
    · next hc => rw [beq_iff_eq.1 hc]; rfl
    split
    · next hc => rw [beq_iff_eq.1 hc]; rfl
    split
    · next hc => rw [beq_iff_eq.1 hc]; rfl
    split
    · simp [unescape, hbackslash]
    split
    · next hlt => exact unescape_hexDigits 2 hlt rest
    split
    · next hlt => exact unescape_hexDigits 4 hlt rest
    · have hlt : c.toNat < 0x110000 := by
        have hvalid := c.valid
        simp only [UInt32.isValidChar, Nat.isValidChar] at hvalid
        simp only [Char.toNat]
        omega
      exact unescape_hexDigits 8 (hlt.trans (by decide)) rest

/-- The escape of a character tells the character and where it ends. -/
theorem escapeChar_append_inj (hquote : IsQuote quote) {c' : Char} {rest rest' : List Char}
    (h : escapeChar quote c ++ rest = escapeChar quote c' ++ rest') : c = c' ∧ rest = rest' := by
  have hread := congrArg unescape h
  rw [unescape_escapeChar hquote, unescape_escapeChar hquote] at hread
  cases hread
  exact ⟨rfl, rfl⟩

theorem flatMap_escapeChar_ne_nil (hquote : IsQuote quote) (c : Char) (cs : List Char) :
    (c :: cs).flatMap (escapeChar quote) ≠ [] := by
  intro hnil
  have hread := unescape_escapeChar hquote c (cs.flatMap (escapeChar quote))
  rw [← List.flatMap_cons, hnil] at hread
  cases hread

/-- Escaped characters tell the characters. -/
theorem flatMap_escapeChar_inj (hquote : IsQuote quote) {cs cs' : List Char}
    (h : cs.flatMap (escapeChar quote) = cs'.flatMap (escapeChar quote)) : cs = cs' := by
  induction cs generalizing cs' with
  | nil =>
    cases cs' with
    | nil => rfl
    | cons c' cs' => exact absurd h.symm (flatMap_escapeChar_ne_nil hquote c' cs')
  | cons c cs ih =>
    cases cs' with
    | nil => exact absurd h (flatMap_escapeChar_ne_nil hquote c cs)
    | cons c' cs' =>
      rw [List.flatMap_cons, List.flatMap_cons] at h
      obtain ⟨rfl, hrest⟩ := escapeChar_append_inj hquote h
      rw [ih hrest]

/-! ## Quotes -/

/-- Texts that are the same between quotes are the same. -/
theorem quoted_injective : Function.Injective quoted := by
  intro cs cs' h
  obtain ⟨hquote, hbody⟩ := List.cons.inj h
  rw [hquote] at hbody
  exact flatMap_escapeChar_inj (isQuote_quoteMark cs') (List.append_cancel_right hbody)

/-! ## One line -/

/-- A character that ends a line is not printable. -/
theorem isLineBreak_eq_false_of_isPrintable (h : isPrintable c = true) : isLineBreak c = false := by
  have hrange : ∀ range ∈ unprintableRanges, ¬(range.1 ≤ c.toNat ∧ c.toNat ≤ range.2) := by
    intro range hmem hin
    rw [isPrintable, Bool.not_eq_true', List.any_eq_false] at h
    simpa [hin] using h range hmem
  have hcontrol := hrange (0x0, 0x1F) (by decide +kernel)
  have hnext := hrange (0x7F, 0xA0) (by decide +kernel)
  have hseparator := hrange (0x2028, 0x202F) (by decide +kernel)
  simp only [isLineBreak, Bool.or_eq_false_iff, Bool.and_eq_false_iff, decide_eq_false_iff_not,
    beq_eq_false_iff_ne]
  omega

/-- No escape has a line break in it. -/
theorem unbroken_escapeChar (hquote : IsQuote quote) (c : Char) :
    Unbroken (escapeChar quote c) := by
  have hcons {c : Char} {cs : List Char} (hc : isLineBreak c = false) (hcs : Unbroken cs) :
      Unbroken (c :: cs) := List.forall_mem_cons.2 ⟨hc, hcs⟩
  have hletter {c : Char} (hc : isLineBreak c = false) : Unbroken ['\\', c] :=
    hcons rfl (hcons hc (List.forall_mem_nil _))
  unfold escapeChar
  split
  · next h =>
    rw [Bool.or_eq_true, beq_iff_eq, beq_iff_eq] at h
    rcases h with rfl | rfl
    · rcases hquote with rfl | rfl <;> exact hletter rfl
    · exact hletter rfl
  split
  · exact hletter rfl
  split
  · exact hletter rfl
  split
  · exact hletter rfl
  split
  · next hprintable =>
    exact List.forall_mem_singleton.2 (isLineBreak_eq_false_of_isPrintable hprintable)
  split
  · exact hcons rfl (hcons rfl (unbroken_hexDigits _ _))
  split
  · exact hcons rfl (hcons rfl (unbroken_hexDigits _ _))
  · exact hcons rfl (hcons rfl (unbroken_hexDigits _ _))

/-- Nothing in a quoted text ends a line. -/
theorem unbroken_quoted (cs : List Char) : Unbroken (quoted cs) := by
  have hquote : isLineBreak (quoteMark cs) = false := by
    rcases isQuote_quoteMark cs with h | h <;> rw [h] <;> rfl
  refine List.forall_mem_cons.2 ⟨hquote, List.forall_mem_append.2
    ⟨fun c hc => ?_, List.forall_mem_singleton.2 hquote⟩⟩
  obtain ⟨x, -, hx⟩ := List.mem_flatMap.1 hc
  exact unbroken_escapeChar (isQuote_quoteMark cs) x c hx

end WitxFrontEnd.Text
