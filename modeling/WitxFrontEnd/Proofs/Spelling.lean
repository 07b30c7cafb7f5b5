import WitxFrontEnd.Literal
import WitxFrontEnd.Proofs.Munch

/-!
# Spellings of a string

Which characters between two quotes write which bytes: `Literal.Spells` has one constructor for
each way to write some, and a character of a text may be written in any of them, also byte by
byte. `closeQuote_of_spells` says that a spelling ends at the quote behind it and at none before,
`decodeBody_of_spells` that every spelling of a text's bytes denotes the text. `spells_encode` is
the spelling that `encode` picks.
-/

namespace WitxFrontEnd.Literal

/-! ## Numbers -/

/-- The digit, in either case, of a number below sixteen. -/
def HexDigit (c : Char) (n : Nat) : Prop :=
  n < 16 ∧ (c = n.digitChar ∨ c = n.digitChar.toUpper)

/-- Digits that write a number, the most significant first. -/
inductive HexNumber : List Char → Nat → Prop
  | digit {c : Char} {n : Nat} (hc : HexDigit c n) : HexNumber [c] n
  | snoc {cs : List Char} {c : Char} {m n : Nat} (h : HexNumber cs m) (hc : HexDigit c n) :
      HexNumber (cs ++ [c]) (16 * m + n)

theorem HexDigit.isHexDigit {c : Char} {n : Nat} (h : HexDigit c n) : isHexDigit c = true := by
  obtain ⟨hn, rfl | rfl⟩ := h
  · revert n; decide
  · revert n; decide

theorem HexDigit.hexValue {c : Char} {n : Nat} (h : HexDigit c n) : hexValue c = n := by
  obtain ⟨hn, rfl | rfl⟩ := h
  · revert n; decide
  · revert n; decide

theorem HexNumber.isHexDigit {cs : List Char} {n : Nat} (h : HexNumber cs n) :
    ∀ c ∈ cs, Literal.isHexDigit c = true := by
  induction h with
  | digit hc =>
    intro x hx
    rw [List.mem_singleton.1 hx]
    exact hc.isHexDigit
  | snoc _ hc ih =>
    intro x hx
    rcases List.mem_append.1 hx with hx | hx
    · exact ih x hx
    · rw [List.mem_singleton.1 hx]
      exact hc.isHexDigit

theorem HexNumber.hexNumber {cs : List Char} {n : Nat} (h : HexNumber cs n) :
    Literal.hexNumber cs = n := by
  induction h with
  | digit hc =>
    show 16 * 0 + Literal.hexValue _ = _
    rw [hc.hexValue, Nat.mul_zero, Nat.zero_add]
  | snoc _ hc ih =>
    rw [Literal.hexNumber, List.foldl_append, ← Literal.hexNumber, ih]
    show 16 * _ + Literal.hexValue _ = _
    rw [hc.hexValue]

/-! ## Spellings -/

/-- The letters and signs that write a byte behind a backslash. -/
def namedEscapes : List (Char × UInt8) :=
  [('t', 0x09), ('n', 0x0A), ('r', 0x0D), ('\"', 0x22), ('\'', 0x27), ('\\', 0x5C)]

/-- The characters write the bytes. -/
inductive Spells : List Char → List UInt8 → Prop
  | nil : Spells [] []
  | raw {c : Char} {cs : List Char} {bs : List UInt8} (hquote : c ≠ '\"') (hbackslash : c ≠ '\\')
      (h : Spells cs bs) : Spells (c :: cs) (String.utf8EncodeChar c ++ bs)
  | named {c : Char} {b : UInt8} {cs : List Char} {bs : List UInt8} (hc : (c, b) ∈ namedEscapes)
      (h : Spells cs bs) : Spells ('\\' :: c :: cs) (b :: bs)
  | byte {c d : Char} {m n : Nat} {cs : List Char} {bs : List UInt8} (hc : HexDigit c m)
      (hd : HexDigit d n) (h : Spells cs bs) :
      Spells ('\\' :: c :: d :: cs) (UInt8.ofNat (16 * m + n) :: bs)
  | codePoint {u : Char} {ds cs : List Char} {bs : List UInt8} (hds : HexNumber ds u.toNat)
      (h : Spells cs bs) :
      Spells ('\\' :: 'u' :: '\x7b' :: (ds ++ '\x7d' :: cs)) (String.utf8EncodeChar u ++ bs)

/-! ## Where a spelling ends -/

open Lexeme (closeQuote closeQuote_cons)

/-- No hexadecimal digit is a quote or a backslash. -/
theorem ne_of_isHexDigit {c : Char} (h : isHexDigit c = true) : c ≠ '\"' ∧ c ≠ '\\' := by
  constructor
  · rintro rfl; exact absurd h (by decide)
  · rintro rfl; exact absurd h (by decide)

/-- Hexadecimal digits are passed over. -/
theorem closeQuote_digits {ds : List Char} (hds : ∀ c ∈ ds, isHexDigit c = true) (cs : List Char) :
    closeQuote (ds ++ cs) = (closeQuote cs).map fun (body, rest) => (ds ++ body, rest) := by
  induction ds with
  | nil => rw [List.nil_append]; cases closeQuote cs <;> rfl
  | cons c ds ih =>
    obtain ⟨hquote, hbackslash⟩ := ne_of_isHexDigit (hds c List.mem_cons_self)
    rw [List.cons_append, closeQuote_cons hquote hbackslash,
      ih fun x hx => hds x (List.mem_cons_of_mem c hx), Option.map_map]
    rfl

/-- A spelling is passed over. -/
theorem closeQuote_append_of_spells {body : List Char} {bytes : List UInt8} (h : Spells body bytes)
    (cs : List Char) :
    closeQuote (body ++ cs) = (closeQuote cs).map fun (inner, rest) => (body ++ inner, rest) := by
  induction h with
  | nil => rw [List.nil_append]; cases closeQuote cs <;> rfl
  | raw hquote hbackslash _ ih =>
    rw [List.cons_append, closeQuote_cons hquote hbackslash, ih, Option.map_map]
    rfl
  | named _ _ ih =>
    rw [List.cons_append, List.cons_append, closeQuote, ih, Option.map_map]
    rfl
  | byte _ hd _ ih =>
    obtain ⟨hquote, hbackslash⟩ := ne_of_isHexDigit hd.isHexDigit
    rw [List.cons_append, List.cons_append, closeQuote, List.cons_append,
      closeQuote_cons hquote hbackslash, ih, Option.map_map, Option.map_map]
    rfl
  | codePoint hds _ ih =>
    rw [List.cons_append, List.cons_append, closeQuote, List.cons_append,
      closeQuote_cons (by decide) (by decide), List.append_assoc, closeQuote_digits hds.isHexDigit,
      List.cons_append, closeQuote_cons (by decide) (by decide), ih]
    cases closeQuote cs <;> simp

/-- The quote behind a spelling is the first that ends it. -/
theorem closeQuote_of_spells {body : List Char} {bytes : List UInt8} (h : Spells body bytes) :
    closeQuote (body ++ ['\"']) = some (body, []) := by
  rw [closeQuote_append_of_spells h]
  show some (body ++ [], _) = _
  rw [List.append_nil]

/-! ## What a spelling denotes -/

/-- A named escape is no digit. -/
theorem namedEscape?_of_mem {c : Char} {b : UInt8} (h : (c, b) ∈ namedEscapes) :
    namedEscape? c = some b := by
  simp only [namedEscapes, List.mem_cons, Prod.mk.injEq, List.not_mem_nil, or_false] at h
  rcases h with ⟨rfl, rfl⟩ | ⟨rfl, rfl⟩ | ⟨rfl, rfl⟩ | ⟨rfl, rfl⟩ | ⟨rfl, rfl⟩ | ⟨rfl, rfl⟩ <;> rfl

theorem HexDigit.namedEscape? {c : Char} {n : Nat} (h : HexDigit c n) :
    namedEscape? c = none ∧ c ≠ 'u' := by
  obtain ⟨hn, rfl | rfl⟩ := h
  · revert n; decide
  · revert n; decide

/-- An escape is read as the unit it writes, whatever code points are behind it. -/
theorem units_escape {text : List Char} {behind : List CodePoint} {unit : StringUnit}
    (h : escape (text ++ behind.map CodePoint.shown) = .ok (unit, behind.map CodePoint.shown)) :
    units (.char '\\' :: (text.map .char ++ behind)) = (units behind).map (unit :: ·) := by
  have hdrop : (text.map CodePoint.char ++ behind).drop
      ((text.map CodePoint.char ++ behind).length - (behind.map CodePoint.shown).length) =
        behind := by
    rw [List.length_append, List.length_map, List.length_map, Nat.add_sub_cancel,
      List.drop_left' (List.length_map _)]
  rw [units, List.map_append, map_shown_char, h]
  dsimp only
  rw [hdrop]

/-- Any other character is read as itself. -/
theorem units_raw {c : Char} (hc : c ≠ '\\') (cs : List CodePoint) :
    units (.char c :: cs) = (units cs).map (.raw c :: ·) := by
  rw [units]
  rintro ⟨⟩
  exact hc rfl

/-- A surrogate is read as nothing. -/
theorem units_surrogate (half : Fin 0x800) (cs : List CodePoint) :
    units (.surrogate half :: cs) = .error (.surrogate half) := by
  rw [units]

/-- A number has a first digit. -/
theorem HexNumber.exists_cons {ds : List Char} {n : Nat} (h : HexNumber ds n) :
    ∃ c cs, ds = c :: cs := by
  cases h with
  | digit => exact ⟨_, _, rfl⟩
  | @snoc cs => cases cs with
    | nil => exact ⟨_, _, rfl⟩
    | cons => exact ⟨_, _, rfl⟩

/-- A number in braces is read as a code point, if it is that of a character. -/
theorem codePoint_number {ds : List Char} {n : Nat} (h : HexNumber ds n) (cs : List Char) :
    codePoint ('\x7b' :: (ds ++ '\x7d' :: cs)) =
      if n.isValidChar then .ok (.codePoint (Char.ofNat n), cs) else .error .scalarValue := by
  have hbrace : ∀ x ∈ ('\x7d' :: cs).head?, isHexDigit x = false := by
    intro x hx
    cases hx
    decide
  obtain ⟨htake, hdrop⟩ := Lexeme.takeWhile_run h.isHexDigit hbrace
  obtain ⟨c, ds', rfl⟩ := h.exists_cons
  simp only [codePoint, htake, hdrop, h.hexNumber]

/-- A code point escape is read up to its closing brace. -/
theorem codePoint_of_hexNumber {ds : List Char} {u : Char} (h : HexNumber ds u.toNat)
    (cs : List Char) :
    codePoint ('\x7b' :: (ds ++ '\x7d' :: cs)) = .ok (.codePoint u, cs) := by
  have hvalid : u.toNat.isValidChar := u.valid
  rw [codePoint_number h, if_pos hvalid, Char.ofNat_toNat]

/-- The name of a byte is read as the byte. -/
theorem escape_of_namedEscape? {c : Char} {b : UInt8} (h : namedEscape? c = some b)
    (cs : List Char) : escape (c :: cs) = .ok (.named c b, cs) := by
  unfold escape
  dsimp only
  rw [h]

/-- Two digits are read as one byte. -/
theorem escape_of_hexDigits {c d : Char} {m n : Nat} (hc : HexDigit c m) (hd : HexDigit d n)
    (cs : List Char) :
    escape (c :: d :: cs) = .ok (.byte (UInt8.ofNat (16 * m + n)), cs) := by
  obtain ⟨hnamed, hu⟩ := hc.namedEscape?
  have hnumber : hexNumber [c, d] = 16 * m + n := (HexNumber.snoc (.digit hc) hd).hexNumber
  unfold escape
  dsimp only
  rw [hnamed]
  dsimp only
  rw [if_neg (by rwa [beq_iff_eq]), hc.isHexDigit, hd.isHexDigit, hnumber]
  rfl

/-- The units of a spelling spell its bytes, whatever comes behind them. -/
theorem units_append_of_spells {body : List Char} {bytes : List UInt8} (h : Spells body bytes) :
    ∃ us, us.flatMap StringUnit.bytes = bytes ∧
      ∀ rest, units (body.map .char ++ rest) = (units rest).map (us ++ ·) := by
  -- one unit more in front
  have hcons (unit : StringUnit) {us : List StringUnit} {cs : List Char} {rest : List CodePoint}
      (hus : units (cs.map .char ++ rest) = (units rest).map (us ++ ·)) :
      (units (cs.map .char ++ rest)).map (unit :: ·) = (units rest).map (unit :: us ++ ·) := by
    rw [hus]
    cases units rest <;> rfl
  induction h with
  | nil =>
    refine ⟨[], rfl, fun rest => ?_⟩
    rw [List.map_nil, List.nil_append]
    cases units rest <;> rfl
  | @raw c cs bs _ hbackslash _ ih =>
    obtain ⟨us, rfl, hus⟩ := ih
    refine ⟨.raw c :: us, rfl, fun rest => ?_⟩
    rw [List.map_cons, List.cons_append, units_raw hbackslash, hcons _ (hus rest)]
  | @named c b cs bs hc _ ih =>
    obtain ⟨us, rfl, hus⟩ := ih
    refine ⟨.named c b :: us, rfl, fun rest => ?_⟩
    have he := escape_of_namedEscape? (namedEscape?_of_mem hc)
      ((cs.map CodePoint.char ++ rest).map CodePoint.shown)
    exact (@units_escape [c] _ _ he).trans (hcons _ (hus rest))
  | @byte c d m n cs bs hc hd _ ih =>
    obtain ⟨us, rfl, hus⟩ := ih
    refine ⟨.byte (UInt8.ofNat (16 * m + n)) :: us, rfl, fun rest => ?_⟩
    have he := escape_of_hexDigits hc hd ((cs.map CodePoint.char ++ rest).map CodePoint.shown)
    exact (@units_escape [c, d] _ _ he).trans (hcons _ (hus rest))
  | @codePoint u ds cs bs hds _ ih =>
    obtain ⟨us, rfl, hus⟩ := ih
    refine ⟨.codePoint u :: us, rfl, fun rest => ?_⟩
    have he : escape (('u' :: '\x7b' :: (ds ++ ['\x7d'])) ++
        (cs.map CodePoint.char ++ rest).map CodePoint.shown) =
          .ok (.codePoint u, (cs.map CodePoint.char ++ rest).map CodePoint.shown) := by
      rw [List.cons_append, List.cons_append, List.append_assoc]
      exact codePoint_of_hexNumber hds _
    have htext : ('\\' :: 'u' :: '\x7b' :: (ds ++ '\x7d' :: cs)).map CodePoint.char ++ rest =
        .char '\\' :: (('u' :: '\x7b' :: (ds ++ ['\x7d'])).map .char ++
          (cs.map .char ++ rest)) := by simp
    rw [htext, units_escape he, hcons _ (hus rest)]

/-- The units of a spelling spell its bytes. -/
theorem units_of_spells {body : List Char} {bytes : List UInt8} (h : Spells body bytes) :
    ∃ us, units (body.map .char) = .ok us ∧ us.flatMap StringUnit.bytes = bytes := by
  obtain ⟨us, hbytes, hus⟩ := units_append_of_spells h
  refine ⟨us, ?_, hbytes⟩
  rw [← List.append_nil (body.map CodePoint.char), hus [], units]
  show Except.ok (us ++ []) = _
  rw [List.append_nil]

/-- Every spelling of the bytes of a text denotes the text. -/
theorem decodeBody_of_spells {body : List Char} {text : String}
    (h : Spells body (text.toList.flatMap String.utf8EncodeChar)) :
    decodeBody (body.map .char) = .ok text := by
  obtain ⟨us, hus, hbytes⟩ := units_of_spells h
  have htext : bytes us = text.toByteArray := by
    rw [bytes, hbytes, ← String.utf8Encode_toList, List.utf8Encode]
  have hvalid : String.fromUTF8? text.toByteArray = some text := dif_pos text.isValidUTF8
  rw [decodeBody, hus]
  dsimp only
  rw [htext, hvalid]

/-- A literal denotes what is between its quotes. -/
theorem decode_quoted (body : List CodePoint) :
    decode (.char '\"' :: (body ++ [.char '\"'])) = decodeBody body := by
  rw [decode]
  show decodeBody (body ++ [_]).dropLast = _
  rw [List.dropLast_concat]

/-- So does a literal of characters. -/
theorem decode_codePoints_quoted {literal : String} {body : List Char}
    (h : literal.toList = '\"' :: (body ++ ['\"'])) :
    decode (codePoints literal) = decodeBody (body.map .char) := by
  rw [codePoints, h, List.map_cons, List.map_append]
  exact decode_quoted (body.map .char)

/-- The spelling that `encode` picks: quotes and backslashes escaped, all else raw. -/
theorem spells_encode (cs : List Char) :
    Spells (cs.flatMap fun c => if c == '\\' || c == '\"' then ['\\', c] else [c])
      (cs.flatMap String.utf8EncodeChar) := by
  induction cs with
  | nil => exact .nil
  | cons c cs ih =>
    rw [List.flatMap_cons, List.flatMap_cons]
    by_cases hbackslash : c = '\\'
    · subst hbackslash
      exact .named (by decide) ih
    · by_cases hquote : c = '\"'
      · subst hquote
        exact .named (by decide) ih
      · rw [if_neg (by simp [hbackslash, hquote])]
        exact .raw hquote hbackslash ih

end WitxFrontEnd.Literal
