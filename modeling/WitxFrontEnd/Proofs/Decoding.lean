import Mathlib.Data.List.Induction
import WitxFrontEnd.Item
import WitxFrontEnd.Proofs.Spelling
import WitxFrontEnd.Proofs.Tokens

/-!
# What a string literal denotes

`Literal.Spells` says which characters write which bytes. A literal denotes a text if and only if
its body spells the bytes of the text, so the bytes of one character may come from several escapes
(`decodeBody_eq_ok_iff`). Other literals are `Misspelt`: the leftmost backslash at which no escape
stands decides what is said of them, and if there is none, their bytes are those of no text
(`decodeBody_eq_error_iff`). A literal is neither if a lone surrogate stands in it that no mistake
precedes: decoding it is given up (`decodeBody_eq_surrogate_iff`).

All of this comes from one lemma about the loop over the units, `units_cases`. What the loop has
read is a spelling, so what is left is the body of a string again (`quotedBody_of_append`), and no
literal ends right behind a backslash.
-/

namespace WitxFrontEnd.Literal

/-! ## Digits and numbers -/

/-- A digit, whichever case, is the digit of its value. -/
theorem hexDigit_of_isHexDigit {c : Char} (h : isHexDigit c = true) : HexDigit c (hexValue c) := by
  have hall : ∀ n < 128, isHexDigit (Char.ofNat n) = true →
      HexDigit (Char.ofNat n) (hexValue (Char.ofNat n)) := by
    unfold HexDigit
    decide
  have hlt : c.toNat < 128 := by
    simp only [isHexDigit, Char.isDigit, Bool.or_eq_true, Bool.and_eq_true, decide_eq_true_eq,
      Char.le_def, UInt32.le_iff_toNat_le] at h
    change c.val.toNat < 128
    have h9 : '9'.val.toNat = 57 := rfl
    have hf : 'f'.val.toNat = 102 := rfl
    have hF : 'F'.val.toNat = 70 := rfl
    omega
  have hc := hall c.toNat hlt
  rw [Char.ofNat_toNat] at hc
  exact hc h

/-- Digits write their number. -/
theorem hexNumber_of_isHexDigit {ds : List Char} (hne : ds ≠ [])
    (h : ∀ c ∈ ds, isHexDigit c = true) : HexNumber ds (hexNumber ds) := by
  induction ds using List.reverseRecOn with
  | nil => exact absurd rfl hne
  | append_singleton ds c ih =>
    have hc := hexDigit_of_isHexDigit (h c (by simp))
    have hnumber : ∃ n, HexNumber (ds ++ [c]) n := by
      cases ds with
      | nil => exact ⟨_, .digit hc⟩
      | cons d ds => exact ⟨_, .snoc (ih (by simp) fun x hx => h x (List.mem_append_left _ hx)) hc⟩
    obtain ⟨n, hn⟩ := hnumber
    rwa [hn.hexNumber]

/-! ## Escapes -/

/-- Behind a backslash no escape stands, and what is then said of the literal. -/
inductive BadEscape : List Char → String → Prop
  /-- No name of a byte, and not the first of two digits. -/
  | unknown {c : Char} {rest : List Char} (hu : c ≠ 'u') (hnamed : ∀ b, (c, b) ∉ namedEscapes)
      (hbyte : ∀ d tail m n, rest = d :: tail → HexDigit c m → ¬HexDigit d n) :
      BadEscape (c :: rest) ("invalid string escape '\\" ++ c.toString ++ "'")
  /-- A `u` behind which no number stands in braces. -/
  | number {rest : List Char}
      (hnumber : ∀ ds n tail, HexNumber ds n → rest ≠ '\x7b' :: (ds ++ '\x7d' :: tail)) :
      BadEscape ('u' :: rest) "invalid unicode escape"
  /-- A number in braces that is no character's. -/
  | scalarValue {ds tail : List Char} {n : Nat} (hds : HexNumber ds n) (hn : ¬n.isValidChar) :
      BadEscape ('u' :: '\x7b' :: (ds ++ '\x7d' :: tail)) "invalid unicode scalar value"

theorem mem_namedEscapes {c : Char} {b : UInt8} (h : namedEscape? c = some b) :
    (c, b) ∈ namedEscapes := by
  unfold namedEscape? at h
  split at h <;> cases h <;> decide

/-- Behind a `u` there is a number in braces, or no escape stands. -/
theorem codePoint_cases (cs : List Char) :
    (∃ ds n rest, HexNumber ds n ∧ cs = '\x7b' :: (ds ++ '\x7d' :: rest)) ∨
      (∀ ds n rest, HexNumber ds n → cs ≠ '\x7b' :: (ds ++ '\x7d' :: rest)) ∧
        codePoint cs = .error .unicodeEscape := by
  by_cases hform : ∃ ds n rest, HexNumber ds n ∧ cs = '\x7b' :: (ds ++ '\x7d' :: rest)
  · exact .inl hform
  · refine .inr ⟨fun ds n rest hds hcs => hform ⟨ds, n, rest, hds, hcs⟩, ?_⟩
    unfold codePoint
    split
    · next tail =>
      dsimp only
      split
      · next c ds rest htake hdrop =>
        have hne : tail.takeWhile isHexDigit ≠ [] := by
          rw [htake]
          exact List.cons_ne_nil c ds
        have hnumber := hexNumber_of_isHexDigit hne fun x hx => List.mem_takeWhile_imp hx
        refine absurd ⟨_, _, rest, hnumber, ?_⟩ hform
        rw [← hdrop, List.takeWhile_append_dropWhile]
      · rfl
    · rfl

/-- What stands behind a backslash is read as the bytes that it writes, or it is a bad escape. No
surrogate is shown as anything that is read. -/
def ReadOrBad (cs : List Char) : Except LiteralFault (StringUnit × List Char) → Prop
  | .ok (unit, rest) =>
    ∃ text, cs = text ++ rest ∧ '\ufffd' ∉ text ∧ Spells ('\\' :: text) unit.bytes
  | .error fault => fault.kind = .parse ∧ BadEscape cs fault.message

/-- No surrogate is shown as a hexadecimal digit. -/
theorem not_mem_of_isHexDigit {ds : List Char} (h : ∀ c ∈ ds, isHexDigit c = true) :
    '\ufffd' ∉ ds := by
  intro hmem
  exact absurd (h _ hmem) (by decide)

/-- Behind a `u` a code point escape stands, which is then read, or none does. -/
theorem readOrBad_codePoint (cs : List Char) : ReadOrBad ('u' :: cs) (codePoint cs) := by
  rcases codePoint_cases cs with ⟨ds, n, rest, hds, rfl⟩ | ⟨hform, herror⟩
  · rw [codePoint_number hds]
    split
    · next hvalid =>
      have hn : (Char.ofNat n).toNat = n := by
        rw [Char.ofNat, dif_pos hvalid]
        rfl
      have hspells := Spells.codePoint (u := Char.ofNat n) (by rwa [hn]) .nil
      rw [List.append_nil] at hspells
      have hplain : '\ufffd' ∉ 'u' :: '\x7b' :: (ds ++ ['\x7d']) := by
        simpa using not_mem_of_isHexDigit hds.isHexDigit
      exact ⟨'u' :: '\x7b' :: (ds ++ ['\x7d']), by simp, hplain, hspells⟩
    · next hinvalid => exact ⟨rfl, .scalarValue hds hinvalid⟩
  · rw [herror]
    exact ⟨rfl, .number hform⟩

/-- Behind a backslash an escape stands, which is then read as the bytes that it writes, or none
does. -/
theorem readOrBad_escape (c : Char) (cs : List Char) :
    ReadOrBad (c :: cs) (escape (c :: cs)) := by
  cases hnamed : namedEscape? c with
  | some b =>
    rw [escape_of_namedEscape? hnamed]
    have hplain : '\ufffd' ∉ [c] := by
      rw [List.mem_singleton]
      rintro rfl
      cases hnamed
    exact ⟨[c], rfl, hplain, .named (mem_namedEscapes hnamed) .nil⟩
  | none =>
    have hnone (b : UInt8) : (c, b) ∉ namedEscapes := by
      intro hmem
      rw [namedEscape?_of_mem hmem] at hnamed
      cases hnamed
    unfold escape
    dsimp only
    rw [hnamed]
    dsimp only
    split
    · next hu =>
      obtain rfl : c = 'u' := by simpa using hu
      exact readOrBad_codePoint cs
    · next hu =>
      have hu : c ≠ 'u' := by simpa using hu
      split
      · next d rest =>
        split
        · next hdigits =>
          obtain ⟨hc, hd⟩ := Bool.and_eq_true_iff.1 hdigits
          have hplain : '\ufffd' ∉ [c, d] :=
            not_mem_of_isHexDigit (List.forall_mem_cons.2 ⟨hc, List.forall_mem_singleton.2 hd⟩)
          have hc := hexDigit_of_isHexDigit hc
          have hd := hexDigit_of_isHexDigit hd
          have hnumber : hexNumber [c, d] = 16 * hexValue c + hexValue d :=
            (HexNumber.snoc (.digit hc) hd).hexNumber
          rw [hnumber]
          exact ⟨[c, d], rfl, hplain, .byte hc hd .nil⟩
        · next hdigits =>
          refine ⟨rfl, .unknown hu hnone ?_⟩
          rintro _ _ m n hrest hc hd
          cases hrest
          exact hdigits (by rw [hc.isHexDigit, hd.isHexDigit]; rfl)
      · exact ⟨rfl, .unknown hu hnone nofun⟩

/-- Where no escape stands none is read. -/
theorem escape_of_badEscape {cs : List Char} {message : String} (h : BadEscape cs message) :
    ∃ fault, escape cs = .error fault ∧ fault.kind = .parse ∧ fault.message = message := by
  cases h with
  | @unknown c rest hu hnamed hbyte =>
    have hnone : namedEscape? c = none := by
      cases hc : namedEscape? c with
      | none => rfl
      | some b => exact absurd (mem_namedEscapes hc) (hnamed b)
    refine ⟨.unknownEscape c, ?_, rfl, rfl⟩
    unfold escape
    dsimp only
    rw [hnone]
    dsimp only
    rw [if_neg (by simpa using hu)]
    cases rest with
    | nil => rfl
    | cons d tail =>
      dsimp only
      rw [if_neg fun hdigits => ?_]
      obtain ⟨hc, hd⟩ := Bool.and_eq_true_iff.1 hdigits
      exact hbyte d tail _ _ rfl (hexDigit_of_isHexDigit hc) (hexDigit_of_isHexDigit hd)
  | @number rest hform =>
    rcases codePoint_cases rest with ⟨ds, n, tail, hds, hrest⟩ | ⟨-, herror⟩
    · exact absurd hrest (hform ds n tail hds)
    · exact ⟨.unicodeEscape, herror, rfl, rfl⟩
  | @scalarValue ds tail n hds hn =>
    refine ⟨.scalarValue, ?_, rfl, rfl⟩
    show codePoint ('\x7b' :: (ds ++ '\x7d' :: tail)) = _
    rw [codePoint_number hds, if_neg hn]

/-! ## Units -/

/-- Spellings one behind the other spell the bytes one behind the other. -/
theorem Spells.append {cs ds : List Char} {bs bs' : List UInt8} (h : Spells cs bs)
    (h' : Spells ds bs') : Spells (cs ++ ds) (bs ++ bs') := by
  induction h with
  | nil => exact h'
  | raw hquote hbackslash _ ih =>
    rw [List.append_assoc]
    exact .raw hquote hbackslash ih
  | named hc _ ih => exact .named hc ih
  | byte hc hd _ ih => exact .byte hc hd ih
  | codePoint hds _ ih =>
    rw [List.append_assoc]
    simp only [List.cons_append, List.append_assoc]
    exact .codePoint hds ih

/-- In front of a string's body stands a backslash, or a character that is no quote and behind which
the body goes on. -/
theorem quotedBody_of_cons {c : Char} {cs : List Char} (h : QuotedBody (c :: cs))
    (hbackslash : c ≠ '\\') : c ≠ '\"' ∧ QuotedBody cs := by
  cases h with
  | plain hquote _ h => exact ⟨hquote, h⟩
  | escaped => exact absurd rfl hbackslash

/-- What is left of a string's body behind a spelling is a string's body. -/
theorem quotedBody_of_append {cs rest : List Char} {bs : List UInt8} (h : Spells cs bs)
    (hbody : QuotedBody (cs ++ rest)) : QuotedBody rest := by
  have hclose := Lexeme.closeQuote_eq_some_iff_quotedBody.2 hbody
  rw [List.append_assoc, closeQuote_append_of_spells h] at hclose
  obtain ⟨⟨inner, tail⟩, hinner, hpair⟩ := Option.map_eq_some_iff.1 hclose
  simp only [Prod.mk.injEq, List.append_cancel_left_eq] at hpair
  obtain ⟨rfl, rfl⟩ := hpair
  exact Lexeme.closeQuote_eq_some_iff_quotedBody.1 hinner

/-- Where code points are shown as characters that no surrogate is shown as, they are these. -/
theorem exists_behind {cs : List CodePoint} {text rest : List Char}
    (h : cs.map CodePoint.shown = text ++ rest) (htext : '\ufffd' ∉ text) :
    ∃ behind, cs = text.map .char ++ behind ∧ behind.map CodePoint.shown = rest := by
  induction text generalizing cs with
  | nil => exact ⟨cs, rfl, h⟩
  | cons c text ih =>
    rw [List.mem_cons, not_or] at htext
    obtain ⟨p, cs, rfl, hp, hcs⟩ := List.map_eq_cons_iff.1 h
    obtain ⟨behind, rfl, hbehind⟩ := ih hcs htext.2
    cases p with
    | char d =>
      obtain rfl : d = c := hp
      exact ⟨behind, rfl, hbehind⟩
    | surrogate half => exact absurd hp htext.1

/-- What is read behind a backslash are the characters that write its bytes. -/
theorem exists_of_escape {p : CodePoint} {cs : List CodePoint} {unit : StringUnit}
    {rest : List Char} (h : escape ((p :: cs).map CodePoint.shown) = .ok (unit, rest)) :
    ∃ text behind, p :: cs = text.map .char ++ behind ∧ rest = behind.map CodePoint.shown ∧
      Spells ('\\' :: text) unit.bytes ∧
      units (.char '\\' :: p :: cs) = (units behind).map (unit :: ·) := by
  have hread := readOrBad_escape p.shown (cs.map CodePoint.shown)
  rw [← List.map_cons, h] at hread
  obtain ⟨text, htext, hplain, hspells⟩ := hread
  obtain ⟨behind, hcs, rfl⟩ := exists_behind htext hplain
  refine ⟨text, behind, hcs, rfl, hspells, ?_⟩
  rw [htext] at h
  rw [hcs, units_escape h]

/-- No units are read from where no escape is. -/
theorem units_of_escape_error {cs : List CodePoint} {fault : LiteralFault}
    (h : escape (cs.map CodePoint.shown) = .error fault) :
    units (.char '\\' :: cs) = .error fault := by
  rw [units, h]

/-- The first code point begins no unit, and what is said of it. -/
inductive Stops : List CodePoint → LiteralFault → Prop
  | escape {cs : List CodePoint} {fault : LiteralFault} (hkind : fault.kind = .parse)
      (hbad : BadEscape (cs.map CodePoint.shown) fault.message) : Stops (.char '\\' :: cs) fault
  | surrogate (half : Fin 0x800) (cs : List CodePoint) :
      Stops (.surrogate half :: cs) (.surrogate half)

/-- How far the units of a text can be read: to its end, and it spells what was read; or up to a code
point that begins no unit, and what is before it spells what was read up to there. -/
def ReadOrStops (body : List CodePoint) : Prop :=
  (∃ cs us, body = cs.map .char ∧ units body = .ok us ∧ Spells cs (us.flatMap StringUnit.bytes)) ∨
    ∃ read bs rest fault, body = read.map .char ++ rest ∧ units body = .error fault ∧
      Spells read bs ∧ Stops rest fault

/-- One unit more in front does not change how far the units can be read. -/
theorem ReadOrStops.cons {text : List Char} {behind : List CodePoint} {unit : StringUnit}
    (h : ReadOrStops behind) (htext : Spells text unit.bytes)
    (hunits : units (text.map .char ++ behind) = (units behind).map (unit :: ·)) :
    ReadOrStops (text.map .char ++ behind) := by
  rcases h with ⟨cs, us, rfl, hus, hspells⟩ | ⟨read, bs, rest, fault, rfl, hus, hread, hstops⟩
  · refine .inl ⟨text ++ cs, unit :: us, by rw [List.map_append], ?_, htext.append hspells⟩
    rw [hunits, hus]
    rfl
  · refine .inr ⟨text ++ read, _, rest, fault, by rw [List.map_append, List.append_assoc], ?_,
      htext.append hread, hstops⟩
    rw [hunits, hus]
    rfl

/-- Behind a backslash an escape is read, and then what is behind it, or the escape is none. -/
theorem readOrStops_of_escape {q : CodePoint} {cs : List CodePoint}
    (h : QuotedBody ('\\' :: (q :: cs).map CodePoint.shown))
    (hbehind : ∀ behind : List CodePoint, behind.length < cs.length + 2 →
      QuotedBody (behind.map CodePoint.shown) → ReadOrStops behind) :
    ReadOrStops (.char '\\' :: q :: cs) := by
  cases hescape : escape ((q :: cs).map CodePoint.shown) with
  | ok found =>
    obtain ⟨unit, rest⟩ := found
    obtain ⟨text, behind, hcs, rfl, hspells, hunits⟩ := exists_of_escape hescape
    have hbody : CodePoint.char '\\' :: q :: cs = ('\\' :: text).map .char ++ behind := by
      rw [hcs]
      rfl
    have hrest : QuotedBody (behind.map CodePoint.shown) := by
      refine quotedBody_of_append hspells ?_
      have hshown := congrArg (List.map CodePoint.shown) hbody
      rw [List.map_append, map_shown_char] at hshown
      rw [← hshown]
      exact h
    have hlt : behind.length < cs.length + 2 := by
      have hlength := congrArg List.length hbody
      simp only [List.length_append, List.length_map, List.length_cons] at hlength
      omega
    rw [hbody] at hunits ⊢
    exact (hbehind behind hlt hrest).cons hspells hunits
  | error fault =>
    have hread := readOrBad_escape q.shown (cs.map CodePoint.shown)
    rw [← List.map_cons, hescape] at hread
    exact .inr ⟨[], [], _, fault, rfl, units_of_escape_error hescape, .nil,
      .escape hread.1 hread.2⟩

/-- The body of a string is read to its end, or up to where no unit begins. -/
theorem units_cases {body : List CodePoint} (h : QuotedBody (body.map CodePoint.shown)) :
    ReadOrStops body := by
  induction hn : body.length using Nat.strongRecOn generalizing body with
  | ind n ih =>
  subst hn
  cases body with
  | nil => exact .inl ⟨[], [], rfl, by rw [units], .nil⟩
  | cons p cs =>
  cases p with
  | surrogate half =>
    exact .inr ⟨[], [], _, _, rfl, units_surrogate half cs, .nil, .surrogate half cs⟩
  | char c =>
    change QuotedBody (c :: cs.map CodePoint.shown) at h
    by_cases hbackslash : c = '\\'
    · subst hbackslash
      cases cs with
      | nil =>
        cases h with
        | plain _ hne => exact absurd rfl hne
      | cons q cs =>
        exact readOrStops_of_escape h fun behind hlt hbehind => ih _ hlt hbehind rfl
    · obtain ⟨hquote, hbehind⟩ := quotedBody_of_cons h hbackslash
      have hspells := Spells.raw hquote hbackslash .nil
      rw [List.append_nil] at hspells
      have hcs : ReadOrStops cs := ih _ (Nat.lt_succ_self cs.length) hbehind rfl
      exact @ReadOrStops.cons [c] cs (.raw c) hcs hspells (units_raw hbackslash cs)

/-! ## Bodies -/

/-- The code points are characters that write the bytes. -/
def Writes (body : List CodePoint) (bs : List UInt8) : Prop :=
  ∃ cs, body = cs.map .char ∧ Spells cs bs

/-- Characters write what they spell. -/
theorem writes_map_char {cs : List Char} {bs : List UInt8} :
    Writes (cs.map .char) bs ↔ Spells cs bs := by
  constructor
  · rintro ⟨cs', hcs, hspells⟩
    have hshown := congrArg (List.map CodePoint.shown) hcs
    rw [map_shown_char, map_shown_char] at hshown
    rwa [hshown]
  · exact fun h => ⟨cs, rfl, h⟩

/-- The body denotes no text, and what is said of it. -/
inductive Misspelt : List CodePoint → String → Prop
  /-- What is before the bad escape is spelled out, so it is the first one. -/
  | escape {read : List Char} {rest : List CodePoint} {bs : List UInt8} {message : String}
      (hread : Spells read bs) (hbad : BadEscape (rest.map CodePoint.shown) message) :
      Misspelt (read.map .char ++ .char '\\' :: rest) message
  | encoding {body : List CodePoint} {bs : List UInt8} (hbody : Writes body bs)
      (hbytes : ∀ text : String, bs ≠ text.toList.flatMap String.utf8EncodeChar) :
      Misspelt body "malformed UTF-8 encoding"

/-- The surrogate stands raw in the body, and what is before it is spelled out. -/
def Unencodable (body : List CodePoint) (half : Fin 0x800) : Prop :=
  ∃ read bs rest, body = read.map .char ++ .surrogate half :: rest ∧ Spells read bs

/-- The bytes of some units are those of a text, or of none. -/
theorem fromUTF8?_bytes_eq_some_iff {us : List StringUnit} {text : String} :
    String.fromUTF8? (bytes us) = some text ↔
      us.flatMap StringUnit.bytes = text.toList.flatMap String.utf8EncodeChar := by
  rw [← List.toByteArray_inj, ← List.utf8Encode, String.utf8Encode_toList]
  unfold String.fromUTF8?
  constructor
  · intro h
    split at h
    · cases h
      rfl
    · cases h
  · intro h
    rw [bytes, h, dif_pos text.isValidUTF8]
    rfl

/-- The body of a string denotes a text if and only if it writes the bytes of the text. -/
theorem decodeBody_eq_ok_iff {body : List CodePoint} (h : QuotedBody (body.map CodePoint.shown))
    {text : String} :
    decodeBody body = .ok text ↔ Writes body (text.toList.flatMap String.utf8EncodeChar) := by
  constructor
  · intro hdecode
    unfold decodeBody at hdecode
    rcases units_cases h with ⟨cs, us, rfl, hus, hspells⟩ | ⟨_, _, _, fault, _, hus, -⟩
    · rw [hus] at hdecode
      dsimp only at hdecode
      split at hdecode
      · next htext =>
        cases hdecode
        rw [fromUTF8?_bytes_eq_some_iff.1 htext] at hspells
        exact ⟨cs, rfl, hspells⟩
      · cases hdecode
    · rw [hus] at hdecode
      cases hdecode
  · rintro ⟨cs, rfl, hspells⟩
    exact decodeBody_of_spells hspells

/-- What is wrong with the body of a string: what begins no unit, or that its bytes are no text's. -/
theorem decodeBody_error_cases {body : List CodePoint} (h : QuotedBody (body.map CodePoint.shown))
    {fault : LiteralFault} (hfault : decodeBody body = .error fault) :
    (∃ read bs rest, body = read.map .char ++ rest ∧ Spells read bs ∧ Stops rest fault) ∨
      fault = .encoding ∧ ∃ bs, Writes body bs ∧
        ∀ text : String, bs ≠ text.toList.flatMap String.utf8EncodeChar := by
  unfold decodeBody at hfault
  rcases units_cases h with ⟨cs, us, rfl, hus, hspells⟩ | ⟨read, bs, rest, _, rfl, hus, hread, hstops⟩
  · rw [hus] at hfault
    dsimp only at hfault
    split at hfault
    · cases hfault
    · next hnone =>
      cases hfault
      refine .inr ⟨rfl, _, ⟨cs, rfl, hspells⟩, ?_⟩
      intro text hbytes
      rw [fromUTF8?_bytes_eq_some_iff.2 hbytes] at hnone
      cases hnone
  · rw [hus] at hfault
    cases hfault
    exact .inl ⟨read, bs, rest, rfl, hread, hstops⟩

/-- Decoding ends where a code point begins no unit, if all before it is spelled out. -/
theorem decodeBody_of_units_error {read : List Char} {bs : List UInt8} {rest : List CodePoint}
    {fault : LiteralFault} (hread : Spells read bs) (hrest : units rest = .error fault) :
    decodeBody (read.map .char ++ rest) = .error fault := by
  obtain ⟨us, -, hus⟩ := units_append_of_spells hread
  rw [decodeBody, hus, hrest]
  rfl

/-- A mistake in the body of a string is that it is misspelt. -/
theorem decodeBody_eq_error_iff {body : List CodePoint} (h : QuotedBody (body.map CodePoint.shown))
    {message : String} :
    (∃ fault, decodeBody body = .error fault ∧ fault.kind = .parse ∧ fault.message = message) ↔
      Misspelt body message := by
  constructor
  · rintro ⟨fault, hfault, hkind, rfl⟩
    rcases decodeBody_error_cases h hfault with
      ⟨read, bs, rest, rfl, hread, hstops⟩ | ⟨rfl, bs, hwrites, hbytes⟩
    · cases hstops with
      | escape _ hbad => exact .escape hread hbad
      | surrogate => cases hkind
    · exact .encoding hwrites hbytes
  · intro hmisspelt
    cases hmisspelt with
    | @escape read rest bs _ hread hbad =>
      obtain ⟨fault, hescape, hkind, hmessage⟩ := escape_of_badEscape hbad
      exact ⟨fault, decodeBody_of_units_error hread (units_of_escape_error hescape), hkind, hmessage⟩
    | @encoding _ bs hwrites hbytes =>
      obtain ⟨cs, rfl, hspells⟩ := hwrites
      obtain ⟨us, hus, rfl⟩ := units_of_spells hspells
      refine ⟨.encoding, ?_, rfl, rfl⟩
      rw [decodeBody, hus]
      dsimp only
      cases htext : String.fromUTF8? (bytes us) with
      | none => rfl
      | some text => exact absurd (fromUTF8?_bytes_eq_some_iff.1 htext) (hbytes text)

/-- Decoding is given up at a raw surrogate if and only if all before it is spelled out. -/
theorem decodeBody_eq_surrogate_iff {body : List CodePoint}
    (h : QuotedBody (body.map CodePoint.shown)) {half : Fin 0x800} :
    decodeBody body = .error (.surrogate half) ↔ Unencodable body half := by
  constructor
  · intro hfault
    rcases decodeBody_error_cases h hfault with ⟨read, bs, rest, rfl, hread, hstops⟩ | ⟨hencoding, -⟩
    · cases hstops with
      | escape hkind => cases hkind
      | surrogate _ cs => exact ⟨read, bs, cs, rfl, hread⟩
    · cases hencoding
  · rintro ⟨read, bs, rest, rfl, hread⟩
    exact decodeBody_of_units_error hread (units_surrogate half rest)

/-- The body of a string is a text's, or it is misspelt, or a surrogate stands in it. -/
theorem kind_of_decodeBody_error {body : List CodePoint}
    (h : QuotedBody (body.map CodePoint.shown)) {fault : LiteralFault}
    (hfault : decodeBody body = .error fault) :
    fault.kind = .parse ∨ ∃ half, fault = .surrogate half := by
  rcases decodeBody_error_cases h hfault with ⟨_, _, _, _, _, hstops⟩ | ⟨rfl, -⟩
  · cases hstops with
    | escape hkind => exact .inl hkind
    | surrogate half => exact .inr ⟨half, rfl⟩
  · exact .inl rfl

/-- Decoding the body of a string is given up if and only if a surrogate stands in it that no mistake
precedes. -/
theorem kind_eq_unencodable_iff {body : List CodePoint} (h : QuotedBody (body.map CodePoint.shown))
    {fault : LiteralFault} (hfault : decodeBody body = .error fault) :
    fault.kind = .unencodable ↔ ∃ half, Unencodable body half := by
  constructor
  · intro hkind
    rcases kind_of_decodeBody_error h hfault with hparse | ⟨half, rfl⟩
    · rw [hparse] at hkind
      cases hkind
    · exact ⟨half, (decodeBody_eq_surrogate_iff h).1 hfault⟩
  · rintro ⟨half, hhalf⟩
    rw [(decodeBody_eq_surrogate_iff h).2 hhalf] at hfault
    cases hfault
    rfl

/-- What is shown as a character that no surrogate is shown as is this character. -/
theorem eq_char_of_shown {p : CodePoint} {c : Char} (h : p.shown = c) (hc : c ≠ '\ufffd') :
    p = .char c := by
  cases p with
  | char => exact congrArg CodePoint.char h
  | surrogate => exact absurd h.symm hc

/-- What is shown as a literal is a body between two quotes. -/
theorem exists_body {literal : List CodePoint}
    (h : Shape.Matches (.leaf .string) (literal.map CodePoint.shown)) :
    ∃ body, literal = .char '\"' :: (body ++ [.char '\"']) ∧
      QuotedBody (body.map CodePoint.shown) := by
  generalize hshown : literal.map CodePoint.shown = cs at h
  cases h with
  | @string inner hinner =>
    obtain ⟨opening, behind, rfl, hopening, hbehind⟩ := List.map_eq_cons_iff.1 hshown
    obtain ⟨body, closing, rfl, rfl, hclosing⟩ := List.map_eq_append_iff.1 hbehind
    obtain ⟨quote, rfl, hquote⟩ := List.map_eq_singleton_iff.1 hclosing
    rw [eq_char_of_shown hopening (by decide), eq_char_of_shown hquote (by decide)]
    exact ⟨body, rfl, hinner⟩

end WitxFrontEnd.Literal

namespace WitxFrontEnd.Token

/-- A literal denotes a text if and only if its body writes the bytes of the text, in whatever
mixture of units. If it denotes none, its first bad escape says what is wrong with it or, if it has
no bad escape, that its bytes are not UTF-8, and the mistake is at the opening quote. That is so
unless a surrogate stands raw in the body and no bad escape before it: such a code point has no
encoding, and what then comes out is no mistake in the source. -/
theorem ofLeafAs_string {written : Leaf → List CodePoint} {leaf : Leaf}
    (hkind : leaf.kind = .string)
    (htext : Shape.Matches (.leaf .string) ((written leaf).map CodePoint.shown))
    (filename : Option String) :
    ∃ body, written leaf = .char '\"' :: (body ++ [.char '\"']) ∧
      (∀ text, ofLeafAs written filename leaf = .ok ⟨.string, text, leaf.pos.span filename⟩ ↔
        Literal.Writes body (text.toList.flatMap String.utf8EncodeChar)) ∧
      ((∀ text : String, ¬Literal.Writes body (text.toList.flatMap String.utf8EncodeChar)) →
        ∃ e, ofLeafAs written filename leaf = .error e ∧
          (∀ message, e.kind = .parse ∧ e.message = message ↔ Literal.Misspelt body message) ∧
          (e.kind = .parse → e.span = some (leaf.pos.span filename)) ∧
          (e.kind = .parse ↔ ¬∃ half, Literal.Unencodable body half) ∧
          (e.kind = .unencodable ↔ ∃ half, Literal.Unencodable body half)) := by
  obtain ⟨body, hliteral, hbody⟩ := Literal.exists_body htext
  unfold ofLeafAs
  rw [hkind, hliteral]
  dsimp only
  rw [Literal.decode_quoted]
  refine ⟨body, rfl, ?_, ?_⟩
  · intro text
    rw [← Literal.decodeBody_eq_ok_iff hbody]
    cases Literal.decodeBody body <;> simp
  · intro hnone
    cases hread : Literal.decodeBody body with
    | ok text => exact absurd ((Literal.decodeBody_eq_ok_iff hbody).1 hread) (hnone text)
    | error fault =>
      have hunencodable := Literal.kind_eq_unencodable_iff hbody hread
      refine ⟨⟨.literal fault, leaf.pos.span filename⟩, rfl, ?_, fun _ => rfl, ?_, hunencodable⟩
      · intro message
        rw [← Literal.decodeBody_eq_error_iff hbody, hread]
        constructor
        · rintro ⟨hparse, hmessage⟩
          exact ⟨fault, rfl, hparse, hmessage⟩
        · rintro ⟨_, hfault, hparse, hmessage⟩
          cases hfault
          exact ⟨hparse, hmessage⟩
      · rw [← hunencodable]
        show fault.kind = .parse ↔ ¬fault.kind = .unencodable
        rcases Literal.kind_of_decodeBody_error hbody hread with hparse | ⟨half, rfl⟩
        · rw [hparse]
          decide
        · exact ⟨ErrorKind.noConfusion, fun hne => absurd rfl hne⟩

/-- One character three times, raw, as two bytes and as a code point; and a raw surrogate. -/
theorem ofLeafAs_string_three_spellings_and_surrogate :
    let spelled := .char '\"' :: (codePoints "é\\c3\\A9\\u\x7b0e9\x7d" ++ [.char '\"'])
    let broken := .char '\"' :: ([.surrogate 0] ++ [.char '\"'])
    Shape.Matches (.leaf .string) (spelled.map CodePoint.shown) ∧
      ofLeafAs (fun _ => spelled) none ⟨.string, shownText spelled, ⟨5, 1, 6⟩⟩ =
        .ok ⟨.string, "ééé", ⟨5, 1, 6, none⟩⟩ ∧
      Shape.Matches (.leaf .string) (broken.map CodePoint.shown) ∧
      ∃ e, ofLeafAs (fun _ => broken) none ⟨.string, shownText broken, ⟨5, 1, 6⟩⟩ = .error e ∧
        e.kind = .unencodable := by
  intro spelled broken
  have hdigit (c : Char) (n : Nat) (h : n < 16 ∧ (c = n.digitChar ∨ c = n.digitChar.toUpper)) :
      Literal.HexDigit c n := h
  have hnumber : Literal.HexNumber ['0', 'e', '9'] 'é'.toNat :=
    .snoc (.snoc (.digit (hdigit '0' 0 (by decide))) (hdigit 'e' 14 (by decide)))
      (hdigit '9' 9 (by decide))
  have hspells : Literal.Spells "é\\c3\\A9\\u\x7b0e9\x7d".toList
      ("ééé".toList.flatMap String.utf8EncodeChar) :=
    .raw (by decide) (by decide) <|
      .byte (hdigit 'c' 12 (by decide)) (hdigit '3' 3 (by decide)) <|
      .byte (hdigit 'A' 10 (by decide)) (hdigit '9' 9 (by decide)) <| .codePoint hnumber .nil
  have hbody := Lexeme.closeQuote_eq_some_iff_quotedBody.1 (Literal.closeQuote_of_spells hspells)
  have hspelled : Shape.Matches (.leaf .string) (spelled.map CodePoint.shown) := by
    rw [List.map_cons, List.map_append, codePoints, map_shown_char]
    exact .string hbody
  have hbroken : Shape.Matches (.leaf .string) (broken.map CodePoint.shown) :=
    .string (.plain (by decide) (by decide) .nil)
  refine ⟨hspelled, ?_, hbroken, ?_⟩
  · obtain ⟨body, hliteral, hok, -⟩ :=
      @ofLeafAs_string (fun _ => spelled) ⟨.string, shownText spelled, ⟨5, 1, 6⟩⟩ rfl hspelled none
    refine (hok "ééé").2 ?_
    rw [List.append_cancel_right (List.cons.inj hliteral).2.symm]
    exact Literal.writes_map_char.2 hspells
  · obtain ⟨body, hliteral, -, herror⟩ :=
      @ofLeafAs_string (fun _ => broken) ⟨.string, shownText broken, ⟨5, 1, 6⟩⟩ rfl hbroken none
    obtain rfl : body = [.surrogate 0] :=
      List.append_cancel_right (List.cons.inj hliteral).2.symm
    have hunencodable : Literal.Unencodable [.surrogate 0] 0 := ⟨[], [], [], rfl, .nil⟩
    have hnone (text : String) : ¬Literal.Writes [.surrogate 0]
        (text.toList.flatMap String.utf8EncodeChar) := by
      rintro ⟨cs, hcs, -⟩
      cases cs <;> cases hcs
    obtain ⟨e, he, -, -, -, hkind⟩ := herror hnone
    exact ⟨e, he, hkind.2 ⟨0, hunencodable⟩⟩

end WitxFrontEnd.Token
