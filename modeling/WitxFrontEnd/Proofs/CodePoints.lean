import WitxFrontEnd.Grammar.Document
import WitxFrontEnd.Proofs.Decoding
import WitxFrontEnd.Proofs.Lossless

/-!
# Sources that are handed over as code points

A source is scanned as it is shown, and its literals are decoded as they are written
(`Item.readCodePoints`). Both are about the same places: what the scanner cuts off is shown as the
code points that stand there (`Scan.map_shown_of_mem`). So for a source of characters the two ways of
reading agree (`Document.parseCodePoints_codePoints`), and whatever is wrong with it is a mistake in
the source and no failure of the reader (`Item.kind_of_readAll_error`).
-/

namespace WitxFrontEnd

/-- A text of characters is shown as itself. -/
theorem shownText_codePoints (text : String) : shownText (codePoints text) = text := by
  rw [shownText, codePoints, map_shown_char, String.ofList_toList]

/-- What the scanner cuts off is shown as the code points that stand there. -/
theorem Scan.map_shown_of_mem {source : List CodePoint} {l : Lexeme}
    (hl : l ∈ (Scan.ofSource (shownText source)).lexemes) :
    ((source.drop l.pos.offset).take l.text.length).map CodePoint.shown = l.text.toList := by
  obtain ⟨q, rest, hreaches, -⟩ := Scan.reaches .start (shownText source).toList
  rw [hreaches.slice l hl, shownText, String.toList_ofList, List.map_take, List.map_drop]
  rfl

/-- In a text of characters the scanner cuts off what stands there. -/
theorem Scan.writtenIn_codePoints {source : String} {l : Lexeme} {kind : LeafKind}
    (hl : l ∈ (Scan.ofSource source).lexemes) :
    Leaf.writtenIn (codePoints source) ⟨kind, l.text, l.pos⟩ = codePoints l.text := by
  obtain ⟨q, rest, hreaches, -⟩ := Scan.reaches .start source.toList
  rw [codePoints, codePoints, hreaches.slice l hl, List.map_take, List.map_drop]
  rfl

namespace Item

variable {written written' : Leaf → List CodePoint}

mutual

/-- What a tree is turned into depends on how its own leaves are written. -/
theorem ofTreeAs_congr (filename : Option String) (depth : Nat) : (tree : Tree) →
    (∀ leaf : Leaf, ⟨.leaf leaf.kind, leaf.text, leaf.pos⟩ ∈ tree.lexemes →
      written leaf = written' leaf) →
    ofTreeAs written filename depth tree = ofTreeAs written' filename depth tree
  | .leaf l, h => by
    rw [ofTreeAs, ofTreeAs, Token.ofLeafAs, Token.ofLeafAs, h l (by simp [Tree.lexemes])]
  | .form opening children closing, h => by
    have hchildren := ofForestAs_congr filename (depth + 1) children fun leaf hleaf =>
      h leaf (by simp [Tree.lexemes, hleaf])
    rw [ofTreeAs, ofTreeAs, hchildren]

/-- What trees are turned into depends on how their own leaves are written. -/
theorem ofForestAs_congr (filename : Option String) (depth : Nat) : (forest : Forest) →
    (∀ leaf : Leaf, ⟨.leaf leaf.kind, leaf.text, leaf.pos⟩ ∈ Tree.forestLexemes forest →
      written leaf = written' leaf) →
    ofForestAs written filename depth forest = ofForestAs written' filename depth forest
  | [], _ => by rw [ofForestAs, ofForestAs]
  | tree :: rest, h => by
    have htree := ofTreeAs_congr filename depth tree fun leaf hleaf =>
      h leaf (List.mem_append_left _ hleaf)
    have hrest := ofForestAs_congr filename depth rest fun leaf hleaf =>
      h leaf (List.mem_append_right _ hleaf)
    rw [ofForestAs, ofForestAs, htree, hrest]

end

/-- A source of characters is read as the same items either way. -/
theorem readCodePoints_codePoints (source : String) (filename : Option String) :
    readCodePoints (codePoints source) filename = readAll source filename := by
  rw [readCodePoints, readAll, shownText_codePoints]
  cases hread : Forest.read source filename with
  | error e => rfl
  | ok forest =>
    refine ofForestAs_congr filename 0 forest fun leaf hleaf => ?_
    rw [Forest.lexemes_of_read hread] at hleaf
    exact Scan.writtenIn_codePoints hleaf

end Item

/-- A source of characters is read as the same document either way. -/
theorem Document.parseCodePoints_codePoints (source : String) (filename : Option String) :
    Document.parseCodePoints (codePoints source) filename = Document.parse source filename := by
  rw [Document.parseCodePoints, Document.parse, Cursor.ofCodePoints, Cursor.ofSource,
    Item.readCodePoints_codePoints, shownText_codePoints]

/-! ## What can go wrong in a text of characters -/

/-- A literal of characters has no surrogate in it, so whatever is wrong with it is a mistake. -/
theorem Literal.kind_of_decode_codePoints_error {literal : String} {fault : LiteralFault}
    (h : Shape.Matches (.leaf .string) literal.toList)
    (hfault : decode (codePoints literal) = .error fault) : fault.kind = .parse := by
  rw [← map_shown_char literal.toList] at h
  obtain ⟨body, hliteral, hbody⟩ := exists_body h
  have hbodyFault : decodeBody body = .error fault := by rw [← decode_quoted, ← hliteral]; exact hfault
  rcases kind_of_decodeBody_error hbody hbodyFault with hparse | ⟨half, rfl⟩
  · exact hparse
  · -- the surrogate would have to be one of the characters
    obtain ⟨read, bs, rest, rfl, -⟩ := (decodeBody_eq_surrogate_iff hbody).1 hbodyFault
    have hmem : CodePoint.surrogate half ∈ literal.toList.map CodePoint.char := by
      rw [hliteral]
      simp
    obtain ⟨c, -, hc⟩ := List.mem_map.1 hmem
    cases hc

/-- The forest of a source fails to be read because of a mistake in the source. -/
theorem Forest.kind_of_read_error {source : String} {filename : Option String} {e : ParseError}
    (h : read source filename = .error e) : e.kind = .parse := by
  unfold read at h
  dsimp only at h
  split at h
  · cases h; rfl
  · cases h; rfl
  · split at h <;> cases h
    rfl

namespace Item

variable {filename : Option String} {e : ParseError}

mutual

/-- A tree of what the scanner cuts off fails to be turned into an item because of a mistake. -/
theorem kind_of_ofTree_error {depth : Nat} : (tree : Tree) →
    (∀ l ∈ tree.lexemes, l.shape.Matches l.text.toList) →
    ofTree filename depth tree = .error e → e.kind = .parse
  | .leaf ⟨kind, text, pos⟩, hmatches, h => by
    have hmatch := hmatches ⟨.leaf kind, text, pos⟩ (by simp [Tree.lexemes])
    rw [ofTree_leaf, Token.ofLeaf, Token.ofLeafAs] at h
    cases kind with
    | string =>
      dsimp only at h
      cases hdecode : Literal.decode (codePoints text) with
      | ok denoted => rw [hdecode] at h; cases h
      | error fault =>
        rw [hdecode] at h
        cases h
        exact Literal.kind_of_decode_codePoints_error hmatch hdecode
    | atom | lineComment | blockComment => cases h
  | .form opening children closing, hmatches, h => by
    rw [ofTree_form] at h
    split at h
    · cases h; rfl
    · cases hchildren : ofForest filename (depth + 1) children with
      | ok items => rw [hchildren] at h; cases h
      | error e' =>
        rw [hchildren] at h
        cases h
        refine kind_of_ofForest_error children (fun l hl => hmatches l ?_) hchildren
        simp [Tree.lexemes, hl]

/-- So do trees. -/
theorem kind_of_ofForest_error {depth : Nat} : (forest : Forest) →
    (∀ l ∈ Tree.forestLexemes forest, l.shape.Matches l.text.toList) →
    ofForest filename depth forest = .error e → e.kind = .parse
  | [], _, h => by
    rw [ofForest, ofForestAs] at h
    cases h
  | tree :: rest, hmatches, h => by
    obtain ⟨htree, hrest⟩ := List.forall_mem_append.1 hmatches
    rw [ofForest_cons] at h
    cases hitem : ofTree filename depth tree with
    | error e' =>
      rw [hitem] at h
      cases h
      exact kind_of_ofTree_error tree htree hitem
    | ok item =>
      cases hitems : ofForest filename depth rest with
      | ok items => rw [hitem, hitems] at h; cases h
      | error e' =>
        rw [hitem, hitems] at h
        cases h
        exact kind_of_ofForest_error rest hrest hitems

end

/-- The items of a source of characters fail to be read because of a mistake in the source. -/
theorem kind_of_readAll_error {source : String} (h : readAll source filename = .error e) :
    e.kind = .parse := by
  rw [readAll] at h
  cases hread : Forest.read source filename with
  | error e' =>
    rw [hread] at h
    cases h
    exact Forest.kind_of_read_error hread
  | ok forest =>
    rw [hread] at h
    refine kind_of_ofForest_error forest (fun l hl => ?_) h
    rw [Forest.lexemes_of_read hread] at hl
    obtain ⟨rest, hstands⟩ := Scan.stands_of_mem l hl
    exact hstands.isMatch

end Item

end WitxFrontEnd
