import WitxFrontEnd.Document
import WitxFrontEnd.Grammar.Module

/-!
# The grammar of documents

The three ways to read a source: as a document, as one datatype, and as one type definition.
-/

namespace WitxFrontEnd.Grammar

/-- The inside of a use's form: the path. Reference: `_top_level_form`. -/
def use : Rule String := do
  Rule.keyword "use"
  let path ← Rule.step .string
  return path.text

/-- The inside of a form that declares a module or a type name. Reference: `_decl`. -/
def decl : Rule TopLevel :=
  Rule.choose [
    (.keyword "module", .module <$> module),
    (.keyword "typename", .typename <$> typename)]

/-- The inside of a form of a document. Reference: `_top_level_form`. -/
def topLevel : Rule TopLevel := do
  if ← Rule.peek (.keyword "use") then .use <$> use else decl

/-- A document: forms up to the end of the source. Reference: `_document`. -/
def document : Rule Document := do
  let items ← Rule.documented (.form topLevel)
  return ⟨items⟩

end WitxFrontEnd.Grammar

namespace WitxFrontEnd

/-- The document that a source holds. Reference: `parse`. -/
def Document.parse (source : String) (filename : Option String) : Except ParseError Document := do
  let c ← Cursor.ofSource source filename
  Cursor.toEnd .expectedEnd (Grammar.document c)

/-- The document that a source holds which is handed over as code points. -/
def Document.parseCodePoints (source : List CodePoint) (filename : Option String) :
    Except ParseError Document := do
  let c ← Cursor.ofCodePoints source filename
  Cursor.toEnd .expectedEnd (Grammar.document c)

/-- The datatype that a source consists of. Reference: `parse_datatype`. -/
def Datatype.parse (source : String) (filename : Option String) : Except ParseError Datatype := do
  let c ← Cursor.ofSource source filename
  Cursor.toEnd .expectedEnd (Grammar.datatype c)

/-- The type definition that a source consists of. Reference: `parse_typedef`. -/
def Typedef.parse (source : String) (filename : Option String) : Except ParseError Typedef := do
  let c ← Cursor.ofSource source filename
  Cursor.toEnd .expectedEnd (Grammar.typedef c)

end WitxFrontEnd
