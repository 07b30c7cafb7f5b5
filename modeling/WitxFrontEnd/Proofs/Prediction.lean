import WitxFrontEnd.Grammar.Document
import WitxFrontEnd.Proofs.SExpr

/-!
# What may come next

The language of documents as a machine that reads one symbol at a time and keeps a stack of goals,
that is of what is still to come, the next goal first. A goal has its alternatives: each is led in
by one terminal, and the rest of it are goals again. A goal that stands for the inside of a form
includes the paren that closes the form, so the machine never has to guess that a goal is empty.
`run` is what is left to come behind some symbols; where it is none, no document goes on like that.

`judge` runs the machine over symbols with their spans and says where it gets stuck, with the one
exception that the rules of the grammar make: where a scalar's keyword stands for a datatype and the
keyword `array` follows it, they blame the scalar.
-/

namespace WitxFrontEnd

/-- A symbol, or none for the end of the source. -/
abbrev Mark := Option Symbol

/-- Whether a symbol is what a pattern asks for. -/
def Pattern.matches : Pattern → Mark → Bool
  | .leftParen, some .leftParen => true
  | .identifier, some (.token kind _) => kind == .identifier
  | .string, some (.token kind _) => kind == .string
  | .keyword word, some (.token kind text) => kind == .keyword && text == word
  | .reserved word, some (.token kind text) => kind == .reserved && text == word
  | _, _ => false

/-- What leads in an alternative. -/
inductive Terminal where
  | item (pattern : Pattern)
  | close
  | finish
deriving DecidableEq, Repr

/-- Whether a symbol, or the end, is a terminal. -/
def Terminal.matches : Terminal → Mark → Bool
  | .item pattern, m => pattern.matches m
  | .close, m => m == some .rightParen
  | .finish, m => m == none

/-- What may be still to come. -/
inductive Goal where
  /-- Forms up to the end of the source. -/
  | topLevels
  /-- The inside of such a form and its closing paren. -/
  | topLevel
  | decls
  | decl
  | slots
  | slot
  /-- A type definition and the closing paren of the form around it. -/
  | typedef
  | typedefForm
  | someFields
  | fields
  | field
  | someMembers
  | members
  /-- A datatype and the closing paren of the form around it. -/
  | datatype
  | datatypeForm
  | pointer
  | scalar
  | name
  /-- The form of an import's type. -/
  | importType
  | memory
  /-- The form of a function's export. -/
  | exported
  | exportWord
  | func
  | identifier
  | string
  | close
deriving DecidableEq, Repr

namespace Goal

/-- The alternatives that scalars are, each followed by the goals. -/
def scalars (rest : List Goal) : List (Terminal × List Goal) :=
  Scalar.all.map fun type => (.item (.keyword type.keyword), rest)

/-- The alternatives of a goal. -/
def alternatives : Goal → List (Terminal × List Goal)
  | topLevels => [(.item .leftParen, [topLevel, topLevels]), (.finish, [])]
  | topLevel =>
    [(.item (.keyword "use"), [string, close]),
      (.item (.keyword "module"), [identifier, decls]),
      (.item (.keyword "typename"), [identifier, typedef])]
  | decls => [(.item .leftParen, [decl, decls]), (.close, [])]
  | decl =>
    [(.item (.keyword "import"), [string, importType, close]),
      (.item (.reserved "@interface"), [func, exported, slots])]
  | slots => [(.item .leftParen, [slot, slots]), (.close, [])]
  | slot =>
    [(.item (.keyword "param"), [name, datatype]), (.item (.keyword "result"), [name, datatype])]
  | typedef =>
    (.item .identifier, [close]) :: (.item .leftParen, [typedefForm, close]) :: scalars [close]
  | typedefForm =>
    [(.item (.keyword "array"), [datatype]),
      (.item (.reserved "@witx"), [pointer]),
      (.item (.keyword "enum"), [scalar, someMembers]),
      (.item (.keyword "flags"), [scalar, members]),
      (.item (.keyword "struct"), [someFields]),
      (.item (.keyword "union"), [someFields]),
      (.item (.keyword "handle"), [members])]
  | someFields => [(.item .leftParen, [field, fields])]
  | fields => [(.item .leftParen, [field, fields]), (.close, [])]
  | field => [(.item (.keyword "field"), [name, datatype])]
  | someMembers => [(.item .identifier, [members])]
  | members => [(.item .identifier, [members]), (.close, [])]
  | datatype =>
    (.item .identifier, [close]) :: (.item .leftParen, [datatypeForm, close]) :: scalars [close]
  | datatypeForm =>
    [(.item (.keyword "array"), [datatype]), (.item (.reserved "@witx"), [pointer])]
  | pointer =>
    [(.item (.keyword "const-pointer"), [datatype]), (.item (.keyword "pointer"), [datatype])]
  | scalar => scalars []
  | name => [(.item .string, []), (.item .identifier, [])]
  | importType => [(.item .leftParen, [memory, close])]
  | memory => [(.item (.keyword "memory"), [])]
  | exported => [(.item .leftParen, [exportWord, string, close])]
  | exportWord => [(.item (.keyword "export"), [])]
  | func => [(.item (.keyword "func"), [])]
  | identifier => [(.item .identifier, [])]
  | string => [(.item .string, [])]
  | close => [(.close, [])]

/-- What is to come instead of the goal behind a mark, if the mark leads in one of its
alternatives. -/
def step (g : Goal) (m : Mark) : Option (List Goal) :=
  (g.alternatives.find? fun alternative => alternative.1.matches m).map Prod.snd

/-- One mark further. -/
def feed : List Goal → Mark → Option (List Goal)
  | [], _ => none
  | g :: gs, m => (g.step m).map (· ++ gs)

/-- What is to come behind a run of marks. -/
def run (gs : List Goal) (w : List Mark) : Option (List Goal) :=
  w.foldlM feed gs

@[simp] theorem run_nil (gs : List Goal) : run gs [] = some gs := rfl

theorem run_cons (gs : List Goal) (m : Mark) (w : List Mark) :
    run gs (m :: w) = (feed gs m).bind fun gs' => run gs' w := rfl

theorem run_append (gs : List Goal) (w v : List Mark) :
    run gs (w ++ v) = (run gs w).bind fun gs' => run gs' v :=
  List.foldlM_append

/-- The last mark of a run. -/
theorem run_concat (gs : List Goal) (w : List Mark) (m : Mark) :
    run gs (w ++ [m]) = (run gs w).bind fun gs' => feed gs' m := by
  rw [run_append]
  refine congrArg _ (funext fun gs' => ?_)
  rw [run_cons]
  cases feed gs' m <;> rfl

/-- The mark of a scalar's keyword. -/
def isScalar (m : Mark) : Bool :=
  Scalar.all.any fun type => (Pattern.keyword type.keyword).matches m

/-- A datatype that begins with the mark is blamed for the keyword `array` behind it. -/
def blames (g : Goal) (m : Mark) (rest : List (Mark × Span)) : Bool :=
  (g == datatype || g == typedef) && isScalar m &&
    rest.head?.any fun next => (Pattern.keyword "array").matches next.1

/-- Whether the marks, which end with the end of the source, are what is to come, and the place to
blame if not. -/
def judge : List Goal → List (Mark × Span) → Except (Option Span) Unit
  | [], [] => .ok ()
  | [], (_, s) :: _ => .error (some s)
  | _ :: _, [] => .error none
  | g :: gs, (m, s) :: rest =>
    match g.step m with
    | none => .error (some s)
    | some next => if g.blames m rest then .error (some s) else judge (next ++ gs) rest

end Goal

end WitxFrontEnd
