import WitxFrontEnd.Grammar.Document

/-!
# Files

How a path is written, what a directory tree answers for it, and how the bytes of a file become a
source. `normalizePath` is only about the text of a path: it leaves out what names no further
directory, and keeps `..`, because that may lead elsewhere. Reading a document from a file keeps a
log.
-/

namespace WitxFrontEnd

/-! ## Paths -/

/-- The components of a path that lead somewhere: neither empty nor a single dot. -/
def pathComponents (path : String) : List String :=
  ((path.toList.splitOn '/').map String.ofList).filter fun name => name != "" && name != "."

/-- What a path begins with: nothing, one slash, or exactly two slashes, which are kept. -/
def pathRoot (path : String) : String :=
  match path.toList.takeWhile (· == '/') with
  | [] => ""
  | ['/', '/'] => "//"
  | _ => "/"

/-- The shortest way to write a path without looking at any directory. -/
def normalizePath (path : String) : String :=
  let text := pathRoot path ++ String.intercalate "/" (pathComponents path)
  if text.isEmpty then "." else text

/-! ## Looking up a path -/

/-- What is found at a path. -/
inductive FileStatus where
  | file (bytes : ByteArray)
  | directory
  | missing
  /-- The path goes on behind a file. -/
  | notDirectory

/-- A directory with all that is below it: the components of each file's path, and its bytes. -/
structure FileTree where
  files : List (List String × ByteArray)

namespace FileTree

/-- The file tree that holds files under the given paths. -/
def ofList (files : List (String × ByteArray)) : FileTree :=
  ⟨files.map fun (path, bytes) => (pathComponents path, bytes)⟩

/-- Whether the components lead to a directory: to the tree itself or to one that a file lies in. -/
def isDirectory (tree : FileTree) (dir : List String) : Bool :=
  dir.isEmpty || tree.files.any fun (path, _) => dir.isPrefixOf path && dir != path

/-- What is found from a directory of the tree on. Nothing is known above the tree except that its
parents are directories. -/
def walk (tree : FileTree) (dir : List String) : List String → FileStatus
  | [] => .directory
  | ".." :: rest =>
    if dir.isEmpty then (if rest.all (· == "..") then .directory else .missing)
    else walk tree dir.dropLast rest
  | name :: rest =>
    let path := dir ++ [name]
    match tree.files.lookup path with
    | some bytes => if rest.isEmpty then .file bytes else .notDirectory
    | none => if tree.isDirectory path then walk tree path rest else .missing

/-- What is found at a path that starts in the tree's directory. -/
def status (tree : FileTree) (path : String) : FileStatus :=
  if pathRoot path != "" then (if (pathComponents path).isEmpty then .directory else .missing)
  else walk tree [] (pathComponents path)

end FileTree

/-! ## Reading a document -/

/-- The source that a file's bytes hold. They have to be UTF-8, and line ends are unified. -/
def decodeSource (bytes : ByteArray) : Option String :=
  (String.fromUTF8? bytes).map fun text => String.ofList (Text.unifyNewlines text.toList)

/-- A record of the log. -/
inductive LogRecord where
  /-- A file is about to be read. -/
  | parsing (path : String)
  /-- A file has been read, with so many declarations. -/
  | parsed (count : Nat) (path : String)
  /-- A document is about to be shown, with so many declarations. -/
  | read (count : Nat)
deriving DecidableEq, Repr

/-- The log of reading a document from a file, given what came of it. -/
def LogRecord.ofReading {ε : Type} (path : String) (result : Except ε Document) :
    List LogRecord :=
  .parsing path ::
    match result with
    | .ok document => [.parsed document.items.length path]
    | .error _ => []

/-- The wording of a log record. -/
def LogRecord.toString : LogRecord → String
  | .parsing path => "DEBUG witx._parse: Parsing " ++ path
  | .parsed count path =>
    "DEBUG witx._parse: Parsed " ++ ToString.toString count ++ " top-level items from " ++ path
  | .read count => "DEBUG witx: Read " ++ ToString.toString count ++ " top-level items"

/-- Why nothing is read from a path. -/
inductive ReadError where
  | missing
  | directory
  | notDirectory
  | notUtf8
deriving DecidableEq, Repr

/-- Why a file holds no document. -/
inductive FileError where
  | read (e : ReadError)
  | parse (e : ParseError)
deriving Repr

/-- The source in what was found at a path. -/
def FileStatus.source : FileStatus → Except ReadError String
  | .file bytes =>
    match decodeSource bytes with
    | some source => .ok source
    | none => .error .notUtf8
  | .directory => .error .directory
  | .missing => .error .missing
  | .notDirectory => .error .notDirectory

/-- The document in what was found at a path, and the log of reading it. Reference: `parse_file`. -/
def Document.parseFile (path : String) (found : FileStatus) :
    Except FileError Document × List LogRecord :=
  let path := normalizePath path
  let result := do
    let source ← found.source.mapError .read
    (Document.parse source (some path)).mapError .parse
  (result, LogRecord.ofReading path result)

end WitxFrontEnd
