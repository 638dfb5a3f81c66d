import HelpAudit.Entries
import HelpAudit.Path
import HelpAudit.Text.Utf8

/-! Files and folders without links, and a system of them with a working directory. -/

namespace HelpAudit

/-- A file with its bytes, or a folder with its entries. -/
inductive FileTree where
  | file (content : List UInt8)
  | folder (entries : List (String × FileTree))

namespace FileTree

/-- What is found when the names are followed one after the other. -/
def get? : FileTree → List String → Option FileTree
  | tree, [] => some tree
  | .folder entries, name :: names => (entries.lookup name).bind (·.get? names)
  | .file _, _ :: _ => none

/-- The tree with another one at the end of the names, and folders on the way. -/
def withTree (tree : FileTree) : List String → FileTree → FileTree
  | [], _ => tree
  | name :: names, .folder entries =>
    .folder (Entries.set name (withTree tree names ((entries.lookup name).getD (.folder []))) entries)
  | name :: names, .file _ => .folder [(name, withTree tree names (.folder []))]

/-- The tree with a file at the end of the names. -/
def withFile (content : List UInt8) (names : List String) (root : FileTree) : FileTree :=
  withTree (.file content) names root

/-- The tree with a folder at the end of the names, whose entries are kept. -/
def withFolder : List String → FileTree → FileTree
  | [], .folder entries => .folder entries
  | [], .file _ => .folder []
  | name :: names, .folder entries =>
    .folder (Entries.set name (withFolder names ((entries.lookup name).getD (.folder []))) entries)
  | name :: names, .file _ => .folder [(name, withFolder names (.folder []))]

end FileTree

/-- Why a file cannot be read or written. -/
inductive FileError where
  | notFound
  | notFolder
  | isFolder
  /-- The bytes are no UTF-8 text. -/
  | notText
  deriving DecidableEq

/-- The wording of a file error. -/
def FileError.message : FileError → String
  | .notFound => "No such file or directory (os error 2)"
  | .notFolder => "Not a directory (os error 20)"
  | .isFolder => "Is a directory (os error 21)"
  | .notText => "stream did not contain valid UTF-8"

/-- All files, and the folder from which relative paths start. -/
structure FileSystem where
  root : FileTree
  workingFolder : List String := []

namespace FileSystem

/-- Follows one piece of a path from the folder at the names. -/
def step (system : FileSystem) (names : List String) (piece : List Char) :
    Except FileError (List String) :=
  match system.root.get? names with
  | none => .error .notFound
  | some (.file _) => .error .notFolder
  | some (.folder entries) =>
    if piece = [] ∨ piece = ['.'] then .ok names
    else if piece = ['.', '.'] then .ok names.dropLast
    else if (entries.lookup (.ofList piece)).isSome then .ok (names ++ [.ofList piece])
    else .error .notFound

/-- Where a path starts. -/
def start (system : FileSystem) (path : String) : List String :=
  if path.toList.head? = some '/' then [] else system.workingFolder

/-- The names that the parts of a path spell, whether there is anything or not. -/
def names (system : FileSystem) (path : String) : List String :=
  (Path.parts path).foldl (fun names part =>
    match part with
    | .root => []
    | .here => names
    | .up => names.dropLast
    | .name text => names ++ [.ofList text]) system.workingFolder

/-- The names from the root to where a path leads. The empty path leads nowhere. -/
def resolve (system : FileSystem) (path : String) : Except FileError (List String) :=
  if path.isEmpty then .error .notFound
  else (Path.pieces path).foldlM system.step (system.start path)

/-- The file or folder at a path. -/
def find (system : FileSystem) (path : String) : Except FileError FileTree := do
  match system.root.get? (← system.resolve path) with
  | some tree => .ok tree
  | none => .error .notFound

/-- Whether there is a file or folder at a path. -/
def exists? (system : FileSystem) (path : String) : Bool := (system.find path).toBool

/-- The bytes of a file. -/
def read (system : FileSystem) (path : String) : Except FileError (List UInt8) := do
  match ← system.find path with
  | .file content => .ok content
  | .folder _ => .error .isFolder

/-- The text of a UTF-8 file. -/
def readText (system : FileSystem) (path : String) : Except FileError String := do
  match Text.decodeUtf8? (← system.read path) with
  | some text => .ok (.ofList text)
  | none => .error .notText

/-- The names at which a new file with the path would stand: its folder must be there. -/
def newPlace (system : FileSystem) (path : String) : Except FileError (List String) := do
  let pieces := Path.pieces path
  let folder ← pieces.dropLast.foldlM system.step (system.start path)
  match system.root.get? folder, pieces.getLast? with
  | some (.folder _), some (c :: cs) => .ok (folder ++ [.ofList (c :: cs)])
  | some (.folder _), _ => .error .isFolder
  | some (.file _), _ => .error .notFolder
  | none, _ => .error .notFound

/-- The system after a file was written. -/
def write (system : FileSystem) (path : String) (content : List UInt8) :
    Except FileError FileSystem := do
  if path.isEmpty then .error .notFound
  match system.find path with
  | .ok (.folder _) => .error .isFolder
  | .ok (.file _) =>
    let names ← system.resolve path
    .ok { system with root := system.root.withFile content names }
  | .error .notFound =>
    let names ← system.newPlace path
    .ok { system with root := system.root.withFile content names }
  | .error error => .error error

end FileSystem

end HelpAudit
