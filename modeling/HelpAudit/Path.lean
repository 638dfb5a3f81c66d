import HelpAudit.Text.Blank
import HelpAudit.Text.UpperCase

/-! Paths. A path is a string; what it means are its parts, so that two spellings of a path are equal
    when their parts are. Repeated slashes, slashes at the end and `.` do not count, except for a `.`
    at the beginning. -/

namespace HelpAudit.Path

/-- A part of a path. -/
inductive Part where
  | root
  /-- The `.` at the beginning of a relative path. -/
  | here
  | up
  | name (text : List Char)
  deriving DecidableEq

/-- The pieces of a path between its slashes. -/
def pieces (path : String) : List (List Char) := Text.splitAt '/' path.toList

/-- The part that a piece stands for, if it counts. -/
def Part.ofPiece? (piece : List Char) : Option Part :=
  if piece = [] ∨ piece = ['.'] then none
  else if piece = ['.', '.'] then some .up
  else some (.name piece)

/-- How a path begins: at the root, with a `.`, or with its first part. -/
def beginning (path : String) : List Part :=
  if path.toList.head? = some '/' then [.root]
  else if (pieces path).head? = some ['.'] then [.here]
  else []

/-- The parts of a path. -/
def parts (path : String) : List Part := beginning path ++ (pieces path).filterMap Part.ofPiece?

/-! ### Order -/

/-- The place of a kind of part in the order of paths. -/
def Part.rank : Part → Nat
  | .root => 0
  | .here => 1
  | .up => 2
  | .name _ => 3

/-- The name of a part, which decides between parts of equal rank. -/
def Part.text : Part → List Char
  | .name text => text
  | _ => []

instance : LT Part := ⟨fun a b => a.rank < b.rank ∨ a.rank = b.rank ∧ a.text < b.text⟩

instance : DecidableLT Part := fun a b =>
  inferInstanceAs (Decidable (a.rank < b.rank ∨ a.rank = b.rank ∧ a.text < b.text))

/-- Whether a path comes before another, or is equal to it: paths are compared part by part. -/
def le (a b : String) : Bool := !decide (parts b < parts a)

/-! ### Names -/

/-- The name of the file that a path leads to. -/
def fileName? (path : String) : Option (List Char) :=
  match (parts path).getLast? with
  | some (.name text) => some text
  | _ => none

/-- What follows the last dot of a name, unless the name has no other dot and starts with it. -/
def extensionOf (name : List Char) : Option (List Char) :=
  match name.reverse.dropWhile (· ≠ '.') with
  | '.' :: _ :: _ => some (name.reverse.takeWhile (· ≠ '.')).reverse
  | _ => none

/-- The extension of the file's name. -/
def extension? (path : String) : Option String :=
  ((fileName? path).bind extensionOf).map .ofList

/-- Whether the extension is one of the given ones, whatever the case of its ASCII letters. -/
def hasExtension (path : String) (extensions : List String) : Bool :=
  match extension? path with
  | some found => extensions.any (Text.sameIgnoringAsciiCase · found)
  | none => false

/-- Whether a path is that of a script. -/
def isScript (path : String) : Bool := hasExtension path ["ps1", "psm1", "psd1"]

/-- The path of an entry of a folder. -/
def join (folder name : String) : String :=
  if folder.toList.getLast? = some '/' then folder ++ name else folder ++ "/" ++ name

end HelpAudit.Path
