import HelpAudit.Position
import HelpAudit.Text.Bytes
import HelpAudit.Text.Utf8

/-! From byte offsets to lines and columns. The index of a text holds the offsets at which its lines
    start; the line of an offset is searched among them by halving. What could leave a range on the way
    answers `none`: reading an entry of the list, and a difference. -/

namespace HelpAudit

/-- A difference, which fails below zero. -/
def minus? (a b : Nat) : Option Nat := if b ≤ a then some (a - b) else none

/-! ### Search by halving -/

/-- Halves the stretch of `size` entries from `base` on until one is left: the upper half is kept when its
    first entry does not exceed the value. Every step drops an entry, so that `size` steps are enough. -/
def narrow (entries : List Nat) (value : Nat) : (steps base size : Nat) → Option Nat
  | 0, base, _ => some base
  | steps + 1, base, size =>
    if 1 < size then do
      let mid := base + size / 2
      let entry ← entries[mid]?
      narrow entries value steps (if value < entry then base else mid) (size - size / 2)
    else some base

/-- The place of a value in an ascending list, or else, as an error, the place at which it would have to
    be put in. -/
def binarySearch (entries : List Nat) (value : Nat) : Option (Except Nat Nat) :=
  if entries.isEmpty then some (.error 0)
  else do
    let base ← narrow entries value entries.length 0 entries.length
    let entry ← entries[base]?
    return if entry = value then .ok base else .error (if entry < value then base + 1 else base)

/-! ### The index -/

/-- The offsets at which the lines of a text start. -/
structure LineIndex where
  lineStarts : List Nat
  deriving DecidableEq

namespace LineIndex

/-- The offsets behind the line feeds among bytes that start at an offset. -/
def startsBehind (offset : Nat) : List UInt8 → List Nat
  | [] => []
  | byte :: bytes =>
    if byte = 10 then (offset + 1) :: startsBehind (offset + 1) bytes
    else startsBehind (offset + 1) bytes

/-- The index of a text. -/
def of (text : List Char) : LineIndex := ⟨0 :: startsBehind 0 (Text.utf8 text)⟩

/-- The number of lines. -/
def lineCount (index : LineIndex) : Nat := index.lineStarts.length

/-- The line in which an offset stands, counted from 0: the last one that starts at or before it. -/
def line? (index : LineIndex) (offset : Nat) : Option Nat := do
  match ← binarySearch index.lineStarts offset with
  | .ok place => some place
  | .error place => minus? place 1

/-- The position of a byte offset. An offset past the end stands for the end; inside a character the
    column counts bytes. -/
def position? (index : LineIndex) (text : List Char) (offset : Nat) : Option Position := do
  let offset := min offset (Text.byteLength text)
  let line ← index.line? offset
  let start ← index.lineStarts[line]?
  -- the bytes are counted also where the characters can be
  let bytes ← minus? offset start
  let column := ((Text.sliceBytes? text start offset).map List.length).getD bytes
  return ⟨line + 1, column + 1, offset⟩

end LineIndex

/-- The position of a byte offset, which the index of the text always finds. -/
def Position.ofOffset (text : List Char) (offset : Nat) : Position :=
  ((LineIndex.of text).position? text offset).getD ⟨1, 1, 0⟩

/-- The extent between two byte offsets. -/
def Extent.ofOffsets (text : List Char) (file : Option String) (start stop : Nat) : Extent :=
  .between (.ofOffset text start) (.ofOffset text stop) (Text.sliceBytes text start stop) file

end HelpAudit
