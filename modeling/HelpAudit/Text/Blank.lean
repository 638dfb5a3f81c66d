/-! White space, and what is cut by it: trimming at both ends and lines. The functions work on
    lists of characters; `trim` is their form on strings. -/

namespace HelpAudit.Text

/-- White space: the blank, tab and line-end controls, U+0085 and the separators. -/
def isBlank (c : Char) : Bool :=
  let n := c.toNat
  n == 0x20 || (0x09 ≤ n && n ≤ 0x0D) || n == 0x85 || n == 0xA0 || n == 0x1680 ||
    (0x2000 ≤ n && n ≤ 0x200A) || n == 0x2028 || n == 0x2029 || n == 0x202F || n == 0x205F ||
    n == 0x3000

/-- The characters from the first one that is not blank. -/
def trimStart (cs : List Char) : List Char := cs.dropWhile isBlank

/-- The characters up to the last one that fails `p`. -/
def dropWhileEnd (p : Char → Bool) (cs : List Char) : List Char := (cs.reverse.dropWhile p).reverse

/-- The characters up to the last one that is not blank. -/
def trimEnd (cs : List Char) : List Char := dropWhileEnd isBlank cs

/-- The characters between the first and the last one that is not blank. -/
def trimBoth (cs : List Char) : List Char := trimEnd (trimStart cs)

/-- A string without the blanks at its ends. -/
def trim (s : String) : String := .ofList (trimBoth s.toList)

/-! ### Lines -/

/-- The pieces between the separators, at least one; the empty ones are kept. -/
def splitAt (separator : Char) : List Char → List (List Char)
  | [] => [[]]
  | c :: cs =>
    if c = separator then [] :: splitAt separator cs
    else match splitAt separator cs with
      | piece :: pieces => (c :: piece) :: pieces
      | [] => [[c]]

/-- A line that was ended by a line feed, without the carriage return before it. -/
def dropReturn (line : List Char) : List Char :=
  match line.reverse with
  | '\r' :: rest => rest.reverse
  | _ => line

/-- The lines among the pieces between line feeds: every piece but the last was ended by a line
    feed, and the last counts only when it is not empty. -/
def endedLines : List (List Char) → List (List Char)
  | [] => []
  | [last] => if last.isEmpty then [] else [last]
  | line :: pieces => dropReturn line :: endedLines pieces

/-- The lines of a text, without their ends (`LF` or `CR LF`). -/
def lines (cs : List Char) : List (List Char) := endedLines (splitAt '\n' cs)

/-- Pieces joined with line feeds between them. -/
def joinLines (pieces : List (List Char)) : List Char := ['\n'].intercalate pieces

end HelpAudit.Text
