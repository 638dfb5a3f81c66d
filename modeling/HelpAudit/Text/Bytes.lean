/-! Text addressed by the byte offsets of its UTF-8 form. An offset inside a character cuts
    nothing: the cutting functions answer `none` there. -/

namespace HelpAudit.Text

/-- The number of bytes of a text in UTF-8. -/
def byteLength (cs : List Char) : Nat := cs.foldr (fun c n => c.utf8Size + n) 0

/-- What is left after the first `n` bytes, when they end at a character. -/
def dropBytes? (n : Nat) : List Char → Option (List Char)
  | [] => if n = 0 then some [] else none
  | c :: cs =>
    if n = 0 then some (c :: cs)
    else if c.utf8Size ≤ n then dropBytes? (n - c.utf8Size) cs
    else none

/-- The first `n` bytes, when they end at a character. -/
def takeBytes? (n : Nat) : List Char → Option (List Char)
  | [] => if n = 0 then some [] else none
  | c :: cs =>
    if n = 0 then some []
    else if c.utf8Size ≤ n then (takeBytes? (n - c.utf8Size) cs).map (c :: ·)
    else none

/-- The characters between two byte offsets, when both are ends of characters in this order. -/
def sliceBytes? (cs : List Char) (start stop : Nat) : Option (List Char) :=
  if start ≤ stop then (dropBytes? start cs).bind (takeBytes? (stop - start)) else none

/-- The text between two byte offsets, empty when they cut none. -/
def sliceBytes (cs : List Char) (start stop : Nat) : String :=
  .ofList ((sliceBytes? cs start stop).getD [])

end HelpAudit.Text
