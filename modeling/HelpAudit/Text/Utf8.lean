/-! UTF-8: the bytes of a text, and the text of bytes. Bytes that are no UTF-8 have no text; the
    lossy reading puts one U+FFFD in the place of each longest part that could have started a
    character. -/

namespace HelpAudit.Text

/-- The character that stands for what could not be read. -/
def replacement : Char := '\ufffd'

/-- A continuation byte with the low six bits of `n`. -/
def continuation (n : Nat) : UInt8 := .ofNat (0x80 + n % 64)

/-- The bytes of one character. -/
def utf8Char (c : Char) : List UInt8 :=
  let n := c.toNat
  if n < 0x80 then [.ofNat n]
  else if n < 0x800 then [.ofNat (0xC0 + n / 64), continuation n]
  else if n < 0x10000 then [.ofNat (0xE0 + n / 4096), continuation (n / 64), continuation n]
  else [.ofNat (0xF0 + n / 262144), continuation (n / 4096), continuation (n / 64), continuation n]

/-- The bytes of a text. -/
def utf8 (cs : List Char) : List UInt8 := cs.flatMap utf8Char

/-- What the first byte of a character asks for: its own bits, the range of the second byte, and
    how many more bytes follow after that. -/
structure LeadByte where
  bits : Nat
  low : Nat
  high : Nat
  more : Nat
  deriving DecidableEq

/-- The first bytes of characters of several bytes. The ranges leave out forms that are longer than
    needed, surrogates, and numbers past the last code point. -/
def leadByte? (b : Nat) : Option LeadByte :=
  if 0xC2 ≤ b ∧ b ≤ 0xDF then some ⟨b - 0xC0, 0x80, 0xBF, 0⟩
  else if b = 0xE0 then some ⟨0, 0xA0, 0xBF, 1⟩
  else if b = 0xED then some ⟨0xD, 0x80, 0x9F, 1⟩
  else if 0xE1 ≤ b ∧ b ≤ 0xEF then some ⟨b - 0xE0, 0x80, 0xBF, 1⟩
  else if b = 0xF0 then some ⟨0, 0x90, 0xBF, 2⟩
  else if 0xF1 ≤ b ∧ b ≤ 0xF3 then some ⟨b - 0xF0, 0x80, 0xBF, 2⟩
  else if b = 0xF4 then some ⟨4, 0x80, 0x8F, 2⟩
  else none

/-- What stands at the start of the bytes: a character or a part that is none, with its length. -/
inductive Utf8Head where
  | char (c : Char) (length : Nat)
  | broken (length : Nat)
  deriving DecidableEq

/-- Reads `more` continuation bytes after `length` bytes that gave the number `n`. -/
def utf8Tail (n length : Nat) : (more : Nat) → List UInt8 → Utf8Head
  | 0, _ => .char (Char.ofNat n) length
  | _ + 1, [] => .broken length
  | more + 1, b :: bs =>
    if 0x80 ≤ b.toNat ∧ b.toNat ≤ 0xBF then utf8Tail (n * 64 + (b.toNat - 0x80)) (length + 1) more bs
    else .broken length

/-- What stands at the start of `b :: bs`. -/
def utf8Head (b : UInt8) (bs : List UInt8) : Utf8Head :=
  if b.toNat < 0x80 then .char (Char.ofNat b.toNat) 1
  else match leadByte? b.toNat, bs with
    | some lead, second :: rest =>
      if lead.low ≤ second.toNat ∧ second.toNat ≤ lead.high then
        utf8Tail (lead.bits * 64 + (second.toNat - 0x80)) 2 lead.more rest
      else .broken 1
    | _, _ => .broken 1

/-- The text of bytes, with what is no UTF-8 replaced. The first `skip` bytes belong to what was read
    before. -/
def decodeLossyFrom (skip : Nat) : List UInt8 → List Char
  | [] => []
  | b :: bs =>
    match skip with
    | skip + 1 => decodeLossyFrom skip bs
    | 0 =>
      match utf8Head b bs with
      | .char c length => c :: decodeLossyFrom (length - 1) bs
      | .broken length => replacement :: decodeLossyFrom (length - 1) bs

/-- The text of bytes, if they are UTF-8. The first `skip` bytes belong to what was read before. -/
def decodeFrom? (skip : Nat) : List UInt8 → Option (List Char)
  | [] => some []
  | b :: bs =>
    match skip with
    | skip + 1 => decodeFrom? skip bs
    | 0 =>
      match utf8Head b bs with
      | .char c length => (decodeFrom? (length - 1) bs).map (c :: ·)
      | .broken _ => none

/-- The text of bytes, with what is no UTF-8 replaced. -/
def decodeLossy (bytes : List UInt8) : List Char := decodeLossyFrom 0 bytes

/-- The text of bytes, if they are UTF-8. -/
def decodeUtf8? (bytes : List UInt8) : Option (List Char) := decodeFrom? 0 bytes

end HelpAudit.Text
