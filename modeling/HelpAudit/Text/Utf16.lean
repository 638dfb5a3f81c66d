import HelpAudit.Text.Utf8

/-! UTF-16 in both byte orders. -/

namespace HelpAudit.Text

/-- The order of the two bytes of a unit. -/
inductive ByteOrder where
  | littleEndian
  | bigEndian
  deriving DecidableEq

/-- The units of one character. -/
def utf16Char (c : Char) : List Nat :=
  let n := c.toNat
  if n < 0x10000 then [n]
  else [0xD800 + (n - 0x10000) / 0x400, 0xDC00 + (n - 0x10000) % 0x400]

/-- The units of a text. -/
def utf16Units (cs : List Char) : List Nat := cs.flatMap utf16Char

/-- The two bytes of a unit. -/
def unitBytes (order : ByteOrder) (unit : Nat) : List UInt8 :=
  match order with
  | .littleEndian => [.ofNat (unit % 256), .ofNat (unit / 256)]
  | .bigEndian => [.ofNat (unit / 256), .ofNat (unit % 256)]

/-- The bytes of a text. -/
def utf16 (order : ByteOrder) (cs : List Char) : List UInt8 :=
  (utf16Units cs).flatMap (unitBytes order)

def isHighSurrogate (unit : Nat) : Bool := 0xD800 ≤ unit && unit ≤ 0xDBFF

def isLowSurrogate (unit : Nat) : Bool := 0xDC00 ≤ unit && unit ≤ 0xDFFF

/-- The units in bytes, and whether one byte is left over. -/
def pairBytes (order : ByteOrder) : List UInt8 → List Nat × Bool
  | a :: b :: rest =>
    let (units, odd) := pairBytes order rest
    match order with
    | .littleEndian => ((b.toNat * 256 + a.toNat) :: units, odd)
    | .bigEndian => ((a.toNat * 256 + b.toNat) :: units, odd)
  | [_] => ([], true)
  | [] => ([], false)

/-- The text of units, with each surrogate that has no partner replaced. A byte left over at the end
    is replaced too, unless it follows such a high surrogate, whose replacement stands for both. -/
def decodeUnits (odd : Bool) : List Nat → List Char
  | [] => if odd then [replacement] else []
  | [unit] =>
    if isHighSurrogate unit then [replacement]
    else (if isLowSurrogate unit then replacement else Char.ofNat unit) ::
      (if odd then [replacement] else [])
  | unit :: next :: rest =>
    if isHighSurrogate unit then
      if isLowSurrogate next then
        Char.ofNat (0x10000 + (unit - 0xD800) * 0x400 + (next - 0xDC00)) :: decodeUnits odd rest
      else replacement :: decodeUnits odd (next :: rest)
    else (if isLowSurrogate unit then replacement else Char.ofNat unit) ::
      decodeUnits odd (next :: rest)

/-- The text of bytes in UTF-16. -/
def decodeUtf16 (order : ByteOrder) (bytes : List UInt8) : List Char :=
  let (units, odd) := pairBytes order bytes
  decodeUnits odd units

end HelpAudit.Text
