/-! The Windows-1252 code page, in which every byte is a character. -/

namespace HelpAudit.Text

/-- The code points of the bytes 80 to 9F; those without a character of their own keep their
    number. -/
def windows1252Table : List Nat :=
  [0x20AC, 0x81, 0x201A, 0x192, 0x201E, 0x2026, 0x2020, 0x2021, 0x2C6, 0x2030, 0x160, 0x2039, 0x152,
    0x8D, 0x17D, 0x8F, 0x90, 0x2018, 0x2019, 0x201C, 0x201D, 0x2022, 0x2013, 0x2014, 0x2DC, 0x2122,
    0x161, 0x203A, 0x153, 0x9D, 0x17E, 0x178]

/-- The character of a byte. -/
def windows1252Char (b : UInt8) : Char :=
  let n := b.toNat
  Char.ofNat (if 0x80 ≤ n ∧ n < 0xA0 then windows1252Table.getD (n - 0x80) n else n)

/-- The text of bytes. -/
def decodeWindows1252 (bytes : List UInt8) : List Char := bytes.map windows1252Char

end HelpAudit.Text
