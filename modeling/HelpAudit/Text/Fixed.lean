/-! Numbers with a fixed number of decimal places. A double-precision number is taken at its exact
    value, and a half is rounded to the even neighbour. -/

namespace HelpAudit.Text

/-- The quotient rounded to the nearest integer, of two nearest ones to the even one. -/
def roundDivEven (num den : Nat) : Nat :=
  let q := num / den
  let r := num % den
  if 2 * r < den then q
  else if den < 2 * r then q + 1
  else if q % 2 = 0 then q
  else q + 1

/-- A number with leading zeros up to a width. -/
def padded (width n : Nat) : String :=
  let digits := Nat.toDigits 10 n
  .ofList (List.replicate (width - digits.length) '0' ++ digits)

/-- `n` hundredths with two decimal places. -/
def hundredths (n : Nat) : String := s!"{n / 100}.{padded 2 (n % 100)}"

/-- A double-precision number, given by its bits, with two decimal places. -/
def twoPlaces (bits : UInt64) : String :=
  let n := bits.toNat
  let sign := if n / 0x8000000000000000 = 1 then "-" else ""
  let exponent := n / 0x10000000000000 % 0x800
  let fraction := n % 0x10000000000000
  if exponent = 2047 then
    if fraction = 0 then sign ++ "inf" else "NaN"
  else
    -- The value is `mantissa * 2 ^ (power - 1075)`.
    let mantissa := if exponent = 0 then fraction else 0x10000000000000 + fraction
    let power := max exponent 1
    let scaled :=
      if 1075 ≤ power then mantissa * Nat.pow 2 (power - 1075) * 100
      else roundDivEven (mantissa * 100) (Nat.pow 2 (1075 - power))
    sign ++ hundredths scaled

end HelpAudit.Text
