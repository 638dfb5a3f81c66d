import HelpAudit.Toml

/-! Reading TOML scalars: strings in their four forms, numbers and dates. A reader takes the text after
    the opening quote and gives the value together with the text that follows. -/

namespace HelpAudit.Toml

/-- Characters that may stand in comments and strings: no control characters but the tab. -/
def isText (c : Char) : Bool := c = '\t' || (0x20 ≤ c.toNat && c.toNat ≠ 0x7f)

def isBlank (c : Char) : Bool := c = ' ' || c = '\t'

/-- The value of hexadecimal digits. -/
def hexValue? (digits : List Char) : Option Nat :=
  digits.foldlM (fun value c =>
    if c.isDigit then some (value * 16 + (c.toNat - '0'.toNat))
    else if 'a' ≤ c ∧ c ≤ 'f' then some (value * 16 + (c.toNat - 'a'.toNat + 10))
    else if 'A' ≤ c ∧ c ≤ 'F' then some (value * 16 + (c.toNat - 'A'.toNat + 10))
    else none) 0

/-- The character with the code point that hexadecimal digits give. -/
def codePoint? (digits : List Char) : Option Char := do
  let value ← hexValue? digits
  if value.isValidChar then some (Char.ofNat value) else none

/-- The character that a letter after a backslash stands for. -/
def escape? : Char → Option Char
  | 'b' => some '\x08'
  | 't' => some '\t'
  | 'n' => some '\n'
  | 'f' => some '\x0c'
  | 'r' => some '\r'
  | '"' => some '"'
  | '\\' => some '\\'
  | _ => none

/-! ### Strings -/

/-- A character before the result of reading on. -/
def before (c : Char) : Option (List Char × List Char) → Option (List Char × List Char)
  | some (text, rest) => some (c :: text, rest)
  | none => none

/-- A string in double quotes. -/
def basic : List Char → Option (List Char × List Char)
  | [] => none
  | '"' :: rest => some ([], rest)
  | '\\' :: 'u' :: a :: b :: c :: d :: rest =>
    match codePoint? [a, b, c, d] with
    | some found => before found (basic rest)
    | none => none
  | '\\' :: 'U' :: a :: b :: c :: d :: e :: f :: g :: h :: rest =>
    match codePoint? [a, b, c, d, e, f, g, h] with
    | some found => before found (basic rest)
    | none => none
  | '\\' :: c :: rest =>
    match escape? c with
    | some found => before found (basic rest)
    | none => none
  | c :: rest => if isText c && c ≠ '\\' then before c (basic rest) else none

/-- A string in single quotes. -/
def literal : List Char → Option (List Char × List Char)
  | [] => none
  | '\'' :: rest => some ([], rest)
  | c :: rest => if isText c then before c (literal rest) else none

/-- Whether a line ends after blanks. -/
def lineEnds (text : List Char) : Bool :=
  match text.dropWhile isBlank with
  | '\n' :: _ => true
  | '\r' :: '\n' :: _ => true
  | _ => false

/-- A string in three double quotes, after its opening. A backslash at the end of a line takes away
    all blanks and line ends after it, which is what `trimming` means. Up to two quotes may stand
    before the closing ones. -/
def longBasic (trimming : Bool) : List Char → Option (List Char × List Char)
  | [] => none
  | '"' :: '"' :: '"' :: '"' :: '"' :: rest => some (['"', '"'], rest)
  | '"' :: '"' :: '"' :: '"' :: rest => some (['"'], rest)
  | '"' :: '"' :: '"' :: rest => some ([], rest)
  | '\r' :: '\n' :: rest =>
    if trimming then longBasic true rest else before '\n' (longBasic false rest)
  | '\n' :: rest => if trimming then longBasic true rest else before '\n' (longBasic false rest)
  | '\\' :: 'u' :: a :: b :: c :: d :: rest =>
    match codePoint? [a, b, c, d] with
    | some found => before found (longBasic false rest)
    | none => none
  | '\\' :: 'U' :: a :: b :: c :: d :: e :: f :: g :: h :: rest =>
    match codePoint? [a, b, c, d, e, f, g, h] with
    | some found => before found (longBasic false rest)
    | none => none
  | '\\' :: c :: rest =>
    match escape? c with
    | some found => before found (longBasic false rest)
    | none => if lineEnds (c :: rest) then longBasic true (c :: rest) else none
  | c :: rest =>
    if trimming && isBlank c then longBasic true rest
    else if isText c && c ≠ '\\' then before c (longBasic false rest)
    else none

/-- A string in three single quotes, after its opening. -/
def longLiteral : List Char → Option (List Char × List Char)
  | [] => none
  | '\'' :: '\'' :: '\'' :: '\'' :: '\'' :: rest => some (['\'', '\''], rest)
  | '\'' :: '\'' :: '\'' :: '\'' :: rest => some (['\''], rest)
  | '\'' :: '\'' :: '\'' :: rest => some ([], rest)
  | '\r' :: '\n' :: rest => before '\n' (longLiteral rest)
  | '\n' :: rest => before '\n' (longLiteral rest)
  | c :: rest => if isText c then before c (longLiteral rest) else none

/-- A line end right after the opening of a long string does not count. -/
def dropLineEnd : List Char → List Char
  | '\n' :: rest => rest
  | '\r' :: '\n' :: rest => rest
  | text => text

/-- A string of any form. -/
def string : List Char → Option (List Char × List Char)
  | '"' :: '"' :: '"' :: rest => longBasic false (dropLineEnd rest)
  | '\'' :: '\'' :: '\'' :: rest => longLiteral (dropLineEnd rest)
  | '"' :: rest => basic rest
  | '\'' :: rest => literal rest
  | _ => none

/-! ### Numbers -/

/-- Digits without the underscores between them. -/
def digits? (isDigit : Char → Bool) : List Char → Option (List Char)
  | [] => none
  | [c] => if isDigit c then some [c] else none
  | c :: '_' :: rest => if isDigit c then (digits? isDigit rest).map (c :: ·) else none
  | c :: rest => if isDigit c then (digits? isDigit rest).map (c :: ·) else none

/-- The value of digits in a base. -/
def valueIn (base : Nat) (digits : List Char) : Nat :=
  digits.foldl (fun value c =>
    value * base + (if c.isDigit then c.toNat - '0'.toNat else c.toLower.toNat - 'a'.toNat + 10)) 0

/-- The digits of a decimal number, which has no zeros in front. -/
def decimalDigits? (text : List Char) : Option (List Char) :=
  match digits? Char.isDigit text with
  | some ('0' :: _ :: _) => none
  | found => found

/-- A text without its sign, and whether it is negative. -/
def splitSign : List Char → Bool × List Char
  | '-' :: rest => (true, rest)
  | '+' :: rest => (false, rest)
  | text => (false, text)

/-- A number of 64 bits with a sign. -/
def inRange (value : Int) : Option Int :=
  if -0x8000000000000000 ≤ value ∧ value < 0x8000000000000000 then some value else none

/-- A whole number. -/
def integer? (text : List Char) : Option Int :=
  match text with
  | '0' :: 'x' :: rest => do
    let digits ← digits? (fun c => c.isDigit || ('a' ≤ c.toLower && c.toLower ≤ 'f')) rest
    inRange (valueIn 16 digits)
  | '0' :: 'o' :: rest => do
    inRange (valueIn 8 (← digits? (fun c => '0' ≤ c && c ≤ '7') rest))
  | '0' :: 'b' :: rest => do
    inRange (valueIn 2 (← digits? (fun c => c = '0' || c = '1') rest))
  | _ => do
    let (negative, rest) := splitSign text
    let value : Int := valueIn 10 (← decimalDigits? rest)
    inRange (if negative then -value else value)

/-- Whether a text is the exponent of a number, if it has one. -/
def isExponent : List Char → Bool
  | [] => true
  | c :: rest => (c = 'e' || c = 'E') && (digits? Char.isDigit (splitSign rest).2).isSome

/-- Whether a text is a number with a fraction or an exponent. -/
def isFloat (text : List Char) : Bool :=
  let (_, rest) := splitSign text
  let isMark (c : Char) : Bool := c = '.' || c = 'e' || c = 'E'
  let whole := rest.takeWhile (!isMark ·)
  if rest = ['i', 'n', 'f'] ∨ rest = ['n', 'a', 'n'] then true
  else if (decimalDigits? whole).isNone then false
  else match rest.dropWhile (!isMark ·) with
    | [] => false
    | '.' :: rest =>
      let isExponentMark (c : Char) : Bool := c = 'e' || c = 'E'
      (digits? Char.isDigit (rest.takeWhile (!isExponentMark ·))).isSome &&
        isExponent (rest.dropWhile (!isExponentMark ·))
    | rest => isExponent rest

/-! ### Dates and times -/

/-- The number that two digits give. -/
def twoDigits? : Char → Char → Option Nat
  | a, b => if a.isDigit && b.isDigit then some (valueIn 10 [a, b]) else none

/-- The number of days of a month. -/
def monthDays (year month : Nat) : Nat :=
  if month = 2 then
    if year % 4 = 0 ∧ (year % 100 ≠ 0 ∨ year % 400 = 0) then 29 else 28
  else if month ∈ [4, 6, 9, 11] then 30 else 31

/-- What follows a date. -/
def date? : List Char → Option (List Char)
  | a :: b :: c :: d :: '-' :: e :: f :: '-' :: g :: h :: rest => do
    let year := (← twoDigits? a b) * 100 + (← twoDigits? c d)
    let month ← twoDigits? e f
    let day ← twoDigits? g h
    if 1 ≤ month ∧ month ≤ 12 ∧ 1 ≤ day ∧ day ≤ monthDays year month then some rest else none
  | _ => none

/-- What follows the fraction of a second. -/
def fraction? : List Char → Option (List Char)
  | '.' :: c :: rest => if c.isDigit then some (rest.dropWhile Char.isDigit) else none
  | '.' :: [] => none
  | rest => some rest

/-- What follows a time of day. -/
def time? : List Char → Option (List Char)
  | a :: b :: ':' :: c :: d :: ':' :: e :: f :: rest => do
    if (← twoDigits? a b) ≤ 23 ∧ (← twoDigits? c d) ≤ 59 ∧ (← twoDigits? e f) ≤ 60 then
      fraction? rest
    else none
  | _ => none

/-- Whether a text is the distance from universal time. -/
def isOffset : List Char → Bool
  | ['Z'] => true
  | ['z'] => true
  | [sign, a, b, ':', c, d] =>
    (sign = '+' || sign = '-') && (twoDigits? a b).any (· ≤ 23) && (twoDigits? c d).any (· ≤ 59)
  | _ => false

/-- Whether a text is a date, a time, or both. -/
def isDate (text : List Char) : Bool :=
  match date? text with
  | some [] => true
  | some (c :: rest) =>
    (c = 'T' || c = 't' || c = ' ') && (time? rest).any fun rest => rest = [] || isOffset rest
  | none => time? text = some []

/-- Characters of numbers and dates. -/
def isNumberChar (c : Char) : Bool := c.isAlphanum || c ∈ ['_', '+', '-', '.', ':']

/-- The text of a number or a date. A blank may stand between a date and a time. -/
def numberText (text : List Char) : List Char × List Char :=
  let first := text.takeWhile isNumberChar
  let rest := text.dropWhile isNumberChar
  match date? first, rest with
  | some [], ' ' :: c :: more =>
    if c.isDigit then
      (first ++ ' ' :: (c :: more).takeWhile isNumberChar, (c :: more).dropWhile isNumberChar)
    else (first, rest)
  | _, _ => (first, rest)

/-- A number, a date or a truth value. -/
def scalar (text : List Char) : Option (Toml × List Char) := do
  let (found, rest) := numberText text
  if found = "true".toList then return (.bool true, rest)
  if found = "false".toList then return (.bool false, rest)
  match integer? found with
  | some value => return (.int value, rest)
  | none =>
    if isFloat found then return (.float, rest)
    else if isDate found then return (.date, rest)
    else none

end HelpAudit.Toml
