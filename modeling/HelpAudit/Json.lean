/-! JSON values. Objects keep the order of their members and also repeated ones, so that a reader of
    records can refuse them. -/

namespace HelpAudit

/-- A number that is no plain natural number: `± mantissa · 10 ^ exponent`. -/
structure Decimal where
  negative : Bool
  mantissa : Nat
  exponent : Int
  deriving DecidableEq

/-- A JSON value. -/
inductive Json where
  | null
  | bool (value : Bool)
  | nat (value : Nat)
  | decimal (value : Decimal)
  | str (value : String)
  /-- A string, or an object with a key, that escapes half of a surrogate pair. It denotes no text,
      so it is good only where values are passed over. -/
  | garbled
  | arr (items : List Json)
  | obj (members : List (String × Json))

namespace Json

/-- An optional string, `null` when absent. -/
def ofOption : Option String → Json
  | some s => .str s
  | none => .null

/-- An array of strings. -/
def strings (items : List String) : Json := .arr (items.map .str)

/-- A member that is left out when its value is absent. -/
def memberIfSome (key : String) : Option Json → List (String × Json)
  | some value => [(key, value)]
  | none => []

end Json

end HelpAudit
