import HelpAudit.Config.Data

/-! TOML values. How a table came to be is kept with it, since that decides whether later lines may
    still add to it. -/

namespace HelpAudit

/-- How a table came to be. -/
inductive TableKind where
  /-- Written in braces. -/
  | inline
  /-- Named on the way to another table in a header. -/
  | implied
  /-- Named by the dotted key of an entry. -/
  | dotted
  /-- Opened by a header of its own. -/
  | defined
  deriving DecidableEq

/-- A TOML value. -/
inductive Toml where
  | str (value : String)
  | int (value : Int)
  | bool (value : Bool)
  /-- A number with a fraction or an exponent; its value is not kept. -/
  | float
  /-- A date or a time; its value is not kept. -/
  | date
  | arr (items : List Toml)
  | table (kind : TableKind) (entries : List (String × Toml))
  /-- Tables that were opened one after the other under the same header. -/
  | tables (elements : List (List (String × Toml)))

namespace Toml

/-- The entries of a table. -/
def entries? : Toml → Option (List (String × Toml))
  | .table _ entries => some entries
  | _ => none

/-- The items of an array. -/
def items? : Toml → Option (List Toml)
  | .arr items => some items
  | .tables elements => some (elements.map (.table .defined))
  | _ => none

/-- The named fields of a record: entries of a table, or the first items of an array. A date passes
    for a record in which every field is missing. -/
def record? (names : List String) (value : Toml) : Option (List (Option Toml)) :=
  match value with
  | .table _ entries => some (names.map (entries.lookup ·))
  | .date => some (names.map fun _ => none)
  | _ => (items? value).map fun items => (List.range names.length).map (items[·]?)

def bool? : Toml → Option Bool
  | .bool value => some value
  | _ => none

def string? : Toml → Option String
  | .str value => some value
  | _ => none

def nat? : Toml → Option Nat
  | .int value => if 0 ≤ value then some value.toNat else none
  | _ => none

end Toml

/-- Configurations in TOML. -/
def DataFormat.toml : DataFormat Toml where
  record? := Toml.record?
  entries? := Toml.entries?
  items? := Toml.items?
  bool? := Toml.bool?
  string? := Toml.string?
  word? := Toml.nat?
  isNull := fun _ => false

end HelpAudit
