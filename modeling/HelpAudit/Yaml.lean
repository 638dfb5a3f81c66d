import HelpAudit.Config.Data

/-! YAML values. Only the shape of a document is kept: which type a scalar has depends on where it
    stands, and plain scalars can be read as truth values, numbers or texts. -/

namespace HelpAudit

/-- A YAML value. -/
inductive Yaml where
  /-- A document in which there is nothing. -/
  | void
  /-- A scalar, and whether it is written without quotes. -/
  | scalar (text : List Char) (plain : Bool)
  | seq (items : List Yaml)
  | map (entries : List (Yaml × Yaml))

namespace Yaml

/-- A scalar that is left out. -/
def empty : Yaml := .scalar [] true

/-- Whether a value is left out. Then it can stand for an empty list or map. -/
def isEmpty : Yaml → Bool
  | .void => true
  | .scalar [] true => true
  | _ => false

/-- The text of a key. -/
def text? : Yaml → Option String
  | .scalar text _ => some (.ofList text)
  | _ => none

/-- The entries of a map. -/
def entries? (value : Yaml) : Option (List (String × Yaml)) :=
  match value with
  | .map entries => entries.mapM fun (key, value) => (text? key).map fun key => (key, value)
  | _ => if value.isEmpty then some [] else none

/-- The items of a list. -/
def items? (value : Yaml) : Option (List Yaml) :=
  match value with
  | .seq items => some items
  | _ => if value.isEmpty then some [] else none

/-- The only entry with a name: absent, its value, or a failure when it is repeated. -/
def field? (name : String) (entries : List (String × Yaml)) : Option (Option Yaml) :=
  match entries.filter (·.1 = name) with
  | [] => some none
  | [(_, value)] => some (some value)
  | _ => none

/-- The named fields of a record: entries of a map, or the items of a list in order. -/
def record? (names : List String) (value : Yaml) : Option (List (Option Yaml)) :=
  match value with
  | .seq items =>
    if items.length ≤ names.length then
      some (items.map some ++ List.replicate (names.length - items.length) none)
    else none
  | _ => do names.mapM (field? · (← entries? value))

/-- The words for truth values. -/
def boolWord? (text : List Char) : Option Bool :=
  match String.ofList text with
  | "true" | "True" | "TRUE" => some true
  | "false" | "False" | "FALSE" => some false
  | _ => none

/-- Whether a text is one of the words for nothing. -/
def isNullWord (text : List Char) : Bool :=
  String.ofList text ∈ ["null", "Null", "NULL", "~"]

def bool? : Yaml → Option Bool
  | .scalar text true => boolWord? text
  | _ => none

/-! ### Numbers -/

/-- The digit that a character is in a base up to sixteen. -/
def digit? (base : Nat) (c : Char) : Option Nat :=
  let value :=
    if c.isDigit then c.toNat - '0'.toNat
    else if 'a' ≤ c.toLower ∧ c.toLower ≤ 'f' then c.toLower.toNat - 'a'.toNat + 10
    else 16
  if value < base then some value else none

/-- The value of digits in a base, of which there is at least one. A plus sign may stand in front. -/
def natural? (base : Nat) (text : List Char) : Option Nat :=
  let digits := match text with
    | '+' :: digits => digits
    | digits => digits
  if digits.isEmpty then none
  else digits.foldlM (fun value c => (digit? base c).map (value * base + ·)) 0

/-- A text without a sign in front. -/
def dropSign : List Char → List Char
  | '-' :: rest => rest
  | '+' :: rest => rest
  | text => text

/-- Whether a text has zeros in front of other digits, which makes it no number. -/
def hasLeadingZeros (text : List Char) : Bool :=
  match dropSign text with
  | '0' :: c :: rest => (c :: rest).all Char.isDigit
  | _ => false

/-- A whole number with a mark for its base in front of it. The number has no sign of its own. -/
def marked? (text : List Char) : Option Nat :=
  let unsigned (base : Nat) (rest : List Char) : Option Nat :=
    if rest.head? = some '+' then none else natural? base rest
  match text with
  | '0' :: 'x' :: rest => unsigned 16 rest
  | '0' :: 'o' :: rest => unsigned 8 rest
  | '0' :: 'b' :: rest => unsigned 2 rest
  | _ => none

/-- A whole number that is not negative. -/
def unsigned? (text : List Char) : Option Nat :=
  let body := match text with
    | '+' :: rest => rest
    | rest => rest
  match marked? body with
  | some value => some value
  | none =>
    if body.head? = some '+' ∨ hasLeadingZeros text then none
    else natural? 10 body

def word? : Yaml → Option Nat
  | .scalar text true =>
    match unsigned? text with
    | some value => if value < Json.wordLimit then some value else none
    | none => none
  | _ => none

/-- Whether a value says that there is none. -/
def isNull : Yaml → Bool
  | .void => true
  | .scalar text true => text.isEmpty || isNullWord text
  | _ => false

end Yaml

/-- Configurations in YAML. -/
def DataFormat.yaml : DataFormat Yaml where
  record? := Yaml.record?
  entries? := Yaml.entries?
  items? := Yaml.items?
  bool? := Yaml.bool?
  string? := Yaml.text?
  word? := Yaml.word?
  isNull := Yaml.isNull

end HelpAudit
