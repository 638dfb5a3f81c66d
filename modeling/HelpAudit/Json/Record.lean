import HelpAudit.Json

/-! Reading records from JSON values. A record is an object with its fields as members, or an array
    with its fields in order. Unknown members are passed over; a repeated field is refused. The
    argument `room` is the number of arrays and objects that may still be nested. -/

namespace HelpAudit.Json

/-- One past the largest number of a field that counts. -/
def wordLimit : Nat := 0x10000000000000000

/-- The only member with a key: absent, its value, or a failure when it is repeated. -/
def member? (key : String) (members : List (String × Json)) : Option (Option Json) :=
  match members.filter (·.1 = key) with
  | [] => some none
  | [(_, value)] => some (some value)
  | _ => none

/-- The values of the named fields of a record, in the order of the names. -/
def fields? (names : List String) : Json → Option (List (Option Json))
  | .obj members => names.mapM (member? · members)
  | .arr items =>
    if items.length ≤ names.length then
      some (items.map some ++ List.replicate (names.length - items.length) none)
    else none
  | _ => none

/-- A field that must be there. -/
def required {α : Type} (read : Json → Option α) : Option Json → Option α
  | some json => read json
  | none => none

/-- A field with a default. -/
def defaulting {α : Type} (default : α) (read : Json → Option α) : Option Json → Option α
  | some json => read json
  | none => some default

/-- A field that may be missing or `null`. -/
def optional {α : Type} (read : Json → Option α) : Option Json → Option (Option α)
  | some .null => some none
  | some json => (read json).map some
  | none => some none

/-- A truth value. -/
def bool? : Json → Option Bool
  | .bool value => some value
  | _ => none

/-- A text. -/
def string? : Json → Option String
  | .str value => some value
  | _ => none

/-- A natural number of 64 bits. -/
def word? : Json → Option Nat
  | .nat value => if value < wordLimit then some value else none
  | _ => none

/-- An array, read item by item. -/
def list? {α : Type} (read : Nat → Json → Option α) : Nat → Json → Option (List α)
  | room + 1, .arr items => items.mapM (read room)
  | _, _ => none

/-- An array of texts. -/
def stringList? (room : Nat) (json : Json) : Option (List String) :=
  list? (fun _ => string?) room json

/-- One of the words of an enumeration, or an object with the word as its only key. Where a value
    was stored before it is read, `stored`, the object's value may be empty instead of `null`. -/
def choice? {α : Type} (table : List (String × α)) (stored : Bool) (room : Nat) :
    Json → Option α
  | .str word => table.lookup word
  | .obj [(word, .null)] => if 0 < room then table.lookup word else none
  | .obj [(word, .obj [])] => if stored && 0 < room then table.lookup word else none
  | _ => none

/-! ### Values that can be stored -/

/-- Whether a number is too large for a double-precision number: it would round to infinity, which
    happens from `2 ^ 1024 - 2 ^ 970` on. -/
def exceedsDouble (mantissa : Nat) (exponent : Int) : Bool :=
  let digits : Int := (Nat.toDigits 10 mantissa).length
  if mantissa = 0 || digits + exponent < 300 then false
  else if digits + exponent > 320 then true
  else
    let limit := Nat.pow 2 1024 - Nat.pow 2 970
    if exponent < 0 then limit * Nat.pow 10 exponent.natAbs ≤ mantissa
    else limit ≤ mantissa * Nat.pow 10 exponent.natAbs

mutual

/-- Whether a value can be stored: all its texts and numbers have a value, and at most `room` arrays
    and objects are nested in it. -/
def storable : (room : Nat) → Json → Bool
  | _, .garbled => false
  | _, .nat n => !exceedsDouble n 0
  | _, .decimal d => !exceedsDouble d.mantissa d.exponent
  | 0, .arr _ => false
  | room + 1, .arr items => storableItems room items
  | 0, .obj _ => false
  | room + 1, .obj members => storableMembers room members
  | _, .null => true
  | _, .bool _ => true
  | _, .str _ => true

/-- Whether all items of an array can be stored. -/
def storableItems : (room : Nat) → List Json → Bool
  | _, [] => true
  | room, item :: items => storable room item && storableItems room items

/-- Whether all members of an object can be stored. -/
def storableMembers : (room : Nat) → List (String × Json) → Bool
  | _, [] => true
  | room, (_, value) :: members => storable room value && storableMembers room members

end

end HelpAudit.Json
