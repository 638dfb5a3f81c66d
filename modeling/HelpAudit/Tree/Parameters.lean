import HelpAudit.Text.Blank
import HelpAudit.Tree.Script

/-! Parameter lists and parameter blocks. A list is read token by token; each stretch between the
    commas outside brackets is a segment, which is a parameter when a variable names it. -/

namespace HelpAudit

/-- `$Name`, `${Name}` and `$scope:Name` without the marks of a variable. -/
def variableName (token : String) : String :=
  let name := match token.toList with
    | '$' :: cs => cs
    | cs => cs
  match name with
  | '\x7b' :: inner =>
    if inner.getLast? = some '\x7d' then .ofList inner.dropLast else .ofList name
  | _ => .ofList name

/-- How much of a parameter's default value has been read. -/
inductive DefaultValue where
  /-- No equals sign yet. -/
  | absent
  /-- The equals sign was the last token. -/
  | announced
  /-- The value starts at this offset, so far with trivia. -/
  | opened (start : Nat)
  /-- The value starts at this offset, and code belongs to it. -/
  | present (start : Nat)
  deriving DecidableEq

/-- After one more token of the segment. -/
def DefaultValue.read (t : Token) : DefaultValue → DefaultValue
  | .absent => .absent
  | .announced => if t.kind.isTrivia then .opened t.start else .present t.start
  | .opened start => if t.kind.isTrivia then .opened start else .present start
  | .present start => .present start

/-- What has been read of one segment of a parameter list. -/
structure Segment where
  /-- The offsets around the tokens that are no trivia. -/
  span : Option (Nat × Nat) := none
  /-- The variable outside brackets that names the parameter. -/
  name : Option String := none
  /-- Where the attribute that is being read starts. -/
  attributeStart : Option Nat := none
  attributes : List String := []
  default : DefaultValue := .absent
  comments : List String := []

namespace Segment

/-- Counts a token to the parameter's extent. -/
def touch (segment : Segment) (t : Token) : Segment :=
  { segment with span := some ((segment.span.map (·.1)).getD t.start, t.stop) }

/-- Reads one token that does not end the segment, at a bracket depth; the answer has the depth
    after the token. -/
def read (script : Script) (segment : Segment) (depth : Nat) (t : Token) : Segment × Nat :=
  let segment := { segment with default := segment.default.read t }
  let naming := depth == 0 && segment.name.isNone
  match t.kind with
  | .newline => (segment, depth)
  | .comment _ =>
    (if naming then { segment with comments := segment.comments ++ [t.value] } else segment, depth)
  | .opening opener =>
    let segment :=
      if naming && opener = .bracket then { segment with attributeStart := some t.start } else segment
    (segment.touch t, depth + 1)
  | .closing _ =>
    let segment := match depth - 1, segment.attributeStart with
      | 0, some start =>
        { segment with
          attributeStart := none
          attributes := segment.attributes ++ [script.text start t.stop] }
      | _, _ => segment
    (segment.touch t, depth - 1)
  | .var => ((if naming then { segment with name := some t.value } else segment).touch t, depth)
  | .equals =>
    let segment :=
      if depth = 0 && segment.name.isSome && segment.default = .absent then
        { segment with default := .announced }
      else segment
    (segment.touch t, depth)
  | _ => (segment.touch t, depth)

/-- The parameter of a segment that has ended. -/
def parameter? (script : Script) (segment : Segment) : Option Parameter :=
  match segment.name, segment.span with
  | some name, some (start, stop) => some {
      name := variableName name
      extent := script.extent start stop
      attributes := segment.attributes
      defaultValue := match segment.default with
        | .present from_ => some (Text.trim (script.text from_ stop))
        | _ => none
      leadingComments := segment.comments }
  | _, _ => none

end Segment

/-- What a parameter list leaves: its parameters, the token that closes it and what follows. -/
structure ParameterList where
  parameters : List Parameter
  close : Token
  rest : List Token

/-- Reads a parameter list from inside its parenthesis `opener` on. -/
def parameterList (script : Script) (opener : Token) (segment : Segment) (depth : Nat) :
    List Token → Except ParseError ParameterList
  | [] => script.fault opener.start .missingParen
  | t :: ts =>
    if depth = 0 ∧ t.kind = .closing .paren then
      .ok ⟨(segment.parameter? script).toList, t, ts⟩
    else if depth = 0 ∧ t.kind = .comma then do
      let list ← parameterList script opener {} 0 ts
      return { list with parameters := (segment.parameter? script).toList ++ list.parameters }
    else
      let (segment, depth) := segment.read script depth t
      parameterList script opener segment depth ts

/-- Reads attributes in brackets, with trivia between them. `current` is the bracket that opened
    the attribute being read, with the depth reached in it. -/
def attributeGroups (script : Script) (current : Option (Token × Nat)) :
    List Token → Except ParseError (List String × List Token)
  | [] =>
    match current with
    | none => .ok ([], [])
    | some (opener, _) => script.fault opener.start (.missingCloser opener.value)
  | t :: ts =>
    match current with
    | none =>
      if t.kind.isTrivia then attributeGroups script none ts
      else if t.kind = .opening .bracket then attributeGroups script (some (t, 1)) ts
      else .ok ([], t :: ts)
    | some (opener, depth) =>
      if t.kind.opensGroup then attributeGroups script (some (opener, depth + 1)) ts
      else if t.kind.closesGroup then
        if depth ≤ 1 then do
          let (attributes, rest) ← attributeGroups script none ts
          return (script.text opener.start t.stop :: attributes, rest)
        else attributeGroups script (some (opener, depth - 1)) ts
      else attributeGroups script (some (opener, depth)) ts

/-- Reads the parameter block at the start of a script block, if there is one; otherwise nothing is
    read. -/
def paramBlock (script : Script) (ts : List Token) :
    Except ParseError (Option ParamBlock × List Token) := do
  let (attributes, rest) ← attributeGroups script none ts
  match rest with
  | keyword :: afterKeyword =>
    match keyword.kind, skipTrivia afterKeyword with
    | .keyword .param, opener :: inner =>
      if opener.kind = .opening .paren then
        let list ← parameterList script opener {} 0 inner
        let start := ((skipTrivia ts).head?.map (·.start)).getD keyword.start
        return (some ⟨script.extent start list.close.stop, attributes, list.parameters⟩, list.rest)
      else return (none, ts)
    | _, _ => return (none, ts)
  | [] => return (none, ts)

end HelpAudit
