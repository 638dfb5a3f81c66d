import HelpAudit.Json.Reader
import HelpAudit.Json.Record
import HelpAudit.Json.Writer
import HelpAudit.Tree

/-! Trees as JSON, the form in which other tools hand them over. Absent parts are left out when
    written; when read, everything but names, kinds, extents and bodies may be missing. -/

namespace HelpAudit

open Json (required defaulting optional list? stringList? string? word? bool? choice? fields?)

/-! ### Writing -/

def Extent.toJson (e : Extent) : Json :=
  .obj (Json.memberIfSome "file" (e.file.map .str) ++
    [("start_line", .nat e.startLine), ("start_column", .nat e.startColumn),
      ("end_line", .nat e.endLine), ("end_column", .nat e.endColumn),
      ("start_offset", .nat e.startOffset), ("end_offset", .nat e.endOffset), ("text", .str e.text)])

def CommentGroup.toJson (g : CommentGroup) : Json :=
  .obj [("comments", .strings g.comments), ("extent", g.extent.toJson)]

def Parameter.toJson (p : Parameter) : Json :=
  .obj ([("name", .str p.name), ("extent", p.extent.toJson), ("attributes", .strings p.attributes)] ++
    Json.memberIfSome "default_value" (p.defaultValue.map .str) ++
    [("leading_comments", .strings p.leadingComments)])

def ParamBlock.toJson (b : ParamBlock) : Json :=
  .obj [("extent", b.extent.toJson), ("attributes", .strings b.attributes),
    ("parameters", .arr (b.parameters.map Parameter.toJson))]

mutual

def ScriptBlock.toJson : ScriptBlock → Json
  | ⟨extent, params, blocks⟩ =>
    .obj (("extent", extent.toJson) ::
      (Json.memberIfSome "param_block" (params.map ParamBlock.toJson) ++
        [("named_blocks", .arr (namedBlocksJson blocks))]))

def NamedBlock.toJson : NamedBlock → Json
  | ⟨kind, unnamed, extent, statements⟩ =>
    .obj [("kind", .str kind.keyword), ("unnamed", .bool unnamed), ("extent", extent.toJson),
      ("statements", .arr (statementsJson statements))]

/-- The members of a function definition. -/
def FunctionDefinition.members : FunctionDefinition → List (String × Json)
  | ⟨name, kind, extent, parameters, body, comments⟩ =>
    [("name", .str name), ("kind", .str kind.keyword), ("extent", extent.toJson)] ++
      Json.memberIfSome "parameters" (parameters.map fun ps => .arr (ps.map Parameter.toJson)) ++
      [("body", body.toJson), ("help_comments", .arr (comments.map CommentGroup.toJson))]

/-- The members of another statement. -/
def Pipeline.members : Pipeline → List (String × Json)
  | ⟨extent, blocks⟩ => [("extent", extent.toJson), ("script_blocks", .arr (scriptBlocksJson blocks))]

/-- A statement says first what it is. -/
def Statement.toJson : Statement → Json
  | .function definition => .obj (("type", .str "function_definition") :: definition.members)
  | .pipeline statement => .obj (("type", .str "pipeline") :: statement.members)

def scriptBlocksJson : List ScriptBlock → List Json
  | [] => []
  | block :: blocks => block.toJson :: scriptBlocksJson blocks

def namedBlocksJson : List NamedBlock → List Json
  | [] => []
  | block :: blocks => block.toJson :: namedBlocksJson blocks

def statementsJson : List Statement → List Json
  | [] => []
  | statement :: statements => statement.toJson :: statementsJson statements

end

/-! ### Reading -/

/-- The function kinds by their words. -/
def FunctionKind.table : List (String × FunctionKind) :=
  [FunctionKind.function, .filter, .workflow].map fun kind => (kind.keyword, kind)

/-- The block kinds by their words. -/
def BlockKind.table : List (String × BlockKind) :=
  [BlockKind.beginBlock, .processBlock, .endBlock, .dynamicParamBlock, .cleanBlock].map fun kind =>
    (kind.keyword, kind)

def Extent.ofJson? : (room : Nat) → Json → Option Extent
  | 0, _ => none
  | _ + 1, json => do
    match ← fields? ["file", "start_line", "start_column", "end_line", "end_column",
        "start_offset", "end_offset", "text"] json with
    | [file, startLine, startColumn, endLine, endColumn, startOffset, endOffset, text] =>
      return {
        file := ← optional string? file
        startLine := ← required word? startLine
        startColumn := ← required word? startColumn
        endLine := ← required word? endLine
        endColumn := ← required word? endColumn
        startOffset := ← defaulting 0 word? startOffset
        endOffset := ← defaulting 0 word? endOffset
        text := ← defaulting "" string? text }
    | _ => none

def CommentGroup.ofJson? : (room : Nat) → Json → Option CommentGroup
  | 0, _ => none
  | room + 1, json => do
    match ← fields? ["comments", "extent"] json with
    | [comments, extent] =>
      return {
        comments := ← required (stringList? room) comments
        extent := ← required (Extent.ofJson? room) extent }
    | _ => none

def Parameter.ofJson? : (room : Nat) → Json → Option Parameter
  | 0, _ => none
  | room + 1, json => do
    match ← fields? ["name", "extent", "attributes", "default_value", "leading_comments"] json with
    | [name, extent, attributes, defaultValue, leadingComments] =>
      return {
        name := ← required string? name
        extent := ← required (Extent.ofJson? room) extent
        attributes := ← defaulting [] (stringList? room) attributes
        defaultValue := ← optional string? defaultValue
        leadingComments := ← defaulting [] (stringList? room) leadingComments }
    | _ => none

def ParamBlock.ofJson? : (room : Nat) → Json → Option ParamBlock
  | 0, _ => none
  | room + 1, json => do
    match ← fields? ["extent", "attributes", "parameters"] json with
    | [extent, attributes, parameters] =>
      return {
        extent := ← required (Extent.ofJson? room) extent
        attributes := ← defaulting [] (stringList? room) attributes
        parameters := ← defaulting [] (list? Parameter.ofJson? room) parameters }
    | _ => none

/-- The two kinds of statements by their words. -/
inductive StatementTag where
  | function
  | pipeline
  deriving DecidableEq

/-- What a statement says it is. A stored statement may also say it by number. -/
def StatementTag.ofJson? (stored : Bool) : Json → Option StatementTag
  | .str "function_definition" => some .function
  | .str "pipeline" => some .pipeline
  | .nat 0 => if stored then some .function else none
  | .nat 1 => if stored then some .pipeline else none
  | _ => none

/-- A statement's tag and the statement without it. -/
def StatementTag.split? (stored : Bool) : Json → Option (StatementTag × Json)
  | .obj members => do
    let tag ← required (StatementTag.ofJson? stored) (← Json.member? "type" members)
    return (tag, .obj (members.filter (·.1 ≠ "type")))
  | .arr (first :: rest) => do return (← StatementTag.ofJson? stored first, .arr rest)
  | _ => none

mutual

/-- Reads a script block. Statements are stored as values before their parts are read; `stored`
    tells whether that has happened. -/
def ScriptBlock.ofJson? (stored : Bool) : (room : Nat) → Json → Option ScriptBlock
  | 0, _ => none
  | room + 1, json => do
    match ← fields? ["extent", "param_block", "named_blocks"] json with
    | [extent, params, blocks] =>
      let extent ← required (Extent.ofJson? room) extent
      let params ← optional (ParamBlock.ofJson? room) params
      let blocks ← defaulting [] (NamedBlock.listOfJson? stored room) blocks
      return ⟨extent, params, blocks⟩
    | _ => none

/-- Reads a named block. -/
def NamedBlock.ofJson? (stored : Bool) : (room : Nat) → Json → Option NamedBlock
  | 0, _ => none
  | room + 1, json => do
    match ← fields? ["kind", "unnamed", "extent", "statements"] json with
    | [kind, unnamed, extent, statements] =>
      let kind ← required (choice? BlockKind.table stored room) kind
      let unnamed ← defaulting false bool? unnamed
      let extent ← required (Extent.ofJson? room) extent
      let statements ← defaulting [] (Statement.listOfJson? stored room) statements
      return ⟨kind, unnamed, extent, statements⟩
    | _ => none

/-- Reads a statement. -/
def Statement.ofJson? (stored : Bool) : (room : Nat) → Json → Option Statement
  | 0, _ => none
  | room + 1, json => do
    if !stored && !json.storable (room + 1) then none
    let (tag, json) ← StatementTag.split? stored json
    match tag with
    | .function =>
      match ← fields? ["name", "kind", "extent", "parameters", "body", "help_comments"] json with
      | [name, kind, extent, parameters, body, comments] =>
        let name ← required string? name
        let kind ← defaulting .function (choice? FunctionKind.table true room) kind
        let extent ← required (Extent.ofJson? room) extent
        let parameters ← optional (list? Parameter.ofJson? room) parameters
        let body ← required (ScriptBlock.ofJson? true room) body
        let comments ← defaulting [] (list? CommentGroup.ofJson? room) comments
        return .function ⟨name, kind, extent, parameters, body, comments⟩
      | _ => none
    | .pipeline =>
      match ← fields? ["extent", "script_blocks"] json with
      | [extent, blocks] =>
        let extent ← required (Extent.ofJson? room) extent
        let blocks ← defaulting [] (ScriptBlock.listOfJson? true room) blocks
        return .pipeline ⟨extent, blocks⟩
      | _ => none

def ScriptBlock.listOfJson? (stored : Bool) : (room : Nat) → Json → Option (List ScriptBlock)
  | room + 1, .arr items => items.mapM (ScriptBlock.ofJson? stored room)
  | _, _ => none

def NamedBlock.listOfJson? (stored : Bool) : (room : Nat) → Json → Option (List NamedBlock)
  | room + 1, .arr items => items.mapM (NamedBlock.ofJson? stored room)
  | _, _ => none

def Statement.listOfJson? (stored : Bool) : (room : Nat) → Json → Option (List Statement)
  | room + 1, .arr items => items.mapM (Statement.ofJson? stored room)
  | _, _ => none

end

/-- The number of arrays and objects that may be nested in the text of a tree. -/
def treeNesting : Nat := 127

/-- Reads the text of a tree; `null` stands for an absent one. -/
def ScriptBlock.ofText? (text : String) : Option (Option ScriptBlock) := do
  match ← Json.ofText? text with
  | .null => return none
  | json => (ScriptBlock.ofJson? false treeNesting json).map some

end HelpAudit
