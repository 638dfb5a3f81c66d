import HelpAudit.Tree.Script

/-! The comments of a function that may hold its help: right before the function, at the start of
    its body and at the end of its body. A block comment stands for itself; line comments form a
    group while each stands on the line after the other. -/

namespace HelpAudit

/-- From a line comment on, the line comments with one newline between each two. The tokens may also
    be given in reverse. -/
def lineCommentRun : List Token → List Token
  | t :: n :: u :: ts =>
    if n.kind = .newline ∧ u.kind = .comment .line then t :: n :: lineCommentRun (u :: ts) else [t]
  | t :: _ => [t]
  | [] => []

/-- The group that starts with the first of the tokens, if that is a comment. -/
def commentRun? : List Token → Option (List Token)
  | t :: ts =>
    match t.kind with
    | .comment .block => some [t]
    | .comment .line => some (lineCommentRun (t :: ts))
    | _ => none
  | [] => none

/-- The group made of a run of comments and the newlines between them. -/
def commentGroup (script : Script) (run : List Token) : CommentGroup where
  comments := (run.filter (·.kind.isComment)).map (·.value)
  extent := script.extent ((run.head?.map Token.start).getD 0) ((run.getLast?.map Token.stop).getD 0)

/-- Newline tokens at the start. -/
def newlineCount (ts : List Token) : Nat := (ts.takeWhile (·.kind = .newline)).length

/-- The first comment group after newlines. -/
def leadingGroup? (script : Script) (ts : List Token) : Option CommentGroup :=
  (commentRun? (ts.dropWhile (·.kind = .newline))).map (commentGroup script)

/-- The last comment group before newlines; `back` holds the tokens from the last one backwards. -/
def trailingGroup? (script : Script) (back : List Token) : Option CommentGroup :=
  (commentRun? (back.dropWhile (·.kind = .newline))).map (commentGroup script ·.reverse)

/-- The comment groups of a function in the order in which they are searched for help. `before`
    holds the tokens before its keyword and `body` those between its braces. At most one blank line
    may stand between the keyword and the comment before it. -/
def helpComments (script : Script) (before body : List Token) : List CommentGroup :=
  let above :=
    if newlineCount before.reverse ≤ 2 then (trailingGroup? script before.reverse).toList else []
  let groups := above ++ (leadingGroup? script body).toList
  match trailingGroup? script body.reverse with
  | some group => if group ∈ groups then groups else groups ++ [group]
  | none => groups

end HelpAudit
