import HelpAudit.CommentHelp
import HelpAudit.Text.Bytes
import HelpAudit.Tree.Node

/-! Reading help from comments. A line `.KEYWORD argument` starts a section, which runs up to the
    next such line. Comments are help when they have such a line and every such line names a
    section; the help of a function is the first of its comment groups that is help, completed by the
    comments right above its parameters. -/

namespace HelpAudit

/-! ### Lines -/

/-- The lines of a comment without its delimiters. -/
def commentLines (comment : String) : List (List Char) :=
  match comment.toList with
  | '<' :: '#' :: body =>
    Text.lines (if ['#', '>'].isSuffixOf body then body.take (body.length - 2) else body)
  | '#' :: line => [line]
  | line => [line]

/-- The number of bytes of a line before its first character that is not blank. -/
def indentation (line : List Char) : Nat := Text.byteLength (line.takeWhile Text.isBlank)

/-- The least indentation of the lines that are not blank. -/
def commonIndentation (lines : List (List Char)) : Nat :=
  (((lines.filter (!·.all Text.isBlank)).map indentation).min?).getD 0

/-- A line without `indent` bytes at its start, or without all its leading blanks when it cannot be
    cut there; blanks at the end go too. -/
def dedented (indent : Nat) (line : List Char) : List Char :=
  Text.trimEnd ((Text.dropBytes? indent line).getD (Text.trimStart line))

/-- The text of a section: its lines without their common indentation, without the blanks at their
    ends, and without empty lines before and after. -/
def sectionText (lines : List (List Char)) : String :=
  let text := Text.joinLines (lines.map (dedented (commonIndentation lines)))
  .ofList (Text.dropWhileEnd (· == '\n') (text.dropWhile (· == '\n')))

/-! ### Sections -/

/-- A keyword line: the word after the dot, and its argument without blanks at the ends. The word
    has ASCII letters only, and a blank or tab stands before the argument. -/
def keywordLine? (line : List Char) : Option (List Char × Option String) :=
  match Text.trimStart line with
  | '.' :: cs =>
    let word := cs.takeWhile Char.isAlpha
    let rest := cs.dropWhile Char.isAlpha
    let argument := Text.trimEnd (rest.dropWhile fun c => c == ' ' || c == '\t')
    if word.isEmpty then none
    else if rest.all Text.isBlank then some (word, none)
    else match rest with
      | c :: _ =>
        if (c == ' ' || c == '\t') && !argument.contains '\n' then
          some (word, some (.ofList (Text.trimStart argument)))
        else none
      | [] => none
  | _ => none

/-- A keyword line with the lines up to the next one. -/
structure HelpEntry where
  word : List Char
  argument : Option String
  body : List (List Char)
  deriving DecidableEq

/-- The lines before the first keyword line, and the entries from there on. -/
def helpEntries : List (List Char) → List (List Char) × List HelpEntry
  | [] => ([], [])
  | line :: lines =>
    let (body, entries) := helpEntries lines
    match keywordLine? line with
    | some (word, argument) => ([], ⟨word, argument, body⟩ :: entries)
    | none => (line :: body, entries)

/-- Adds an entry to a help record, when its word names a section. -/
def CommentHelp.addSection? (help : CommentHelp) (entry : HelpEntry) : Option CommentHelp :=
  (HelpSection.ofWord? entry.word).map fun kind =>
    help.add kind entry.argument (sectionText entry.body)

/-- The help in the lines of comments, if they are help. -/
def CommentHelp.ofLines? (lines : List (List Char)) : Option CommentHelp :=
  match (helpEntries lines).2 with
  | [] => none
  | entries => entries.foldlM CommentHelp.addSection? {}

/-- The help in comments, if they are help. -/
def CommentHelp.ofComments? (comments : List String) : Option CommentHelp :=
  CommentHelp.ofLines? (comments.flatMap commentLines)

/-! ### Functions -/

/-- The parameters that a function declares itself: those in parentheses after its name, then those
    of the parameter block of its body. -/
def FunctionDefinition.ownParameters (f : FunctionDefinition) : List Parameter :=
  f.parameters.getD [] ++ (f.body.paramBlock.map (·.parameters)).getD []

/-- The help after the comments above a parameter. They count only for a parameter that is not
    documented otherwise. -/
def CommentHelp.addLeading (help : CommentHelp) (p : Parameter) : CommentHelp :=
  if p.leadingComments.isEmpty || help.documents p.name then help
  else help.addParameter p.name (sectionText (p.leadingComments.flatMap commentLines))

/-- The help of a function, empty when none of its comment groups is help. -/
def FunctionDefinition.help (f : FunctionDefinition) : CommentHelp :=
  match f.helpComments.findSome? (fun group => CommentHelp.ofComments? group.comments) with
  | some help => f.ownParameters.foldl CommentHelp.addLeading help
  | none => {}

/-- The function definitions of a tree, each before those inside it. -/
def Node.functions (node : Node) : List FunctionDefinition :=
  (node.visited true).filterMap fun
    | .functionDefinition definition => some definition
    | _ => none

/-- The functions of a script with their help. -/
def ScriptBlock.help (root : ScriptBlock) : List (FunctionDefinition × CommentHelp) :=
  (Node.scriptBlock root).functions.map fun f => (f, f.help)

end HelpAudit
