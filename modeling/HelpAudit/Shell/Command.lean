/-! Commands of a small shell: words that are expanded when a command runs, and commands that are
    joined, chosen and repeated.

    The shell is part of the outermost layer. It stands in for the programs of the system on which the
    tool runs, because `Main` starts no processes; nothing else uses it. The analysis takes the programs
    as a parameter (`Programs`), and what is proved about it holds for all of them. -/

namespace HelpAudit.Shell

/-- A part of a word. Quoted parts are kept together when the word is split into fields. -/
inductive Piece where
  | literal (text : List Char) (quoted : Bool)
  | reference (name : String) (quoted : Bool)
  | arithmetic (expression : List Char) (quoted : Bool)
  deriving DecidableEq

abbrev Word := List Piece

/-- Where a stream goes. -/
inductive Target where
  | stream (number : Nat)
  | nowhere
  deriving DecidableEq

/-- A stream that is sent elsewhere. -/
structure Redirection where
  source : Nat
  target : Target
  deriving DecidableEq

/-- A command. -/
inductive Command where
  | nothing
  | simple (words : List Word) (redirections : List Redirection)
  | sequence (first second : Command)
  /-- The second command runs if the first one succeeds, or if it fails. -/
  | conditional (ifSuccess : Bool) (first second : Command)
  | negation (command : Command)
  | choice (condition yes no : Command)
  /-- The body runs as long as the condition succeeds, or fails. -/
  | loop (whileSuccess : Bool) (condition body : Command)
  | each (name : String) (items : List Word) (body : Command)
  | group (command : Command) (redirections : List Redirection)

end HelpAudit.Shell
