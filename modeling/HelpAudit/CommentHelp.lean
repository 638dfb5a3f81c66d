import HelpAudit.Text.Blank
import HelpAudit.Text.UpperCase

/-! The help record that comments describe: texts by section, and the texts of parameters by name.
    Parameters are identified by the upper-case form of their names. Sections may be repeated; their
    texts are then joined, or listed where a section may have several entries. -/

namespace HelpAudit

/-- The sections of a help comment. -/
inductive HelpSection where
  | synopsis
  | description
  | parameter
  | example_
  | inputs
  | outputs
  | notes
  | link
  | component
  | role
  | functionality
  | forwardHelpTargetName
  | forwardHelpCategory
  | remoteHelpRunspace
  | externalHelp
  deriving DecidableEq

namespace HelpSection

/-- All sections. -/
def all : List HelpSection :=
  [.synopsis, .description, .parameter, .example_, .inputs, .outputs, .notes, .link, .component,
    .role, .functionality, .forwardHelpTargetName, .forwardHelpCategory, .remoteHelpRunspace,
    .externalHelp]

/-- The word that starts the section, in capitals. -/
def keyword : HelpSection → String
  | .synopsis => "SYNOPSIS"
  | .description => "DESCRIPTION"
  | .parameter => "PARAMETER"
  | .example_ => "EXAMPLE"
  | .inputs => "INPUTS"
  | .outputs => "OUTPUTS"
  | .notes => "NOTES"
  | .link => "LINK"
  | .component => "COMPONENT"
  | .role => "ROLE"
  | .functionality => "FUNCTIONALITY"
  | .forwardHelpTargetName => "FORWARDHELPTARGETNAME"
  | .forwardHelpCategory => "FORWARDHELPCATEGORY"
  | .remoteHelpRunspace => "REMOTEHELPRUNSPACE"
  | .externalHelp => "EXTERNALHELP"

/-- The section that a word starts, whatever the case of its ASCII letters. -/
def ofWord? (word : List Char) : Option HelpSection :=
  all.find? fun kind => kind.keyword.toList == word.map Char.toUpper

end HelpSection

/-- The help of a function. -/
structure CommentHelp where
  synopsis : Option String := none
  description : Option String := none
  notes : Option String := none
  examples : List String := []
  inputs : List String := []
  outputs : List String := []
  links : List String := []
  component : Option String := none
  role : Option String := none
  functionality : Option String := none
  forwardHelpTargetName : Option String := none
  forwardHelpCategory : Option String := none
  remoteHelpRunspace : Option String := none
  externalHelp : Option String := none
  /-- Texts by upper-case name, each name once. -/
  parameters : List (String × String) := []
  deriving DecidableEq

/-- Two texts of one section: the non-empty ones, on lines of their own. -/
def joinTexts (a b : String) : String :=
  if b.isEmpty then a else if a.isEmpty then b else a ++ "\n" ++ b

/-- A section's text after one more text; the first makes the section present. -/
def mergeText (slot : Option String) (text : String) : Option String :=
  some (match slot with
    | some existing => joinTexts existing text
    | none => text)

/-- The text of a section whose keyword carries its value. -/
def argumentOr (argument : Option String) (text : String) : String :=
  match argument with
  | some argument => joinTexts argument text
  | none => text

namespace CommentHelp

/-- The text of a parameter, whatever the case of its name. -/
def parameter? (help : CommentHelp) (name : String) : Option String :=
  help.parameters.lookup (Text.upper name)

/-- Whether a parameter is documented. -/
def documents (help : CommentHelp) (name : String) : Bool := (help.parameter? name).isSome

/-- Whether nothing is said at all. -/
def isEmpty (help : CommentHelp) : Bool := help = {}

/-- The entries after one more text for `key`. -/
def joinEntry (key text : String) : List (String × String) → List (String × String)
  | [] => [(key, text)]
  | (k, existing) :: entries =>
    if k = key then (k, joinTexts existing text) :: entries
    else (k, existing) :: joinEntry key text entries

/-- One more text for a parameter. -/
def addParameter (help : CommentHelp) (name text : String) : CommentHelp :=
  { help with parameters := joinEntry (Text.upper name) text help.parameters }

/-- One more section with the argument of its keyword. A parameter section without a name has no
    effect. -/
def add (help : CommentHelp) (kind : HelpSection) (argument : Option String) (text : String) :
    CommentHelp :=
  match kind with
  | .synopsis => { help with synopsis := mergeText help.synopsis text }
  | .description => { help with description := mergeText help.description text }
  | .notes => { help with notes := mergeText help.notes text }
  | .component => { help with component := mergeText help.component text }
  | .role => { help with role := mergeText help.role text }
  | .functionality => { help with functionality := mergeText help.functionality text }
  | .example_ => { help with examples := help.examples ++ [text] }
  | .inputs => { help with inputs := help.inputs ++ [text] }
  | .outputs => { help with outputs := help.outputs ++ [text] }
  | .link => { help with links := help.links ++ [text] }
  | .parameter =>
    match argument with
    | some name => help.addParameter name text
    | none => help
  | .forwardHelpTargetName =>
    { help with
      forwardHelpTargetName := mergeText help.forwardHelpTargetName (argumentOr argument text) }
  | .forwardHelpCategory =>
    { help with
      forwardHelpCategory := mergeText help.forwardHelpCategory (argumentOr argument text) }
  | .remoteHelpRunspace =>
    { help with
      remoteHelpRunspace := mergeText help.remoteHelpRunspace (argumentOr argument text) }
  | .externalHelp =>
    { help with externalHelp := mergeText help.externalHelp (argumentOr argument text) }

end CommentHelp

end HelpAudit
