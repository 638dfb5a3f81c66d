import HelpAudit.CommentHelp
import HelpAudit.Json

/-! Help records in JSON. Sections that are missing are `null`, and those that may have several
    entries are lists. -/

namespace HelpAudit

def CommentHelp.toJson (help : CommentHelp) : Json :=
  .obj [("synopsis", .ofOption help.synopsis), ("description", .ofOption help.description),
    ("notes", .ofOption help.notes), ("examples", .strings help.examples),
    ("inputs", .strings help.inputs), ("outputs", .strings help.outputs),
    ("links", .strings help.links), ("component", .ofOption help.component),
    ("role", .ofOption help.role), ("functionality", .ofOption help.functionality),
    ("forward_help_target_name", .ofOption help.forwardHelpTargetName),
    ("forward_help_category", .ofOption help.forwardHelpCategory),
    ("remote_help_runspace", .ofOption help.remoteHelpRunspace),
    ("external_help", .ofOption help.externalHelp),
    ("parameters", .obj (help.parameters.map fun (name, text) => (name, .str text)))]

end HelpAudit
