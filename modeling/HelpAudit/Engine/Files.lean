import HelpAudit.Engine
import HelpAudit.FileTree
import HelpAudit.ScriptText

/-! Analysis of files: scripts in any encoding, and stored trees. -/

namespace HelpAudit.Engine

/-- Analyzes the script at a path. -/
def analyzeFile (engine : Engine) (clock : String → UInt64) (system : FileSystem) (path : String) :
    Analysis :=
  match system.read path with
  | .ok bytes => engine.analyzeSource clock (decodeScript bytes) (some path)
  | .error error => engine.refuse (.unreadable path error.message)

/-- Analyzes the stored tree at a path, which is UTF-8 text. -/
def analyzeTreeFile (engine : Engine) (clock : String → UInt64) (system : FileSystem)
    (path : String) : Analysis :=
  match system.readText path with
  | .ok text => engine.analyzeTreeText clock text (some path)
  | .error error => engine.refuse (.unreadable path error.message)

end HelpAudit.Engine
