import HelpAudit.CommandLine.Run
import HelpAudit.Shell.Run
import HelpAudit.Timestamp

/-! The program: reads the files that the command line names, runs the tool on them, and prints and
    writes what it leaves. -/

namespace HelpAudit.Main

/-- The file or folder at a path. Of a folder, the scripts are read; with `deep` also those in the
    folders below. -/
partial def readTree (deep : Bool) (path : String) : IO (Option FileTree) := do
  try
    let place ← IO.FS.realPath path
    if ← place.isDir then
      let mut entries := []
      for entry in ← place.readDir do
        let inner := Path.join path entry.fileName
        if ← entry.path.isDir then
          let tree ← if deep then readTree deep inner else pure (some (.folder []))
          entries := (entry.fileName, tree.getD (.folder [])) :: entries
        else if Path.isScript entry.fileName then
          if let some tree ← readTree deep inner then
            entries := (entry.fileName, tree) :: entries
      return some (.folder entries)
    return some (.file (← IO.FS.readBinFile path).toList)
  catch _ => return none

/-- The file system as far as a request reaches it. -/
def snapshot (request : Request) : IO FileSystem := do
  let here := (Path.parts (← IO.currentDir).toString).filterMap fun part =>
    match part with
    | .name text => some (String.ofList text)
    | _ => none
  let mut system : FileSystem := { root := .withFolder here (.folder []), workingFolder := here }
  let deep := match request with
    | .analyze options => options.recursive
    | _ => false
  for path in request.inputs do
    if let some tree ← readTree deep path then
      system := { system with root := .withTree tree (system.names path) system.root }
  if let some path := request.output? then
    let names := system.names path
    match ← readTree false ("/" ++ "/".intercalate names.dropLast) with
    | some (.folder _) => system := { system with root := .withFolder names.dropLast system.root }
    | _ => pure ()
    if let some (.folder _) ← readTree false path then
      system := { system with root := .withFolder names system.root }
  return system

/-- Whether texts are coloured: as the environment asks, or when a terminal shows them. -/
def wantsColors : IO Bool := do
  let isOn (value : String) : Bool := value ≠ "0"
  if ((← IO.getEnv "CLICOLOR_FORCE").map isOn).getD false then return true
  if (← IO.getEnv "NO_COLOR").isSome then return false
  return ((← IO.getEnv "CLICOLOR").map isOn).getD true && (← (← IO.getStdout).isTty)

/-- The present moment, which is that of a new file. -/
def now : IO Timestamp := do
  let (_, path) ← IO.FS.createTempFile
  let modified := (← path.metadata).modified
  IO.FS.removeFile path
  return { seconds := modified.sec.toNat, nanoseconds := modified.nsec.toNat }

end HelpAudit.Main

/-- Runs the tool with the arguments of the command line. -/
def main (arguments : List String) : IO UInt32 := do
  let system ← match HelpAudit.CommandLine.read arguments with
    | .ok invocation => HelpAudit.Main.snapshot invocation.request
    | .error _ => pure { root := .folder [] }
  let moment ← HelpAudit.Main.now
  let colors ← HelpAudit.Main.wantsColors
  let env : HelpAudit.Environment := {
    system := system
    -- no process is started: scripts are evaluated by the shell of the library
    programs := HelpAudit.Shell.programs
    colors := colors
    time := moment.display }
  let result := HelpAudit.CommandLine.run env arguments
  IO.print result.output
  IO.eprint result.notes
  if let some (path, bytes) := result.written then
    IO.FS.writeBinFile path (ByteArray.mk bytes.toArray)
  return .ofNat result.code
