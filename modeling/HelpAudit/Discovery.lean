import HelpAudit.FileTree

/-! Finding the scripts to analyze. Files are taken as they are given; a folder stands for the
    scripts in it. The result is sorted, and of equal paths the first one stays. -/

namespace HelpAudit

namespace FileTree

mutual

/-- The scripts at a path: those in a folder, with `deep` also those in the folders below. -/
def scripts (deep : Bool) (path : String) : FileTree → List String
  | .file _ => if Path.isScript path then [path] else []
  | .folder entries => if deep then entryScripts deep path entries else []

/-- The scripts among the entries of the folder at a path. -/
def entryScripts (deep : Bool) (path : String) : List (String × FileTree) → List String
  | [] => []
  | (name, tree) :: entries =>
    tree.scripts deep (Path.join path name) ++ entryScripts deep path entries

end

end FileTree

/-- A list that starts with `a`, without the elements that are the same as the last one kept. -/
def dropRepeatedAfter {α : Type} (same : α → α → Bool) (a : α) : List α → List α
  | [] => [a]
  | b :: rest =>
    if same a b then dropRepeatedAfter same a rest else a :: dropRepeatedAfter same b rest

/-- The list without the elements that are the same as the last one kept. -/
def dropRepeated {α : Type} (same : α → α → Bool) : List α → List α
  | [] => []
  | a :: rest => dropRepeatedAfter same a rest

/-- The error of an input that does not exist. -/
def missingPath (description path : String) : String := s!"{description} does not exist: {path}"

namespace FileSystem

/-- The files that one input stands for. -/
def inputFiles (system : FileSystem) (deep : Bool) (path : String) : Except String (List String) :=
  match system.find path with
  | .ok (.file _) => .ok [path]
  | .ok (.folder entries) => .ok (FileTree.entryScripts deep path entries)
  | .error _ => .error (missingPath "Input path" path)

/-- The files to analyze. -/
def scriptFiles (system : FileSystem) (inputs : List String) (deep : Bool) :
    Except String (List String) := do
  let found ← inputs.mapM (system.inputFiles deep)
  return dropRepeated (fun a b => Path.parts a = Path.parts b) (found.flatten.mergeSort Path.le)

end FileSystem

end HelpAudit
