import HelpAudit.Proofs.Derivation
import HelpAudit.Proofs.PathOrder
import HelpAudit.Proofs.WrittenFiles

/-! The files that inputs stand for. A file that is given is taken whatever its name; a folder stands for the
    scripts in it, and each is found at the path that the folder and the names below it spell. Since the
    order of paths and their equality agree, the files that are collected do not depend on the order in which
    the inputs are given, but for their spelling. -/

namespace HelpAudit

/-! ### Folders -/

namespace FileTree

/-- Every folder of the tree has names that an entry may have, each once. -/
inductive IsProper : FileTree → Prop where
  | file (content : List UInt8) : IsProper (.file content)
  | folder {entries : List (String × FileTree)} : (entries.map (·.1)).Nodup →
    (∀ entry ∈ entries, Path.IsEntryName entry.1) → (∀ entry ∈ entries, IsProper entry.2) →
    IsProper (.folder entries)

/-- With distinct names, looking an entry up and finding it in the list are the same. -/
theorem lookup_eq_some_iff {entries : List (String × FileTree)} (h : (entries.map (·.1)).Nodup)
    {name : String} {tree : FileTree} : entries.lookup name = some tree ↔ (name, tree) ∈ entries := by
  induction entries with
  | nil => simp
  | cons entry entries ih =>
    obtain ⟨hnew, hrest⟩ := List.nodup_cons.mp h
    obtain ⟨other, first⟩ := entry
    by_cases hname : name = other
    · subst hname
      have hnot : (name, tree) ∉ entries := fun hmem => hnew (List.mem_map_of_mem (f := (·.1)) hmem)
      simp [hnot, eq_comm]
    · have hbeq : (name == other) = false := by simpa using hname
      rw [List.lookup_cons, hbeq, List.mem_cons]
      simp [ih hrest, hname]

/-- What is at the end of names is below the entry with the first of them. -/
theorem get?_cons_iff {entries : List (String × FileTree)} (h : (entries.map (·.1)).Nodup) {name : String}
    {names : List String} {tree : FileTree} : (folder entries).get? (name :: names) = some tree ↔
      ∃ entry ∈ entries, entry.1 = name ∧ entry.2.get? names = some tree := by
  rw [get?, Option.bind_eq_some_iff]
  constructor
  · rintro ⟨inner, hlookup, hget⟩
    exact ⟨(name, inner), (lookup_eq_some_iff h).mp hlookup, rfl, hget⟩
  · rintro ⟨⟨_, inner⟩, hmem, rfl, hget⟩
    exact ⟨inner, (lookup_eq_some_iff h).mpr hmem, hget⟩

/-- What is found in a proper tree is proper, and the way to it goes by names of entries. -/
theorem IsProper.get? {root tree : FileTree} (h : root.IsProper) {names : List String}
    (hget : root.get? names = some tree) : tree.IsProper ∧ ∀ name ∈ names, Path.IsEntryName name := by
  induction names generalizing root with
  | nil =>
    cases hget
    exact ⟨h, fun _ h => absurd h List.not_mem_nil⟩
  | cons name names ih =>
    cases h with
    | file => cases hget
    | folder hnodup hnames hentries =>
      obtain ⟨entry, hmem, rfl, hinner⟩ := (get?_cons_iff hnodup).mp hget
      obtain ⟨htree, hrest⟩ := ih (hentries entry hmem) hinner
      exact ⟨htree, List.forall_mem_cons.mpr ⟨hnames entry hmem, hrest⟩⟩

theorem entryScripts_eq (deep : Bool) (path : String) (entries : List (String × FileTree)) :
    entryScripts deep path entries = entries.flatMap fun entry => entry.2.scripts deep (Path.join path entry.1) := by
  induction entries with
  | nil => rfl
  | cons entry entries ih => rw [entryScripts, ih, List.flatMap_cons]

/-- The file at the end of the names is a script that counts: at once, or anywhere below with `deep`. -/
def HasScript (deep : Bool) (path : String) (tree : FileTree) (names : List String) : Prop :=
  (∃ content, tree.get? names = some (.file content)) ∧ (deep = true ∨ names = []) ∧
    Path.isScript (Path.below path names) = true

theorem mem_entryScripts_of_entries {deep : Bool} {path script : String} {entries : List (String × FileTree)}
    (hnodup : (entries.map (·.1)).Nodup)
    (h : ∀ entry ∈ entries, ∀ path, script ∈ entry.2.scripts deep path ↔
      ∃ names, HasScript deep path entry.2 names ∧ script = Path.below path names) :
    script ∈ entryScripts deep path entries ↔ ∃ name names content,
      (folder entries).get? (name :: names) = some (.file content) ∧ (deep = true ∨ names = []) ∧
      Path.isScript script = true ∧ script = Path.below path (name :: names) := by
  rw [entryScripts_eq, List.mem_flatMap]
  constructor
  · rintro ⟨entry, hmem, hscript⟩
    obtain ⟨names, ⟨⟨content, hget⟩, hdeep, hname⟩, rfl⟩ := (h entry hmem _).mp hscript
    exact ⟨entry.1, names, content, (get?_cons_iff hnodup).mpr ⟨entry, hmem, rfl, hget⟩, hdeep, hname, rfl⟩
  · rintro ⟨name, names, content, hget, hdeep, hname, rfl⟩
    obtain ⟨entry, hmem, rfl, hinner⟩ := (get?_cons_iff hnodup).mp hget
    exact ⟨entry, hmem, (h entry hmem _).mpr ⟨names, ⟨⟨content, hinner⟩, hdeep, hname⟩, rfl⟩⟩

/-- The scripts of a tree are the files in it whose names are those of scripts. -/
theorem IsProper.mem_scripts {tree : FileTree} (h : tree.IsProper) (deep : Bool) (path script : String) :
    script ∈ tree.scripts deep path ↔
      ∃ names, HasScript deep path tree names ∧ script = Path.below path names := by
  induction h generalizing path with
  | file content =>
    rw [scripts]
    constructor
    · intro hscript
      split at hscript
      · obtain rfl := List.mem_singleton.mp hscript
        exact ⟨[], ⟨⟨content, rfl⟩, .inr rfl, ‹_›⟩, rfl⟩
      · cases hscript
    · rintro ⟨names, ⟨⟨content, hget⟩, -, hname⟩, rfl⟩
      cases names with
      | nil =>
        have hpath : Path.isScript path = true := hname
        rw [if_pos hpath]
        exact List.mem_singleton_self path
      | cons name names => cases hget
  -- the induction hypothesis is about the entries with the paths that they have below this folder
  | @folder entries hnodup hnames hentries ih =>
    rw [scripts]
    constructor
    · intro hscript
      split at hscript
      · rename_i hdeep
        obtain ⟨name, names, content, hget, -, hname, rfl⟩ := (mem_entryScripts_of_entries hnodup ih).mp hscript
        exact ⟨name :: names, ⟨⟨content, hget⟩, .inl hdeep, hname⟩, rfl⟩
      · cases hscript
    · rintro ⟨names, ⟨⟨content, hget⟩, hdeep, hname⟩, rfl⟩
      cases names with
      | nil => cases hget
      | cons name names =>
        obtain hdeep : deep = true := hdeep.resolve_right (List.cons_ne_nil _ _)
        rw [if_pos hdeep]
        exact (mem_entryScripts_of_entries hnodup ih).mpr ⟨name, names, content, hget, .inl hdeep, hname, rfl⟩

theorem IsProper.mem_entryScripts {entries : List (String × FileTree)} (h : (FileTree.folder entries).IsProper)
    {deep : Bool} {path script : String} : script ∈ entryScripts deep path entries ↔ ∃ name names content,
      (FileTree.folder entries).get? (name :: names) = some (.file content) ∧ (deep = true ∨ names = []) ∧
      Path.isScript script = true ∧ script = Path.below path (name :: names) := by
  cases h with
  | folder hnodup hnames hentries =>
    exact mem_entryScripts_of_entries hnodup fun entry hmem path => (hentries entry hmem).mem_scripts deep path script

end FileTree

/-! ### Where the entries of a folder are found -/

namespace FileSystem

variable {system : FileSystem} {folder : String}

theorem ne_nil_of_find {path : String} {tree : FileTree} (h : system.find path = .ok tree) : path.toList ≠ [] := by
  intro hpath
  obtain ⟨names, hnames, -⟩ := resolve_of_find h
  rw [resolve, if_pos (by simpa using hpath)] at hnames
  cases hnames

theorem eq_of_step_nil {names found : List String} (h : system.step names [] = .ok found) : found = names := by
  rw [step] at h
  split at h
  · cases h
  · cases h
  · rw [if_pos (.inl rfl)] at h
    exact (Except.ok.inj h).symm

/-- The pieces of a path to a folder lead to it without the slash at the end. -/
theorem foldlM_front {names : List String} (h : system.resolve folder = .ok names) {front : List (List Char)}
    (hpieces : Path.pieces folder = front ∨ Path.pieces folder = front ++ [[]]) :
    front.foldlM system.step (system.start folder) = .ok names := by
  rw [resolve] at h
  split at h
  · cases h
  · rcases hpieces with hpieces | hpieces
    · rwa [hpieces] at h
    · rw [hpieces, List.foldlM_append] at h
      obtain ⟨found, hfront, hlast⟩ := bind_eq_ok.mp h
      rw [List.foldlM_cons] at hlast
      obtain ⟨last, hstep, hlast⟩ := bind_eq_ok.mp hlast
      cases hlast
      rwa [eq_of_step_nil hstep]

/-- An entry of a folder is found at the folder's path and its name. -/
theorem find_join {entries : List (String × FileTree)} (hfind : system.find folder = .ok (.folder entries))
    {name : String} (hname : Path.IsEntryName name) {tree : FileTree} (hlookup : entries.lookup name = some tree) :
    system.find (Path.join folder name) = .ok tree := by
  have hfolder := ne_nil_of_find hfind
  obtain ⟨names, hresolve, hnames⟩ := resolve_of_find hfind
  obtain ⟨front, -, hpieces, hfront⟩ := Path.pieces_join folder hname
  have hstart : system.start (Path.join folder name) = system.start folder := by
    rw [start, Path.head?_join name hfolder, start]
  have hstep : system.step names name.toList = .ok (names ++ [name]) := by
    simp [step, hnames, hname.nonempty, hname.not_here, hname.not_up, hlookup]
  have hne : (Path.join folder name).toList ≠ [] := Path.join_ne_nil hfolder
  have hjoin : (Path.join folder name).isEmpty = false := by simpa using hne
  refine find_of_resolve ((resolve_concat hjoin hpieces (hstart ▸ foldlM_front hresolve hfront)).trans hstep) ?_
  rw [FileTree.get?_append, hnames, Option.bind_some, FileTree.get?, hlookup, Option.bind_some, FileTree.get?]

/-- What is below a folder is found at the path that the names spell. -/
theorem find_below {tree found : FileTree} (hproper : tree.IsProper) (hfind : system.find folder = .ok tree)
    {names : List String} (hget : tree.get? names = some found) :
    system.find (Path.below folder names) = .ok found := by
  induction names generalizing folder tree with
  | nil =>
    cases hget
    exact hfind
  | cons name names ih =>
    cases hproper with
    | file => cases hget
    | folder hnodup hnames hentries =>
      obtain ⟨entry, hmem, rfl, hinner⟩ := (FileTree.get?_cons_iff hnodup).mp hget
      have hlookup := (FileTree.lookup_eq_some_iff hnodup).mpr hmem
      exact ih (hentries entry hmem) (find_join hfind (hnames entry hmem) hlookup) hinner

theorem isProper_of_find (hroot : system.root.IsProper) {path : String} {tree : FileTree}
    (h : system.find path = .ok tree) : tree.IsProper := by
  obtain ⟨names, -, hget⟩ := resolve_of_find h
  exact (hroot.get? hget).1

/-! ### The files of one input -/

/-- The files that an input stands for, by the parts of their paths: itself, or the scripts that are entries
    of the folder, with `deep` also those further below. -/
inductive StandsFor (system : FileSystem) (deep : Bool) (input : String) : List Path.Part → Prop where
  | file {content : List UInt8} : system.find input = .ok (.file content) →
    StandsFor system deep input (Path.parts input)
  | entry {entries : List (String × FileTree)} {names : List String} {name : String} {content : List UInt8} :
    system.find input = .ok (.folder entries) →
    (FileTree.folder entries).get? (names ++ [name]) = some (.file content) → (deep = true ∨ names = []) →
    Path.IsScriptName name →
    StandsFor system deep input (Path.parts input ++ (names ++ [name]).map fun name => .name name.toList)

theorem StandsFor.deep {input : String} {parts : List Path.Part} (h : StandsFor system false input parts) :
    StandsFor system true input parts := by
  cases h with
  | file hfind => exact .file hfind
  | entry hfind hget _ hname => exact .entry hfind hget (.inl rfl) hname

theorem isScript_below {names : List String} {name : String} (hfolder : folder.toList ≠ [])
    (hnames : ∀ other ∈ names ++ [name], Path.IsEntryName other) :
    Path.isScript (Path.below folder (names ++ [name])) = true ↔ Path.IsScriptName name := by
  have hparts : Path.parts (Path.below folder (names ++ [name])) =
      (Path.parts folder ++ names.map fun name => .name name.toList) ++ [.name name.toList] := by
    rw [Path.parts_below hfolder hnames, List.map_append, List.append_assoc, List.map_singleton]
  exact Path.isScript_iff hparts

section Folder

variable {deep : Bool} {entries : List (String × FileTree)} (hproper : (FileTree.folder entries).IsProper)
  (hfind : system.find folder = .ok (.folder entries))

include hproper hfind

/-- Each script that is collected from a folder is one that the folder stands for. -/
theorem standsFor_of_mem_entryScripts {script : String} (h : script ∈ FileTree.entryScripts deep folder entries) :
    StandsFor system deep folder (Path.parts script) := by
  have hfolder := ne_nil_of_find hfind
  obtain ⟨first, rest, content, hget, hdeep, hscript, rfl⟩ := hproper.mem_entryScripts.mp h
  -- the walk splits off the first name, the extension belongs to the last
  obtain ⟨names, name, hlast⟩ := (List.eq_nil_or_concat (first :: rest)).resolve_left (List.cons_ne_nil _ _)
  rw [List.concat_eq_append] at hlast
  have hshort : deep = true ∨ names = [] := hdeep.imp_right fun hrest => by
    rw [hrest] at hlast
    exact List.eq_nil_of_length_eq_zero (by simpa using (congrArg List.length hlast).symm)
  rw [hlast] at hget hscript ⊢
  have hnames := (hproper.get? hget).2
  rw [Path.parts_below hfolder hnames]
  exact .entry hfind hget hshort ((isScript_below hfolder hnames).mp hscript)

/-- Each file that a folder stands for is collected. -/
theorem mem_entryScripts_of_standsFor {parts : List Path.Part} (h : StandsFor system deep folder parts) :
    ∃ script ∈ FileTree.entryScripts deep folder entries, Path.parts script = parts := by
  have hfolder := ne_nil_of_find hfind
  cases h with
  | file hfile =>
    rw [hfind] at hfile
    cases hfile
  | @entry others names name content hothers hget hdeep hname =>
    rw [hfind] at hothers
    cases hothers
    have hnames := (hproper.get? hget).2
    refine ⟨Path.below folder (names ++ [name]), ?_, Path.parts_below hfolder hnames⟩
    have hscript := (isScript_below hfolder hnames).mpr hname
    -- the names are known from their last one, the walk through the folder goes by the first one
    obtain ⟨first, rest, hfirst⟩ := List.exists_cons_of_ne_nil
      (List.append_ne_nil_of_right_ne_nil names (List.cons_ne_nil name []))
    have hrest : deep = true ∨ rest = [] := hdeep.imp_right fun hshort => by
      rw [hshort, List.nil_append] at hfirst
      exact (List.cons.inj hfirst).2.symm
    rw [hfirst] at hget hscript ⊢
    exact hproper.mem_entryScripts.mpr ⟨first, rest, content, hget, hrest, hscript, rfl⟩

theorem find_of_mem_entryScripts {script : String} (h : script ∈ FileTree.entryScripts deep folder entries) :
    ∃ content, system.find script = .ok (.file content) := by
  obtain ⟨first, rest, content, hget, -, -, rfl⟩ := hproper.mem_entryScripts.mp h
  exact ⟨content, find_below hproper hfind hget⟩

end Folder

theorem exists?_iff {path : String} : system.exists? path = true ↔ ∃ tree, system.find path = .ok tree := by
  rw [exists?]
  cases system.find path <;> simp [Except.toBool]

theorem inputFiles_eq_ok_iff {deep : Bool} {input : String} :
    (∃ files, system.inputFiles deep input = .ok files) ↔ system.exists? input = true := by
  rw [exists?_iff, inputFiles]
  split <;> simp_all

/-- The files of an input are those that it stands for, and they can be found. -/
theorem mem_inputFiles (hroot : system.root.IsProper) {deep : Bool} {input : String} {files : List String}
    (h : system.inputFiles deep input = .ok files) :
    (∀ parts, parts ∈ files.map Path.parts ↔ StandsFor system deep input parts) ∧
    ∀ file ∈ files, ∃ content, system.find file = .ok (.file content) := by
  rw [inputFiles] at h
  split at h
  · rename_i content hfind
    cases h
    refine ⟨fun parts => ?_, fun file hfile => ⟨content, List.mem_singleton.mp hfile ▸ hfind⟩⟩
    rw [List.map_singleton, List.mem_singleton]
    constructor
    · rintro rfl
      exact .file hfind
    · intro hstands
      cases hstands with
      | file => rfl
      | entry hfolder => rw [hfind] at hfolder; cases hfolder
  · rename_i entries hfind
    cases h
    have hproper := isProper_of_find hroot hfind
    refine ⟨fun parts => ?_, fun file => find_of_mem_entryScripts hproper hfind⟩
    rw [List.mem_map]
    constructor
    · rintro ⟨script, hscript, rfl⟩
      exact standsFor_of_mem_entryScripts hproper hfind hscript
    · exact mem_entryScripts_of_standsFor hproper hfind
  · cases h

/-! ### All inputs -/

theorem mapM_eq_ok_iff {ε α β : Type} {f : α → Except ε β} {l : List α} :
    (∃ found, l.mapM f = .ok found) ↔ ∀ a ∈ l, ∃ b, f a = .ok b := by
  induction l with
  | nil => simp [pure, Except.pure]
  | cons a l ih =>
    rw [List.forall_mem_cons, ← ih, List.mapM_cons]
    constructor
    · rintro ⟨found, h⟩
      obtain ⟨b, hb, h⟩ := bind_eq_ok.mp h
      obtain ⟨rest, hrest, -⟩ := bind_eq_ok.mp h
      exact ⟨⟨b, hb⟩, rest, hrest⟩
    · rintro ⟨⟨b, hb⟩, rest, hrest⟩
      exact ⟨b :: rest, bind_eq_ok.mpr ⟨b, hb, bind_eq_ok.mpr ⟨rest, hrest, rfl⟩⟩⟩

theorem mem_of_mapM_eq_ok {ε α β : Type} {f : α → Except ε β} {l : List α} {found : List β}
    (h : l.mapM f = .ok found) (b : β) : b ∈ found ↔ ∃ a ∈ l, f a = .ok b := by
  induction l generalizing found with
  | nil =>
    cases h
    simp
  | cons a l ih =>
    rw [List.mapM_cons] at h
    obtain ⟨first, hfirst, h⟩ := bind_eq_ok.mp h
    obtain ⟨rest, hrest, h⟩ := bind_eq_ok.mp h
    cases h
    simp [ih hrest, hfirst, eq_comm]

/-- The files are those that the inputs stand for, each once and in the order of the parts. -/
structure Collects (system : FileSystem) (inputs : List String) (deep : Bool) (files : List String) : Prop where
  increasing : (files.map Path.parts).Pairwise (· < ·)
  complete : ∀ parts, parts ∈ files.map Path.parts ↔ ∃ input ∈ inputs, StandsFor system deep input parts
  found : ∀ file ∈ files, ∃ content, system.find file = .ok (.file content)

theorem scriptFiles_eq_ok_iff {inputs : List String} {deep : Bool} :
    (∃ files, system.scriptFiles inputs deep = .ok files) ↔ ∀ input ∈ inputs, system.exists? input = true := by
  have hinputs : (∃ found, inputs.mapM (system.inputFiles deep) = .ok found) ↔
      ∀ input ∈ inputs, system.exists? input = true := by
    simp only [mapM_eq_ok_iff, inputFiles_eq_ok_iff]
  rw [← hinputs]
  constructor
  · rintro ⟨files, h⟩
    obtain ⟨found, hfound, -⟩ := bind_eq_ok.mp h
    exact ⟨found, hfound⟩
  · rintro ⟨found, hfound⟩
    exact ⟨_, bind_eq_ok.mpr ⟨found, hfound, rfl⟩⟩

/-- Sorting and dropping repeated paths leaves what the inputs stand for. -/
theorem collects_of_scriptFiles (hroot : system.root.IsProper) {inputs files : List String} {deep : Bool}
    (h : system.scriptFiles inputs deep = .ok files) : Collects system inputs deep files := by
  obtain ⟨found, hfound, hfiles⟩ := bind_eq_ok.mp h
  cases hfiles
  -- order and repetition are settled for paths in general; what is left is membership
  obtain ⟨hincreasing, hmem⟩ := Path.sorted_paths found.flatten
  have hinput (list : List String) := mem_of_mapM_eq_ok hfound list
  refine ⟨hincreasing, fun parts => (hmem parts).trans ?_, fun file hfile => ?_⟩
  · rw [List.mem_map]
    constructor
    · rintro ⟨file, hfile, rfl⟩
      obtain ⟨list, hlist, hfile⟩ := List.mem_flatten.mp hfile
      obtain ⟨input, hmem, hgives⟩ := (hinput list).mp hlist
      exact ⟨input, hmem, ((mem_inputFiles hroot hgives).1 _).mp (List.mem_map_of_mem hfile)⟩
    · rintro ⟨input, hmem, hstands⟩
      obtain ⟨list, hgives⟩ := mapM_eq_ok_iff.mp ⟨found, hfound⟩ input hmem
      obtain ⟨file, hfile, hparts⟩ := List.mem_map.mp (((mem_inputFiles hroot hgives).1 parts).mpr hstands)
      exact ⟨file, List.mem_flatten.mpr ⟨list, (hinput list).mpr ⟨input, hmem, hgives⟩, hfile⟩, hparts⟩
  · have hfile := List.mem_mergeSort.mp (Path.mem_of_mem_dropRepeated hfile)
    obtain ⟨list, hlist, hfile⟩ := List.mem_flatten.mp hfile
    obtain ⟨input, -, hgives⟩ := (hinput list).mp hlist
    exact (mem_inputFiles hroot hgives).2 file hfile

theorem antisymm_parts : Std.Antisymm (fun a b : List Path.Part => a < b) :=
  ⟨fun _ _ h h' => absurd h' (Std.Asymm.asymm _ _ h)⟩

/-- A list that increases is fixed by its elements, so the order of the inputs does not matter. -/
theorem Collects.eq_of_perm {inputs others files same : List String} {deep : Bool}
    (h : Collects system inputs deep files) (hsame : Collects system others deep same)
    (hperm : inputs.Perm others) : same.map Path.parts = files.map Path.parts := by
  have := antisymm_parts
  refine hsame.increasing.eq_of_mem_iff h.increasing fun parts => ?_
  rw [hsame.complete, h.complete]
  simp only [hperm.mem_iff]

/-- Two increasing lists of which one has the members of the other, and maybe more. -/
theorem Collects.sublist_deep {inputs flat all : List String} (hflat : Collects system inputs false flat)
    (hall : Collects system inputs true all) : (flat.map Path.parts).Sublist (all.map Path.parts) := by
  have := antisymm_parts
  refine List.sublist_of_subperm_of_pairwise (List.subperm_of_subset hflat.increasing.nodup ?_)
    hflat.increasing hall.increasing
  intro parts hparts
  obtain ⟨input, hmem, hstands⟩ := (hflat.complete parts).mp hparts
  exact (hall.complete parts).mpr ⟨input, hmem, hstands.deep⟩

/-- A folder with scripts in two spellings of the extension, a text and a script further below. -/
def nestedFolders : FileSystem where
  root := .folder [("n", .folder [("b.PS1", .file []), ("t.txt", .file []), ("a.ps1", .file []),
    ("m", .folder [("c.psm1", .file [])])])]

theorem nestedFolders_isProper : nestedFolders.root.IsProper := by
  have hname : ∀ name ∈ ["n", "b.PS1", "t.txt", "a.ps1", "m", "c.psm1"], Path.IsEntryName name := by
    simp only [List.forall_mem_cons]
    refine ⟨?_, ?_, ?_, ?_, ?_, ?_, fun _ h => absurd h List.not_mem_nil⟩ <;> constructor <;> decide
  simp only [List.forall_mem_cons] at hname
  obtain ⟨hn, hb, ht, ha, hm, hc, -⟩ := hname
  have hinner : (FileTree.folder [("c.psm1", .file [])]).IsProper :=
    .folder (by decide) (by simpa using hc) (by simpa using FileTree.IsProper.file [])
  have hfile : (FileTree.file []).IsProper := .file []
  have hfolder : (FileTree.folder [("b.PS1", .file []), ("t.txt", .file []), ("a.ps1", .file []),
      ("m", .folder [("c.psm1", .file [])])]).IsProper :=
    .folder (by decide) (by simp [hb, ht, ha, hm]) (by simp [hfile, hinner])
  exact .folder (by decide) (by simpa using hn) (by simpa using hfolder)

/-- The files to analyze cannot be told only if an input does not exist. Otherwise they are the files that the
    inputs stand for, in the order of paths and without repetition; another order of the inputs changes no
    more than how paths are spelled, and the files without those further below are some of all. -/
theorem scriptFiles_collects (system : FileSystem) (hroot : system.root.IsProper) (inputs : List String)
    (deep : Bool) :
    ((∃ message, system.scriptFiles inputs deep = .error message) ↔
      ∃ input ∈ inputs, system.exists? input = false) ∧
    ∀ files, system.scriptFiles inputs deep = .ok files →
      Collects system inputs deep files ∧ (files.map Path.parts).Nodup ∧
      (∀ others, inputs.Perm others → ∃ same, system.scriptFiles others deep = .ok same ∧
        same.map Path.parts = files.map Path.parts) ∧
      ∃ flat all, system.scriptFiles inputs false = .ok flat ∧ system.scriptFiles inputs true = .ok all ∧
        (flat.map Path.parts).Sublist (all.map Path.parts) := by
  refine ⟨?_, fun files h => ?_⟩
  · have hfails : (∃ message, system.scriptFiles inputs deep = .error message) ↔
        ¬∃ files, system.scriptFiles inputs deep = .ok files := by
      cases system.scriptFiles inputs deep <;> simp
    rw [hfails, scriptFiles_eq_ok_iff]
    simp
  · have hexist := scriptFiles_eq_ok_iff.mp ⟨files, h⟩
    have hcollects := collects_of_scriptFiles hroot h
    refine ⟨hcollects, hcollects.increasing.nodup, fun others hperm => ?_, ?_⟩
    · obtain ⟨same, hsame⟩ := scriptFiles_eq_ok_iff.mpr fun input hmem => hexist input (hperm.mem_iff.mpr hmem)
      exact ⟨same, hsame, hcollects.eq_of_perm (collects_of_scriptFiles hroot hsame) hperm⟩
    · obtain ⟨flat, hflat⟩ := scriptFiles_eq_ok_iff.mpr hexist
      obtain ⟨all, hall⟩ := scriptFiles_eq_ok_iff.mpr hexist
      exact ⟨flat, all, hflat, hall,
        (collects_of_scriptFiles hroot hflat).sublist_deep (collects_of_scriptFiles hroot hall)⟩

/-- One of the scripts is given again in another spelling, and the text by itself. -/
theorem scriptFiles_collects_overlapping :
    nestedFolders.root.IsProper ∧
    nestedFolders.scriptFiles ["n/", "n//a.ps1", "n/t.txt"] false = .ok ["n/a.ps1", "n/b.PS1", "n/t.txt"] ∧
    Collects nestedFolders ["n/", "n//a.ps1", "n/t.txt"] false ["n/a.ps1", "n/b.PS1", "n/t.txt"] ∧
    ∃ same, nestedFolders.scriptFiles ["n/t.txt", "n//a.ps1", "n/"] false = .ok same ∧
      same.map Path.parts = ["n/a.ps1", "n/b.PS1", "n/t.txt"].map Path.parts := by
  have hfound : ["n/", "n//a.ps1", "n/t.txt"].mapM (nestedFolders.inputFiles false) =
      .ok [["n/b.PS1", "n/a.ps1"], ["n//a.ps1"], ["n/t.txt"]] := by decide +kernel
  -- the sort does not evaluate, so the comparisons that it makes are given to it
  have hsorted : ["n/b.PS1", "n/a.ps1", "n//a.ps1", "n/t.txt"].mergeSort Path.le =
      ["n/a.ps1", "n//a.ps1", "n/b.PS1", "n/t.txt"] := by
    have h₁ : Path.le "n/b.PS1" "n/a.ps1" = false := by decide +kernel
    have h₂ : Path.le "n//a.ps1" "n/t.txt" = true := by decide +kernel
    have h₃ : Path.le "n/a.ps1" "n//a.ps1" = true := by decide +kernel
    have h₄ : Path.le "n/b.PS1" "n//a.ps1" = false := by decide +kernel
    have h₅ : Path.le "n/b.PS1" "n/t.txt" = true := by decide +kernel
    simp [List.mergeSort, h₁, h₂, h₃, h₄, h₅]
  have hfiles : nestedFolders.scriptFiles ["n/", "n//a.ps1", "n/t.txt"] false =
      .ok ["n/a.ps1", "n/b.PS1", "n/t.txt"] := by
    refine bind_eq_ok.mpr ⟨_, hfound, congrArg Except.ok ?_⟩
    change dropRepeated _ (["n/b.PS1", "n/a.ps1", "n//a.ps1", "n/t.txt"].mergeSort Path.le) = _
    rw [hsorted]
    decide +kernel
  obtain ⟨hcollects, -, hperm, -⟩ := (scriptFiles_collects nestedFolders nestedFolders_isProper _ false).2 _ hfiles
  exact ⟨nestedFolders_isProper, hfiles, hcollects, hperm _ (by decide)⟩

end FileSystem

end HelpAudit
