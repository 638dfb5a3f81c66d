import HelpAudit.FileTree

/-! Files that were written. Writing a file keeps every folder and what could be found in it, so that the path
    leads to the file afterwards. Main statement: `read_write`, by which a file has the bytes that were
    written to it. -/

namespace HelpAudit

namespace Entries

variable {α : Type}

theorem lookup_set_self (name : String) (value : α) (entries : List (String × α)) :
    (set name value entries).lookup name = some value := by
  induction entries with
  | nil => simp [set]
  | cons entry entries ih =>
    rw [set]
    split
    · simp
    · have hother : (name == entry.1) = false := by simpa using Ne.symm ‹_›
      rw [List.lookup_cons, hother, ih]

theorem lookup_set_of_ne {name other : String} (h : other ≠ name) (value : α) (entries : List (String × α)) :
    (set name value entries).lookup other = entries.lookup other := by
  have hother : (other == name) = false := by simpa using h
  induction entries with
  | nil => simp [set, List.lookup_cons, hother]
  | cons entry entries ih =>
    rw [set]
    split
    · rename_i heq
      rw [List.lookup_cons, List.lookup_cons, heq, hother]
    · rw [List.lookup_cons, List.lookup_cons, ih]

end Entries

namespace FileTree

theorem get?_append (tree : FileTree) (first second : List String) :
    tree.get? (first ++ second) = (tree.get? first).bind (·.get? second) := by
  induction first generalizing tree with
  | nil => rw [List.nil_append, get?, Option.bind_some]
  | cons name first ih =>
    cases tree with
    | file content => rfl
    | folder entries =>
      rw [List.cons_append, get?, get?]
      cases entries.lookup name with
      | none => rfl
      | some inner => exact ih inner

theorem get?_withTree (tree : FileTree) (names : List String) (root : FileTree) :
    (withTree tree names root).get? names = some tree := by
  induction names generalizing root with
  | nil => rw [withTree, get?]
  | cons name names ih =>
    cases root with
    | file content => simp [withTree, get?, ih]
    | folder entries => simp [withTree, get?, Entries.lookup_set_self, ih]

/-- Every folder is kept, and so are the names in it. -/
def Keeps (old new : FileTree) : Prop :=
  ∀ names entries, old.get? names = some (.folder entries) →
    ∃ others, new.get? names = some (.folder others) ∧
      ∀ name, (entries.lookup name).isSome → (others.lookup name).isSome

theorem keeps_file (content : List UInt8) (new : FileTree) : Keeps (.file content) new := by
  intro names entries h
  cases names with
  | nil => cases h
  | cons name names => cases h

theorem isSome_lookup_set {name other : String} (value : FileTree) {entries : List (String × FileTree)}
    (h : (entries.lookup other).isSome) : ((Entries.set name value entries).lookup other).isSome := by
  by_cases hname : other = name
  · rw [hname, Entries.lookup_set_self]
    rfl
  · rw [Entries.lookup_set_of_ne hname, h]

/-- Folders are kept when a tree takes a place where there is none. -/
theorem keeps_withTree (tree : FileTree) {place : List String} {root : FileTree}
    (hplace : ∀ entries, root.get? place ≠ some (.folder entries)) : Keeps root (withTree tree place root) := by
  induction place generalizing root with
  | nil =>
    cases root with
    | file content => exact keeps_file content _
    | folder entries => exact absurd rfl (hplace entries)
  | cons name place ih =>
    cases root with
    | file content => exact keeps_file content _
    | folder inner =>
      intro names entries h
      cases names with
      | nil =>
        cases h
        exact ⟨_, rfl, fun other hother => isSome_lookup_set _ hother⟩
      | cons first names =>
        rw [get?] at h
        obtain ⟨next, hnext, hentries⟩ := Option.bind_eq_some_iff.mp h
        -- only the way to the place is changed; a folder beside it is the same as before
        by_cases hname : first = name
        · subst hname
          have hinner : ∀ entries, next.get? place ≠ some (.folder entries) := by
            intro entries hfolder
            exact hplace entries (by rw [get?, hnext, Option.bind_some, hfolder])
          obtain ⟨others, hothers, hkeeps⟩ := ih hinner names entries hentries
          refine ⟨others, ?_, hkeeps⟩
          rw [withTree, get?, Entries.lookup_set_self, Option.bind_some, hnext, Option.getD_some, hothers]
        · refine ⟨entries, ?_, fun _ => id⟩
          rw [withTree, get?, Entries.lookup_set_of_ne hname, hnext, Option.bind_some, hentries]

end FileTree

namespace FileSystem

open FileTree

/-- A step that could be taken can still be taken. -/
theorem step_of_keeps {system later : FileSystem} (hkeeps : Keeps system.root later.root) {names found : List String}
    {piece : List Char} (h : system.step names piece = .ok found) : later.step names piece = .ok found := by
  rw [step] at h
  split at h
  · cases h
  · cases h
  · rename_i entries hentries
    obtain ⟨others, hothers, hnames⟩ := hkeeps names entries hentries
    rw [step, hothers]
    simp only [] at h ⊢
    split at h
    · rw [if_pos ‹_›]
      exact h
    · rw [if_neg ‹_›]
      split at h
      · rw [if_pos ‹_›]
        exact h
      · rw [if_neg ‹_›]
        split at h
        · rw [if_pos (hnames _ ‹_›)]
          exact h
        · cases h

theorem foldlM_of_keeps {system later : FileSystem} (hkeeps : Keeps system.root later.root)
    {pieces : List (List Char)} {names found : List String} (h : pieces.foldlM system.step names = .ok found) :
    pieces.foldlM later.step names = .ok found := by
  induction pieces generalizing names with
  | nil => exact h
  | cons piece pieces ih =>
    rw [List.foldlM_cons] at h ⊢
    cases hstep : system.step names piece with
    | error reason =>
      rw [hstep] at h
      cases h
    | ok next =>
      rw [hstep] at h
      rw [step_of_keeps hkeeps hstep]
      exact ih h

/-- A path that leads somewhere finds what is there. -/
theorem find_of_resolve {system : FileSystem} {path : String} {names : List String} {tree : FileTree}
    (hnames : system.resolve path = .ok names) (htree : system.root.get? names = some tree) :
    system.find path = .ok tree := by
  rw [find, hnames]
  simp only [bind, Except.bind, htree]

/-- What is found stands at the place that the path leads to. -/
theorem resolve_of_find {system : FileSystem} {path : String} {tree : FileTree} (h : system.find path = .ok tree) :
    ∃ names, system.resolve path = .ok names ∧ system.root.get? names = some tree := by
  rw [find] at h
  cases hnames : system.resolve path with
  | error reason =>
    rw [hnames] at h
    cases h
  | ok names =>
    refine ⟨names, rfl, ?_⟩
    rw [hnames] at h
    simp only [bind, Except.bind] at h
    split at h
    · rename_i found hfound
      cases h
      exact hfound
    · cases h

theorem get?_dropLast {root : FileTree} {names : List String} (h : (root.get? names).isSome) :
    (root.get? names.dropLast).isSome := by
  rcases List.eq_nil_or_concat names with rfl | ⟨front, name, rfl⟩
  · exact h
  · rw [List.concat_eq_append] at h ⊢
    rw [get?_append] at h
    rw [List.dropLast_concat]
    cases hfront : root.get? front with
    | none =>
      rw [hfront] at h
      cases h
    | some tree => rfl

/-- A path leads on by its last piece. -/
theorem resolve_concat {system : FileSystem} {path : String} (hpath : path.isEmpty = false) {front : List (List Char)}
    {piece : List Char} (hpieces : Path.pieces path = front ++ [piece]) {folder : List String}
    (hfolder : front.foldlM system.step (system.start path) = .ok folder) :
    system.resolve path = system.step folder piece := by
  rw [resolve, if_neg (by simp [hpath]), hpieces, List.foldlM_append, hfolder]
  simp only [bind, Except.bind, List.foldlM_cons, List.foldlM_nil]
  cases system.step folder piece <;> rfl

/-- A new place is a name in a folder that is there. -/
theorem newPlace_eq_ok {system : FileSystem} {path : String} {names : List String}
    (h : system.newPlace path = .ok names) : ∃ front piece folder entries,
      Path.pieces path = front ++ [piece] ∧ piece ≠ [] ∧
      front.foldlM system.step (system.start path) = .ok folder ∧
      system.root.get? folder = some (.folder entries) ∧ names = folder ++ [.ofList piece] := by
  rw [newPlace] at h
  cases hfolder : (Path.pieces path).dropLast.foldlM system.step (system.start path) with
  | error reason =>
    rw [hfolder] at h
    cases h
  | ok folder =>
    rw [hfolder] at h
    simp only [bind, Except.bind] at h
    split at h
    · rename_i entries c cs hentries hlast
      cases h
      obtain ⟨front, hpieces⟩ := List.getLast?_eq_some_iff.mp hlast
      rw [hpieces, List.dropLast_concat] at hfolder
      exact ⟨front, c :: cs, folder, entries, hpieces, by simp, hfolder, hentries, rfl⟩
    · cases h
    · cases h
    · cases h

/-- The last piece of a path that leads nowhere is a new name. -/
theorem get?_of_notFound {system : FileSystem} {path : String} (hpath : path.isEmpty = false)
    (hfind : system.find path = .error .notFound) {front : List (List Char)} {piece : List Char}
    (hpieces : Path.pieces path = front ++ [piece]) (hpiece : piece ≠ []) {folder : List String}
    (hfolder : front.foldlM system.step (system.start path) = .ok folder) {entries : List (String × FileTree)}
    (hentries : system.root.get? folder = some (.folder entries)) :
    piece ≠ ['.'] ∧ piece ≠ ['.', '.'] ∧ system.root.get? (folder ++ [.ofList piece]) = none := by
  have hresolve := resolve_concat hpath hpieces hfolder
  -- a step with the last piece would resolve the path, which leads nowhere
  have hnowhere : ∀ {names}, system.step folder piece = .ok names → system.root.get? names = none := by
    intro names hstep
    cases htree : system.root.get? names with
    | none => rfl
    | some tree => cases hfind.symm.trans (find_of_resolve (hresolve.trans hstep) htree)
  have hhere : piece ≠ ['.'] := by
    rintro rfl
    have hstep : system.step folder ['.'] = .ok folder := by simp [step, hentries]
    cases hentries.symm.trans (hnowhere hstep)
  have hup : piece ≠ ['.', '.'] := by
    rintro rfl
    have hstep : system.step folder ['.', '.'] = .ok folder.dropLast := by simp [step, hentries]
    have hsome := get?_dropLast (show (system.root.get? folder).isSome by rw [hentries]; rfl)
    rw [hnowhere hstep] at hsome
    cases hsome
  refine ⟨hhere, hup, ?_⟩
  rw [get?_append, hentries]
  cases hlookup : entries.lookup (.ofList piece) with
  | none => simp [get?, hlookup]
  | some tree =>
    have hstep : system.step folder piece = .ok (folder ++ [.ofList piece]) := by
      simp [step, hentries, hpiece, hhere, hup, hlookup]
    have hnone := hnowhere hstep
    rw [get?_append, hentries] at hnone
    exact hnone

/-- A file that was written takes the place of an old one, or has a new name. -/
theorem write_eq_ok {system later : FileSystem} {path : String} {content : List UInt8}
    (h : system.write path content = .ok later) : path.isEmpty = false ∧ ∃ names,
      later = { system with root := system.root.withFile content names } ∧
      ((∃ old, system.find path = .ok (.file old) ∧ system.resolve path = .ok names) ∨
        system.find path = .error .notFound ∧ system.newPlace path = .ok names) := by
  rw [write] at h
  cases hpath : path.isEmpty with
  | true =>
    rw [hpath] at h
    cases h
  | false =>
    rw [hpath] at h
    refine ⟨rfl, ?_⟩
    -- what is found decides: a file is replaced, nothing makes room for a new one, and all else is refused
    cases hfind : system.find path with
    | ok tree =>
      rw [hfind] at h
      cases tree with
      | folder entries => cases h
      | file old =>
        cases hnames : system.resolve path with
        | error reason =>
          rw [hnames] at h
          cases h
        | ok names =>
          rw [hnames] at h
          cases h
          exact ⟨names, rfl, .inl ⟨old, rfl, rfl⟩⟩
    | error reason =>
      rw [hfind] at h
      cases reason with
      | notFound =>
        cases hnames : system.newPlace path with
        | error reason =>
          rw [hnames] at h
          cases h
        | ok names =>
          rw [hnames] at h
          cases h
          exact ⟨names, rfl, .inr ⟨rfl, rfl⟩⟩
      | _ => cases h

/-- A file has the bytes that were written to it. -/
theorem read_write {system later : FileSystem} {path : String} {content : List UInt8}
    (h : system.write path content = .ok later) : later.read path = .ok content := by
  obtain ⟨hpath, names, hlater, hplace⟩ := write_eq_ok h
  have hroot : later.root = withTree (.file content) names system.root := by rw [hlater, withFile]
  have hstart : later.start path = system.start path := by rw [hlater, start, start]
  have hcontent : later.root.get? names = some (.file content) := by rw [hroot, get?_withTree]
  -- it is enough that the path leads to the same place as before the writing
  suffices hnames : later.resolve path = .ok names by
    rw [read, find_of_resolve hnames hcontent]
    rfl
  rcases hplace with ⟨old, hfind, hnames⟩ | ⟨hfind, hnew⟩
  · obtain ⟨found, hfound, hold⟩ := resolve_of_find hfind
    obtain rfl : names = found := Except.ok.inj (hnames.symm.trans hfound)
    have hkeeps : Keeps system.root later.root :=
      hroot ▸ keeps_withTree _ fun entries hfolder => by cases hold.symm.trans hfolder
    rw [resolve, if_neg (by simp [hpath])] at hnames ⊢
    rw [hstart]
    exact foldlM_of_keeps hkeeps hnames
  · obtain ⟨front, piece, folder, entries, hpieces, hpiece, hfolder, hentries, rfl⟩ := newPlace_eq_ok hnew
    -- the way to the folder is kept, and its last step finds the new name
    obtain ⟨hhere, hup, hnone⟩ := get?_of_notFound hpath hfind hpieces hpiece hfolder hentries
    have hkeeps : Keeps system.root later.root :=
      hroot ▸ keeps_withTree _ fun entries hother => by cases hnone.symm.trans hother
    obtain ⟨others, hothers, -⟩ := hkeeps folder entries hentries
    have hlookup : others.lookup (.ofList piece) = some (.file content) := by
      rw [get?_append, hothers] at hcontent
      simpa [get?] using hcontent
    rw [← hstart] at hfolder
    rw [resolve_concat hpath hpieces (foldlM_of_keeps hkeeps hfolder)]
    simp [step, hothers, hpiece, hhere, hup, hlookup]

end FileSystem

end HelpAudit
