import HelpAudit.Discovery
import HelpAudit.Proofs.ParameterHelp
import Mathlib.Data.List.Sort
import Mathlib.Data.List.TakeWhile

/-! Paths by their parts. The order of paths is a strict total order of their parts, so that neighbours in a
    sorted list are the same path whenever two paths of the list are. The path of an entry has one part more
    than its folder, however the folder is spelled. -/

namespace HelpAudit.Path

/-! ### The order of parts -/

theorem Part.eq_of_rank_text {a b : Part} (hrank : a.rank = b.rank) (htext : a.text = b.text) : a = b := by
  cases a <;> cases b <;> cases hrank
  · rfl
  · rfl
  · rfl
  · exact congrArg Part.name htext

instance : Std.Irrefl (α := Part) (· < ·) where
  irrefl a h := by
    rcases h with h | ⟨-, h⟩
    · exact Nat.lt_irrefl _ h
    · exact List.lt_irrefl _ h

instance : Trans (α := Part) (β := Part) (γ := Part) (· < ·) (· < ·) (· < ·) where
  trans {a b c} hab hbc := by
    rcases hab with hab | ⟨hab, htext⟩
    · rcases hbc with hbc | ⟨hbc, -⟩
      · exact .inl (Nat.lt_trans hab hbc)
      · exact .inl (hbc ▸ hab)
    · rcases hbc with hbc | ⟨hbc, htext'⟩
      · exact .inl (hab ▸ hbc)
      · exact .inr ⟨hab.trans hbc, List.lt_trans htext htext'⟩

instance : Std.Asymm (α := Part) (· < ·) where
  asymm a _ hab hba := Std.Irrefl.irrefl a (Trans.trans hab hba : a < a)

instance : Std.Trichotomous (α := Part) (· < ·) where
  trichotomous a b hab hba := by
    obtain ⟨hrank, htext⟩ := not_or.mp hab
    obtain ⟨hrank', htext'⟩ := not_or.mp hba
    have heq : a.rank = b.rank := Nat.le_antisymm (Nat.le_of_not_lt hrank') (Nat.le_of_not_lt hrank)
    refine Part.eq_of_rank_text heq (List.le_antisymm ?_ ?_)
    · exact fun h => htext' ⟨heq.symm, h⟩
    · exact fun h => htext ⟨heq, h⟩

/-! ### The order of paths -/

theorem le_iff {a b : String} : le a b = true ↔ ¬parts b < parts a := by
  rw [le, Bool.not_eq_true', decide_eq_false_iff_not]

theorem lt_of_not_lt_of_ne {a b : List Part} (h : ¬b < a) (hne : a ≠ b) : a < b := by
  by_contra hnot
  exact hne (List.le_antisymm h hnot)

theorem le_trans (a b c : String) (hab : le a b = true) (hbc : le b c = true) : le a c = true := by
  rw [le_iff] at hab hbc ⊢
  intro hca
  by_cases heq : parts a = parts b
  · exact hbc (heq ▸ hca)
  · exact hbc (List.lt_trans hca (lt_of_not_lt_of_ne hab heq))

theorem le_total (a b : String) : (le a b || le b a) = true := by
  rw [Bool.or_eq_true, le_iff, le_iff]
  by_cases h : parts b < parts a
  · exact .inr (List.lt_asymm h)
  · exact .inl h

/-! ### Sorted paths -/

section

variable {α β : Type} [DecidableEq β]

/-- Repetitions can be dropped before or after a projection that they are compared by. -/
theorem map_dropRepeatedAfter (f : α → β) (a : α) (l : List α) :
    (dropRepeatedAfter (fun a b => f a = f b) a l).map f =
      dropRepeatedAfter (fun a b => a = b) (f a) (l.map f) := by
  induction l generalizing a with
  | nil => rfl
  | cons b l ih =>
    rw [dropRepeatedAfter, List.map_cons, dropRepeatedAfter]
    split
    · exact ih a
    · rw [List.map_cons, ih b]

theorem mem_dropRepeatedAfter {a b : β} {l : List β} :
    b ∈ dropRepeatedAfter (fun a b => a = b) a l ↔ b ∈ a :: l := by
  induction l generalizing a with
  | nil => rfl
  | cons c l ih =>
    rw [dropRepeatedAfter]
    split
    · rename_i heq
      obtain rfl : a = c := of_decide_eq_true heq
      rw [ih, List.mem_cons, List.mem_cons, List.mem_cons, or_self_left]
    · rw [List.mem_cons, ih, List.mem_cons (a := b) (b := a)]

end

/-- Of parts that do not decrease, those that differ from the last one kept increase. -/
theorem pairwise_dropRepeatedAfter {a : List Part} {l : List (List Part)}
    (h : (a :: l).Pairwise fun a b => ¬b < a) :
    (dropRepeatedAfter (fun a b => a = b) a l).Pairwise (· < ·) := by
  induction l generalizing a with
  | nil => exact List.pairwise_singleton _ _
  | cons b l ih =>
    obtain ⟨hfirst, hrest⟩ := List.pairwise_cons.mp h
    rw [dropRepeatedAfter]
    split
    · rename_i heq
      obtain rfl : a = b := of_decide_eq_true heq
      exact ih hrest
    · rename_i hne
      have hab : a < b := lt_of_not_lt_of_ne (hfirst b List.mem_cons_self) (by simpa using hne)
      refine List.pairwise_cons.mpr ⟨fun c hc => ?_, ih hrest⟩
      -- what is kept does not come before `b`
      rcases List.mem_cons.mp (mem_dropRepeatedAfter.mp hc) with rfl | hc
      · exact hab
      · by_cases hbc : b = c
        · exact hbc ▸ hab
        · exact List.lt_trans hab (lt_of_not_lt_of_ne ((List.pairwise_cons.mp hrest).1 c hc) hbc)

/-- Sorted and without repetitions, paths increase, and none is lost but for its spelling. -/
theorem sorted_paths (paths : List String) :
    let sorted := (dropRepeated (fun a b => parts a = parts b) (paths.mergeSort le)).map parts
    sorted.Pairwise (· < ·) ∧ ∀ q, q ∈ sorted ↔ q ∈ paths.map parts := by
  have hsorted : ((paths.mergeSort le).map parts).Pairwise fun a b => ¬b < a := by
    refine List.pairwise_map.mpr ((List.pairwise_mergeSort le_trans le_total paths).imp fun h => ?_)
    exact le_iff.mp h
  have hmem : ∀ q, q ∈ (paths.mergeSort le).map parts ↔ q ∈ paths.map parts :=
    fun q => ((List.mergeSort_perm paths le).map parts).mem_iff
  cases hpaths : paths.mergeSort le with
  | nil =>
    rw [hpaths] at hmem
    exact ⟨.nil, hmem⟩
  | cons a l =>
    rw [hpaths, List.map_cons] at hsorted hmem
    simp only [dropRepeated, map_dropRepeatedAfter]
    exact ⟨pairwise_dropRepeatedAfter hsorted, fun q => mem_dropRepeatedAfter.trans (hmem q)⟩

theorem dropRepeatedAfter_subset {α : Type} (same : α → α → Bool) (a : α) (l : List α) :
    dropRepeatedAfter same a l ⊆ a :: l := by
  induction l generalizing a with
  | nil => exact List.Subset.refl _
  | cons b l ih =>
    rw [dropRepeatedAfter]
    split
    · exact List.Subset.trans (ih a) (List.cons_subset_cons a (List.subset_cons_self b l))
    · exact List.cons_subset_cons a (ih b)

theorem mem_of_mem_dropRepeated {α : Type} {same : α → α → Bool} {a : α} {l : List α}
    (h : a ∈ dropRepeated same l) : a ∈ l := by
  cases l with
  | nil => exact h
  | cons b l => exact dropRepeatedAfter_subset same b l h

/-! ### Entries of folders -/

/-- A name that an entry of a folder may have. -/
structure IsEntryName (name : String) : Prop where
  nonempty : name.toList ≠ []
  not_here : name.toList ≠ ['.']
  not_up : name.toList ≠ ['.', '.']
  one_piece : '/' ∉ name.toList

theorem splitAt_append_cons (separator : Char) (a b : List Char) :
    Text.splitAt separator (a ++ separator :: b) = Text.splitAt separator a ++ Text.splitAt separator b := by
  induction a with
  | nil =>
    conv_lhs => rw [List.nil_append, Text.splitAt, if_pos rfl]
    rfl
  | cons c a ih =>
    rw [List.cons_append, Text.splitAt, Text.splitAt, ih]
    split
    · rfl
    · cases hpieces : Text.splitAt separator a with
      | nil => exact absurd hpieces (Text.splitAt_ne_nil _ _)
      | cons piece pieces => rfl

section

variable {folder name : String}

/-- The pieces of the path of an entry: its name is the last one. The last piece of a folder may be the empty one
    behind a slash. -/
theorem pieces_join (folder : String) (hname : IsEntryName name) : ∃ front, front ≠ [] ∧
    pieces (join folder name) = front ++ [name.toList] ∧
    (pieces folder = front ∨ pieces folder = front ++ [[]]) := by
  have hpiece := Text.splitAt_self hname.one_piece
  rw [join]
  split
  · rename_i hslash
    obtain ⟨front, hfront⟩ := List.getLast?_eq_some_iff.mp hslash
    refine ⟨Text.splitAt '/' front, Text.splitAt_ne_nil _ _, ?_, .inr ?_⟩
    · rw [pieces, String.toList_append, hfront, List.append_assoc, List.singleton_append,
        splitAt_append_cons, hpiece]
    · rw [pieces, hfront, splitAt_append_cons]
      rfl
  · refine ⟨pieces folder, Text.splitAt_ne_nil _ _, ?_, .inl rfl⟩
    have hslash : (folder ++ "/" ++ name).toList = folder.toList ++ '/' :: name.toList := by simp
    rw [pieces, hslash, splitAt_append_cons, hpiece]
    rfl

theorem head?_join (name : String) (hfolder : folder.toList ≠ []) : (join folder name).toList.head? = folder.toList.head? := by
  obtain ⟨c, cs, hcs⟩ := List.exists_cons_of_ne_nil hfolder
  rw [join]
  split <;> simp [String.toList_append, hcs]

theorem join_ne_nil (hfolder : folder.toList ≠ []) : (join folder name).toList ≠ [] := by
  intro h
  have hhead := head?_join name hfolder
  rw [h] at hhead
  exact hfolder (List.head?_eq_none_iff.mp hhead.symm)

/-- The path of an entry has the parts of its folder and the name. -/
theorem parts_join (hfolder : folder.toList ≠ []) (hname : IsEntryName name) :
    parts (join folder name) = parts folder ++ [.name name.toList] := by
  obtain ⟨front, hfront, hjoin, hpieces⟩ := pieces_join folder hname
  obtain ⟨first, rest, rfl⟩ := List.exists_cons_of_ne_nil hfront
  have hhead : (pieces folder).head? = some first := by
    rcases hpieces with hpieces | hpieces
    · rw [hpieces, List.head?_cons]
    · rw [hpieces, List.cons_append, List.head?_cons]
  have hbeginning : beginning (join folder name) = beginning folder := by
    rw [beginning, beginning, head?_join name hfolder, hjoin, hhead, List.cons_append, List.head?_cons]
  have hparts : (pieces folder).filterMap Part.ofPiece? = (first :: rest).filterMap Part.ofPiece? := by
    rcases hpieces with hpieces | hpieces
    · rw [hpieces]
    · rw [hpieces, List.filterMap_append]
      exact List.append_nil _
  have hlast : Part.ofPiece? name.toList = some (.name name.toList) := by
    rw [Part.ofPiece?, if_neg (by simp [hname.nonempty, hname.not_here]), if_neg hname.not_up]
  rw [parts, parts, hbeginning, hjoin, List.filterMap_append, hparts, List.append_assoc]
  simp [hlast]

/-- The path that names lead to from a folder. -/
def below (folder : String) (names : List String) : String := names.foldl join folder

theorem parts_below {names : List String} (hfolder : folder.toList ≠ [])
    (hnames : ∀ name ∈ names, IsEntryName name) :
    parts (below folder names) = parts folder ++ names.map fun name => .name name.toList := by
  induction names generalizing folder with
  | nil => exact (List.append_nil _).symm
  | cons name names ih =>
    obtain ⟨hname, hnames⟩ := List.forall_mem_cons.mp hnames
    rw [below, List.foldl_cons, ← below, ih (join_ne_nil hfolder) hnames, parts_join hfolder hname,
      List.append_assoc, List.map_cons, List.singleton_append]

end

/-! ### Script names -/

/-- The name of a script: something, a dot, and one of the extensions in any case of its letters. -/
def IsScriptName (name : String) : Prop :=
  ∃ stem extension, name.toList = stem ++ '.' :: extension ∧ stem ≠ [] ∧
    ["ps1", "psm1", "psd1"].any (Text.sameIgnoringAsciiCase · (.ofList extension)) = true

/-- The extension is what follows the last dot, unless that is the first character. -/
theorem extensionOf_eq_some_iff {name extension : List Char} : extensionOf name = some extension ↔
    '.' ∉ extension ∧ ∃ stem, stem ≠ [] ∧ name = stem ++ '.' :: extension := by
  rw [extensionOf]
  constructor
  · intro h
    split at h
    · rename_i c rest hdrop
      cases h
      refine ⟨fun hdot => ?_, (c :: rest).reverse, by simp, ?_⟩
      · simpa using List.mem_takeWhile_imp (List.mem_reverse.mp hdot)
      · have hsplit : name.reverse.takeWhile (· ≠ '.') ++ name.reverse.dropWhile (· ≠ '.') = name.reverse :=
          List.takeWhile_append_dropWhile
        rw [hdrop] at hsplit
        have hname := congrArg List.reverse hsplit
        rw [List.reverse_reverse, List.reverse_append, List.reverse_cons, List.append_assoc] at hname
        exact hname.symm
    · cases h
  · rintro ⟨hdot, stem, hstem, rfl⟩
    -- reversed, the extension is what comes before the first dot
    have hkept : ∀ c ∈ extension.reverse, decide (c ≠ '.') = true := by
      intro c hc
      simpa using fun heq : c = '.' => hdot (heq ▸ List.mem_reverse.mp hc)
    have hreverse : (stem ++ '.' :: extension).reverse = extension.reverse ++ '.' :: stem.reverse := by simp
    obtain ⟨c, rest, hrest⟩ := List.exists_cons_of_ne_nil (mt List.reverse_eq_nil_iff.mp hstem)
    rw [hreverse, List.dropWhile_append_of_pos hkept, List.takeWhile_append_of_pos hkept, hrest]
    simp

theorem dot_not_mem_of_same {known extension : String} (hknown : '.' ∉ known.toList.map Char.toLower)
    (h : Text.sameIgnoringAsciiCase known extension = true) : '.' ∉ extension.toList := by
  intro hdot
  rw [Text.sameIgnoringAsciiCase, beq_iff_eq] at h
  exact hknown (h ▸ List.mem_map_of_mem (f := Char.toLower) hdot)

/-- Whether a path is that of a script depends on the name that it ends with. -/
theorem isScript_iff {path : String} {front : List Part} {name : String}
    (h : parts path = front ++ [.name name.toList]) : isScript path = true ↔ IsScriptName name := by
  have hname : fileName? path = some name.toList := by rw [fileName?, h, List.getLast?_concat]
  rw [isScript, hasExtension, extension?, hname, Option.bind_some]
  constructor
  · intro hscript
    cases hextension : extensionOf name.toList with
    | none =>
      rw [hextension] at hscript
      cases hscript
    | some extension =>
      rw [hextension] at hscript
      obtain ⟨-, stem, hstem, hsplit⟩ := extensionOf_eq_some_iff.mp hextension
      exact ⟨stem, extension, hsplit, hstem, hscript⟩
  · rintro ⟨stem, extension, hsplit, hstem, hscript⟩
    have hdot : '.' ∉ extension := by
      obtain ⟨known, hknown, hsame⟩ := List.any_eq_true.mp hscript
      have hdots : ∀ known ∈ ["ps1", "psm1", "psd1"], '.' ∉ known.toList.map Char.toLower := by decide
      simpa using dot_not_mem_of_same (hdots known hknown) hsame
    rw [extensionOf_eq_some_iff.mpr ⟨hdot, stem, hstem, hsplit⟩]
    exact hscript

end HelpAudit.Path
