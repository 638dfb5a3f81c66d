import HelpAudit.CommentHelp.Reader
import HelpAudit.Proofs.CharacterClasses

/-! The comment that has a `.PARAMETER` line for each of some names and nothing else. Reading it gives a
    record that documents exactly these names, whatever the case of the letters in which they are asked
    for. A name may be any text on one line without blanks at its ends. -/

namespace HelpAudit

/-! ### Lines -/

namespace Text

theorem splitAt_append {separator : Char} : ∀ {piece : List Char}, separator ∉ piece →
    ∀ rest, splitAt separator (piece ++ separator :: rest) = piece :: splitAt separator rest
  | [], _, rest => by rw [List.nil_append, splitAt, if_pos rfl]
  | c :: piece, h, rest => by
    obtain ⟨hc, hpiece⟩ := not_or.mp (mt List.mem_cons.mpr h)
    rw [List.cons_append, splitAt, if_neg (Ne.symm hc), splitAt_append hpiece rest]

theorem splitAt_self {separator : Char} {piece : List Char} (h : separator ∉ piece) :
    splitAt separator piece = [piece] := by
  induction piece with
  | nil => rfl
  | cons c piece ih =>
    obtain ⟨hc, hpiece⟩ := not_or.mp (mt List.mem_cons.mpr h)
    rw [splitAt, if_neg (Ne.symm hc), ih hpiece]

theorem splitAt_ne_nil (separator : Char) : ∀ cs, splitAt separator cs ≠ []
  | [] => List.cons_ne_nil _ _
  | c :: cs => by
    rw [splitAt]
    split
    · exact List.cons_ne_nil _ _
    · split <;> exact List.cons_ne_nil _ _

/-- A line that ends with a line feed is the first of the lines. -/
theorem lines_append {line : List Char} (h : '\n' ∉ line) (rest : List Char) :
    lines (line ++ '\n' :: rest) = dropReturn line :: lines rest := by
  rw [lines, splitAt_append h, lines]
  cases hrest : splitAt '\n' rest with
  | nil => exact absurd hrest (splitAt_ne_nil _ _)
  | cons piece pieces => rw [endedLines]; exact fun h => (nomatch h)

theorem dropReturn_of_ne {line : List Char} (h : line.getLast? ≠ some '\r') : dropReturn line = line := by
  rw [dropReturn]
  split
  · rename_i rest hreverse
    rw [← List.head?_reverse, hreverse] at h
    exact absurd rfl h
  · rfl

/-- A text without blanks at its ends. -/
def IsTrimmed (cs : List Char) : Prop := trimStart cs = cs ∧ trimEnd cs = cs

theorem IsTrimmed.head {c : Char} {cs : List Char} (h : IsTrimmed (c :: cs)) : isBlank c = false := by
  have hhead := List.head?_dropWhile_not isBlank (c :: cs)
  rw [← trimStart, h.1] at hhead
  exact hhead

theorem IsTrimmed.getLast {cs : List Char} {c : Char} (h : IsTrimmed cs)
    (hlast : cs.getLast? = some c) : isBlank c = false := by
  have hhead := List.head?_dropWhile_not isBlank cs.reverse
  have hend : cs.reverse.dropWhile isBlank = cs.reverse := by
    rw [← List.reverse_reverse (cs.reverse.dropWhile isBlank), ← dropWhileEnd, ← trimEnd, h.2]
  rw [hend, List.head?_reverse, hlast] at hhead
  exact hhead

theorem isTrimmed_of_not_blank {cs : List Char} (h : ∀ c ∈ cs, isBlank c = false) : IsTrimmed cs := by
  have hkeep : ∀ ds : List Char, (∀ c ∈ ds, isBlank c = false) → ds.dropWhile isBlank = ds := by
    intro ds hds
    cases ds with
    | nil => rfl
    | cons c ds => rw [List.dropWhile_cons, hds c List.mem_cons_self]; rfl
  refine ⟨hkeep cs h, ?_⟩
  rw [trimEnd, dropWhileEnd, hkeep cs.reverse (fun c hc => h c (List.mem_reverse.mp hc)),
    List.reverse_reverse]

end Text

/-- A name that may stand behind a keyword: on one line, not empty and without blanks at its ends. -/
structure IsArgument (name : List Char) : Prop where
  nonempty : name ≠ []
  trimmed : Text.IsTrimmed name
  oneLine : '\n' ∉ name

/-- The line that documents a parameter. -/
def parameterLine (name : String) : List Char := ".PARAMETER ".toList ++ name.toList

/-- The comment that documents parameters without saying anything about them. -/
def parameterComment (names : List String) : List Char :=
  '<' :: '#' :: '\n' :: (names.flatMap (parameterLine · ++ ['\n']) ++ ['#', '>'])

theorem IsArgument.of_isWord {name : List Char} (hne : name ≠ [])
    (h : ∀ c ∈ name, Text.isWord c = true) : IsArgument name := by
  refine ⟨hne, Text.isTrimmed_of_not_blank fun c hc => Text.isBlank_of_isWord (h c hc), fun hmem => ?_⟩
  exact absurd (h _ hmem) (by decide)

/-- A dot, a word of ASCII letters and a blank make a keyword line with what follows as its argument. -/
theorem keywordLine?_append {word name : List Char} (hne : word ≠ [])
    (hword : ∀ c ∈ word, c.isAlpha = true) (h : IsArgument name) :
    keywordLine? ('.' :: (word ++ ' ' :: name)) = some (word, some (.ofList name)) := by
  obtain ⟨c, cs, rfl⟩ := List.exists_cons_of_ne_nil h.nonempty
  have hblank := h.trimmed.head
  have hother : ∀ d, Text.isBlank d = true → c ≠ d := by
    rintro d hd rfl
    rw [hblank] at hd
    cases hd
  have htake : (word ++ ' ' :: c :: cs).takeWhile Char.isAlpha = word := by
    rw [List.takeWhile_append_of_pos hword, List.takeWhile_cons_of_neg (by decide), List.append_nil]
  have hdrop : (word ++ ' ' :: c :: cs).dropWhile Char.isAlpha = ' ' :: c :: cs := by
    rw [List.dropWhile_append_of_pos hword, List.dropWhile_cons_of_neg (by decide)]
  have hargument : (' ' :: c :: cs).dropWhile (fun c => c == ' ' || c == '\t') = c :: cs := by
    simp [hother ' ' rfl, hother '\t' rfl]
  have hstart : Text.trimStart ('.' :: (word ++ ' ' :: c :: cs)) = '.' :: (word ++ ' ' :: c :: cs) := rfl
  rw [keywordLine?, hstart]
  simp only [htake, hdrop, hargument, h.trimmed.1, h.trimmed.2]
  simp [hne, hblank, h.oneLine]

theorem parameterLine_eq (name : String) :
    parameterLine name = '.' :: ("PARAMETER".toList ++ ' ' :: name.toList) := rfl

theorem keywordLine?_parameterLine {name : String} (h : IsArgument name.toList) :
    keywordLine? (parameterLine name) = some ("PARAMETER".toList, some name) := by
  have hword : ∀ c ∈ "PARAMETER".toList, c.isAlpha = true := List.all_eq_true.mp (by decide)
  rw [parameterLine_eq, keywordLine?_append (by decide) hword h, String.ofList_toList]

theorem lines_parameterLines {names : List String} (h : ∀ name ∈ names, IsArgument name.toList) :
    Text.lines (names.flatMap (parameterLine · ++ ['\n'])) = names.map parameterLine := by
  induction names with
  | nil => rfl
  | cons name names ih =>
    obtain ⟨hname, hnames⟩ := List.forall_mem_cons.mp h
    have hkeyword : '\n' ∉ ".PARAMETER ".toList := by decide
    have hline : '\n' ∉ parameterLine name := fun hmem =>
      (List.mem_append.mp hmem).elim hkeyword hname.oneLine
    have hlast : ∀ front, (front ++ name.toList).getLast? = name.toList.getLast? := fun front => by
      rw [List.getLast?_append, List.getLast?_eq_some_getLast hname.nonempty, Option.some_or]
    have hreturn : (parameterLine name).getLast? ≠ some '\r' := fun h => by
      cases hname.trimmed.getLast ((hlast _).symm.trans h)
    rw [List.flatMap_cons, List.append_assoc, List.singleton_append, Text.lines_append hline,
      Text.dropReturn_of_ne hreturn, ih hnames, List.map_cons]

theorem commentLines_block (body : List Char) :
    commentLines (.ofList ('<' :: '#' :: (body ++ ['#', '>']))) = Text.lines body := by
  have hsuffix : ['#', '>'].isSuffixOf (body ++ ['#', '>']) = true :=
    List.isSuffixOf_iff_suffix.mpr (List.suffix_append _ _)
  rw [commentLines, String.toList_ofList]
  simp only [hsuffix, if_true, List.length_append, List.length_cons, List.length_nil]
  rw [Nat.add_sub_cancel, List.take_left]

theorem commentLines_parameterComment {names : List String}
    (h : ∀ name ∈ names, IsArgument name.toList) :
    commentLines (.ofList (parameterComment names)) = [] :: names.map parameterLine := by
  rw [parameterComment, ← List.cons_append, commentLines_block, ← lines_parameterLines h]
  exact Text.lines_append List.not_mem_nil _

theorem helpEntries_parameterLines {names : List String} (h : ∀ name ∈ names, IsArgument name.toList) :
    helpEntries (names.map parameterLine) =
      ([], names.map fun name => ⟨"PARAMETER".toList, some name, []⟩) := by
  induction names with
  | nil => rfl
  | cons name names ih =>
    obtain ⟨hname, hnames⟩ := List.forall_mem_cons.mp h
    rw [List.map_cons, helpEntries, ih hnames, keywordLine?_parameterLine hname]
    rfl

/-! ### The record -/

theorem mem_keys_joinEntry {key text k : String} : ∀ {entries : List (String × String)},
    k ∈ (CommentHelp.joinEntry key text entries).map (·.1) ↔ k = key ∨ k ∈ entries.map (·.1)
  | [] => by simp [CommentHelp.joinEntry]
  | (name, existing) :: entries => by
    rw [CommentHelp.joinEntry]
    split
    · rename_i hname
      simp [hname]
    · simp only [List.map_cons, List.mem_cons, mem_keys_joinEntry]
      exact or_left_comm

theorem addSection?_parameter (help : CommentHelp) (name : String) (body : List (List Char)) :
    help.addSection? ⟨"PARAMETER".toList, some name, body⟩ =
      some (help.addParameter name (sectionText body)) := by
  have hword : HelpSection.ofWord? "PARAMETER".toList = some .parameter := by decide
  rw [CommentHelp.addSection?, hword]
  rfl

theorem foldlM_addSection? (names : List String) (help : CommentHelp) :
    (names.map fun name => (⟨"PARAMETER".toList, some name, []⟩ : HelpEntry)).foldlM
      CommentHelp.addSection? help =
    some (names.foldl (fun help name => help.addParameter name (sectionText [])) help) := by
  induction names generalizing help with
  | nil => rfl
  | cons name names ih =>
    rw [List.map_cons, List.foldlM_cons, addSection?_parameter, List.foldl_cons, ← ih]
    rfl

theorem mem_keys_foldl {key : String} (text : String) (names : List String) (help : CommentHelp) :
    key ∈ (names.foldl (fun help name => help.addParameter name text) help).parameters.map (·.1) ↔
      key ∈ names.map Text.upper ∨ key ∈ help.parameters.map (·.1) := by
  induction names generalizing help with
  | nil => simp
  | cons name names ih =>
    rw [List.foldl_cons, ih, CommentHelp.addParameter, mem_keys_joinEntry, List.map_cons,
      List.mem_cons, or_assoc, or_left_comm]

/-- Without names the comment is no help; otherwise it documents the names and nothing else. -/
theorem ofComments?_parameterComment {names : List String}
    (h : ∀ name ∈ names, IsArgument name.toList) :
    (names = [] ∧ CommentHelp.ofComments? [.ofList (parameterComment names)] = none) ∨
    ∃ help, CommentHelp.ofComments? [.ofList (parameterComment names)] = some help ∧
      ∀ key, key ∈ help.parameters.map (·.1) ↔ key ∈ names.map Text.upper := by
  have hentries : (helpEntries ([] :: names.map parameterLine)).2 =
      names.map fun name => ⟨"PARAMETER".toList, some name, []⟩ := by
    rw [helpEntries, helpEntries_parameterLines h]
    rfl
  rw [CommentHelp.ofComments?, List.flatMap_singleton, commentLines_parameterComment h,
    CommentHelp.ofLines?, hentries]
  cases names with
  | nil => exact .inl ⟨rfl, rfl⟩
  | cons name names =>
    refine .inr ⟨_, foldlM_addSection? (name :: names) {}, fun key => ?_⟩
    rw [mem_keys_foldl]
    simp

end HelpAudit
