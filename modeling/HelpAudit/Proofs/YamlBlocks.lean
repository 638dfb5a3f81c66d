import HelpAudit.Proofs.YamlScalars

/-! YAML blocks are read back. A text is taken apart into line ends and lines (`IsLines`); the reader takes the
    lines one after the other, and what it keeps of the line ends behind the last one depends on the marks.
    Main statement: `block_text`, for every text that needs no escapes, at every indentation and before
    anything that stands further to the left. -/

namespace HelpAudit.Yaml

/-! ### Lines -/

/-- A line end that is written as it is. -/
def IsSeparator (c : Char) : Prop := isBreak c = true ∧ isPrintable c = true

/-- The text starts with a line that is not empty, and its last line has an end. -/
inductive IsLines : List Char → Prop where
  | last {line : List Char} {c : Char} {ends : List Char} : line ≠ [] → (∀ d ∈ line, isBreak d = false) →
    IsSeparator c → (∀ d ∈ ends, IsSeparator d) → IsLines (line ++ c :: ends)
  | cons {line : List Char} {c : Char} {ends text : List Char} : line ≠ [] →
    (∀ d ∈ line, isBreak d = false) → IsSeparator c → (∀ d ∈ ends, IsSeparator d) → IsLines text →
    IsLines (line ++ c :: (ends ++ text))

theorem IsLines.cons_char {c : Char} (hc : isBreak c = false) {text : List Char} (h : IsLines text) :
    IsLines (c :: text) := by
  have hline : ∀ {line : List Char}, (∀ d ∈ line, isBreak d = false) → ∀ d ∈ c :: line, isBreak d = false := by
    intro line hline
    simpa [hc] using hline
  cases h with
  | last hne hbreak hend hends => exact @IsLines.last (c :: _) _ _ (by simp) (hline hbreak) hend hends
  | cons hne hbreak hend hends htext => exact @IsLines.cons (c :: _) _ _ _ (by simp) (hline hbreak) hend hends htext

theorem IsLines.exists_head {text : List Char} (h : IsLines text) :
    ∃ c rest, text = c :: rest ∧ isBreak c = false := by
  cases h with
  | last hne hbreak _ _ | cons hne hbreak _ _ _ =>
    obtain ⟨c, line, rfl⟩ := List.exists_cons_of_ne_nil hne
    exact ⟨c, _, rfl, hbreak c List.mem_cons_self⟩

/-- A text that ends with a line end has line ends first, and then lines. -/
theorem exists_lines {text : List Char} {c : Char} (hprint : ∀ d ∈ text ++ [c], isPrintable d = true)
    (hc : isBreak c = true) :
    ∃ ends rest, text ++ [c] = ends ++ rest ∧ (∀ d ∈ ends, IsSeparator d) ∧ (rest = [] ∨ IsLines rest) := by
  induction text with
  | nil =>
    have hend : IsSeparator c := ⟨hc, hprint c (by simp)⟩
    exact ⟨[c], [], rfl, by simpa using hend, .inl rfl⟩
  | cons d text ih =>
    obtain ⟨ends, rest, heq, hends, hrest⟩ := ih fun e he => hprint e (by simp at he ⊢; exact .inr he)
    rw [List.cons_append, heq]
    by_cases hd : isBreak d = true
    · have hend : IsSeparator d := ⟨hd, hprint d (by simp)⟩
      exact ⟨d :: ends, rest, rfl, by simpa [hend] using hends, hrest⟩
    · rw [Bool.not_eq_true] at hd
      have hline : ∀ e ∈ [d], isBreak e = false := by simpa using hd
      -- a character in front of line ends is a line of its own, in front of a line it lengthens that one
      refine ⟨[], d :: (ends ++ rest), rfl, by simp, .inr ?_⟩
      cases ends with
      | nil =>
        rcases hrest with rfl | hrest
        · simp at heq
        · exact hrest.cons_char hd
      | cons e ends =>
        have hend := hends e List.mem_cons_self
        have hmore : ∀ f ∈ ends, IsSeparator f := fun f hf => hends f (List.mem_cons_of_mem e hf)
        rcases hrest with rfl | hrest
        · rw [List.append_nil]
          exact .last (by simp) hline hend hmore
        · exact .cons (by simp) hline hend hmore hrest

/-- The text up to its last character that is no line end, and the line ends behind it. -/
structure EndsWith (text front : List Char) (c : Char) (ends : List Char) : Prop where
  eq : text = front ++ c :: ends
  ne : front ≠ []
  last : ∀ d ∈ front.getLast?, isBreak d = false
  breaks : ∀ d ∈ c :: ends, isBreak d = true

theorem EndsWith.of_line {line : List Char} {c : Char} {ends : List Char} (hne : line ≠ [])
    (hline : ∀ d ∈ line, isBreak d = false) (hc : IsSeparator c) (hends : ∀ d ∈ ends, IsSeparator d) :
    EndsWith (line ++ c :: ends) line c ends :=
  ⟨rfl, hne, fun d hd => hline d (List.mem_of_getLast? hd), by simpa using ⟨hc.1, fun d hd => (hends d hd).1⟩⟩

theorem EndsWith.append {text front : List Char} {c : Char} {ends : List Char}
    (h : EndsWith text front c ends) (before : List Char) : EndsWith (before ++ text) (before ++ front) c ends := by
  refine ⟨by rw [h.eq, List.append_assoc], by simp [h.ne], ?_, h.breaks⟩
  rw [List.getLast?_append, List.getLast?_eq_some_getLast h.ne, Option.some_or,
    ← List.getLast?_eq_some_getLast h.ne]
  exact h.last

/-! ### Writing them -/

theorem literalLines_ends {n : Nat} {ends : List Char} (h : ∀ c ∈ ends, IsSeparator c)
    (text : List Char) : literalLines n true (ends ++ text) = ends ++ literalLines n true text := by
  induction ends with
  | nil => rfl
  | cons c ends ih =>
    rw [List.cons_append, literalLines, if_pos (h c List.mem_cons_self).1,
      ih fun d hd => h d (List.mem_cons_of_mem c hd)]
    rfl

theorem literalLines_line {indent : Nat} {line : List Char} (h : ∀ c ∈ line, isBreak c = false)
    (text : List Char) : literalLines indent false (line ++ text) = line ++ literalLines indent false text := by
  induction line with
  | nil => rfl
  | cons c line ih =>
    rw [List.cons_append, literalLines, if_neg (by simp [h c List.mem_cons_self]),
      ih fun d hd => h d (List.mem_cons_of_mem c hd)]
    rfl

theorem literalLines_start (indent : Nat) {c : Char} (h : isBreak c = false) (text : List Char) :
    literalLines indent true (c :: text) = List.replicate indent ' ' ++ literalLines indent false (c :: text) := by
  simp [literalLines, h]

theorem literalLines_break (indent : Nat) (afterBreak : Bool) {c : Char} (h : isBreak c = true)
    (text : List Char) : literalLines indent afterBreak (c :: text) = c :: literalLines indent true text := by
  rw [literalLines, if_pos h]

theorem literalLines_newline (indent : Nat) (afterBreak : Bool) (text : List Char) :
    literalLines indent afterBreak (text ++ ['\n']) = literalLines indent afterBreak text ++ ['\n'] := by
  induction text generalizing afterBreak with
  | nil => rfl
  | cons c text ih =>
    simp only [List.cons_append, literalLines, ih]
    split <;> simp

/-! ### Reading them -/

theorem blockBreaks_indentation {indent column count : Nat} (h : indent = 0 ∨ column + count ≤ indent)
    (greatest : Nat) (rest : List Char) :
    blockBreaks indent column greatest (List.replicate count ' ' ++ rest) =
      blockBreaks indent (column + count) greatest rest := by
  induction count generalizing column with
  | zero => rfl
  | succ count ih =>
    have hinside : (decide (indent = 0) || decide (column < indent)) = true := by
      simp only [Bool.or_eq_true, decide_eq_true_eq]
      omega
    rw [List.replicate_succ, List.cons_append, blockBreaks, hinside, Nat.add_comm count, ← Nat.add_assoc,
      ← ih (by omega)]
    rfl

theorem blockBreaks_stop {indent column : Nat} {c : Char} (hbreak : isBreak c = false)
    (h : indent = 0 ∨ column < indent → isBlank c = false) (greatest : Nat) (rest : List Char) :
    blockBreaks indent column greatest (c :: rest) =
      some ⟨[], column, max column greatest, 0, c :: rest⟩ := by
  have hreturn := ne_of_isBreak hbreak (d := '\r') rfl
  by_cases hinside : indent = 0 ∨ column < indent
  · have hblank := h hinside
    simp only [isBlank, Bool.or_eq_false_iff, decide_eq_false_iff_not] at hblank
    simp [blockBreaks, hblank.1, hblank.2, hreturn, hbreak]
  · simp only [not_or] at hinside
    simp [blockBreaks, hinside.1, hinside.2, hreturn, hbreak]

/-- Line ends are collected in front of what is found behind them. -/
theorem blockBreaks_ends {indent : Nat} {ends : List Char} (h : ∀ c ∈ ends, IsSeparator c) (greatest : Nat)
    {rest : List Char} {found : Breaks} (hfound : blockBreaks indent 0 greatest rest = some found) :
    blockBreaks indent 0 greatest (ends ++ rest) =
      some ⟨ends ++ found.text, found.column, found.greatest, ends.length + found.lines, found.rest⟩ := by
  induction ends with
  | nil => simpa using hfound
  | cons c ends ih =>
    obtain ⟨hbreak, hprint⟩ := h c List.mem_cons_self
    obtain ⟨hself, hreturn⟩ := breakText_of_isPrintable hbreak hprint
    have hrest := ih fun d hd => h d (List.mem_cons_of_mem c hd)
    have hspace : c ≠ ' ' := by
      rintro rfl
      cases hbreak
    have htab : c ≠ '\t' := by
      rintro rfl
      cases hbreak
    simp [blockBreaks, hspace, htab, hreturn, hbreak, hrest, hself, Nat.add_assoc, Nat.add_comm]

/-- The indentation of what stands behind a block is seen. -/
theorem blockBreaks_behind {indent column : Nat} (h : column < indent) {rest : List Char} (hrest : Stops rest)
    (greatest : Nat) :
    blockBreaks indent 0 greatest (List.replicate column ' ' ++ rest) =
      some ⟨[], column, max column greatest, 0, rest⟩ := by
  rw [blockBreaks_indentation (.inr (by omega)), Nat.zero_add]
  cases rest with
  | nil => rfl
  | cons c rest =>
    obtain ⟨hblank, hbreak, -⟩ := hrest c rfl
    exact blockBreaks_stop hbreak (fun _ => hblank) greatest rest

/-- The indentation of the next line is taken away, and no blank behind it. -/
theorem blockBreaks_line (indent : Nat) {c : Char} (hc : isBreak c = false) (hindent : indent = 0 → isBlank c = false)
    (greatest : Nat) (rest : List Char) :
    blockBreaks indent 0 greatest (List.replicate indent ' ' ++ c :: rest) =
      some ⟨[], indent, max indent greatest, 0, c :: rest⟩ := by
  rw [blockBreaks_indentation (.inr (by omega)), Nat.zero_add]
  exact blockBreaks_stop hc (fun h => hindent (by omega)) greatest rest

/-- What is kept of the line ends behind a block. -/
def Chomping.ending (chomping : Chomping) (first more : List Char) : List Char :=
  match chomping with
  | .strip => []
  | .clip => first
  | .keep => first ++ more

section Lines

variable {k : Chomping} {indent : Nat} {wasBlank : Bool} {first more : List Char}

theorem blockLines_end {steps number column : Nat} (h : column ≠ indent) (text : List Char) :
    blockLines true k indent (steps + 1) wasBlank first more number column text =
      some (k.ending first more, ⟨text, number, column, true, []⟩) := by
  simp only [blockLines]
  rw [if_neg (by simp [h])]
  rfl

/-- One line of a block, and the breaks behind it. -/
theorem blockLines_line {line : List Char} {c : Char} (hline : ∀ d ∈ line, isBreak d = false)
    (hc : IsSeparator c) {rest : List Char} {found : Breaks}
    (hfound : blockBreaks indent 0 0 rest = some found) (steps number : Nat) :
    ∃ isBlankLine, blockLines true k indent (steps + 1) wasBlank first more number indent (line ++ c :: rest) =
      prepend (first ++ more ++ line) (blockLines true k indent steps isBlankLine [c] found.text
        (number + 1 + found.lines) found.column found.rest) := by
  obtain ⟨hself, hreturn⟩ := breakText_of_isPrintable hc.1 hc.2
  have hall : ∀ d ∈ line, (!isBreak d) = true := by
    intro d hd
    simp [hline d hd]
  have hsplit : splitLine (line ++ c :: rest) = (line, c :: rest) := by
    rw [splitLine, List.takeWhile_append_of_pos hall, List.dropWhile_append_of_pos hall]
    simp [hc.1]
  have hbreak : firstBreak (c :: rest) = ([c], rest) := by
    rw [firstBreak]
    · rw [hself]
    · exact fun _ h _ => hreturn h
  refine ⟨(line ++ c :: rest).head?.any isBlank, ?_⟩
  simp only [blockLines]
  rw [if_pos ⟨trivial, by simp⟩]
  simp only [hsplit, hbreak, hfound, Bool.not_true, Bool.false_and, Bool.false_eq_true, if_false]

/-- Lines are read up to what stands behind the block. The line ends after the last line are treated as the
    marks say. -/
theorem blockLines_text {text : List Char} (h : IsLines text) {column : Nat} (hcolumn : column < indent)
    {rest : List Char} (hrest : Stops rest) (wasBlank : Bool) (first more : List Char) (steps number : Nat)
    (hsteps : text.length < steps) :
    ∃ front c ends number₁, EndsWith text front c ends ∧
      blockLines true k indent steps wasBlank first more number indent
          (literalLines indent false text ++ (List.replicate column ' ' ++ rest)) =
        some (first ++ more ++ front ++ k.ending [c] ends, ⟨rest, number₁, column, true, []⟩) := by
  induction h generalizing wasBlank first more steps number with
  | @last line c ends hne hline hc hends =>
    have hfound := blockBreaks_ends hends 0 (blockBreaks_behind hcolumn hrest 0)
    have hwritten : literalLines indent false (line ++ c :: ends) = line ++ c :: ends := by
      have hall := literalLines_ends (n := indent) hends []
      rw [literalLines_line hline, literalLines_break indent false hc.1]
      simpa [literalLines] using hall
    rw [List.length_append, List.length_cons] at hsteps
    -- one step reads the last line, another one finds that the block has ended
    obtain ⟨fewer, rfl⟩ : ∃ fewer, steps = fewer + 2 := ⟨steps - 2, by omega⟩
    obtain ⟨isBlankLine, hread⟩ := blockLines_line hline hc hfound (fewer + 1) number
    refine ⟨line, c, ends, number + 1 + ends.length, .of_line hne hline hc hends, ?_⟩
    rw [hwritten, List.append_assoc, List.cons_append, hread, blockLines_end (Nat.ne_of_lt hcolumn)]
    simp
  | @cons line c ends text hne hline hc hends htext ih =>
    obtain ⟨d, tail, rfl, hd⟩ := htext.exists_head
    rw [List.length_append, List.length_cons, List.length_append] at hsteps
    obtain ⟨fewer, rfl⟩ : ∃ fewer, steps = fewer + 1 := ⟨steps - 1, by omega⟩
    have hfound := blockBreaks_ends hends 0 (blockBreaks_line indent hd (by omega) 0
      (literalLines indent false tail ++ (List.replicate column ' ' ++ rest)))
    have hwritten : literalLines indent false (line ++ c :: (ends ++ d :: tail)) =
        line ++ c :: (ends ++ (List.replicate indent ' ' ++ d :: literalLines indent false tail)) := by
      rw [literalLines_line hline, literalLines_break indent false hc.1, literalLines_ends hends,
        literalLines_start indent hd]
      simp [literalLines, hd]
    -- the line ends behind this line are handed on, to stand in front of the next one
    obtain ⟨isBlankLine, hfirst⟩ := blockLines_line hline hc hfound fewer number
    obtain ⟨front, b, more₁, number₁, hend, hothers⟩ := ih isBlankLine [c] ends fewer (number + 1 + ends.length)
      (by omega)
    refine ⟨line ++ c :: (ends ++ front), b, more₁, number₁, by simpa using hend.append (line ++ c :: ends), ?_⟩
    have hstart : literalLines indent false (d :: tail) = d :: literalLines indent false tail := by
      simp [literalLines, hd]
    rw [hstart, List.cons_append] at hothers
    simp only [hwritten, List.append_assoc, List.cons_append]
    rw [hfirst]
    simp only [List.append_nil, Nat.add_zero]
    rw [hothers]
    simp

end Lines

/-! ### Marks -/

/-- How the end of a block is to be treated. -/
def chompingOf (text : List Char) : Chomping :=
  match text.reverse with
  | [] => .strip
  | [c] => if isBreak c then .keep else .strip
  | c :: d :: _ => if !isBreak c then .strip else if isBreak d then .keep else .clip

/-- Whether the indentation of a block cannot be seen from its first line. -/
def hidesIndentation (text : List Char) : Bool := text.head?.any fun c => c = ' ' || isBreak c

/-- The mark for the end of a block. -/
def Chomping.mark : Chomping → List Char
  | .strip => ['-']
  | .clip => []
  | .keep => ['+']

theorem literalMarks_eq (text : List Char) :
    literalMarks text = (if hidesIndentation text then ['2'] else []) ++ (chompingOf text).mark := by
  refine congrArg ((if hidesIndentation text then ['2'] else []) ++ ·) ?_
  rw [chompingOf]
  rcases text.reverse with _ | ⟨c, _ | ⟨d, tail⟩⟩
  · rfl
  · by_cases hc : isBreak c <;> simp [hc, Chomping.mark]
  · by_cases hc : isBreak c <;> by_cases hd : isBreak d <;> simp [hc, hd, Chomping.mark]

theorem blockMarks_literalMarks (text rest : List Char) :
    blockMarks (literalMarks text ++ '\n' :: rest) =
      (chompingOf text, if hidesIndentation text then 2 else 0, '\n' :: rest) := by
  rw [literalMarks_eq]
  cases hidesIndentation text <;> cases chompingOf text
  case false.clip => cases rest <;> rfl
  all_goals rfl

theorem chompingOf_concat (body : List Char) (x : Char) :
    chompingOf (body ++ [x]) = if isBreak x = false then .strip
      else if body.getLast?.all isBreak then .keep else .clip := by
  rcases body.eq_nil_or_concat with rfl | ⟨body, d, rfl⟩
  · by_cases hx : isBreak x <;> simp [chompingOf, hx]
  · by_cases hx : isBreak x <;> by_cases hd : isBreak d <;> simp [chompingOf, hx, hd]

/-- Where no line end stands before the last one, that one is all there is. -/
theorem EndsWith.eq_concat {body front : List Char} {x c : Char} {ends : List Char}
    (h : EndsWith (body ++ [x]) front c ends) (hbody : ∀ d ∈ body.getLast?, isBreak d = false) :
    front = body ∧ c = x ∧ ends = [] := by
  rcases ends.eq_nil_or_concat with rfl | ⟨ends, y, rfl⟩
  · obtain ⟨rfl, heq⟩ := List.append_inj' h.eq rfl
    exact ⟨rfl, (List.cons.inj heq).1.symm, rfl⟩
  · have heq : body ++ [x] = (front ++ c :: ends) ++ [y] := by simpa using h.eq
    obtain ⟨rfl, -⟩ := List.append_inj' heq rfl
    obtain ⟨d, hd⟩ : ∃ d, (c :: ends).getLast? = some d := ⟨_, List.getLast?_eq_some_getLast (by simp)⟩
    have hmem : d ∈ c :: ends := List.mem_of_getLast? hd
    have hbreak := h.breaks d (by
      rw [List.concat_eq_append]
      exact List.mem_append_left [y] hmem)
    have hno := hbody d (by simp [List.getLast?_append, hd])
    rw [hbreak] at hno
    cases hno

/-- The marks of a block keep of its line ends those that are the text's own. -/
theorem front_append_ending {text front : List Char} {c : Char} {ends : List Char} (hne : text ≠ [])
    (h : EndsWith (text ++ ScalarStyle.literal.lineEnd text) front c ends) :
    front ++ (chompingOf text).ending [c] ends = text := by
  obtain ⟨body, x, rfl⟩ := text.eq_nil_or_concat.resolve_left hne
  rw [List.concat_eq_append] at h ⊢
  rw [chompingOf_concat]
  by_cases hx : isBreak x = true
  · -- the text ends with a line end: one is clipped to, more are kept
    have hown : ScalarStyle.literal.lineEnd (body ++ [x]) = [] := by simp [ScalarStyle.lineEnd, hx]
    rw [hown, List.append_nil] at h
    rw [if_neg (by simp [hx])]
    split
    · simpa [Chomping.ending] using h.eq.symm
    · rename_i hbody
      have hlast : ∀ d ∈ body.getLast?, isBreak d = false := by
        intro d hd
        rw [← Bool.not_eq_true]
        intro hbreak
        refine hbody ((Option.all_eq_true _ _).mpr fun e he => ?_)
        rwa [Option.some.inj (he.symm.trans hd)]
      obtain ⟨rfl, rfl, rfl⟩ := h.eq_concat hlast
      rfl
  · -- the line end is the writer's own, and is stripped
    have hnew : ScalarStyle.literal.lineEnd (body ++ [x]) = ['\n'] := by simp [ScalarStyle.lineEnd, hx]
    rw [hnew] at h
    obtain ⟨rfl, rfl, rfl⟩ := h.eq_concat (by simpa using hx)
    rw [if_pos (by simpa using hx), Chomping.ending, List.append_nil]

/-! ### Blocks -/

theorem length_le_literalLines (indent : Nat) (afterBreak : Bool) (text : List Char) :
    text.length ≤ (literalLines indent afterBreak text).length := by
  induction text generalizing afterBreak with
  | nil => exact Nat.zero_le _
  | cons c text ih =>
    rw [literalLines]
    split
    · simpa using ih true
    · have hle := ih false
      simp only [List.length_append, List.length_cons]
      omega

theorem literalLines_lineEnd (indent : Nat) (text : List Char) :
    literalLines indent true text ++ ScalarStyle.literal.lineEnd text =
      literalLines indent true (text ++ ScalarStyle.literal.lineEnd text) := by
  rw [ScalarStyle.lineEnd]
  split
  · simp
  · rw [literalLines_newline]

/-- A block after its marks. Where these do not give the indentation, that of the first line counts. -/
theorem block_eq {indent : Nat} {text rest : List Char} {found : Breaks}
    (hfound : blockBreaks (if hidesIndentation text then indent + 2 else 0) 0 0 rest = some found)
    (hindent : hidesIndentation text = false → found.greatest = indent + 2) (number : Nat) :
    block true (indent + 1) number (literalMarks text ++ '\n' :: rest) =
      blockLines true (chompingOf text) (indent + 2) ((literalMarks text ++ '\n' :: rest).length + 1) false []
        found.text (number + 1 + found.lines) found.column found.rest := by
  have hstart : blockStart false ('\n' :: rest) = some rest := rfl
  simp only [block, blockMarks_literalMarks, hstart]
  cases hhides : hidesIndentation text with
  | false =>
    have hgreatest : max (max found.greatest (indent + 1)) 1 = indent + 2 := by
      rw [hindent hhides]
      omega
    simp only [hhides, Bool.false_eq_true, if_false] at hfound
    simp only [Bool.false_eq_true, if_false, if_true, hfound, Option.bind_eq_bind, Option.bind_some, hgreatest]
  | true =>
    simp only [hhides, if_true] at hfound
    simp [hfound]

/-- The line ends before the first line that is not empty, and the indentation of that line. -/
theorem blockBreaks_lines {n : Nat} {ends lines : List Char} (hends : ∀ c ∈ ends, IsSeparator c)
    (hlines : IsLines lines) {hides : Bool}
    (hhides : hides = false → ends = [] ∧ ∀ c ∈ lines.head?, isBlank c = false) (rest : List Char) :
    ∃ found, blockBreaks (if hides then n + 2 else 0) 0 0
        (literalLines (n + 2) true (ends ++ lines) ++ rest) = some found ∧
      (hides = false → found.greatest = n + 2) ∧ found.text = ends ∧ found.column = n + 2 ∧
      found.rest = literalLines (n + 2) false lines ++ rest := by
  obtain ⟨c, lines, rfl, hc⟩ := hlines.exists_head
  have hstart : literalLines (n + 2) false (c :: lines) = c :: literalLines (n + 2) false lines := by
    simp [literalLines, hc]
  rw [literalLines_ends hends, literalLines_start _ hc, hstart, List.append_assoc, List.append_assoc]
  cases hides with
  | true =>
    have hline := blockBreaks_line (n + 2) hc (by omega) 0 (literalLines (n + 2) false lines ++ rest)
    exact ⟨_, blockBreaks_ends hends 0 hline, by simp, by simp, rfl, rfl⟩
  | false =>
    obtain ⟨rfl, hblank⟩ := hhides rfl
    have hline : blockBreaks 0 0 0 (List.replicate (n + 2) ' ' ++
        c :: (literalLines (n + 2) false lines ++ rest)) =
        some ⟨[], n + 2, max (n + 2) 0, 0, c :: (literalLines (n + 2) false lines ++ rest)⟩ := by
      rw [blockBreaks_indentation (.inl rfl), Nat.zero_add]
      exact blockBreaks_stop hc (fun _ => hblank c rfl) 0 _
    exact ⟨_, hline, by simp, rfl, rfl, rfl⟩

/-- A first line whose indentation can be seen starts with a character of the text that is no blank. -/
theorem head_of_hidesIndentation {text : List Char} (hprint : ∀ c ∈ text, isPrintable c = true)
    (hne : text ≠ []) {behind ends lines : List Char} (hends : ∀ c ∈ ends, IsSeparator c)
    (hfull : text ++ behind = ends ++ lines) (h : hidesIndentation text = false) :
    ends = [] ∧ ∀ c ∈ lines.head?, isBlank c = false := by
  obtain ⟨c, text, rfl⟩ := List.exists_cons_of_ne_nil hne
  simp only [hidesIndentation, List.head?_cons, Option.any_some, Bool.or_eq_false_iff,
    decide_eq_false_iff_not] at h
  cases ends with
  | nil =>
    refine ⟨rfl, ?_⟩
    rw [← List.nil_append lines, ← hfull]
    rintro d ⟨⟩
    exact isBlank_of_isPrintable (hprint c List.mem_cons_self) h.1
  | cons e ends =>
    obtain rfl : c = e := (List.cons.inj hfull).1
    have hbreak := (hends c List.mem_cons_self).1
    rw [h.2] at hbreak
    cases hbreak

theorem chompingOf_of_separators {text : List Char} (hne : text ≠ []) (h : ∀ c ∈ text, IsSeparator c) :
    chompingOf text = .keep := by
  obtain ⟨body, x, rfl⟩ := text.eq_nil_or_concat.resolve_left hne
  rw [List.concat_eq_append] at h ⊢
  rw [chompingOf_concat, if_neg (by simp [(h x (by simp)).1]), if_pos]
  refine (Option.all_eq_true _ _).mpr fun d hd => ?_
  exact (h d (List.mem_append_left [x] (List.mem_of_getLast? hd))).1

/-- With the line end behind it, a text in a block has line ends first, and then lines, if any. -/
theorem exists_lines_block {text : List Char} (hprint : ∀ c ∈ text, isPrintable c = true) (hne : text ≠ []) :
    ∃ ends lines, text ++ ScalarStyle.literal.lineEnd text = ends ++ lines ∧ (∀ c ∈ ends, IsSeparator c) ∧
      (lines = [] ∨ IsLines lines) := by
  obtain ⟨body, x, rfl⟩ := text.eq_nil_or_concat.resolve_left hne
  rw [List.concat_eq_append] at hprint ⊢
  by_cases hx : isBreak x = true
  · have hown : ScalarStyle.literal.lineEnd (body ++ [x]) = [] := by simp [ScalarStyle.lineEnd, hx]
    rw [hown, List.append_nil]
    exact exists_lines hprint hx
  · have hnew : ScalarStyle.literal.lineEnd (body ++ [x]) = ['\n'] := by simp [ScalarStyle.lineEnd, hx]
    rw [hnew]
    refine exists_lines (fun c hc => ?_) rfl
    rcases List.mem_append.mp hc with hc | hc
    · exact hprint c hc
    · rw [List.mem_singleton.mp hc]
      rfl

/-- A block of line ends only. -/
theorem block_separators {text : List Char} (hne : text ≠ []) (h : ∀ c ∈ text, IsSeparator c)
    {indent column : Nat} (hcolumn : column ≤ indent) {rest : List Char} (hrest : Stops rest) (number : Nat) :
    block true (indent + 1) number (literalMarks text ++ '\n' :: (literalLines (indent + 2) true text ++
        (List.replicate column ' ' ++ rest))) =
      some (text, ⟨rest, number + 1 + text.length, column, true, []⟩) := by
  have hhides : hidesIndentation text = true := by
    obtain ⟨c, text, rfl⟩ := List.exists_cons_of_ne_nil hne
    simp [hidesIndentation, (h c List.mem_cons_self).1]
  have hwritten : literalLines (indent + 2) true text = text := by
    have hall := literalLines_ends (n := indent + 2) h []
    rwa [List.append_nil, literalLines, List.append_nil] at hall
  have hbehind : blockBreaks (indent + 2) 0 0 (List.replicate column ' ' ++ rest) = _ :=
    blockBreaks_behind (by omega) hrest 0
  have hfound := blockBreaks_ends h 0 hbehind
  rw [hwritten, block_eq (by rw [hhides]; exact hfound) (by simp [hhides]), blockLines_end (by simp; omega),
    chompingOf_of_separators hne h]
  simp [Chomping.ending]

/-- A text in a block is read back, with what stands behind it. -/
theorem block_text {text : List Char} (hprint : ∀ c ∈ text, isPrintable c = true) (hne : text ≠ [])
    {indent column : Nat} (hcolumn : column ≤ indent) {rest : List Char} (hrest : Stops rest) (number : Nat) :
    ∃ number₁, block true (indent + 1) number (literalMarks text ++ '\n' :: (literalLines (indent + 2) true text ++
        (ScalarStyle.literal.lineEnd text ++ (List.replicate column ' ' ++ rest)))) =
      some (text, ⟨rest, number₁, column, true, []⟩) := by
  obtain ⟨ends, lines, hfull, hends, hlines⟩ := exists_lines_block hprint hne
  rcases hlines with rfl | hlines
  · have hall : ∀ c ∈ text, IsSeparator c := fun c hc => hends c (by
      rw [← List.append_nil ends, ← hfull]
      exact List.mem_append_left _ hc)
    have hown : ScalarStyle.literal.lineEnd text = [] := by
      obtain ⟨body, x, rfl⟩ := text.eq_nil_or_concat.resolve_left hne
      simp [ScalarStyle.lineEnd, (hall x (by simp)).1]
    rw [hown, List.nil_append]
    exact ⟨_, block_separators hne hall hcolumn hrest number⟩
  · have hlength := length_le_literalLines (indent + 2) true (ends ++ lines)
    obtain ⟨found, hfound, hgreatest, htext, hfirst, hbehind⟩ := blockBreaks_lines (n := indent) hends hlines
      (head_of_hidesIndentation hprint hne hends hfull) (List.replicate column ' ' ++ rest)
    rw [← List.append_assoc (literalLines _ _ _), literalLines_lineEnd, hfull,
      block_eq hfound hgreatest, htext, hfirst, hbehind]
    -- the bound is the length of the whole text, which only has to exceed that of the lines
    generalize hsteps : List.length _ + 1 = steps
    have hlt : lines.length < steps := by
      simp only [List.length_append, List.length_cons] at hlength hsteps
      omega
    obtain ⟨front, c, more, number₁, hend, hread⟩ := blockLines_text (k := chompingOf text) hlines
      (show column < indent + 2 by omega) hrest false [] ends steps (number + 1 + found.lines) hlt
    refine ⟨number₁, ?_⟩
    have hown := front_append_ending hne (hfull ▸ hend.append ends)
    rw [hread, List.nil_append, hown]

end HelpAudit.Yaml
