import HelpAudit.Toml.Writer

/-! TOML strings are read back. The writer chooses one of four forms by what stands in the text; each form
    is read by a reader of its own. Main statements: `string_renderString` for values, with any text behind
    that does not go on with the quotes, and `simpleKey_renderKey` for keys. -/

namespace HelpAudit.Toml

@[simp] theorem before_some (c : Char) (text rest : List Char) :
    before c (some (text, rest)) = some (c :: text, rest) := rfl

/-- What may stand behind a string: no quote, which could be taken for one of the closing ones. -/
def EndsString (rest : List Char) : Prop := ∀ c ∈ rest.head?, c ≠ '"' ∧ c ≠ '\''

/-- A reader up to three quotes: one or two before them stand for themselves. -/
structure ReadsQuotes (quote : Char) (read : List Char → Option (List Char × List Char)) : Prop where
  inside : ∀ {tail}, (∀ more, tail ≠ quote :: quote :: more) → read (quote :: tail) = before quote (read tail)
  close : ∀ {run : Nat}, run ≤ 2 → ∀ {rest}, rest.head? ≠ some quote →
    read (List.replicate run quote ++ quote :: quote :: quote :: rest) = some (List.replicate run quote, rest)

/-- Quotes that are no closing ones stand for themselves. -/
theorem ReadsQuotes.read_quotes {quote : Char} {read : List Char → Option (List Char × List Char)}
    (h : ReadsQuotes quote read) {run : Nat} (hrun : run ≤ 2) {c : Char} (hc : c ≠ quote)
    {tail text rest : List Char} (hread : read (c :: tail) = some (text, rest)) :
    read (List.replicate run quote ++ c :: tail) = some (List.replicate run quote ++ text, rest) := by
  obtain rfl | rfl | rfl : run = 0 ∨ run = 1 ∨ run = 2 := by omega
  · exact hread
  · rw [List.replicate_one, List.singleton_append, h.inside (by simp [hc]), hread]
    rfl
  · rw [List.replicate_succ, List.replicate_one, List.cons_append, List.singleton_append,
      h.inside (by simp [hc]), h.inside (by simp [hc]), hread]
    rfl

/-! ### Escapes -/

/-- How a character other than the double quote stands in double quotes. -/
def escapedChar (long : Bool) (c : Char) : List Char :=
  if c = '\x08' then ['\\', 'b']
  else if c = '\t' then ['\\', 't']
  else if c = '\n' then (if long then ['\n'] else ['\\', 'n'])
  else if c = '\x0c' then ['\\', 'f']
  else if c = '\r' then ['\\', 'r']
  else if c = '\\' then ['\\', '\\']
  else if c.toNat ≤ 0x1f || c.toNat = 0x7f then
    ['\\', 'u', '0', '0', Nat.digitChar (c.toNat / 16), (Nat.digitChar (c.toNat % 16)).toUpper]
  else [c]

theorem escaped_cons {c : Char} (h : c ≠ '"') (long : Bool) (allowed run : Nat) (text : List Char) :
    escaped long allowed run (c :: text) = escapedChar long c ++ escaped long allowed 0 text := by
  rw [escaped, if_neg h, escapedChar]

/-- What stands for a character starts with a backslash, or with the character itself. -/
theorem exists_head_escapedChar (long : Bool) (c : Char) :
    ∃ d ds, escapedChar long c = d :: ds ∧ (d = '\\' ∨ d = c ∧ c ≠ '\r') := by
  by_cases hline : c = '\n' ∧ long = true
  · obtain ⟨rfl, rfl⟩ := hline
    exact ⟨'\n', [], rfl, .inr ⟨rfl, by decide⟩⟩
  · rw [escapedChar]
    repeat' split
    all_goals first
      | exact ⟨_, _, rfl, .inl rfl⟩
      | exact ⟨_, _, rfl, .inr ⟨rfl, ‹_›⟩⟩
      | exact absurd ⟨‹_›, ‹_›⟩ hline

theorem codePoint?_control {n : Nat} (h : n < 0x80) :
    codePoint? ['0', '0', Nat.digitChar (n / 16), (Nat.digitChar (n % 16)).toUpper] =
      some (Char.ofNat n) := by
  have hall : ∀ n < 0x80,
      codePoint? ['0', '0', Nat.digitChar (n / 16), (Nat.digitChar (n % 16)).toUpper] =
        some (Char.ofNat n) := by decide
  exact hall n h

/-- A reader takes escapes, and all other text as it stands; in a `long` string so does a line end. -/
structure ReadsEscapes (long : Bool) (read : List Char → Option (List Char × List Char)) : Prop where
  escape : ∀ {e c : Char}, escape? e = some c → ∀ tail, read ('\\' :: e :: tail) = before c (read tail)
  code : ∀ {a b c d found : Char}, codePoint? [a, b, c, d] = some found → ∀ tail,
    read ('\\' :: 'u' :: a :: b :: c :: d :: tail) = before found (read tail)
  raw : ∀ {c : Char}, isText c → c ≠ '"' → c ≠ '\\' → ∀ tail, read (c :: tail) = before c (read tail)
  line : long → ∀ tail, read ('\n' :: tail) = before '\n' (read tail)

/-- Such a reader takes what the writer puts for a character. -/
theorem ReadsEscapes.read_escapedChar {long : Bool} {read : List Char → Option (List Char × List Char)}
    (h : ReadsEscapes long read) {c : Char} (hc : c ≠ '"') (tail : List Char) :
    read (escapedChar long c ++ tail) = before c (read tail) := by
  rw [escapedChar]
  split
  · subst_vars; exact h.escape rfl tail
  split
  · subst_vars; exact h.escape rfl tail
  split
  · subst_vars
    cases long with
    | false => exact h.escape rfl tail
    | true => exact h.line rfl tail
  split
  · subst_vars; exact h.escape rfl tail
  split
  · subst_vars; exact h.escape rfl tail
  split
  · subst_vars; exact h.escape rfl tail
  split
  · -- a control character without an escape of its own is written as its code
    rename_i hcontrol
    simp only [Bool.or_eq_true, decide_eq_true_eq] at hcontrol
    have hcodePoint := codePoint?_control (n := c.toNat) (by omega)
    rw [Char.ofNat_toNat] at hcodePoint
    exact h.code hcodePoint tail
  · rename_i hslash hcontrol
    simp only [Bool.or_eq_true, decide_eq_true_eq, not_or] at hcontrol
    have htext : isText c := by
      simp only [isText, Bool.or_eq_true, Bool.and_eq_true, decide_eq_true_eq]
      exact .inr ⟨by omega, hcontrol.2⟩
    exact h.raw htext hc hslash tail

/-! ### Double quotes -/

section Basic

attribute [local simp] basic

theorem readsEscapes_basic : ReadsEscapes false basic := by
  refine ⟨?_, ?_, ?_, by simp⟩
  · intro e c h tail
    have hu : e ≠ 'u' := by rintro rfl; cases h
    have hU : e ≠ 'U' := by rintro rfl; cases h
    simp [hu, hU, h]
  · intro a b c d found h tail
    rw [basic, h]
  · intro c h hquote hslash tail
    rw [basic.eq_def]
    split <;> simp_all

theorem basic_escaped (text rest : List Char) (run : Nat) :
    basic (escaped false 0 run text ++ '"' :: rest) = some (text, rest) := by
  induction text generalizing run with
  | nil => simp [escaped]
  | cons c text ih =>
    by_cases hc : c = '"'
    · subst hc
      rw [escaped, if_pos rfl, if_neg (by omega), List.cons_append, List.cons_append,
        readsEscapes_basic.escape rfl, ih, before_some]
    · rw [escaped_cons hc, List.append_assoc, readsEscapes_basic.read_escapedChar hc, ih, before_some]

end Basic

/-! ### Three double quotes -/

section LongBasic

attribute [local simp] longBasic

theorem readsEscapes_longBasic : ReadsEscapes true (longBasic false) := by
  refine ⟨?_, ?_, ?_, fun _ _ => rfl⟩
  · intro e c h tail
    have hu : e ≠ 'u' := by rintro rfl; cases h
    have hU : e ≠ 'U' := by rintro rfl; cases h
    simp [hu, hU, h]
  · intro a b c d found h tail
    rw [longBasic, h]
  · intro c h hquote hslash tail
    have hline : c ≠ '\n' := by rintro rfl; cases h
    have hreturn : c ≠ '\r' := by rintro rfl; cases h
    rw [longBasic.eq_def]
    split <;> simp_all

theorem readsQuotes_longBasic : ReadsQuotes '"' (longBasic false) := by
  constructor
  · intro tail h
    rw [longBasic]
    · rfl
    all_goals simp_all
  · intro run h rest hrest
    obtain rfl | rfl | rfl : run = 0 ∨ run = 1 ∨ run = 2 := by omega
    · cases rest <;> simp_all
    · cases rest <;> simp_all
    · rfl

end LongBasic

-- the quotes written just before the text stand in front, since they may belong to the closing ones
/-- What is written between three double quotes is read back. -/
theorem longBasic_escaped {rest : List Char} (hrest : EndsString rest) (text : List Char) (run : Nat)
    (h : run ≤ 2) :
    longBasic false (List.replicate run '"' ++
      (escaped true 2 run text ++ ("\"\"\"".toList ++ rest))) =
      some (List.replicate run '"' ++ text, rest) := by
  induction text generalizing run with
  | nil => simpa [escaped] using readsQuotes_longBasic.close h fun hquote => (hrest '"' hquote).1 rfl
  | cons c text ih =>
    by_cases hc : c = '"'
    · subst hc
      rw [escaped, if_pos rfl]
      split
      · have hnext := ih (run + 1) (by omega)
        rw [List.replicate_succ'] at hnext
        simpa using hnext
      · have hnext : longBasic false (escaped true 2 0 text ++ _) = _ := ih 0 (by omega)
        exact readsQuotes_longBasic.read_quotes h (by decide)
          ((readsEscapes_longBasic.escape rfl _).trans (congrArg (before '"') hnext))
    · obtain ⟨d, ds, hd, hhead⟩ := exists_head_escapedChar true c
      have hquote : d ≠ '"' := by
        rcases hhead with rfl | ⟨rfl, -⟩
        · decide
        · exact hc
      have hnext : longBasic false (escaped true 2 0 text ++ _) = _ := ih 0 (by omega)
      have hread := readsEscapes_longBasic.read_escapedChar hc
        (escaped true 2 0 text ++ ("\"\"\"".toList ++ rest))
      rw [hd, hnext, List.cons_append] at hread
      rw [escaped_cons hc, List.append_assoc, hd, List.cons_append]
      exact readsQuotes_longBasic.read_quotes h hquote hread

/-! ### Single quotes -/

theorem literal_append {text : List Char} (htext : ∀ c ∈ text, isText c) (hquote : '\'' ∉ text)
    (rest : List Char) : literal (text ++ '\'' :: rest) = some (text, rest) := by
  induction text with
  | nil => rfl
  | cons c text ih =>
    have hc : c ≠ '\'' := by
      rintro rfl
      exact hquote List.mem_cons_self
    have hrest := ih (fun d hd => htext d (List.mem_cons_of_mem c hd))
      (fun hmem => hquote (List.mem_cons_of_mem c hmem))
    rw [List.cons_append, literal, if_pos (htext c List.mem_cons_self), hrest, before_some]
    exact fun h => hc h

/-! ### Runs -/

/-- The longest run of a character, when one of a length is going on and another one was the longest. -/
def longestFrom (c : Char) (state : Nat × Nat) (text : List Char) : Nat :=
  (text.foldl (fun (run, longest) d =>
    if d = c then (run + 1, max (run + 1) longest) else (0, longest)) state).2

theorem longestFrom_self (c : Char) (run longest : Nat) (text : List Char) :
    longestFrom c (run, longest) (c :: text) =
      longestFrom c (run + 1, max (run + 1) longest) text := by
  simp [longestFrom]

theorem longestFrom_of_ne {c d : Char} (h : d ≠ c) (run longest : Nat) (text : List Char) :
    longestFrom c (run, longest) (d :: text) = longestFrom c (0, longest) text := by
  simp [longestFrom, h]

theorem le_longestFrom (c : Char) (run longest : Nat) (text : List Char) :
    longest ≤ longestFrom c (run, longest) text := by
  induction text generalizing run longest with
  | nil => exact Nat.le_refl _
  | cons d text ih =>
    by_cases hd : d = c
    · subst hd
      rw [longestFrom_self]
      exact Nat.le_trans (Nat.le_max_right _ _) (ih _ _)
    · rw [longestFrom_of_ne hd]
      exact ih 0 longest

/-- A run that goes on is no longer than the longest one. -/
theorem succ_le_longestFrom (c : Char) (run longest : Nat) (text : List Char) :
    run + 1 ≤ longestFrom c (run, longest) (c :: text) := by
  rw [longestFrom_self]
  exact Nat.le_trans (Nat.le_max_left _ _) (le_longestFrom c _ _ text)

theorem not_mem_of_longestFrom {c : Char} {text : List Char} {run : Nat}
    (h : longestFrom c (run, 0) text = 0) : c ∉ text := by
  induction text generalizing run with
  | nil => exact List.not_mem_nil
  | cons d text ih =>
    by_cases hd : d = c
    · subst hd
      have hle := succ_le_longestFrom d run 0 text
      omega
    · rw [longestFrom_of_ne hd] at h
      simpa [Ne.symm hd] using ih h

/-! ### Three single quotes -/

theorem isText_of_needsEscape {c : Char} (h : needsEscape c = false) (hc : c ≠ '\n') : isText c := by
  simp only [needsEscape, ne_eq, decide_not, Bool.and_eq_false_iff, Bool.not_eq_false',
    decide_eq_true_eq, Bool.or_eq_false_iff, decide_eq_false_iff_not] at h
  simp only [isText, Bool.or_eq_true, Bool.and_eq_true, decide_eq_true_eq, ne_eq]
  rcases h with (htab | hline) | hcontrol
  · exact .inl htab
  · exact absurd hline hc
  · exact .inr ⟨by omega, hcontrol.2⟩

section LongLiteral

attribute [local simp] longLiteral

theorem longLiteral_raw {c : Char} (h : needsEscape c = false) (hquote : c ≠ '\'')
    (tail : List Char) : longLiteral (c :: tail) = before c (longLiteral tail) := by
  have hreturn : c ≠ '\r' := by rintro rfl; cases h
  by_cases hc : c = '\n'
  · subst hc
    rfl
  · have htext := isText_of_needsEscape h hc
    rw [longLiteral.eq_def]
    split <;> simp_all

theorem readsQuotes_longLiteral : ReadsQuotes '\'' longLiteral := by
  constructor
  · intro tail h
    rw [longLiteral]
    · rfl
    all_goals simp_all
  · intro run h rest hrest
    obtain rfl | rfl | rfl : run = 0 ∨ run = 1 ∨ run = 2 := by omega
    · cases rest <;> simp_all
    · cases rest <;> simp_all
    · rfl

end LongLiteral

/-- What is written between three single quotes is read back. -/
theorem longLiteral_append {rest : List Char} (hrest : EndsString rest) {text : List Char}
    (hescape : ∀ c ∈ text, needsEscape c = false) (run longest : Nat) (hrun : run ≤ 2)
    (h : longestFrom '\'' (run, longest) text ≤ 2) :
    longLiteral (List.replicate run '\'' ++ (text ++ ("\'\'\'".toList ++ rest))) =
      some (List.replicate run '\'' ++ text, rest) := by
  induction text generalizing run longest with
  | nil => simpa using readsQuotes_longLiteral.close hrun fun hquote => (hrest '\'' hquote).2 rfl
  | cons c text ih =>
    have hescapes : ∀ d ∈ text, needsEscape d = false := fun d hd => hescape d (List.mem_cons_of_mem c hd)
    by_cases hc : c = '\''
    · subst hc
      have hle : run + 1 ≤ 2 := Nat.le_trans (succ_le_longestFrom '\'' run longest text) h
      rw [longestFrom_self] at h
      have hnext := ih hescapes (run + 1) _ hle h
      rw [List.replicate_succ'] at hnext
      simpa using hnext
    · rw [longestFrom_of_ne hc] at h
      have hnext : longLiteral (text ++ _) = _ := ih hescapes 0 longest (by omega) h
      exact readsQuotes_longLiteral.read_quotes hrun hc
        ((longLiteral_raw (hescape c List.mem_cons_self) hc _).trans (congrArg (before c) hnext))

/-! ### Values -/

theorem StringForm.of_eq_literal {text : List Char} (h : StringForm.of text = .literal) :
    (∀ c ∈ text, isText c) ∧ '\'' ∉ text ∧ text ≠ [] := by
  simp only [StringForm.of] at h
  split at h
  · cases h
  · rename_i hbasic
    split at h
    · rename_i hliteral
      simp only [Bool.and_eq_true, Bool.not_eq_true', List.any_eq_false, decide_eq_true_eq,
        List.contains_eq_mem, decide_eq_false_iff_not] at hliteral
      refine ⟨?_, not_mem_of_longestFrom hliteral.1.2, ?_⟩
      · intro c hc
        refine isText_of_needsEscape (Bool.eq_false_iff.mpr (hliteral.1.1 c hc)) ?_
        rintro rfl
        exact hliteral.2 hc
      · rintro rfl
        exact hbasic rfl
    · repeat' split at h
      all_goals cases h

theorem StringForm.of_eq_longLiteral {text : List Char} (h : StringForm.of text = .longLiteral) :
    (∀ c ∈ text, needsEscape c = false) ∧ longestRun '\'' text ≤ 2 := by
  simp only [StringForm.of] at h
  repeat' split at h
  all_goals try cases h
  rename_i hlong
  simp only [Bool.and_eq_true, Bool.not_eq_true', List.any_eq_false, decide_eq_true_eq] at hlong
  exact ⟨fun c hc => Bool.eq_false_iff.mpr (hlong.1 c hc), hlong.2⟩

/-- The line end after the opening of a long string is dropped, and no other one. -/
theorem dropLineEnd_opening {text tail : List Char}
    (h : ∀ c ∈ tail.head?, c ≠ '\r' ∧ (c = '\n' → '\n' ∈ text)) :
    dropLineEnd ((if text.contains '\n' then ['\n'] else []) ++ tail) = tail := by
  by_cases hline : '\n' ∈ text
  · simp [hline, dropLineEnd]
  · rw [if_neg (by simpa using hline), List.nil_append, dropLineEnd.eq_def]
    split
    · exact absurd ((h '\n' rfl).2 rfl) hline
    · exact absurd rfl (h '\r' rfl).1
    · rfl

section Forms

attribute [local simp] string StringForm.render

theorem string_longBasic (text : List Char) {rest : List Char} (hrest : EndsString rest) :
    string (StringForm.longBasic.render text ++ rest) = some (text, rest) := by
  have hread : longBasic false (escaped true 2 0 text ++ ("\"\"\"".toList ++ rest)) = some (text, rest) :=
    longBasic_escaped hrest text 0 (by omega)
  -- the line end that the reader drops behind the quotes is the writer's, never one of the text
  have hopening : ∀ c ∈ (escaped true 2 0 text ++ ("\"\"\"".toList ++ rest)).head?,
      c ≠ '\r' ∧ (c = '\n' → '\n' ∈ text) := by
    cases text with
    | nil =>
      rintro c ⟨⟩
      decide
    | cons c text =>
      by_cases hc : c = '"'
      · subst hc
        rintro c ⟨⟩
        exact ⟨by decide, fun h => absurd h (by decide)⟩
      · obtain ⟨d, ds, hd, hhead⟩ := exists_head_escapedChar true c
        rw [escaped_cons hc, hd]
        rintro e ⟨⟩
        rcases hhead with rfl | ⟨rfl, hreturn⟩
        · exact ⟨by decide, fun h => absurd h (by decide)⟩
        · exact ⟨hreturn, fun h => h ▸ List.mem_cons_self⟩
  simp only [StringForm.render, List.append_assoc]
  exact (congrArg (longBasic false) (dropLineEnd_opening hopening)).trans hread

theorem string_longLiteral {text : List Char} (hescape : ∀ c ∈ text, needsEscape c = false)
    (hrun : longestRun '\'' text ≤ 2) {rest : List Char} (hrest : EndsString rest) :
    string (StringForm.longLiteral.render text ++ rest) = some (text, rest) := by
  have hread : longLiteral (text ++ ("\'\'\'".toList ++ rest)) = some (text, rest) :=
    longLiteral_append hrest hescape 0 0 (by omega) hrun
  have hopening : ∀ c ∈ (text ++ ("\'\'\'".toList ++ rest)).head?,
      c ≠ '\r' ∧ (c = '\n' → '\n' ∈ text) := by
    cases text with
    | nil =>
      rintro c ⟨⟩
      decide
    | cons c text =>
      rintro d ⟨⟩
      refine ⟨?_, fun h => h ▸ List.mem_cons_self⟩
      rintro rfl
      exact absurd (hescape '\r' List.mem_cons_self) (by decide)
  simp only [StringForm.render, List.append_assoc]
  exact (congrArg longLiteral (dropLineEnd_opening hopening)).trans hread

theorem string_basic (text : List Char) {rest : List Char} (hrest : EndsString rest) :
    string (StringForm.basic.render text ++ rest) = some (text, rest) := by
  have hread := basic_escaped text rest 0
  -- only the quotes of the empty text stand together
  have hopening : ∀ tail, escaped false 0 0 text ++ '"' :: rest ≠ '"' :: '"' :: tail := by
    intro tail heq
    cases text with
    | nil =>
      obtain rfl : rest = '"' :: tail := by simpa [escaped] using heq
      exact (hrest '"' rfl).1 rfl
    | cons c text =>
      by_cases hc : c = '"'
      · simp [escaped, hc] at heq
      · obtain ⟨d, ds, hd, hhead⟩ := exists_head_escapedChar false c
        rw [escaped_cons hc, hd] at heq
        obtain rfl : d = '"' := (List.cons.inj heq).1
        rcases hhead with hslash | ⟨rfl, -⟩
        · cases hslash
        · exact hc rfl
  simp only [StringForm.render, List.cons_append, List.append_assoc, List.nil_append]
  rw [string]
  · exact hread
  all_goals simp_all

theorem string_literal {text : List Char} (htext : ∀ c ∈ text, isText c) (hquote : '\'' ∉ text)
    (hne : text ≠ []) (rest : List Char) :
    string (StringForm.literal.render text ++ rest) = some (text, rest) := by
  have hread := literal_append htext hquote rest
  obtain ⟨c, text, rfl⟩ := List.exists_cons_of_ne_nil hne
  have hc : c ≠ '\'' := by
    rintro rfl
    exact hquote List.mem_cons_self
  simp only [StringForm.render, List.cons_append, List.append_assoc, List.nil_append] at hread ⊢
  rw [string]
  · exact hread
  all_goals simp_all

end Forms

/-- A string is read back whatever its form. -/
theorem string_renderString (text : List Char) {rest : List Char} (hrest : EndsString rest) :
    string (renderString text ++ rest) = some (text, rest) := by
  rw [renderString]
  cases hform : StringForm.of text with
  | basic => exact string_basic text hrest
  | literal =>
    obtain ⟨htext, hquote, hne⟩ := StringForm.of_eq_literal hform
    exact string_literal htext hquote hne rest
  | longBasic => exact string_longBasic text hrest
  | longLiteral =>
    obtain ⟨hescape, hrun⟩ := StringForm.of_eq_longLiteral hform
    exact string_longLiteral hescape hrun hrest

/-! ### Keys -/

/-- A bare key is read up to the first character that cannot stand in it. -/
theorem simpleKey_bare {text : List Char} (hne : text ≠ []) (h : ∀ c ∈ text, isBareChar c)
    {rest : List Char} (hrest : ∀ c ∈ rest.head?, isBareChar c = false) :
    simpleKey (text ++ rest) = some (.ofList text, rest) := by
  obtain ⟨c, text, rfl⟩ := List.exists_cons_of_ne_nil hne
  have hc := h c List.mem_cons_self
  have hstop : rest.takeWhile isBareChar = [] ∧ rest.dropWhile isBareChar = rest := by
    cases rest with
    | nil => exact ⟨rfl, rfl⟩
    | cons d rest => simp [hrest d rfl]
  have htake : (c :: text ++ rest).takeWhile isBareChar = c :: text := by
    rw [List.takeWhile_append_of_pos h, hstop.1, List.append_nil]
  have hdrop : (c :: text ++ rest).dropWhile isBareChar = rest := by
    rw [List.dropWhile_append_of_pos h, hstop.2]
  rw [simpleKey.eq_def]
  split
  · rename_i heq
    obtain rfl : c = '"' := (List.cons.inj heq).1
    cases hc
  · rename_i heq
    obtain rfl : c = '\'' := (List.cons.inj heq).1
    cases hc
  · rw [htake, hdrop]

theorem simpleKey_basic (text rest : List Char) :
    simpleKey (StringForm.basic.render text ++ rest) = some (.ofList text, rest) := by
  have hread := basic_escaped text rest 0
  simp only [StringForm.render, List.cons_append, List.append_assoc, List.nil_append]
  rw [simpleKey, hread]
  rfl

theorem simpleKey_literal {text : List Char} (htext : ∀ c ∈ text, isText c) (hquote : '\'' ∉ text)
    (rest : List Char) :
    simpleKey (StringForm.literal.render text ++ rest) = some (.ofList text, rest) := by
  have hread := literal_append htext hquote rest
  simp only [StringForm.render, List.cons_append, List.append_assoc, List.nil_append]
  rw [simpleKey, hread]
  rfl

theorem simpleKey_renderKey (name : String) {rest : List Char}
    (hrest : ∀ c ∈ rest.head?, isBareChar c = false) :
    simpleKey (renderKey name ++ rest) = some (name, rest) := by
  simp only [renderKey]
  split
  · rename_i hbare
    simp only [Bool.and_eq_true, Bool.not_eq_true', List.isEmpty_eq_false_iff, List.all_eq_true] at hbare
    rw [simpleKey_bare hbare.1 hbare.2 hrest, String.ofList_toList]
  split
  · rw [simpleKey_basic, String.ofList_toList]
  split
  · rename_i hliteral
    simp only [Bool.and_eq_true, Bool.not_eq_true', List.any_eq_false, Bool.or_eq_true,
      decide_eq_true_eq, not_or, List.contains_eq_mem, decide_eq_false_iff_not] at hliteral
    have htext : ∀ c ∈ name.toList, isText c := fun c hc =>
      isText_of_needsEscape (Bool.eq_false_iff.mpr (hliteral.1 c hc).1) (hliteral.1 c hc).2
    rw [simpleKey_literal htext hliteral.2, String.ofList_toList]
  · rw [simpleKey_basic, String.ofList_toList]

/-- A key starts with a quote or one of the characters that need none. -/
theorem exists_head_renderKey (name : String) :
    ∃ c cs, renderKey name = c :: cs ∧ (isBareChar c ∨ c = '"' ∨ c = '\'') := by
  simp only [renderKey]
  split
  · rename_i hbare
    simp only [Bool.and_eq_true, Bool.not_eq_true', List.isEmpty_eq_false_iff, List.all_eq_true] at hbare
    obtain ⟨c, cs, hcs⟩ := List.exists_cons_of_ne_nil hbare.1
    exact ⟨c, cs, hcs, .inl (hbare.2 c (hcs ▸ List.mem_cons_self))⟩
  split
  · exact ⟨'"', _, rfl, .inr (.inl rfl)⟩
  split
  · exact ⟨'\'', _, rfl, .inr (.inr rfl)⟩
  · exact ⟨'"', _, rfl, .inr (.inl rfl)⟩

end HelpAudit.Toml
