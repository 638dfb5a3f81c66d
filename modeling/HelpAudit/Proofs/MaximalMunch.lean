import HelpAudit.Proofs.DeclaredPatterns

/-! The lexer takes the longest match. At every place it takes a text of the lexeme's pattern that no
    pattern can exceed. Where two patterns match equally much one of them is that of words, since no other
    two have a text in common, and then the other one is preferred; only a keyword gives way, in front of
    a character outside ASCII. -/

namespace HelpAudit.Lexeme

/-! ### Preference -/

/-- What comes first in the list is preferred, so it must be shorter than what is chosen behind it. -/
theorem lt_of_firstLongest {α : Type} {xs ys : List (α × Nat)} {y : α × Nat}
    (h : firstLongest (xs ++ ys) = some y) (hy : y ∉ xs) : ∀ x ∈ xs, x.2 < y.2 := by
  induction xs with
  | nil => simp
  | cons x xs ih =>
    rw [List.mem_cons, not_or] at hy
    rw [List.cons_append, firstLongest] at h
    split at h
    · rename_i best hbest
      split at h
      · cases h
        exact List.forall_mem_cons.mpr ⟨‹_›, ih hbest hy.2⟩
      · exact absurd (Option.some.inj h).symm hy.1
    · exact absurd (Option.some.inj h).symm hy.1

/-- All patterns but the last two, those of words and of single characters. -/
theorem exists_patterns : ∃ preferred, patterns = preferred ++
      [(.token .word, fun cs => nonempty (run isWordPart cs)), (.token .other, lone)] ∧
    ∀ pattern ∈ preferred, pattern.1 ≠ .token .word := by
  refine ⟨patterns.dropLast.dropLast, rfl, ?_⟩
  have hall : (patterns.dropLast.dropLast.all fun pattern => pattern.1 != .token .word) = true := rfl
  simpa using hall

/-- A word is taken only where every other pattern matches less. -/
theorem lt_of_word {cs : List Char} {n : Nat} (h : head? cs = some (.token .word, n)) {lexeme : Lexeme}
    {pattern : List Char → Option Nat} {m : Nat} (hmem : (lexeme, pattern) ∈ patterns)
    (hm : pattern cs = some m) (hword : lexeme ≠ .token .word) : m < n ∨ lexeme = .token .other := by
  obtain ⟨preferred, hpatterns, hnone⟩ := exists_patterns
  have hchosen := firstLongest_of_head? h
  rw [candidates, hpatterns, List.filterMap_append] at hchosen
  rw [hpatterns] at hmem
  rcases List.mem_append.mp hmem with hfirst | hlast
  · left
    refine lt_of_firstLongest hchosen ?_ (lexeme, m) ?_
    · intro hword'
      obtain ⟨other, hother, hpair⟩ := List.mem_filterMap.mp hword'
      obtain ⟨k, -, hk⟩ := Option.map_eq_some_iff.mp hpair
      exact hnone other hother (Prod.mk.inj hk).1
    · exact List.mem_filterMap.mpr ⟨_, hfirst, Option.map_eq_some_iff.mpr ⟨m, hm, rfl⟩⟩
  · right
    rcases List.mem_cons.mp hlast with heq | hlast
    · exact absurd (Prod.mk.inj heq).1 hword
    · exact (Prod.mk.inj (List.mem_singleton.mp hlast)).1

/-! ### No two patterns but those of words have a text in common -/

/-- A character is a form of one ASCII letter at most. -/
theorem folds_injective {letter other c : Char} (hletter : letter.toNat < 128)
    (hother : other.toNat < 128) (h : folds letter c = true) (h' : folds other c = true) :
    letter = other := by
  have hkelvin : ¬ '\u212a'.toLower.toNat < 128 := by decide
  have hlong : ¬ '\u017f'.toLower.toNat < 128 := by decide
  simp only [folds, Bool.or_eq_true, Bool.and_eq_true, beq_iff_eq] at h h'
  rcases h with (h | ⟨rfl, rfl⟩) | ⟨rfl, rfl⟩
  · rcases h' with (h' | ⟨rfl, rfl⟩) | ⟨rfl, rfl⟩
    · exact h.symm.trans h'
    · exact absurd (h ▸ hletter) hkelvin
    · exact absurd (h ▸ hletter) hlong
  · rcases h' with (h' | ⟨rfl, -⟩) | ⟨-, heq⟩
    · exact absurd (h' ▸ hother) hkelvin
    · rfl
    · cases heq
  · rcases h' with (h' | ⟨-, heq⟩) | ⟨rfl, -⟩
    · exact absurd (h' ▸ hother) hlong
    · cases heq
    · rfl

/-- A text spells one word at most. -/
theorem afterFolded_unique : ∀ {text letters others : List Char},
    (∀ w ∈ letters, w.toNat < 128) → (∀ w ∈ others, w.toNat < 128) →
    afterFolded letters text = some [] → afterFolded others text = some [] → letters = others
  | [], letters, others, _, _, h, h' => by
    have hlength := afterFolded_length h
    have hlength' := afterFolded_length h'
    simp only [List.length_nil] at hlength hlength'
    rw [List.length_eq_zero_iff.mp (by omega : letters.length = 0),
      List.length_eq_zero_iff.mp (by omega : others.length = 0)]
  | c :: text, letters, others, hletters, hothers, h, h' => by
    cases letters with
    | nil => cases h
    | cons letter letters =>
      cases others with
      | nil => cases h'
      | cons other others =>
        obtain ⟨hletter, hletters⟩ := List.forall_mem_cons.mp hletters
        obtain ⟨hother, hothers⟩ := List.forall_mem_cons.mp hothers
        rw [afterFolded] at h h'
        split at h
        · split at h'
          · rw [folds_injective hletter hother ‹_› ‹_›,
              afterFolded_unique hletters hothers h h']
          · cases h'
        · cases h

/-- A text is no more than one keyword. -/
theorem spells_unique {word other : Keyword} {text : List Char} (h : Spells word text)
    (h' : Spells other text) : word = other := by
  have hascii : (Keyword.all.all fun word => word.text.toList.all fun w => w.toNat < 128) = true := by
    decide +kernel
  have hdistinct : (Keyword.all.all fun word => Keyword.all.all fun other =>
      word.text.toList != other.text.toList || word == other) = true := by decide +kernel
  simp only [List.all_eq_true, decide_eq_true_eq] at hascii hdistinct
  have htext := afterFolded_unique (hascii word (Keyword.mem_all word))
    (hascii other (Keyword.mem_all other)) h h'
  simpa [htext] using hdistinct word (Keyword.mem_all word) other (Keyword.mem_all other)

/-- A match of two or more characters is preferred to the first of them alone. -/
theorem head?_of_candidates_other {cs : List Char} {lexeme : Lexeme} {n : Nat} (hn : 2 ≤ n)
    (hcandidates : candidates cs = [(lexeme, n), (.token .other, 1)])
    (hclosed : startsBraced cs = true → bracedVariable cs ≠ none) : head? cs = some (lexeme, n) := by
  rw [head?, hcandidates, if_neg]
  · simp only [firstLongest]
    rw [if_neg (by omega)]
  · intro hboth
    obtain ⟨hstarts, hnone⟩ := Bool.and_eq_true_iff.mp hboth
    exact hclosed hstarts (Option.isNone_iff_eq_none.mp hnone)

theorem head?_plainVariable {text : List Char} (h : text ∈ plainVariables) :
    ∃ n, head? text = some (.token .var, n) := by
  obtain ⟨more, hmore, rfl⟩ := mem_exactly_mul.mp h
  rcases hmore with hname | ⟨c, hc, rfl⟩
  · obtain ⟨word, hword, tail, -, rfl⟩ := Language.mem_mul.mp hname
    obtain ⟨hne, hall⟩ := mem_someOf.mp hword
    obtain ⟨c, name, rfl⟩ := List.exists_cons_of_ne_nil hne
    have hc := hall c List.mem_cons_self
    have hbrace : c ≠ '\x7b' := by rintro rfl; exact absurd hc (by decide)
    obtain ⟨n, hn, hle⟩ := finds_plainVariable.complete _ [] h
    rw [List.append_nil] at hn
    refine ⟨n, head?_of_candidates_other (two_le_plainVariable hn) (candidates_variable hc hn) ?_⟩
    intro hstarts
    simp [startsBraced, hbrace] at hstarts
  · have hspecial : c = '$' ∨ c = '?' ∨ c = '^' := by simpa [or_assoc] using hc
    refine ⟨2, ?_⟩
    rcases hspecial with rfl | rfl | rfl
    · rfl
    · rfl
    · rfl

theorem head?_bracedVariable {text : List Char} (h : text ∈ bracedVariables) :
    ∃ n, head? text = some (.token .var, n) := by
  obtain ⟨n, hn, hle⟩ := finds_bracedVariable.complete _ [] h
  rw [List.append_nil] at hn
  rw [bracedVariables, mul_assoc] at h
  obtain ⟨more, hmore, rfl⟩ := mem_exactly_mul.mp h
  refine ⟨n, head?_of_candidates_other (Nat.le_of_succ_le (three_le_bracedVariable hn)) ?_ ?_⟩
  · change bracedVariable ('$' :: '\x7b' :: more) = some n at hn
    change candidates ('$' :: '\x7b' :: more) = _
    rw [candidates, List.filterMap_eq_flatMap_toList]
    simp only [patterns, List.flatMap_append, List.flatMap_cons, List.flatMap_nil, hn]
    rfl
  · intro _ hnone
    exact absurd (hnone.symm.trans hn) (by simp)

/-- Alone, a splatted variable is taken as one. -/
theorem head?_splatted {text : List Char} (h : text ∈ (Lexeme.token .splat).declared) :
    ∃ n, head? text = some (.token .splat, n) := by
  obtain ⟨more, hmore, rfl⟩ := mem_exactly_mul.mp h
  obtain ⟨n, hn, hle⟩ := finds_splatted.complete _ [] h
  obtain ⟨hne, hall⟩ := mem_someOf.mp hmore
  obtain ⟨c, name, rfl⟩ := List.exists_cons_of_ne_nil hne
  -- the name starts with a word character, which rules out the four other texts that start with `@`
  have hother : ∀ d, Text.isWord d = false → c ≠ d := by
    rintro d hd rfl
    rw [hall c List.mem_cons_self] at hd
    cases hd
  rw [List.append_nil] at hn
  change splatted ('@' :: c :: name) = some n at hn
  change ('@' :: c :: name).length ≤ n at hle
  change ∃ n, head? ('@' :: c :: name) = some (.token .splat, n)
  have hparen : literal Opener.atParen.text ('@' :: c :: name) = none := by
    simp [literal, Opener.text, List.isPrefixOf, (hother '(' (by decide)).symm]
  have hbrace : literal Opener.atBrace.text ('@' :: c :: name) = none := by
    simp [literal, Opener.text, List.isPrefixOf, (hother '\x7b' (by decide)).symm]
  have hsingle : hereHeader '\x27' ('@' :: c :: name) = none := by
    rw [hereHeader_cons, if_neg fun hboth => hother '\x27' (by decide) hboth.2]
  have hdouble : hereHeader '\x22' ('@' :: c :: name) = none := by
    rw [hereHeader_cons, if_neg fun hboth => hother '\x22' (by decide) hboth.2]
  have hcandidates : candidates ('@' :: c :: name) = [(.token .splat, n), (.token .other, 1)] := by
    rw [candidates, List.filterMap_eq_flatMap_toList]
    simp only [patterns, List.flatMap_append, List.flatMap_cons, List.flatMap_nil, hparen, hbrace,
      hsingle, hdouble, hn]
    rfl
  simp only [List.length_cons] at hle
  -- of the two candidates that remain, the lone `@` is the shorter one
  refine ⟨n, head?_of_candidates_other (by omega) hcandidates ?_⟩
  intro hstarts
  rw [startsBraced_cons] at hstarts
  cases hstarts

theorem head?_keyword {word : Keyword} {text : List Char}
    (h : text ∈ (Lexeme.token (.keyword word)).declared) :
    ∃ n, head? text = some (.token (.keyword word), n) := by
  have hspells : Spells word text := mem_anyCase.mp h
  rcases head?_of_spells hspells with hword | ⟨other, hother, hhead⟩
  · -- a word would be longer than the keyword
    have hmatch : keyword word (text ++ []) = some text.length := keyword_complete h (by simp)
    rw [List.append_nil] at hmatch
    have hmem : (Lexeme.token (.keyword word), keyword word) ∈ patterns :=
      List.mem_append_left _ (List.mem_map.mpr ⟨word, Keyword.mem_all word, rfl⟩)
    rcases lt_of_word hword hmem hmatch (by simp) with hlt | heq
    · exact absurd hlt (Nat.lt_irrefl _)
    · cases heq
  · rw [spells_unique hspells hother]
    exact ⟨_, hhead⟩

/-- Alone, a text of a pattern is taken as its lexeme, but for blanks and words. -/
theorem head?_of_declared {lexeme : Lexeme} {text : List Char} (h : text ∈ lexeme.declared)
    (hword : lexeme ≠ .token .word) (hblanks : lexeme ≠ .blanks) :
    ∃ n, head? text = some (lexeme, n) := by
  cases lexeme with
  | blanks => exact absurd rfl hblanks
  | continuation =>
    obtain ⟨line, hline, rfl⟩ := mem_exactly_mul.mp h
    rcases mem_lineEnds.mp hline with rfl | rfl
    · exact ⟨2, rfl⟩
    · exact ⟨3, rfl⟩
  | token kind =>
    cases kind with
    -- a fixed text decides by itself what is taken; only texts with a free part need their pattern
    | keyword word => exact head?_keyword h
    | opening opener =>
      obtain rfl := mem_exactly.mp h
      cases opener <;> exact ⟨_, rfl⟩
    | closing closer =>
      obtain rfl := mem_exactly.mp h
      cases closer <;> exact ⟨_, rfl⟩
    | comma =>
      obtain rfl := mem_exactly.mp h
      exact ⟨_, rfl⟩
    | semicolon =>
      obtain rfl := mem_exactly.mp h
      exact ⟨_, rfl⟩
    | equals =>
      obtain rfl := mem_exactly.mp h
      exact ⟨_, rfl⟩
    | pipe =>
      obtain rfl := mem_exactly.mp h
      exact ⟨_, rfl⟩
    | comment style =>
      cases style with
      | line =>
        -- no other pattern starts with `#`, so the length of the line does not matter
        obtain ⟨rest, -, rfl⟩ := mem_exactly_mul.mp h
        exact ⟨_, rfl⟩
      | block =>
        obtain rfl := mem_exactly.mp h
        exact ⟨_, rfl⟩
    | string style =>
      cases style with
      | single =>
        -- behind an opening quote only the pattern of its strings is tried, and that one is complete
        obtain ⟨n, hn, -⟩ := finds_singleQuoted.complete _ [] h
        obtain ⟨init, q', hinit, -, rfl⟩ := mem_mul_oneOf.mp h
        obtain ⟨q, inner, hq, -, rfl⟩ := mem_oneOf_mul.mp hinit
        rw [List.append_nil, List.cons_append] at hn
        rw [List.cons_append, head?_singleQuote hq, hn]
        exact ⟨n, rfl⟩
      | double =>
        obtain ⟨n, hn, -⟩ := finds_doubleQuoted.complete _ [] h
        obtain ⟨init, q', hinit, -, rfl⟩ := mem_mul_oneOf.mp h
        obtain ⟨q, inner, hq, -, rfl⟩ := mem_oneOf_mul.mp hinit
        rw [List.append_nil, List.cons_append] at hn
        rw [List.cons_append, head?_doubleQuote hq, hn]
        exact ⟨n, rfl⟩
      | hereSingle =>
        obtain ⟨line, hline, rfl⟩ := mem_exactly_mul.mp h
        rcases mem_lineEnds.mp hline with rfl | rfl
        · exact ⟨3, rfl⟩
        · exact ⟨4, rfl⟩
      | hereDouble =>
        obtain ⟨line, hline, rfl⟩ := mem_exactly_mul.mp h
        rcases mem_lineEnds.mp hline with rfl | rfl
        · exact ⟨3, rfl⟩
        · exact ⟨4, rfl⟩
    -- variables compete with a lone `$`, splatted ones with everything else that starts with `@`
    | var =>
      rcases h with hplain | hbraced
      · exact head?_plainVariable hplain
      · exact head?_bracedVariable hbraced
    | splat => exact head?_splatted h
    | word => exact absurd rfl hword
    | other =>
      obtain ⟨c, hc, rfl⟩ := h
      have hlone : c = '@' ∨ c = '$' ∨ c = '\x60' := by simpa [or_assoc] using hc
      rcases hlone with rfl | rfl | rfl
      · exact ⟨1, rfl⟩
      · exact ⟨1, rfl⟩
      · exact ⟨1, rfl⟩
    | newline =>
      rcases mem_lineEnds.mp h with rfl | rfl
      · exact ⟨1, rfl⟩
      · exact ⟨2, rfl⟩

theorem exists_not_gap_of_mark {mark : String} {L : Language Char} {text : List Char}
    (h : text ∈ exactly mark * L) (hmark : (mark.toList.any fun c => !isGap c) = true) :
    ∃ c ∈ text, isGap c = false := by
  obtain ⟨rest, -, rfl⟩ := mem_exactly_mul.mp h
  obtain ⟨c, hc, hgap⟩ := List.any_eq_true.mp hmark
  exact ⟨c, List.mem_append_left rest hc, by simpa using hgap⟩

theorem isGap_of_opensQuoted {c : Char} (h : opensQuoted c = true) : isGap c = false := by
  have hall : (quoteMarks.all fun c => !isGap c) = true := by decide +kernel
  simpa using List.all_eq_true.mp hall c (mem_quoteMarks h)

/-- Every text but words and blanks has a character that is no blank. -/
theorem exists_not_gap {lexeme : Lexeme} {text : List Char} (h : text ∈ lexeme.declared)
    (hword : lexeme ≠ .token .word) (hblanks : lexeme ≠ .blanks) : ∃ c ∈ text, isGap c = false := by
  have fixed {mark : String} (htext : text ∈ exactly mark)
      (hmark : (mark.toList.any fun c => !isGap c) = true) : ∃ c ∈ text, isGap c = false :=
    exists_not_gap_of_mark (L := 1) (by rwa [mul_one]) hmark
  cases lexeme with
  | blanks => exact absurd rfl hblanks
  | continuation => exact exists_not_gap_of_mark h (by decide)
  | token kind =>
    cases kind with
    | keyword word =>
      cases text with
      -- no keyword is empty, since something is taken for it
      | nil =>
        obtain ⟨n, hn⟩ := head?_keyword h
        cases hn
      | cons c cs =>
        have hplain := (spells_cons (mem_anyCase.mp h)).1
        exact ⟨c, List.mem_cons_self, (isWordPart_of_isPlain hplain).2⟩
    | opening opener => exact fixed h (by cases opener <;> decide)
    | closing closer => exact fixed h (by cases closer <;> decide)
    | comma => exact fixed h (by decide)
    | semicolon => exact fixed h (by decide)
    | equals => exact fixed h (by decide)
    | pipe => exact fixed h (by decide)
    | comment style =>
      cases style with
      | line => exact exists_not_gap_of_mark h (by decide)
      | block => exact fixed h (by decide)
    | string style =>
      cases style with
      | single =>
        obtain ⟨init, q, -, hq, rfl⟩ := mem_mul_oneOf.mp h
        exact ⟨q, by simp, isGap_of_opensQuoted (by simp [opensQuoted, hq])⟩
      | double =>
        obtain ⟨init, q, -, hq, rfl⟩ := mem_mul_oneOf.mp h
        exact ⟨q, by simp, isGap_of_opensQuoted (by simp [opensQuoted, hq])⟩
      | hereSingle => exact exists_not_gap_of_mark h (by decide)
      | hereDouble => exact exists_not_gap_of_mark h (by decide)
    -- the dollar sign in front is the character, with braces and without
    | var =>
      rcases h with hplain | hbraced
      · exact exists_not_gap_of_mark hplain (by decide)
      · rw [bracedVariables, mul_assoc] at hbraced
        exact exists_not_gap_of_mark hbraced (by decide)
    | splat => exact exists_not_gap_of_mark h (by decide)
    | word => exact absurd rfl hword
    | other =>
      obtain ⟨c, hc, rfl⟩ := h
      have hlone : c = '@' ∨ c = '$' ∨ c = '\x60' := by simpa [or_assoc] using hc
      refine ⟨c, List.mem_cons_self, ?_⟩
      rcases hlone with rfl | rfl | rfl <;> decide
    | newline =>
      refine ⟨'\n', ?_, by decide⟩
      rcases mem_lineEnds.mp h with rfl | rfl <;> simp

/-- A text belongs to one lexeme at most, apart from words. -/
theorem declared_unique {lexeme other : Lexeme} {text : List Char} (h : text ∈ lexeme.declared)
    (h' : text ∈ other.declared) (hword : lexeme ≠ .token .word) (hword' : other ≠ .token .word) :
    lexeme = other := by
  by_cases hblanks : lexeme = .blanks
  · by_contra hne
    subst hblanks
    obtain ⟨c, hc, hgap⟩ := exists_not_gap h' hword' (Ne.symm hne)
    rw [(mem_someOf.mp h).2 c hc] at hgap
    cases hgap
  · by_cases hblanks' : other = .blanks
    · subst hblanks'
      obtain ⟨c, hc, hgap⟩ := exists_not_gap h hword hblanks
      rw [(mem_someOf.mp h').2 c hc] at hgap
      cases hgap
    · obtain ⟨n, hn⟩ := head?_of_declared h hword hblanks
      obtain ⟨n', hn'⟩ := head?_of_declared h' hword' hblanks'
      rw [hn] at hn'
      exact (Prod.mk.inj (Option.some.inj hn')).1

/-! ### The longest match -/

/-- A character outside ASCII stands at the start of the text. -/
def StartsOutsideAscii (cs : List Char) : Prop := ∃ c ∈ cs.head?, 0x80 ≤ c.toNat

/-- In front of `rest` the text is the longest match, and the lexeme is the one that is preferred. -/
structure LongestMatch (lexeme : Lexeme) (text rest : List Char) : Prop where
  /-- The text matches the pattern of the lexeme. -/
  mem_declared : text ∈ lexeme.declared
  /-- No pattern matches more. -/
  longest : ∀ (other : Lexeme) (longer : List Char), longer ∈ other.declared →
    longer <+: text ++ rest → longer.length ≤ text.length
  /-- Whatever else matches as much as a word is preferred to it. -/
  preferred : ∀ other : Lexeme, text ∈ other.declared → other ≠ .token .word →
    (∀ word, other = .token (.keyword word) → ¬ StartsOutsideAscii rest) → lexeme = other
  /-- A keyword in front of a character outside ASCII is a word. -/
  keyword_is_word : ∀ word, text ∈ (Lexeme.token (.keyword word)).declared →
    StartsOutsideAscii rest → lexeme = .token .word

theorem mem_word_of_keyword {word : Keyword} {text : List Char}
    (h : text ∈ (Lexeme.token (.keyword word)).declared) : text ∈ (Lexeme.token .word).declared := by
  refine mem_someOf.mpr ⟨?_, isWordPart_of_afterFolded word (fun _ hw => hw) (mem_anyCase.mp h)⟩
  rintro rfl
  obtain ⟨n, hn⟩ := head?_keyword h
  cases hn

/-- What the lexer finds first is the longest match. -/
theorem longestMatch_of_head? {lexeme : Lexeme} {text rest : List Char}
    (h : head? (text ++ rest) = some (lexeme, text.length)) : LongestMatch lexeme text rest := by
  have hchosen := firstLongest_of_head? h
  have hmax := firstLongest_max hchosen
  obtain ⟨pattern, hpattern, hmatch⟩ := mem_candidates.mp (firstLongest_mem hchosen)
  have hdeclared : text ∈ lexeme.declared := patterns_sound _ hpattern text rest hmatch
  -- a keyword that is passed over is a word of the same length
  have hreach : ∀ (other : Lexeme) (longer : List Char), longer ∈ other.declared →
      longer <+: text ++ rest → longer.length ≤ text.length := by
    intro other longer hlonger hprefix
    obtain ⟨back, hback⟩ := hprefix
    have hbound : ∀ lexeme : Lexeme, longer ∈ lexeme.declared →
        (∀ word, lexeme = .token (.keyword word) → ∀ c ∈ back.head?, c.toNat < 0x80) →
        longer.length ≤ text.length := by
      intro found hfound hascii
      obtain ⟨measure, n, hmem, hn, hle⟩ := patterns_complete hfound back hascii
      rw [hback] at hn
      exact Nat.le_trans hle (hmax (found, n) (mem_candidates.mpr ⟨measure, hmem, hn⟩))
    by_cases hkeyword : ∃ word, other = .token (.keyword word)
    · obtain ⟨word, rfl⟩ := hkeyword
      exact hbound _ (mem_word_of_keyword hlonger) (by simp)
    · exact hbound other hlonger fun word heq => absurd ⟨word, heq⟩ hkeyword
  refine ⟨hdeclared, hreach, ?_, ?_⟩
  · intro other hother hword hascii
    by_cases hlexeme : lexeme = .token .word
    · -- the other pattern matches as much, and comes before that of words
      subst hlexeme
      obtain ⟨measure, n, hmem, hn, hle⟩ := patterns_complete hother rest fun word heq c hc =>
        Nat.lt_of_not_le fun hlarge => hascii word heq ⟨c, hc, hlarge⟩
      rcases lt_of_word h hmem hn hword with hlt | rfl
      · omega
      · obtain ⟨c, hc, rfl⟩ := hother
        have hpart := (mem_someOf.mp hdeclared).2 c List.mem_cons_self
        have hlone : c = '@' ∨ c = '$' ∨ c = '\x60' := by simpa [or_assoc] using hc
        rcases hlone with rfl | rfl | rfl
        · exact absurd hpart (by decide)
        · exact absurd hpart (by decide)
        · exact absurd hpart (by decide)
    · exact declared_unique hdeclared hother hlexeme hword
  · intro word hword houtside
    obtain ⟨c, hc, hlarge⟩ := houtside
    obtain ⟨more, rfl⟩ := List.head?_eq_some_iff.mp hc
    have hspells : Spells word text := mem_anyCase.mp hword
    have hnone : keyword word (text ++ c :: more) = none := by
      rw [keyword, afterFolded_append _ hspells]
      exact if_neg (Nat.not_lt.mpr hlarge)
    have hne : text ≠ [] := (mem_someOf.mp (mem_word_of_keyword hword)).1
    exact (lexeme_of_spells h (Nat.le_refl _) hne hspells hnone).1

end HelpAudit.Lexeme

namespace HelpAudit

/-! ### Pieces of a source -/

/-- A piece is what the lexer takes at its place. -/
theorem Cut.exists_of_mem_pieces {piece : Piece} (start : Nat) (cs : List Char)
    (h : piece ∈ (Cut.ofRest 0 start cs).pieces) : ∃ before after, cs = before ++ (piece.text ++ after) ∧
      piece.start = start + Text.byteLength before ∧
      Lexeme.whole? (piece.text ++ after) = some (piece.lexeme, piece.text.length) := by
  induction hlength : cs.length using Nat.strongRecOn generalizing start cs with
  | ind length ih =>
    -- the first piece is taken at the front; a later one is a piece of what is left behind it
    cases hwhole : Lexeme.whole? cs with
    | none =>
      cases cs with
      | nil => cases h
      | cons c cs =>
        rw [Cut.ofRest, hwhole] at h
        cases h
    | some found =>
      obtain ⟨lexeme, n⟩ := found
      obtain ⟨hpos, hle⟩ := Lexeme.whole?_within hwhole
      rw [Cut.ofRest_whole hwhole] at h
      rcases List.mem_cons.mp h with rfl | hlater
      · refine ⟨[], cs.drop n, (List.take_append_drop n cs).symm, rfl, ?_⟩
        rw [List.take_append_drop, hwhole, List.length_take, Nat.min_eq_left hle]
      · obtain ⟨before, after, hdrop, hstart, hpiece⟩ := ih (cs.drop n).length
          (by rw [List.length_drop]; omega) _ _ hlater rfl
        refine ⟨cs.take n ++ before, after, ?_, ?_, hpiece⟩
        · rw [List.append_assoc, ← hdrop, List.take_append_drop]
        · rw [hstart, Text.byteLength_append, Nat.add_assoc]

/-- Lexemes that run on past their first match. -/
def Lexeme.RunsOn (lexeme : Lexeme) : Prop :=
  lexeme = .token (.comment .block) ∨ lexeme = .token (.string .hereSingle) ∨
    lexeme = .token (.string .hereDouble)

theorem Lexeme.rest?_of_not_runsOn {lexeme : Lexeme} (h : ¬ lexeme.RunsOn) (cs : List Char) :
    lexeme.rest? cs = some 0 := by
  rw [Lexeme.RunsOn, not_or, not_or] at h
  unfold Lexeme.rest?
  split
  · exact absurd rfl h.1
  · exact absurd rfl h.2.1
  · exact absurd rfl h.2.2
  · rfl

/-- Maximal munch. Every piece of a source, token or not, starts with the longest match at its place,
    and the lexeme is the one that is preferred there; it ends with this match, unless it is a block
    comment or a here-string, which runs on to its end mark. -/
theorem pieces_are_longest_matches (source : List Char) (piece : Piece)
    (h : piece ∈ (Cut.of source).pieces) : ∃ before text more after,
      source = before ++ (piece.text ++ after) ∧ piece.start = Text.byteLength before ∧
      piece.text = text ++ more ∧ piece.lexeme.LongestMatch text (more ++ after) ∧
      piece.lexeme.rest? (more ++ after) = some more.length ∧ (more = [] ∨ piece.lexeme.RunsOn) := by
  obtain ⟨before, after, hsource, hstart, hwhole⟩ := Cut.exists_of_mem_pieces 0 source h
  obtain ⟨n, length, hhead, hrest, hlength⟩ := Lexeme.whole?_eq_some hwhole
  have hle : n ≤ piece.text.length := by omega
  have htext := List.take_append_drop n piece.text
  have hmore : (piece.text.drop n).length = length := by
    rw [List.length_drop]
    omega
  rw [List.drop_append_of_le_length hle, ← hmore] at hrest
  rw [← htext, List.append_assoc] at hhead
  have hmatch : piece.lexeme.LongestMatch (piece.text.take n) (piece.text.drop n ++ after) :=
    Lexeme.longestMatch_of_head? (by rw [hhead, List.length_take, Nat.min_eq_left hle])
  refine ⟨before, piece.text.take n, piece.text.drop n, after, hsource, ?_, htext.symm, hmatch, hrest, ?_⟩
  · rw [hstart, Nat.zero_add]
  · by_cases hruns : piece.lexeme.RunsOn
    · exact .inr hruns
    · rw [Lexeme.rest?_of_not_runsOn hruns] at hrest
      exact .inl (List.length_eq_zero_iff.mp (Option.some.inj hrest).symm)

/-- In front of a no-break space the text of a keyword is a word. -/
theorem pieces_are_longest_matches_outside_ascii :
    (⟨.token .word, ['e', 'n', 'd'], 0⟩ : Piece) ∈ (Cut.of ['e', 'n', 'd', '\u00a0']).pieces ∧
    ∃ before text more after, ['e', 'n', 'd', '\u00a0'] = before ++ (['e', 'n', 'd'] ++ after) ∧
      0 = Text.byteLength before ∧ ['e', 'n', 'd'] = text ++ more ∧
      (Lexeme.token .word).LongestMatch text (more ++ after) ∧
      (Lexeme.token .word).rest? (more ++ after) = some more.length ∧
      (more = [] ∨ (Lexeme.token .word).RunsOn) := by
  have hpiece : (⟨.token .word, ['e', 'n', 'd'], 0⟩ : Piece) ∈
      (Cut.of ['e', 'n', 'd', '\u00a0']).pieces := by decide +kernel
  exact ⟨hpiece, pieces_are_longest_matches _ _ hpiece⟩

end HelpAudit
