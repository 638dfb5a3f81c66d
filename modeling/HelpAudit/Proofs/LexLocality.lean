import HelpAudit.Proofs.LexChunks

/-! What stands behind a quote does not decide how the text before the quote is cut. A lexeme that ends
    before a quote, or before the first character of a block comment, is found there whatever follows
    that character. Only `@` in front of an ASCII quote looks further, since a line end behind the quote
    makes the two the start of a here-string. -/

namespace HelpAudit

theorem Keyword.mem_all (word : Keyword) : word ∈ Keyword.all := by
  cases word with
  | declare kind => cases kind <;> decide
  | param => decide
  | block kind => cases kind <;> decide

namespace Lexeme

/-! ### The characters in front of which a lexeme ends -/

/-- Whether a quoted string or a block comment may start with the character. -/
def opensQuoted (c : Char) : Bool := isSingleQuote c || isDoubleQuote c || c == '<'

/-- These characters. -/
def quoteMarks : List Char := ['\x27', '‘', '’', '‚', '‛', '\x22', '“', '”', '„', '<']

theorem mem_quoteMarks {q : Char} (h : opensQuoted q = true) : q ∈ quoteMarks := by
  simpa [opensQuoted, isSingleQuote, isDoubleQuote, quoteMarks, or_assoc] using h

/-- None of them ends a line, goes on with a variable or is a letter of a keyword. -/
theorem opensQuoted_apart {q : Char} (h : opensQuoted q = true) :
    q ≠ '\n' ∧ q ≠ '\r' ∧ q ≠ ':' ∧ q ≠ '\x7b' ∧ Text.isWord q = false ∧
      ∀ word : Keyword, ∀ w ∈ word.text.toList, folds w q = false := by
  have hall : quoteMarks.all (fun q => q != '\n' && (q != '\r' && (q != ':' && (q != '\x7b' &&
      (!Text.isWord q && Keyword.all.all fun word => word.text.toList.all fun w => !folds w q))))) =
      true := by decide +kernel
  have hmark := List.all_eq_true.mp hall q (mem_quoteMarks h)
  simp only [Bool.and_eq_true, bne_iff_ne, Bool.not_eq_true', List.all_eq_true] at hmark
  obtain ⟨hfeed, hreturn, hcolon, hbrace, hword, hfolds⟩ := hmark
  exact ⟨hfeed, hreturn, hcolon, hbrace, hword, fun word => hfolds word (Keyword.mem_all word)⟩

/-! ### Matches that end within a text -/

theorem isPrefixOf_append {needle text : List Char} (h : needle.length ≤ text.length)
    (rest : List Char) : needle.isPrefixOf (text ++ rest) = needle.isPrefixOf text := by
  rw [Bool.eq_iff_iff, List.isPrefixOf_iff_prefix, List.isPrefixOf_iff_prefix]
  constructor
  · intro hprefix
    exact List.prefix_of_prefix_length_le hprefix (List.prefix_append text rest) h
  · intro hprefix
    exact hprefix.trans (List.prefix_append text rest)

theorem length_le_through {needle : List Char} : ∀ {cs : List Char} {n : Nat},
    through needle cs = some n → needle.length ≤ n
  | [], n, h => by
    rw [through] at h
    split at h
    · rename_i hempty
      rw [List.isEmpty_iff.mp hempty]
      exact Nat.zero_le _
    · cases h
  | c :: cs, n, h => by
    rw [through] at h
    split at h
    · cases h; exact Nat.le_refl _
    · obtain ⟨m, hm, rfl⟩ := Option.map_eq_some_iff.mp h
      exact Nat.le_succ_of_le (length_le_through hm)

/-- An end mark found within the text is found there whatever follows. -/
theorem through_keeps {needle rest rest' : List Char} (hne : needle ≠ []) :
    ∀ {text : List Char} {n : Nat}, through needle (text ++ rest) = some n → n ≤ text.length →
      through needle (text ++ rest') = some n
  | [], n, h, hn => by
    have := length_le_through h
    have := List.length_pos_of_ne_nil hne
    simp only [List.length_nil] at hn
    omega
  | c :: text, n, h, hn => by
    have hlength := Nat.le_trans (length_le_through h) hn
    have hprefix := isPrefixOf_append hlength
    simp only [List.cons_append] at h hprefix ⊢
    rw [through, hprefix] at h ⊢
    split at h
    · rw [if_pos ‹_›]
      exact h
    · obtain ⟨m, hm, rfl⟩ := Option.map_eq_some_iff.mp h
      rw [if_neg ‹_›, through_keeps hne hm (Nat.le_of_succ_le_succ hn)]
      rfl

/-- The end of a here-string that lies within a text is the same whatever follows. -/
theorem hereBody_keeps {quote : Char} {text rest rest' : List Char} {n : Nat}
    (h : hereBody quote (text ++ rest) = some n) (hn : n ≤ text.length) :
    hereBody quote (text ++ rest') = some n := by
  have hlength : [quote, '@'].length ≤ text.length := by
    rw [hereBody] at h
    split at h
    · cases h; exact hn
    · have hle := Nat.le_trans (length_le_through h) hn
      simp only [List.length_cons, List.length_nil] at hle ⊢
      omega
  have hprefix := isPrefixOf_append hlength
  rw [hereBody, hprefix] at h ⊢
  split at h
  · rw [if_pos ‹_›]
    exact h
  · rw [if_neg ‹_›]
    exact through_keeps (List.cons_ne_nil _ _) h hn

theorem rest?_keeps {lexeme : Lexeme} {text rest rest' : List Char} {n : Nat}
    (h : lexeme.rest? (text ++ rest) = some n) (hn : n ≤ text.length) :
    lexeme.rest? (text ++ rest') = some n := by
  unfold rest? at h ⊢
  split at h
  · exact through_keeps (List.cons_ne_nil _ _) h hn
  · exact hereBody_keeps h hn
  · exact hereBody_keeps h hn
  · exact h

theorem doubleQuotedRest_cons {c : Char} (h : c ≠ '\x60') (cs : List Char) :
    doubleQuotedRest (c :: cs) =
      if isDoubleQuote c then some 1 else (doubleQuotedRest cs).map (· + 1) := by
  have htick : (c == '\x60') = false := beq_false_of_ne h
  rw [doubleQuotedRest.eq_def]
  split
  · rename_i heq; cases heq
  · rename_i heq; cases heq; exact absurd rfl h
  · rename_i heq
    cases heq
    rw [htick]
    rfl

/-- An expanding string that is closed within the text is closed there whatever follows. -/
theorem doubleQuotedRest_keeps {rest rest' : List Char} (text : List Char) : ∀ {n : Nat},
    doubleQuotedRest (text ++ rest) = some n → n ≤ text.length →
      doubleQuotedRest (text ++ rest') = some n := by
  induction text using doubleQuotedRest.induct with
  | case1 =>
    intro n h hn
    have := (doubleQuotedRest_within _ n h).1
    simp only [List.length_nil] at hn
    omega
  | case2 c cs ih =>
    intro n h hn
    simp only [List.cons_append, doubleQuotedRest] at h ⊢
    obtain ⟨m, hm, rfl⟩ := Option.map_eq_some_iff.mp h
    rw [ih hm (Nat.le_of_succ_le_succ (Nat.le_of_succ_le_succ hn))]
    rfl
  | case3 c cs hno hquote =>
    intro n h hn
    have hc : c ≠ '\x60' := by rintro rfl; cases hquote
    rw [List.cons_append, doubleQuotedRest_cons hc, if_pos hquote] at h ⊢
    exact h
  | case4 c cs hno hquote htick =>
    intro n h hn
    obtain rfl : c = '\x60' := eq_of_beq htick
    -- the backtick ends the text, and no match ends with a backtick
    cases cs with
    | cons d cs => exact absurd rfl (hno d cs rfl)
    | nil =>
      cases rest with
      | nil => cases h
      | cons d rest =>
        obtain ⟨m, -, rfl⟩ := Option.map_eq_some_iff.mp h
        simp only [List.length_cons, List.length_nil] at hn
        omega
  | case5 c cs hno hquote htick ih =>
    intro n h hn
    have hc : c ≠ '\x60' := fun heq => htick (beq_iff_eq.mpr heq)
    rw [List.cons_append, doubleQuotedRest_cons hc, if_neg hquote] at h ⊢
    obtain ⟨m, hm, rfl⟩ := Option.map_eq_some_iff.mp h
    rw [ih hm (Nat.le_of_succ_le_succ hn)]
    rfl

/-- A run of characters ends within the text, or it takes in all of it. -/
theorem run_cases (p : Char → Bool) : ∀ text : List Char,
    (∀ rest, run p (text ++ rest) = run p text ∧ (text ++ rest).dropWhile p ≠ []) ∨
      ∀ rest, text.length ≤ run p (text ++ rest)
  | [] => .inr fun _ => Nat.zero_le _
  | c :: text => by
    cases hc : p c with
    | false =>
      refine .inl fun rest => ?_
      rw [List.cons_append, run_of_not hc, run_of_not hc, List.dropWhile_cons_of_neg (by simp [hc])]
      exact ⟨rfl, List.cons_ne_nil _ _⟩
    | true =>
      have hrun : ∀ cs, run p (c :: cs) = run p cs + 1 := fun cs => by
        rw [run, List.takeWhile_cons_of_pos hc, List.length_cons, run]
      rcases run_cases p text with hstops | hpasses
      · refine .inl fun rest => ?_
        rw [List.cons_append, hrun, hrun, List.dropWhile_cons_of_pos hc, (hstops rest).1]
        exact ⟨rfl, (hstops rest).2⟩
      · refine .inr fun rest => ?_
        rw [List.cons_append, hrun]
        exact Nat.succ_le_succ (hpasses rest)

/-! ### Patterns in front of a quote -/

/-- In front of `q` the pattern finds the same, whether `x` or `y` stands behind `q`, unless its match
    before `x` takes in `q`. -/
def KeepsMatch (front : List Char) (q : Char) (x y : List Char)
    (pattern : List Char → Option Nat) : Prop :=
  pattern (front ++ q :: y) = pattern (front ++ q :: x) ∨
    ∃ n, pattern (front ++ q :: x) = some n ∧ front.length < n

section Patterns

variable {front : List Char} {q : Char} {x y : List Char}

theorem keepsMatch_of_some {pattern : List Char → Option Nat} {n : Nat}
    (h : pattern (front ++ q :: x) = some n)
    (hkeeps : n ≤ front.length → pattern (front ++ q :: y) = some n) :
    KeepsMatch front q x y pattern := by
  rcases Nat.lt_or_ge front.length n with hlt | hle
  · exact .inr ⟨n, h, hlt⟩
  · exact .inl ((hkeeps hle).trans h.symm)

theorem literal_keeps {text : String} (hlength : text.toList.length ≤ 2) (hfront : front ≠ []) :
    KeepsMatch front q x y (literal text) := by
  have hle : text.toList.length ≤ (front ++ [q]).length := by
    have := List.length_pos_of_ne_nil hfront
    rw [List.length_append, List.length_singleton]
    omega
  left
  rw [literal, literal, List.append_cons, List.append_cons front q x, isPrefixOf_append hle,
    isPrefixOf_append hle]

/-- Whether a front spells a word is decided before a character that is no letter of the word. -/
theorem afterFolded_front {word : List Char} (hq : ∀ w ∈ word, folds w q = false) :
    ∀ front : List Char, (∃ more, ∀ z, afterFolded word (front ++ q :: z) = some (more ++ q :: z)) ∨
      ∀ z, afterFolded word (front ++ q :: z) = none := by
  induction word with
  | nil => exact fun front => .inl ⟨front, fun _ => rfl⟩
  | cons w word ih =>
    intro front
    -- behind the front comes the quote, which is no letter; up to there both texts are the same
    cases front with
    | nil =>
      refine .inr fun z => ?_
      rw [List.nil_append, afterFolded, hq w List.mem_cons_self]
      rfl
    | cons c front =>
      cases hc : folds w c with
      | false =>
        refine .inr fun z => ?_
        rw [List.cons_append, afterFolded, hc]
        rfl
      | true =>
        have hstep : ∀ z, afterFolded (w :: word) (c :: front ++ q :: z) =
            afterFolded word (front ++ q :: z) := fun z => by
          rw [List.cons_append, afterFolded, hc]
          rfl
        simp only [hstep]
        exact ih (fun w hw => hq w (List.mem_cons_of_mem _ hw)) front

theorem keyword_keeps {word : Keyword} (hq : ∀ w ∈ word.text.toList, folds w q = false) :
    KeepsMatch front q x y (keyword word) := by
  left
  rw [keyword, keyword]
  rcases afterFolded_front hq front with ⟨more, hmore⟩ | hnone
  · rw [hmore, hmore]
    cases more with
    | nil => rfl
    | cons c more => rfl
  · rw [hnone, hnone]

theorem run_keeps (p : Char → Bool) :
    KeepsMatch front q x y fun cs => nonempty (run p cs) := by
  rw [KeepsMatch, List.append_cons front q x, List.append_cons front q y]
  rcases run_cases p (front ++ [q]) with hstops | hpasses
  · left
    simp only [(hstops x).1, (hstops y).1]
  · right
    have hlt := hpasses x
    rw [List.length_append, List.length_singleton] at hlt
    exact ⟨_, if_neg (by omega), hlt⟩

/-- A comment to the end of the line that ends before the quote stays what it is. -/
theorem lineComment_keeps (hfront : front ≠ []) : KeepsMatch front q x y lineComment := by
  obtain ⟨c, cs, rfl⟩ := List.exists_cons_of_ne_nil hfront
  by_cases hc : c = '#'
  · subst hc
    rw [KeepsMatch, List.cons_append, List.cons_append, lineComment, lineComment,
      List.append_cons cs q x, List.append_cons cs q y]
    rcases run_cases (fun c => c != '\r' && c != '\n') (cs ++ [q]) with hstops | hpasses
    · left
      rw [(hstops x).1, (hstops y).1]
    · right
      have hlt := hpasses x
      rw [List.length_append, List.length_singleton] at hlt
      exact ⟨_, rfl, by rw [List.length_cons]; omega⟩
  · left
    simp [lineComment, hc]

theorem lineEnd_cons (c : Char) (cs : List Char) : lineEnd (c :: cs) =
    if c = '\n' then some 1 else if c = '\r' ∧ cs.head? = some '\n' then some 2 else none := by
  rw [lineEnd.eq_def]
  split
  · rename_i heq; cases heq; rfl
  · rename_i heq; cases heq; rfl
  · rename_i hfeed hreturn
    rw [if_neg, if_neg]
    · rintro ⟨rfl, hhead⟩
      obtain ⟨ds, rfl⟩ := List.head?_eq_some_iff.mp hhead
      exact hreturn ds rfl
    · rintro rfl
      exact hfeed cs rfl

theorem lineEnd_append (hq : q ≠ '\n' ∧ q ≠ '\r') (front rest : List Char) :
    lineEnd (front ++ q :: rest) = lineEnd front := by
  cases front with
  | nil =>
    rw [List.nil_append, lineEnd_cons, if_neg hq.1, if_neg fun h => hq.2 h.1]
    rfl
  | cons c front =>
    rw [List.cons_append, lineEnd_cons, lineEnd_cons]
    cases front with
    | nil => simp [hq.1]
    | cons d front => rfl

/-- A header of a here-string stays what it is, unless `@` stands right before the quote that gets a line
    end. -/
theorem hereHeader_keeps {quote : Char} (hq : q ≠ '\n' ∧ q ≠ '\r') (hfront : front ≠ [])
    (hhere : front = ['@'] → q = quote → lineEnd y = none) :
    KeepsMatch front q x y (hereHeader quote) := by
  obtain ⟨c, cs, rfl⟩ := List.exists_cons_of_ne_nil hfront
  by_cases hc : c = '@'
  · subst hc
    cases cs with
    | nil =>
      by_cases hquote : q = quote
      · simp only [KeepsMatch, List.singleton_append, hereHeader, if_pos hquote, hhere rfl hquote]
        cases lineEnd x with
        | none => exact .inl rfl
        | some m => exact .inr ⟨m + 2, rfl, by rw [List.length_singleton]; omega⟩
      · left
        simp only [List.singleton_append, hereHeader, if_neg hquote]
    | cons d cs =>
      left
      simp only [List.cons_append, hereHeader, lineEnd_append hq cs]
  · left
    simp [hereHeader, hc]

theorem lineContinuation_keeps (hq : q ≠ '\n' ∧ q ≠ '\r') (hfront : front ≠ []) :
    KeepsMatch front q x y lineContinuation := by
  left
  obtain ⟨c, cs, rfl⟩ := List.exists_cons_of_ne_nil hfront
  by_cases hc : c = '\x60'
  · subst hc
    simp only [List.cons_append, lineContinuation, lineEnd_append hq cs]
  · simp [lineContinuation, hc]

theorem lone_keeps (hfront : front ≠ []) : KeepsMatch front q x y lone := by
  left
  obtain ⟨c, cs, rfl⟩ := List.exists_cons_of_ne_nil hfront
  rfl

theorem run_front {p : Char → Bool} (hq : p q = false) (front rest : List Char) :
    run p (front ++ q :: rest) = run p front := by
  rw [run, run, List.takeWhile_append]
  split
  · rename_i hall
    simp [hq, hall]
  · rfl

theorem splatted_keeps (hword : Text.isWord q = false) (hfront : front ≠ []) :
    KeepsMatch front q x y splatted := by
  left
  obtain ⟨c, cs, rfl⟩ := List.exists_cons_of_ne_nil hfront
  by_cases hc : c = '@'
  · subst hc
    simp only [List.cons_append, splatted, run_front hword]
  · simp [splatted, hc]

theorem plainVariable_keeps (hword : Text.isWord q = false) (hcolon : q ≠ ':') (hfront : front ≠ []) :
    KeepsMatch front q x y plainVariable := by
  left
  obtain ⟨c, cs, rfl⟩ := List.exists_cons_of_ne_nil hfront
  by_cases hc : c = '$'
  · subst hc
    cases cs with
    | nil => simp only [List.singleton_append, plainVariable, hword, Bool.false_eq_true, if_false]
    | cons c cs =>
      have hdrop : ∀ z, (cs ++ q :: z).drop (run Text.isWord cs) =
          cs.drop (run Text.isWord cs) ++ q :: z := fun z =>
        List.drop_append_of_le_length (run_le Text.isWord cs)
      simp only [List.cons_append, plainVariable, run_front hword, hdrop]
      -- behind the name stands a colon and more of the text, or the quote itself
      cases cs.drop (run Text.isWord cs) with
      | nil => simp [hcolon]
      | cons d ds =>
        by_cases hd : d = ':'
        · subst hd
          simp only [List.cons_append, run_front hword]
        · simp [hd]
  · simp [plainVariable, hc]

/-! Strings and variables in braces are closed somewhere, or nothing is found at all. -/

theorem run_closed {p : Char → Bool} {text rest : List Char}
    (h : run p (text ++ rest) < text.length) (rest' : List Char) :
    run p (text ++ rest') = run p (text ++ rest) ∧ (text ++ rest').dropWhile p ≠ [] := by
  rcases run_cases p text with hstops | hpasses
  · exact ⟨(hstops rest').1.trans (hstops rest).1.symm, (hstops rest').2⟩
  · exact absurd h (Nat.not_lt.mpr (hpasses rest))

theorem singleQuoted_eq_some {c : Char} (hc : isSingleQuote c = true) {cs : List Char} {n : Nat} :
    singleQuoted (c :: cs) = some n ↔
      cs.dropWhile (!isSingleQuote ·) ≠ [] ∧ n = run (!isSingleQuote ·) cs + 2 := by
  rw [singleQuoted, if_pos hc]
  split
  · rename_i heq
    simp [heq, eq_comm]
  · rename_i heq
    simp [heq]

theorem bracedVariable_eq_some {cs : List Char} {n : Nat} :
    bracedVariable ('$' :: '\x7b' :: cs) = some n ↔
      cs.dropWhile (· != '\x7d') ≠ [] ∧ n = run (· != '\x7d') cs + 3 := by
  rw [bracedVariable]
  split
  · rename_i heq
    simp [heq, eq_comm]
  · rename_i heq
    simp [heq]

theorem singleQuoted_keeps (hfront : front ≠ []) (hclosed : ∀ c ∈ front.head?,
    isSingleQuote c = true → ∃ n, singleQuoted (front ++ q :: x) = some n) :
    KeepsMatch front q x y singleQuoted := by
  obtain ⟨c, cs, rfl⟩ := List.exists_cons_of_ne_nil hfront
  cases hc : isSingleQuote c with
  | false =>
    left
    simp [singleQuoted, hc]
  | true =>
    obtain ⟨n, hn⟩ := hclosed c rfl hc
    refine keepsMatch_of_some hn fun hle => ?_
    rw [List.cons_append, singleQuoted_eq_some hc] at hn ⊢
    obtain ⟨-, rfl⟩ := hn
    rw [List.length_cons] at hle
    obtain ⟨hrun, hdrop⟩ := run_closed (Nat.lt_of_succ_lt_succ hle) (q :: y)
    exact ⟨hdrop, by rw [hrun]⟩

theorem doubleQuoted_keeps (hfront : front ≠ []) (hclosed : ∀ c ∈ front.head?,
    isDoubleQuote c = true → ∃ n, doubleQuoted (front ++ q :: x) = some n) :
    KeepsMatch front q x y doubleQuoted := by
  obtain ⟨c, cs, rfl⟩ := List.exists_cons_of_ne_nil hfront
  cases hc : isDoubleQuote c with
  | false =>
    left
    simp [doubleQuoted, hc]
  | true =>
    obtain ⟨n, hn⟩ := hclosed c rfl hc
    refine keepsMatch_of_some hn fun hle => ?_
    rw [List.cons_append, doubleQuoted, if_pos hc] at hn ⊢
    obtain ⟨m, hm, rfl⟩ := Option.map_eq_some_iff.mp hn
    rw [doubleQuotedRest_keeps cs hm (Nat.le_of_succ_le_succ hle)]
    rfl

theorem bracedVariable_keeps (hq : q ≠ '\x7b') (hfront : front ≠ [])
    (hclosed : startsBraced (front ++ q :: x) = true →
      ∃ n, bracedVariable (front ++ q :: x) = some n) :
    KeepsMatch front q x y bracedVariable := by
  obtain ⟨c, cs, rfl⟩ := List.exists_cons_of_ne_nil hfront
  by_cases hc : c = '$'
  · subst hc
    cases cs with
    | nil =>
      left
      simp [bracedVariable, hq]
    | cons d cs =>
      by_cases hd : d = '\x7b'
      · subst hd
        obtain ⟨n, hn⟩ := hclosed rfl
        refine keepsMatch_of_some hn fun hle => ?_
        rw [List.cons_append, List.cons_append, bracedVariable_eq_some] at hn ⊢
        obtain ⟨-, rfl⟩ := hn
        simp only [List.length_cons] at hle
        obtain ⟨hrun, hdrop⟩ :=
          run_closed (Nat.lt_of_succ_lt_succ (Nat.lt_of_succ_lt_succ hle)) (q :: y)
        exact ⟨hdrop, by rw [hrun]⟩
      · left
        simp [bracedVariable, hd]
  · left
    simp [bracedVariable, hc]

end Patterns

/-! ### Lexemes in front of a quote -/

theorem head?_of_candidates {cs : List Char} {lexeme : Lexeme} {found : Option Nat}
    (hbraced : startsBraced cs = false) (h : candidates cs = (found.map (lexeme, ·)).toList) :
    head? cs = found.map (lexeme, ·) := by
  rw [head?, hbraced, h]
  cases found <;> rfl

/-- Only literal strings start with a single quote. -/
theorem head?_singleQuote {c : Char} (h : isSingleQuote c = true) (cs : List Char) :
    head? (c :: cs) = (singleQuoted (c :: cs)).map (.token (.string .single), ·) := by
  have hc : c = '\x27' ∨ c = '‘' ∨ c = '’' ∨ c = '‚' ∨ c = '‛' := by
    simpa [isSingleQuote, or_assoc] using h
  refine head?_of_candidates ?_ ?_
  · rcases hc with rfl | rfl | rfl | rfl | rfl <;> rfl
  · rw [candidates, List.filterMap_eq_flatMap_toList]
    simp only [patterns, List.flatMap_append, List.flatMap_cons, List.flatMap_nil]
    generalize singleQuoted (c :: cs) = found
    rcases hc with rfl | rfl | rfl | rfl | rfl <;> cases found <;> rfl

/-- Only expanding strings start with a double quote. -/
theorem head?_doubleQuote {c : Char} (h : isDoubleQuote c = true) (cs : List Char) :
    head? (c :: cs) = (doubleQuoted (c :: cs)).map (.token (.string .double), ·) := by
  have hc : c = '\x22' ∨ c = '“' ∨ c = '”' ∨ c = '„' := by
    simpa [isDoubleQuote, or_assoc] using h
  refine head?_of_candidates ?_ ?_
  · rcases hc with rfl | rfl | rfl | rfl <;> rfl
  · rw [candidates, List.filterMap_eq_flatMap_toList]
    simp only [patterns, List.flatMap_append, List.flatMap_cons, List.flatMap_nil]
    generalize doubleQuoted (c :: cs) = found
    rcases hc with rfl | rfl | rfl | rfl <;> cases found <;> rfl

theorem bracedVariable_of_head? {cs : List Char} {found : Lexeme × Nat} (h : head? cs = some found)
    (hbraced : startsBraced cs = true) : ∃ n, bracedVariable cs = some n := by
  rw [head?, hbraced] at h
  cases hvariable : bracedVariable cs with
  | none =>
    rw [hvariable] at h
    cases h
  | some n => exact ⟨n, rfl⟩

theorem startsBraced_cons (c d : Char) (cs : List Char) :
    startsBraced (c :: d :: cs) = (c == '$' && d == '\x7b') := by
  rw [startsBraced.eq_def]
  split
  · rename_i heq; cases heq; rfl
  · rename_i hno
    symm
    rw [Bool.eq_false_iff]
    intro hboth
    obtain ⟨hc, hd⟩ := Bool.and_eq_true_iff.mp hboth
    exact hno cs (by rw [eq_of_beq hc, eq_of_beq hd])

theorem startsBraced_front {front : List Char} {q : Char} {x y : List Char} (hfront : front ≠ []) :
    startsBraced (front ++ q :: y) = startsBraced (front ++ q :: x) := by
  obtain ⟨c, cs, rfl⟩ := List.exists_cons_of_ne_nil hfront
  cases cs with
  | nil => rw [List.singleton_append, List.singleton_append, startsBraced_cons, startsBraced_cons]
  | cons d cs => simp only [List.cons_append, startsBraced_cons]

section Lexemes

variable {front : List Char} {q : Char} {x y : List Char} (hq : opensQuoted q = true)
  (hfront : front ≠ []) (hhere : front = ['@'] → q = '\x27' ∨ q = '\x22' → lineEnd y = none)

include hq hfront hhere

/-- All patterns keep what they find in front of a quote, apart from `@` right before an ASCII quote
    that gets a line end behind it. -/
theorem patterns_keep {found : Lexeme × Nat} (h : head? (front ++ q :: x) = some found) :
    ∀ pattern ∈ patterns, KeepsMatch front q x y pattern.2 := by
  obtain ⟨hfeed, hreturn, hcolon, hbrace, hword, hfolds⟩ := opensQuoted_apart hq
  have hline : KeepsMatch front q x y lineEnd :=
    .inl (by rw [lineEnd_append ⟨hfeed, hreturn⟩, lineEnd_append ⟨hfeed, hreturn⟩])
  -- a string that starts with the front is complete somewhere, or nothing would have been found
  have hsingle : ∀ c ∈ front.head?, isSingleQuote c = true →
      ∃ n, singleQuoted (front ++ q :: x) = some n := by
    intro c hc hquote
    obtain ⟨cs, rfl⟩ := List.head?_eq_some_iff.mp hc
    rw [List.cons_append, head?_singleQuote hquote] at h
    obtain ⟨n, hn, -⟩ := Option.map_eq_some_iff.mp h
    exact ⟨n, hn⟩
  have hdouble : ∀ c ∈ front.head?, isDoubleQuote c = true →
      ∃ n, doubleQuoted (front ++ q :: x) = some n := by
    intro c hc hquote
    obtain ⟨cs, rfl⟩ := List.head?_eq_some_iff.mp hc
    rw [List.cons_append, head?_doubleQuote hquote] at h
    obtain ⟨n, hn, -⟩ := Option.map_eq_some_iff.mp h
    exact ⟨n, hn⟩
  have fixed {text : String} (htext : text.toList.length ≤ 2) :
      KeepsMatch front q x y (literal text) := literal_keeps htext hfront
  rw [patterns]
  simp only [List.forall_mem_append, List.forall_mem_map, List.forall_mem_cons, List.not_mem_nil,
    false_implies, implies_true, and_true]
  exact ⟨fun word _ => keyword_keeps (hfolds word), fixed (by decide), fixed (by decide),
    fixed (by decide), fixed (by decide), fixed (by decide), fixed (by decide), fixed (by decide),
    fixed (by decide), fixed (by decide), fixed (by decide), fixed (by decide), fixed (by decide),
    fixed (by decide), lineComment_keeps hfront, fixed (by decide), singleQuoted_keeps hfront hsingle,
    doubleQuoted_keeps hfront hdouble,
    hereHeader_keeps ⟨hfeed, hreturn⟩ hfront fun hat hquote => hhere hat (.inl hquote),
    hereHeader_keeps ⟨hfeed, hreturn⟩ hfront fun hat hquote => hhere hat (.inr hquote),
    plainVariable_keeps hword hcolon hfront,
    bracedVariable_keeps hbrace hfront (bracedVariable_of_head? h), splatted_keeps hword hfront,
    run_keeps isGap, lineContinuation_keeps ⟨hfeed, hreturn⟩ hfront, hline, run_keeps isWordPart,
    lone_keeps hfront⟩

/-- What is first found in front of a quote is found whatever stands behind the quote. -/
theorem head?_keeps {lexeme : Lexeme} {n : Nat}
    (h : head? (front ++ q :: x) = some (lexeme, n)) (hn : n ≤ front.length) :
    head? (front ++ q :: y) = some (lexeme, n) := by
  have hkeep := patterns_keep hq hfront hhere h
  have hlongest := firstLongest_max (firstLongest_of_head? h)
  -- no pattern matches past the front, since the longest match does not
  have hsame : ∀ pattern ∈ patterns, pattern.2 (front ++ q :: y) = pattern.2 (front ++ q :: x) := by
    intro pattern hp
    rcases hkeep pattern hp with hsame | ⟨m, hm, hlt⟩
    · exact hsame
    · have hle : m ≤ n := hlongest (pattern.1, m) (mem_candidates.mpr ⟨pattern.2, hp, hm⟩)
      omega
  have hcandidates : candidates (front ++ q :: y) = candidates (front ++ q :: x) := by
    refine List.filterMap_congr fun pattern hp => ?_
    rw [hsame pattern hp]
  have hbraced : bracedVariable (front ++ q :: y) = bracedVariable (front ++ q :: x) :=
    hsame (.token .var, bracedVariable) (by simp [patterns])
  rw [head?, startsBraced_front hfront, hbraced, hcandidates, ← head?]
  exact h

/-- A lexeme that ends in front of a quote is taken whatever stands behind the quote. -/
theorem whole?_keeps {lexeme : Lexeme} {n : Nat}
    (h : whole? (front ++ q :: x) = some (lexeme, n)) (hn : n ≤ front.length) :
    whole? (front ++ q :: y) = some (lexeme, n) := by
  obtain ⟨m, more, hhead, hrest, rfl⟩ := whole?_eq_some h
  have hdrop : ∀ z, (front ++ q :: z).drop m = front.drop m ++ q :: z := fun z =>
    List.drop_append_of_le_length (by omega)
  rw [hdrop] at hrest
  have hrest' : lexeme.rest? (front.drop m ++ q :: y) = some more :=
    rest?_keeps hrest (by rw [List.length_drop]; omega)
  have hhead' := head?_keeps hq hfront hhere hhead (by omega)
  simp only [whole?, hhead', Option.bind_some, hdrop, hrest', Option.map_some]

end Lexemes

end Lexeme

/-! ### Chunks in front of a quote -/

theorem Chunk.Fits.text_ne_nil {chunk : Chunk} {rest : List Char} (h : chunk.Fits rest) :
    chunk.text ≠ [] :=
  List.length_pos_iff.mp (Lexeme.whole?_within h).1

/-- Chunks that fit in front of a quote fit there whatever stands behind the quote. -/
theorem Chunk.allFit_keeps {q : Char} {x y : List Char} (hq : Lexeme.opensQuoted q = true) :
    ∀ {chunks : List Chunk}, (∀ chunk ∈ chunks.getLast?, chunk.text = ['@'] →
      q = '\x27' ∨ q = '\x22' → Lexeme.lineEnd y = none) →
    AllFit chunks (q :: x) → AllFit chunks (q :: y)
  | [], _, _ => trivial
  | chunk :: chunks, hlast, ⟨hfits, hothers⟩ => by
    have hne := hfits.text_ne_nil
    refine ⟨?_, allFit_keeps hq ?_ hothers⟩
    · rw [Fits, ← List.append_assoc] at hfits ⊢
      refine Lexeme.whole?_keeps hq (List.append_ne_nil_of_left_ne_nil hne _) ?_ hfits ?_
      · intro hat
        cases chunks with
        | nil =>
          refine hlast chunk rfl ?_
          simpa [joined] using hat
        | cons other chunks =>
          -- two chunks have at least two characters
          have hlength := congrArg List.length hat
          have := List.length_pos_of_ne_nil hne
          have := List.length_pos_of_ne_nil hothers.1.text_ne_nil
          simp only [joined_cons, List.length_append, List.length_singleton] at hlength
          omega
      · rw [List.length_append]
        exact Nat.le_add_right _ _
    · intro last hmem
      refine hlast last ?_
      rw [List.getLast?_cons, Option.mem_def.mp hmem]
      rfl

end HelpAudit
