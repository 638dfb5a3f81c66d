import Mathlib.Computability.Language
import Mathlib.Data.List.TakeWhile
import HelpAudit.Proofs.QuotedText
import HelpAudit.Proofs.LexEnds

/-! The patterns of the lexemes as regular languages. A pattern of the lexer is a function that measures
    how far it matches; here is what it is meant to match, written with the operations on languages, and
    the proof that it finds exactly the longest prefix of a text that belongs to its language. -/

namespace HelpAudit.Lexeme

open Computability

/-! ### Languages -/

/-- One character of a class. -/
def oneOf (p : Char → Bool) : Language Char := {cs | ∃ c, p c = true ∧ cs = [c]}

/-- A fixed text. -/
def exactly (text : String) : Language Char := {text.toList}

/-- One or more characters of a class. -/
def someOf (p : Char → Bool) : Language Char := oneOf p * (oneOf p)∗

/-- A line feed, possibly after a carriage return. -/
def lineEnds : Language Char := (1 + exactly "\r") * exactly "\n"

/-- A text in any case, letter by letter. -/
def anyCase (text : String) : Language Char := (text.toList.map fun letter => oneOf (folds letter)).prod

/-- One step of an expanding string: a character that is no quote and no backtick, or a backtick and any
    character. -/
def doubleStep : Language Char :=
  oneOf (fun c => !isDoubleQuote c && c != '\x60') + exactly "\x60" * oneOf (· != '\n') +
    exactly "\x60\n"

/-- A variable without braces. -/
def plainVariables : Language Char :=
  exactly "$" * (someOf Text.isWord * (1 + exactly ":" * (oneOf Text.isWord)∗) +
    oneOf (fun c => c == '$' || c == '?' || c == '^'))

/-- A variable in braces. -/
def bracedVariables : Language Char := exactly "$\x7b" * (oneOf (· != '\x7d'))∗ * exactly "\x7d"

/-- The texts that a lexeme may have, or start with when it runs on to an end mark. -/
def declared : Lexeme → Language Char
  | .token (.keyword word) => anyCase word.text
  | .token (.opening opener) => exactly opener.text
  | .token (.closing closer) => exactly closer.text
  | .token .comma => exactly ","
  | .token .semicolon => exactly ";"
  | .token .equals => exactly "="
  | .token .pipe => exactly "|"
  | .token (.comment .line) => exactly "#" * (oneOf fun c => c != '\r' && c != '\n')∗
  | .token (.comment .block) => exactly "<#"
  | .token (.string .single) =>
    oneOf isSingleQuote * (oneOf (!isSingleQuote ·))∗ * oneOf isSingleQuote
  | .token (.string .double) => oneOf isDoubleQuote * doubleStep∗ * oneOf isDoubleQuote
  | .token (.string .hereSingle) => exactly "@'" * lineEnds
  | .token (.string .hereDouble) => exactly "@\x22" * lineEnds
  | .token .var => plainVariables + bracedVariables
  | .token .splat => exactly "@" * someOf Text.isWord
  | .token .word => someOf isWordPart
  | .token .other => oneOf fun c => c == '@' || c == '$' || c == '\x60'
  | .token .newline => lineEnds
  | .blanks => someOf isGap
  | .continuation => exactly "\x60" * lineEnds

section Membership

variable {p : Char → Bool} {L : Language Char} {cs : List Char}

theorem mem_oneOf : cs ∈ oneOf p ↔ ∃ c, p c = true ∧ cs = [c] := Iff.rfl

theorem mem_exactly {text : String} : cs ∈ exactly text ↔ cs = text.toList := Iff.rfl

theorem mem_oneOf_mul : cs ∈ oneOf p * L ↔ ∃ c rest, p c = true ∧ rest ∈ L ∧ cs = c :: rest := by
  rw [Language.mem_mul]
  constructor
  · rintro ⟨_, ⟨c, hc, rfl⟩, rest, hrest, rfl⟩
    exact ⟨c, rest, hc, hrest, rfl⟩
  · rintro ⟨c, rest, hc, hrest, rfl⟩
    exact ⟨[c], ⟨c, hc, rfl⟩, rest, hrest, rfl⟩

theorem mem_mul_oneOf : cs ∈ L * oneOf p ↔ ∃ init c, init ∈ L ∧ p c = true ∧ cs = init ++ [c] := by
  rw [Language.mem_mul]
  constructor
  · rintro ⟨init, hinit, _, ⟨c, hc, rfl⟩, rfl⟩
    exact ⟨init, c, hinit, hc, rfl⟩
  · rintro ⟨init, c, hinit, hc, rfl⟩
    exact ⟨init, hinit, [c], ⟨c, hc, rfl⟩, rfl⟩

theorem mem_exactly_mul {text : String} :
    cs ∈ exactly text * L ↔ ∃ rest, rest ∈ L ∧ cs = text.toList ++ rest := by
  rw [Language.mem_mul]
  constructor
  · rintro ⟨_, rfl, rest, hrest, rfl⟩
    exact ⟨rest, hrest, rfl⟩
  · rintro ⟨rest, hrest, rfl⟩
    exact ⟨_, rfl, rest, hrest, rfl⟩

theorem mem_kstar_cons : cs ∈ L∗ ↔ cs = [] ∨ ∃ first ∈ L, ∃ rest ∈ L∗, first ++ rest = cs := by
  conv_lhs => rw [← Language.one_add_self_mul_kstar_eq_kstar, Language.mem_add, Language.mem_one,
    Language.mem_mul]

theorem mem_kstar_oneOf : ∀ {cs : List Char}, cs ∈ (oneOf p)∗ ↔ ∀ c ∈ cs, p c = true
  | [] => by simp [Language.nil_mem_kstar]
  | c :: cs => by
    have ih : cs ∈ (oneOf p)∗ ↔ ∀ d ∈ cs, p d = true := mem_kstar_oneOf
    rw [mem_kstar_cons, List.forall_mem_cons, ← ih]
    constructor
    · rintro (h | ⟨_, ⟨d, hd, rfl⟩, rest, hrest, heq⟩)
      · cases h
      · obtain ⟨rfl, rfl⟩ := List.cons.inj heq
        exact ⟨hd, hrest⟩
    · rintro ⟨hc, hcs⟩
      exact .inr ⟨[c], ⟨c, hc, rfl⟩, cs, hcs, rfl⟩

theorem mem_someOf : cs ∈ someOf p ↔ cs ≠ [] ∧ ∀ c ∈ cs, p c = true := by
  rw [someOf, mem_oneOf_mul]
  constructor
  · rintro ⟨c, rest, hc, hrest, rfl⟩
    exact ⟨List.cons_ne_nil _ _, List.forall_mem_cons.mpr ⟨hc, mem_kstar_oneOf.mp hrest⟩⟩
  · rintro ⟨hne, hall⟩
    obtain ⟨c, rest, rfl⟩ := List.exists_cons_of_ne_nil hne
    obtain ⟨hc, hrest⟩ := List.forall_mem_cons.mp hall
    exact ⟨c, rest, hc, mem_kstar_oneOf.mpr hrest, rfl⟩

theorem mem_lineEnds : cs ∈ lineEnds ↔ cs = ['\n'] ∨ cs = ['\r', '\n'] := by
  rw [lineEnds, Language.mem_mul]
  constructor
  · rintro ⟨_, rfl | rfl, _, rfl, rfl⟩
    · exact .inl rfl
    · exact .inr rfl
  · rintro (rfl | rfl)
    · exact ⟨[], .inl rfl, _, rfl, rfl⟩
    · exact ⟨['\r'], .inr rfl, _, rfl, rfl⟩

/-- Spelling a text letter by letter is what the matcher for words without case takes off completely. -/
theorem mem_anyCase {text : String} : cs ∈ anyCase text ↔ afterFolded text.toList cs = some [] := by
  rw [anyCase]
  generalize text.toList = letters
  induction letters generalizing cs with
  | nil =>
    rw [List.map_nil, List.prod_nil, Language.mem_one, afterFolded, Option.some.injEq]
  | cons letter letters ih =>
    rw [List.map_cons, List.prod_cons, mem_oneOf_mul]
    cases cs with
    | nil => simp [afterFolded]
    | cons c cs =>
      rw [afterFolded]
      constructor
      · rintro ⟨d, rest, hd, hrest, heq⟩
        obtain ⟨rfl, rfl⟩ := List.cons.inj heq
        rw [if_pos hd]
        exact ih.mp hrest
      · intro h
        split at h
        · exact ⟨c, cs, ‹_›, ih.mpr h, rfl⟩
        · cases h

end Membership

/-! ### Longest matches -/

/-- The pattern matches texts of the language only, and never less than a prefix that belongs to it. -/
structure Finds (L : Language Char) (pattern : List Char → Option Nat) : Prop where
  sound : ∀ text rest, pattern (text ++ rest) = some text.length → text ∈ L
  complete : ∀ text rest, text ∈ L → ∃ n, pattern (text ++ rest) = some n ∧ text.length ≤ n

/-- A closed pattern may be looked at without the text behind its match. -/
theorem Finds.of_closed {L : Language Char} {pattern : List Char → Option Nat} (hclosed : Closed pattern)
    (h : ∀ text, pattern text = some text.length ↔ text ∈ L) : Finds L pattern where
  sound text rest hmatch := by
    have halone := hclosed text rest [] text.length hmatch (Nat.le_refl _)
    rw [List.append_nil] at halone
    exact (h text).mp halone
  complete text rest hmem := by
    have halone : pattern (text ++ []) = some text.length := by
      rw [List.append_nil]
      exact (h text).mpr hmem
    exact ⟨text.length, hclosed text [] rest text.length halone (Nat.le_refl _), Nat.le_refl _⟩

theorem finds_literal (text : String) : Finds (exactly text) (literal text) := by
  refine .of_closed (closed_literal text) fun cs => ?_
  rw [literal, mem_exactly]
  constructor
  · intro h
    split at h
    · rename_i hstarts
      have hlength := Option.some.inj h
      rw [← String.length_toList] at hlength
      exact ((List.isPrefixOf_iff_prefix.mp hstarts).eq_of_length hlength).symm
    · cases h
  · rintro rfl
    rw [if_pos (List.isPrefixOf_iff_prefix.mpr (List.prefix_refl _)), String.length_toList]

/-- The characters of a run belong to the class. -/
theorem forall_of_run {p : Char → Bool} {text rest : List Char} (h : text.length ≤ run p (text ++ rest)) :
    ∀ c ∈ text, p c = true := by
  have hstarts : text <+: (text ++ rest).takeWhile p :=
    List.prefix_of_prefix_length_le (List.prefix_append text rest) (List.takeWhile_prefix p) h
  intro c hc
  exact List.mem_takeWhile_imp (hstarts.subset hc)

/-- A run finds the longest sequence of characters of its class. -/
theorem finds_run (p : Char → Bool) : Finds (someOf p) fun cs => nonempty (run p cs) where
  sound text rest h := by
    rw [nonempty] at h
    split at h
    · cases h
    · rename_i hne
      have hlength := Option.some.inj h
      refine mem_someOf.mpr ⟨?_, forall_of_run (Nat.le_of_eq hlength.symm)⟩
      rintro rfl
      exact hne hlength
  complete text rest h := by
    obtain ⟨hne, hall⟩ := mem_someOf.mp h
    have hle := le_run_append hall rest
    have hpos := List.length_pos_of_ne_nil hne
    exact ⟨_, if_neg (by omega), hle⟩

/-- A comment to the end of the line runs from `#` up to a line end. -/
theorem finds_lineComment :
    Finds (exactly "#" * (oneOf fun c => c != '\r' && c != '\n')∗) lineComment where
  sound text rest h := by
    cases text with
    | nil => exact absurd (lineComment_within _ _ h).1 (Nat.lt_irrefl 0)
    | cons c cs =>
      by_cases hc : c = '#'
      · subst hc
        have hrun := Nat.succ.inj (Option.some.inj h)
        exact mem_exactly_mul.mpr
          ⟨cs, mem_kstar_oneOf.mpr (forall_of_run (Nat.le_of_eq hrun.symm)), rfl⟩
      · simp [lineComment, hc] at h
  complete text rest h := by
    obtain ⟨cs, hcs, rfl⟩ := mem_exactly_mul.mp h
    exact ⟨_, rfl, Nat.succ_le_succ (le_run_append (mem_kstar_oneOf.mp hcs) rest)⟩

/-- A text up to and with the first character outside a class. -/
theorem exists_of_run {p : Char → Bool} {cs : List Char} (hdrop : cs.dropWhile p ≠ [])
    (hlength : cs.length = run p cs + 1) :
    ∃ inner c, (∀ d ∈ inner, p d = true) ∧ p c = false ∧ cs = inner ++ [c] := by
  obtain ⟨c, rest, hrest⟩ := List.exists_cons_of_ne_nil hdrop
  have hsplit : cs.takeWhile p ++ cs.dropWhile p = cs := List.takeWhile_append_dropWhile
  have hc : p c = false := by
    have hhead := List.head?_dropWhile_not (p := p) (l := cs)
    rw [hrest] at hhead
    simpa using hhead
  have hnil : rest = [] := by
    have hall := congrArg List.length hsplit
    rw [hrest, List.length_append, List.length_cons, hlength, run] at hall
    exact List.length_eq_zero_iff.mp (by omega)
  refine ⟨cs.takeWhile p, c, fun d hd => List.mem_takeWhile_imp hd, hc, ?_⟩
  rw [hrest, hnil] at hsplit
  exact hsplit.symm

/-- A verbatim string runs to the next quote of its kind. -/
theorem finds_singleQuoted :
    Finds (oneOf isSingleQuote * (oneOf (!isSingleQuote ·))∗ * oneOf isSingleQuote) singleQuoted := by
  refine .of_closed closed_singleQuoted fun text => ?_
  rw [mem_mul_oneOf]
  constructor
  · intro h
    cases text with
    | nil => cases h
    | cons q cs =>
      cases hq : isSingleQuote q with
      | false => simp [singleQuoted, hq] at h
      | true =>
        obtain ⟨hdrop, hlength⟩ := (singleQuoted_eq_some hq).mp h
        obtain ⟨inner, q', hinner, hq', rfl⟩ := exists_of_run hdrop (Nat.succ.inj hlength)
        exact ⟨q :: inner, q', mem_oneOf_mul.mpr ⟨q, inner, hq, mem_kstar_oneOf.mpr hinner, rfl⟩,
          by simpa using hq', rfl⟩
  · rintro ⟨_, q', hinit, hq', rfl⟩
    obtain ⟨q, inner, hq, hinner, rfl⟩ := mem_oneOf_mul.mp hinit
    have hplain : ∀ c ∈ inner, isSingleQuote c = false := by
      simpa using mem_kstar_oneOf.mp hinner
    rw [List.cons_append, singleQuoted_append hq hq' hplain []]
    simp

theorem exists_cons_cons {cs : List Char} (h : 2 ≤ cs.length) : ∃ c d rest, cs = c :: d :: rest := by
  cases cs with
  | nil => simp at h
  | cons c cs =>
    cases cs with
    | nil => simp at h
    | cons d rest => exact ⟨c, d, rest, rfl⟩

/-- A variable in braces runs to the next closing brace. -/
theorem finds_bracedVariable : Finds bracedVariables bracedVariable := by
  refine .of_closed closed_bracedVariable fun text => ?_
  rw [bracedVariables, mul_assoc, mem_exactly_mul]
  constructor
  · intro h
    obtain ⟨c, d, cs, rfl⟩ := exists_cons_cons (Nat.le_of_succ_le (three_le_bracedVariable h))
    by_cases hopen : c = '$' ∧ d = '\x7b'
    · obtain ⟨rfl, rfl⟩ := hopen
      obtain ⟨hdrop, hlength⟩ := bracedVariable_eq_some.mp h
      obtain ⟨inner, close, hinner, hclose, rfl⟩ :=
        exists_of_run hdrop (Nat.succ.inj (Nat.succ.inj hlength))
      obtain rfl : close = '\x7d' := by simpa using hclose
      have hrest : inner ++ ['\x7d'] ∈ (oneOf (· != '\x7d'))∗ * exactly "\x7d" :=
        Language.mem_mul.mpr ⟨inner, mem_kstar_oneOf.mpr hinner, _, rfl, rfl⟩
      exact ⟨inner ++ ['\x7d'], hrest, rfl⟩
    · rw [bracedVariable_cons c d cs hopen] at h
      cases h
  · rintro ⟨_, hrest, rfl⟩
    obtain ⟨inner, hinner, _, rfl, rfl⟩ := Language.mem_mul.mp hrest
    have hplain : ∀ c ∈ inner, (c != '\x7d') = true := mem_kstar_oneOf.mp hinner
    refine bracedVariable_eq_some.mpr ⟨?_, ?_⟩
    · simp [List.dropWhile_append_of_pos hplain]
    · have hrun : run (· != '\x7d') (inner ++ ['\x7d']) = inner.length := run_append hplain (by decide)
      simp [hrun]

/-! An expanding string goes on in steps of one or two characters. -/

theorem cons_mem_doubleSteps {c : Char} {body : List Char} (hquote : isDoubleQuote c = false)
    (htick : c ≠ '\x60') (h : body ∈ doubleStep∗) : c :: body ∈ doubleStep∗ := by
  refine mem_kstar_cons.mpr (.inr ⟨[c], .inl (.inl ⟨c, ?_, rfl⟩), body, h, rfl⟩)
  simp [hquote, htick]

theorem tick_mem_doubleSteps (c : Char) {body : List Char} (h : body ∈ doubleStep∗) :
    '\x60' :: c :: body ∈ doubleStep∗ := by
  refine mem_kstar_cons.mpr (.inr ⟨['\x60', c], ?_, body, h, rfl⟩)
  by_cases hc : c = '\n'
  · subst hc
    exact .inr rfl
  · exact .inl (.inr (mem_exactly_mul.mpr ⟨[c], ⟨c, by simpa using hc, rfl⟩, rfl⟩))

/-- What the matcher takes of an expanding string is steps and a quote. -/
theorem doubleQuotedRest_sound (text : List Char) : doubleQuotedRest text = some text.length →
    ∃ body q, body ∈ doubleStep∗ ∧ isDoubleQuote q = true ∧ text = body ++ [q] := by
  induction text using doubleQuotedRest.induct with
  | case1 =>
    intro h
    cases h
  -- a backtick takes the next character with it, so one step has two characters
  | case2 c cs ih =>
    intro h
    rw [doubleQuotedRest] at h
    obtain ⟨n, hn, hlength⟩ := Option.map_eq_some_iff.mp h
    obtain rfl : n = cs.length := Nat.succ.inj (Nat.succ.inj hlength)
    obtain ⟨body, q, hbody, hq, rfl⟩ := ih hn
    exact ⟨'\x60' :: c :: body, q, tick_mem_doubleSteps c hbody, hq, rfl⟩
  | case3 c cs hno hquote =>
    intro h
    have hc : c ≠ '\x60' := by rintro rfl; cases hquote
    rw [doubleQuotedRest_cons hc, if_pos hquote] at h
    obtain rfl : cs = [] := List.length_eq_zero_iff.mp (Nat.succ.inj (Option.some.inj h)).symm
    exact ⟨[], c, Language.nil_mem_kstar _, hquote, rfl⟩
  | case4 c cs hno hquote htick =>
    intro h
    rw [doubleQuotedRest, if_neg hquote, if_pos htick] at h
    · cases h
    · exact hno
  | case5 c cs hno hquote htick ih =>
    intro h
    have hc : c ≠ '\x60' := fun heq => htick (beq_iff_eq.mpr heq)
    rw [doubleQuotedRest_cons hc, if_neg hquote] at h
    obtain ⟨n, hn, hlength⟩ := Option.map_eq_some_iff.mp h
    obtain rfl : n = cs.length := Nat.succ.inj hlength
    obtain ⟨body, q, hbody, hq, rfl⟩ := ih hn
    exact ⟨c :: body, q, cons_mem_doubleSteps (by simpa using hquote) hc hbody, hq, rfl⟩

/-- Steps and a quote are taken up to that quote. -/
theorem doubleQuotedRest_complete {q : Char} (hq : isDoubleQuote q = true) {body : List Char}
    (h : body ∈ doubleStep∗) : doubleQuotedRest (body ++ [q]) = some (body.length + 1) := by
  obtain ⟨steps, rfl, hsteps⟩ := Language.mem_kstar.mp h
  clear h
  -- over the steps and not over the characters, since a step may have two
  induction steps with
  | nil =>
    have hne : q ≠ '\x60' := by rintro rfl; cases hq
    rw [List.flatten_nil, List.nil_append, doubleQuotedRest_cons hne, if_pos hq]
    rfl
  | cons step steps ih =>
    obtain ⟨hstep, hothers⟩ := List.forall_mem_cons.mp hsteps
    have hrest := ih hothers
    rw [List.flatten_cons, List.append_assoc]
    rcases hstep with (⟨c, hc, rfl⟩ | hstep) | rfl
    · simp only [Bool.and_eq_true, Bool.not_eq_true', bne_iff_ne] at hc
      rw [List.singleton_append, doubleQuotedRest_cons hc.2, hc.1, hrest]
      rfl
    · obtain ⟨_, ⟨c, -, rfl⟩, rfl⟩ := mem_exactly_mul.mp hstep
      have hcons : doubleQuotedRest ('\x60' :: c :: (steps.flatten ++ [q])) =
        (doubleQuotedRest (steps.flatten ++ [q])).map (· + 2) := rfl
      exact hcons.trans (by rw [hrest]; rfl)
    · have hcons : doubleQuotedRest ('\x60' :: '\n' :: (steps.flatten ++ [q])) =
        (doubleQuotedRest (steps.flatten ++ [q])).map (· + 2) := rfl
      exact hcons.trans (by rw [hrest]; rfl)

/-- An expanding string runs to the first quote that no backtick escapes. -/
theorem finds_doubleQuoted :
    Finds (oneOf isDoubleQuote * doubleStep∗ * oneOf isDoubleQuote) doubleQuoted := by
  refine .of_closed closed_doubleQuoted fun text => ?_
  rw [mem_mul_oneOf]
  constructor
  · intro h
    cases text with
    | nil => cases h
    | cons q cs =>
      rw [doubleQuoted] at h
      split at h
      · obtain ⟨n, hn, hlength⟩ := Option.map_eq_some_iff.mp h
        obtain rfl : n = cs.length := Nat.succ.inj hlength
        obtain ⟨body, q', hbody, hq', rfl⟩ := doubleQuotedRest_sound cs hn
        exact ⟨q :: body, q', mem_oneOf_mul.mpr ⟨q, body, ‹_›, hbody, rfl⟩, hq', rfl⟩
      · cases h
  · rintro ⟨_, q', hinit, hq', rfl⟩
    obtain ⟨q, body, hq, hbody, rfl⟩ := mem_oneOf_mul.mp hinit
    rw [List.cons_append, doubleQuoted, if_pos hq, doubleQuotedRest_complete hq' hbody]
    simp

/-! Line ends, and the patterns that end with one, have few texts. -/

/-- A line end is a line feed, or a carriage return and a line feed, and nothing more. -/
theorem lineEnd_eq_length {text : List Char} : lineEnd text = some text.length ↔ text ∈ lineEnds := by
  rw [mem_lineEnds]
  constructor
  · intro h
    cases text with
    | nil => cases h
    | cons c cs =>
      rw [lineEnd_cons] at h
      split at h
      · subst c
        obtain rfl : cs = [] := List.length_eq_zero_iff.mp (Nat.succ.inj (Option.some.inj h)).symm
        exact .inl rfl
      · split at h
        · rename_i hboth
          obtain ⟨rfl, hhead⟩ := hboth
          obtain ⟨ds, rfl⟩ := List.head?_eq_some_iff.mp hhead
          have hlength := Nat.succ.inj (Nat.succ.inj (Option.some.inj h))
          obtain rfl : ds = [] := List.length_eq_zero_iff.mp hlength.symm
          exact .inr rfl
        · cases h
  · rintro (rfl | rfl)
    · rfl
    · rfl

theorem finds_lineEnd : Finds lineEnds lineEnd :=
  .of_closed closed_lineEnd fun _ => lineEnd_eq_length

/-- A continuation is a backtick right in front of a line end. -/
theorem finds_lineContinuation : Finds (exactly "\x60" * lineEnds) lineContinuation := by
  refine .of_closed closed_lineContinuation fun text => ?_
  rw [mem_exactly_mul]
  constructor
  · intro h
    cases text with
    | nil => cases h
    | cons c cs =>
      rw [lineContinuation_cons] at h
      split at h
      · subst c
        obtain ⟨n, hn, hlength⟩ := Option.map_eq_some_iff.mp h
        obtain rfl : n = cs.length := Nat.succ.inj hlength
        exact ⟨cs, lineEnd_eq_length.mp hn, rfl⟩
      · cases h
  · rintro ⟨rest, hrest, rfl⟩
    exact Option.map_eq_some_iff.mpr ⟨rest.length, lineEnd_eq_length.mpr hrest, rfl⟩

/-- The header of a here-string is `@`, its quote and a line end. -/
theorem finds_hereHeader (quote : Char) {start : String} (hstart : start.toList = ['@', quote]) :
    Finds (exactly start * lineEnds) (hereHeader quote) := by
  refine .of_closed (closed_hereHeader quote) fun text => ?_
  rw [mem_exactly_mul, hstart]
  constructor
  · intro h
    obtain ⟨c, d, cs, rfl⟩ := exists_cons_cons (Nat.le_of_succ_le (three_le_hereHeader h))
    rw [hereHeader_cons] at h
    split at h
    · rename_i hboth
      obtain ⟨rfl, rfl⟩ := hboth
      obtain ⟨n, hn, hlength⟩ := Option.map_eq_some_iff.mp h
      obtain rfl : n = cs.length := Nat.succ.inj (Nat.succ.inj hlength)
      exact ⟨cs, lineEnd_eq_length.mp hn, rfl⟩
    · cases h
  · rintro ⟨rest, hrest, rfl⟩
    rw [List.cons_append, List.cons_append, List.nil_append, hereHeader_cons, if_pos ⟨rfl, rfl⟩,
      lineEnd_eq_length.mpr hrest]
    rfl

theorem finds_lone : Finds (oneOf fun c => c == '@' || c == '$' || c == '\x60') lone := by
  refine .of_closed closed_lone fun text => ?_
  rw [mem_oneOf]
  constructor
  · intro h
    cases text with
    | nil => cases h
    | cons c cs =>
      rw [lone] at h
      split at h
      · obtain rfl : cs = [] := List.length_eq_zero_iff.mp (Nat.succ.inj (Option.some.inj h)).symm
        exact ⟨c, ‹_›, rfl⟩
      · cases h
  · rintro ⟨c, hc, rfl⟩
    exact if_pos hc

/-! ### Names -/

theorem finds_splatted : Finds (exactly "@" * someOf Text.isWord) splatted where
  sound text rest h := by
    cases text with
    | nil => exact absurd (splatted_within _ _ h).1 (Nat.lt_irrefl 0)
    | cons c cs =>
      by_cases hc : c = '@'
      · subst hc
        obtain ⟨n, hn, hlength⟩ := Option.map_eq_some_iff.mp h
        obtain rfl : n = cs.length := Nat.succ.inj hlength
        exact mem_exactly_mul.mpr ⟨cs, (finds_run Text.isWord).sound cs rest hn, rfl⟩
      · simp [splatted, hc] at h
  complete text rest h := by
    obtain ⟨name, hname, rfl⟩ := mem_exactly_mul.mp h
    obtain ⟨n, hn, hle⟩ := (finds_run Text.isWord).complete name rest hname
    refine ⟨n + 1, ?_, Nat.succ_le_succ hle⟩
    exact Option.map_eq_some_iff.mpr ⟨n, hn, rfl⟩

theorem plainVariable_sound {c : Char} {cs : List Char}
    (h : plainVariable ('$' :: c :: cs) = some (cs.length + 2)) :
    c :: cs ∈ someOf Text.isWord * (1 + exactly ":" * (oneOf Text.isWord)∗) +
      oneOf (fun c => c == '$' || c == '?' || c == '^') := by
  have hname : ∀ d ∈ cs.take (run Text.isWord cs), Text.isWord d = true := by
    intro d hd
    rw [run, ← List.prefix_iff_eq_take.mp (List.takeWhile_prefix _)] at hd
    exact List.mem_takeWhile_imp hd
  have hle := run_le Text.isWord cs
  have hsplit := List.take_append_drop (run Text.isWord cs) cs
  have hlength := List.length_drop (i := run Text.isWord cs) (l := cs)
  rw [plainVariable] at h
  split at h
  · rename_i hc
    have hword : c :: cs.take (run Text.isWord cs) ∈ someOf Text.isWord :=
      mem_someOf.mpr ⟨List.cons_ne_nil _ _, List.forall_mem_cons.mpr ⟨hc, hname⟩⟩
    refine .inl (Language.mem_mul.mpr ⟨_, hword, cs.drop (run Text.isWord cs), ?_, ?_⟩)
    · -- behind the name stands nothing, or a colon and word characters
      simp only at h
      split at h
      · rename_i member hcolon
        rw [hcolon, List.length_cons] at hlength
        have hmember := Option.some.inj h
        rw [hcolon]
        refine .inr (mem_exactly_mul.mpr ⟨member, mem_kstar_oneOf.mpr ?_, rfl⟩)
        have hall : member.length ≤ run Text.isWord (member ++ []) := by
          rw [List.append_nil]
          omega
        exact forall_of_run hall
      · have hall := Option.some.inj h
        exact .inl (List.length_eq_zero_iff.mp (by omega))
    · rw [List.cons_append, hsplit]
  · split at h
    · have hnil : cs = [] := List.length_eq_zero_iff.mp (by have := Option.some.inj h; omega)
      subst hnil
      exact .inr ⟨c, ‹_›, rfl⟩
    · cases h

theorem plainVariable_name {c : Char} {name : List Char} (hc : Text.isWord c = true)
    (hname : ∀ d ∈ name, Text.isWord d = true) (rest : List Char) :
    ∃ n, plainVariable ('$' :: c :: (name ++ rest)) = some n ∧ name.length + 2 ≤ n := by
  have hle := le_run_append hname rest
  rw [plainVariable, if_pos hc]
  simp only
  split
  · exact ⟨_, rfl, by omega⟩
  · exact ⟨_, rfl, by omega⟩

theorem plainVariable_member {c : Char} {name : List Char} (hc : Text.isWord c = true)
    (hname : ∀ d ∈ name, Text.isWord d = true) (rest : List Char) :
    plainVariable ('$' :: c :: (name ++ ':' :: rest)) =
      some (name.length + run Text.isWord rest + 3) := by
  have hrun : run Text.isWord (name ++ ':' :: rest) = name.length := run_append hname (by decide)
  rw [plainVariable, if_pos hc]
  simp only [hrun, List.drop_left]

/-- A variable without braces is a name, a name behind a scope, or one of three marks. -/
theorem finds_plainVariable : Finds plainVariables plainVariable where
  sound text rest h := by
    obtain ⟨c, d, cs, rfl⟩ := exists_cons_cons (two_le_plainVariable h)
    by_cases hc : c = '$'
    · subst hc
      refine mem_exactly_mul.mpr ⟨d :: cs, plainVariable_sound ?_, rfl⟩
      -- the match ends with the text, so it is also a match of the text alone, of which the shape is known
      have hends := endsWith_plainVariable (List.cons_ne_nil '$' (d :: cs)) rest
      rw [hends fun n hn => ?_]
      · exact h
      · rw [h] at hn
        exact Nat.le_of_eq (Option.some.inj hn).symm
    · simp [plainVariable, hc] at h
  complete text rest h := by
    obtain ⟨more, hmore, rfl⟩ := mem_exactly_mul.mp h
    rcases hmore with hname | ⟨c, hc, rfl⟩
    · obtain ⟨word, hword, tail, htail, rfl⟩ := Language.mem_mul.mp hname
      obtain ⟨hne, hall⟩ := mem_someOf.mp hword
      obtain ⟨c, name, rfl⟩ := List.exists_cons_of_ne_nil hne
      obtain ⟨hc, hall⟩ := List.forall_mem_cons.mp hall
      rcases htail with rfl | htail
      · obtain ⟨n, hn, hle⟩ := plainVariable_name hc hall rest
        have hlength : ('$' :: (c :: name ++ [])).length = name.length + 2 := by simp
        exact ⟨n, by simpa using hn, hlength ▸ hle⟩
      · obtain ⟨member, hmember, rfl⟩ := mem_exactly_mul.mp htail
        have hmatch := plainVariable_member hc hall (member ++ rest)
        have hle := le_run_append (mem_kstar_oneOf.mp hmember) rest
        refine ⟨_, by simpa using hmatch, ?_⟩
        simp
        omega
    · have hspecial : c = '$' ∨ c = '?' ∨ c = '^' := by simpa [or_assoc] using hc
      refine ⟨2, ?_, Nat.le_refl _⟩
      rcases hspecial with rfl | rfl | rfl
      · rfl
      · rfl
      · rfl

/-- A keyword is found in every case, unless a character outside ASCII follows. -/
theorem keyword_sound {word : Keyword} {text rest : List Char}
    (h : keyword word (text ++ rest) = some text.length) : text ∈ anyCase word.text :=
  mem_anyCase.mpr (spells_of_keyword h)

/-- A keyword in any case is found unless a character outside ASCII follows. -/
theorem keyword_complete {word : Keyword} {text rest : List Char} (h : text ∈ anyCase word.text)
    (hascii : ∀ c ∈ rest.head?, c.toNat < 0x80) : keyword word (text ++ rest) = some text.length := by
  have hspells : Spells word text := mem_anyCase.mp h
  have hlength := afterFolded_length hspells
  rw [List.length_nil, Nat.add_zero, String.length_toList] at hlength
  rw [keyword, afterFolded_append rest hspells, List.nil_append]
  cases rest with
  | nil => rw [hlength]
  | cons c rest => exact (if_pos (hascii c rfl)).trans (by rw [hlength])

/-! ### All patterns -/

/-- What a pattern matches is a text of its lexeme. -/
theorem patterns_sound : ∀ pattern ∈ patterns, ∀ text rest,
    pattern.2 (text ++ rest) = some text.length → text ∈ pattern.1.declared := by
  have fixed (mark : String) : ∀ text rest, literal mark (text ++ rest) = some text.length →
      text ∈ exactly mark := (finds_literal mark).sound
  rw [patterns]
  simp only [List.forall_mem_append, List.forall_mem_map, List.forall_mem_cons, List.not_mem_nil,
    false_implies, implies_true, and_true]
  exact ⟨fun word _ _ _ => keyword_sound, fixed _, fixed _, fixed _, fixed _, fixed _, fixed _,
    fixed _, fixed _, fixed _, fixed _, fixed _, fixed _, fixed _, finds_lineComment.sound, fixed _,
    finds_singleQuoted.sound, finds_doubleQuoted.sound, (finds_hereHeader _ rfl).sound,
    (finds_hereHeader _ rfl).sound, fun text rest h => .inl (finds_plainVariable.sound text rest h),
    fun text rest h => .inr (finds_bracedVariable.sound text rest h), finds_splatted.sound,
    (finds_run isGap).sound, finds_lineContinuation.sound, finds_lineEnd.sound,
    (finds_run isWordPart).sound, finds_lone.sound⟩

/-- No text of a lexeme is missed: one of its patterns matches at least as much, unless the text is a
    keyword in front of a character outside ASCII. -/
theorem patterns_complete {lexeme : Lexeme} {text : List Char} (h : text ∈ lexeme.declared)
    (rest : List Char) (hascii : ∀ word, lexeme = .token (.keyword word) →
      ∀ c ∈ rest.head?, c.toNat < 0x80) :
    ∃ pattern n, (lexeme, pattern) ∈ patterns ∧ pattern (text ++ rest) = some n ∧ text.length ≤ n := by
  -- every case below names the pattern and its language; a keyword alone needs to know what follows
  have found {L : Language Char} {pattern : List Char → Option Nat} (hfinds : Finds L pattern)
      (hmem : (lexeme, pattern) ∈ patterns) (htext : text ∈ L) : ∃ pattern n,
        (lexeme, pattern) ∈ patterns ∧ pattern (text ++ rest) = some n ∧ text.length ≤ n := by
    obtain ⟨n, hn, hle⟩ := hfinds.complete text rest htext
    exact ⟨pattern, n, hmem, hn, hle⟩
  cases lexeme with
  | blanks => exact found (finds_run isGap) (by simp [patterns]) h
  | continuation => exact found finds_lineContinuation (by simp [patterns]) h
  | token kind =>
    cases kind with
    | keyword word =>
      have hmem : (Lexeme.token (.keyword word), keyword word) ∈ patterns :=
        List.mem_append_left _ (List.mem_map.mpr ⟨word, Keyword.mem_all word, rfl⟩)
      exact ⟨keyword word, text.length, hmem, keyword_complete h (hascii word rfl), Nat.le_refl _⟩
    | opening opener =>
      refine found (finds_literal opener.text) ?_ h
      cases opener <;> simp [patterns]
    | closing closer =>
      refine found (finds_literal closer.text) ?_ h
      cases closer <;> simp [patterns]
    | comma => exact found (finds_literal ",") (by simp [patterns]) h
    | semicolon => exact found (finds_literal ";") (by simp [patterns]) h
    | equals => exact found (finds_literal "=") (by simp [patterns]) h
    | pipe => exact found (finds_literal "|") (by simp [patterns]) h
    | comment style =>
      cases style with
      | line => exact found finds_lineComment (by simp [patterns]) h
      | block => exact found (finds_literal "<#") (by simp [patterns]) h
    | string style =>
      cases style with
      | single => exact found finds_singleQuoted (by simp [patterns]) h
      | double => exact found finds_doubleQuoted (by simp [patterns]) h
      | hereSingle => exact found (finds_hereHeader '\x27' rfl) (by simp [patterns]) h
      | hereDouble => exact found (finds_hereHeader '\x22' rfl) (by simp [patterns]) h
    | var =>
      rcases h with hplain | hbraced
      · exact found finds_plainVariable (by simp [patterns]) hplain
      · exact found finds_bracedVariable (by simp [patterns]) hbraced
    | splat => exact found finds_splatted (by simp [patterns]) h
    | word => exact found (finds_run isWordPart) (by simp [patterns]) h
    | other => exact found finds_lone (by simp [patterns]) h
    | newline => exact found finds_lineEnd (by simp [patterns]) h

end HelpAudit.Lexeme
