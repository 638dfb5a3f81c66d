import HelpAudit.Proofs.DeclaredPatterns
import HelpAudit.Proofs.ParameterHelp

/-! What comments say when they are help. A keyword line is stated as a pattern; the lines are cut at
    the keyword lines; and each part of the help record is stated by the sections that it comes from,
    so that a section for one target leaves all others alone. -/

namespace HelpAudit

open Computability Lexeme

/-! ### Trimming -/

namespace Text

variable {cs a b : List Char}

theorem isBlank_of_isAlpha {c : Char} (h : c.isAlpha = true) : isBlank c = false := by
  have hascii : c.toNat < 128 := toNat_lt_of_isAlphanum (by simp [Char.isAlphanum, h])
  revert h
  exact forall_ascii (p := fun c => c.isAlpha = true → isBlank c = false) (by decide) hascii

theorem trimStart_append (h : ∀ c ∈ a, isBlank c = true) : trimStart (a ++ b) = trimStart b :=
  List.dropWhile_append_of_pos h

theorem trimStart_cons {c : Char} (h : isBlank c = false) (cs : List Char) :
    trimStart (c :: cs) = c :: cs := by
  rw [trimStart, List.dropWhile_cons_of_neg (by simp [h])]

theorem trimEnd_append (h : ∀ c ∈ b, isBlank c = true) : trimEnd (a ++ b) = trimEnd a := by
  have hreverse : ∀ c ∈ b.reverse, isBlank c = true := fun c hc => h c (List.mem_reverse.mp hc)
  rw [trimEnd, dropWhileEnd, List.reverse_append, List.dropWhile_append_of_pos hreverse]
  rfl

theorem exists_trimStart (cs : List Char) :
    ∃ blanks, (∀ c ∈ blanks, isBlank c = true) ∧ cs = blanks ++ trimStart cs :=
  ⟨cs.takeWhile isBlank, fun _ hc => List.mem_takeWhile_imp hc, List.takeWhile_append_dropWhile.symm⟩

theorem exists_trimEnd (cs : List Char) :
    ∃ blanks, (∀ c ∈ blanks, isBlank c = true) ∧ cs = trimEnd cs ++ blanks := by
  obtain ⟨blanks, hblanks, hsplit⟩ := exists_trimStart cs.reverse
  refine ⟨blanks.reverse, fun c hc => hblanks c (List.mem_reverse.mp hc), ?_⟩
  rw [trimEnd, dropWhileEnd, ← List.reverse_append, ← trimStart, ← hsplit, List.reverse_reverse]

theorem mem_of_mem_trimEnd {c : Char} (h : c ∈ trimEnd cs) : c ∈ cs := by
  obtain ⟨blanks, -, hsplit⟩ := exists_trimEnd cs
  rw [hsplit]
  exact List.mem_append_left blanks h

theorem trimEnd_eq_nil_iff : trimEnd cs = [] ↔ ∀ c ∈ cs, isBlank c = true := by
  constructor
  · intro h
    obtain ⟨blanks, hblanks, hsplit⟩ := exists_trimEnd cs
    rw [hsplit, h]
    exact hblanks
  · exact fun h => trimEnd_append (a := []) h

theorem trimBoth_eq_nil_iff : trimBoth cs = [] ↔ ∀ c ∈ cs, isBlank c = true := by
  obtain ⟨blanks, hblanks, hsplit⟩ := exists_trimStart cs
  rw [trimBoth, trimEnd_eq_nil_iff]
  constructor
  · intro h c hc
    rw [hsplit, List.mem_append] at hc
    rcases hc with hc | hc
    · exact hblanks c hc
    · exact h c hc
  · intro h c hc
    exact h c (hsplit ▸ List.mem_append_right blanks hc)

theorem trimEnd_append_of_ne_nil (h : trimEnd b ≠ []) : trimEnd (a ++ b) = a ++ trimEnd b := by
  have hne : b.reverse.dropWhile isBlank ≠ [] := by simpa [trimEnd, dropWhileEnd] using h
  rw [trimEnd, dropWhileEnd, List.reverse_append, List.dropWhile_append, if_neg (by simpa using hne),
    List.reverse_append, List.reverse_reverse]
  rfl

/-- It does not matter at which end the blanks are cut first. -/
theorem trimStart_trimEnd (cs : List Char) : trimStart (trimEnd cs) = trimBoth cs := by
  obtain ⟨blanks, hblanks, hsplit⟩ := exists_trimStart cs
  by_cases hnil : trimBoth cs = []
  · rw [hnil, trimEnd_eq_nil_iff.mpr (trimBoth_eq_nil_iff.mp hnil)]
    rfl
  · -- the first character that is kept is the first one that is not blank
    obtain ⟨c, core, hcore⟩ := List.exists_cons_of_ne_nil hnil
    obtain ⟨space, -, hspace⟩ := exists_trimEnd (trimStart cs)
    rw [← trimBoth, hcore] at hspace
    have hc := List.head?_dropWhile_not isBlank cs
    rw [← trimStart, hspace] at hc
    calc trimStart (trimEnd cs) = trimStart (trimEnd (blanks ++ trimStart cs)) := by rw [← hsplit]
      _ = trimStart (blanks ++ trimBoth cs) := by rw [trimEnd_append_of_ne_nil hnil, trimBoth]
      _ = trimStart (c :: core) := by rw [trimStart_append hblanks, hcore]
      _ = trimBoth cs := by rw [trimStart_cons hc, hcore]

end Text

/-! ### Keyword lines -/

/-- Whether the character may stand between the word of a keyword line and its argument. -/
def isArgumentGap (c : Char) : Bool := c == ' ' || c == '\t'

/-- What may follow the word of a keyword line: an argument after blanks or tabs, on the same line, and
    white space. -/
def argumentTails : Language Char :=
  (1 + someOf isArgumentGap * (oneOf (· != '\n'))∗) * (oneOf Text.isBlank)∗

/-- The argument in what follows the word, without the blanks around it; none when nothing is left. -/
def argumentIn (tail : List Char) : Option String :=
  if Text.trimBoth tail = [] then none else some (.ofList (Text.trimBoth tail))

/-- The line is white space, a dot, a word of ASCII letters and what may follow it, with this
    argument. -/
def IsKeywordLine (line word : List Char) (argument : Option String) : Prop :=
  ∃ indent ∈ (oneOf Text.isBlank)∗, ∃ tail ∈ argumentTails, word ∈ someOf Char.isAlpha ∧
    line = indent ++ '.' :: (word ++ tail) ∧ argument = argumentIn tail

section KeywordLine

variable {line word tail : List Char} {argument : Option String}

theorem isBlank_of_isArgumentGap {c : Char} (h : isArgumentGap c = true) : Text.isBlank c = true := by
  rw [isArgumentGap, Bool.or_eq_true, beq_iff_eq, beq_iff_eq] at h
  rcases h with rfl | rfl <;> rfl

/-- What may follow the word of a keyword line: blanks, or a gap and a text on the same line. -/
theorem mem_argumentTails : tail ∈ argumentTails ↔ (∀ c ∈ tail, Text.isBlank c = true) ∨
    ∃ gap text space, gap ≠ [] ∧ (∀ c ∈ gap, isArgumentGap c = true) ∧ '\n' ∉ text ∧
      (∀ c ∈ space, Text.isBlank c = true) ∧ tail = gap ++ (text ++ space) := by
  rw [argumentTails, Language.mem_mul]
  constructor
  · rintro ⟨front, hfront, space, hspace, rfl⟩
    rw [mem_kstar_oneOf] at hspace
    rcases (Language.mem_add ..).mp hfront with rfl | hfront
    · exact .inl hspace
    · obtain ⟨gap, hgap, text, htext, rfl⟩ := Language.mem_mul.mp hfront
      obtain ⟨hne, hgap⟩ := mem_someOf.mp hgap
      rw [mem_kstar_oneOf] at htext
      refine .inr ⟨gap, text, space, hne, hgap, fun hmem => ?_, hspace, List.append_assoc ..⟩
      simpa using htext _ hmem
  · rintro (hblank | ⟨gap, text, space, hne, hgap, htext, hspace, rfl⟩)
    · exact ⟨[], .inl rfl, tail, mem_kstar_oneOf.mpr hblank, rfl⟩
    · refine ⟨gap ++ text, .inr ?_, space, mem_kstar_oneOf.mpr hspace, List.append_assoc ..⟩
      refine Language.mem_mul.mpr ⟨gap, mem_someOf.mpr ⟨hne, hgap⟩, text, mem_kstar_oneOf.mpr ?_, rfl⟩
      intro c hc
      rw [bne_iff_ne]
      rintro rfl
      exact htext hc

/-- A word ends where what follows it starts. -/
theorem head_of_mem_argumentTails {c : Char} {cs : List Char} (h : c :: cs ∈ argumentTails) :
    Text.isBlank c = true := by
  rcases mem_argumentTails.mp h with hblank | ⟨gap, text, space, hne, hgap, -, -, hsplit⟩
  · exact hblank c List.mem_cons_self
  · obtain ⟨d, gap, rfl⟩ := List.exists_cons_of_ne_nil hne
    obtain ⟨rfl, -⟩ := List.cons.inj hsplit
    exact isBlank_of_isArgumentGap (hgap c List.mem_cons_self)

/-- The blanks and tabs before an argument are cut off with the other blanks around it. -/
theorem trimBoth_dropWhile_gap (tail : List Char) :
    Text.trimBoth (tail.dropWhile isArgumentGap) = Text.trimBoth tail := by
  have hgap : ∀ c ∈ tail.takeWhile isArgumentGap, Text.isBlank c = true := fun c hc =>
    isBlank_of_isArgumentGap (List.mem_takeWhile_imp hc)
  have hsplit := Text.trimStart_append (b := tail.dropWhile isArgumentGap) hgap
  rw [List.takeWhile_append_dropWhile] at hsplit
  rw [Text.trimBoth, Text.trimBoth, hsplit]

/-- The argument stays on the line. -/
theorem newline_notMem_argument {gap text space : List Char} (hgap : ∀ c ∈ gap, isArgumentGap c = true)
    (htext : '\n' ∉ text) (hspace : ∀ c ∈ space, Text.isBlank c = true) :
    '\n' ∉ Text.trimEnd ((gap ++ (text ++ space)).dropWhile isArgumentGap) := by
  rw [List.dropWhile_append_of_pos hgap, List.dropWhile_append]
  split
  · have hblank : ∀ c ∈ space.dropWhile isArgumentGap, Text.isBlank c = true := fun c hc =>
      hspace c ((List.dropWhile_sublist _).subset hc)
    rw [Text.trimEnd_eq_nil_iff.mpr hblank]
    exact List.not_mem_nil
  · rw [Text.trimEnd_append hspace]
    intro hmem
    exact htext ((List.dropWhile_sublist _).subset (Text.mem_of_mem_trimEnd hmem))

theorem mem_argumentTails_of_line {c : Char} {rest : List Char} (hc : isArgumentGap c = true)
    (hline : '\n' ∉ Text.trimEnd ((c :: rest).dropWhile isArgumentGap)) :
    c :: rest ∈ argumentTails := by
  obtain ⟨space, hspace, hsplit⟩ := Text.exists_trimEnd ((c :: rest).dropWhile isArgumentGap)
  refine mem_argumentTails.mpr (.inr ⟨(c :: rest).takeWhile isArgumentGap, _, space, ?_,
    fun _ hd => List.mem_takeWhile_imp hd, hline, hspace, ?_⟩)
  · rw [List.takeWhile_cons_of_pos hc]
    exact List.cons_ne_nil _ _
  · rw [← hsplit, List.takeWhile_append_dropWhile]

theorem span_word (hword : ∀ c ∈ word, c.isAlpha = true) (htail : tail ∈ argumentTails) :
    (word ++ tail).takeWhile Char.isAlpha = word ∧ (word ++ tail).dropWhile Char.isAlpha = tail := by
  have hstop : tail.takeWhile Char.isAlpha = [] ∧ tail.dropWhile Char.isAlpha = tail := by
    cases tail with
    | nil => exact ⟨rfl, rfl⟩
    | cons c cs =>
      have hc : ¬ c.isAlpha = true := by
        intro halpha
        have hblank := head_of_mem_argumentTails htail
        rw [Text.isBlank_of_isAlpha halpha] at hblank
        cases hblank
      exact ⟨List.takeWhile_cons_of_neg hc, List.dropWhile_cons_of_neg hc⟩
  rw [List.takeWhile_append_of_pos hword, List.dropWhile_append_of_pos hword, hstop.1, hstop.2,
    List.append_nil]
  exact ⟨rfl, rfl⟩

/-- A line that the pattern matches is read as a keyword line. -/
theorem keywordLine?_of_isKeywordLine (h : IsKeywordLine line word argument) :
    keywordLine? line = some (word, argument) := by
  obtain ⟨indent, hindent, tail, htail, hword, rfl, rfl⟩ := h
  obtain ⟨hne, hword⟩ := mem_someOf.mp hword
  obtain ⟨htake, hdrop⟩ := span_word hword htail
  have hstart : Text.trimStart (indent ++ '.' :: (word ++ tail)) = '.' :: (word ++ tail) := by
    rw [Text.trimStart_append (mem_kstar_oneOf.mp hindent), Text.trimStart_cons (by decide)]
  -- the reader spells the gap out; from here on it is the class of the pattern
  have hgap : (fun c => c == ' ' || c == '\t') = isArgumentGap := rfl
  rw [keywordLine?, hstart]
  simp only [htake, hdrop, hgap, List.isEmpty_iff, hne, if_false, List.all_eq_true]
  split
  · rename_i hblank
    rw [argumentIn, if_pos (Text.trimBoth_eq_nil_iff.mpr hblank)]
  · rename_i hblank
    rcases mem_argumentTails.mp htail with h | ⟨gap, text, space, hne, hgaps, htext, hspace, rfl⟩
    · exact absurd h hblank
    · have hline := newline_notMem_argument hgaps htext hspace
      rw [argumentIn, if_neg (mt Text.trimBoth_eq_nil_iff.mp hblank), Text.trimStart_trimEnd,
        trimBoth_dropWhile_gap]
      obtain ⟨c, gap, rfl⟩ := List.exists_cons_of_ne_nil hne
      have hc : (c == ' ' || c == '\t') = true := hgaps c List.mem_cons_self
      simp only [List.cons_append] at hline ⊢
      simp [hc, hline]

/-- A line that is read as a keyword line is one that the pattern matches. -/
theorem isKeywordLine_of_keywordLine? (h : keywordLine? line = some (word, argument)) :
    IsKeywordLine line word argument := by
  have hgap : (fun c => c == ' ' || c == '\t') = isArgumentGap := rfl
  obtain ⟨indent, hindent, hline⟩ := Text.exists_trimStart line
  rw [keywordLine?] at h
  split at h
  · rename_i cs hstart
    have hsplit := List.takeWhile_append_dropWhile (p := Char.isAlpha) (l := cs)
    rw [hstart, ← hsplit] at hline
    have hword : ∀ c ∈ cs.takeWhile Char.isAlpha, c.isAlpha = true := fun c hc =>
      List.mem_takeWhile_imp hc
    simp only [hgap, List.isEmpty_iff, List.all_eq_true] at h
    split at h
    · cases h
    rename_i hne
    -- whichever branch the reader took, what follows the word decides the argument
    suffices hread : cs.dropWhile Char.isAlpha ∈ argumentTails ∧ word = cs.takeWhile Char.isAlpha ∧
        argument = argumentIn (cs.dropWhile Char.isAlpha) by
      obtain ⟨htail, rfl, rfl⟩ := hread
      exact ⟨indent, mem_kstar_oneOf.mpr hindent, _, htail, mem_someOf.mpr ⟨hne, hword⟩, hline, rfl⟩
    split at h
    · rename_i hblank
      cases h
      exact ⟨mem_argumentTails.mpr (.inl hblank), rfl,
        by rw [argumentIn, if_pos (Text.trimBoth_eq_nil_iff.mpr hblank)]⟩
    · rename_i hblank
      rw [Text.trimStart_trimEnd, trimBoth_dropWhile_gap] at h
      split at h
      · rename_i c rest htail
        split at h
        · rename_i hargument
          cases h
          rw [htail] at hargument hblank ⊢
          simp only [Bool.and_eq_true, Bool.not_eq_true', List.contains_eq_mem,
            decide_eq_false_iff_not] at hargument
          exact ⟨mem_argumentTails_of_line hargument.1 hargument.2, rfl,
            by rw [argumentIn, if_neg (mt Text.trimBoth_eq_nil_iff.mp hblank)]⟩
        · cases h
      · cases h
  · cases h

theorem keywordLine?_eq_some :
    keywordLine? line = some (word, argument) ↔ IsKeywordLine line word argument :=
  ⟨isKeywordLine_of_keywordLine?, keywordLine?_of_isKeywordLine⟩

end KeywordLine

/-! ### The cut into sections -/

/-- The line is a keyword line. -/
def HasKeyword (line : List Char) : Prop := ∃ word argument, IsKeywordLine line word argument

/-- The lines are cut before each keyword line. A part is a keyword line with the entry it starts; no
    line before the first part and no line of a body is a keyword line. -/
structure IsCut (lines before : List (List Char)) (parts : List (List Char × HelpEntry)) : Prop where
  lines_eq : lines = before ++ parts.flatMap fun part => part.1 :: part.2.body
  before_plain : ∀ line ∈ before, ¬ HasKeyword line
  keyword : ∀ part ∈ parts, IsKeywordLine part.1 part.2.word part.2.argument
  body_plain : ∀ part ∈ parts, ∀ line ∈ part.2.body, ¬ HasKeyword line

section Cut

variable {lines before : List (List Char)} {parts : List (List Char × HelpEntry)}

theorem keywordLine?_eq_none {line : List Char} : keywordLine? line = none ↔ ¬ HasKeyword line := by
  rw [Option.eq_none_iff_forall_ne_some]
  constructor
  · rintro h ⟨word, argument, hline⟩
    exact h _ (keywordLine?_eq_some.mpr hline)
  · rintro h ⟨word, argument⟩ hline
    exact h ⟨word, argument, keywordLine?_eq_some.mp hline⟩

theorem IsCut.plain {line : List Char} (h : IsCut lines before parts) (hline : ¬ HasKeyword line) :
    IsCut (line :: lines) (line :: before) parts where
  lines_eq := by rw [h.lines_eq, List.cons_append]
  before_plain := List.forall_mem_cons.mpr ⟨hline, h.before_plain⟩
  keyword := h.keyword
  body_plain := h.body_plain

theorem IsCut.headed {line word : List Char} {argument : Option String} (h : IsCut lines before parts)
    (hline : IsKeywordLine line word argument) :
    IsCut (line :: lines) [] ((line, ⟨word, argument, before⟩) :: parts) where
  lines_eq := by rw [h.lines_eq, List.nil_append, List.flatMap_cons, List.cons_append]
  before_plain := by simp
  keyword := List.forall_mem_cons.mpr ⟨hline, h.keyword⟩
  body_plain := List.forall_mem_cons.mpr ⟨h.before_plain, h.body_plain⟩

/-- The entries are those of the cut. -/
theorem helpEntries_isCut (lines : List (List Char)) : ∃ parts,
    IsCut lines (helpEntries lines).1 parts ∧ (helpEntries lines).2 = parts.map (·.2) := by
  induction lines with
  | nil => exact ⟨[], ⟨rfl, by simp [helpEntries], by simp, by simp⟩, rfl⟩
  | cons line lines ih =>
    obtain ⟨parts, hcut, hentries⟩ := ih
    rw [helpEntries]
    cases hline : keywordLine? line with
    | none => exact ⟨parts, hcut.plain (keywordLine?_eq_none.mp hline), hentries⟩
    | some found =>
      obtain ⟨word, argument⟩ := found
      exact ⟨_, hcut.headed (keywordLine?_eq_some.mp hline), by simp [hentries]⟩

/-- The keyword lines are the first lines of the parts. -/
theorem IsCut.exists_part (h : IsCut lines before parts) {line word : List Char}
    {argument : Option String} : line ∈ lines ∧ IsKeywordLine line word argument ↔
      ∃ part ∈ parts, part.1 = line ∧ part.2.word = word ∧ part.2.argument = argument := by
  constructor
  · rintro ⟨hmem, hline⟩
    rw [h.lines_eq, List.mem_append, List.mem_flatMap] at hmem
    rcases hmem with hmem | ⟨part, hpart, hmem⟩
    · exact absurd ⟨word, argument, hline⟩ (h.before_plain line hmem)
    rcases List.mem_cons.mp hmem with rfl | hmem
    · have hread := keywordLine?_eq_some.mpr hline
      rw [keywordLine?_eq_some.mpr (h.keyword part hpart)] at hread
      obtain ⟨hword, hargument⟩ := Prod.mk.inj (Option.some.inj hread)
      exact ⟨part, hpart, rfl, hword, hargument⟩
    · exact absurd ⟨word, argument, hline⟩ (h.body_plain part hpart line hmem)
  · rintro ⟨part, hpart, rfl, rfl, rfl⟩
    refine ⟨?_, h.keyword part hpart⟩
    rw [h.lines_eq]
    exact List.mem_append_right _ (List.mem_flatMap.mpr ⟨part, hpart, List.mem_cons_self⟩)

end Cut

/-! ### Texts joined by lines -/

/-- The texts of repeated sections as one: absent without sections, otherwise the texts that are not
    empty, on lines of their own. -/
def joined : List String → Option String
  | [] => none
  | text :: texts => some ("\n".intercalate ((text :: texts).filter (!·.isEmpty)))

theorem isEmpty_append_newline (a b : String) : (a ++ "\n" ++ b).isEmpty = false := by
  rw [Bool.eq_false_iff, ne_eq, String.isEmpty_iff, String.append_eq_empty_iff, String.append_eq_empty_iff]
  rintro ⟨⟨-, hline⟩, -⟩
  exact absurd hline (by decide)

/-- Texts that are not empty make a text that is not empty. -/
theorem isEmpty_intercalate {texts : List String} (h : ∀ text ∈ texts, text.isEmpty = false) :
    ("\n".intercalate texts).isEmpty = texts.isEmpty := by
  rcases texts with _ | ⟨text, _ | ⟨next, texts⟩⟩
  · rfl
  · simpa using h
  · rw [String.intercalate_cons_of_ne_nil (List.cons_ne_nil _ _), isEmpty_append_newline]
    rfl

/-- One more section adds its text to the joined one. -/
theorem joined_concat (texts : List String) (text : String) :
    joined (texts ++ [text]) = mergeText (joined texts) text := by
  cases texts with
  | nil =>
    cases hempty : text.isEmpty with
    | true => simp [joined, mergeText, String.isEmpty_iff.mp hempty]
    | false => simp [joined, mergeText, hempty]
  | cons first texts =>
    have hfilled : ∀ t ∈ (first :: texts).filter (!·.isEmpty), t.isEmpty = false := by simp
    rw [List.cons_append, joined, joined, mergeText, ← List.cons_append, List.filter_append]
    -- only the texts that are not empty matter from here on
    generalize (first :: texts).filter (!·.isEmpty) = filled at hfilled
    cases hempty : text.isEmpty with
    | true => simp [joinTexts, hempty]
    | false =>
      cases filled with
      | nil => simp [joinTexts, hempty]
      | cons t filled =>
        rw [List.filter_cons_of_pos (by simp [hempty]), List.filter_nil,
          String.intercalate_append_of_ne_nil (List.cons_ne_nil _ _) (List.cons_ne_nil _ _),
          String.intercalate_singleton]
        simp only [joinTexts, hempty, isEmpty_intercalate hfilled]
        rfl

theorem joinTexts_assoc (a b c : String) :
    joinTexts (joinTexts a b) c = joinTexts a (joinTexts b c) := by
  cases hc : c.isEmpty with
  | true => simp [joinTexts, hc]
  | false =>
    cases hb : b.isEmpty with
    | true => simp [joinTexts, hb, hc]
    | false =>
      cases ha : a.isEmpty with
      | true => simp [joinTexts, ha, hb, hc, isEmpty_append_newline]
      | false => simp [joinTexts, ha, hb, hc, String.append_assoc]

/-- The argument and the text of one section count as two texts. -/
theorem joined_append_value (texts : List String) (argument : Option String) (text : String) :
    joined (texts ++ (argument.toList ++ [text])) = mergeText (joined texts) (argumentOr argument text) := by
  cases argument with
  | none => exact joined_concat texts text
  | some argument =>
    rw [Option.toList_some, ← List.append_assoc, joined_concat, joined_concat]
    cases joined texts with
    | none => rfl
    | some existing => simp [mergeText, argumentOr, joinTexts_assoc]

/-! ### The record of the sections -/

/-- Whether the keyword of the entry is that of the section, whatever the case of its letters. -/
def HelpEntry.starts (entry : HelpEntry) (kind : HelpSection) : Bool :=
  kind.keyword.toList == entry.word.map Char.toUpper

/-- The text of an entry. -/
def HelpEntry.text (entry : HelpEntry) : String := sectionText entry.body

/-- The texts of the sections of one kind. -/
def textsOf (kind : HelpSection) (entries : List HelpEntry) : List String :=
  (entries.filter (·.starts kind)).map (·.text)

/-- The arguments and texts of the sections of one kind. -/
def valuesOf (kind : HelpSection) (entries : List HelpEntry) : List String :=
  (entries.filter (·.starts kind)).flatMap fun entry => entry.argument.toList ++ [entry.text]

/-- Whether the entry is a parameter section whose argument has the upper-case form `key`. -/
def HelpEntry.isFor (entry : HelpEntry) (key : String) : Bool :=
  entry.starts .parameter && entry.argument.map Text.upper == some key

/-- The texts of the parameter sections for one name. -/
def textsFor (key : String) (entries : List HelpEntry) : List String :=
  (entries.filter (·.isFor key)).map (·.text)

namespace CommentHelp

/-- What the sections say, but for the parameters. -/
def ofSections (entries : List HelpEntry) (parameters : List (String × String)) : CommentHelp where
  synopsis := joined (textsOf .synopsis entries)
  description := joined (textsOf .description entries)
  notes := joined (textsOf .notes entries)
  examples := textsOf .example_ entries
  inputs := textsOf .inputs entries
  outputs := textsOf .outputs entries
  links := textsOf .link entries
  component := joined (textsOf .component entries)
  role := joined (textsOf .role entries)
  functionality := joined (textsOf .functionality entries)
  forwardHelpTargetName := joined (valuesOf .forwardHelpTargetName entries)
  forwardHelpCategory := joined (valuesOf .forwardHelpCategory entries)
  remoteHelpRunspace := joined (valuesOf .remoteHelpRunspace entries)
  externalHelp := joined (valuesOf .externalHelp entries)
  parameters := parameters

/-- The record says what the sections say; a parameter is described by the sections for its name. -/
structure Records (help : CommentHelp) (entries : List HelpEntry) : Prop where
  fields : help = ofSections entries help.parameters
  parameters : ∀ key, help.parameters.lookup key = joined (textsFor key entries)
  keys_nodup : (help.parameters.map (·.1)).Nodup

end CommentHelp

section Record

variable {help : CommentHelp} {entry : HelpEntry} {entries : List HelpEntry} {kind : HelpSection}

theorem HelpSection.keyword_injective : Function.Injective HelpSection.keyword := by
  intro kind kind'
  cases kind <;> cases kind' <;> decide

theorem HelpSection.mem_all (kind : HelpSection) : kind ∈ HelpSection.all := by
  cases kind <;> decide

/-- A word starts the section with this keyword, and no other. -/
theorem HelpSection.ofWord?_eq_some {word : List Char} :
    HelpSection.ofWord? word = some kind ↔ kind.keyword.toList = word.map Char.toUpper := by
  rw [HelpSection.ofWord?]
  constructor
  · intro h
    have hfound := List.find?_some h
    exact eq_of_beq hfound
  · intro h
    cases hfound : HelpSection.all.find? fun kind => kind.keyword.toList == word.map Char.toUpper with
    | none =>
      have hnone := List.find?_eq_none.mp hfound kind kind.mem_all
      rw [h, beq_self_eq_true] at hnone
      exact absurd rfl hnone
    | some kind' =>
      have hword := List.find?_some hfound
      rw [HelpSection.keyword_injective (String.toList_injective ((eq_of_beq hword).trans h.symm))]

theorem HelpEntry.starts_iff : entry.starts kind = true ↔ HelpSection.ofWord? entry.word = some kind := by
  rw [starts, beq_iff_eq, HelpSection.ofWord?_eq_some]

theorem HelpEntry.starts_eq (h : entry.starts kind = true) (kind' : HelpSection) :
    entry.starts kind' = decide (kind' = kind) := by
  rw [Bool.eq_iff_iff, HelpEntry.starts_iff, HelpEntry.starts_iff.mp h, decide_eq_true_eq,
    Option.some.injEq, eq_comm]

theorem textsOf_concat (h : entry.starts kind = true) (kind' : HelpSection) :
    textsOf kind' (entries ++ [entry]) =
      textsOf kind' entries ++ if kind' = kind then [entry.text] else [] := by
  by_cases heq : kind' = kind <;> simp [textsOf, HelpEntry.starts_eq h, heq]

theorem valuesOf_concat (h : entry.starts kind = true) (kind' : HelpSection) :
    valuesOf kind' (entries ++ [entry]) =
      valuesOf kind' entries ++ if kind' = kind then entry.argument.toList ++ [entry.text] else [] := by
  by_cases heq : kind' = kind <;> simp [valuesOf, HelpEntry.starts_eq h, heq]

theorem textsFor_concat (key : String) : textsFor key (entries ++ [entry]) =
    textsFor key entries ++ if entry.isFor key then [entry.text] else [] := by
  by_cases hkey : entry.isFor key = true <;> simp [textsFor, hkey]

theorem HelpEntry.isFor_iff (h : entry.starts kind = true) {key : String} :
    entry.isFor key = true ↔ kind = .parameter ∧ entry.argument.map Text.upper = some key := by
  rw [isFor, Bool.and_eq_true, beq_iff_eq, HelpEntry.starts_eq h, decide_eq_true_eq, eq_comm]

/-- One more text for a name goes to the entry of that name. -/
theorem lookup_joinEntry (key text k : String) (entries : List (String × String)) :
    (CommentHelp.joinEntry key text entries).lookup k =
      if k = key then mergeText (entries.lookup key) text else entries.lookup k := by
  induction entries with
  | nil =>
    by_cases hk : k = key
    · simp [CommentHelp.joinEntry, mergeText, hk]
    · simp [CommentHelp.joinEntry, List.lookup_cons, hk, beq_eq_false_iff_ne.mpr hk]
  | cons pair entries ih =>
    obtain ⟨name, existing⟩ := pair
    rw [CommentHelp.joinEntry]
    by_cases hname : name = key
    · subst hname
      by_cases hk : k = name
      · simp [mergeText, hk]
      · simp [List.lookup_cons, hk, beq_eq_false_iff_ne.mpr hk]
    · rw [if_neg hname, List.lookup_cons, List.lookup_cons, List.lookup_cons, ih,
        beq_eq_false_iff_ne.mpr (Ne.symm hname)]
      by_cases hk : k = name
      · simp [hk, hname]
      · simp [beq_eq_false_iff_ne.mpr hk]

theorem nodup_joinEntry (key text : String) {entries : List (String × String)}
    (h : (entries.map (·.1)).Nodup) : ((CommentHelp.joinEntry key text entries).map (·.1)).Nodup := by
  induction entries with
  | nil => simp [CommentHelp.joinEntry]
  | cons pair entries ih =>
    obtain ⟨name, existing⟩ := pair
    rw [List.map_cons, List.nodup_cons] at h
    rw [CommentHelp.joinEntry]
    split
    · exact List.nodup_cons.mpr h
    · rename_i hname
      refine List.nodup_cons.mpr ⟨?_, ih h.2⟩
      rw [mem_keys_joinEntry, not_or]
      exact ⟨hname, h.1⟩

theorem CommentHelp.add_parameters (help : CommentHelp) (kind : HelpSection) (argument : Option String)
    (text : String) : (help.add kind argument text).parameters =
      if kind = .parameter then
        argument.elim help.parameters fun name => joinEntry (Text.upper name) text help.parameters
      else help.parameters := by
  cases kind <;> cases argument <;> rfl

theorem CommentHelp.Records.fields_add (h : help.Records entries) (hkind : entry.starts kind = true) :
    help.add kind entry.argument entry.text =
      ofSections (entries ++ [entry]) (help.add kind entry.argument entry.text).parameters := by
  obtain ⟨parameters, rfl⟩ : ∃ parameters, help = ofSections entries parameters := ⟨_, h.fields⟩
  cases kind with
  | parameter =>
    cases hargument : entry.argument <;>
      simp [CommentHelp.add, addParameter, ofSections, textsOf_concat hkind, valuesOf_concat hkind]
  | _ =>
    simp [CommentHelp.add, ofSections, textsOf_concat hkind, valuesOf_concat hkind, joined_concat,
      joined_append_value]

/-- Adding a section changes the text of a parameter only if the section is for it. -/
theorem CommentHelp.Records.lookup_add (h : help.Records entries) (hkind : entry.starts kind = true)
    (key : String) : (help.add kind entry.argument entry.text).parameters.lookup key =
      joined (textsFor key (entries ++ [entry])) := by
  rw [CommentHelp.add_parameters, textsFor_concat]
  by_cases hfor : entry.isFor key = true
  · obtain ⟨rfl, hname⟩ := (HelpEntry.isFor_iff hkind).mp hfor
    obtain ⟨name, hargument, rfl⟩ := Option.map_eq_some_iff.mp hname
    rw [if_pos rfl, hargument, Option.elim_some, lookup_joinEntry, if_pos rfl, if_pos hfor,
      joined_concat, h.parameters]
  · -- a section without a name, for another name or of another kind
    rw [if_neg hfor, List.append_nil, ← h.parameters]
    split
    · rename_i hparameter
      cases hargument : entry.argument with
      | none => rfl
      | some name =>
        rw [Option.elim_some, lookup_joinEntry, if_neg]
        rintro rfl
        exact hfor ((HelpEntry.isFor_iff hkind).mpr ⟨hparameter, by rw [hargument, Option.map_some]⟩)
    · rfl

theorem CommentHelp.keys_nodup_add (h : (help.parameters.map (·.1)).Nodup) (kind : HelpSection)
    (argument : Option String) (text : String) :
    ((help.add kind argument text).parameters.map (·.1)).Nodup := by
  rw [add_parameters]
  split
  · cases argument with
    | none => exact h
    | some name => exact nodup_joinEntry _ _ h
  · exact h

/-- One more section is added to what it is for, and to nothing else. -/
theorem CommentHelp.Records.add (h : help.Records entries) (hkind : entry.starts kind = true) :
    (help.add kind entry.argument entry.text).Records (entries ++ [entry]) :=
  ⟨h.fields_add hkind, h.lookup_add hkind, keys_nodup_add h.keys_nodup ..⟩

/-- An entry is refused exactly if its word names no section. -/
theorem CommentHelp.addSection?_eq_none :
    help.addSection? entry = none ↔ ∀ kind : HelpSection, entry.starts kind = false := by
  rw [addSection?, Option.map_eq_none_iff, Option.eq_none_iff_forall_ne_some]
  simp only [← Bool.not_eq_true, HelpEntry.starts_iff, ne_eq]

theorem CommentHelp.addSection?_eq_some {help' : CommentHelp} (h : help.addSection? entry = some help') :
    ∃ kind, entry.starts kind = true ∧ help.add kind entry.argument entry.text = help' := by
  obtain ⟨kind, hkind, hadd⟩ := Option.map_eq_some_iff.mp h
  exact ⟨kind, HelpEntry.starts_iff.mpr hkind, hadd⟩

/-- Entries are added up to the last one unless the keyword of one is unknown. -/
theorem CommentHelp.foldlM_eq_none (entries : List HelpEntry) (help : CommentHelp) :
    entries.foldlM CommentHelp.addSection? help = none ↔
      ∃ entry ∈ entries, ∀ kind : HelpSection, entry.starts kind = false := by
  induction entries generalizing help with
  | nil => simp
  | cons entry entries ih =>
    rw [List.foldlM_cons, List.exists_mem_cons_iff]
    cases hadd : help.addSection? entry with
    | none => exact ⟨fun _ => .inl (addSection?_eq_none.mp hadd), fun _ => rfl⟩
    | some next =>
      have hknown : ¬ ∀ kind : HelpSection, entry.starts kind = false := by
        intro hall
        have hnone : help.addSection? entry = none := addSection?_eq_none.mpr hall
        rw [hadd] at hnone
        cases hnone
      rw [or_iff_right hknown]
      exact ih next

/-- What holds of the entries read holds with the entries still to read. -/
theorem CommentHelp.Records.foldlM {done : List HelpEntry} {help' : CommentHelp} (h : help.Records done)
    (hfold : entries.foldlM CommentHelp.addSection? help = some help') :
    help'.Records (done ++ entries) := by
  induction entries generalizing help done with
  | nil =>
    cases hfold
    rwa [List.append_nil]
  | cons entry entries ih =>
    rw [List.foldlM_cons] at hfold
    obtain ⟨next, hadd, hrest⟩ := Option.bind_eq_some_iff.mp hfold
    obtain ⟨kind, hkind, rfl⟩ := CommentHelp.addSection?_eq_some hadd
    have hrecords := ih (h.add hkind) hrest
    rwa [List.append_assoc, List.singleton_append] at hrecords

theorem CommentHelp.records_empty : ({} : CommentHelp).Records [] :=
  ⟨rfl, fun _ => rfl, List.nodup_nil⟩

theorem CommentHelp.ofLines?_eq (lines : List (List Char)) :
    CommentHelp.ofLines? lines = if (helpEntries lines).2 = [] then none
      else (helpEntries lines).2.foldlM CommentHelp.addSection? {} := by
  rw [ofLines?]
  cases (helpEntries lines).2 with
  | nil => rfl
  | cons entry entries => simp

/-- The help in lines records the sections of the lines. -/
theorem CommentHelp.records_of_ofLines? {lines : List (List Char)} (h : ofLines? lines = some help) :
    help.Records (helpEntries lines).2 := by
  rw [ofLines?_eq] at h
  split at h
  · cases h
  · exact records_empty.foldlM h

/-- Lines are no help if they have no keyword line, or one whose word is unknown. -/
theorem CommentHelp.ofLines?_eq_none (lines : List (List Char)) :
    CommentHelp.ofLines? lines = none ↔ (helpEntries lines).2 = [] ∨
      ∃ entry ∈ (helpEntries lines).2, ∀ kind : HelpSection, entry.starts kind = false := by
  rw [ofLines?_eq]
  split
  · exact ⟨fun _ => .inl ‹_›, fun _ => rfl⟩
  · rename_i hne
    rw [or_iff_right hne, foldlM_eq_none]

end Record

section Cut

variable {lines before : List (List Char)} {parts : List (List Char × HelpEntry)}

theorem IsCut.no_entries_iff (h : IsCut lines before parts) :
    parts.map (·.2) = [] ↔ ∀ line ∈ lines, ¬ HasKeyword line := by
  rw [List.map_eq_nil_iff]
  constructor
  · rintro rfl line hline ⟨word, argument, hkeyword⟩
    obtain ⟨part, hpart, -⟩ := h.exists_part.mp ⟨hline, hkeyword⟩
    cases hpart
  · intro hplain
    rw [List.eq_nil_iff_forall_not_mem]
    intro part hpart
    obtain ⟨hline, hkeyword⟩ := h.exists_part.mpr ⟨part, hpart, rfl, rfl, rfl⟩
    exact hplain part.1 hline ⟨_, _, hkeyword⟩

theorem IsCut.unknown_iff (h : IsCut lines before parts) :
    (∃ entry ∈ parts.map (·.2), ∀ kind : HelpSection, entry.starts kind = false) ↔
      ∃ line ∈ lines, ∃ word argument, IsKeywordLine line word argument ∧
        ∀ kind : HelpSection, kind.keyword.toList ≠ word.map Char.toUpper := by
  constructor
  · rintro ⟨entry, hentry, hunknown⟩
    obtain ⟨part, hpart, rfl⟩ := List.mem_map.mp hentry
    obtain ⟨hline, hkeyword⟩ := h.exists_part.mpr ⟨part, hpart, rfl, rfl, rfl⟩
    exact ⟨part.1, hline, _, _, hkeyword, fun kind => beq_eq_false_iff_ne.mp (hunknown kind)⟩
  · rintro ⟨line, hline, word, argument, hkeyword, hunknown⟩
    obtain ⟨part, hpart, -, rfl, -⟩ := h.exists_part.mp ⟨hline, hkeyword⟩
    exact ⟨part.2, List.mem_map_of_mem hpart, fun kind => beq_eq_false_iff_ne.mpr (hunknown kind)⟩

end Cut

/-- Comments are help if they have keyword lines and each of these starts a section. The record then has,
    for each target, the texts of the sections for that target and nothing else. -/
theorem ofComments?_by_sections (comments : List String) :
    (CommentHelp.ofComments? comments = none ↔
      (∀ line ∈ comments.flatMap commentLines, ¬ HasKeyword line) ∨
      ∃ line ∈ comments.flatMap commentLines, ∃ word argument, IsKeywordLine line word argument ∧
        ∀ kind : HelpSection, kind.keyword.toList ≠ word.map Char.toUpper) ∧
    ∃ before parts, IsCut (comments.flatMap commentLines) before parts ∧
      ∀ help, CommentHelp.ofComments? comments = some help → help.Records (parts.map (·.2)) := by
  obtain ⟨parts, hcut, hentries⟩ := helpEntries_isCut (comments.flatMap commentLines)
  rw [CommentHelp.ofComments?]
  refine ⟨?_, _, parts, hcut, fun help hhelp => ?_⟩
  · rw [CommentHelp.ofLines?_eq_none, hentries, hcut.no_entries_iff, hcut.unknown_iff]
  · rw [← hentries]
    exact CommentHelp.records_of_ofLines? hhelp

theorem ofComments?_by_sections_repeated :
    let comments := ["<#\n.PARAMETER a\n x\n.NOTES\n.parameter A\n\n  y\n#>"]
    ∃ help, CommentHelp.ofComments? comments = some help ∧
      help.parameters = [("A", "x\ny")] ∧ help.notes = some "" ∧
      ∃ before parts, IsCut (comments.flatMap commentLines) before parts ∧
        help.Records (parts.map (·.2)) := by
  intro comments
  obtain ⟨-, before, parts, hcut, hrecords⟩ := ofComments?_by_sections comments
  have hhelp : CommentHelp.ofComments? comments =
      some { notes := some "", parameters := [("A", "x\ny")] } := by decide +kernel
  exact ⟨_, hhelp, rfl, rfl, before, parts, hcut, hrecords _ hhelp⟩

end HelpAudit
