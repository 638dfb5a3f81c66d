import HelpAudit.Proofs.ByteOffsets
import HelpAudit.Proofs.HelpSections
import Mathlib.Data.List.DropRight

/-! The text of a section, line by line. The indentation is counted in bytes and may fall inside a character
    of another line, or behind the end of a blank one; still no line loses anything but white space. Since
    the least indentation is cut off, a section's text is not indented, and taking it for the lines of a
    section once more changes nothing. -/

namespace HelpAudit

/-! ### Joined lines -/

namespace Text

theorem joinLines_singleton (piece : List Char) : joinLines [piece] = piece := List.intercalate_singleton

theorem joinLines_cons (piece next : List Char) (pieces : List (List Char)) :
    joinLines (piece :: next :: pieces) = piece ++ '\n' :: joinLines (next :: pieces) := by
  rw [joinLines, List.intercalate_cons_cons, List.append_assoc]
  rfl

/-- Lines that were joined are found again. -/
theorem splitAt_joinLines {pieces : List (List Char)} (h : ∀ piece ∈ pieces, '\n' ∉ piece)
    (hne : pieces ≠ []) : splitAt '\n' (joinLines pieces) = pieces := by
  induction pieces with
  | nil => exact absurd rfl hne
  | cons piece pieces ih =>
    obtain ⟨hpiece, hpieces⟩ := List.forall_mem_cons.mp h
    cases pieces with
    | nil => rw [joinLines_singleton, splitAt_self hpiece]
    | cons next pieces =>
      rw [joinLines_cons, splitAt_append hpiece, ih hpieces (List.cons_ne_nil _ _)]

theorem joinLines_concat {pieces : List (List Char)} (hne : pieces ≠ []) (last : List Char) :
    joinLines (pieces ++ [last]) = joinLines pieces ++ '\n' :: last := by
  induction pieces with
  | nil => exact absurd rfl hne
  | cons piece pieces ih =>
    cases pieces with
    | nil => rw [List.singleton_append, joinLines_cons, joinLines_singleton, joinLines_singleton]
    | cons next pieces =>
      rw [List.cons_append, List.cons_append, joinLines_cons, ← List.cons_append, ih (List.cons_ne_nil _ _),
        joinLines_cons, List.append_assoc, List.cons_append]

theorem reverse_joinLines (pieces : List (List Char)) :
    (joinLines pieces).reverse = joinLines (pieces.reverse.map List.reverse) := by
  induction pieces with
  | nil => rfl
  | cons piece pieces ih =>
    cases pieces with
    | nil => rw [List.reverse_singleton, List.map_singleton, joinLines_singleton, joinLines_singleton]
    | cons next pieces =>
      have hne : ((next :: pieces).reverse.map List.reverse) ≠ [] := by simp
      rw [joinLines_cons, List.reverse_append, List.reverse_cons, ih, List.reverse_cons (a := piece),
        List.map_append, List.map_singleton, joinLines_concat hne, List.append_assoc, List.singleton_append]

/-- Without the line feeds at its start, a text is that of the lines from the first that is not empty. -/
theorem dropWhile_joinLines {pieces : List (List Char)} (h : ∀ piece ∈ pieces, '\n' ∉ piece) :
    (joinLines pieces).dropWhile (· == '\n') = joinLines (pieces.dropWhile List.isEmpty) := by
  induction pieces with
  | nil => rfl
  | cons piece pieces ih =>
    obtain ⟨hpiece, hpieces⟩ := List.forall_mem_cons.mp h
    cases piece with
    | nil =>
      rw [List.dropWhile_cons_of_pos rfl, ← ih hpieces]
      cases pieces with
      | nil => rfl
      | cons next pieces => rw [joinLines_cons, List.nil_append, List.dropWhile_cons_of_pos (by simp)]
    | cons c piece =>
      have hc : ¬(c == '\n') = true := by simpa using Ne.symm (not_or.mp (mt List.mem_cons.mpr hpiece)).1
      rw [List.dropWhile_cons_of_neg (p := List.isEmpty) (by simp)]
      cases pieces with
      | nil => rw [joinLines_singleton, List.dropWhile_cons_of_neg (p := (· == '\n')) hc]
      | cons next pieces =>
        rw [joinLines_cons, List.cons_append, List.dropWhile_cons_of_neg (p := (· == '\n')) hc]

/-- The same for the line feeds at its end. -/
theorem dropWhileEnd_joinLines {pieces : List (List Char)} (h : ∀ piece ∈ pieces, '\n' ∉ piece) :
    dropWhileEnd (· == '\n') (joinLines pieces) = joinLines (pieces.rdropWhile List.isEmpty) := by
  have hreverse : ∀ piece ∈ pieces.reverse.map List.reverse, '\n' ∉ piece := by
    intro piece hpiece
    obtain ⟨line, hline, rfl⟩ := List.mem_map.mp hpiece
    rw [List.mem_reverse]
    exact h line (List.mem_reverse.mp hline)
  have hempty : List.isEmpty ∘ List.reverse = (List.isEmpty : List Char → Bool) := by
    funext piece
    exact List.isEmpty_reverse
  rw [dropWhileEnd, reverse_joinLines, dropWhile_joinLines hreverse, List.dropWhile_map, hempty,
    reverse_joinLines, ← List.map_reverse, List.map_map, ← List.rdropWhile]
  simp

theorem trimEnd_trimEnd (cs : List Char) : trimEnd (trimEnd cs) = trimEnd cs := by
  obtain ⟨blanks, hblanks, hsplit⟩ := exists_trimEnd cs
  conv_rhs => rw [hsplit, trimEnd_append hblanks]

end Text

/-! ### One line -/

/-- What is left of a line when `n` bytes are its indentation: nothing of a blank line; otherwise the line
    without white space at its end, and without its first `n` bytes, or all its leading white space when
    no character starts behind them. -/
structure IsDedented (n : Nat) (line kept : List Char) : Prop where
  blank : line.all Text.isBlank = true → kept = []
  text : line.all Text.isBlank = false → ∃ indent tail, line = indent ++ kept ++ tail ∧
    (∀ c ∈ indent, Text.isBlank c = true) ∧ (∀ c ∈ tail, Text.isBlank c = true) ∧
    (∃ c, kept.getLast? = some c ∧ Text.isBlank c = false) ∧
    (Text.byteLength indent = n ∨ ¬Text.IsBoundary line n ∧ Text.trimStart kept = kept)

namespace Text

variable {line rest : List Char}

theorem isBlank_of_all (h : line.all isBlank = true) : ∀ c ∈ line, isBlank c = true :=
  List.all_eq_true.mp h

theorem getLast?_trimEnd (h : trimEnd line ≠ []) :
    ∃ c, (trimEnd line).getLast? = some c ∧ isBlank c = false := by
  have hhead := List.head?_dropWhile_not isBlank line.reverse
  rw [trimEnd, dropWhileEnd, List.getLast?_reverse]
  rw [trimEnd, dropWhileEnd, ne_eq, List.reverse_eq_nil_iff] at h
  obtain ⟨c, kept, hkept⟩ := List.exists_cons_of_ne_nil h
  rw [hkept] at hhead ⊢
  exact ⟨c, rfl, hhead⟩

theorem trimStart_trimBoth (cs : List Char) : trimStart (trimBoth cs) = trimBoth cs := by
  rw [← trimStart_trimEnd]
  exact List.dropWhile_idempotent _ _

end Text

/-- A blank line is left empty, whatever is cut off. -/
theorem dedented_of_blank {line : List Char} (h : line.all Text.isBlank = true) (n : Nat) :
    dedented n line = [] := by
  rw [dedented, Text.trimEnd_eq_nil_iff]
  intro c hc
  cases hdrop : Text.dropBytes? n line with
  | none =>
    rw [hdrop, Option.getD_none] at hc
    exact Text.isBlank_of_all h c (List.dropWhile_subset _ hc)
  | some rest =>
    rw [hdrop, Option.getD_some] at hc
    obtain ⟨before, rfl, -⟩ := Text.dropBytes?_eq_some hdrop
    exact Text.isBlank_of_all h c (List.mem_append_right before hc)

/-- The bytes that are cut off are white space when they are not more than the line's own indentation. -/
theorem dedented_isDedented {n : Nat} {line : List Char}
    (h : line.all Text.isBlank = false → n ≤ indentation line) : IsDedented n line (dedented n line) := by
  refine ⟨fun hblank => dedented_of_blank hblank n, fun htext => ?_⟩
  have hindent : ∀ c ∈ line.takeWhile Text.isBlank, Text.isBlank c = true :=
    fun _ hc => List.mem_takeWhile_imp hc
  have hline : line.takeWhile Text.isBlank ++ Text.trimStart line = line :=
    List.takeWhile_append_dropWhile
  have hnot : ¬∀ c ∈ line, Text.isBlank c = true := by
    rw [← List.all_eq_true, htext]
    exact Bool.false_ne_true
  cases hdrop : Text.dropBytes? n line with
  | none =>
    -- the cut falls inside a character, so the whole indentation goes instead
    have hboundary : ¬Text.IsBoundary line n := by
      rintro ⟨before, after, rfl, rfl⟩
      rw [Text.dropBytes?_append] at hdrop
      cases hdrop
    have hkept : dedented n line = Text.trimBoth line := by rw [dedented, hdrop, Option.getD_none, Text.trimBoth]
    rw [hkept]
    obtain ⟨tail, htail, hsplit⟩ := Text.exists_trimEnd (Text.trimStart line)
    refine ⟨_, tail, ?_, hindent, htail, Text.getLast?_trimEnd (mt Text.trimBoth_eq_nil_iff.mp hnot),
      .inr ⟨hboundary, Text.trimStart_trimBoth line⟩⟩
    rw [List.append_assoc, Text.trimBoth, ← hsplit, hline]
  | some rest =>
    obtain ⟨before, hbefore, hsize⟩ := Text.dropBytes?_eq_some hdrop
    -- what is cut off is a start of the indentation
    obtain ⟨more, hmore⟩ := Text.exists_append_of_byteLength_le (hbefore.symm.trans hline.symm)
      (Nat.le_trans (Nat.le_of_eq hsize) (h htext))
    have hcut : ∀ c ∈ before, Text.isBlank c = true :=
      fun c hc => hindent c (hmore ▸ List.mem_append_left more hc)
    have hkept : dedented n line = Text.trimEnd rest := by rw [dedented, hdrop, Option.getD_some]
    rw [hkept]
    obtain ⟨tail, htail, hsplit⟩ := Text.exists_trimEnd rest
    have hne : Text.trimEnd rest ≠ [] := by
      intro hnil
      refine hnot fun c hc => ?_
      rw [hbefore, List.mem_append] at hc
      exact hc.elim (hcut c) (Text.trimEnd_eq_nil_iff.mp hnil c)
    refine ⟨before, tail, ?_, hcut, htail, Text.getLast?_trimEnd hne, .inl hsize⟩
    rw [List.append_assoc, ← hsplit, hbefore]

theorem dedented_indentation (line : List Char) : dedented (indentation line) line = Text.trimBoth line := by
  have hline : line.takeWhile Text.isBlank ++ Text.trimStart line = line :=
    List.takeWhile_append_dropWhile
  have hdrop := Text.dropBytes?_append (line.takeWhile Text.isBlank) (Text.trimStart line)
  rw [hline] at hdrop
  rw [dedented, indentation, hdrop, Option.getD_some, Text.trimBoth]

theorem dedented_zero (line : List Char) : dedented 0 line = Text.trimEnd line := by
  rw [dedented, Text.dropBytes?_zero, Option.getD_some]

theorem trimEnd_dedented (n : Nat) (line : List Char) : Text.trimEnd (dedented n line) = dedented n line :=
  Text.trimEnd_trimEnd _

theorem mem_of_mem_dedented {n : Nat} {line : List Char} {c : Char} (h : c ∈ dedented n line) : c ∈ line := by
  rw [dedented] at h
  replace h := Text.mem_of_mem_trimEnd h
  cases hdrop : Text.dropBytes? n line with
  | none =>
    rw [hdrop, Option.getD_none] at h
    exact List.dropWhile_subset _ h
  | some rest =>
    rw [hdrop, Option.getD_some] at h
    obtain ⟨before, rfl, -⟩ := Text.dropBytes?_eq_some hdrop
    exact List.mem_append_right before h

/-! ### All lines -/

/-- The lines from the first to the last that is not blank. -/
def innerLines (lines : List (List Char)) : List (List Char) :=
  (lines.dropWhile (·.all Text.isBlank)).rdropWhile (·.all Text.isBlank)

theorem innerLines_idem (lines : List (List Char)) : innerLines (innerLines lines) = innerLines lines := by
  have hstart : (innerLines lines).dropWhile (·.all Text.isBlank) = innerLines lines := by
    -- the first of the inner lines is the first line that is not blank
    obtain ⟨after, hafter⟩ := List.rdropWhile_prefix (·.all Text.isBlank)
      (lines.dropWhile (·.all Text.isBlank))
    have hhead := List.head?_dropWhile_not (·.all Text.isBlank) lines
    rw [← hafter] at hhead
    rw [innerLines]
    cases hinner : (lines.dropWhile (·.all Text.isBlank)).rdropWhile (·.all Text.isBlank) with
    | nil => rfl
    | cons line inner =>
      rw [hinner] at hhead
      exact List.dropWhile_cons_of_neg (by simpa using hhead)
  rw [innerLines, hstart]
  exact List.rdropWhile_idempotent _ _

theorem dropWhile_map_of_mem {α β : Type} {f : α → β} {p : β → Bool} {q : α → Bool} {l : List α}
    (h : ∀ a ∈ l, p (f a) = q a) : (l.map f).dropWhile p = (l.dropWhile q).map f := by
  induction l with
  | nil => rfl
  | cons a l ih =>
    obtain ⟨ha, hl⟩ := List.forall_mem_cons.mp h
    rw [List.map_cons, List.dropWhile_cons, List.dropWhile_cons, ha]
    split
    · exact ih hl
    · rfl

/-- The same lines are inner ones after a change that keeps blank lines apart from others. -/
theorem innerLines_map {f : List Char → List Char} {p : List Char → Bool} {lines : List (List Char)}
    (h : ∀ line ∈ lines, p (f line) = line.all Text.isBlank) :
    ((lines.map f).dropWhile p).rdropWhile p = (innerLines lines).map f := by
  have hreverse : ∀ line ∈ (lines.dropWhile (·.all Text.isBlank)).reverse,
      p (f line) = line.all Text.isBlank :=
    fun line hline => h line (List.dropWhile_subset _ (List.mem_reverse.mp hline))
  rw [dropWhile_map_of_mem h, List.rdropWhile, ← List.map_reverse, dropWhile_map_of_mem hreverse,
    ← List.map_reverse]
  rfl

theorem mem_of_mem_innerLines {line : List Char} {lines : List (List Char)} (h : line ∈ innerLines lines) :
    line ∈ lines :=
  List.dropWhile_subset _ ((List.rdropWhile_prefix _ _).subset h)

theorem mem_dropWhile_of_neg {α : Type} {p : α → Bool} {a : α} {l : List α} (ha : a ∈ l)
    (h : p a = false) : a ∈ l.dropWhile p := by
  rw [← List.takeWhile_append_dropWhile (p := p) (l := l)] at ha
  rcases List.mem_append.mp ha with ha | ha
  · rw [List.mem_takeWhile_imp ha] at h
    cases h
  · exact ha

/-- Every line that is not blank is an inner one. -/
theorem mem_innerLines {line : List Char} {lines : List (List Char)} (hmem : line ∈ lines)
    (h : line.all Text.isBlank = false) : line ∈ innerLines lines := by
  have hdrop : line ∈ lines.dropWhile (·.all Text.isBlank) := mem_dropWhile_of_neg hmem h
  rw [innerLines, List.rdropWhile, List.mem_reverse]
  exact mem_dropWhile_of_neg (List.mem_reverse.mpr hdrop) h

theorem innerLines_eq_nil_iff {lines : List (List Char)} :
    innerLines lines = [] ↔ ∀ line ∈ lines, line.all Text.isBlank = true := by
  constructor
  · intro h line hline
    by_contra hblank
    have hinner := mem_innerLines hline (Bool.eq_false_iff.mpr hblank)
    rw [h] at hinner
    cases hinner
  · intro h
    rw [innerLines, List.dropWhile_eq_nil_iff.mpr h]
    rfl

/-! ### The common indentation -/

section

variable {lines : List (List Char)} {line : List Char}

theorem mem_indentations (hmem : line ∈ lines) (h : line.all Text.isBlank = false) :
    indentation line ∈ (lines.filter (!·.all Text.isBlank)).map indentation :=
  List.mem_map_of_mem (List.mem_filter.mpr ⟨hmem, by rw [h]; rfl⟩)

/-- The common indentation is that of some line with text, the least one. -/
theorem exists_commonIndentation (hmem : line ∈ lines) (h : line.all Text.isBlank = false) :
    ∃ least ∈ lines, least.all Text.isBlank = false ∧ commonIndentation lines = indentation least ∧
      indentation least ≤ indentation line := by
  have hindent := mem_indentations hmem h
  cases hleast : ((lines.filter (!·.all Text.isBlank)).map indentation).min? with
  | none =>
    rw [List.min?_eq_none_iff.mp hleast] at hindent
    cases hindent
  | some n =>
    obtain ⟨hn, hle⟩ := List.min?_eq_some_iff.mp hleast
    obtain ⟨least, hfilter, rfl⟩ := List.mem_map.mp hn
    obtain ⟨hlines, htext⟩ := List.mem_filter.mp hfilter
    refine ⟨least, hlines, by simpa using htext, ?_, hle _ hindent⟩
    rw [commonIndentation, hleast, Option.getD_some]

theorem commonIndentation_le (hmem : line ∈ lines) (h : line.all Text.isBlank = false) :
    commonIndentation lines ≤ indentation line := by
  obtain ⟨least, -, -, heq, hle⟩ := exists_commonIndentation hmem h
  rw [heq]
  exact hle

theorem isDedented_of_mem (hmem : line ∈ lines) :
    IsDedented (commonIndentation lines) line (dedented (commonIndentation lines) line) :=
  dedented_isDedented (commonIndentation_le hmem)

theorem IsDedented.isEmpty {n : Nat} {kept : List Char} (h : IsDedented n line kept) :
    kept.isEmpty = line.all Text.isBlank := by
  cases hblank : line.all Text.isBlank with
  | true => rw [h.blank hblank, List.isEmpty_nil]
  | false =>
    obtain ⟨-, -, -, -, -, ⟨c, hc, -⟩, -⟩ := h.text hblank
    cases kept with
    | nil => cases hc
    | cons => rfl

theorem IsDedented.all_isBlank {n : Nat} {kept : List Char} (h : IsDedented n line kept) :
    kept.all Text.isBlank = line.all Text.isBlank := by
  cases hblank : line.all Text.isBlank with
  | true => rw [h.blank hblank, List.all_nil]
  | false =>
    obtain ⟨-, -, -, -, -, ⟨c, hc, hlast⟩, -⟩ := h.text hblank
    rw [List.all_eq_false]
    exact ⟨c, List.mem_of_getLast? hc, by rw [hlast]; exact Bool.false_ne_true⟩

end

/-! ### The text of a section -/

/-- A section's text is that of its inner lines without the common indentation. -/
theorem sectionText_eq {lines : List (List Char)} (h : ∀ line ∈ lines, '\n' ∉ line) :
    sectionText lines =
      .ofList (Text.joinLines ((innerLines lines).map (dedented (commonIndentation lines)))) := by
  have hfeed : ∀ piece ∈ lines.map (dedented (commonIndentation lines)), '\n' ∉ piece := by
    intro piece hpiece
    obtain ⟨line, hline, rfl⟩ := List.mem_map.mp hpiece
    exact fun hmem => h line hline (mem_of_mem_dedented hmem)
  have hempty : ∀ line ∈ lines,
      (dedented (commonIndentation lines) line).isEmpty = line.all Text.isBlank :=
    fun line hline => (isDedented_of_mem hline).isEmpty
  rw [sectionText, Text.dropWhile_joinLines hfeed,
    Text.dropWhileEnd_joinLines fun piece hpiece => hfeed piece (List.dropWhile_subset _ hpiece),
    innerLines_map hempty]

section

variable {lines : List (List Char)} {line : List Char}

theorem feed_not_mem_kept (h : ∀ line ∈ lines, '\n' ∉ line) :
    ∀ piece ∈ (innerLines lines).map (dedented (commonIndentation lines)), '\n' ∉ piece := by
  intro piece hpiece
  obtain ⟨line, hline, rfl⟩ := List.mem_map.mp hpiece
  exact fun hmem => h line (mem_of_mem_innerLines hline) (mem_of_mem_dedented hmem)

theorem splitAt_sectionText (h : ∀ line ∈ lines, '\n' ∉ line) (hmem : line ∈ lines)
    (htext : line.all Text.isBlank = false) : Text.splitAt '\n' (sectionText lines).toList =
      (innerLines lines).map (dedented (commonIndentation lines)) := by
  have hne : (innerLines lines).map (dedented (commonIndentation lines)) ≠ [] :=
    List.ne_nil_of_mem (List.mem_map_of_mem (mem_innerLines hmem htext))
  rw [sectionText_eq h, String.toList_ofList, Text.splitAt_joinLines (feed_not_mem_kept h) hne]

/-- The least indented line is not indented any more. -/
theorem exists_unindented (hmem : line ∈ lines) (htext : line.all Text.isBlank = false) :
    ∃ piece ∈ (innerLines lines).map (dedented (commonIndentation lines)),
      piece ≠ [] ∧ Text.trimStart piece = piece := by
  obtain ⟨least, hleast, hnot, hindent, -⟩ := exists_commonIndentation hmem htext
  refine ⟨_, List.mem_map_of_mem (mem_innerLines hleast hnot), ?_, ?_⟩
  · rw [← List.isEmpty_eq_false_iff, (isDedented_of_mem hleast).isEmpty, hnot]
  · rw [hindent, dedented_indentation, Text.trimStart_trimBoth]

theorem commonIndentation_kept (hmem : line ∈ lines) (htext : line.all Text.isBlank = false) :
    commonIndentation ((innerLines lines).map (dedented (commonIndentation lines))) = 0 := by
  obtain ⟨piece, hpiece, hne, hstart⟩ := exists_unindented hmem htext
  obtain ⟨c, rest, rfl⟩ := List.exists_cons_of_ne_nil hne
  have hc := List.head?_dropWhile_not Text.isBlank (c :: rest)
  rw [← Text.trimStart, hstart] at hc
  have hnot : (c :: rest).all Text.isBlank = false := by
    rw [List.all_cons, show Text.isBlank c = false from hc, Bool.false_and]
  have hle := commonIndentation_le hpiece hnot
  rw [indentation, List.takeWhile_cons_of_neg (by simpa using hc)] at hle
  exact Nat.le_zero.mp hle

/-- Nothing is left to be cut from the lines of a section's text. -/
theorem sectionText_kept (h : ∀ line ∈ lines, '\n' ∉ line) (hmem : line ∈ lines)
    (htext : line.all Text.isBlank = false) :
    sectionText ((innerLines lines).map (dedented (commonIndentation lines))) = sectionText lines := by
  have hblank : ∀ line ∈ innerLines lines,
      (dedented (commonIndentation lines) line).all Text.isBlank = line.all Text.isBlank :=
    fun line hline => (isDedented_of_mem (mem_of_mem_innerLines hline)).all_isBlank
  have hinner : innerLines ((innerLines lines).map (dedented (commonIndentation lines))) =
      (innerLines lines).map (dedented (commonIndentation lines)) := by
    rw [innerLines, innerLines_map hblank, innerLines_idem]
  rw [sectionText_eq (feed_not_mem_kept h), hinner, commonIndentation_kept hmem htext, List.map_map,
    sectionText_eq h]
  refine congrArg (String.ofList ∘ Text.joinLines) (List.map_congr_left fun line _ => ?_)
  rw [Function.comp_apply, dedented_zero, trimEnd_dedented]

end

/-- A section's text has its lines from the first to the last that is not blank, and of each of them all
    but white space: the common indentation is cut off, or what a line has of it, and the blanks at its end.
    Some line is not indented any more, and the lines of the text have the same text. -/
theorem sectionText_keeps_lines {lines : List (List Char)} (h : ∀ line ∈ lines, '\n' ∉ line) :
    let kept := Text.splitAt '\n' (sectionText lines).toList
    ((∀ line ∈ lines, line.all Text.isBlank = true) → sectionText lines = "") ∧
    ((∃ line ∈ lines, line.all Text.isBlank = false) →
      List.Forall₂ (IsDedented (commonIndentation lines)) (innerLines lines) kept ∧
      ∃ piece ∈ kept, piece ≠ [] ∧ Text.trimStart piece = piece) ∧
    sectionText kept = sectionText lines := by
  intro kept
  have hblank : (∀ line ∈ lines, line.all Text.isBlank = true) → sectionText lines = "" := by
    intro hall
    rw [sectionText_eq h, innerLines_eq_nil_iff.mpr hall]
    rfl
  refine ⟨hblank, ?_, ?_⟩
  · rintro ⟨line, hmem, htext⟩
    have hkept : kept = _ := splitAt_sectionText h hmem htext
    rw [hkept]
    refine ⟨?_, exists_unindented hmem htext⟩
    rw [List.forall₂_map_right_iff, List.forall₂_same]
    exact fun line hline => isDedented_of_mem (mem_of_mem_innerLines hline)
  · by_cases hall : ∀ line ∈ lines, line.all Text.isBlank = true
    · -- the empty text still has one line, which is blank
      have hkept : kept = [[]] := by
        simp only [kept, hblank hall]
        rfl
      rw [hkept, hblank hall]
      rfl
    · obtain ⟨line, hmem, htext⟩ : ∃ line ∈ lines, line.all Text.isBlank = false := by
        simpa using hall
      have hkept : kept = _ := splitAt_sectionText h hmem htext
      rw [hkept, sectionText_kept h hmem htext]

/-- Two bytes are cut off: a no-break space, two blanks, or an em space that cannot be cut after two bytes.
    The blank line is shorter than that. -/
theorem sectionText_keeps_lines_spaces :
    let lines := ["\t", "\u00a0x \t", "\u2003y", " ", "   z", ""].map String.toList
    let kept := Text.splitAt '\n' (sectionText lines).toList
    sectionText lines = "x\ny\n\n z" ∧
    List.Forall₂ (IsDedented 2) (["\u00a0x \t", "\u2003y", " ", "   z"].map String.toList) kept ∧
    (∃ piece ∈ kept, piece ≠ [] ∧ Text.trimStart piece = piece) ∧
    sectionText kept = sectionText lines := by
  intro lines kept
  have hfeed : ∀ line ∈ lines, '\n' ∉ line := by decide
  obtain ⟨-, hlines, hagain⟩ := sectionText_keeps_lines hfeed
  obtain ⟨hdedented, hunindented⟩ := hlines ⟨['\u2003', 'y'], by decide, by decide⟩
  exact ⟨by decide, hdedented, hunindented, hagain⟩

end HelpAudit
