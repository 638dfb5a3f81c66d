import Mathlib.Algebra.Ring.Nat
import HelpAudit.Proofs.LineLookup
import HelpAudit.Proofs.ParameterHelp

/-! Lines and columns of byte offsets. Behind a stretch at the start of a text, the line counts the line
    feeds in the stretch and the column the characters behind the last of them. Positions so increase
    with the offsets at which characters end, and the lines and columns of an extent are enough to cut
    its text out of the source. Any other offset, past the end or inside a character, still has the line
    on which it stands. -/

namespace HelpAudit

open Text

/-! ### The order of positions -/

/-- An earlier line, or the same line and an earlier column. -/
def Position.Precedes (p q : Position) : Prop :=
  p.line < q.line ∨ p.line = q.line ∧ p.column < q.column

/-- More characters lead to a later position, on the same line or on a new one. -/
theorem Position.precedes_append {before piece after : List Char} (h : piece ≠ []) :
    (Position.ofOffset (before ++ piece ++ after) (byteLength before)).Precedes
      (Position.ofOffset (before ++ piece ++ after) (byteLength (before ++ piece))) := by
  rw [Position.ofOffset_append (before ++ piece), List.append_assoc, Position.ofOffset_append]
  by_cases hfeed : '\n' ∈ piece
  · left
    have hcount := List.count_pos_iff.mpr hfeed
    simp only [List.count_append]
    omega
  · have hlength := List.length_pos_of_ne_nil h
    refine .inr ⟨?_, ?_⟩
    · rw [List.count_append, List.count_eq_zero.mpr hfeed, Nat.add_zero]
    · simp only [lastLine_append hfeed, List.length_append]
      omega

theorem Position.precedes_of_lt {text : List Char} {start stop : Nat} (hstart : IsBoundary text start)
    (hstop : IsBoundary text stop) (hlt : start < stop) :
    (Position.ofOffset text start).Precedes (Position.ofOffset text stop) := by
  obtain ⟨before, after, rfl, rfl⟩ := hstart
  obtain ⟨longer, rest, htext, rfl⟩ := hstop
  obtain ⟨piece, rfl⟩ := exists_append_of_byteLength_le htext (Nat.le_of_lt hlt)
  rw [htext]
  refine Position.precedes_append ?_
  rintro rfl
  rw [List.append_nil] at hlt
  exact absurd hlt (Nat.lt_irrefl _)

theorem Position.Precedes.ne {p q : Position} (h : p.Precedes q) (hline : p.line = q.line) :
    p.column ≠ q.column := by
  rcases h with hlt | ⟨-, hlt⟩ <;> omega

/-! ### Cutting by lines and columns -/

/-- The number of characters before a place that is given by its line and column. -/
def Text.charsBefore (text : List Char) (line column : Nat) : Nat :=
  (((splitAt '\n' text).take (line - 1)).map (·.length + 1)).sum + (column - 1)

/-- The characters of a text between the lines and columns of an extent. -/
def Extent.cut (text : List Char) (e : Extent) : List Char :=
  (text.take (charsBefore text e.endLine e.endColumn)).drop
    (charsBefore text e.startLine e.startColumn)

/-- Counting lines and then columns comes to the end of the stretch. -/
theorem Text.charsBefore_append (before after : List Char) :
    charsBefore (before ++ after) (before.count '\n' + 1) ((lastLine before).length + 1) =
      before.length := by
  by_cases hfeed : '\n' ∈ before
  · -- the first line of the text is the first line of the stretch
    obtain ⟨line, rest, rfl, hline⟩ := List.eq_append_cons_of_mem hfeed
    have hrest := charsBefore_append rest after
    have hcount : (line ++ '\n' :: rest).count '\n' = rest.count '\n' + 1 := by
      simp [List.count_eq_zero.mpr hline]
    rw [charsBefore, Nat.add_sub_cancel, Nat.add_sub_cancel] at hrest ⊢
    rw [hcount, List.append_assoc, List.cons_append, splitAt_append hline, lastLine_feed,
      List.take_succ_cons, List.map_cons, List.sum_cons, List.length_append, List.length_cons]
    omega
  · have hall : lastLine before = before := lastLine_append hfeed []
    rw [charsBefore, List.count_eq_zero.mpr hfeed, hall]
    simp
termination_by before.length
decreasing_by
  subst_vars
  rw [List.length_append, List.length_cons]
  omega

/-- Between the ends of two stretches the lines and columns cut what the offsets cut. -/
theorem Extent.cut_ofOffsets {text : List Char} {start stop : Nat} (file : Option String)
    (hstart : IsBoundary text start) (hstop : IsBoundary text stop) :
    (Extent.ofOffsets text file start stop).cut text =
      (Extent.ofOffsets text file start stop).text.toList := by
  obtain ⟨before, after, hbefore, rfl⟩ := hstart
  obtain ⟨longer, rest, hlonger, rfl⟩ := hstop
  have hcut : (Extent.ofOffsets text file (byteLength before) (byteLength longer)).cut text =
      (text.take longer.length).drop before.length := by
    have hfirst := Position.ofOffset_append before after
    have hlast := Position.ofOffset_append longer rest
    rw [← hbefore] at hfirst
    rw [← hlonger] at hlast
    simp only [Extent.cut, Extent.ofOffsets, Extent.between, hfirst, hlast]
    rw [hbefore, charsBefore_append, ← hbefore, hlonger, charsBefore_append]
  rw [hcut, Extent.ofOffsets, Extent.between, Text.sliceBytes, String.toList_ofList, hlonger,
    List.take_left]
  by_cases hle : byteLength before ≤ byteLength longer
  · obtain ⟨piece, rfl⟩ := exists_append_of_byteLength_le (hbefore.symm.trans hlonger) hle
    rw [List.drop_left, byteLength_append, sliceBytes?_append, Option.getD_some]
  · -- the extent ends before it starts
    obtain ⟨piece, rfl⟩ := exists_append_of_byteLength_le (hlonger.symm.trans hbefore)
      (Nat.le_of_lt (Nat.lt_of_not_le hle))
    rw [sliceBytes?, if_neg hle, Option.getD_none, List.drop_eq_nil_iff, List.length_append]
    exact Nat.le_add_right _ _

/-! ### Any offset -/

/-- What is found for an offset, whatever it is. -/
structure Position.IsFoundAt (text : List Char) (offset : Nat) (p : Position) : Prop where
  /-- An offset past the end stands for the end. -/
  clamped : p.offset = min offset (byteLength text)
  /-- The line counts the line feeds among the bytes before the offset. -/
  line : p.line = 1 + ((utf8 text).take (min offset (byteLength text))).count 10
  /-- There are that many lines. -/
  inside : p.line ≤ (LineIndex.of text).lineCount
  /-- The line is the last one that starts at or before the offset. Inside a character the column
      counts bytes from there. -/
  start : ∃ earlier start later, (LineIndex.of text).lineStarts = earlier ++ start :: later ∧
    earlier.length + 1 = p.line ∧ start ≤ p.offset ∧ (∀ other ∈ later, p.offset < other) ∧
    (¬ IsBoundary text p.offset → p.column = p.offset - start + 1)

/-- The position of any offset is the one found for it. -/
theorem Position.ofOffset_isFoundAt (text : List Char) (offset : Nat) :
    (Position.ofOffset text offset).IsFoundAt text offset := by
  obtain ⟨before, after, start, hlongest, hstart, hposition⟩ := Position.exists_longestStart text offset
  obtain ⟨earlier, first, hstarts, hlength, hfirst⟩ := LineIndex.exists_lineStarts before
  obtain rfl : start = first := by omega
  have hsplit : (LineIndex.of text).lineStarts =
      earlier ++ start :: LineIndex.startsBehind (byteLength before) (utf8 after) := by
    rw [hlongest.split, LineIndex.lineStarts_append, hstarts, List.append_assoc, List.singleton_append]
  have hfits := hlongest.fits
  rw [hposition]
  refine ⟨rfl, by rw [hlongest.count_take, Nat.add_comm], ?_, earlier, start, _, hsplit,
    by rw [hlength], by simp only; omega, fun _ => hlongest.lt_of_mem_startsBehind, fun hcut => ?_⟩
  · rw [LineIndex.lineCount_of, hlongest.split, List.count_append]
    simp only
    omega
  · have hinside : byteLength before ≠ min offset (byteLength text) := fun hend =>
      hcut ⟨before, after, hlongest.split, hend⟩
    rw [if_neg hinside]

theorem Position.eq_of_line_of_column {text : List Char} {offset other : Nat}
    (hoffset : IsBoundary text offset) (hother : IsBoundary text other)
    (hline : (Position.ofOffset text offset).line = (Position.ofOffset text other).line)
    (hcolumn : (Position.ofOffset text offset).column = (Position.ofOffset text other).column) :
    offset = other := by
  rcases Nat.lt_trichotomy offset other with hlt | heq | hlt
  · exact absurd hcolumn ((Position.precedes_of_lt hoffset hother hlt).ne hline)
  · exact heq
  · exact absurd hcolumn.symm ((Position.precedes_of_lt hother hoffset hlt).ne hline.symm)

/-- The index of a text finds a position for every offset, the one that a reader of the text comes to.
    At the end of a stretch its line and column count the line feeds of the stretch and the characters
    behind the last of them. Positions increase with such offsets, so that lines and columns tell
    offsets apart and cut the text of every extent. Any other offset has the line on which it stands. -/
theorem offsets_as_lines_and_columns (text : List Char) :
    (∀ before after, text = before ++ after →
      (LineIndex.of text).position? text (byteLength before) =
        some ⟨1 + before.count '\n', 1 + (lastLine before).length, byteLength before⟩) ∧
    (∀ start stop, IsBoundary text start → IsBoundary text stop → start < stop →
      ∃ p q, (LineIndex.of text).position? text start = some p ∧
        (LineIndex.of text).position? text stop = some q ∧ p.Precedes q) ∧
    (∀ offset other p q, IsBoundary text offset → IsBoundary text other →
      (LineIndex.of text).position? text offset = some p →
      (LineIndex.of text).position? text other = some q →
      p.line = q.line → p.column = q.column → offset = other) ∧
    (∀ file start stop, IsBoundary text start → IsBoundary text stop →
      let e := Extent.ofOffsets text file start stop
      (LineIndex.of text).position? text start = some e.start ∧
        (LineIndex.of text).position? text stop = some e.stop ∧ e.cut text = e.text.toList) ∧
    ∀ offset, ∃ p, (LineIndex.of text).position? text offset = some p ∧
      p = Position.scanned text offset ∧ p.IsFoundAt text offset := by
  simp only [LineIndex.position?_eq_ofOffset, Option.some.injEq]
  refine ⟨?_, ?_, ?_, ?_, ?_⟩
  · rintro before after rfl
    rw [Position.ofOffset_append, Nat.add_comm, Nat.add_comm (lastLine before).length]
  · intro start stop hstart hstop hlt
    exact ⟨_, _, rfl, rfl, Position.precedes_of_lt hstart hstop hlt⟩
  · rintro offset other p q hoffset hother rfl rfl
    exact Position.eq_of_line_of_column hoffset hother
  · intro file start stop hstart hstop
    exact ⟨rfl, rfl, Extent.cut_ofOffsets file hstart hstop⟩
  · intro offset
    refine ⟨_, rfl, ?_, Position.ofOffset_isFoundAt text offset⟩
    exact Option.some.inj ((LineIndex.position?_eq_ofOffset text offset).symm.trans
      (LineIndex.position?_eq_scanned text offset))

/-- A text with characters of two and three bytes, looked up at boundaries and inside a character. -/
theorem offsets_as_lines_and_columns_two :
    let text := ['ü', '\n', '€', 'x']
    let index := LineIndex.of text
    index.position? text 6 = some ⟨2, 2, 6⟩ ∧
    (∃ p q, index.position? text 2 = some p ∧ index.position? text 6 = some q ∧ p.Precedes q) ∧
    (∀ other q, IsBoundary text other → index.position? text other = some q →
      2 = q.line → 2 = q.column → 6 = other) ∧
    (Extent.ofOffsets text none 2 6).cut text = ['\n', '€'] ∧
    ∃ p, index.position? text 5 = some p ∧ p = ⟨2, 3, 5⟩ ∧ p.IsFoundAt text 5 := by
  intro text index
  obtain ⟨hplaced, hordered, happart, hcut, hfound⟩ := offsets_as_lines_and_columns text
  have htwo : IsBoundary text 2 := ⟨['ü'], ['\n', '€', 'x'], rfl, by decide⟩
  have hsix : IsBoundary text 6 := ⟨['ü', '\n', '€'], ['x'], rfl, by decide⟩
  have hplace : index.position? text 6 = some ⟨2, 2, 6⟩ := hplaced ['ü', '\n', '€'] ['x'] rfl
  obtain ⟨p, hp, hscanned, hfive⟩ := hfound 5
  refine ⟨hplace, hordered 2 6 htwo hsix (by decide), ?_, ?_, p, hp, ?_, hfive⟩
  · intro other q hother hq
    exact happart 6 other ⟨2, 2, 6⟩ q hsix hother hplace hq
  · rw [(hcut none 2 6 htwo hsix).2.2]
    decide
  · rw [hscanned]
    decide

end HelpAudit
