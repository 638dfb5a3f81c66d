import Mathlib.Data.List.Induction
import HelpAudit.LineIndex
import HelpAudit.Proofs.ByteOffsets
import HelpAudit.Proofs.EncodedText

/-! The lookup of lines. A text is read from its start up to an offset, and the reader keeps the line, the
    place where it started and the characters passed on it. The index comes to the same answer by
    searching among the starts of the lines: the starts up to the offset are those of the stretch that
    the reader has passed, so the search ends at the last of them, every place it looks at is in range,
    and the answer is that of the reader. -/

namespace HelpAudit

/-! ### Search by halving -/

section Search

variable {front rest : List Nat} {value : Nat}

/-- The invariant of the halving: the last entry that does not exceed the value stays in the stretch,
    and the stretch in the list. -/
theorem narrow_append (hfront : ∀ entry ∈ front, entry ≤ value) (hrest : ∀ entry ∈ rest, value < entry) :
    ∀ steps base size, base < front.length → front.length ≤ base + size →
      base + size ≤ (front ++ rest).length → size ≤ steps + 1 →
      narrow (front ++ rest) value steps base size = some (front.length - 1)
  | 0, base, size, hbase, hin, _, hsize => by
    rw [narrow]
    congr 1
    omega
  | steps + 1, base, size, hbase, hin, hlength, hsize => by
    rw [narrow]
    split
    · rename_i hmany
      have hmid : base + size / 2 < (front ++ rest).length := by omega
      dsimp only
      rw [List.getElem?_eq_getElem hmid, Option.bind_eq_bind, Option.bind_some]
      by_cases hupper : base + size / 2 < front.length
      · -- the upper half starts among the entries that do not exceed the value
        have hentry : ¬ value < (front ++ rest)[base + size / 2] := by
          rw [List.getElem_append_left hupper]
          exact Nat.not_lt.mpr (hfront _ (List.getElem_mem hupper))
        rw [if_neg hentry]
        exact narrow_append hfront hrest steps _ _ hupper (by omega) (by omega) (by omega)
      · have hentry : value < (front ++ rest)[base + size / 2] := by
          rw [List.getElem_append_right (Nat.le_of_not_lt hupper)]
          exact hrest _ (List.getElem_mem _)
        rw [if_pos hentry]
        exact narrow_append hfront hrest steps _ _ hbase (by omega) (by omega) (by omega)
    · congr 1
      omega

/-- The search finds the last entry of the front, or the place behind it. -/
theorem binarySearch_append {last : Nat} (hfront : ∀ entry ∈ front ++ [last], entry ≤ value)
    (hrest : ∀ entry ∈ rest, value < entry) :
    binarySearch (front ++ last :: rest) value =
      some (if last = value then .ok front.length else .error (front.length + 1)) := by
  have hentries : front ++ last :: rest = front ++ [last] ++ rest := by simp
  have hnarrow : narrow (front ++ last :: rest) value (front ++ last :: rest).length 0
      (front ++ last :: rest).length = some front.length := by
    rw [hentries, narrow_append hfront hrest _ _ _ (by simp) (by simp) (by simp) (by omega)]
    simp
  have hlast : last ≤ value := hfront last (by simp)
  rw [binarySearch, if_neg (by simp), hnarrow, Option.bind_eq_bind, Option.bind_some,
    List.getElem?_append_right (Nat.le_refl _), Nat.sub_self, List.getElem?_cons_zero,
    Option.bind_some]
  by_cases heq : last = value
  · rw [if_pos heq, if_pos heq]
    rfl
  · rw [if_neg heq, if_neg heq, if_pos (Nat.lt_of_le_of_ne hlast heq)]
    rfl

end Search

/-- The line is the last one that starts at or before the offset. -/
theorem LineIndex.line?_append {earlier later : List Nat} {start offset : Nat}
    (hearlier : ∀ other ∈ earlier ++ [start], other ≤ offset) (hlater : ∀ other ∈ later, offset < other) :
    (LineIndex.mk (earlier ++ start :: later)).line? offset = some earlier.length := by
  rw [LineIndex.line?, binarySearch_append hearlier hlater, Option.bind_eq_bind, Option.bind_some]
  split
  · rename_i hfound
    split at hfound <;> cases hfound
    rfl
  · rename_i habsent
    split at habsent <;> cases habsent
    -- behind the last start there is one to step back to
    rw [minus?, if_pos (Nat.le_add_left 1 _), Nat.add_sub_cancel]

/-! ### The last line of a stretch -/

namespace Text

/-- The characters behind the last line feed, all of them when there is none. -/
def lastLine (cs : List Char) : List Char := (cs.reverse.takeWhile (· ≠ '\n')).reverse

@[simp] theorem lastLine_nil : lastLine [] = [] := rfl

/-- A line feed starts a new last line, any other character lengthens it. -/
theorem lastLine_concat (cs : List Char) (c : Char) :
    lastLine (cs ++ [c]) = if c = '\n' then [] else lastLine cs ++ [c] := by
  rw [lastLine, List.reverse_append, List.reverse_singleton, List.singleton_append, List.takeWhile_cons]
  by_cases hc : c = '\n'
  · simp [hc]
  · simp [hc, lastLine]

theorem lastLine_append {piece : List Char} (h : '\n' ∉ piece) (cs : List Char) :
    lastLine (cs ++ piece) = lastLine cs ++ piece := by
  have hkept : ∀ c ∈ piece.reverse, decide (c ≠ '\n') = true := by
    intro c hc
    have hne : c ≠ '\n' := fun heq => h (heq ▸ List.mem_reverse.mp hc)
    exact decide_eq_true hne
  rw [lastLine, List.reverse_append, List.takeWhile_append_of_pos hkept, List.reverse_append,
    List.reverse_reverse, ← lastLine]

theorem lastLine_suffix (cs : List Char) : lastLine cs <:+ cs := by
  rw [← List.reverse_prefix, lastLine, List.reverse_reverse]
  exact List.takeWhile_prefix _

/-- Only what follows a line feed counts. -/
theorem lastLine_feed (cs piece : List Char) : lastLine (cs ++ '\n' :: piece) = lastLine piece := by
  induction piece using List.reverseRecOn with
  | nil => rw [lastLine_concat, if_pos rfl, lastLine_nil]
  | append_singleton piece c ih =>
    rw [← List.cons_append, ← List.append_assoc, lastLine_concat, lastLine_concat, ih]

/-! ### Line feeds among bytes -/

theorem length_utf8Char (c : Char) : (utf8Char c).length = c.utf8Size := by
  rw [utf8Char_eq, String.length_utf8EncodeChar]

theorem length_utf8 (cs : List Char) : (utf8 cs).length = byteLength cs := by
  induction cs with
  | nil => rfl
  | cons c cs ih => rw [utf8, List.flatMap_cons, List.length_append, length_utf8Char, ← utf8, ih,
      byteLength_cons]

theorem utf8_append (a b : List Char) : utf8 (a ++ b) = utf8 a ++ utf8 b := List.flatMap_append

/-- The byte of the line feed is no part of another character. -/
theorem feed_not_mem_utf8Char {c : Char} (h : c ≠ '\n') : (10 : UInt8) ∉ utf8Char c := by
  have hvalid := toNat_valid c
  have hbyte : ∀ n, n < 256 → n ≠ 10 → (10 : UInt8) ≠ UInt8.ofNat n := by
    intro n hn hne heq
    have := congrArg UInt8.toNat heq
    rw [toNat_byte hn] at this
    exact hne this.symm
  have hcontinuation : ∀ n, (10 : UInt8) ≠ continuation n := fun n => hbyte _ (by omega) (by omega)
  have hc : c.toNat ≠ 10 := fun heq => h (Char.toNat_inj.mp heq)
  rw [utf8Char]
  split_ifs <;> simp only [List.mem_cons, List.not_mem_nil, or_false, not_or]
  · exact hbyte _ (by omega) hc
  · exact ⟨hbyte _ (by omega) (by omega), hcontinuation _⟩
  · exact ⟨hbyte _ (by omega) (by omega), hcontinuation _, hcontinuation _⟩
  · exact ⟨hbyte _ (by omega) (by omega), hcontinuation _, hcontinuation _, hcontinuation _⟩

theorem count_utf8 (cs : List Char) : (utf8 cs).count 10 = cs.count '\n' := by
  induction cs with
  | nil => rfl
  | cons c cs ih =>
    rw [utf8, List.flatMap_cons, List.count_append, ← utf8, ih, List.count_cons, Nat.add_comm]
    by_cases hc : c = '\n'
    · rw [hc]
      rfl
    · simp [hc, List.count_eq_zero.mpr (feed_not_mem_utf8Char hc)]

/-- `before` is the longest stretch at the start of a text that has at most `limit` bytes. -/
structure LongestStart (text : List Char) (limit : Nat) (before after : List Char) : Prop where
  split : text = before ++ after
  fits : byteLength before ≤ limit
  full : ∀ c rest, after = c :: rest → limit < byteLength before + c.utf8Size

section LongestStart

variable {text before after : List Char} {limit : Nat}

/-- The bytes of a character that is cut are no line feeds. -/
theorem LongestStart.count_take (h : LongestStart text limit before after) :
    ((utf8 text).take limit).count 10 = before.count '\n' := by
  have hcut : ((utf8 after).take (limit - byteLength before)).count 10 = 0 := by
    rw [List.count_eq_zero]
    cases after with
    | nil => simp [utf8]
    | cons c rest =>
      have hfull := h.full c rest rfl
      have hfits := h.fits
      rw [utf8, List.flatMap_cons, List.take_append_of_le_length (by rw [length_utf8Char]; omega)]
      by_cases hc : c = '\n'
      · have hsize : c.utf8Size = 1 := by rw [hc]; rfl
        rw [show limit - byteLength before = 0 by omega]
        exact List.not_mem_nil
      · exact fun hmem => feed_not_mem_utf8Char hc (List.mem_of_mem_take hmem)
  rw [h.split, utf8_append, List.take_append, length_utf8, List.take_of_length_le (by rw [length_utf8]; exact h.fits),
    List.count_append, hcut, count_utf8, Nat.add_zero]

/-- Up to the end of a stretch that is the whole stretch. -/
theorem LongestStart.eq_of_boundary {piece rest : List Char} (h : LongestStart text limit before after)
    (htext : text = piece ++ rest) (hlimit : byteLength piece = limit) :
    before = piece ∧ after = rest := by
  obtain ⟨more, rfl⟩ := exists_append_of_byteLength_le (h.split.symm.trans htext)
    (Nat.le_trans h.fits (Nat.le_of_eq hlimit.symm))
  have hafter : after = more ++ rest := by
    rw [h.split, List.append_assoc] at htext
    exact List.append_cancel_left htext
  cases more with
  | nil => exact ⟨(List.append_nil before).symm, hafter⟩
  | cons c more =>
    have hfull := h.full c (more ++ rest) hafter
    rw [byteLength_append, byteLength_cons] at hlimit
    omega

end LongestStart

end Text

open Text

/-! ### Where lines start -/

namespace LineIndex

theorem startsBehind_append : ∀ (a b : List UInt8) (offset : Nat),
    startsBehind offset (a ++ b) = startsBehind offset a ++ startsBehind (offset + a.length) b
  | [], b, offset => rfl
  | byte :: a, b, offset => by
    rw [List.cons_append, startsBehind, startsBehind, startsBehind_append a b, List.length_cons,
      Nat.add_comm a.length, Nat.add_assoc]
    split <;> rfl

theorem startsBehind_of_not_mem : ∀ {bytes : List UInt8}, 10 ∉ bytes → ∀ offset,
    startsBehind offset bytes = []
  | [], _, _ => rfl
  | byte :: bytes, h, offset => by
    rw [startsBehind, if_neg fun heq : byte = 10 => h (heq ▸ List.mem_cons_self)]
    exact startsBehind_of_not_mem (fun hmem => h (List.mem_cons_of_mem _ hmem)) _

/-- A line starts behind a line feed of the stretch, at its end at the latest. -/
theorem startsBehind_bounds : ∀ {bytes : List UInt8} {offset start : Nat},
    start ∈ startsBehind offset bytes → offset < start ∧ start ≤ offset + bytes.length
  | byte :: bytes, offset, start, h => by
    rw [startsBehind] at h
    rw [List.length_cons]
    split at h
    · rcases List.mem_cons.mp h with rfl | h
      · omega
      · have := startsBehind_bounds h
        omega
    · have := startsBehind_bounds h
      omega

/-- Only the line feed starts a line, behind its one byte. -/
theorem startsBehind_utf8Char (c : Char) (offset : Nat) :
    startsBehind offset (utf8Char c) = if c = '\n' then [offset + 1] else [] := by
  split
  · rename_i hc
    rw [hc]
    rfl
  · rename_i hc
    exact startsBehind_of_not_mem (feed_not_mem_utf8Char hc) offset

theorem lineStarts_append (a b : List Char) : (of (a ++ b)).lineStarts =
    (of a).lineStarts ++ startsBehind (byteLength a) (utf8 b) := by
  rw [of, of, utf8_append, startsBehind_append, length_utf8, Nat.zero_add]
  rfl

theorem le_of_mem_lineStarts {text : List Char} {start : Nat} (h : start ∈ (of text).lineStarts) :
    start ≤ byteLength text := by
  rcases List.mem_cons.mp h with rfl | h
  · exact Nat.zero_le _
  · rw [← length_utf8, ← Nat.zero_add (utf8 text).length]
    exact (startsBehind_bounds h).2

/-- The lines behind a character start no earlier than the character ends. -/
theorem le_of_mem_startsBehind {c : Char} {cs : List Char} {offset start : Nat}
    (h : start ∈ startsBehind offset (utf8 (c :: cs))) : offset + c.utf8Size ≤ start := by
  rw [utf8, List.flatMap_cons, startsBehind_append, startsBehind_utf8Char, length_utf8Char] at h
  rcases List.mem_append.mp h with h | h
  · split at h
    · rename_i hc
      rw [List.mem_singleton.mp h, hc]
      exact Nat.le_refl _
    · cases h
  · exact Nat.le_of_lt (startsBehind_bounds h).1

/-- The last line of a stretch starts where the stretch without it ends. -/
theorem exists_lineStarts (before : List Char) : ∃ earlier start,
    (of before).lineStarts = earlier ++ [start] ∧ earlier.length = before.count '\n' ∧
      start + byteLength (lastLine before) = byteLength before := by
  induction before using List.reverseRecOn with
  | nil => exact ⟨[], 0, rfl, rfl, rfl⟩
  | append_singleton before c ih =>
    obtain ⟨earlier, start, hstarts, hlength, hsum⟩ := ih
    have hchar : utf8 [c] = utf8Char c := List.append_nil _
    rw [lineStarts_append, hchar, startsBehind_utf8Char, lastLine_concat]
    by_cases hc : c = '\n'
    · refine ⟨(of before).lineStarts, byteLength before + 1, by rw [if_pos hc], ?_, ?_⟩
      · simp [hstarts, hlength, hc]
      · rw [if_pos hc, hc, byteLength_append]
        rfl
    · refine ⟨earlier, start, ?_, by simp [hlength, hc], ?_⟩
      · rw [if_neg hc, List.append_nil, hstarts]
      · rw [if_neg hc, byteLength_append, byteLength_append]
        omega

theorem lineCount_of (text : List Char) : (of text).lineCount = text.count '\n' + 1 := by
  obtain ⟨earlier, start, hstarts, hlength, -⟩ := exists_lineStarts text
  rw [lineCount, hstarts, List.length_append, hlength]
  rfl

end LineIndex

/-- The lines that start behind the stretch start behind the limit. -/
theorem Text.LongestStart.lt_of_mem_startsBehind {text before after : List Char} {limit start : Nat}
    (h : LongestStart text limit before after)
    (hstart : start ∈ LineIndex.startsBehind (byteLength before) (utf8 after)) : limit < start := by
  cases after with
  | nil => cases hstart
  | cons c rest => exact Nat.lt_of_lt_of_le (h.full c rest rfl) (LineIndex.le_of_mem_startsBehind hstart)

/-! ### Reading up to an offset -/

/-- Where a reader of the text stands: the line, the offset at which it starts, the characters
    read on it, and the offset reached. -/
structure Cursor where
  line : Nat
  lineStart : Nat
  passed : Nat
  offset : Nat

namespace Cursor

/-- Before the first character. -/
def start : Cursor := ⟨1, 0, 0, 0⟩

/-- After one more character. -/
def advance (k : Cursor) (c : Char) : Cursor :=
  if c = '\n' then ⟨k.line + 1, k.offset + 1, 0, k.offset + 1⟩
  else ⟨k.line, k.lineStart, k.passed + 1, k.offset + c.utf8Size⟩

/-- After all characters that end at or before the byte offset `limit`. -/
def reach (limit : Nat) (k : Cursor) : List Char → Cursor
  | [] => k
  | c :: cs => if k.offset + c.utf8Size ≤ limit then reach limit (k.advance c) cs else k

end Cursor

/-- The position that a reader comes to who stops at the offset, or at the end of the text. Inside a
    character the column counts bytes. -/
def Position.scanned (text : List Char) (offset : Nat) : Position :=
  let offset := min offset (byteLength text)
  let k := Cursor.start.reach offset text
  ⟨k.line, (if k.offset = offset then k.passed else offset - k.lineStart) + 1, offset⟩

/-- The reader stands behind the stretch `before`. -/
structure Cursor.Behind (k : Cursor) (before : List Char) : Prop where
  line : k.line = before.count '\n' + 1
  lineStart : k.lineStart + byteLength (lastLine before) = byteLength before
  passed : k.passed = (lastLine before).length
  offset : k.offset = byteLength before

theorem Cursor.behind_start : Cursor.start.Behind [] := ⟨rfl, rfl, rfl, rfl⟩

/-- One character further, the reader stands behind one character more. -/
theorem Cursor.Behind.advance {k : Cursor} {before : List Char} (h : k.Behind before) (c : Char) :
    (k.advance c).Behind (before ++ [c]) := by
  obtain ⟨hline, hstart, hpassed, hoffset⟩ := h
  rw [Cursor.advance]
  by_cases hc : c = '\n'
  · rw [if_pos hc]
    have hlast : lastLine (before ++ [c]) = [] := by rw [lastLine_concat, if_pos hc]
    have hsize : byteLength [c] = 1 := by rw [hc]; rfl
    refine ⟨?_, ?_, ?_, ?_⟩
    · simp [hline, hc]
    · rw [hlast, byteLength_append, hsize, hoffset, byteLength_nil, Nat.add_zero]
    · rw [hlast, List.length_nil]
    · rw [byteLength_append, hsize, hoffset]
  · rw [if_neg hc]
    have hlast : lastLine (before ++ [c]) = lastLine before ++ [c] := by rw [lastLine_concat, if_neg hc]
    refine ⟨?_, ?_, ?_, ?_⟩
    · simp [hline, hc]
    · rw [hlast, byteLength_append, byteLength_append, ← Nat.add_assoc, hstart]
    · rw [hlast, List.length_append, hpassed, List.length_singleton]
    · rw [byteLength_append, hoffset]
      rfl

/-- The reader stops behind the longest start of the text that the limit has room for. -/
theorem Cursor.Behind.reach (limit : Nat) : ∀ (rest : List Char) {before : List Char} {k : Cursor},
    k.Behind before → byteLength before ≤ limit →
    ∃ all after, LongestStart (before ++ rest) limit all after ∧ (k.reach limit rest).Behind all
  | [], before, k, h, hfits =>
    ⟨before, [], ⟨rfl, hfits, fun _ _ hnil => (nomatch hnil)⟩, h⟩
  | c :: rest, before, k, h, hfits => by
    rw [Cursor.reach, h.offset]
    split
    · rename_i hnext
      obtain ⟨all, after, hlongest, hbehind⟩ := Cursor.Behind.reach limit rest (h.advance c)
        (Nat.le_trans (Nat.le_of_eq (byteLength_append before [c])) hnext)
      rw [List.append_assoc, List.singleton_append] at hlongest
      exact ⟨all, after, hlongest, hbehind⟩
    · rename_i hnext
      refine ⟨before, c :: rest, ⟨rfl, hfits, fun d more heq => ?_⟩, h⟩
      cases heq
      exact Nat.lt_of_not_le hnext

/-- The reader passes the longest stretch up to the limit. -/
theorem Cursor.exists_behind (limit : Nat) (text : List Char) : ∃ before after,
    LongestStart text limit before after ∧ (Cursor.start.reach limit text).Behind before :=
  Cursor.behind_start.reach limit text (Nat.zero_le _)

/-- The characters between the start of the last line and the limit, where no character is cut. -/
theorem Text.LongestStart.sliceBytes?_lastLine {text before after : List Char} {limit start : Nat}
    (h : LongestStart text limit before after)
    (hstart : start + byteLength (lastLine before) = byteLength before) :
    sliceBytes? text start limit =
      if byteLength before = limit then some (lastLine before) else none := by
  split
  · rename_i hend
    obtain ⟨lines, hlines⟩ := lastLine_suffix before
    have hbytes : byteLength lines = start := by
      have hsum := congrArg byteLength hlines
      rw [byteLength_append] at hsum
      omega
    have hslice := sliceBytes?_append lines (lastLine before) after
    rwa [hlines, ← h.split, hbytes, hstart, hend] at hslice
  · rename_i hcut
    cases hslice : sliceBytes? text start limit with
    | none => rfl
    | some piece =>
      -- a slice would end at a boundary, and the longest stretch with it
      obtain ⟨-, longer, rest, hsplit, hlimit⟩ := boundaries_of_sliceBytes? hslice
      obtain ⟨rfl, -⟩ := h.eq_of_boundary hsplit hlimit
      exact absurd hlimit hcut

/-- What the index says of an offset, in terms of the longest stretch up to it. -/
theorem LineIndex.position?_eq {text before after : List Char} {offset start : Nat}
    (h : LongestStart text (min offset (byteLength text)) before after)
    (hstart : start + byteLength (lastLine before) = byteLength before) :
    (LineIndex.of text).position? text offset = some ⟨before.count '\n' + 1,
      (if byteLength before = min offset (byteLength text) then (lastLine before).length
        else min offset (byteLength text) - start) + 1, min offset (byteLength text)⟩ := by
  obtain ⟨earlier, first, hstarts, hlength, hfirst⟩ := LineIndex.exists_lineStarts before
  obtain rfl : start = first := by omega
  have hfits := h.fits
  have hsplit : (LineIndex.of text).lineStarts =
      earlier ++ start :: LineIndex.startsBehind (byteLength before) (utf8 after) := by
    rw [h.split, LineIndex.lineStarts_append, hstarts, List.append_assoc, List.singleton_append]
  have hline : (LineIndex.of text).line? (min offset (byteLength text)) = some earlier.length := by
    rw [show LineIndex.of text = ⟨_⟩ from congrArg LineIndex.mk hsplit]
    refine LineIndex.line?_append (fun other hother => ?_) fun _ => h.lt_of_mem_startsBehind
    exact Nat.le_trans (LineIndex.le_of_mem_lineStarts (hstarts ▸ hother)) hfits
  have hread : (LineIndex.of text).lineStarts[earlier.length]? = some start := by
    rw [hsplit, List.getElem?_append_right (Nat.le_refl _), Nat.sub_self, List.getElem?_cons_zero]
  have hminus : minus? (min offset (byteLength text)) start =
      some (min offset (byteLength text) - start) := if_pos (by omega)
  rw [hlength] at hline hread
  simp only [LineIndex.position?, hline, hread, hminus, h.sliceBytes?_lastLine hstart,
    Option.bind_eq_bind, Option.bind_some]
  split <;> rfl

/-- The index comes to the position of the reader, for every offset. -/
theorem LineIndex.position?_eq_scanned (text : List Char) (offset : Nat) :
    (LineIndex.of text).position? text offset = some (Position.scanned text offset) := by
  obtain ⟨before, after, hlongest, hline, hstart, hpassed, hoffset⟩ :=
    Cursor.exists_behind (min offset (byteLength text)) text
  rw [LineIndex.position?_eq hlongest hstart, Position.scanned, hline, hpassed, hoffset]

/-- The lookup never fails, so that the default of `Position.ofOffset` is never taken. -/
theorem LineIndex.position?_eq_ofOffset (text : List Char) (offset : Nat) :
    (LineIndex.of text).position? text offset = some (Position.ofOffset text offset) := by
  rw [Position.ofOffset, LineIndex.position?_eq_scanned, Option.getD_some]

/-! ### Positions and extents -/

/-- The line of an offset counts the line feeds in the longest stretch up to the offset. The column
    counts characters where the stretch ends at the offset and bytes where a character is cut. -/
theorem Position.exists_longestStart (text : List Char) (offset : Nat) : ∃ before after start,
    LongestStart text (min offset (byteLength text)) before after ∧
    start + byteLength (lastLine before) = byteLength before ∧
    Position.ofOffset text offset = ⟨before.count '\n' + 1,
      (if byteLength before = min offset (byteLength text) then (lastLine before).length
        else min offset (byteLength text) - start) + 1, min offset (byteLength text)⟩ := by
  obtain ⟨before, after, hlongest, hbehind⟩ :=
    Cursor.exists_behind (min offset (byteLength text)) text
  refine ⟨before, after, _, hlongest, hbehind.lineStart, ?_⟩
  rw [Position.ofOffset, LineIndex.position?_eq hlongest hbehind.lineStart, Option.getD_some]

/-- The position behind a stretch at the start of a text. -/
theorem Position.ofOffset_append (before after : List Char) :
    Position.ofOffset (before ++ after) (byteLength before) =
      ⟨before.count '\n' + 1, (lastLine before).length + 1, byteLength before⟩ := by
  have hmin : min (byteLength before) (byteLength (before ++ after)) = byteLength before :=
    Nat.min_eq_left (by rw [byteLength_append]; exact Nat.le_add_right _ _)
  obtain ⟨all, rest, start, hlongest, -, hposition⟩ :=
    Position.exists_longestStart (before ++ after) (byteLength before)
  rw [hmin] at hlongest hposition
  obtain ⟨rfl, rfl⟩ := hlongest.eq_of_boundary rfl rfl
  rw [hposition, if_pos rfl]

theorem Position.ofOffset_offset {text : List Char} {offset : Nat}
    (h : offset ≤ Text.byteLength text) : (Position.ofOffset text offset).offset = offset := by
  obtain ⟨before, after, start, -, -, hposition⟩ := Position.exists_longestStart text offset
  rw [hposition, Nat.min_eq_left h]

namespace Extent

/-- The extent says where it starts and ends in `text`, and what stands between. -/
structure IsExact (text : List Char) (file : Option String) (e : Extent) : Prop where
  ordered : e.startOffset ≤ e.endOffset
  inside : e.endOffset ≤ Text.byteLength text
  slice : Text.sliceBytes? text e.startOffset e.endOffset = some e.text.toList
  start : e.start = Position.ofOffset text e.startOffset
  stop : e.stop = Position.ofOffset text e.endOffset
  file : e.file = file

theorem IsExact.end_boundary {text : List Char} {file : Option String} {e : Extent}
    (h : e.IsExact text file) : Text.IsBoundary text e.endOffset :=
  (Text.boundaries_of_sliceBytes? h.slice).2

theorem ofOffsets_startOffset {text : List Char} {start : Nat} (file : Option String) (stop : Nat)
    (h : start ≤ Text.byteLength text) : (ofOffsets text file start stop).startOffset = start :=
  Position.ofOffset_offset h

theorem ofOffsets_endOffset {text : List Char} {stop : Nat} (file : Option String) (start : Nat)
    (h : stop ≤ Text.byteLength text) : (ofOffsets text file start stop).endOffset = stop :=
  Position.ofOffset_offset h

theorem ofOffsets_isExact {text : List Char} {file : Option String} {start stop : Nat}
    (hstart : Text.IsBoundary text start) (hstop : Text.IsBoundary text stop) (hle : start ≤ stop) :
    IsExact text file (ofOffsets text file start stop) := by
  have hs := ofOffsets_startOffset file stop hstart.le_byteLength
  have he := ofOffsets_endOffset file start hstop.le_byteLength
  obtain ⟨piece, hpiece⟩ := Text.sliceBytes?_of_boundaries hstart hstop hle
  refine ⟨by rwa [hs, he], by rw [he]; exact hstop.le_byteLength, ?_, by rw [hs]; rfl,
    by rw [he]; rfl, rfl⟩
  rw [hs, he, hpiece, ofOffsets, between, Text.sliceBytes, hpiece, Option.getD_some,
    String.toList_ofList]

end Extent

end HelpAudit
