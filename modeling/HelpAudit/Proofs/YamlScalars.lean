import HelpAudit.Yaml.Writer

/-! YAML scalars outside of blocks are read back: plain ones, and those in quotes. A reader carries the white
    space since the last character; blanks are pending until a character follows them, and of line ends only
    the separators stand for themselves. The statements `plain_text`, `double_text`, `single_text` and
    `single_line` therefore have pending white space before the text. -/

namespace HelpAudit.Yaml

@[simp] theorem prepend_some (text found : List Char) (cursor : Cursor) :
    prepend text (some (found, cursor)) = some (text ++ found, cursor) := rfl

@[simp] theorem isBlank_space : isBlank ' ' = true := rfl

/-- What follows is read on from here: the text is at its end, or its first character is no blank, line
    end or comment. -/
def Stops (rest : List Char) : Prop :=
  ∀ c ∈ rest.head?, isBlank c = false ∧ isBreak c = false ∧ c ≠ '#'

theorem ne_of_isBreak {c d : Char} (hc : isBreak c = false) (hd : isBreak d = true) : c ≠ d := by
  rintro rfl
  rw [hc] at hd
  cases hd

theorem isBlank_of_isPrintable {c : Char} (h : isPrintable c = true) (hc : c ≠ ' ') : isBlank c = false := by
  have htab : c ≠ '\t' := by
    rintro rfl
    cases h
  simp [isBlank, hc, htab]

attribute [local simp] Gap.text

/-! ### Plain scalars -/

section Plain

attribute [local simp] plain

variable {above line column : Nat} {gap : Gap} {c : Char}

theorem plain_blank {pending : List Char} (rest : List Char) :
    plain false above (.blanks pending) line column (' ' :: rest) =
      plain false above (.blanks (pending ++ [' '])) line (column + 1) rest := rfl

/-- A character of a plain scalar takes the pending blanks with it. -/
theorem plain_char {pending rest : List Char} (hbreak : isBreak c = false) (hblank : isBlank c = false)
    (hgap : pending ≠ [] → above ≤ column ∧ 0 < column ∧ c ≠ '#')
    (hcolon : c = ':' → blankNext rest = false) :
    plain false above (.blanks pending) line column (c :: rest) =
      prepend (pending ++ [c]) (plain false above (.blanks []) line (column + 1) rest) := by
  have hleaves : ((Gap.blanks pending).isSome && leavesPlain false above column (c :: rest)) = false := by
    cases pending with
    | nil => rfl
    | cons d pending =>
      obtain ⟨habove, hcolumn, hsign⟩ := hgap (by simp)
      simp [leavesPlain, hsign, Nat.not_lt.mpr habove, Nat.ne_of_gt hcolumn]
  have hends : endsPlain false c rest = false := by
    by_cases hc : c = ':'
    · simp [endsPlain, hcolon hc]
    · simp [endsPlain, hc]
  rw [plain]
  · simp [hbreak, hblank, hleaves, hends]
  · exact fun _ hc _ => ne_of_isBreak hbreak rfl hc

theorem plain_colon {rest : List Char} (h : blankNext rest = true) :
    plain false above (.blanks []) line column (':' :: rest) =
      some ([], ⟨':' :: rest, line, column, false, []⟩) := by
  rw [plain]
  · simp [isBreak, isBlank, Gap.isSome, endsPlain, h, Gap.isBroken]
  · simp

theorem plain_indentation (first more : List Char) (count : Nat) (rest : List Char) :
    plain false above (.breaks first more) line column (List.replicate count ' ' ++ rest) =
      plain false above (.breaks first more) line (column + count) rest := by
  induction count generalizing column with
  | zero => rfl
  | succ count ih =>
    rw [List.replicate_succ, List.cons_append, Nat.add_comm count, ← Nat.add_assoc, ← ih]
    rfl

/-- A plain scalar ends before a line that starts in front of it. -/
theorem plain_line {indent : Nat} (h : indent < above) {rest : List Char} (hrest : Stops rest) :
    plain false above (.blanks []) line column ('\n' :: (List.replicate indent ' ' ++ rest)) =
      some ([], ⟨rest, line + 1, indent, true, []⟩) := by
  have hbreak : plain false above (.blanks []) line column ('\n' :: (List.replicate indent ' ' ++ rest)) =
      plain false above (.breaks ['\n'] []) (line + 1) 0 (List.replicate indent ' ' ++ rest) := rfl
  rw [hbreak, plain_indentation, Nat.zero_add]
  cases rest with
  | nil => rfl
  | cons c rest =>
    obtain ⟨hblank, hbreak, -⟩ := hrest c rfl
    rw [plain]
    · simp [hbreak, hblank, Gap.isSome, Gap.isBroken, leavesPlain, h]
    · exact fun _ hc _ => ne_of_isBreak hbreak rfl hc

theorem blankNext_append {text rest : List Char} (h : blankNext text = false) :
    blankNext (text ++ rest) = false := by
  cases text with
  | nil => cases h
  | cons c text => exact h

-- the blanks before the text are pending: they count only when a character follows them
/-- A plain text is read back; blanks before it come in front. -/
theorem plain_text {text pending : List Char} {afterBlank : Bool} (hmarks : hasInnerMark afterBlank text = false)
    (hbreak : ∀ c ∈ text, isBreak c = false) (hprint : ∀ c ∈ text, isPrintable c = true)
    (hlast : text.getLast? ≠ some ' ')
    (hpending : pending ≠ [] → text ≠ [] ∧ afterBlank = true ∧ above ≤ column ∧ 0 < column)
    (habove : above ≤ column + 1) {follow : List Char} {stop : Cursor}
    (hstop : plain false above (.blanks []) line (column + text.length) follow = some ([], stop)) :
    plain false above (.blanks pending) line column (text ++ follow) = some (pending ++ text, stop) := by
  induction text generalizing pending column afterBlank with
  | nil =>
    cases pending with
    | nil => exact hstop
    | cons d pending => exact absurd rfl (hpending (by simp)).1
  | cons c text ih =>
    simp only [hasInnerMark, Bool.or_eq_false_iff, Bool.and_eq_false_iff, decide_eq_false_iff_not] at hmarks
    obtain ⟨⟨hcolon, hsign⟩, hmarks⟩ := hmarks
    have hbreaks : ∀ d ∈ text, isBreak d = false := fun d hd => hbreak d (List.mem_cons_of_mem c hd)
    have hprints : ∀ d ∈ text, isPrintable d = true := fun d hd => hprint d (List.mem_cons_of_mem c hd)
    have hlasts : text.getLast? ≠ some ' ' := by
      cases text with
      | nil => simp
      | cons d text => simpa using hlast
    have hnext : plain false above (.blanks []) line (column + 1 + text.length) follow = some ([], stop) := by
      rw [← hstop, List.length_cons]
      congr 1
      omega
    by_cases hc : c = ' '
    · subst hc
      have htext : text ≠ [] := by
        rintro rfl
        exact hlast rfl
      rw [List.cons_append, plain_blank,
        ih hmarks hbreaks hprints hlasts (fun _ => ⟨htext, rfl, habove, by omega⟩) (by omega) hnext]
      simp
    · have hblank := isBlank_of_isPrintable (hprint c List.mem_cons_self) hc
      have hgap : pending ≠ [] → above ≤ column ∧ 0 < column ∧ c ≠ '#' := by
        intro hne
        obtain ⟨-, hafter, hle, hlt⟩ := hpending hne
        exact ⟨hle, hlt, hsign.resolve_right (by simp [hafter])⟩
      have hread := ih hmarks hbreaks hprints hlasts (fun hne => absurd rfl hne) (by omega) hnext
      rw [List.cons_append, plain_char (hbreak c List.mem_cons_self) hblank hgap
        (fun h => blankNext_append (hcolon.resolve_left (by simp [h]))), hread]
      simp

end Plain

/-! ### Double quotes -/

theorem exists_of_mem_toDigits {n : Nat} {c : Char} (h : c ∈ Nat.toDigits 16 n) :
    ∃ m < 16, c = Nat.digitChar m := by
  induction n using Nat.strongRecOn with
  | ind n ih =>
    rw [Nat.toDigits_eq_if (by decide)] at h
    split at h
    · exact ⟨n, ‹_›, List.mem_singleton.mp h⟩
    · rcases List.mem_append.mp h with h | h
      · exact ih (n / 16) (by omega) h
      · exact ⟨n % 16, by omega, List.mem_singleton.mp h⟩

theorem ne_plus_of_mem_hexDigits {width n : Nat} {c : Char} (h : c ∈ hexDigits width n) : c ≠ '+' := by
  have hall : ∀ m < 16, (Nat.digitChar m).toUpper ≠ '+' := by decide
  rcases List.mem_append.mp h with h | h
  · obtain ⟨-, rfl⟩ := List.mem_replicate.mp h
    decide
  · obtain ⟨d, hd, rfl⟩ := List.mem_map.mp h
    obtain ⟨m, hm, rfl⟩ := exists_of_mem_toDigits hd
    exact hall m hm

theorem length_hexDigits {width n : Nat} (h : (Nat.toDigits 16 n).length ≤ width) :
    (hexDigits width n).length = width := by
  simp only [hexDigits, List.length_append, List.length_replicate, List.length_map]
  omega

/-- One more digit of a hexadecimal number. -/
def addDigit (value : Nat) (c : Char) : Option Nat := (digit? 16 c).map (value * 16 + ·)

theorem foldlM_addDigit_zeros (count : Nat) : (List.replicate count '0').foldlM addDigit 0 = some 0 := by
  induction count with
  | zero => rfl
  | succ count ih =>
    rw [List.replicate_succ, List.foldlM_cons]
    exact ih

theorem foldlM_addDigit_toDigits (n : Nat) :
    ((Nat.toDigits 16 n).map Char.toUpper).foldlM addDigit 0 = some n := by
  have hdigit : ∀ m < 16, digit? 16 (Nat.digitChar m).toUpper = some m := by decide
  induction n using Nat.strongRecOn with
  | ind n ih =>
    rw [Nat.toDigits_eq_if (by decide)]
    split
    · simp [addDigit, hdigit n ‹_›]
    · have hlast : addDigit (n / 16) (Nat.digitChar (n % 16)).toUpper = some n := by
        rw [addDigit, hdigit (n % 16) (by omega), Option.map_some, Nat.div_add_mod']
      rw [List.map_append, List.foldlM_append, ih (n / 16) (by omega)]
      simpa using hlast

theorem natural?_hexDigits (width n : Nat) : natural? 16 (hexDigits width n) = some n := by
  have hne : hexDigits width n ≠ [] := by
    simp [hexDigits, Nat.toDigits_ne_nil]
  have hplus : ∀ rest, hexDigits width n ≠ '+' :: rest := by
    intro rest heq
    exact ne_plus_of_mem_hexDigits (heq ▸ List.mem_cons_self) rfl
  have hread : (hexDigits width n).foldlM addDigit 0 = some n := by
    rw [hexDigits, List.foldlM_append, foldlM_addDigit_zeros]
    exact foldlM_addDigit_toDigits n
  simp only [natural?]
  rw [if_neg (by simpa using hne)]
  exact hread

theorem codePoint?_hexDigits (width : Nat) (c : Char) : codePoint? (hexDigits width c.toNat) = some c := by
  have hplus : (hexDigits width c.toNat).head? ≠ some '+' := fun h =>
    ne_plus_of_mem_hexDigits (List.mem_of_head? h) rfl
  have hvalid : c.toNat.isValidChar := c.valid
  rw [codePoint?, if_neg hplus, natural?_hexDigits]
  simp [hvalid]

section Double

attribute [local simp] double

variable {line column : Nat} {pending : List Char}

theorem double_escape {e c : Char} (h : escape? e = some c) (tail : List Char) :
    double (.blanks pending) line column ('\\' :: e :: tail) =
      prepend (pending ++ [c]) (double (.blanks []) line (column + 2) tail) := by
  have hne : ∀ {d : Char}, escape? d = none → e ≠ d := by
    rintro d hd rfl
    rw [h] at hd
    cases hd
  have hbreak : isBreak e = false := by
    simp [isBreak, hne (d := '\n') rfl, hne (d := '\r') rfl, hne (d := '\u0085') rfl,
      hne (d := '\u2028') rfl, hne (d := '\u2029') rfl]
  simp [hne (d := '\r') rfl, hne (d := 'x') rfl, hne (d := 'u') rfl, hne (d := 'U') rfl, hbreak, h]

/-- An escape by the number of a character, with two, four or eight digits. -/
theorem double_number {mark : Char} {width : Nat} {digits : List Char} {c : Char}
    (hmark : mark = 'x' ∧ width = 2 ∨ mark = 'u' ∧ width = 4 ∨ mark = 'U' ∧ width = 8)
    (hdigits : digits.length = width) (h : codePoint? digits = some c) (tail : List Char) :
    double (.blanks pending) line column ('\\' :: mark :: (digits ++ tail)) =
      prepend (pending ++ [c]) (double (.blanks []) line (column + (width + 2)) tail) := by
  have hcons : ∀ {n : Nat} {text : List Char}, text.length = n + 1 →
      ∃ d rest, text = d :: rest ∧ rest.length = n := by
    intro n text hlength
    obtain ⟨d, rest, rfl⟩ := List.exists_cons_of_length_eq_add_one hlength
    exact ⟨d, rest, rfl, by simpa using hlength⟩
  obtain ⟨rfl, rfl⟩ | ⟨rfl, rfl⟩ | ⟨rfl, rfl⟩ := hmark
  · obtain ⟨_, _, rfl, h1⟩ := hcons hdigits
    obtain ⟨_, _, rfl, h2⟩ := hcons h1
    obtain rfl := List.eq_nil_of_length_eq_zero h2
    simp [h]
  · obtain ⟨_, _, rfl, h1⟩ := hcons hdigits
    obtain ⟨_, _, rfl, h2⟩ := hcons h1
    obtain ⟨_, _, rfl, h3⟩ := hcons h2
    obtain ⟨_, _, rfl, h4⟩ := hcons h3
    obtain rfl := List.eq_nil_of_length_eq_zero h4
    simp [h]
  · obtain ⟨_, _, rfl, h1⟩ := hcons hdigits
    obtain ⟨_, _, rfl, h2⟩ := hcons h1
    obtain ⟨_, _, rfl, h3⟩ := hcons h2
    obtain ⟨_, _, rfl, h4⟩ := hcons h3
    obtain ⟨_, _, rfl, h5⟩ := hcons h4
    obtain ⟨_, _, rfl, h6⟩ := hcons h5
    obtain ⟨_, _, rfl, h7⟩ := hcons h6
    obtain ⟨_, _, rfl, h8⟩ := hcons h7
    obtain rfl := List.eq_nil_of_length_eq_zero h8
    simp [h]

/-- An escape is a letter, or the number of the character after its mark. -/
theorem escapeOf_cases (c : Char) : (∃ e, escapeOf c = ['\\', e] ∧ escape? e = some c) ∨
    ∃ mark width, escapeOf c = '\\' :: mark :: hexDigits width c.toNat ∧
      (mark = 'x' ∧ width = 2 ∨ mark = 'u' ∧ width = 4 ∨ mark = 'U' ∧ width = 8) ∧
      (hexDigits width c.toNat).length = width ∧ (width = 2 ∨ 0x100 ≤ c.toNat) := by
  have hlt : c.toNat < 0x110000 := by
    have hvalid := c.valid
    simp only [UInt32.isValidChar, Nat.isValidChar] at hvalid
    have htoNat : c.toNat = c.val.toNat := rfl
    omega
  have hdigits : ∀ {width : Nat}, 0 < width → c.toNat < 16 ^ width →
      (hexDigits width c.toNat).length = width := fun hwidth h =>
    length_hexDigits ((Nat.length_toDigits_le_iff (b := 16) (by decide) hwidth).mpr h)
  simp only [escapeOf]
  split
  all_goals try exact .inl ⟨_, rfl, rfl⟩
  right
  split
  · exact ⟨'x', 2, rfl, .inl ⟨rfl, rfl⟩, hdigits (by decide) (by omega), .inl rfl⟩
  split
  · exact ⟨'u', 4, rfl, .inr (.inl ⟨rfl, rfl⟩), hdigits (by decide) (by omega), .inr (by omega)⟩
  · exact ⟨'U', 8, rfl, .inr (.inr ⟨rfl, rfl⟩), hdigits (by decide) (by omega), .inr (by omega)⟩

theorem double_escapeOf (c : Char) (tail : List Char) :
    double (.blanks pending) line column (escapeOf c ++ tail) =
      prepend (pending ++ [c]) (double (.blanks []) line (column + (escapeOf c).length) tail) := by
  obtain ⟨e, heq, he⟩ | ⟨mark, width, heq, hmark, hlength, -⟩ := escapeOf_cases c
  · rw [heq]
    exact double_escape he tail
  · rw [heq, List.length_cons, List.length_cons, hlength]
    exact double_number hmark hlength (codePoint?_hexDigits width c) tail

theorem double_blank (tail : List Char) :
    double (.blanks pending) line column (' ' :: tail) =
      double (.blanks (pending ++ [' '])) line (column + 1) tail := rfl

theorem double_char {c : Char} (hbreak : isBreak c = false) (hblank : isBlank c = false) (hquote : c ≠ '"')
    (hslash : c ≠ '\\') (hcolumn : 0 < column) (tail : List Char) :
    double (.blanks pending) line column (c :: tail) =
      prepend (pending ++ [c]) (double (.blanks []) line (column + 1) tail) := by
  have hreturn := ne_of_isBreak hbreak (d := '\r') rfl
  simp [hreturn, hbreak, hblank, hquote, hslash, Nat.ne_of_gt hcolumn]

theorem double_close (hcolumn : 0 < column) (rest : List Char) :
    double (.blanks pending) line column ('"' :: rest) =
      some (pending, ⟨rest, line, column + 1, false, []⟩) := by
  obtain ⟨column, rfl⟩ := Nat.exists_eq_add_of_lt hcolumn
  rfl

/-- A text in double quotes is read back; blanks before it come in front. -/
theorem double_text (text : List Char) (hcolumn : 0 < column) (rest : List Char) :
    double (.blanks pending) line column (doubleQuoted text ++ '"' :: rest) =
      some (pending ++ text, ⟨rest, line, column + (doubleQuoted text).length + 1, false, []⟩) := by
  induction text generalizing pending column with
  | nil => simpa [doubleQuoted] using double_close hcolumn rest
  | cons c text ih =>
    -- a character that would be mistaken is escaped; a blank stays pending, all others stand for themselves
    have hquoted : doubleQuoted (c :: text) = (if isPrintable c && !isBreak c && c ≠ '"' && c ≠ '\\'
        then [c] else escapeOf c) ++ doubleQuoted text := List.flatMap_cons
    rw [hquoted]
    split
    · rename_i hraw
      simp only [Bool.and_eq_true, Bool.not_eq_true', decide_eq_true_eq] at hraw
      obtain ⟨⟨⟨hprint, hbreak⟩, hquote⟩, hslash⟩ := hraw
      by_cases hc : c = ' '
      · subst hc
        rw [List.append_assoc, List.singleton_append, double_blank, ih (by omega)]
        simp [Nat.add_assoc, Nat.add_comm, Nat.add_left_comm]
      · have hblank := isBlank_of_isPrintable hprint hc
        rw [List.append_assoc, List.singleton_append, double_char hbreak hblank hquote hslash hcolumn,
          ih (by omega)]
        simp [Nat.add_assoc, Nat.add_comm, Nat.add_left_comm]
    · rw [List.append_assoc, double_escapeOf, ih (by omega)]
      simp [Nat.add_assoc]

end Double

/-! ### Single quotes -/

section Single

attribute [local simp] single

variable {line column : Nat} {c : Char}

theorem single_blank (gap : Gap) (rest : List Char) :
    single gap line column (' ' :: rest) = single (gap.addBlank ' ') line (column + 1) rest := rfl

theorem single_indentation (first more : List Char) (count : Nat) (rest : List Char) :
    single (.breaks first more) line column (List.replicate count ' ' ++ rest) =
      single (.breaks first more) line (column + count) rest := by
  induction count generalizing column with
  | zero => rfl
  | succ count ih =>
    rw [List.replicate_succ, List.cons_append, single_blank, Nat.add_comm count, ← Nat.add_assoc, ← ih]
    rfl

theorem single_break (hbreak : isBreak c = true) (hreturn : c ≠ '\r') (gap : Gap) (rest : List Char) :
    single gap line column (c :: rest) = single (gap.addBreak c) (line + 1) 0 rest := by
  have hquote : c ≠ '\'' := by
    rintro rfl
    cases hbreak
  simp [hreturn, hquote, hbreak]

theorem single_quote (gap : Gap) (rest : List Char) :
    single gap line column ('\'' :: '\'' :: rest) =
      prepend (gap.text ++ ['\'']) (single (.blanks []) line (column + 2) rest) := rfl

theorem single_char (hbreak : isBreak c = false) (hblank : isBlank c = false) (hquote : c ≠ '\'')
    (hcolumn : 0 < column) (gap : Gap) (rest : List Char) :
    single gap line column (c :: rest) =
      prepend (gap.text ++ [c]) (single (.blanks []) line (column + 1) rest) := by
  have hreturn := ne_of_isBreak hbreak (d := '\r') rfl
  simp [hreturn, hbreak, hblank, hquote, Nat.ne_of_gt hcolumn]

theorem single_close (hcolumn : 0 < column) (gap : Gap) {rest : List Char} (hrest : rest.head? ≠ some '\'') :
    single gap line column ('\'' :: rest) = some (gap.text, ⟨rest, line, column + 1, false, []⟩) := by
  have hquote : ∀ tail, rest ≠ '\'' :: tail := by
    rintro tail rfl
    exact hrest rfl
  simp [hquote, isBreak, isBlank, Nat.ne_of_gt hcolumn]

/-- How a character other than a line end stands in single quotes. -/
def quotedChar (c : Char) : List Char := if c = '\'' then ['\'', '\''] else [c]

theorem single_quotedChar (hbreak : isBreak c = false) (hblank : isBlank c = false) (hcolumn : 0 < column)
    (gap : Gap) (rest : List Char) :
    single gap line column (quotedChar c ++ rest) =
      prepend (gap.text ++ [c]) (single (.blanks []) line (column + (quotedChar c).length) rest) := by
  rw [quotedChar]
  split
  · subst_vars
    exact single_quote gap rest
  · exact single_char hbreak hblank ‹_› hcolumn gap rest

/-- A text that can stand in single quotes: its line ends are separators, with no blank beside them. -/
structure FitsQuotes (text : List Char) : Prop where
  printable : ∀ c ∈ text, isPrintable c = true
  newline : '\n' ∉ text
  before : hasPair (· = ' ') isBreak text = false
  after : hasPair isBreak (· = ' ') text = false

theorem hasPair_cons {first second : Char → Bool} {text : List Char}
    (h : hasPair first second (c :: text) = false) :
    (first c = true → ∀ d ∈ text.head?, second d = false) ∧ hasPair first second text = false := by
  cases text with
  | nil => exact ⟨by simp, rfl⟩
  | cons d text =>
    simp only [hasPair, Bool.or_eq_false_iff, Bool.and_eq_false_iff] at h
    refine ⟨?_, h.2⟩
    rintro hc e ⟨⟩
    exact h.1.resolve_left (by simp [hc])

theorem FitsQuotes.tail {text : List Char} (h : FitsQuotes (c :: text)) : FitsQuotes text :=
  ⟨fun d hd => h.printable d (List.mem_cons_of_mem c hd), fun hd => h.newline (List.mem_cons_of_mem c hd),
    (hasPair_cons h.before).2, (hasPair_cons h.after).2⟩

/-- A line end that is written as it is contributes itself. -/
theorem breakText_of_isPrintable (hbreak : isBreak c = true) (hprint : isPrintable c = true) :
    breakText c = [c] ∧ c ≠ '\r' := by
  simp only [isBreak, Bool.or_eq_true, decide_eq_true_eq] at hbreak
  rcases hbreak with (((rfl | rfl) | rfl) | rfl) | rfl
  · exact ⟨rfl, by decide⟩
  · cases hprint
  · cases hprint
  · exact ⟨rfl, by decide⟩
  · exact ⟨rfl, by decide⟩

/-- The white space before a text is read as it stands: blanks before a character, or separators. -/
def Gap.Keeps : Gap → (column : Nat) → List Char → Prop
  | .blanks pending, column, text => 0 < column ∧ (pending ≠ [] → ∀ c ∈ text.head?, isBreak c = false)
  | .breaks first _, _, text => first ≠ ['\n'] ∧ text.head? ≠ some ' '

/-- A line end joins the pending white space. -/
theorem Gap.Keeps.addBreak {gap : Gap} {text : List Char} (h : gap.Keeps column (c :: text))
    (hfits : FitsQuotes (c :: text)) (hbreak : isBreak c = true) :
    (gap.addBreak c).Keeps 0 text ∧ (gap.addBreak c).text = gap.text ++ [c] := by
  obtain ⟨hself, -⟩ := breakText_of_isPrintable hbreak (hfits.printable c List.mem_cons_self)
  have hhead : text.head? ≠ some ' ' := by
    intro hhead
    have hno := (hasPair_cons hfits.after).1 hbreak ' ' hhead
    cases hno
  cases gap with
  | blanks pending =>
    have hline : c ≠ '\n' := by
      rintro rfl
      exact hfits.newline List.mem_cons_self
    -- no blank stands before a separator, so none is lost
    obtain rfl : pending = [] := by
      cases pending with
      | nil => rfl
      | cons d pending =>
        have hno := h.2 (by simp) c rfl
        rw [hbreak] at hno
        cases hno
    rw [Gap.addBreak, hself]
    exact ⟨⟨by simpa using hline, hhead⟩, by simp [hline]⟩
  | breaks first more =>
    rw [Gap.addBreak, hself]
    exact ⟨⟨h.1, hhead⟩, by simp [h.1]⟩

/-- The first character of a line comes after its indentation. -/
theorem single_next (line : Nat) {gap : Gap} {text : List Char} (h : gap.Keeps column text) {indent : Nat}
    (hindent : 0 < indent) (rest : List Char) :
    ∃ column₁, 0 < column₁ ∧ single gap line column
      ((if gap.isBroken then List.replicate indent ' ' else []) ++ rest) = single gap line column₁ rest := by
  cases gap with
  | blanks pending => exact ⟨column, h.1, rfl⟩
  | breaks first more => exact ⟨column + indent, by omega, single_indentation first more indent rest⟩

/-- A text in single quotes is read back; white space before it comes in front. -/
theorem single_text {indent : Nat} (hindent : 0 < indent) {rest : List Char}
    (hrest : rest.head? ≠ some '\'') {text : List Char} (hfits : FitsQuotes text) (line : Nat) {gap : Gap}
    (h : gap.Keeps column text) :
    ∃ line₁ column₁, single gap line column (singleQuoted indent gap.isBroken text ++ '\'' :: rest) =
      some (gap.text ++ text, ⟨rest, line₁, column₁, false, []⟩) := by
  induction text generalizing gap line column with
  | nil =>
    obtain ⟨column₁, hcolumn, hread⟩ := single_next line h hindent ('\'' :: rest)
    refine ⟨line, column₁ + 1, ?_⟩
    rw [singleQuoted, hread, single_close hcolumn gap hrest, List.append_nil]
  | cons c text ih =>
    have hprint := hfits.printable c List.mem_cons_self
    by_cases hbreak : isBreak c = true
    · obtain ⟨hkeeps, htext⟩ := h.addBreak hfits hbreak
      obtain ⟨-, hreturn⟩ := breakText_of_isPrintable hbreak hprint
      have hbroken : (gap.addBreak c).isBroken = true := by cases gap <;> rfl
      obtain ⟨line₁, column₁, hread⟩ := ih hfits.tail (line + 1) hkeeps
      refine ⟨line₁, column₁, ?_⟩
      rw [hbroken, htext] at hread
      rw [singleQuoted, if_pos hbreak, List.cons_append, single_break hbreak hreturn, hread,
        List.append_assoc, List.singleton_append]
    · rw [Bool.not_eq_true] at hbreak
      by_cases hc : c = ' '
      · subst hc
        cases gap with
        -- a blank right behind a line end would be lost, and such texts are not written in quotes
        | breaks first more => exact absurd rfl h.2
        | blanks pending =>
          have hkeeps : (Gap.blanks (pending ++ [' '])).Keeps (column + 1) text :=
            ⟨by omega, fun _ => (hasPair_cons hfits.before).1 rfl⟩
          obtain ⟨line₁, column₁, hread⟩ := ih hfits.tail line hkeeps
          refine ⟨line₁, column₁, ?_⟩
          exact (single_blank _ _).trans (hread.trans (by simp))
      · have hblank : isBlank c = false := isBlank_of_isPrintable hprint hc
        -- behind a line end the writer indents, and the reader does not count that
        have hquoted : singleQuoted indent gap.isBroken (c :: text) ++ '\'' :: rest =
            (if gap.isBroken then List.replicate indent ' ' else []) ++
              (quotedChar c ++ (singleQuoted indent false text ++ '\'' :: rest)) := by
          simp [singleQuoted, hbreak, hc, quotedChar]
        obtain ⟨column₁, hcolumn, hnext⟩ := single_next line h hindent
          (quotedChar c ++ (singleQuoted indent false text ++ '\'' :: rest))
        have hkeeps : (Gap.blanks []).Keeps (column₁ + (quotedChar c).length) text :=
          ⟨by omega, fun hne => absurd rfl hne⟩
        obtain ⟨line₂, column₂, hread⟩ := ih hfits.tail line hkeeps
        refine ⟨line₂, column₂, ?_⟩
        rw [hquoted, hnext, single_quotedChar hbreak hblank hcolumn]
        exact (congrArg (prepend _) hread).trans (by simp)

theorem single_quoted {indent : Nat} (hindent : 0 < indent) {rest : List Char}
    (hrest : rest.head? ≠ some '\'') {text : List Char} (hfits : FitsQuotes text) (line column : Nat) :
    ∃ line₁ column₁, single (.blanks []) line (column + 1) (singleQuoted indent false text ++ '\'' :: rest) =
      some (text, ⟨rest, line₁, column₁, false, []⟩) :=
  single_text hindent hrest hfits line (show (Gap.blanks []).Keeps (column + 1) text from
    ⟨by omega, fun hne => absurd rfl hne⟩)

theorem singleQuoted_of_isBreak {indent : Nat} {text : List Char} (h : ∀ c ∈ text, isBreak c = false) :
    singleQuoted indent false text = text.flatMap quotedChar := by
  induction text with
  | nil => rfl
  | cons c text ih =>
    rw [List.flatMap_cons, ← ih fun d hd => h d (List.mem_cons_of_mem c hd)]
    simp [singleQuoted, h c List.mem_cons_self, quotedChar]

/-- A text on one line is read up to the quote behind it. -/
theorem single_line {text pending : List Char} (hbreak : ∀ c ∈ text, isBreak c = false)
    (hprint : ∀ c ∈ text, isPrintable c = true) (hcolumn : 0 < column) {rest : List Char}
    (hrest : rest.head? ≠ some '\'') :
    single (.blanks pending) line column (text.flatMap quotedChar ++ '\'' :: rest) =
      some (pending ++ text, ⟨rest, line, column + (text.flatMap quotedChar).length + 1, false, []⟩) := by
  induction text generalizing pending column with
  | nil => simpa using single_close hcolumn (.blanks pending) hrest
  | cons c text ih =>
    have hbreaks : ∀ d ∈ text, isBreak d = false := fun d hd => hbreak d (List.mem_cons_of_mem c hd)
    have hprints : ∀ d ∈ text, isPrintable d = true := fun d hd => hprint d (List.mem_cons_of_mem c hd)
    rw [List.flatMap_cons, List.append_assoc]
    by_cases hc : c = ' '
    · subst hc
      have hspace : ∀ tail, single (.blanks pending) line column (quotedChar ' ' ++ tail) =
          single (.blanks (pending ++ [' '])) line (column + 1) tail := single_blank _
      rw [hspace, ih hbreaks hprints (by omega)]
      simp [quotedChar, Nat.add_assoc, Nat.add_comm, Nat.add_left_comm]
    · have hblank := isBlank_of_isPrintable (hprint c List.mem_cons_self) hc
      rw [single_quotedChar (hbreak c List.mem_cons_self) hblank hcolumn, ih hbreaks hprints (by omega)]
      simp [Nat.add_assoc]

end Single

end HelpAudit.Yaml
