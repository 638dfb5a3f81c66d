import HelpAudit.Proofs.YamlBlocks

/-! The styles of YAML scalars. The style of a text decides how it is written, and each style is read back:
    a scalar on a line of its own (`simple_renderScalar`) leaves the place behind its line, and a key
    (`simple_keyText`) leaves the colon behind it on the same line, close enough to count as its colon
    (`length_keyText_le`). What is written begins a value and nothing else (`startsSimple_render`), and it has
    characters of documents only (`all_render`). -/

namespace HelpAudit.Yaml

/-! ### Moving on -/

theorem skipFrom_stop {rest : List Char} (h : Stops rest) (fresh : Bool) (line column : Nat) :
    skipFrom false [] fresh false line column rest = ⟨rest, line, column, fresh, []⟩ := by
  cases rest with
  | nil => rfl
  | cons c rest =>
    obtain ⟨hblank, hbreak, hsign⟩ := h c rfl
    simp only [isBlank, Bool.or_eq_false_iff, decide_eq_false_iff_not] at hblank
    have hreturn := ne_of_isBreak hbreak (d := '\r') rfl
    simp [skipFrom, hreturn, hbreak, hblank.1, hblank.2, hsign]

theorem skipFrom_indentation (fresh : Bool) (line column count : Nat) (rest : List Char) :
    skipFrom false [] fresh false line column (List.replicate count ' ' ++ rest) =
      skipFrom false [] fresh false line (column + count) rest := by
  induction count generalizing column with
  | zero => rfl
  | succ count ih =>
    rw [List.replicate_succ, List.cons_append, Nat.add_comm count, ← Nat.add_assoc, ← ih]
    simp [skipFrom, isBreak]

theorem skipFrom_line (fresh : Bool) (line column indent : Nat) {rest : List Char} (h : Stops rest) :
    skipFrom false [] fresh false line column ('\n' :: (List.replicate indent ' ' ++ rest)) =
      ⟨rest, line + 1, indent, true, []⟩ := by
  have hbreak : skipFrom false [] fresh false line column ('\n' :: (List.replicate indent ' ' ++ rest)) =
      skipFrom false [] true false (line + 1) 0 (List.replicate indent ' ' ++ rest) := by
    simp [skipFrom, isBreak]
  rw [hbreak, skipFrom_indentation, skipFrom_stop h, Nat.zero_add]

/-- The place is behind a value: at the end of its line, or already where the text goes on. -/
def IsBehind (stop : Cursor) (indent : Nat) (rest : List Char) : Prop :=
  (∃ line column, stop = ⟨'\n' :: (List.replicate indent ' ' ++ rest), line, column, false, []⟩) ∨
    ∃ line, stop = ⟨rest, line, indent, true, []⟩

theorem IsBehind.skip {stop : Cursor} {indent : Nat} {rest : List Char} (h : IsBehind stop indent rest)
    (hrest : Stops rest) : ∃ line, stop.skip false = ⟨rest, line, indent, true, []⟩ := by
  rcases h with ⟨line, column, rfl⟩ | ⟨line, rfl⟩
  · exact ⟨line + 1, skipFrom_line false line column indent hrest⟩
  · exact ⟨line, skipFrom_stop hrest true line indent⟩

/-- No colon follows on the line of the value. -/
theorem IsBehind.colonAfter {stop : Cursor} {indent : Nat} {rest : List Char} (h : IsBehind stop indent rest)
    (hrest : Stops rest) : colonAfter stop = none := by
  rcases h with ⟨line, column, rfl⟩ | ⟨line, rfl⟩
  · have hnext := skipFrom_line false line column indent hrest
    simp [Yaml.colonAfter, Cursor.skip, hnext]
  · simp [Yaml.colonAfter]

/-! ### Plain texts -/

/-- A text that is written without quotes. -/
structure IsPlainText (text : List Char) : Prop where
  ne : text ≠ []
  breaks : ∀ c ∈ text, isBreak c = false
  printable : ∀ c ∈ text, isPrintable c = true
  first : text.head? ≠ some ' '
  last : text.getLast? ≠ some ' '
  marks : hasMarks text = false

theorem isPrintable_of_needsEscapes {text : List Char} (h : needsEscapes text = false) :
    ∀ c ∈ text, isPrintable c = true := by
  simp only [needsEscapes, Bool.or_eq_false_iff, List.any_eq_false, Bool.not_eq_true', Bool.not_eq_false] at h
  exact h.1

theorem isPlainText_of_canBePlain {text : List Char} (hne : text ≠ []) (h : canBePlain text = true) :
    IsPlainText text := by
  simp only [canBePlain, Bool.and_eq_true, Bool.not_eq_true', List.any_eq_false, Bool.not_eq_true,
    decide_eq_true_eq] at h
  obtain ⟨⟨⟨⟨hbreak, hfirst⟩, hlast⟩, hescape⟩, hmarks⟩ := h
  exact ⟨hne, hbreak, isPrintable_of_needsEscapes hescape, hfirst, hlast, hmarks⟩

/-- What the style of a text says about it. -/
theorem ScalarStyle.of_cases (inKey : Bool) (text : List Char) :
    ScalarStyle.of inKey text = .plain ∧ IsPlainText text ∨
    ScalarStyle.of inKey text = .single ∧ FitsQuotes text ∨
    ScalarStyle.of inKey text = .double ∨
    ScalarStyle.of inKey text = .literal ∧ inKey = false ∧ text ≠ [] ∧ ∀ c ∈ text, isPrintable c = true := by
  rw [ScalarStyle.of]
  split
  · -- a text with line ends becomes a block, unless it is a key or needs escapes
    rename_i hline
    split
    · exact .inr (.inr (.inl rfl))
    · rename_i hliteral
      simp only [Bool.or_eq_true, decide_eq_true_eq, not_or, Bool.not_eq_true] at hliteral
      have hne : text ≠ [] := by
        rintro rfl
        cases hline
      exact .inr (.inr (.inr ⟨rfl, hliteral.1.1, hne, isPrintable_of_needsEscapes hliteral.1.2⟩))
  rename_i hline
  split
  · exact .inr (.inr (.inl rfl))
  split
  · rename_i hplain
    simp only [Bool.and_eq_true, Bool.not_eq_true'] at hplain
    have hne : text ≠ [] := by
      rintro rfl
      cases hplain.1
    exact .inl ⟨rfl, isPlainText_of_canBePlain hne hplain.2⟩
  split
  · exact .inr (.inr (.inl rfl))
  · -- quotes are left for what needs no escapes and has no line ends that they would lose
    rename_i hquotes
    simp only [Bool.or_eq_true, not_or, Bool.not_eq_true] at hquotes
    have hescape := hquotes.1
    simp only [needsEscapes, Bool.or_eq_false_iff] at hescape
    exact .inr (.inl ⟨rfl, isPrintable_of_needsEscapes hquotes.1, by simpa using hline, hescape.2, hquotes.2⟩)

theorem of_literal {inKey : Bool} {text : List Char} (h : ScalarStyle.of inKey text = .literal) :
    inKey = false ∧ text ≠ [] ∧ ∀ c ∈ text, isPrintable c = true := by
  obtain ⟨hof, -⟩ | ⟨hof, -⟩ | hof | ⟨-, htext⟩ := ScalarStyle.of_cases inKey text
  · cases hof.symm.trans h
  · cases hof.symm.trans h
  · cases hof.symm.trans h
  · exact htext

/-! ### Scalars on their own -/

theorem IsPlainText.exists_head {text : List Char} (h : IsPlainText text) :
    ∃ c rest, text = c :: rest ∧ isIndicator c = false ∧ isBlank c = false ∧ isBreak c = false ∧
      (c = '-' ∨ c = '?' ∨ c = ':' → blankNext rest = false) ∧ hasInnerMark false text = false := by
  obtain ⟨c, rest, rfl⟩ := List.exists_cons_of_ne_nil h.ne
  have hmarks := h.marks
  simp only [hasMarks, Bool.or_eq_false_iff, Bool.and_eq_false_iff, decide_eq_false_iff_not] at hmarks
  obtain ⟨⟨⟨-, hindicator⟩, hblank⟩, hinner⟩ := hmarks
  have hspace : c ≠ ' ' := fun hc => h.first (by rw [hc]; rfl)
  refine ⟨c, rest, rfl, hindicator, isBlank_of_isPrintable (h.printable c List.mem_cons_self) hspace,
    h.breaks c List.mem_cons_self, ?_, hinner⟩
  intro hc
  refine hblank.resolve_left fun hno => ?_
  rcases hc with rfl | rfl | rfl <;> simp at hno

theorem startsPlain_of_isPlainText {text : List Char} (h : IsPlainText text) (follow : List Char) :
    startsPlain false (text ++ follow) = true := by
  obtain ⟨c, rest, rfl, hindicator, hblank, hbreak, hnext, -⟩ := h.exists_head
  have hfollow : c = '-' ∨ c = '?' ∨ c = ':' → blankNext (rest ++ follow) = false :=
    fun hc => blankNext_append (hnext hc)
  rw [List.cons_append, startsPlain]
  split
  · simp [hfollow (.inl ‹_›)]
  split
  · rename_i hc
    simp only [Bool.or_eq_true, decide_eq_true_eq] at hc
    simp [hfollow (.inr hc)]
  · simp_all [isIndicator]

theorem simple_plain {text : List Char} (h : IsPlainText text) {follow : List Char} {above column line : Nat}
    {stop : Cursor} (habove : above ≤ column + 1) (hanchors : stop.anchors = [])
    (hstop : plain false above (.blanks []) line (column + text.length) follow = some ([], stop))
    (steps : Nat) (fresh : Bool) :
    simple (steps + 1) false above ⟨text ++ follow, line, column, fresh, []⟩ = some (.scalar text true, stop) := by
  have hstarts := startsPlain_of_isPlainText h follow
  obtain ⟨c, rest, htext, hindicator, -, -, -, hinner⟩ := h.exists_head
  have hread := plain_text hinner h.breaks h.printable h.last (fun hne => absurd rfl hne) habove hstop
  have hscalar : simple (steps + 1) false above ⟨text ++ follow, line, column, fresh, []⟩ =
      scalarAt true [] (plain false above (.blanks []) line column (text ++ follow)) := by
    simp only [isIndicator, decide_eq_false_iff_not] at hindicator
    rw [htext, List.cons_append] at hstarts ⊢
    simp only [simple]
    split <;> simp_all
  rw [hscalar, hread]
  obtain ⟨_, _, _, _, _⟩ := stop
  cases hanchors
  rfl

theorem simple_single {rest : List Char} {text tail : List Char} {line column line₁ column₁ : Nat}
    (h : single (.blanks []) line (column + 1) rest = some (text, ⟨tail, line₁, column₁, false, []⟩))
    (steps above : Nat) (fresh : Bool) :
    simple (steps + 1) false above ⟨'\'' :: rest, line, column, fresh, []⟩ =
      some (.scalar text false, ⟨tail, line₁, column₁, false, []⟩) := by
  simp [simple, h, scalarAt]

theorem simple_double {rest : List Char} {text tail : List Char} {line column line₁ column₁ : Nat}
    (h : double (.blanks []) line (column + 1) rest = some (text, ⟨tail, line₁, column₁, false, []⟩))
    (steps above : Nat) (fresh : Bool) :
    simple (steps + 1) false above ⟨'"' :: rest, line, column, fresh, []⟩ =
      some (.scalar text false, ⟨tail, line₁, column₁, false, []⟩) := by
  simp [simple, h, scalarAt]

/-- A scalar before the end of its line. -/
theorem simple_renderScalar {text rest : List Char} {above column behind : Nat}
    (hstyle : ScalarStyle.of false text ≠ .literal) (habove : above ≤ column + 1)
    (hbehind : behind < above) (hrest : Stops rest) (indent steps line : Nat) (fresh : Bool) :
    ∃ plain stop, simple (steps + 1) false above
        ⟨renderScalar indent text ++ (List.replicate behind ' ' ++ rest), line, column, fresh, []⟩ =
      some (.scalar text plain, stop) ∧ IsBehind stop behind rest := by
  have hlineEnd : (ScalarStyle.of false text).lineEnd text = ['\n'] := by simp [ScalarStyle.lineEnd, hstyle]
  simp only [renderScalar, hlineEnd, List.append_assoc, List.singleton_append]
  obtain ⟨hof, htext⟩ | ⟨hof, htext⟩ | hof | ⟨hof, -⟩ := ScalarStyle.of_cases false text
  · rw [hof]
    exact ⟨true, _, simple_plain htext habove rfl (plain_line hbehind hrest) steps fresh, .inr ⟨line + 1, rfl⟩⟩
  · rw [hof]
    have hquote : ('\n' :: (List.replicate behind ' ' ++ rest)).head? ≠ some '\'' := by simp
    obtain ⟨line₁, column₁, hread⟩ := single_quoted (show 0 < indent + 2 by omega) hquote htext line column
    refine ⟨false, _, ?_, .inl ⟨line₁, column₁, rfl⟩⟩
    simpa [ScalarStyle.render] using simple_single hread steps above fresh
  · rw [hof]
    have hread : double (.blanks []) line (column + 1) (doubleQuoted text ++ '"' :: '\n' :: (_ ++ rest)) = _ :=
      double_text text (by omega) ('\n' :: (List.replicate behind ' ' ++ rest))
    refine ⟨false, ⟨_, line, column + 1 + (doubleQuoted text).length + 1, false, []⟩, ?_, .inl ⟨_, _, rfl⟩⟩
    simpa [ScalarStyle.render] using simple_double hread steps above fresh
  · exact absurd hof hstyle

/-! ### Keys -/

/-- A key on one line, as it is written. -/
def keyText (indent : Nat) (text : List Char) : List Char := (ScalarStyle.of true text).render indent text

/-- A key is read up to its colon. -/
theorem simple_keyText {text tail : List Char} (hkey : isSimpleKey text = true) {above column : Nat}
    (habove : above ≤ column + 1) (htail : blankNext tail = true) (indent steps line : Nat) (fresh : Bool) :
    simple (steps + 1) false above ⟨keyText indent text ++ ':' :: tail, line, column, fresh, []⟩ =
      some (.scalar text (ScalarStyle.of true text = .plain),
        ⟨':' :: tail, line, column + (keyText indent text).length, false, []⟩) := by
  simp only [isSimpleKey, Bool.and_eq_true, Bool.not_eq_true', List.any_eq_false, Bool.not_eq_true] at hkey
  rw [keyText]
  obtain ⟨hof, htext⟩ | ⟨hof, htext⟩ | hof | ⟨-, hno, -⟩ := ScalarStyle.of_cases true text
  · rw [hof]
    exact simple_plain htext habove rfl (plain_colon htail) steps fresh
  · rw [hof]
    have hread : single (.blanks []) line (column + 1) (text.flatMap quotedChar ++ '\'' :: ':' :: tail) = _ :=
      single_line hkey.1 htext.printable (by omega) (by simp)
    simpa [ScalarStyle.render, singleQuoted_of_isBreak hkey.1, Nat.add_assoc, Nat.add_comm,
      Nat.add_left_comm] using simple_single hread steps above fresh
  · rw [hof]
    have hread : double (.blanks []) line (column + 1) (doubleQuoted text ++ '"' :: ':' :: tail) = _ :=
      double_text text (by omega) (':' :: tail)
    simpa [ScalarStyle.render, Nat.add_assoc, Nat.add_comm, Nat.add_left_comm] using
      simple_double hread steps above fresh
  · cases hno

/-! ### The length of a key -/

theorem length_utf8Char_pos (c : Char) :
    1 ≤ (Text.utf8Char c).length ∧ (0x80 ≤ c.toNat → 2 ≤ (Text.utf8Char c).length) := by
  simp only [Text.utf8Char]
  split
  · simp only [List.length_cons, List.length_nil]
    omega
  split
  · simp
  split <;> simp

theorem length_escapeOf_le (c : Char) : (escapeOf c).length ≤ 5 * (Text.utf8Char c).length := by
  obtain ⟨hone, htwo⟩ := length_utf8Char_pos c
  obtain ⟨e, heq, -⟩ | ⟨mark, width, heq, hmark, hlength, hwidth⟩ := escapeOf_cases c
  · rw [heq, List.length_cons, List.length_cons, List.length_nil]
    omega
  · rw [heq, List.length_cons, List.length_cons, hlength]
    omega

theorem length_flatMap_le {render : Char → List Char} {text : List Char}
    (h : ∀ c ∈ text, (render c).length ≤ 5 * (Text.utf8Char c).length) :
    (text.flatMap render).length ≤ 5 * (Text.utf8 text).length := by
  induction text with
  | nil => simp
  | cons c text ih =>
    have hc := h c List.mem_cons_self
    have htext := ih fun d hd => h d (List.mem_cons_of_mem c hd)
    simp only [Text.utf8, List.flatMap_cons, List.length_append] at htext ⊢
    omega

/-- A key is short enough for its colon. -/
theorem length_keyText_le {text : List Char} (h : isSimpleKey text = true) (indent : Nat) :
    (keyText indent text).length ≤ 1024 := by
  simp only [isSimpleKey, Bool.and_eq_true, Bool.not_eq_true', List.any_eq_false, Bool.not_eq_true,
    decide_eq_true_eq] at h
  obtain ⟨hbreak, hshort⟩ := h
  rw [keyText]
  -- a key has at most 128 bytes, and no style makes more than five characters of one
  obtain ⟨hof, -⟩ | ⟨hof, -⟩ | hof | ⟨-, hno, -⟩ := ScalarStyle.of_cases true text
  · have hplain : (text.flatMap fun c => [c]).length ≤ 5 * (Text.utf8 text).length :=
      length_flatMap_le fun c _ => by
        have hone := (length_utf8Char_pos c).1
        simp only [List.length_cons, List.length_nil]
        omega
    rw [List.flatMap_singleton'] at hplain
    rw [hof, ScalarStyle.render]
    omega
  · have hsingle : (text.flatMap quotedChar).length ≤ 5 * (Text.utf8 text).length :=
      length_flatMap_le fun c _ => by
        have hone := (length_utf8Char_pos c).1
        rw [quotedChar]
        split <;> simp only [List.length_cons, List.length_nil] <;> omega
    rw [hof, ScalarStyle.render, singleQuoted_of_isBreak hbreak, List.cons_append, List.length_cons,
      List.length_append, List.length_singleton]
    omega
  · have hdouble : (doubleQuoted text).length ≤ 5 * (Text.utf8 text).length :=
      length_flatMap_le fun c _ => by
        have hone := (length_utf8Char_pos c).1
        split
        · simp only [List.length_cons, List.length_nil]
          omega
        · exact length_escapeOf_le c
    rw [hof, ScalarStyle.render, List.cons_append, List.length_cons, List.length_append, List.length_singleton]
    omega
  · cases hno

/-! ### First characters -/

/-- A value on its own begins with the text: no property, no block, and no item or entry of a list or a map. -/
structure StartsSimple (text : List Char) : Prop where
  ne : text ≠ []
  stops : Stops text
  marker : isMarker text = false
  first : ∀ c ∈ text.head?, c ∉ ['&', '!', '|', '>']
  mark : ∀ c tail, text = c :: tail → c = '-' ∨ c = '?' → blankNext tail = false

theorem startsSimple_quote {c : Char} (h : c = '\'' ∨ c = '"') (rest : List Char) : StartsSimple (c :: rest) := by
  rcases h with rfl | rfl <;> constructor <;> simp [Stops, isBlank, isBreak, isMarker]

/-- A plain text does not look like a mark between documents. -/
theorem isMarker_append {text follow : List Char} (hmarks : hasMarks text = false)
    (hfollow : ∀ c ∈ follow.head?, c ≠ '-' ∧ c ≠ '.') : isMarker (text ++ follow) = false := by
  cases hmarker : isMarker (text ++ follow) with
  | false => rfl
  | true =>
    have hthree : ∃ c rest, (c = '-' ∨ c = '.') ∧ text ++ follow = c :: c :: c :: rest := by
      rw [isMarker.eq_def] at hmarker
      split at hmarker
      · exact ⟨'-', _, .inl rfl, ‹_›⟩
      · exact ⟨'.', _, .inr rfl, ‹_›⟩
      · cases hmarker
    obtain ⟨c, rest, hc, heq⟩ := hthree
    have hfirst : follow.head? ≠ some c := fun hhead => by
      have hother := hfollow c hhead
      exact hc.elim hother.1 hother.2
    -- the text has all three of the characters, as what follows it does not start with one
    rcases text with _ | ⟨a, _ | ⟨b, _ | ⟨d, text⟩⟩⟩ <;> simp only [List.nil_append, List.cons_append,
      List.cons.injEq] at heq
    · exact absurd (by rw [heq]; rfl) hfirst
    · exact absurd (by rw [heq.2]; rfl) hfirst
    · exact absurd (by rw [heq.2.2]; rfl) hfirst
    · obtain ⟨rfl, rfl, rfl, -⟩ := heq
      rcases hc with rfl | rfl <;> simp [hasMarks] at hmarks

theorem IsPlainText.startsSimple {text follow : List Char} (h : IsPlainText text)
    (hfollow : ∀ c ∈ follow.head?, c ≠ '-' ∧ c ≠ '.') : StartsSimple (text ++ follow) := by
  have hmarker := isMarker_append h.marks hfollow
  obtain ⟨c, rest, rfl, hindicator, hblank, hbreak, hnext, -⟩ := h.exists_head
  simp only [isIndicator, decide_eq_false_iff_not] at hindicator
  refine ⟨by simp, ?_, hmarker, ?_, ?_⟩
  · rintro d ⟨⟩
    exact ⟨hblank, hbreak, fun hd => hindicator (by simp [hd])⟩
  · rintro d ⟨⟩ hd
    refine hindicator ?_
    simp only [List.mem_cons, List.not_mem_nil, or_false] at hd
    rcases hd with rfl | rfl | rfl | rfl <;> simp
  · rintro d tail ⟨⟩ hd
    exact blankNext_append (hnext (hd.imp_right .inl))

theorem startsSimple_render {inKey : Bool} {text : List Char} (hstyle : ScalarStyle.of inKey text ≠ .literal)
    (indent : Nat) {follow : List Char} (hfollow : ∀ c ∈ follow.head?, c ≠ '-' ∧ c ≠ '.') :
    StartsSimple ((ScalarStyle.of inKey text).render indent text ++ follow) := by
  obtain ⟨hof, htext⟩ | ⟨hof, -⟩ | hof | ⟨hof, -⟩ := ScalarStyle.of_cases inKey text
  · rw [hof]
    exact htext.startsSimple hfollow
  · rw [hof]
    exact startsSimple_quote (.inl rfl) _
  · rw [hof]
    exact startsSimple_quote (.inr rfl) _
  · exact absurd hof hstyle

theorem stops_renderScalar (indent : Nat) (text follow : List Char) :
    Stops (renderScalar indent text ++ follow) := by
  rw [renderScalar, List.append_assoc]
  by_cases hstyle : ScalarStyle.of false text = .literal
  · rw [hstyle]
    rintro c ⟨⟩
    simp [isBlank, isBreak]
  · refine (startsSimple_render hstyle indent ?_).stops
    simp [ScalarStyle.lineEnd, hstyle]

theorem style_of_key (text : List Char) : ScalarStyle.of true text ≠ .literal := fun h => by
  cases (of_literal h).1

/-! ### Characters -/

theorem isAllowed_of_isPrintable {c : Char} (h : isPrintable c = true) : isAllowed c = true := by
  simp only [isPrintable, isAllowed, Bool.or_eq_true, Bool.and_eq_true, decide_eq_true_eq] at h ⊢
  omega

theorem isAllowed_of_mem_hexDigits {width n : Nat} {c : Char} (h : c ∈ hexDigits width n) : isAllowed c = true := by
  have hall : ∀ m < 16, isAllowed (Nat.digitChar m).toUpper = true := by decide
  rcases List.mem_append.mp h with h | h
  · obtain ⟨-, rfl⟩ := List.mem_replicate.mp h
    rfl
  · obtain ⟨d, hd, rfl⟩ := List.mem_map.mp h
    obtain ⟨m, hm, rfl⟩ := exists_of_mem_toDigits hd
    exact hall m hm

theorem isAllowed_of_escape? {e c : Char} (h : escape? e = some c) : isAllowed e = true := by
  rw [escape?.eq_def] at h
  split at h
  case h_19 => cases h
  all_goals rfl

theorem all_escapeOf (c : Char) : (escapeOf c).all isAllowed = true := by
  have hslash : isAllowed '\\' = true := rfl
  obtain ⟨e, heq, he⟩ | ⟨mark, width, heq, hmark, -⟩ := escapeOf_cases c
  · simp [heq, isAllowed_of_escape? he, hslash]
  · have hdigits : (hexDigits width c.toNat).all isAllowed = true :=
      List.all_eq_true.mpr fun d hd => isAllowed_of_mem_hexDigits hd
    have hallowed : isAllowed mark = true := by
      obtain ⟨rfl, -⟩ | ⟨rfl, -⟩ | ⟨rfl, -⟩ := hmark <;> rfl
    rw [heq, List.all_cons, List.all_cons, hslash, hallowed, hdigits]
    rfl

theorem all_indentation (indent : Nat) : (List.replicate indent ' ').all isAllowed = true := by
  simp [isAllowed]

/-- A text in single quotes has characters of documents only. -/
theorem all_singleQuoted {text : List Char} (h : ∀ c ∈ text, isPrintable c = true) (indent : Nat)
    (afterBreak : Bool) : (singleQuoted indent afterBreak text).all isAllowed = true := by
  have hquote : isAllowed '\'' = true := rfl
  induction text generalizing afterBreak with
  | nil =>
    rw [singleQuoted]
    split
    · exact all_indentation indent
    · rfl
  | cons c text ih =>
    have hc := isAllowed_of_isPrintable (h c List.mem_cons_self)
    have htext := ih fun d hd => h d (List.mem_cons_of_mem c hd)
    have hspace : (if afterBreak && c ≠ ' ' then List.replicate indent ' ' else []).all isAllowed = true := by
      split
      · exact all_indentation indent
      · rfl
    have hchar : (if c = '\'' then ['\'', '\''] else [c]).all isAllowed = true := by
      split
      · rfl
      · simp [hc]
    rw [singleQuoted]
    split
    · rw [List.all_cons, hc, htext true]
      rfl
    · rw [List.all_append, List.all_append, hspace, hchar, htext]
      rfl

theorem all_literalLines {text : List Char} (h : ∀ c ∈ text, isPrintable c = true) (indent : Nat)
    (afterBreak : Bool) : (literalLines indent afterBreak text).all isAllowed = true := by
  induction text generalizing afterBreak with
  | nil => rfl
  | cons c text ih =>
    have hc := isAllowed_of_isPrintable (h c List.mem_cons_self)
    have htext := ih fun d hd => h d (List.mem_cons_of_mem c hd)
    have hspace : (if afterBreak then List.replicate indent ' ' else []).all isAllowed = true := by
      split
      · exact all_indentation indent
      · rfl
    rw [literalLines]
    split
    · rw [List.all_cons, hc, htext true]
      rfl
    · rw [List.all_append, List.all_cons, hspace, hc, htext false]
      rfl

theorem all_literalMarks (text : List Char) : (literalMarks text).all isAllowed = true := by
  rw [literalMarks, List.all_append, Bool.and_eq_true]
  constructor
  · split <;> rfl
  · split
    · rfl
    · split <;> rfl
    · split
      · rfl
      · split <;> rfl

theorem all_doubleQuoted (text : List Char) : (doubleQuoted text).all isAllowed = true := by
  rw [doubleQuoted, List.all_flatMap, List.all_eq_true]
  intro c hc
  split
  · rename_i hraw
    simp only [Bool.and_eq_true] at hraw
    simp [isAllowed_of_isPrintable hraw.1.1.1]
  · exact all_escapeOf c

/-- What is written for a scalar has characters of documents only. -/
theorem all_render (inKey : Bool) (text : List Char) (indent : Nat) :
    ((ScalarStyle.of inKey text).render indent text).all isAllowed = true := by
  have hsingle : isAllowed '\'' = true := rfl
  have hdouble : isAllowed '"' = true := rfl
  have hbar : isAllowed '|' = true := rfl
  have hline : isAllowed '\n' = true := rfl
  obtain ⟨hof, htext⟩ | ⟨hof, htext⟩ | hof | ⟨hof, -, -, hprint⟩ := ScalarStyle.of_cases inKey text
  · rw [hof]
    exact List.all_eq_true.mpr fun c hc => isAllowed_of_isPrintable (htext.printable c hc)
  · simp [hof, ScalarStyle.render, all_singleQuoted htext.printable, hsingle]
  · simp [hof, ScalarStyle.render, all_doubleQuoted, hdouble]
  · simp [hof, ScalarStyle.render, all_literalMarks, all_literalLines hprint, hbar, hline]

theorem all_renderScalar (indent : Nat) (text : List Char) : (renderScalar indent text).all isAllowed = true := by
  have hlineEnd : ((ScalarStyle.of false text).lineEnd text).all isAllowed = true := by
    rw [ScalarStyle.lineEnd]
    split <;> rfl
  rw [renderScalar, List.all_append, all_render, hlineEnd]
  rfl

theorem all_renderKey (indent : Nat) (text : List Char) : (renderKey indent text).all isAllowed = true := by
  have hcolon : isAllowed ':' = true := rfl
  have hmark : isAllowed '?' = true := rfl
  have hblank : isAllowed ' ' = true := rfl
  rw [renderKey]
  split
  · simp [all_render, hcolon]
  · simp [all_renderScalar, indentation, hcolon, hmark, hblank]

end HelpAudit.Yaml
