import HelpAudit.Proofs.ConfigTrees
import HelpAudit.Proofs.JsonText
import HelpAudit.Proofs.YamlStyles

/-! Values in YAML documents. A value stands behind the colon of its entry, and what follows it is indented no
    deeper than the entry. `IsReadBack` says that such a value is read back, and that the place behind it is
    the one that was expected; texts, truth values and numbers are. -/

namespace HelpAudit.Yaml

/-! ### Values on their own -/

section Starts

variable {text : List Char} {above column line : Nat} {fresh inMap : Bool}

theorem StartsSimple.atEnd (h : StartsSimple text) : Cursor.atEnd ⟨text, line, column, fresh, []⟩ = false := by
  simp [Cursor.atEnd, h.ne, h.marker]

theorem StartsSimple.atMark (h : StartsSimple text) {mark : Char} (hmark : mark = '-' ∨ mark = '?') :
    Cursor.atMark mark ⟨text, line, column, fresh, []⟩ = false := by
  obtain ⟨c, tail, rfl⟩ := List.exists_cons_of_ne_nil h.ne
  simp only [Cursor.atMark, Bool.and_eq_false_iff, decide_eq_false_iff_not]
  by_cases hc : c = mark
  · exact .inr (h.mark c tail rfl (hc ▸ hmark))
  · exact .inl hc

theorem properties_of_head {cursor : Cursor} (h : ∀ c ∈ cursor.rest.head?, c ≠ '&' ∧ c ≠ '!') :
    properties false cursor = some ({}, cursor) := by
  have hanchor : cursor.isAt '&' = false := by
    simp only [Cursor.isAt, decide_eq_false_iff_not]
    exact fun hc => (h _ hc).1 rfl
  have htag : cursor.isAt '!' = false := by
    simp only [Cursor.isAt, decide_eq_false_iff_not]
    exact fun hc => (h _ hc).2 rfl
  simp [properties, hanchor, htag]

theorem StartsSimple.properties (h : StartsSimple text) :
    properties false ⟨text, line, column, fresh, []⟩ = some ({}, ⟨text, line, column, fresh, []⟩) :=
  properties_of_head fun c hc => by
    have hfirst := h.first c hc
    simp only [List.mem_cons, not_or] at hfirst
    exact ⟨hfirst.1, hfirst.2.1⟩

/-- A value without a colon behind it. -/
theorem blockValue_value (h : StartsSimple text) (habove : above ≤ column) {steps : Nat} {value : Yaml}
    {stop : Cursor} (hvalue : simple steps false above ⟨text, line, column, fresh, []⟩ = some (value, stop))
    (hcolon : colonAfter stop = none) :
    blockValue (steps + 1) above inMap ⟨text, line, column, fresh, []⟩ = some (value, stop) := by
  have hinside : ¬ column < above := Nat.not_lt.mpr habove
  obtain ⟨c, tail, rfl⟩ := List.exists_cons_of_ne_nil h.ne
  have hfirst := h.first c rfl
  simp only [List.mem_cons, not_or] at hfirst
  simp only [blockValue, h.atEnd, hinside, h.properties, h.atMark, true_or, or_true, Cursor.named,
    decide_false, Bool.or_self, Bool.false_and, Bool.false_eq_true, if_false, Option.bind_eq_bind,
    Option.bind_some, hvalue, hcolon]
  split <;> simp_all

/-- A key with its colon behind it starts a map. -/
theorem blockValue_key (h : StartsSimple text) (habove : above ≤ column) {steps : Nat} {key : Yaml}
    {stop colon : Cursor} (hkey : simple steps false above ⟨text, line, column, true, []⟩ = some (key, stop))
    (hcolon : colonAfter stop = some colon)
    (hshort : Cursor.canBeKey ⟨text, line, column, true, []⟩ colon = true) :
    blockValue (steps + 1) above inMap ⟨text, line, column, true, []⟩ =
      (blockAfterKey steps column key colon).map fun found => (.map found.1, found.2) := by
  have hinside : ¬ column < above := Nat.not_lt.mpr habove
  obtain ⟨c, tail, rfl⟩ := List.exists_cons_of_ne_nil h.ne
  have hfirst := h.first c rfl
  simp only [List.mem_cons, not_or] at hfirst
  simp only [blockValue, h.atEnd, hinside, h.properties, h.atMark, true_or, or_true, Cursor.named,
    decide_false, Bool.or_self, Bool.false_and, Bool.false_eq_true, if_false, Option.bind_eq_bind,
    Option.bind_some, hkey, hcolon]
  split
  · rename_i hblock
    exact absurd (List.cons.inj hblock).1 hfirst.2.2.1
  · rename_i hblock
    exact absurd (List.cons.inj hblock).1 hfirst.2.2.2.1
  · simp only [if_true, hshort, Bool.not_true, Bool.or_self, Bool.false_eq_true, if_false,
      Option.map_eq_bind]
    rfl

theorem blockValue_block {rest : List Char} {found : List Char} {tail : List Char} {line₁ column₁ : Nat} {fresh₁ : Bool} {steps : Nat}
    (habove : above ≤ column) (h : block true above line rest = some (found, ⟨tail, line₁, column₁, fresh₁, []⟩)) :
    blockValue (steps + 1) above inMap ⟨'|' :: rest, line, column, fresh, []⟩ =
      some (.scalar found false, ⟨tail, line₁, column₁, fresh₁, []⟩) := by
  have hinside : ¬ column < above := Nat.not_lt.mpr habove
  have hproperties : properties false ⟨'|' :: rest, line, column, fresh, []⟩ = some ({}, _) :=
    properties_of_head (by simp)
  simp [blockValue, Cursor.atEnd, isMarker, hinside, hproperties, Cursor.atMark, Cursor.named, h, scalarAt]

end Starts

/-! ### Scalars -/

section Scalars

variable {rest : List Char} {indent column behind : Nat}

theorem blockValue_plain {text : List Char} {fresh inMap : Bool} (htext : IsPlainText text) (hcolumn : indent < column)
    (hbehind : behind ≤ indent) (hrest : Stops rest) (steps line : Nat) :
    blockValue (steps + 2) (indent + 1) inMap
        ⟨text ++ '\n' :: (List.replicate behind ' ' ++ rest), line, column, fresh, []⟩ =
      some (.scalar text true, ⟨rest, line + 1, behind, true, []⟩) := by
  have hstop : plain false (indent + 1) (.blanks []) line (column + text.length)
      ('\n' :: (List.replicate behind ' ' ++ rest)) = _ := plain_line (Nat.lt_succ_of_le hbehind) hrest
  have hread := simple_plain htext (show indent + 1 ≤ column + 1 by omega) rfl hstop steps fresh
  refine blockValue_value (htext.startsSimple (by simp)) hcolumn hread ?_
  simp [colonAfter]

/-- A written text is read as a value, in whichever style. -/
theorem blockValue_renderScalar (hcolumn : indent < column) (hbehind : behind ≤ indent) (hrest : Stops rest)
    (text : List Char) (inMap fresh : Bool) (steps line : Nat) :
    ∃ plain stop, blockValue (steps + 2) (indent + 1) inMap
        ⟨renderScalar indent text ++ (List.replicate behind ' ' ++ rest), line, column, fresh, []⟩ =
      some (.scalar text plain, stop) ∧ IsBehind stop behind rest := by
  by_cases hstyle : ScalarStyle.of false text = .literal
  · obtain ⟨-, hne, hprint⟩ := of_literal hstyle
    obtain ⟨line₁, hread⟩ := block_text hprint hne hbehind hrest line
    have hrender : renderScalar indent text ++ (List.replicate behind ' ' ++ rest) =
        '|' :: (literalMarks text ++ '\n' :: (literalLines (indent + 2) true text ++
          (ScalarStyle.literal.lineEnd text ++ (List.replicate behind ' ' ++ rest)))) := by
      simp [renderScalar, hstyle, ScalarStyle.render]
    rw [hrender]
    exact ⟨false, _, blockValue_block hcolumn hread, .inr ⟨line₁, rfl⟩⟩
  · obtain ⟨plain, stop, hread, hstop⟩ := simple_renderScalar hstyle (show indent + 1 ≤ column + 1 by omega)
      (Nat.lt_succ_of_le hbehind) hrest indent steps line fresh
    have hstarts : StartsSimple (renderScalar indent text ++ (List.replicate behind ' ' ++ rest)) := by
      rw [renderScalar, List.append_assoc]
      refine startsSimple_render hstyle indent ?_
      simp [ScalarStyle.lineEnd, hstyle]
    exact ⟨plain, stop, blockValue_value hstarts hcolumn hread (hstop.colonAfter hrest), hstop⟩

end Scalars

/-! ### Values behind a colon -/

/-- What may follow an entry that is indented by `indent`: a text that is indented by `behind`, and no item of
    a list. -/
structure Follows (indent behind : Nat) (rest : List Char) : Prop where
  behind_le : behind ≤ indent
  stops : Stops rest
  noItem : ∀ tail, rest = '-' :: tail → blankNext tail = false

/-- A value stands in an entry behind the colon in the given column, which may be `alone` on its line. -/
structure IsEntry (indent column behind : Nat) (alone : Bool) (rest : List Char) : Prop
    extends Follows indent behind rest where
  indent_le : indent ≤ column
  of_alone : alone = true → column = indent

/-- A tree is read back from what is written for it behind a colon. -/
structure IsReadBack (tree : Json) : Prop where
  allowed : ∀ indent alone, (renderValue indent alone tree).all isAllowed = true
  read : ∀ {indent column behind : Nat} {alone : Bool} {rest : List Char}, IsEntry indent column behind alone rest →
    ∀ (steps line : Nat), 2 * (renderValue indent alone tree).length ≤ steps →
      ∃ value stop, blockValue steps (indent + 1) true (skipFrom false [] alone false line (column + 1)
          (renderValue indent alone tree ++ (List.replicate behind ' ' ++ rest))) = some (value, stop) ∧
        DataFormat.yaml.Denotes tree value ∧ IsBehind stop behind rest

theorem skipFrom_blank {text : List Char} (h : Stops text) (fresh : Bool) (line column : Nat) :
    skipFrom false [] fresh false line column (' ' :: text) = ⟨text, line, column + 1, fresh, []⟩ := by
  rw [← skipFrom_stop h]
  exact skipFrom_indentation fresh line column 1 text

theorem isReadBack_str (text : String) : IsReadBack (.str text) := by
  refine ⟨fun indent alone => all_renderScalar indent text.toList, ?_⟩
  intro indent column behind alone rest h steps line hsteps
  rw [renderValue, List.length_cons] at hsteps
  obtain ⟨steps, rfl⟩ := Nat.exists_eq_add_of_le' (show 2 ≤ steps by omega)
  have hcolumn := h.indent_le
  obtain ⟨plain, stop, hread, hstop⟩ :=
    blockValue_renderScalar (show indent < column + 1 + 1 by omega) h.behind_le h.stops text.toList true alone
      steps line
  refine ⟨.scalar text.toList plain, stop, ?_, ?_, hstop⟩
  · rw [renderValue, List.cons_append, skipFrom_blank (stops_renderScalar indent _ _)]
    exact hread
  · exact congrArg some String.ofList_toList

theorem isReadBack_plain {tree : Json} {text : List Char} (htext : IsPlainText text)
    (hrender : ∀ indent alone, renderValue indent alone tree = ' ' :: text ++ ['\n'])
    (hdenotes : DataFormat.yaml.Denotes tree (.scalar text true)) : IsReadBack tree := by
  have hallowed : ∀ c ∈ text, isAllowed c = true := fun c hc => isAllowed_of_isPrintable (htext.printable c hc)
  have hblank : isAllowed ' ' = true := rfl
  have hline : isAllowed '\n' = true := rfl
  refine ⟨fun indent alone => by simpa [hrender, hblank, hline] using hallowed, ?_⟩
  intro indent column behind alone rest h steps line hsteps
  have hlength : (renderValue indent alone tree).length = text.length + 2 := by simp [hrender]
  obtain ⟨steps, rfl⟩ := Nat.exists_eq_add_of_le' (show 2 ≤ steps by omega)
  have hcolumn := h.indent_le
  refine ⟨.scalar text true, _, ?_, hdenotes, .inr ⟨line + 1, rfl⟩⟩
  rw [hrender, List.cons_append, List.cons_append, List.append_assoc, List.singleton_append,
    skipFrom_blank (htext.startsSimple (by simp)).stops]
  exact blockValue_plain htext (by omega) h.behind_le h.stops steps line

theorem isReadBack_bool (b : Bool) : IsReadBack (.bool b) := by
  have htext : IsPlainText (if b then "true" else "false").toList := by
    cases b <;> exact isPlainText_of_canBePlain (by decide) (by decide)
  have hdenotes : DataFormat.yaml.Denotes (.bool b) (.scalar (if b then "true" else "false").toList true) := by
    cases b <;> rfl
  exact isReadBack_plain htext (fun _ _ => rfl) hdenotes

/-! ### Numbers -/

/-- Digits can be written as a plain text. -/
theorem isPlainText_of_isDigit {digits : List Char} (hne : digits ≠ [])
    (h : ∀ c ∈ digits, c.isDigit = true) : IsPlainText digits := by
  -- every character that means something in a document is no digit
  have hother : ∀ {c d : Char}, c ∈ digits → d.isDigit = false → c ≠ d :=
    fun hc hd => Json.ne_of_isDigit (h _ hc) hd
  have hinner : ∀ afterBlank, hasInnerMark afterBlank digits = false := by
    clear hne h
    induction digits with
    | nil => exact fun _ => rfl
    | cons c digits ih =>
      intro afterBlank
      have hc : ∀ {d : Char}, d.isDigit = false → c ≠ d := fun hd => hother List.mem_cons_self hd
      rw [hasInnerMark, ih fun hc hd => hother (List.mem_cons_of_mem _ hc) hd]
      simp [hc]
  have hbreak : ∀ c ∈ digits, isBreak c = false := by
    intro c hc
    simp [isBreak, hother hc]
  refine ⟨hne, hbreak, ?_, ?_, ?_, ?_⟩
  · intro c hc
    have hrange := Char.isDigit_iff_toNat.mp (h c hc)
    simp only [Char.reduceToNat] at hrange
    simp only [isPrintable, Bool.or_eq_true, Bool.and_eq_true, decide_eq_true_eq]
    omega
  · exact fun hhead => hother (List.mem_of_head? hhead) rfl rfl
  · exact fun hlast => hother (List.mem_of_getLast? hlast) rfl rfl
  · obtain ⟨c, tail, rfl⟩ := List.exists_cons_of_ne_nil hne
    have hc : ∀ {d : Char}, d.isDigit = false → c ≠ d := fun hd => hother List.mem_cons_self hd
    have hindicator : isIndicator c = false := by simp [isIndicator, hc]
    have hcomm : ∀ {d : Char}, d.isDigit = false → d ≠ c := fun hd => (hc hd).symm
    simp [hasMarks, hindicator, hinner, List.isPrefixOf, hc, hcomm]

theorem digit?_of_isDigit {c : Char} (h : c.isDigit = true) : digit? 10 c = some (c.toNat - 48) := by
  have hrange := Char.isDigit_iff_toNat.mp h
  simp only [Char.reduceToNat] at hrange
  have hlt : c.toNat - 48 < 10 := by omega
  simp [digit?, h, hlt]

theorem natural?_of_isDigit {digits : List Char} (hne : digits ≠ []) (h : ∀ c ∈ digits, c.isDigit = true) :
    natural? 10 digits = some (Json.digitsValue digits) := by
  have hplus : ∀ tail, digits ≠ '+' :: tail := by
    rintro tail rfl
    cases h '+' List.mem_cons_self
  have hfold : ∀ value, digits.foldlM (fun value c => (digit? 10 c).map (value * 10 + ·)) value =
      some (digits.foldl (fun n c => n * 10 + (c.toNat - 48)) value) := by
    clear hne hplus
    induction digits with
    | nil => exact fun _ => rfl
    | cons c digits ih =>
      intro value
      rw [List.foldlM_cons, digit?_of_isDigit (h c List.mem_cons_self)]
      exact ih (fun d hd => h d (List.mem_cons_of_mem c hd)) _
  simp only [natural?]
  rw [if_neg (by simpa using hne), hfold, Json.digitsValue]

theorem hasLeadingZeros_natChars (n : Nat) : hasLeadingZeros (Json.natChars n) = false := by
  rcases Nat.eq_zero_or_pos n with rfl | hpos
  · rfl
  · obtain ⟨c, cs, hcs, hc⟩ := Json.head_natChars_ne_zero hpos
    have hdigit : c.isDigit = true := Json.isDigit_of_mem_natChars (hcs ▸ List.mem_cons_self)
    have hsign : dropSign (c :: cs) = c :: cs := by
      simp [dropSign, Json.ne_of_isDigit hdigit]
    simp [hcs, hasLeadingZeros, hsign, hc]

theorem marked?_of_isDigit {digits : List Char} (h : ∀ c ∈ digits, c.isDigit = true) : marked? digits = none := by
  simp only [marked?]
  split
  · cases h 'x' (by simp)
  · cases h 'o' (by simp)
  · cases h 'b' (by simp)
  · rfl

theorem unsigned?_natChars (n : Nat) : unsigned? (Json.natChars n) = some n := by
  have hdigit : ∀ c ∈ Json.natChars n, c.isDigit = true := fun c hc => Json.isDigit_of_mem_natChars hc
  have hplus : ∀ tail, Json.natChars n ≠ '+' :: tail := by
    intro tail heq
    cases hdigit '+' (heq ▸ List.mem_cons_self)
  have hhead : (Json.natChars n).head? ≠ some '+' := fun hhead => by
    cases hdigit '+' (List.mem_of_head? hhead)
  have hvalue : natural? 10 (Json.natChars n) = some n := by
    have hne : Json.natChars n ≠ [] := Nat.toDigits_ne_nil
    rw [natural?_of_isDigit hne hdigit, Json.digitsValue_natChars]
  simp [unsigned?, marked?_of_isDigit hdigit, hhead, hasLeadingZeros_natChars, hvalue]

theorem isNullWord_of_isDigit {digits : List Char} (hne : digits ≠ []) (h : ∀ c ∈ digits, c.isDigit = true) :
    isNullWord digits = false := by
  obtain ⟨c, digits, rfl⟩ := List.exists_cons_of_ne_nil hne
  have hc : ∀ {d : Char}, d.isDigit = false → c ≠ d := fun hd => Json.ne_of_isDigit (h c List.mem_cons_self) hd
  simp only [isNullWord, decide_eq_false_iff_not]
  intro hmem
  simp [← String.toList_inj, hc] at hmem

theorem isReadBack_nat {n : Nat} (h : n < Json.wordLimit) : IsReadBack (.nat n) := by
  have hne : Json.natChars n ≠ [] := Nat.toDigits_ne_nil
  have hdigit : ∀ c ∈ Json.natChars n, c.isDigit = true := fun c hc => Json.isDigit_of_mem_natChars hc
  have hword : word? (.scalar (Json.natChars n) true) = some n := by
    simp only [word?, unsigned?_natChars, if_pos h]
  have hnull : isNull (.scalar (Json.natChars n) true) = false := by
    simp [isNull, hne, isNullWord_of_isDigit hne hdigit]
  have hdenotes : DataFormat.yaml.Denotes (.nat n) (.scalar (Json.natChars n) true) := ⟨hword, hnull⟩
  exact isReadBack_plain (isPlainText_of_isDigit hne hdigit) (fun _ _ => rfl) hdenotes

end HelpAudit.Yaml
