import HelpAudit.Proofs.JsonText
import HelpAudit.Proofs.TomlStrings

/-! The lines of a TOML document are read back: entries, whose values are texts, numbers, truth values or
    lists of texts, and the headers of tables. `HasLines` says what the lines of a text are; one statement
    for each kind of line puts it in front of a text. -/

namespace HelpAudit.Toml

/-- The first number that takes more than 64 bits with a sign. -/
def intLimit : Nat := 0x8000000000000000

/-! ### Values -/

/-- The tree is written as a value on the right of an equals sign, and read as the other one. -/
inductive IsValue : Json → Toml → Prop where
  | str (text : String) : IsValue (.str text) (.str text)
  | nat {n : Nat} : n < intLimit → IsValue (.nat n) (.int n)
  | bool (b : Bool) : IsValue (.bool b) (.bool b)
  | strings (texts : List String) : IsValue (.strings texts) (.arr (texts.map .str))

theorem exists_head_renderString (text : List Char) :
    ∃ c cs, renderString text = c :: cs ∧ (c = '"' ∨ c = '\'') := by
  rw [renderString]
  cases StringForm.of text with
  | basic => exact ⟨_, _, rfl, .inl rfl⟩
  | literal => exact ⟨_, _, rfl, .inr rfl⟩
  | longBasic => exact ⟨_, _, rfl, .inl rfl⟩
  | longLiteral => exact ⟨_, _, rfl, .inr rfl⟩

theorem value_renderString (steps : Nat) (text : String) {rest : List Char} (hrest : EndsString rest) :
    value (steps + 1) (renderString text.toList ++ rest) = some (.str text, rest) := by
  have hread := string_renderString text.toList hrest
  obtain ⟨c, cs, hcs, hc⟩ := exists_head_renderString text.toList
  rw [hcs, List.cons_append] at hread ⊢
  rcases hc with rfl | rfl
  · simp only [value, hread, Option.map_some, String.ofList_toList]
  · simp only [value, hread, Option.map_some, String.ofList_toList]

theorem digits?_of_isDigit {digits : List Char} (hne : digits ≠ []) (h : ∀ c ∈ digits, c.isDigit = true) :
    digits? Char.isDigit digits = some digits := by
  induction digits with
  | nil => exact absurd rfl hne
  | cons c digits ih =>
    have hc := h c List.mem_cons_self
    cases digits with
    | nil => rw [digits?, if_pos hc]
    | cons d digits =>
      have hd := h d (by simp)
      have hrest := ih (by simp) (fun e he => h e (List.mem_cons_of_mem c he))
      rw [digits?, if_pos hc, hrest, Option.map_some]
      · simp
      · rintro rest hslash
        cases hslash
        cases hd

theorem valueIn_ten {digits : List Char} (h : ∀ c ∈ digits, c.isDigit = true) :
    valueIn 10 digits = Json.digitsValue digits := by
  refine List.foldl_ext _ _ 0 fun value c hc => ?_
  rw [if_pos (h c hc)]
  rfl

theorem inRange_natCast {n : Nat} (h : n < intLimit) : inRange (n : Int) = some (n : Int) := by
  rw [inRange, if_pos]
  constructor
  · exact Int.le_trans (by decide) (Int.natCast_nonneg n)
  · exact Int.ofNat_lt.mpr h

/-- A written number has no leading zero, so its digits are taken. -/
theorem decimalDigits?_natChars (n : Nat) :
    decimalDigits? (Json.natChars n) = some (Json.natChars n) := by
  have hdigits : digits? Char.isDigit (Json.natChars n) = some (Json.natChars n) :=
    digits?_of_isDigit Nat.toDigits_ne_nil fun c hc => Json.isDigit_of_mem_natChars hc
  rw [decimalDigits?, hdigits]
  rcases Nat.eq_zero_or_pos n with rfl | hpos
  · rfl
  · obtain ⟨c, cs, hcs, hc⟩ := Json.head_natChars_ne_zero hpos
    rw [hcs]
    split
    · rename_i heq
      exact absurd (List.cons.inj (Option.some.inj heq)).1 hc
    · rfl

theorem integer?_of_isDigit {digits : List Char} (h : ∀ c ∈ digits, c.isDigit = true) :
    integer? digits = (decimalDigits? digits).bind fun found => inRange (valueIn 10 found) := by
  have hsign : splitSign digits = (false, digits) := by
    rw [splitSign.eq_def]
    split
    · exact absurd (h '-' List.mem_cons_self) (by decide)
    · exact absurd (h '+' List.mem_cons_self) (by decide)
    · rfl
  rw [integer?.eq_def]
  split
  · exact absurd (h 'x' (by simp)) (by decide)
  · exact absurd (h 'o' (by simp)) (by decide)
  · exact absurd (h 'b' (by simp)) (by decide)
  · simp only [hsign, Option.bind_eq_bind]
    rfl

theorem integer?_natChars {n : Nat} (h : n < intLimit) : integer? (Json.natChars n) = some (n : Int) := by
  have hdigit : ∀ c ∈ Json.natChars n, c.isDigit = true := fun c hc => Json.isDigit_of_mem_natChars hc
  rw [integer?_of_isDigit hdigit, decimalDigits?_natChars, Option.bind_some, valueIn_ten hdigit,
    Json.digitsValue_natChars, inRange_natCast h]

theorem isNumberChar_of_isDigit {c : Char} (h : c.isDigit = true) : isNumberChar c = true := by
  simp [isNumberChar, Char.isAlphanum, h]

/-- A written number is read as a value, up to the end of its line. -/
theorem value_natChars (steps : Nat) {n : Nat} (h : n < intLimit) (rest : List Char) :
    value (steps + 1) (Json.natChars n ++ '\n' :: rest) = some (.int n, '\n' :: rest) := by
  have hdigit : ∀ c ∈ Json.natChars n, c.isDigit = true := fun c hc => Json.isDigit_of_mem_natChars hc
  have hnumber : ∀ c ∈ Json.natChars n, isNumberChar c = true :=
    fun c hc => isNumberChar_of_isDigit (hdigit c hc)
  have htext : numberText (Json.natChars n ++ '\n' :: rest) = (Json.natChars n, '\n' :: rest) := by
    simp only [numberText, List.takeWhile_append_of_pos hnumber, List.dropWhile_append_of_pos hnumber]
    simp [isNumberChar]
  have hscalar : scalar (Json.natChars n ++ '\n' :: rest) = some (.int n, '\n' :: rest) := by
    have htrue : Json.natChars n ≠ "true".toList := fun heq =>
      absurd (hdigit 't' (by rw [heq]; simp)) (by decide)
    have hfalse : Json.natChars n ≠ "false".toList := fun heq =>
      absurd (hdigit 'f' (by rw [heq]; simp)) (by decide)
    simp only [scalar, htext, integer?_natChars h, if_neg htrue, if_neg hfalse, Option.pure_def]
  obtain ⟨c, cs, hcs⟩ := List.exists_cons_of_ne_nil (Nat.toDigits_ne_nil (n := n) (b := 10))
  have hc : c.isDigit = true := hdigit c (by rw [Json.natChars, hcs]; simp)
  rw [Json.natChars, hcs, List.cons_append] at hscalar ⊢
  rw [value, hscalar]
  -- the other kinds of values start with characters that are no digits
  all_goals
    intro tail heq
    rw [(List.cons.inj heq).1] at hc
    cases hc

theorem value_bool (steps : Nat) (b : Bool) (rest : List Char) :
    value (steps + 1) ((if b then "true" else "false").toList ++ '\n' :: rest) =
      some (.bool b, '\n' :: rest) := by
  cases b <;> rfl

theorem skipLines_of_ne {c : Char} (h : c ≠ '\n' ∧ c ≠ '\r' ∧ c ≠ ' ' ∧ c ≠ '\t' ∧ c ≠ '#')
    (tail : List Char) : skipLines false (c :: tail) = some (c :: tail) := by
  rw [skipLines.eq_def]
  split <;> simp_all [isBlank]

theorem skipLines_renderString (text rest : List Char) :
    skipLines false (renderString text ++ rest) = some (renderString text ++ rest) := by
  obtain ⟨c, cs, hcs, hc⟩ := exists_head_renderString text
  rw [hcs, List.cons_append]
  rcases hc with rfl | rfl
  · exact skipLines_of_ne (by decide) _
  · exact skipLines_of_ne (by decide) _

theorem endsString_cons {c : Char} (h : c ≠ '"' ∧ c ≠ '\'') (rest : List Char) : EndsString (c :: rest) := by
  rintro d ⟨⟩
  exact h

/-- One item and a comma. -/
theorem items_comma {steps : Nat} {text : String} {before rest others : List Char} {found : List Toml}
    (hskip : skipLines false before = some (renderString text.toList ++ ',' :: others))
    (hothers : items (steps + 1) others = some (found, rest)) :
    items (steps + 2) before = some (.str text :: found, rest) := by
  have hvalue := value_renderString steps text (endsString_cons (c := ',') (by decide) others)
  obtain ⟨c, cs, hcs, hc⟩ := exists_head_renderString text.toList
  rw [hcs, List.cons_append] at hskip hvalue
  have hclose : c ≠ ']' := by rcases hc with rfl | rfl <;> decide
  rw [items]
  simp [hskip, hclose, hvalue, skipLines_of_ne (c := ',') (by decide), hothers]

/-- One item without a comma. -/
theorem items_single (steps : Nat) (text : String) (rest : List Char) (h : 0 < steps) :
    items (steps + 1) (renderString text.toList ++ ']' :: rest) = some ([.str text], rest) := by
  obtain ⟨fewer, rfl⟩ : ∃ fewer, steps = fewer + 1 := ⟨steps - 1, by omega⟩
  have hvalue := value_renderString fewer text (endsString_cons (c := ']') (by decide) rest)
  have hskip := skipLines_renderString text.toList (']' :: rest)
  obtain ⟨c, cs, hcs, hc⟩ := exists_head_renderString text.toList
  rw [hcs, List.cons_append] at hskip hvalue ⊢
  have hclose : c ≠ ']' := by rcases hc with rfl | rfl <;> decide
  rw [items]
  simp [hskip, hclose, hvalue, skipLines_of_ne (c := ']') (by decide)]

/-- Items that stand on a line each. -/
theorem items_onLines (texts : List String) (rest : List Char) (steps : Nat) (h : texts.length < steps) :
    items steps ('\n' :: (renderItems true (texts.map .str) ++ ']' :: rest)) =
      some (texts.map .str, rest) := by
  induction texts generalizing steps with
  | nil =>
    obtain ⟨fewer, rfl⟩ : ∃ fewer, steps = fewer + 1 := ⟨steps - 1, by omega⟩
    rfl
  | cons text texts ih =>
    rw [List.length_cons] at h
    obtain ⟨fewer, rfl⟩ : ∃ fewer, steps = fewer + 2 := ⟨steps - 2, by omega⟩
    refine items_comma ?_ (ih (fewer + 1) (by omega))
    rw [List.map_cons, renderItems, if_pos rfl, renderValue]
    simp only [List.append_assoc]
    exact skipLines_renderString _ _

/-- A written list of texts is read as the value it is, given enough steps. -/
theorem value_strings (texts : List String) (rest : List Char) {steps : Nat}
    (h : texts.length + 1 < steps) :
    value steps (renderValue (.strings texts) ++ '\n' :: rest) =
      some (.arr (texts.map .str), '\n' :: rest) := by
  obtain ⟨fewer, rfl⟩ : ∃ fewer, steps = fewer + 2 := ⟨steps - 2, by omega⟩
  rw [Json.strings, renderValue]
  split
  · rename_i hshort
    rcases texts with _ | ⟨text, _ | ⟨other, texts⟩⟩
    · rfl
    · have hitems := items_single fewer text ('\n' :: rest)
        (by simpa using h)
      simp only [List.map_cons, List.map_nil, renderItems, renderValue, Bool.false_eq_true, if_false,
        List.append_nil, List.cons_append, List.append_assoc, List.nil_append]
      rw [value, hitems]
      rfl
    · simp only [List.length_map, List.length_cons] at hshort
      omega
  · have hitems := items_onLines texts ('\n' :: rest) (fewer + 1) (by omega)
    simp only [List.cons_append, List.nil_append, List.append_assoc]
    rw [value, hitems]
    rfl

theorem length_le_renderItems (onLines : Bool) (texts : List String) :
    texts.length ≤ (renderItems onLines (texts.map .str)).length := by
  induction texts with
  | nil => exact Nat.le_refl 0
  | cons text texts ih =>
    obtain ⟨c, cs, hcs, -⟩ := exists_head_renderString text.toList
    rw [List.map_cons, renderItems, renderValue, hcs]
    cases onLines <;> simp <;> omega

theorem length_lt_renderValue (texts : List String) :
    texts.length < (renderValue (.strings texts)).length := by
  rw [Json.strings, renderValue]
  split
  · have hle := length_le_renderItems false texts
    simp only [List.length_append, List.length_cons]
    omega
  · have hle := length_le_renderItems true texts
    simp only [List.length_append, List.length_cons]
    omega

/-- Every value is read back at the end of a line. -/
theorem value_renderValue {tree : Json} {found : Toml} (h : IsValue tree found) (rest : List Char)
    {steps : Nat} (hsteps : (renderValue tree).length + 1 ≤ steps) :
    value steps (renderValue tree ++ '\n' :: rest) = some (found, '\n' :: rest) := by
  obtain ⟨fewer, rfl⟩ : ∃ fewer, steps = fewer + 1 := ⟨steps - 1, by omega⟩
  cases h with
  | str text => exact value_renderString fewer text (endsString_cons (by decide) rest)
  | nat hn => exact value_natChars fewer hn rest
  | bool b => exact value_bool fewer b rest
  | strings texts =>
    have hlength := length_lt_renderValue texts
    exact value_strings texts rest (by omega)

/-! ### Keys -/

/-- A key starts with no blank, line end or comment, and with no bracket. -/
theorem head_renderKey_ne {c : Char} (h : isBareChar c ∨ c = '"' ∨ c = '\'') :
    (c ≠ '\n' ∧ c ≠ '\r' ∧ c ≠ ' ' ∧ c ≠ '\t' ∧ c ≠ '#') ∧ c ≠ '[' := by
  have hne : ∀ d : Char, isBareChar d = false → d ≠ '"' → d ≠ '\'' → c ≠ d := by
    rintro d hbare hdouble hsingle rfl
    rcases h with h | h | h
    · rw [hbare] at h
      cases h
    · exact hdouble h
    · exact hsingle h
  exact ⟨⟨hne _ rfl (by decide) (by decide), hne _ rfl (by decide) (by decide),
    hne _ rfl (by decide) (by decide), hne _ rfl (by decide) (by decide),
    hne _ rfl (by decide) (by decide)⟩, hne _ rfl (by decide) (by decide)⟩

theorem skipBlanks_renderKey (name : String) (rest : List Char) :
    skipBlanks (renderKey name ++ rest) = renderKey name ++ rest := by
  obtain ⟨c, cs, hcs, hc⟩ := exists_head_renderKey name
  obtain ⟨⟨-, -, hspace, htab, -⟩, -⟩ := head_renderKey_ne hc
  simp [hcs, skipBlanks, isBlank, hspace, htab]

theorem key_renderKey (steps : Nat) (name : String) {c : Char} (hbare : isBareChar c = false)
    {rest tail : List Char} {d : Char} (hskip : skipBlanks (c :: rest) = d :: tail) (hdot : d ≠ '.') :
    key (steps + 1) (renderKey name ++ c :: rest) = some ([name], d :: tail) := by
  have hname : simpleKey (renderKey name ++ c :: rest) = some (name, c :: rest) :=
    simpleKey_renderKey name (by rintro e ⟨⟩; exact hbare)
  rw [key, skipBlanks_renderKey]
  simp [hname, hskip, hdot]

/-- The keys of a header are read up to the closing bracket. -/
theorem key_path {path : List String} (hne : path ≠ []) (rest : List Char) {steps : Nat}
    (h : path.length ≤ steps) :
    key steps (['.'].intercalate (path.map renderKey) ++ ']' :: rest) = some (path, ']' :: rest) := by
  induction path generalizing steps with
  | nil => exact absurd rfl hne
  | cons name path ih =>
    rw [List.length_cons] at h
    obtain ⟨fewer, rfl⟩ : ∃ fewer, steps = fewer + 1 := ⟨steps - 1, by omega⟩
    cases path with
    | nil =>
      rw [List.map_cons, List.map_nil, List.intercalate_singleton]
      exact key_renderKey fewer name rfl rfl (by decide)
    | cons inner path =>
      have hinner : key fewer _ = _ := ih (by simp) (by omega)
      have hname : ∀ tail, simpleKey (renderKey name ++ '.' :: tail) = some (name, '.' :: tail) :=
        fun tail => simpleKey_renderKey name (by rintro e ⟨⟩; rfl)
      rw [List.map_cons, List.map_cons, List.intercalate_cons_cons]
      simp only [List.append_assoc, List.singleton_append]
      rw [key, skipBlanks_renderKey]
      rw [List.map_cons] at hinner
      simp [hname, skipBlanks, isBlank, hinner]

/-! ### Lines -/

/-- The lines of the text are the given ones, whatever number of steps is allowed beyond its length. -/
def HasLines (text : List Char) (found : List Line) : Prop :=
  ∀ steps, text.length < steps → lines steps text = some found

theorem hasLines_nil : HasLines [] [] := by
  intro steps h
  obtain ⟨fewer, rfl⟩ : ∃ fewer, steps = fewer + 1 := ⟨steps - 1, by omega⟩
  rfl

/-- A line that is read up to its end comes before the lines of the rest. -/
theorem HasLines.cons {text tail rest : List Char} {c : Char} {first : Line} {found : List Line}
    (hskip : skipLines false text = some (c :: tail)) (hline : line (c :: tail) = some (first, '\n' :: rest))
    (hlength : rest.length < text.length) (hrest : HasLines rest found) :
    HasLines text (first :: found) := by
  intro steps h
  obtain ⟨fewer, rfl⟩ : ∃ fewer, steps = fewer + 1 := ⟨steps - 1, by omega⟩
  rw [lines]
  simp [hskip, hline, endLine, hrest fewer (by omega)]

theorem skipBlanks_renderValue {tree : Json} {value : Toml} (h : IsValue tree value) (rest : List Char) :
    skipBlanks (renderValue tree ++ rest) = renderValue tree ++ rest := by
  have hhead : ∃ c cs, renderValue tree = c :: cs ∧ isBlank c = false := by
    cases h with
    | str text =>
      obtain ⟨c, cs, hcs, hc⟩ := exists_head_renderString text.toList
      exact ⟨c, cs, by rw [renderValue, hcs], by rcases hc with rfl | rfl <;> rfl⟩
    | @nat n hn =>
      obtain ⟨c, cs, hcs⟩ := List.exists_cons_of_ne_nil (Nat.toDigits_ne_nil (n := n) (b := 10))
      have hdigit : c.isDigit = true := Json.isDigit_of_mem_natChars (by rw [Json.natChars, hcs]; simp)
      exact ⟨c, cs, by rw [renderValue, hcs],
        by simp [isBlank, Json.ne_of_isDigit hdigit (d := ' ') rfl, Json.ne_of_isDigit hdigit (d := '\t') rfl]⟩
    | bool b => cases b <;> exact ⟨_, _, rfl, rfl⟩
    | strings texts =>
      rw [Json.strings, renderValue]
      split <;> exact ⟨_, _, rfl, rfl⟩
  obtain ⟨c, cs, hcs, hc⟩ := hhead
  simp [hcs, skipBlanks, hc]

theorem line_entry (name : String) {tree : Json} {value : Toml} (hvalue : IsValue tree value)
    (rest : List Char) :
    line (renderKey name ++ ' ' :: '=' :: ' ' :: (renderValue tree ++ '\n' :: rest)) =
      some (.entry [name] value, '\n' :: rest) := by
  obtain ⟨c, cs, hcs, hc⟩ := exists_head_renderKey name
  obtain ⟨-, hbracket⟩ := head_renderKey_ne hc
  have hkey : key ((cs ++ ' ' :: '=' :: ' ' :: (renderValue tree ++ '\n' :: rest)).length + 1)
      (renderKey name ++ ' ' :: '=' :: ' ' :: (renderValue tree ++ '\n' :: rest)) =
      some ([name], '=' :: ' ' :: (renderValue tree ++ '\n' :: rest)) :=
    key_renderKey _ name rfl rfl (by decide)
  have hread : Toml.value (2 * (' ' :: (renderValue tree ++ '\n' :: rest)).length + 2) _ = _ :=
    value_renderValue hvalue rest (by simp; omega)
  have hblank : skipBlanks (' ' :: (renderValue tree ++ '\n' :: rest)) = renderValue tree ++ '\n' :: rest :=
    skipBlanks_renderValue hvalue _
  rw [hcs, List.cons_append] at hkey ⊢
  rw [line]
  · rw [List.length_cons, hkey]
    simp only [Option.bind_eq_bind, Option.bind_some, hblank, hread, Option.pure_def]
  all_goals
    intro tail heq
    exact hbracket (List.cons.inj heq).1

theorem HasLines.entry (name : String) {tree : Json} {value : Toml} (hvalue : IsValue tree value)
    {rest : List Char} {found : List Line} (hrest : HasLines rest found) :
    HasLines (renderKey name ++ [' ', '=', ' '] ++ renderValue tree ++ ['\n'] ++ rest)
      (.entry [name] value :: found) := by
  have hline := line_entry name hvalue rest
  obtain ⟨c, cs, hcs, hc⟩ := exists_head_renderKey name
  simp only [List.append_assoc, List.cons_append, List.nil_append]
  rw [hcs, List.cons_append] at hline ⊢
  exact .cons (skipLines_of_ne (head_renderKey_ne hc).1 _) hline (by simp; omega) hrest

theorem length_le_intercalate (path : List String) :
    path.length ≤ (['.'].intercalate (path.map renderKey)).length := by
  induction path with
  | nil => exact Nat.zero_le _
  | cons name path ih =>
    obtain ⟨c, cs, hcs, -⟩ := exists_head_renderKey name
    cases path with
    | nil => simp [hcs]
    | cons inner path =>
      rw [List.map_cons, List.map_cons, List.intercalate_cons_cons, hcs]
      rw [List.map_cons] at ih
      simp only [List.length_append, List.length_cons] at ih ⊢
      omega

theorem line_header {path : List String} (hne : path ≠ []) (rest : List Char) :
    line ('[' :: (['.'].intercalate (path.map renderKey) ++ ']' :: rest)) = some (.table path, rest) := by
  have hlength := length_le_intercalate path
  have hkey : key (['.'].intercalate (path.map renderKey) ++ ']' :: rest).length
      (['.'].intercalate (path.map renderKey) ++ ']' :: rest) = some (path, ']' :: rest) :=
    key_path hne rest (by rw [List.length_append]; omega)
  have hhead : ∀ tail, ['.'].intercalate (path.map renderKey) ++ ']' :: rest ≠ '[' :: tail := by
    obtain ⟨name, path, rfl⟩ := List.exists_cons_of_ne_nil hne
    obtain ⟨c, cs, hcs, hc⟩ := exists_head_renderKey name
    intro tail heq
    refine (head_renderKey_ne hc).2 ?_
    cases path <;> simp_all
  rw [line, hkey]
  · rfl
  · exact hhead

theorem HasLines.header {path : List String} (hne : path ≠ []) {rest : List Char} {found : List Line}
    (hrest : HasLines rest found) : HasLines (renderHeader path ++ rest) (.table path :: found) := by
  have hline := line_header hne ('\n' :: rest)
  have hskip : ∀ tail, skipLines false ('\n' :: '[' :: tail) = some ('[' :: tail) :=
    fun tail => skipLines_of_ne (by decide) tail
  rw [renderHeader]
  simp only [List.append_assoc, List.cons_append, List.nil_append]
  exact .cons (hskip _) hline (by simp; omega) hrest

end HelpAudit.Toml
