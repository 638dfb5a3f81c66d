import Mathlib.Data.List.DropRight
import HelpAudit.Json.Reader
import HelpAudit.Json.Record
import HelpAudit.Json.Writer

/-! The texts of JSON values are read back. `IsText` lists the forms that a value's text may have: blanks
    may stand between its parts, and each string or number is written in one way. The reader takes every
    such text, and both layouts of the writer give such texts. -/

namespace HelpAudit.Json

mutual

/-- The value has only natural numbers, all of 64 bits, and every part of it denotes a text. -/
def IsPlain : Json → Prop
  | .decimal _ => False
  | .garbled => False
  | .nat n => n < wordLimit
  | .arr items => ArePlain items
  | .obj members => ArePlainMembers members
  | .null => True
  | .bool _ => True
  | .str _ => True

/-- All items of an array are plain. -/
def ArePlain : List Json → Prop
  | [] => True
  | item :: items => item.IsPlain ∧ ArePlain items

/-- All members of an object are plain. -/
def ArePlainMembers : List (String × Json) → Prop
  | [] => True
  | (_, value) :: members => value.IsPlain ∧ ArePlainMembers members

end

/-! ### Strings -/

theorem hexValue?_hexDigit (n : Nat) : hexValue? (hexDigit n) = some (n % 16) := by
  have hall : ∀ m < 16, hexValue? (Nat.digitChar m) = some m := by decide
  exact hall (n % 16) (Nat.mod_lt n (by decide))

theorem hexUnit?_control {n : Nat} (h : n < 0x20) :
    hexUnit? '0' '0' (hexDigit (n / 16)) (hexDigit n) = some n := by
  have hzero : hexValue? '0' = some 0 := rfl
  simp only [hexUnit?, hzero, hexValue?_hexDigit, Option.pure_def, Option.bind_eq_bind, Option.bind_some]
  congr 1
  omega

/-- One more character in front of what is read of a string. -/
def addUnit (c : Char) (read : List Unit16 × List Char) : List Unit16 × List Char :=
  (.char c :: read.1, read.2)

theorem readUnits_escape {e c : Char} (h : escapeChar? e = some c) (cs : List Char) :
    readUnits ('\\' :: e :: cs) = (readUnits cs).map (addUnit c) := by
  rw [readUnits.eq_def]
  split
  · simp_all
  · simp_all
  · rename_i heq
    cases heq
    simp [escapeChar?] at h
  · rename_i heq
    cases heq
    cases hread : readUnits cs <;> simp [h, addUnit]
  · rename_i hno heq
    cases heq
    exact (hno _ _ rfl rfl).elim

theorem readUnits_control {c : Char} (h : c.toNat < 0x20) (cs : List Char) :
    readUnits ('\\' :: 'u' :: '0' :: '0' :: hexDigit (c.toNat / 16) :: hexDigit c.toNat :: cs) =
      (readUnits cs).map (addUnit c) := by
  have hunit : Unit16.ofNat c.toNat = .char c := by
    rw [Unit16.ofNat, if_neg (by simp; omega), if_neg (by simp; omega), Char.ofNat_toNat]
  rw [readUnits, hexUnit?_control h]
  cases hread : readUnits cs <;> simp [hunit, addUnit]

theorem readUnits_raw {c : Char} (hquote : c ≠ '\x22') (hslash : c ≠ '\\') (h : ¬ c.toNat < 0x20)
    (cs : List Char) : readUnits (c :: cs) = (readUnits cs).map (addUnit c) := by
  rw [readUnits.eq_def]
  split
  · simp_all
  · simp_all
  · simp_all
  · simp_all
  · rename_i heq
    cases heq
    cases hread : readUnits cs <;> simp [h, hslash, addUnit]

/-- Whatever its escape, a character is read as itself. -/
theorem readUnits_escapedChar (c : Char) (cs : List Char) :
    readUnits (escapedChar c ++ cs) = (readUnits cs).map (addUnit c) := by
  rw [escapedChar]
  split
  · subst_vars; exact readUnits_escape rfl cs
  split
  · subst_vars; exact readUnits_escape rfl cs
  split
  · subst_vars; exact readUnits_escape rfl cs
  split
  · subst_vars; exact readUnits_escape rfl cs
  split
  · subst_vars; exact readUnits_escape rfl cs
  split
  · subst_vars; exact readUnits_escape rfl cs
  split
  · subst_vars; exact readUnits_escape rfl cs
  split
  · exact readUnits_control ‹_› cs
  · exact readUnits_raw ‹_› ‹_› ‹_› cs

theorem readUnits_quoted (s : String) (cs : List Char) :
    readUnits (s.toList.flatMap escapedChar ++ '\x22' :: cs) = some (s.toList.map .char, cs) := by
  induction s.toList with
  | nil => rfl
  | cons c s ih => rw [List.flatMap_cons, List.append_assoc, readUnits_escapedChar, ih]; rfl

theorem joinUnits_map_char (s : List Char) : joinUnits (s.map .char) = some s := by
  induction s with
  | nil => rfl
  | cons c s ih => rw [List.map_cons, joinUnits, ih]; rfl

theorem stringOf_map_char (s : String) : stringOf (s.toList.map .char) = .str s := by
  rw [stringOf, joinUnits_map_char]
  exact congrArg Json.str String.ofList_toList

/-! ### Numbers -/

/-- What may stand behind a number: nothing that would go on with it. -/
def EndsNumber (rest : List Char) : Prop :=
  ∀ c ∈ rest.head?, c.isDigit = false ∧ c ≠ '.' ∧ c ≠ 'e' ∧ c ≠ 'E'

theorem digitsValue_natChars (n : Nat) : digitsValue (natChars n) = n := by
  have hvalue := Nat.ofDigitChars_ten_toDigits (n := n)
  rw [Nat.ofDigitChars_eq_foldl] at hvalue
  simp only [Nat.mul_comm 10] at hvalue
  exact hvalue

theorem isDigit_of_mem_natChars {n : Nat} {c : Char} (h : c ∈ natChars n) : c.isDigit = true :=
  Nat.isDigit_of_mem_toDigits (by decide) (by decide) h

theorem head_natChars_ne_zero {n : Nat} (h : 0 < n) : ∃ c cs, natChars n = c :: cs ∧ c ≠ '0' := by
  induction n using Nat.strongRecOn with
  | ind n ih =>
    rw [natChars, Nat.toDigits_eq_if (by decide)]
    split
    · have hall : ∀ m < 10, 0 < m → Nat.digitChar m ≠ '0' := by decide
      exact ⟨_, [], rfl, hall n ‹_› h⟩
    · obtain ⟨c, cs, hcs, hc⟩ := ih (n / 10) (by omega) (by omega)
      rw [natChars] at hcs
      exact ⟨c, cs ++ [_], by rw [hcs, List.cons_append], hc⟩

theorem readDigits_append {digits rest : List Char} (hne : digits ≠ [])
    (h : ∀ c ∈ digits, c.isDigit = true) (hrest : EndsNumber rest) :
    readDigits (digits ++ rest) = some (digits, rest) := by
  have hstop : rest.takeWhile Char.isDigit = [] ∧ rest.dropWhile Char.isDigit = rest := by
    cases rest with
    | nil => exact ⟨rfl, rfl⟩
    | cons c rest => simp [(hrest c rfl).1]
  rw [readDigits, List.takeWhile_append_of_pos h, List.dropWhile_append_of_pos h, hstop.1, hstop.2,
    List.append_nil]
  simp [hne]

theorem readWhole_natChars (n : Nat) {rest : List Char} (h : EndsNumber rest) :
    readWhole (natChars n ++ rest) = some (natChars n, rest) := by
  have hdigits := readDigits_append (Nat.toDigits_ne_nil (n := n) (b := 10))
    (fun c hc => isDigit_of_mem_natChars hc) h
  rcases Nat.eq_zero_or_pos n with rfl | hpos
  · cases rest with
    | nil => rfl
    | cons c rest =>
      have hzero : natChars 0 = ['0'] := rfl
      rw [hzero, List.singleton_append, readWhole, (h c rfl).1]
      rfl
  · -- no other number starts with a zero
    obtain ⟨c, cs, hcs, hc⟩ := head_natChars_ne_zero hpos
    rw [readWhole.eq_def]
    split
    · rename_i heq
      rw [hcs, List.cons_append] at heq
      exact absurd (List.cons.inj heq).1 hc
    · exact hdigits

theorem readNumber_natChars (n : Nat) {rest : List Char} (h : EndsNumber rest) :
    readNumber false (natChars n ++ rest) = some (.nat n, rest) := by
  have hfraction : readFraction rest = some ([], rest) := by
    cases rest with
    | nil => rfl
    | cons c rest => simp [readFraction, (h c rfl).2.1]
  have hexponent : readExponent rest = some (none, rest) := by
    cases rest with
    | nil => rfl
    | cons c rest => simp [readExponent, (h c rfl).2.2]
  rw [readNumber, readWhole_natChars n h]
  simp [hfraction, hexponent, digitsValue_natChars]

/-! ### Texts of values -/

/-- The characters are blanks. -/
def AllSpace (gap : List Char) : Prop := ∀ c ∈ gap, isSpace c = true

mutual

/-- The characters are a text of the value. -/
inductive IsText : Json → List Char → Prop where
  | null : IsText .null (atomChars .null)
  | bool (b : Bool) : IsText (.bool b) (atomChars (.bool b))
  | nat (n : Nat) : IsText (.nat n) (natChars n)
  | str (s : String) : IsText (.str s) (quoteChars s)
  | emptyArr : IsText (.arr []) ['[', ']']
  | arr {items text} : IsItems items text → IsText (.arr items) ('[' :: text)
  | emptyObj : IsText (.obj []) ['\x7b', '\x7d']
  | obj {members text} : IsMembers members text → IsText (.obj members) ('\x7b' :: text)

/-- The characters are a text of the items of an array, at least one, and its closing bracket. -/
inductive IsItems : List Json → List Char → Prop where
  | last {item gap text after} :
    AllSpace gap → IsText item text → AllSpace after →
    IsItems [item] (gap ++ (text ++ (after ++ [']'])))
  | cons {item items gap text others} :
    AllSpace gap → IsText item text → IsItems items others →
    IsItems (item :: items) (gap ++ (text ++ ',' :: others))

/-- The characters are a text of the members of an object, at least one, and its closing brace. -/
inductive IsMembers : List (String × Json) → List Char → Prop where
  | last {key value gap between text after} :
    AllSpace gap → AllSpace between → IsText value text → AllSpace after →
    IsMembers [(key, value)] (gap ++ (quoteChars key ++ ':' :: (between ++ (text ++ (after ++ ['\x7d'])))))
  | cons {key value members gap between text others} :
    AllSpace gap → AllSpace between → IsText value text → IsMembers members others →
    IsMembers ((key, value) :: members)
      (gap ++ (quoteChars key ++ ':' :: (between ++ (text ++ ',' :: others))))

end

/-! ### Reading them -/

theorem skipSpace_append {gap : List Char} (h : AllSpace gap) (cs : List Char) :
    skipSpace (gap ++ cs) = skipSpace cs := List.dropWhile_append_of_pos h

theorem skipSpace_cons {c : Char} (h : isSpace c = false) (cs : List Char) :
    skipSpace (c :: cs) = c :: cs := by
  rw [skipSpace, List.dropWhile_cons, h]
  rfl

theorem ne_of_isDigit {c d : Char} (hc : c.isDigit = true) (hd : d.isDigit = false) : c ≠ d := by
  rintro rfl
  rw [hc] at hd
  cases hd

theorem isSpace_of_isDigit {c : Char} (h : c.isDigit = true) : isSpace c = false := by
  simp [isSpace, ne_of_isDigit h (d := ' ') rfl, ne_of_isDigit h (d := '\n') rfl,
    ne_of_isDigit h (d := '\t') rfl, ne_of_isDigit h (d := '\r') rfl]

/-- A value's text starts with no blank and no closing bracket. -/
theorem IsText.head {json : Json} {text : List Char} (h : IsText json text) :
    ∃ c cs, text = c :: cs ∧ isSpace c = false ∧ c ≠ ']' := by
  cases h with
  | null => exact ⟨_, _, rfl, by decide⟩
  | bool b => cases b <;> exact ⟨_, _, rfl, by decide⟩
  | nat n =>
    obtain ⟨c, cs, hcs⟩ := List.exists_cons_of_ne_nil (Nat.toDigits_ne_nil (n := n) (b := 10))
    have hdigit : c.isDigit = true := isDigit_of_mem_natChars (by rw [natChars, hcs]; simp)
    exact ⟨c, cs, hcs, isSpace_of_isDigit hdigit, ne_of_isDigit hdigit rfl⟩
  | str s => exact ⟨_, _, rfl, by decide⟩
  | emptyArr => exact ⟨_, _, rfl, by decide⟩
  | arr _ => exact ⟨_, _, rfl, by decide⟩
  | emptyObj => exact ⟨_, _, rfl, by decide⟩
  | obj _ => exact ⟨_, _, rfl, by decide⟩

/-- Blanks before a value do not count. -/
theorem readValue_skipSpace (fuel : Nat) (cs : List Char) :
    readValue fuel (skipSpace cs) = readValue fuel cs := by
  cases fuel with
  | zero => rfl
  | succ fuel => rw [readValue, readValue, skipSpace, skipSpace, List.dropWhile_idempotent]

theorem readItems_skipSpace (fuel : Nat) (cs : List Char) :
    readItems fuel (skipSpace cs) = readItems fuel cs := by
  cases fuel with
  | zero => rfl
  | succ fuel => rw [readItems, readItems, readValue_skipSpace]

theorem readMembers_skipSpace (fuel : Nat) (cs : List Char) :
    readMembers fuel (skipSpace cs) = readMembers fuel cs := by
  cases fuel with
  | zero => rfl
  | succ fuel => rw [readMembers, readMembers, skipSpace, skipSpace, List.dropWhile_idempotent]

theorem readValue_digit {c : Char} (h : c.isDigit = true) (fuel : Nat) (cs : List Char) :
    readValue (fuel + 1) (c :: cs) = readNumber false (c :: cs) := by
  have hne : ∀ d : Char, d.isDigit = false → c ≠ d := fun d hd => ne_of_isDigit h hd
  rw [readValue, skipSpace_cons (isSpace_of_isDigit h)]
  split
  · exact absurd (List.cons.inj ‹_›).1 (hne 'n' rfl)
  · exact absurd (List.cons.inj ‹_›).1 (hne 't' rfl)
  · exact absurd (List.cons.inj ‹_›).1 (hne 'f' rfl)
  · exact absurd (List.cons.inj ‹_›).1 (hne '\x22' rfl)
  · exact absurd (List.cons.inj ‹_›).1 (hne '[' rfl)
  · exact absurd (List.cons.inj ‹_›).1 (hne '\x7b' rfl)
  · exact absurd (List.cons.inj ‹_›).1 (hne '-' rfl)
  · rfl

theorem objectOf_map (members : List (String × Json)) :
    objectOf (members.map fun member => (some member.1, member.2)) = .obj members := by
  have hkeys : (members.map fun member => (some member.1, member.2)).mapM
      (fun member : Option String × Json => member.1.map (·, member.2)) = some members := by
    induction members with
    | nil => rfl
    | cons member members ih => simp [ih]
  rw [objectOf, hkeys]

theorem endsNumber_nil : EndsNumber [] := by
  intro c hc
  cases hc

theorem endsNumber_cons {c : Char} (h : c.isDigit = false ∧ c ≠ '.' ∧ c ≠ 'e' ∧ c ≠ 'E')
    (rest : List Char) : EndsNumber (c :: rest) := by
  rintro d ⟨⟩
  exact h

/-- What stands behind a value inside an array or an object ends a number. -/
theorem endsNumber_of_gap {gap : List Char} (h : AllSpace gap) {c : Char} {rest : List Char}
    (hc : EndsNumber (c :: rest)) : EndsNumber (gap ++ c :: rest) := by
  cases gap with
  | nil => exact hc
  | cons d gap =>
    rintro e ⟨⟩
    have hd := h d List.mem_cons_self
    simp only [isSpace, Bool.or_eq_true, beq_iff_eq] at hd
    rcases hd with ((rfl | rfl) | rfl) | rfl <;> decide

theorem readValue_gap {gap : List Char} (h : AllSpace gap) (fuel : Nat) (cs : List Char) :
    readValue fuel (gap ++ cs) = readValue fuel cs := by
  rw [← readValue_skipSpace, skipSpace_append h, readValue_skipSpace]

/-- Items start with a value, after blanks. -/
theorem IsItems.head {items : List Json} {text : List Char} (h : IsItems items text) :
    ∃ gap c cs, text = gap ++ c :: cs ∧ AllSpace gap ∧ isSpace c = false ∧ c ≠ ']' := by
  cases h with
  | last hgap htext _ =>
    obtain ⟨c, cs, rfl, hc⟩ := htext.head
    exact ⟨_, c, _, rfl, hgap, hc⟩
  | cons hgap htext _ =>
    obtain ⟨c, cs, rfl, hc⟩ := htext.head
    exact ⟨_, c, _, rfl, hgap, hc⟩

/-- Members start with a quote, after blanks. -/
theorem IsMembers.head {members : List (String × Json)} {text : List Char}
    (h : IsMembers members text) : ∃ gap cs, text = gap ++ '\x22' :: cs ∧ AllSpace gap := by
  cases h with
  | last hgap => exact ⟨_, _, rfl, hgap⟩
  | cons hgap => exact ⟨_, _, rfl, hgap⟩

/-- An array with items is read item by item. -/
theorem readValue_arr {items : List Json} {text : List Char} (h : IsItems items text) (fuel : Nat)
    (rest : List Char) : readValue (fuel + 1) ('[' :: (text ++ rest)) =
      (readItems fuel (text ++ rest)).map fun (items, rest) => (.arr items, rest) := by
  obtain ⟨gap, c, cs, rfl, hgap, hc, hne⟩ := h.head
  have hskip : skipSpace (gap ++ c :: cs ++ rest) = c :: (cs ++ rest) := by
    rw [List.append_assoc, skipSpace_append hgap, List.cons_append, skipSpace_cons hc]
  rw [← readItems_skipSpace, readValue, skipSpace_cons (by decide), hskip]
  simp only [hskip, List.cons.injEq, hne, false_and, IsEmpty.forall_iff, implies_true]

/-- An object with members is read member by member. -/
theorem readValue_obj {members : List (String × Json)} {text : List Char} (h : IsMembers members text)
    (fuel : Nat) (rest : List Char) : readValue (fuel + 1) ('\x7b' :: (text ++ rest)) =
      (readMembers fuel (text ++ rest)).map fun (members, rest) => (objectOf members, rest) := by
  obtain ⟨gap, cs, rfl, hgap⟩ := h.head
  have hskip : skipSpace (gap ++ '\x22' :: cs ++ rest) = '\x22' :: (cs ++ rest) := by
    rw [List.append_assoc, skipSpace_append hgap, List.cons_append, skipSpace_cons (by decide)]
  rw [← readMembers_skipSpace, readValue, skipSpace_cons (by decide), hskip]
  simp only [hskip]
  rfl

/-- An item is read up to the comma or bracket behind it. -/
theorem readItems_item {item : Json} {gap text after : List Char} {c : Char} {fuel : Nat}
    {rest : List Char} (hgap : AllSpace gap) (hafter : AllSpace after) (hc : isSpace c = false)
    (hitem : readValue fuel (text ++ (after ++ c :: rest)) = some (item, after ++ c :: rest)) :
    readItems (fuel + 1) (gap ++ (text ++ (after ++ c :: rest))) =
      match c :: rest with
      | ']' :: rest => some ([item], rest)
      | ',' :: rest => do
        let (items, rest) ← readItems fuel rest
        return (item :: items, rest)
      | _ => none := by
  rw [readItems, readValue_gap hgap, hitem]
  simp only [Option.bind_eq_bind, Option.bind_some, skipSpace_append hafter, skipSpace_cons hc]
  rfl

/-- A member is read up to the comma or brace behind it. -/
theorem readMembers_member (key : String) {value : Json} {gap between text after : List Char} {c : Char}
    {fuel : Nat} {rest : List Char} (hgap : AllSpace gap) (hbetween : AllSpace between)
    (hafter : AllSpace after) (hc : isSpace c = false)
    (hvalue : readValue fuel (text ++ (after ++ c :: rest)) = some (value, after ++ c :: rest)) :
    readMembers (fuel + 1)
        (gap ++ (quoteChars key ++ ':' :: (between ++ (text ++ (after ++ c :: rest))))) =
      match c :: rest with
      | '\x7d' :: rest => some ([(some key, value)], rest)
      | ',' :: rest => do
        let (members, rest) ← readMembers fuel rest
        return ((some key, value) :: members, rest)
      | _ => none := by
  have hquote : quoteChars key ++ ':' :: (between ++ (text ++ (after ++ c :: rest))) =
      '\x22' :: (key.toList.flatMap escapedChar ++
        '\x22' :: ':' :: (between ++ (text ++ (after ++ c :: rest)))) := by
    simp [quoteChars]
  rw [readMembers, skipSpace_append hgap, hquote, skipSpace_cons (by decide)]
  simp only [readUnits_quoted, joinUnits_map_char, Option.bind_eq_bind, Option.bind_some,
    Option.map_some, String.ofList_toList]
  rw [skipSpace_cons (by decide)]
  simp only [readValue_gap hbetween, hvalue, Option.bind_some, skipSpace_append hafter,
    skipSpace_cons hc]
  rfl

theorem allSpace_nil : AllSpace [] := fun _ h => absurd h List.not_mem_nil

theorem allSpace_blank : AllSpace [' '] := by simp [AllSpace, isSpace]

mutual

/-- A text of a value is read as the value, whatever follows that does not go on with it. -/
theorem IsText.read {json : Json} {text : List Char} : IsText json text → ∀ (fuel : Nat)
    (rest : List Char), 2 * text.length ≤ fuel → EndsNumber rest →
    readValue fuel (text ++ rest) = some (json, rest)
  | h, 0, rest, hfuel, _ => by
    obtain ⟨c, cs, rfl, -⟩ := h.head
    simp at hfuel
  | .null, fuel + 1, rest, _, _ => rfl
  | .bool true, fuel + 1, rest, _, _ => rfl
  | .bool false, fuel + 1, rest, _, _ => rfl
  | .nat n, fuel + 1, rest, _, hrest => by
    obtain ⟨c, cs, hcs⟩ := List.exists_cons_of_ne_nil (Nat.toDigits_ne_nil (n := n) (b := 10))
    have hdigit : c.isDigit = true := isDigit_of_mem_natChars (by rw [natChars, hcs]; simp)
    have hnumber := readNumber_natChars n hrest
    rw [natChars, hcs, List.cons_append] at hnumber
    rw [natChars, hcs, List.cons_append, readValue_digit hdigit, hnumber]
  | .str s, fuel + 1, rest, _, _ => by
    have hquote : quoteChars s ++ rest =
        '\x22' :: (s.toList.flatMap escapedChar ++ '\x22' :: rest) := by simp [quoteChars]
    rw [hquote, readValue, skipSpace_cons (by decide)]
    simp only [readUnits_quoted, Option.map_some, stringOf_map_char]
  | .emptyArr, fuel + 1, rest, _, _ => rfl
  -- each bracket costs one step, and the items inside are shorter than the text by one character at least
  | .arr hitems, fuel + 1, rest, hfuel, _ => by
    rw [List.cons_append, readValue_arr hitems, hitems.read fuel rest (by simp at hfuel; omega)]
    rfl
  | .emptyObj, fuel + 1, rest, _, _ => rfl
  | .obj hmembers, fuel + 1, rest, hfuel, _ => by
    rw [List.cons_append, readValue_obj hmembers,
      hmembers.read fuel rest (by simp at hfuel; omega)]
    exact congrArg (fun json => some (json, rest)) (objectOf_map _)

theorem IsItems.read {items : List Json} {text : List Char} : IsItems items text → ∀ (fuel : Nat)
    (rest : List Char), 2 * text.length ≤ fuel → readItems fuel (text ++ rest) = some (items, rest)
  | h, 0, rest, hfuel => by
    obtain ⟨gap, c, cs, rfl, -⟩ := h.head
    simp at hfuel
  | @IsItems.last item gap text after hgap htext hafter, fuel + 1, rest, hfuel => by
    have hread := htext.read fuel (after ++ ']' :: rest) (by simp at hfuel; omega)
      (endsNumber_of_gap hafter (endsNumber_cons (by decide) rest))
    simp only [List.append_assoc, List.singleton_append]
    rw [readItems_item hgap hafter (by decide) hread]
    rfl
  | @IsItems.cons item items gap text others hgap htext hothers, fuel + 1, rest, hfuel => by
    have hread := htext.read fuel (',' :: (others ++ rest)) (by simp at hfuel; omega)
      (endsNumber_cons (by decide) _)
    have hitem := readItems_item hgap allSpace_nil (by decide) hread
    rw [List.nil_append] at hitem
    simp only [List.append_assoc, List.cons_append, hitem]
    rw [hothers.read fuel rest (by simp at hfuel; omega)]
    rfl

theorem IsMembers.read {members : List (String × Json)} {text : List Char} : IsMembers members text →
    ∀ (fuel : Nat) (rest : List Char), 2 * text.length ≤ fuel →
    readMembers fuel (text ++ rest) = some (members.map fun member => (some member.1, member.2), rest)
  | h, 0, rest, hfuel => by
    obtain ⟨gap, cs, rfl, -⟩ := h.head
    simp at hfuel
  | @IsMembers.last key value gap between text after hgap hbetween htext hafter, fuel + 1, rest,
      hfuel => by
    have hread := htext.read fuel (after ++ '\x7d' :: rest) (by simp at hfuel; omega)
      (endsNumber_of_gap hafter (endsNumber_cons (by decide) rest))
    simp only [List.append_assoc, List.cons_append, List.nil_append]
    rw [readMembers_member key hgap hbetween hafter (by decide) hread]
    rfl
  | @IsMembers.cons key value members gap between text others hgap hbetween htext hothers, fuel + 1,
      rest, hfuel => by
    have hread := htext.read fuel (',' :: (others ++ rest)) (by simp at hfuel; omega)
      (endsNumber_cons (by decide) _)
    have hmember := readMembers_member key hgap hbetween allSpace_nil (by decide) hread
    rw [List.nil_append] at hmember
    simp only [List.append_assoc, List.cons_append]
    rw [hmember]
    simp only [hothers.read fuel rest (by simp at hfuel; omega)]
    rfl

end

/-! ### What is written -/

theorem allSpace_newLine (depth : Nat) : AllSpace (newLine depth) := by
  intro c hc
  rcases List.mem_cons.mp hc with rfl | hc
  · rfl
  · rw [List.eq_of_mem_replicate hc]
    rfl

mutual

/-- The compact form is a text of the value. -/
theorem isText_compactChars : ∀ json : Json, json.IsPlain → IsText json (compactChars json)
  | .null, _ => .null
  | .bool b, _ => .bool b
  | .nat n, _ => .nat n
  | .str s, _ => .str s
  | .arr [], _ => .emptyArr
  | .arr (item :: items), h => .arr (isItems_compactItems (item :: items) h (List.cons_ne_nil _ _))
  | .obj [], _ => .emptyObj
  | .obj (member :: members), h =>
    .obj (isMembers_compactMembers (member :: members) h (List.cons_ne_nil _ _))
  | .decimal _, h => h.elim
  | .garbled, h => h.elim

theorem isItems_compactItems : ∀ items : List Json, ArePlain items → items ≠ [] →
    IsItems items (compactItems items ++ [']'])
  | [], _, h => absurd rfl h
  | [item], h, _ => .last allSpace_nil (isText_compactChars item h.1) allSpace_nil
  | item :: next :: items, h, _ => by
    have hitems := isItems_compactItems (next :: items) h.2 (List.cons_ne_nil _ _)
    have htext := IsItems.cons allSpace_nil (isText_compactChars item h.1) hitems
    rw [compactItems, List.append_assoc]
    · exact htext
    · simp

theorem isMembers_compactMembers : ∀ members : List (String × Json), ArePlainMembers members →
    members ≠ [] → IsMembers members (compactMembers members ++ ['\x7d'])
  | [], _, h => absurd rfl h
  | [(key, value)], h, _ => by
    have htext := @IsMembers.last key value [] [] _ [] allSpace_nil allSpace_nil
      (isText_compactChars value h.1) allSpace_nil
    rw [compactMembers, List.append_assoc]
    exact htext
  | (key, value) :: next :: members, h, _ => by
    have hmembers := isMembers_compactMembers (next :: members) h.2 (List.cons_ne_nil _ _)
    have htext := @IsMembers.cons key value _ [] [] _ _ allSpace_nil allSpace_nil
      (isText_compactChars value h.1) hmembers
    rw [compactMembers, List.append_assoc, List.append_assoc]
    · exact htext
    · simp

end

mutual

/-- The indented form is a text of the value. -/
theorem isText_prettyChars : ∀ (depth : Nat) (json : Json), json.IsPlain →
    IsText json (prettyChars depth json)
  | _, .null, _ => .null
  | _, .bool b, _ => .bool b
  | _, .nat n, _ => .nat n
  | _, .str s, _ => .str s
  | _, .arr [], _ => .emptyArr
  | depth, .arr (item :: items), h => by
    rw [prettyChars, List.cons_append, List.cons_append, List.append_assoc]
    exact .arr (isItems_prettyItems depth (item :: items) h (List.cons_ne_nil _ _))
  | _, .obj [], _ => .emptyObj
  | depth, .obj (member :: members), h => by
    rw [prettyChars, List.cons_append, List.cons_append, List.append_assoc]
    exact .obj (isMembers_prettyMembers depth (member :: members) h (List.cons_ne_nil _ _))
  | _, .decimal _, h => h.elim
  | _, .garbled, h => h.elim

theorem isItems_prettyItems : ∀ (depth : Nat) (items : List Json), ArePlain items → items ≠ [] →
    IsItems items (prettyItems (depth + 1) items ++ (newLine depth ++ [']']))
  | _, [], _, h => absurd rfl h
  | depth, [item], h, _ => by
    rw [prettyItems, List.append_assoc]
    exact .last (allSpace_newLine _) (isText_prettyChars (depth + 1) item h.1) (allSpace_newLine _)
  | depth, item :: next :: items, h, _ => by
    have hitems := isItems_prettyItems depth (next :: items) h.2 (List.cons_ne_nil _ _)
    rw [prettyItems, List.append_assoc, List.append_assoc]
    · exact .cons (allSpace_newLine _) (isText_prettyChars (depth + 1) item h.1) hitems
    · simp

theorem isMembers_prettyMembers : ∀ (depth : Nat) (members : List (String × Json)),
    ArePlainMembers members → members ≠ [] →
    IsMembers members (prettyMembers (depth + 1) members ++ (newLine depth ++ ['\x7d']))
  | _, [], _, h => absurd rfl h
  | depth, [(key, value)], h, _ => by
    have htext := @IsMembers.last key value _ [' '] _ _ (allSpace_newLine (depth + 1)) allSpace_blank
      (isText_prettyChars (depth + 1) value h.1) (allSpace_newLine depth)
    rw [prettyMembers, List.append_assoc, List.append_assoc]
    exact htext
  | depth, (key, value) :: next :: members, h, _ => by
    have hmembers := isMembers_prettyMembers depth (next :: members) h.2 (List.cons_ne_nil _ _)
    have htext := @IsMembers.cons key value _ _ [' '] _ _ (allSpace_newLine (depth + 1)) allSpace_blank
      (isText_prettyChars (depth + 1) value h.1) hmembers
    rw [prettyMembers, List.append_assoc, List.append_assoc, List.append_assoc]
    · exact htext
    · simp

end

/-- The value of a text is read from it. -/
theorem ofText?_of_isText {json : Json} {text : List Char} (h : IsText json text) :
    ofText? (.ofList text) = some json := by
  have hread := h.read (2 * text.length + 2) [] (by omega) endsNumber_nil
  rw [List.append_nil] at hread
  simp only [ofText?, String.toList_ofList, hread]
  rfl

/-- Both layouts of a plain value are read back as the value. -/
theorem ofText?_written {json : Json} (h : json.IsPlain) :
    ∀ text ∈ [json.compact, json.pretty], ofText? text = some json := by
  simp only [List.forall_mem_cons, compact, pretty]
  exact ⟨ofText?_of_isText (isText_compactChars json h), ofText?_of_isText (isText_prettyChars 0 json h),
    fun _ hmem => absurd hmem List.not_mem_nil⟩

end HelpAudit.Json
