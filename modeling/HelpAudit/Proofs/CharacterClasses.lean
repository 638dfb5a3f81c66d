import HelpAudit.Token.Pattern

/-! How the classes of characters lie to each other. Facts about ASCII are checked character by character,
    facts about the tables range by range. -/

namespace HelpAudit

/-- What holds of the first 128 code points holds of every ASCII character. -/
theorem forall_ascii {p : Char → Prop} (h : ∀ n < 128, p (Char.ofNat n)) {c : Char}
    (hc : c.toNat < 128) : p c := by
  have := h c.toNat hc
  rwa [Char.ofNat_toNat] at this

theorem toNat_lt_of_isAlphanum {c : Char} (h : c.isAlphanum = true) : c.toNat < 128 := by
  have hranges : ('A'.val ≤ c.val ∧ c.val ≤ 'Z'.val || ('a'.val ≤ c.val && c.val ≤ 'z'.val) ||
      ('0'.val ≤ c.val && c.val ≤ '9'.val)) = true := h
  simp only [Bool.or_eq_true, Bool.and_eq_true, decide_eq_true_eq, UInt32.le_iff_toNat_le] at hranges
  rw [Char.toNat]
  rcases hranges with (h | h) | h
  · exact Nat.lt_of_le_of_lt h.2 (by decide)
  · exact Nat.lt_of_le_of_lt h.2 (by decide)
  · exact Nat.lt_of_le_of_lt h.2 (by decide)

theorem toNat_lt_of_isAlphanum_or {c d : Char} (hd : d.toNat < 128)
    (h : (c.isAlphanum || c == d) = true) : c.toNat < 128 := by
  rw [Bool.or_eq_true, beq_iff_eq] at h
  rcases h with halpha | rfl
  · exact toNat_lt_of_isAlphanum halpha
  · exact hd

/-! ### Words and blanks -/

namespace Text

/-- The ranges of white space. -/
def blankRanges : CharTable :=
  [(0x09, 0x0D), (0x20, 0x20), (0x85, 0x85), (0xA0, 0xA0), (0x1680, 0x1680), (0x2000, 0x200A),
    (0x2028, 0x2029), (0x202F, 0x202F), (0x205F, 0x205F), (0x3000, 0x3000)]

theorem exists_blankRange {c : Char} (h : isBlank c = true) :
    ∃ range ∈ blankRanges, range.1 ≤ c.toNat ∧ c.toNat ≤ range.2 := by
  simp only [isBlank, Bool.or_eq_true, Bool.and_eq_true, beq_iff_eq, decide_eq_true_eq] at h
  simp only [blankRanges, List.mem_cons, List.not_mem_nil, or_false, exists_eq_or_imp, exists_eq_left]
  omega

theorem wordTable_no_blank : ∀ word ∈ wordTable, ∀ blank ∈ blankRanges,
    word.2 < blank.1 ∨ blank.2 < word.1 := by decide +kernel

theorem isBlank_of_isWord {c : Char} (h : isWord c = true) : isBlank c = false := by
  rw [isWord, Bool.or_eq_true, Bool.and_eq_true] at h
  rcases h with hascii | ⟨-, htable⟩
  · have hlt : c.toNat < 128 := toNat_lt_of_isAlphanum_or (by decide) hascii
    exact forall_ascii (p := fun c => isAsciiWord c = true → isBlank c = false) (by decide) hlt hascii
  · obtain ⟨word, hword, hin⟩ := List.any_eq_true.mp htable
    simp only [Bool.and_eq_true, decide_eq_true_eq] at hin
    cases hblank : isBlank c with
    | false => rfl
    | true =>
      obtain ⟨blank, hmem, hrange⟩ := exists_blankRange hblank
      have := wordTable_no_blank word hword blank hmem
      omega

end Text

/-! ### Plain names -/

namespace Lexeme

/-- The characters of a plain name: ASCII letters, digits and hyphens. -/
def isPlain (c : Char) : Bool := c.isAlphanum || c == '-'

theorem isWordPart_of_isPlain {c : Char} (h : isPlain c = true) :
    isWordPart c = true ∧ isGap c = false := by
  have hlt : c.toNat < 128 := toNat_lt_of_isAlphanum_or (by decide) h
  exact forall_ascii (p := fun c => isPlain c = true → isWordPart c = true ∧ isGap c = false)
    (by decide) hlt h

end Lexeme

end HelpAudit
