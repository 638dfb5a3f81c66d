import Mathlib.Data.List.Nodup
import HelpAudit.Text.Utf16
import HelpAudit.Text.Windows1252

/-! Texts and their encodings. UTF-8 is the library's encoding of strings, and `decodeUtf8?` takes exactly
    the encodings of texts and gives the texts back: a first byte fixes the length of a character and the
    range of its second byte, so that every number is in the one form that the encoding has for it. UTF-16
    is read back in both byte orders, and Windows-1252 gives every byte a character of its own. -/

namespace HelpAudit.Text

/-! ### Numbers of characters and bytes -/

theorem toNat_valid (c : Char) : c.toNat < 0xD800 ∨ 0xDFFF < c.toNat ∧ c.toNat < 0x110000 :=
  c.valid

theorem toNat_ofNat {n : Nat} (h : n < 0xD800 ∨ 0xDFFF < n ∧ n < 0x110000) :
    (Char.ofNat n).toNat = n := by
  rw [Char.ofNat, dif_pos h]
  rfl

theorem toNat_byte {n : Nat} (h : n < 256) : (UInt8.ofNat n).toNat = n :=
  UInt8.toNat_ofNat_of_lt' h

theorem byte_of_toNat {n : Nat} {b : UInt8} (h : n = b.toNat) : UInt8.ofNat n = b := by
  rw [h, UInt8.ofNat_toNat]

theorem toNat_continuation (n : Nat) : (continuation n).toNat = 0x80 + n % 64 :=
  toNat_byte (by omega)

theorem continuation_of_toNat {n : Nat} {b : UInt8} (h : 0x80 + n % 64 = b.toNat) :
    continuation n = b :=
  byte_of_toNat h

/-! ### The first byte of a character in UTF-8 -/

theorem leadByte?_two : ∀ bits < 32, 2 ≤ bits →
    leadByte? (0xC0 + bits) = some ⟨bits, 0x80, 0xBF, 0⟩ := by
  decide

/-- The second of three bytes leaves out shorter forms and surrogates. -/
theorem leadByte?_three : ∀ bits < 16, leadByte? (0xE0 + bits) =
    some ⟨bits, if bits = 0 then 0xA0 else 0x80, if bits = 13 then 0x9F else 0xBF, 1⟩ := by
  decide

/-- The second of four bytes leaves out shorter forms and numbers past the last code point. -/
theorem leadByte?_four : ∀ bits < 5, leadByte? (0xF0 + bits) =
    some ⟨bits, if bits = 0 then 0x90 else 0x80, if bits = 4 then 0x8F else 0xBF, 2⟩ := by
  decide

theorem leadByte?_cases {b : Nat} {lead : LeadByte} (h : leadByte? b = some lead) :
    (∃ bits < 32, 2 ≤ bits ∧ b = 0xC0 + bits) ∨ (∃ bits < 16, b = 0xE0 + bits) ∨
      ∃ bits < 5, b = 0xF0 + bits := by
  have hrange : 0xC2 ≤ b ∧ b ≤ 0xF4 := by
    by_contra hout
    rw [leadByte?, if_neg (by omega), if_neg (by omega), if_neg (by omega), if_neg (by omega),
      if_neg (by omega), if_neg (by omega), if_neg (by omega)] at h
    cases h
  by_cases htwo : b ≤ 0xDF
  · exact .inl ⟨b - 0xC0, by omega, by omega, by omega⟩
  · by_cases hthree : b ≤ 0xEF
    · exact .inr (.inl ⟨b - 0xE0, by omega, by omega⟩)
    · exact .inr (.inr ⟨b - 0xF0, by omega, by omega⟩)

/-! ### One character in UTF-8 -/

theorem utf8Tail_continuation (n length more m : Nat) (bytes : List UInt8) :
    utf8Tail n length (more + 1) (continuation m :: bytes) =
      utf8Tail (n * 64 + m % 64) (length + 1) more bytes := by
  have hrange : 0x80 ≤ (continuation m).toNat ∧ (continuation m).toNat ≤ 0xBF := by
    rw [toNat_continuation]
    omega
  rw [utf8Tail, if_pos hrange, toNat_continuation, Nat.add_sub_cancel_left]

theorem utf8Tail_inv {n length more total : Nat} {bytes : List UInt8} {c : Char}
    (h : utf8Tail n length (more + 1) bytes = .char c total) :
    ∃ b rest, bytes = b :: rest ∧ 0x80 ≤ b.toNat ∧ b.toNat ≤ 0xBF ∧
      utf8Tail (n * 64 + (b.toNat - 0x80)) (length + 1) more rest = .char c total := by
  cases bytes with
  | nil => cases h
  | cons b rest =>
    rw [utf8Tail] at h
    split at h
    · rename_i hrange
      exact ⟨b, rest, rfl, hrange.1, hrange.2, h⟩
    · cases h

theorem utf8Head_ascii {b : UInt8} (h : b.toNat < 0x80) (bytes : List UInt8) :
    utf8Head b bytes = .char (Char.ofNat b.toNat) 1 := by
  rw [utf8Head.eq_def, if_pos h]

theorem utf8Head_lead {b second : UInt8} {lead : LeadByte} (hb : 0x80 ≤ b.toNat)
    (hlead : leadByte? b.toNat = some lead)
    (hsecond : lead.low ≤ second.toNat ∧ second.toNat ≤ lead.high) (bytes : List UInt8) :
    utf8Head b (second :: bytes) =
      utf8Tail (lead.bits * 64 + (second.toNat - 0x80)) 2 lead.more bytes := by
  rw [utf8Head.eq_def, if_neg (by omega), hlead]
  exact if_pos hsecond

/-- A character is one ASCII byte, or a first byte, a second one in its range and continuations. -/
theorem utf8Head_inv {b : UInt8} {bytes : List UInt8} {c : Char} {length : Nat}
    (h : utf8Head b bytes = .char c length) :
    (b.toNat < 0x80 ∧ Char.ofNat b.toNat = c ∧ 1 = length) ∨
      ∃ lead second rest, leadByte? b.toNat = some lead ∧ bytes = second :: rest ∧
        (lead.low ≤ second.toNat ∧ second.toNat ≤ lead.high) ∧
        utf8Tail (lead.bits * 64 + (second.toNat - 0x80)) 2 lead.more rest = .char c length := by
  rw [utf8Head.eq_def] at h
  split at h
  · rename_i hascii
    injection h with hc hlength
    exact .inl ⟨hascii, hc, hlength⟩
  · split at h
    · rename_i lead second rest hlead
      split at h
      · rename_i hsecond
        exact .inr ⟨lead, second, rest, hlead, rfl, hsecond, h⟩
      · cases h
    · cases h

section Numbers

variable {n : Nat} {first second third fourth : UInt8}

theorem utf8Head_two (hleast : 0x80 ≤ n) (hlast : n < 0x800) (rest : List UInt8) :
    utf8Head (.ofNat (0xC0 + n / 64)) (continuation n :: rest) = .char (Char.ofNat n) 2 := by
  have hfirst : (UInt8.ofNat (0xC0 + n / 64)).toNat = 0xC0 + n / 64 := toNat_byte (by omega)
  have hlead := leadByte?_two (n / 64) (by omega) (by omega)
  rw [utf8Head_lead (by omega) (hfirst ▸ hlead) (by simp only [toNat_continuation]; omega)]
  rw [utf8Tail, toNat_continuation, Nat.add_sub_cancel_left, Nat.div_add_mod']

theorem utf8Head_three (hleast : 0x800 ≤ n) (hlast : n < 0x10000) (hvalid : n < 0xD800 ∨ 0xDFFF < n)
    (rest : List UInt8) :
    utf8Head (.ofNat (0xE0 + n / 4096)) (continuation (n / 64) :: continuation n :: rest) =
      .char (Char.ofNat n) 3 := by
  have hfirst : (UInt8.ofNat (0xE0 + n / 4096)).toNat = 0xE0 + n / 4096 := toNat_byte (by omega)
  have hlead := leadByte?_three (n / 4096) (by omega)
  have hvalue : (n / 4096 * 64 + n / 64 % 64) * 64 + n % 64 = n := by omega
  rw [utf8Head_lead (by omega) (hfirst ▸ hlead)
    (by simp only [toNat_continuation]; split_ifs <;> omega)]
  rw [utf8Tail_continuation, utf8Tail, toNat_continuation, Nat.add_sub_cancel_left, hvalue]

theorem utf8Head_four (hleast : 0x10000 ≤ n) (hlast : n < 0x110000) (rest : List UInt8) :
    utf8Head (.ofNat (0xF0 + n / 262144))
        (continuation (n / 4096) :: continuation (n / 64) :: continuation n :: rest) =
      .char (Char.ofNat n) 4 := by
  have hfirst : (UInt8.ofNat (0xF0 + n / 262144)).toNat = 0xF0 + n / 262144 := toNat_byte (by omega)
  have hlead := leadByte?_four (n / 262144) (by omega)
  have hvalue : ((n / 262144 * 64 + n / 4096 % 64) * 64 + n / 64 % 64) * 64 + n % 64 = n := by omega
  rw [utf8Head_lead (by omega) (hfirst ▸ hlead)
    (by simp only [toNat_continuation]; split_ifs <;> omega)]
  rw [utf8Tail_continuation, utf8Tail_continuation, utf8Tail, toNat_continuation,
    Nat.add_sub_cancel_left, hvalue]

theorem utf8Char_two (hleast : 0x80 ≤ n) (hlast : n < 0x800) (hfirst : 0xC0 + n / 64 = first.toNat)
    (hsecond : 0x80 + n % 64 = second.toNat) : utf8Char (Char.ofNat n) = [first, second] := by
  rw [utf8Char, toNat_ofNat (by omega), if_neg (by omega), if_pos hlast, byte_of_toNat hfirst,
    continuation_of_toNat hsecond]

theorem utf8Char_three (hleast : 0x800 ≤ n) (hlast : n < 0x10000) (hvalid : n < 0xD800 ∨ 0xDFFF < n)
    (hfirst : 0xE0 + n / 4096 = first.toNat) (hsecond : 0x80 + n / 64 % 64 = second.toNat)
    (hthird : 0x80 + n % 64 = third.toNat) : utf8Char (Char.ofNat n) = [first, second, third] := by
  rw [utf8Char, toNat_ofNat (by omega), if_neg (by omega), if_neg (by omega), if_pos hlast,
    byte_of_toNat hfirst, continuation_of_toNat hsecond, continuation_of_toNat hthird]

theorem utf8Char_four (hleast : 0x10000 ≤ n) (hlast : n < 0x110000)
    (hfirst : 0xF0 + n / 262144 = first.toNat) (hsecond : 0x80 + n / 4096 % 64 = second.toNat)
    (hthird : 0x80 + n / 64 % 64 = third.toNat) (hfourth : 0x80 + n % 64 = fourth.toNat) :
    utf8Char (Char.ofNat n) = [first, second, third, fourth] := by
  rw [utf8Char, toNat_ofNat (by omega), if_neg (by omega), if_neg (by omega), if_neg (by omega),
    byte_of_toNat hfirst, continuation_of_toNat hsecond, continuation_of_toNat hthird,
    continuation_of_toNat hfourth]

end Numbers

/-- The bytes of a character are read as the character, whatever follows them. -/
theorem utf8Head_utf8Char (c : Char) : ∃ b bytes, utf8Char c = b :: bytes ∧
    ∀ rest, utf8Head b (bytes ++ rest) = .char c (bytes.length + 1) := by
  have hvalid := toNat_valid c
  have hback : Char.ofNat c.toNat = c := Char.ofNat_toNat c
  rw [utf8Char]
  split_ifs with hone htwo hthree
  · have hb : (UInt8.ofNat c.toNat).toNat = c.toNat := toNat_byte (by omega)
    refine ⟨_, _, rfl, ?_⟩
    intro rest
    rw [utf8Head_ascii (by omega), hb, hback]
    rfl
  · refine ⟨_, _, rfl, ?_⟩
    intro rest
    exact (utf8Head_two (by omega) htwo rest).trans (by rw [hback]; rfl)
  · refine ⟨_, _, rfl, ?_⟩
    intro rest
    exact (utf8Head_three (by omega) hthree (by omega) rest).trans (by rw [hback]; rfl)
  · refine ⟨_, _, rfl, ?_⟩
    intro rest
    exact (utf8Head_four (by omega) (by omega) rest).trans (by rw [hback]; rfl)

/-- What is read as a character are the bytes of the character. -/
theorem utf8Char_of_utf8Head {b : UInt8} {bytes : List UInt8} {c : Char} {length : Nat}
    (h : utf8Head b bytes = .char c length) :
    ∃ tail rest, bytes = tail ++ rest ∧ utf8Char c = b :: tail ∧ length = tail.length + 1 := by
  rcases utf8Head_inv h with ⟨hascii, rfl, rfl⟩ | ⟨lead, second, rest, hlead, rfl, hsecond, htail⟩
  · have hc : (Char.ofNat b.toNat).toNat = b.toNat := toNat_ofNat (by omega)
    refine ⟨[], bytes, rfl, ?_, rfl⟩
    rw [utf8Char, hc, if_pos hascii, UInt8.ofNat_toNat]
  -- the first byte fixes the length; the range of the second one keeps out longer forms and surrogates
  rcases leadByte?_cases hlead with ⟨bits, hbits, hleast, hb⟩ | ⟨bits, hbits, hb⟩ | ⟨bits, hbits, hb⟩
  · rw [hb, leadByte?_two bits hbits hleast, Option.some_inj] at hlead
    subst hlead
    simp only at hsecond htail
    injection htail with hc hlength
    subst hc hlength
    exact ⟨[second], rest, rfl, utf8Char_two (by omega) (by omega) (by omega) (by omega), rfl⟩
  · rw [hb, leadByte?_three bits hbits, Option.some_inj] at hlead
    subst hlead
    simp only at hsecond htail
    obtain ⟨third, rest, rfl, hthird, hthird', htail⟩ := utf8Tail_inv htail
    injection htail with hc hlength
    subst hc hlength
    have hvalue : 0x80 ≤ second.toNat ∧ second.toNat ≤ 0xBF ∧ (bits = 0 → 0xA0 ≤ second.toNat) ∧
        (bits = 13 → second.toNat ≤ 0x9F) := by
      split_ifs at hsecond <;> omega
    exact ⟨[second, third], rest, rfl, utf8Char_three (by omega) (by omega) (by omega) (by omega)
      (by omega) (by omega), rfl⟩
  · rw [hb, leadByte?_four bits hbits, Option.some_inj] at hlead
    subst hlead
    simp only at hsecond htail
    obtain ⟨third, rest, rfl, hthird, hthird', htail⟩ := utf8Tail_inv htail
    obtain ⟨fourth, rest, rfl, hfourth, hfourth', htail⟩ := utf8Tail_inv htail
    injection htail with hc hlength
    subst hc hlength
    have hvalue : 0x80 ≤ second.toNat ∧ second.toNat ≤ 0xBF ∧ (bits = 0 → 0x90 ≤ second.toNat) ∧
        (bits = 4 → second.toNat ≤ 0x8F) := by
      split_ifs at hsecond <;> omega
    exact ⟨[second, third, fourth], rest, rfl, utf8Char_four (by omega) (by omega) (by omega)
      (by omega) (by omega) (by omega), rfl⟩

/-! ### Texts in UTF-8 -/

theorem decodeFrom?_skip : ∀ (skip : Nat) (bytes : List UInt8),
    decodeFrom? skip bytes = decodeFrom? 0 (bytes.drop skip)
  | 0, _ => rfl
  | _ + 1, [] => rfl
  | skip + 1, _ :: bytes => decodeFrom?_skip skip bytes

/-- The bytes of a character are read off the front of what is decoded. -/
theorem decodeUtf8?_utf8Char (c : Char) (bytes : List UInt8) :
    decodeUtf8? (utf8Char c ++ bytes) = (decodeUtf8? bytes).map (c :: ·) := by
  obtain ⟨b, tail, hchar, hread⟩ := utf8Head_utf8Char c
  rw [hchar, List.cons_append, decodeUtf8?, decodeFrom?, hread]
  simp only [Nat.add_sub_cancel]
  rw [decodeFrom?_skip, List.drop_left, decodeUtf8?]

/-- Bytes that are read as a text are its encoding. -/
theorem eq_utf8_of_decodeFrom? {bytes : List UInt8} {skip : Nat} {cs : List Char}
    (h : decodeFrom? skip bytes = some cs) : bytes.drop skip = utf8 cs := by
  induction bytes generalizing skip cs with
  | nil =>
    rw [decodeFrom?, Option.some_inj] at h
    rw [← h, List.drop_nil]
    rfl
  | cons b bytes ih =>
    cases skip with
    | succ skip => exact ih h
    | zero =>
      rw [decodeFrom?] at h
      split at h
      · rename_i c length hhead
        obtain ⟨rest, hrest, rfl⟩ := Option.map_eq_some_iff.mp h
        obtain ⟨tail, after, rfl, hchar, rfl⟩ := utf8Char_of_utf8Head hhead
        have hafter := ih hrest
        rw [Nat.add_sub_cancel, List.drop_left] at hafter
        simp [hafter, utf8, hchar]
      · cases h

/-- Decoding takes exactly the bytes of texts, and gives the text. -/
theorem decodeUtf8?_eq_some_iff {bytes : List UInt8} {cs : List Char} :
    decodeUtf8? bytes = some cs ↔ bytes = utf8 cs := by
  constructor
  · intro h
    exact eq_utf8_of_decodeFrom? h
  · rintro rfl
    induction cs with
    | nil => rfl
    | cons c cs ih => rw [utf8, List.flatMap_cons, decodeUtf8?_utf8Char, ← utf8, ih, Option.map_some]

/-- The bytes of a character are those that strings have for it. -/
theorem utf8Char_eq (c : Char) : utf8Char c = String.utf8EncodeChar c := by
  have hvalid := toNat_valid c
  have hval : c.val.toNat = c.toNat := rfl
  have hcontinuation : ∀ n, continuation n = UInt8.ofNat (n % 64 + 128) := by
    intro n
    rw [continuation, Nat.add_comm]
  have hone : c.toNat ≤ 127 ↔ c.toNat < 0x80 := by omega
  have htwo : c.toNat ≤ 2047 ↔ c.toNat < 0x800 := by omega
  have hthree : c.toNat ≤ 65535 ↔ c.toNat < 0x10000 := by omega
  simp only [utf8Char, String.utf8EncodeChar, hval, hone, htwo, hthree, hcontinuation]
  split_ifs with h1 h2 h3
  · rfl
  · rw [show 0xC0 + c.toNat / 64 = c.toNat / 64 % 32 + 192 by omega]
  · rw [show 0xE0 + c.toNat / 4096 = c.toNat / 4096 % 16 + 224 by omega]
  · rw [show 0xF0 + c.toNat / 262144 = c.toNat / 262144 % 8 + 240 by omega]

theorem toList_utf8Encode (cs : List Char) : cs.utf8Encode.data.toList = utf8 cs := by
  rw [List.utf8Encode, List.toList_data_toByteArray, utf8]
  exact (List.flatMap_congr fun c _ => utf8Char_eq c).symm

/-- The bytes of a text are those of the string. -/
theorem toList_toUTF8 (s : String) : s.toUTF8.data.toList = utf8 s.toList := by
  rw [← toList_utf8Encode, String.utf8Encode_toList, String.toUTF8_eq_toByteArray]

/-- Bytes are valid UTF-8 if they have a text. -/
theorem isValidUTF8_iff (bytes : List UInt8) :
    bytes.toByteArray.IsValidUTF8 ↔ (decodeUtf8? bytes).isSome := by
  rw [Option.isSome_iff_exists]
  constructor
  · rintro ⟨cs, hbytes⟩
    refine ⟨cs, decodeUtf8?_eq_some_iff.mpr ?_⟩
    rw [← toList_utf8Encode, ← hbytes, List.toList_data_toByteArray]
  · rintro ⟨cs, hdecode⟩
    refine ⟨cs, ?_⟩
    rw [decodeUtf8?_eq_some_iff.mp hdecode, List.utf8Encode, utf8]
    exact congrArg List.toByteArray (List.flatMap_congr fun c _ => utf8Char_eq c)

/-! ### UTF-16 -/

/-- Units are paired back from their bytes in either order. -/
theorem pairBytes_unitBytes (order : ByteOrder) : ∀ units : List Nat, (∀ unit ∈ units, unit < 0x10000) →
    pairBytes order (units.flatMap (unitBytes order)) = (units, false)
  | [], _ => rfl
  | unit :: units, h => by
    have hunit : unit < 0x10000 := h unit List.mem_cons_self
    have ih := pairBytes_unitBytes order units fun other hmem => h other (List.mem_cons_of_mem _ hmem)
    have hlow : (UInt8.ofNat (unit % 256)).toNat = unit % 256 := toNat_byte (by omega)
    have hhigh : (UInt8.ofNat (unit / 256)).toNat = unit / 256 := toNat_byte (by omega)
    cases order with
    | littleEndian =>
      simp only [List.flatMap_cons, unitBytes, List.cons_append, List.nil_append, pairBytes] at ih ⊢
      rw [ih, hlow, hhigh, Nat.div_add_mod']
    | bigEndian =>
      simp only [List.flatMap_cons, unitBytes, List.cons_append, List.nil_append, pairBytes] at ih ⊢
      rw [ih, hlow, hhigh, Nat.div_add_mod']

theorem utf16Char_lt (c : Char) : ∀ unit ∈ utf16Char c, unit < 0x10000 := by
  have hvalid := toNat_valid c
  rw [utf16Char]
  split_ifs <;> simp <;> omega

/-- A unit that is no surrogate is a character of its own. -/
theorem decodeUnits_single {unit : Nat} (hhigh : isHighSurrogate unit = false)
    (hlow : isLowSurrogate unit = false) (units : List Nat) :
    decodeUnits false (unit :: units) = Char.ofNat unit :: decodeUnits false units := by
  cases units with
  | nil => simp [decodeUnits, hhigh, hlow]
  | cons next rest => simp [decodeUnits, hhigh, hlow]

/-- A character is read back from its one or two units. -/
theorem decodeUnits_utf16Char (c : Char) (units : List Nat) :
    decodeUnits false (utf16Char c ++ units) = c :: decodeUnits false units := by
  have hvalid := toNat_valid c
  have hback : Char.ofNat c.toNat = c := Char.ofNat_toNat c
  rw [utf16Char]
  split_ifs with hsingle
  · have hhigh : isHighSurrogate c.toNat = false := by
      simp only [isHighSurrogate, Bool.and_eq_false_iff, decide_eq_false_iff_not]
      omega
    have hlow : isLowSurrogate c.toNat = false := by
      simp only [isLowSurrogate, Bool.and_eq_false_iff, decide_eq_false_iff_not]
      omega
    rw [List.singleton_append, decodeUnits_single hhigh hlow, hback]
  · have hhigh : isHighSurrogate (0xD800 + (c.toNat - 0x10000) / 0x400) = true := by
      simp only [isHighSurrogate, Bool.and_eq_true, decide_eq_true_eq]
      omega
    have hlow : isLowSurrogate (0xDC00 + (c.toNat - 0x10000) % 0x400) = true := by
      simp only [isLowSurrogate, Bool.and_eq_true, decide_eq_true_eq]
      omega
    -- the two halves give back the number that was parted
    have hvalue : 0x10000 + (0xD800 + (c.toNat - 0x10000) / 0x400 - 0xD800) * 0x400 +
        (0xDC00 + (c.toNat - 0x10000) % 0x400 - 0xDC00) = c.toNat := by omega
    rw [List.cons_append, List.singleton_append, decodeUnits, if_pos hhigh, if_pos hlow, hvalue, hback]

theorem decodeUnits_utf16Units (cs : List Char) : decodeUnits false (utf16Units cs) = cs := by
  induction cs with
  | nil => rfl
  | cons c cs ih => rw [utf16Units, List.flatMap_cons, decodeUnits_utf16Char, ← utf16Units, ih]

/-- A text in UTF-16 is read back in its byte order. -/
theorem decodeUtf16_utf16 (order : ByteOrder) (cs : List Char) :
    decodeUtf16 order (utf16 order cs) = cs := by
  have hunits : ∀ unit ∈ utf16Units cs, unit < 0x10000 := by
    intro unit hmem
    obtain ⟨c, -, hunit⟩ := List.mem_flatMap.mp hmem
    exact utf16Char_lt c unit hunit
  rw [decodeUtf16, utf16, pairBytes_unitBytes order _ hunits]
  exact decodeUnits_utf16Units cs

/-! ### Windows-1252 -/

/-- The number of the character of a byte. -/
def windows1252Number (n : Nat) : Nat :=
  if 0x80 ≤ n ∧ n < 0xA0 then windows1252Table.getD (n - 0x80) n else n

theorem windows1252Table_nodup : windows1252Table.Nodup := by decide

/-- The table keeps a number, or gives one that is no byte. -/
theorem windows1252Table_range :
    ∀ n ∈ windows1252Table, (0x80 ≤ n ∧ n < 0xA0) ∨ (0x100 ≤ n ∧ n < 0x2200) := by
  decide

theorem windows1252Number_of_mem {n : Nat} (hleast : 0x80 ≤ n) (hlast : n < 0xA0) :
    ∃ h : n - 0x80 < windows1252Table.length, windows1252Number n = windows1252Table[n - 0x80] := by
  have hlength : windows1252Table.length = 32 := rfl
  refine ⟨by omega, ?_⟩
  rw [windows1252Number, if_pos ⟨hleast, hlast⟩, List.getD_eq_getElem?_getD,
    List.getElem?_eq_getElem (by omega), Option.getD_some]

theorem windows1252Number_of_not_mem {n : Nat} (h : ¬(0x80 ≤ n ∧ n < 0xA0)) :
    windows1252Number n = n :=
  if_neg h

theorem windows1252Number_lt {n : Nat} (h : n < 256) : windows1252Number n < 0x2200 := by
  by_cases htable : 0x80 ≤ n ∧ n < 0xA0
  · obtain ⟨hindex, hnumber⟩ := windows1252Number_of_mem htable.1 htable.2
    have hrange := windows1252Table_range _ (List.getElem_mem hindex)
    omega
  · rw [windows1252Number_of_not_mem htable]
    omega

/-- No two bytes have the same number: the table has numbers of its own, and none of the other bytes. -/
theorem windows1252Number_inj {m n : Nat} (hm : m < 256) (hn : n < 256)
    (h : windows1252Number m = windows1252Number n) : m = n := by
  by_cases hmtable : 0x80 ≤ m ∧ m < 0xA0 <;> by_cases hntable : 0x80 ≤ n ∧ n < 0xA0
  · obtain ⟨hmindex, hmnumber⟩ := windows1252Number_of_mem hmtable.1 hmtable.2
    obtain ⟨hnindex, hnnumber⟩ := windows1252Number_of_mem hntable.1 hntable.2
    rw [hmnumber, hnnumber, List.Nodup.getElem_inj_iff windows1252Table_nodup] at h
    omega
  · obtain ⟨hindex, hnumber⟩ := windows1252Number_of_mem hmtable.1 hmtable.2
    have hrange := windows1252Table_range _ (List.getElem_mem hindex)
    rw [windows1252Number_of_not_mem hntable] at h
    omega
  · obtain ⟨hindex, hnumber⟩ := windows1252Number_of_mem hntable.1 hntable.2
    have hrange := windows1252Table_range _ (List.getElem_mem hindex)
    rw [windows1252Number_of_not_mem hmtable] at h
    omega
  · rwa [windows1252Number_of_not_mem hmtable, windows1252Number_of_not_mem hntable] at h

theorem toNat_windows1252Char (b : UInt8) :
    (windows1252Char b).toNat = windows1252Number b.toNat := by
  have hlt := windows1252Number_lt b.toNat_lt
  exact toNat_ofNat (by rw [windows1252Number] at hlt; omega)

/-- Every byte has a character of its own. -/
theorem windows1252Char_injective : Function.Injective windows1252Char := by
  intro a b h
  have hnumber := congrArg Char.toNat h
  rw [toNat_windows1252Char, toNat_windows1252Char] at hnumber
  exact UInt8.toNat_inj.mp (windows1252Number_inj a.toNat_lt b.toNat_lt hnumber)

theorem windows1252Char_ascii {b : UInt8} (h : b.toNat < 0x80) :
    windows1252Char b = Char.ofNat b.toNat := by
  rw [windows1252Char, if_neg (by omega)]

theorem decodeWindows1252_injective : Function.Injective decodeWindows1252 :=
  List.map_injective_iff.mpr windows1252Char_injective

end HelpAudit.Text
