import HelpAudit.Proofs.ScriptEncodings

/-! Scripts on a command line. The reader of base64 is strict: padding stands only at the end, and the bits
    under it are zero. It takes exactly the texts that the writer gives, so an encoded script is the one
    text for the bytes of the script in UTF-16, and the script can be read back from those bytes. -/

namespace HelpAudit

namespace Text

/-- The characters of the six-bit numbers, in their order. -/
def base64Alphabet : List Char :=
  "ABCDEFGHIJKLMNOPQRSTUVWXYZabcdefghijklmnopqrstuvwxyz0123456789+/".toList

/-- The six-bit number of a character. -/
def base64Value? (c : Char) : Option Nat := base64Alphabet.idxOf? c

/-- The bytes of a text in base64. -/
def decodeBase64? : List Char → Option (List UInt8)
  | [] => some []
  | [a, b, '=', '='] => do
    let x ← base64Value? a
    let y ← base64Value? b
    if y % 16 = 0 then return [.ofNat (x * 4 + y / 16)] else none
  | [a, b, c, '='] => do
    let x ← base64Value? a
    let y ← base64Value? b
    let z ← base64Value? c
    if z % 4 = 0 then return [.ofNat (x * 4 + y / 16), .ofNat (y % 16 * 16 + z / 4)] else none
  | a :: b :: c :: d :: rest => do
    let x ← base64Value? a
    let y ← base64Value? b
    let z ← base64Value? c
    let w ← base64Value? d
    return .ofNat (x * 4 + y / 16) :: .ofNat (y % 16 * 16 + z / 4) :: .ofNat (z % 4 * 64 + w) ::
      (← decodeBase64? rest)
  | _ => none

/-! ### The alphabet -/

theorem base64Alphabet_eq : base64Alphabet = (List.range 64).map base64Char := by decide

theorem base64Value?_base64Char : ∀ n < 64, base64Value? (base64Char n) = some n := by decide

theorem base64Value?_eq_some {c : Char} {n : Nat} (h : base64Value? c = some n) :
    n < 64 ∧ base64Char n = c := by
  obtain ⟨hlt, hget, -⟩ := List.idxOf?_eq_some_iff.mp h
  simp only [base64Alphabet_eq, List.length_map, List.length_range, List.getElem_map,
    List.getElem_range] at hlt hget
  exact ⟨hlt, hget⟩

theorem base64Char_mem : ∀ n < 64, base64Char n ∈ base64Alphabet := by decide

theorem base64Char_ne_padding : ∀ n < 64, base64Char n ≠ '=' := by decide

/-! ### Groups of bytes -/

section Groups

variable {x y z w : Nat} (hx : x < 64) (hy : y < 64) (hz : z < 64)

include hx hy

theorem decodeBase64?_one :
    decodeBase64? [base64Char x, base64Char y, '=', '='] =
      if y % 16 = 0 then some [.ofNat (x * 4 + y / 16)] else none := by
  simp only [decodeBase64?, base64Value?_base64Char, hx, hy, Option.pure_def, Option.bind_eq_bind,
    Option.bind_some]

include hz

theorem decodeBase64?_two :
    decodeBase64? [base64Char x, base64Char y, base64Char z, '='] =
      if z % 4 = 0 then some [.ofNat (x * 4 + y / 16), .ofNat (y % 16 * 16 + z / 4)] else none := by
  rw [decodeBase64?]
  · simp only [base64Value?_base64Char, hx, hy, hz, Option.pure_def, Option.bind_eq_bind, Option.bind_some]
  · exact base64Char_ne_padding z hz

theorem decodeBase64?_three (hw : w < 64) (rest : List Char) :
    decodeBase64? (base64Char x :: base64Char y :: base64Char z :: base64Char w :: rest) =
      (decodeBase64? rest).map fun bytes =>
        .ofNat (x * 4 + y / 16) :: .ofNat (y % 16 * 16 + z / 4) :: .ofNat (z % 4 * 64 + w) :: bytes := by
  rw [decodeBase64?]
  · simp only [base64Value?_base64Char, hx, hy, hz, hw, Option.pure_def, Option.bind_eq_bind,
      Option.bind_some, Option.map_eq_bind, Function.comp_def]
  · intro _ hpadding
    exact absurd hpadding (base64Char_ne_padding w hw)
  · intro hpadding
    exact absurd hpadding (base64Char_ne_padding w hw)

end Groups

/-- What is written is read back. -/
theorem decodeBase64?_base64 (bytes : List UInt8) : decodeBase64? (base64 bytes) = some bytes := by
  -- by the groups of the writer; in each, the bits that were parted come together again
  induction bytes using base64.induct with
  | case1 a b c rest ih =>
    have ha := a.toNat_lt
    have hb := b.toNat_lt
    have hc := c.toNat_lt
    have hfirst := byte_of_toNat (n := a.toNat / 4 * 4 + (a.toNat % 4 * 16 + b.toNat / 16) / 16)
      (b := a) (by omega)
    have hsecond := byte_of_toNat (n := (a.toNat % 4 * 16 + b.toNat / 16) % 16 * 16 +
      (b.toNat % 16 * 4 + c.toNat / 64) / 4) (b := b) (by omega)
    have hthird := byte_of_toNat (n := (b.toNat % 16 * 4 + c.toNat / 64) % 4 * 64 + c.toNat % 64)
      (b := c) (by omega)
    rw [base64, decodeBase64?_three (by omega) (by omega) (by omega) (by omega), ih, Option.map_some,
      hfirst, hsecond, hthird]
  | case2 a b =>
    have ha := a.toNat_lt
    have hb := b.toNat_lt
    have hfirst := byte_of_toNat (n := a.toNat / 4 * 4 + (a.toNat % 4 * 16 + b.toNat / 16) / 16)
      (b := a) (by omega)
    have hsecond := byte_of_toNat (n := (a.toNat % 4 * 16 + b.toNat / 16) % 16 * 16 +
      b.toNat % 16 * 4 / 4) (b := b) (by omega)
    rw [base64, decodeBase64?_two (by omega) (by omega) (by omega), if_pos (by omega), hfirst, hsecond]
  | case3 a =>
    have ha := a.toNat_lt
    have hfirst := byte_of_toNat (n := a.toNat / 4 * 4 + a.toNat % 4 * 16 / 16) (b := a) (by omega)
    rw [base64, decodeBase64?_one (by omega) (by omega), if_pos (by omega), hfirst]
  | case4 => rfl

/-- Nothing else is read: every group of characters is the one for its bytes. -/
theorem eq_base64_of_decodeBase64? {text : List Char} {bytes : List UInt8}
    (h : decodeBase64? text = some bytes) : text = base64 bytes := by
  induction text using decodeBase64?.induct generalizing bytes with
  | case1 => cases h; rfl
  -- here the bits under the padding matter: only with zeros the writer gives the same two characters
  | case2 a b =>
    simp only [decodeBase64?, Option.pure_def, Option.bind_eq_bind, Option.bind_eq_some_iff,
      Option.ite_none_right_eq_some, Option.some.injEq] at h
    obtain ⟨x, hx, y, hy, hzero, rfl⟩ := h
    obtain ⟨hx, rfl⟩ := base64Value?_eq_some hx
    obtain ⟨hy, rfl⟩ := base64Value?_eq_some hy
    rw [base64, toNat_byte (by omega), show (x * 4 + y / 16) / 4 = x by omega,
      show (x * 4 + y / 16) % 4 * 16 = y by omega]
  | case3 a b c hc =>
    rw [decodeBase64?.eq_3 a b c hc] at h
    simp only [Option.pure_def, Option.bind_eq_bind, Option.bind_eq_some_iff,
      Option.ite_none_right_eq_some, Option.some.injEq] at h
    obtain ⟨x, hx, y, hy, z, hz, hzero, rfl⟩ := h
    obtain ⟨hx, rfl⟩ := base64Value?_eq_some hx
    obtain ⟨hy, rfl⟩ := base64Value?_eq_some hy
    obtain ⟨hz, rfl⟩ := base64Value?_eq_some hz
    rw [base64, toNat_byte (by omega), toNat_byte (by omega), show (x * 4 + y / 16) / 4 = x by omega,
      show (x * 4 + y / 16) % 4 * 16 + (y % 16 * 16 + z / 4) / 16 = y by omega,
      show (y % 16 * 16 + z / 4) % 16 * 4 = z by omega]
  | case4 a b c d rest hone htwo ih =>
    rw [decodeBase64?.eq_4 a b c d rest hone htwo] at h
    simp only [Option.pure_def, Option.bind_eq_bind, Option.bind_eq_some_iff, Option.some.injEq] at h
    obtain ⟨x, hx, y, hy, z, hz, w, hw, others, hothers, rfl⟩ := h
    obtain ⟨hx, rfl⟩ := base64Value?_eq_some hx
    obtain ⟨hy, rfl⟩ := base64Value?_eq_some hy
    obtain ⟨hz, rfl⟩ := base64Value?_eq_some hz
    obtain ⟨hw, rfl⟩ := base64Value?_eq_some hw
    rw [base64, toNat_byte (by omega), toNat_byte (by omega), toNat_byte (by omega), ih hothers,
      show (x * 4 + y / 16) / 4 = x by omega,
      show (x * 4 + y / 16) % 4 * 16 + (y % 16 * 16 + z / 4) / 16 = y by omega,
      show (y % 16 * 16 + z / 4) % 16 * 4 + (z % 4 * 64 + w) / 64 = z by omega,
      show (z % 4 * 64 + w) % 64 = w by omega]
  | case5 text hnil hone htwo hthree =>
    rw [decodeBase64?.eq_5 text hnil hone htwo hthree] at h
    cases h

/-- Reading accepts exactly what is written. -/
theorem decodeBase64?_eq_some_iff {text : List Char} {bytes : List UInt8} :
    decodeBase64? text = some bytes ↔ text = base64 bytes := by
  constructor
  · exact eq_base64_of_decodeBase64?
  · rintro rfl
    exact decodeBase64?_base64 bytes

/-- Whole groups of four characters, with at most two of them for padding. -/
theorem base64_form (bytes : List UInt8) : 4 ∣ (base64 bytes).length ∧
    ∃ body padding, base64 bytes = body ++ List.replicate padding '=' ∧ padding ≤ 2 ∧
      ∀ c ∈ body, c ∈ base64Alphabet := by
  induction bytes using base64.induct with
  | case1 a b c rest ih =>
    have ha := a.toNat_lt
    have hb := b.toNat_lt
    have hc := c.toNat_lt
    obtain ⟨hlength, body, padding, hbody, hle, hmem⟩ := ih
    refine ⟨?_, _ :: _ :: _ :: _ :: body, padding, by rw [base64, hbody]; rfl, hle, ?_⟩
    · rw [base64]
      simp only [List.length_cons]
      omega
    · simp only [List.forall_mem_cons]
      exact ⟨base64Char_mem _ (by omega), base64Char_mem _ (by omega), base64Char_mem _ (by omega),
        base64Char_mem _ (by omega), hmem⟩
  | case2 a b =>
    have ha := a.toNat_lt
    have hb := b.toNat_lt
    refine ⟨Nat.dvd_refl 4, [_, _, _], 1, rfl, by decide, ?_⟩
    simp only [List.forall_mem_cons]
    exact ⟨base64Char_mem _ (by omega), base64Char_mem _ (by omega), base64Char_mem _ (by omega),
      fun _ h => absurd h List.not_mem_nil⟩
  | case3 a =>
    have ha := a.toNat_lt
    refine ⟨Nat.dvd_refl 4, [_, _], 2, rfl, by decide, ?_⟩
    simp only [List.forall_mem_cons]
    exact ⟨base64Char_mem _ (by omega), base64Char_mem _ (by omega),
      fun _ h => absurd h List.not_mem_nil⟩
  | case4 => exact ⟨⟨0, rfl⟩, [], 0, rfl, by decide, fun _ h => absurd h List.not_mem_nil⟩

end Text

/-! ### Scripts -/

theorem toList_encodeCommand (s : String) :
    (encodeCommand s).toList = Text.base64 (Text.utf16 .littleEndian s.toList) := String.toList_ofList

theorem encodeCommand_injective : Function.Injective encodeCommand := by
  intro s t h
  have hbytes : Text.utf16 .littleEndian s.toList = Text.utf16 .littleEndian t.toList := by
    apply Option.some.inj
    rw [← Text.decodeBase64?_base64, ← toList_encodeCommand, h, toList_encodeCommand,
      Text.decodeBase64?_base64]
  apply String.toList_inj.mp
  rw [← Text.decodeUtf16_utf16 .littleEndian s.toList, hbytes, Text.decodeUtf16_utf16]

/-- An encoded script consists of groups of four characters of base64, the last one filled up. It is the
    only text whose bytes are the script in UTF-16, so different scripts differ when encoded, and behind a
    mark for the byte order the bytes are read as the script. -/
theorem encoded_command_read_back :
    (∀ s : String,
      4 ∣ (encodeCommand s).length ∧
      (∃ body padding, (encodeCommand s).toList = body ++ List.replicate padding '=' ∧ padding ≤ 2 ∧
        ∀ c ∈ body, c ∈ Text.base64Alphabet) ∧
      (∀ text, Text.decodeBase64? text = some (Text.utf16 .littleEndian s.toList) ↔
        text = (encodeCommand s).toList) ∧
      (s.toList.head? ≠ some '\ufeff' →
        (Text.decodeBase64? (encodeCommand s).toList).map (fun bytes => decodeScript (0xFF :: 0xFE :: bytes)) =
          some s)) ∧
    Function.Injective encodeCommand := by
  refine ⟨fun s => ?_, encodeCommand_injective⟩
  obtain ⟨hlength, hform⟩ := Text.base64_form (Text.utf16 .littleEndian s.toList)
  rw [← toList_encodeCommand] at hlength hform
  refine ⟨String.length_toList ▸ hlength, hform, fun text => ?_, fun hmark => ?_⟩
  · rw [toList_encodeCommand]
    exact Text.decodeBase64?_eq_some_iff
  · rw [toList_encodeCommand, Text.decodeBase64?_base64, Option.map_some]
    exact congrArg some (decodeScript_of_mem_scriptEncodings hmark (by simp [scriptEncodings]))

/-- A surrogate pair, and two bytes in the last group. -/
theorem encoded_command_read_back_pair :
    encodeCommand "é😀a" = "6QA92ADeYQA=" ∧
    (Text.decodeBase64? "6QA92ADeYQA=".toList).map (fun bytes => decodeScript (0xFF :: 0xFE :: bytes)) =
      some "é😀a" := by
  have hencoded : encodeCommand "é😀a" = "6QA92ADeYQA=" := by decide
  refine ⟨hencoded, ?_⟩
  have hread := (encoded_command_read_back.1 "é😀a").2.2.2 (by decide)
  rwa [hencoded] at hread

end HelpAudit
