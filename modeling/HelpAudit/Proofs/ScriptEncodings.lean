import HelpAudit.Engine.Files
import HelpAudit.Proofs.EncodedText
import HelpAudit.Proofs.QuotedText

/-! The text of a script does not depend on how its file is encoded: UTF-8 with or without a mark, and
    UTF-16 in either byte order, are read as the same text, so their analyses are the same. All other
    files are read byte by byte, and nothing of them is lost. -/

namespace HelpAudit

/-- The marks by which a file tells its encoding: of UTF-8, and of UTF-16 in both byte orders. -/
def byteOrderMarks : List (List UInt8) := [[0xEF, 0xBB, 0xBF], [0xFF, 0xFE], [0xFE, 0xFF]]

/-- The files that hold a text: in UTF-8 without and with a mark, and in UTF-16 in both byte orders. -/
def scriptEncodings (s : String) : List (List UInt8) :=
  [s.toUTF8.data.toList, [0xEF, 0xBB, 0xBF] ++ s.toUTF8.data.toList,
    [0xFF, 0xFE] ++ Text.utf16 .littleEndian s.toList, [0xFE, 0xFF] ++ Text.utf16 .bigEndian s.toList]

/-- Bytes that are read one by one: they have no mark and are no UTF-8. -/
def IsBytewise (bytes : List UInt8) : Prop :=
  (∀ mark ∈ byteOrderMarks, ¬ mark <+: bytes) ∧ ¬ bytes.toByteArray.IsValidUTF8

instance (bytes : List UInt8) : Decidable (IsBytewise bytes) :=
  decidable_of_iff ((∀ mark ∈ byteOrderMarks, ¬ mark <+: bytes) ∧ ¬ (Text.decodeUtf8? bytes).isSome)
    (and_congr_right fun _ => not_congr (Text.isValidUTF8_iff bytes).symm)

/-! ### Files with a text -/

theorem decodeScript_of_decodeUtf8? {bytes : List UInt8} {cs : List Char}
    (h : Text.decodeUtf8? bytes = some cs) : decodeScript bytes = .ofList (withoutMark cs) := by
  unfold decodeScript
  split
  · cases h
  · cases h
  · rw [h]
    rfl

/-- A mark that is encoded with the text tells the byte order, and is left out. -/
theorem decodeScript_utf16 (order : Text.ByteOrder) (cs : List Char) :
    decodeScript (Text.utf16 order ('\ufeff' :: cs)) = .ofList (withoutMark cs) := by
  cases order with
  | littleEndian =>
    calc decodeScript (Text.utf16 .littleEndian ('\ufeff' :: cs))
      _ = .ofList (withoutMark (Text.decodeUtf16 .littleEndian (Text.utf16 .littleEndian cs))) := rfl
      _ = .ofList (withoutMark cs) := by rw [Text.decodeUtf16_utf16]
  | bigEndian =>
    calc decodeScript (Text.utf16 .bigEndian ('\ufeff' :: cs))
      _ = .ofList (withoutMark (Text.decodeUtf16 .bigEndian (Text.utf16 .bigEndian cs))) := rfl
      _ = .ofList (withoutMark cs) := by rw [Text.decodeUtf16_utf16]

/-- Each file of a text is read as the text. -/
theorem decodeScript_of_mem_scriptEncodings {s : String} (hmark : s.toList.head? ≠ some '\ufeff')
    {bytes : List UInt8} (h : bytes ∈ scriptEncodings s) : decodeScript bytes = s := by
  have hs : String.ofList (withoutMark s.toList) = s := by
    rw [withoutMark_of_head? hmark, String.ofList_toList]
  rw [scriptEncodings, Text.toList_toUTF8] at h
  simp only [List.mem_cons, List.not_mem_nil, or_false] at h
  rcases h with rfl | rfl | rfl | rfl
  · rw [decodeScript_of_decodeUtf8? (Text.decodeUtf8?_eq_some_iff.mpr rfl), hs]
  · -- the mark is the character U+FEFF of the text
    have hbytes : [0xEF, 0xBB, 0xBF] ++ Text.utf8 s.toList = Text.utf8 ('\ufeff' :: s.toList) := rfl
    rw [decodeScript_of_decodeUtf8? (Text.decodeUtf8?_eq_some_iff.mpr hbytes)]
    exact String.ofList_toList
  · have hbytes : [0xFF, 0xFE] ++ Text.utf16 .littleEndian s.toList =
        Text.utf16 .littleEndian ('\ufeff' :: s.toList) := rfl
    rw [hbytes, decodeScript_utf16, hs]
  · have hbytes : [0xFE, 0xFF] ++ Text.utf16 .bigEndian s.toList =
        Text.utf16 .bigEndian ('\ufeff' :: s.toList) := rfl
    rw [hbytes, decodeScript_utf16, hs]

/-! ### Bytes without a text -/

theorem IsBytewise.decodeUtf8?_eq_none {bytes : List UInt8} (h : IsBytewise bytes) :
    Text.decodeUtf8? bytes = none := by
  rw [← Option.not_isSome_iff_eq_none, ← Text.isValidUTF8_iff]
  exact h.2

/-- No byte of Windows-1252 stands for a mark. -/
theorem withoutMark_decodeWindows1252 (bytes : List UInt8) :
    withoutMark (Text.decodeWindows1252 bytes) = Text.decodeWindows1252 bytes := by
  apply withoutMark_of_head?
  intro h
  obtain ⟨b, -, hb⟩ := List.mem_map.mp (List.mem_of_mem_head? h)
  have hnumber := Text.windows1252Number_lt b.toNat_lt
  rw [← Text.toNat_windows1252Char, hb] at hnumber
  exact absurd hnumber (by decide)

theorem IsBytewise.decodeScript_eq {bytes : List UInt8} (h : IsBytewise bytes) :
    decodeScript bytes = .ofList (Text.decodeWindows1252 bytes) := by
  have hmarks := h.1
  simp only [byteOrderMarks, List.forall_mem_cons] at hmarks
  obtain ⟨hutf8, hlittle, hbig, -⟩ := hmarks
  rw [← withoutMark_decodeWindows1252, decodeScript.eq_def]
  split
  · exact absurd (List.prefix_append [0xFF, 0xFE] _) hlittle
  · exact absurd (List.prefix_append [0xFE, 0xFF] _) hbig
  · split
    · rename_i hsome
      rw [h.decodeUtf8?_eq_none] at hsome
      cases hsome
    · exact absurd (List.prefix_append [0xEF, 0xBB, 0xBF] _) hutf8
    · rfl

/-- The text of a script does not depend on how the file is encoded, and neither does its analysis. All
    other bytes are characters of their own. -/
theorem script_text_ignores_encoding :
    (∀ s : String, s.toList.head? ≠ some '\ufeff' → ∀ bytes ∈ scriptEncodings s,
      decodeScript bytes = s ∧
        ∀ (engine : Engine) (clock : String → UInt64) (system : FileSystem) (path : String),
          system.read path = .ok bytes →
            engine.analyzeFile clock system path = engine.analyzeSource clock s (some path)) ∧
    ∀ bytes : List UInt8, IsBytewise bytes →
      (decodeScript bytes).length = bytes.length ∧
      (∀ (i : Nat) (b : UInt8), bytes[i]? = some b → b.toNat < 0x80 →
        (decodeScript bytes).toList[i]? = some (Char.ofNat b.toNat)) ∧
      ∀ others : List UInt8, IsBytewise others → decodeScript others = decodeScript bytes →
        others = bytes := by
  constructor
  · intro s hmark bytes hbytes
    have htext := decodeScript_of_mem_scriptEncodings hmark hbytes
    refine ⟨htext, ?_⟩
    intro engine clock system path hread
    rw [Engine.analyzeFile, hread]
    exact congrArg (engine.analyzeSource clock · (some path)) htext
  · intro bytes hbytes
    have htext : (decodeScript bytes).toList = Text.decodeWindows1252 bytes := by
      rw [hbytes.decodeScript_eq, String.toList_ofList]
    refine ⟨?_, ?_, ?_⟩
    · rw [← String.length_toList, htext, Text.decodeWindows1252, List.length_map]
    · intro i b hb hascii
      rw [htext, Text.decodeWindows1252, List.getElem?_map, hb, Option.map_some,
        Text.windows1252Char_ascii hascii]
    · intro others hothers heq
      have hsame := congrArg String.toList heq
      rw [hothers.decodeScript_eq, String.toList_ofList, htext] at hsame
      exact Text.decodeWindows1252_injective hsame

/-- A surrogate pair in a file of little-endian UTF-16, and a lone byte above ASCII. -/
theorem surrogate_pair_is_read :
    (let bytes := [0xFF, 0xFE, 0xE9, 0x00, 0x3D, 0xD8, 0x00, 0xDE]
      let system : FileSystem := ⟨.folder [("a.ps1", .file bytes)], []⟩
      bytes ∈ scriptEncodings "é😀" ∧ decodeScript bytes = "é😀" ∧
        ∀ (engine : Engine) clock,
          engine.analyzeFile clock system "a.ps1" = engine.analyzeSource clock "é😀" (some "a.ps1")) ∧
    IsBytewise [0x63, 0xE9] ∧ IsBytewise [0xE9, 0x63] ∧ (decodeScript [0x63, 0xE9]).length = 2 ∧
      (decodeScript [0x63, 0xE9]).toList[0]? = some 'c' ∧
      decodeScript [0xE9, 0x63] ≠ decodeScript [0x63, 0xE9] := by
  have hbytes : [0xFF, 0xFE, 0xE9, 0x00, 0x3D, 0xD8, 0x00, 0xDE] ∈ scriptEncodings "é😀" := by decide
  obtain ⟨htext, hanalysis⟩ := script_text_ignores_encoding.1 "é😀" (by decide) _ hbytes
  have hbytewise : IsBytewise [0x63, 0xE9] ∧ IsBytewise [0xE9, 0x63] := by decide
  obtain ⟨hlength, hascii, hinj⟩ := script_text_ignores_encoding.2 _ hbytewise.1
  refine ⟨⟨hbytes, htext, ?_⟩, hbytewise.1, hbytewise.2, hlength, hascii 0 0x63 rfl (by decide), ?_⟩
  · intro engine clock
    exact hanalysis engine clock _ _ rfl
  · intro heq
    exact absurd (hinj _ hbytewise.2 heq) (by decide)

end HelpAudit
