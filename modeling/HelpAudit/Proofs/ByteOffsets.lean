import HelpAudit.Text.Bytes

/-! Offsets in bytes and the characters between them. A boundary is an offset at which no character is
    cut; between two boundaries in order there is exactly one stretch of the text. -/

namespace HelpAudit

namespace Text

@[simp] theorem byteLength_nil : byteLength [] = 0 := rfl

@[simp] theorem byteLength_cons (c : Char) (cs : List Char) :
    byteLength (c :: cs) = c.utf8Size + byteLength cs := rfl

@[simp] theorem byteLength_append : ∀ a b : List Char,
    byteLength (a ++ b) = byteLength a + byteLength b
  | [], b => by simp
  | c :: a, b => by simp [byteLength_append a b, Nat.add_assoc]

theorem byteLength_pos {cs : List Char} (h : cs ≠ []) : 0 < byteLength cs := by
  cases cs with
  | nil => exact absurd rfl h
  | cons c cs =>
    have := c.utf8Size_pos
    rw [byteLength_cons]
    omega

theorem length_le_byteLength (cs : List Char) : cs.length ≤ byteLength cs := by
  induction cs with
  | nil => exact Nat.le_refl 0
  | cons c cs ih =>
    have hpos := c.utf8Size_pos
    rw [List.length_cons, byteLength_cons]
    omega

theorem utf8ByteSize_ofList : ∀ cs : List Char, (String.ofList cs).utf8ByteSize = byteLength cs
  | [] => by simp
  | c :: cs => by
    rw [String.ofList_cons, String.utf8ByteSize_append, utf8ByteSize_ofList cs]
    simp

theorem dropBytes?_zero (cs : List Char) : dropBytes? 0 cs = some cs := by
  cases cs <;> rfl

theorem takeBytes?_zero (cs : List Char) : takeBytes? 0 cs = some [] := by
  cases cs <;> rfl

theorem dropBytes?_append : ∀ a b : List Char, dropBytes? (byteLength a) (a ++ b) = some b
  | [], b => dropBytes?_zero b
  | c :: a, b => by
    have := c.utf8Size_pos
    rw [List.cons_append, byteLength_cons, dropBytes?, if_neg (by omega), if_pos (by omega),
      Nat.add_sub_cancel_left, dropBytes?_append a b]

theorem takeBytes?_append : ∀ a b : List Char, takeBytes? (byteLength a) (a ++ b) = some a
  | [], b => takeBytes?_zero b
  | c :: a, b => by
    have := c.utf8Size_pos
    rw [List.cons_append, byteLength_cons, takeBytes?, if_neg (by omega), if_pos (by omega),
      Nat.add_sub_cancel_left, takeBytes?_append a b, Option.map_some]

/-- The text between the ends of two stretches at its start. -/
theorem sliceBytes?_append (a b c : List Char) :
    sliceBytes? (a ++ b ++ c) (byteLength a) (byteLength a + byteLength b) = some b := by
  rw [sliceBytes?, if_pos (Nat.le_add_right _ _), List.append_assoc, dropBytes?_append,
    Option.bind_some, Nat.add_sub_cancel_left, takeBytes?_append]

/-- `offset` is the end of a stretch at the start of the text. -/
def IsBoundary (text : List Char) (offset : Nat) : Prop :=
  ∃ before after, text = before ++ after ∧ byteLength before = offset

theorem isBoundary_zero (text : List Char) : IsBoundary text 0 := ⟨[], text, rfl, rfl⟩

theorem isBoundary_byteLength (text : List Char) : IsBoundary text (byteLength text) :=
  ⟨text, [], (List.append_nil text).symm, rfl⟩

theorem IsBoundary.le_byteLength {text : List Char} {offset : Nat} (h : IsBoundary text offset) :
    offset ≤ byteLength text := by
  obtain ⟨before, after, rfl, rfl⟩ := h
  rw [byteLength_append]
  omega

/-- Of two stretches at the start of a text, the one with fewer bytes is the start of the other. -/
theorem exists_append_of_byteLength_le : ∀ {a b c d : List Char}, a ++ b = c ++ d →
    byteLength a ≤ byteLength c → ∃ e, c = a ++ e
  | [], _, c, _, _, _ => ⟨c, rfl⟩
  | x :: a, _, [], _, _, hle => by
    have := x.utf8Size_pos
    simp only [byteLength_cons, byteLength_nil] at hle
    omega
  | x :: a, b, y :: c, d, h, hle => by
    obtain ⟨rfl, htail⟩ : x = y ∧ a ++ b = c ++ d := by simpa using h
    simp only [byteLength_cons, Nat.add_le_add_iff_left] at hle
    obtain ⟨e, rfl⟩ := exists_append_of_byteLength_le htail hle
    exact ⟨e, rfl⟩

/-- Between two boundaries in order there is a stretch of text. -/
theorem sliceBytes?_of_boundaries {text : List Char} {start stop : Nat}
    (hstart : IsBoundary text start) (hstop : IsBoundary text stop) (hle : start ≤ stop) :
    ∃ piece, sliceBytes? text start stop = some piece := by
  obtain ⟨before, after, rfl, rfl⟩ := hstart
  obtain ⟨longer, rest, htext, rfl⟩ := hstop
  obtain ⟨piece, rfl⟩ := exists_append_of_byteLength_le htext hle
  exact ⟨piece, by rw [htext, byteLength_append, sliceBytes?_append]⟩

/-- Bytes can be dropped only up to a boundary. -/
theorem dropBytes?_eq_some : ∀ {text rest : List Char} {n : Nat}, dropBytes? n text = some rest →
    ∃ before, text = before ++ rest ∧ byteLength before = n
  | [], rest, n, h => by
    rw [dropBytes?] at h
    split at h
    · cases h
      exact ⟨[], rfl, ‹n = 0›.symm⟩
    · cases h
  | c :: cs, rest, n, h => by
    rw [dropBytes?] at h
    split at h
    · cases h
      exact ⟨[], rfl, ‹n = 0›.symm⟩
    · split at h
      · obtain ⟨before, rfl, hlen⟩ := dropBytes?_eq_some h
        exact ⟨c :: before, rfl, by rw [byteLength_cons]; omega⟩
      · cases h

theorem takeBytes?_eq_some : ∀ {text piece : List Char} {n : Nat}, takeBytes? n text = some piece →
    ∃ after, text = piece ++ after ∧ byteLength piece = n
  | [], piece, n, h => by
    rw [takeBytes?] at h
    split at h
    · cases h
      exact ⟨[], rfl, ‹n = 0›.symm⟩
    · cases h
  | c :: cs, piece, n, h => by
    rw [takeBytes?] at h
    split at h
    · cases h
      exact ⟨c :: cs, rfl, ‹n = 0›.symm⟩
    · split at h
      · obtain ⟨tail, htail, rfl⟩ := Option.map_eq_some_iff.mp h
        obtain ⟨after, rfl, hlen⟩ := takeBytes?_eq_some htail
        exact ⟨after, rfl, by rw [byteLength_cons]; omega⟩
      · cases h

theorem byteLength_of_sliceBytes? {text piece : List Char} {start stop : Nat}
    (h : sliceBytes? text start stop = some piece) : start + byteLength piece = stop := by
  rw [sliceBytes?] at h
  split at h
  · obtain ⟨rest, -, htake⟩ := Option.bind_eq_some_iff.mp h
    obtain ⟨after, -, hlen⟩ := takeBytes?_eq_some htake
    omega
  · cases h

/-- A stretch of text starts and ends at boundaries. -/
theorem boundaries_of_sliceBytes? {text piece : List Char} {start stop : Nat}
    (h : sliceBytes? text start stop = some piece) :
    IsBoundary text start ∧ IsBoundary text stop := by
  rw [sliceBytes?] at h
  split at h
  · obtain ⟨rest, hdrop, htake⟩ := Option.bind_eq_some_iff.mp h
    obtain ⟨before, rfl, hstart⟩ := dropBytes?_eq_some hdrop
    obtain ⟨after, rfl, hlen⟩ := takeBytes?_eq_some htake
    refine ⟨⟨before, _, rfl, hstart⟩, before ++ piece, after, (List.append_assoc ..).symm, ?_⟩
    rw [byteLength_append]
    omega
  · cases h

end Text

end HelpAudit
