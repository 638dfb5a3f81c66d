import Mathlib.Data.List.TakeWhile
import HelpAudit.Proofs.LexEnds
import HelpAudit.Proofs.LineLookup
import HelpAudit.Proofs.QuotedText

/-! Nothing of a source is lost when it is cut into tokens. A token is the text between its offsets,
    and between tokens there are only blanks and continued lines. Where cutting comes to a stop, the
    text before that place has the tokens that were found. -/

namespace HelpAudit

/-! ### Gaps -/

/-- Blanks, and backticks at the end of a line. -/
inductive IsGapText : List Char → Prop where
  | nil : IsGapText []
  | blank {c : Char} {cs : List Char} : Lexeme.isGap c = true → IsGapText cs → IsGapText (c :: cs)
  | feed {cs : List Char} : IsGapText cs → IsGapText ('\x60' :: '\n' :: cs)
  | returnFeed {cs : List Char} : IsGapText cs → IsGapText ('\x60' :: '\r' :: '\n' :: cs)

theorem IsGapText.append {cs ds : List Char} (hcs : IsGapText cs) (hds : IsGapText ds) :
    IsGapText (cs ++ ds) := by
  induction hcs with
  | nil => exact hds
  | blank hc _ ih => exact .blank hc ih
  | feed _ ih => exact .feed ih
  | returnFeed _ ih => exact .returnFeed ih

theorem isGapText_of_forall : ∀ {cs : List Char}, (∀ c ∈ cs, Lexeme.isGap c = true) → IsGapText cs
  | [], _ => .nil
  | c :: _, h => .blank (h c List.mem_cons_self)
    (isGapText_of_forall fun d hd => h d (List.mem_cons_of_mem _ hd))

theorem isGapText_blanks {text rest : List Char} (h : Chunk.Fits ⟨.blanks, text⟩ rest) :
    IsGapText text := by
  obtain ⟨m, more, hhead, hrest, hlength⟩ := Lexeme.whole?_eq_some h
  have hrun : Lexeme.nonempty (Lexeme.run Lexeme.isGap (text ++ rest)) = some m :=
    Lexeme.pattern_of_head? hhead rfl
  cases hrest
  have hm : Lexeme.run Lexeme.isGap (text ++ rest) = text.length := by
    rw [Lexeme.nonempty] at hrun
    split at hrun
    · cases hrun
    · exact (Option.some.inj hrun).trans hlength.symm
  -- the run of blanks at the start of the text is the chunk
  have htake : (text ++ rest).takeWhile Lexeme.isGap = text := by
    have hprefix := List.prefix_of_prefix_length_le
      (List.takeWhile_prefix Lexeme.isGap) (List.prefix_append text rest) (Nat.le_of_eq hm)
    exact hprefix.eq_of_length hm
  refine isGapText_of_forall fun c hc => ?_
  rw [← htake] at hc
  exact List.mem_takeWhile_imp hc

/-- A continued line is a backtick and one end of line, so a gap. -/
theorem isGapText_continuation {text rest : List Char} (h : Chunk.Fits ⟨.continuation, text⟩ rest) :
    IsGapText text := by
  obtain ⟨m, more, hhead, hrest, hlength⟩ := Lexeme.whole?_eq_some h
  have hmatch : Lexeme.lineContinuation (text ++ rest) = some m := Lexeme.pattern_of_head? hhead rfl
  cases hrest
  obtain rfl : text.length = m := hlength
  -- the pattern is fixed by the text alone, so what follows can be dropped
  have hmatch := Lexeme.closed_lineContinuation text rest [] _ hmatch (Nat.le_refl _)
  rw [List.append_nil] at hmatch
  cases text with
  | nil => cases hmatch
  | cons c cs =>
    rw [Lexeme.lineContinuation_cons] at hmatch
    split at hmatch
    · subst c
      obtain ⟨k, hk, hlength⟩ := Option.map_eq_some_iff.mp hmatch
      obtain rfl : k = cs.length := Nat.succ.inj hlength
      rw [Lexeme.lineEnd.eq_def] at hk
      split at hk
      · obtain rfl := List.length_eq_zero_iff.mp (Nat.succ.inj (Option.some.inj hk)).symm
        exact .feed .nil
      · obtain rfl := List.length_eq_zero_iff.mp (Nat.succ.inj (Nat.succ.inj (Option.some.inj hk))).symm
        exact .returnFeed .nil
      · cases hk
    · cases hmatch

/-- The gaps before, between and after tokens that follow `start`, as pairs of offsets. -/
def gaps (start : Nat) (tokens : List Token) (stop : Nat) : List (Nat × Nat) :=
  (start :: tokens.map (·.stop)).zip (tokens.map (·.start) ++ [stop])

/-- Between the tokens of chunks there are only blanks and continued lines. The gap in front of the
    first token may have started before the chunks. -/
theorem isGapText_of_chunks {rest : List Char} {chunks : List Chunk} (h : Chunk.AllFit chunks rest) :
    ∀ before gap : List Char, IsGapText gap →
    ∀ ends ∈ gaps (Text.byteLength before) (Chunk.tokens (Text.byteLength (before ++ gap)) chunks)
        (Text.byteLength (before ++ gap ++ Chunk.joined chunks)),
      ∃ cs, Text.sliceBytes? (before ++ gap ++ Chunk.joined chunks) ends.1 ends.2 = some cs ∧
        IsGapText cs := by
  induction chunks with
  | nil =>
    intro before gap hgap ends hends
    obtain rfl : ends = (Text.byteLength before, Text.byteLength before + Text.byteLength gap) := by
      simpa [gaps, Chunk.joined] using hends
    refine ⟨gap, ?_, hgap⟩
    have hslice := Text.sliceBytes?_append before gap []
    simpa [Chunk.joined] using hslice
  | cons chunk chunks ih =>
    obtain ⟨lexeme, text⟩ := chunk
    obtain ⟨hfits, hothers⟩ := h
    intro before gap hgap
    -- a chunk that is no token makes the gap longer
    have hlonger : IsGapText text → Chunk.tokens (Text.byteLength (before ++ gap))
        (⟨lexeme, text⟩ :: chunks) = Chunk.tokens (Text.byteLength (before ++ gap ++ text)) chunks →
        ∀ ends ∈ gaps (Text.byteLength before)
          (Chunk.tokens (Text.byteLength (before ++ gap)) (⟨lexeme, text⟩ :: chunks))
          (Text.byteLength (before ++ gap ++ Chunk.joined (⟨lexeme, text⟩ :: chunks))),
        ∃ cs, Text.sliceBytes? (before ++ gap ++ Chunk.joined (⟨lexeme, text⟩ :: chunks)) ends.1
          ends.2 = some cs ∧ IsGapText cs := by
      intro htext htokens
      have hmore := ih hothers before (gap ++ text) (hgap.append htext)
      rwa [htokens, Chunk.joined_cons, ← List.append_assoc, List.append_assoc before gap text]
    cases lexeme with
    | token kind =>
      have htokens : Chunk.tokens (Text.byteLength (before ++ gap)) (⟨.token kind, text⟩ :: chunks) =
          .startingAt (Text.byteLength (before ++ gap)) kind (.ofList text) ::
            Chunk.tokens (Text.byteLength (before ++ gap ++ text ++ [])) chunks := by
        simp [Nat.add_assoc]
      have hstop : (Token.startingAt (Text.byteLength (before ++ gap)) kind (.ofList text)).stop =
          Text.byteLength (before ++ gap ++ text) := by
        rw [Text.byteLength_append (before ++ gap), ← Text.utf8ByteSize_ofList text]
        rfl
      have hmore := ih hothers (before ++ gap ++ text) [] .nil
      intro ends hends
      rw [gaps, htokens, List.map_cons, List.map_cons, List.cons_append, List.zip_cons_cons, hstop]
        at hends
      rcases List.mem_cons.mp hends with rfl | hends
      · refine ⟨gap, ?_, hgap⟩
        have hslice := Text.sliceBytes?_append before gap (Chunk.joined (⟨.token kind, text⟩ :: chunks))
        rwa [← Text.byteLength_append] at hslice
      · rw [Chunk.joined_cons, ← List.append_assoc] at hends ⊢
        rw [List.append_nil] at hmore hends
        exact hmore ends hends
    | blanks =>
      refine hlonger (isGapText_blanks hfits) ?_
      rw [Chunk.tokens_blanks, ← Text.byteLength_append]
    | continuation =>
      refine hlonger (isGapText_continuation hfits) ?_
      rw [Chunk.tokens, Text.byteLength_append (before ++ gap) text]
      rfl

/-! ### Where cutting stops -/

/-- Where the tokens stand, whatever they are. -/
def ranges (tokens : List Token) : List (Nat × Nat) := tokens.map fun t => (t.start, t.stop)

/-- The text before the place where cutting stops has tokens at the same places. -/
theorem Chunk.exists_tokenize {chunks : List Chunk} {rest : List Char} (h : AllFit chunks rest) :
    ∃ found, tokenize (joined chunks) = .ok found ∧ ranges found = ranges (tokens 0 chunks) := by
  rcases allFit_front h with hall | ⟨init, text, word, rfl, -, hall⟩
  · exact ⟨_, tokenize_joined hall, rfl⟩
  · have htokens := tokenize_joined hall
    rw [joined_append] at htokens ⊢
    refine ⟨_, htokens, ?_⟩
    simp only [tokens_append, ranges, List.map_append]
    rfl

/-! ### Sources -/

/-- A token is the text between its offsets. -/
theorem sliceBytes?_of_mem_tokens {source : List Char} {tokens : List Token}
    (h : tokenize source = .ok tokens) {t : Token} (ht : t ∈ tokens) :
    t.start < t.stop ∧ Text.sliceBytes? source t.start t.stop = some t.value.toList := by
  obtain ⟨hnonempty, hsized, before, after, hsource, hbefore⟩ := (tokenize_isPlaced none h).standsIn t ht
  refine ⟨hnonempty, ?_⟩
  have hslice := Text.sliceBytes?_append before t.value.toList after
  rwa [← hsource, hbefore, ← hsized] at hslice

/-- Between tokens there are only blanks and continued lines. -/
theorem isGapText_of_tokenize {source : List Char} {tokens : List Token}
    (h : tokenize source = .ok tokens) : ∀ ends ∈ gaps 0 tokens (Text.byteLength source),
      ∃ gap, Text.sliceBytes? source ends.1 ends.2 = some gap ∧ IsGapText gap := by
  obtain ⟨chunks, hfit, rfl⟩ := Chunk.exists_of_cut (tokenize_eq_ok h).1
  rw [Chunk.tokenize_joined hfit] at h
  obtain rfl := Except.ok.inj h
  exact isGapText_of_chunks hfit [] [] .nil

/-- Where a source fails there is a character, and the text before it has tokens. -/
theorem exists_before_error {source : List Char} {error : ParseError}
    (h : tokenize source = .error error) : ∃ before after found, after ≠ [] ∧ source = before ++ after ∧
      error.position = Position.ofOffset source (Text.byteLength before) ∧
      tokenize before = .ok found ∧ ranges found = ranges (Cut.of source).tokens := by
  obtain ⟨chunks, rest, hfit, rfl, htokens, hstuck⟩ := Chunk.exists_of_rest 0 source
  rw [tokenize] at h
  simp only [Cut.of] at h
  obtain ⟨-, hnone⟩ | ⟨hrest, hsome⟩ := hstuck
  · rw [hnone] at h
    cases h
  · rw [hsome, Nat.zero_add] at h
    cases h
    obtain ⟨found, hfound, hranges⟩ := Chunk.exists_tokenize hfit
    refine ⟨Chunk.joined chunks, rest, found, hrest, rfl, rfl, hfound, ?_⟩
    rw [Cut.of, htokens]
    exact hranges

/-- Tokenizing is lossless. The tokens of a source are stretches of it in order, and between them
    there are only blanks and continued lines. A source without tokens fails at a character where no
    token starts, and the text before it has tokens at the places of those that were found. -/
theorem tokenize_lossless (source : List Char) :
    match tokenize source with
    | .ok tokens =>
      Spaced tokens ∧
      (∀ t ∈ tokens, t.start < t.stop ∧
        Text.sliceBytes? source t.start t.stop = some t.value.toList) ∧
      ∀ ends ∈ gaps 0 tokens (Text.byteLength source),
        ∃ gap, Text.sliceBytes? source ends.1 ends.2 = some gap ∧ IsGapText gap
    | .error error =>
      error.position = Position.ofOffset source error.position.offset ∧
      error.position.offset < Text.byteLength source ∧
      ∃ before after found, source = before ++ after ∧
        Text.byteLength before = error.position.offset ∧ tokenize before = .ok found ∧
        ranges found = ranges (Cut.of source).tokens := by
  cases h : tokenize source with
  | ok tokens =>
    exact ⟨(tokenize_isPlaced none h).spaced, fun t ht => sliceBytes?_of_mem_tokens h ht,
      isGapText_of_tokenize h⟩
  | error error =>
    obtain ⟨before, after, found, hafter, rfl, hposition, hfound⟩ := exists_before_error h
    have hlength := Text.byteLength_append before after
    have hpositive := Text.byteLength_pos hafter
    have hoffset : error.position.offset = Text.byteLength before := by
      rw [hposition]
      exact Position.ofOffset_offset (by omega)
    exact ⟨by rw [hoffset]; exact hposition, by omega, before, after, found, rfl, hoffset.symm, hfound⟩

end HelpAudit
