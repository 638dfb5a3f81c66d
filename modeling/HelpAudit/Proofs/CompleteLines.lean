import HelpAudit.Proofs.LexEnds
import HelpAudit.Proofs.LineLookup
import HelpAudit.Proofs.QuotedText

/-! Lexing is local to complete lines. Whatever is complete in a text stays as it is when a line feed
    and more text follow, unless the text ends with a carriage return or a backtick, which take the
    line feed in. So the text behind the line feed is cut as if it stood alone. -/

namespace HelpAudit

/-! ### Moving to another offset -/

/-- The token at a place `n` bytes further on. -/
def Token.shift (n : Nat) (t : Token) : Token := { t with start := t.start + n, stop := t.stop + n }

/-- The piece at a place `n` bytes further on. -/
def Piece.shift (n : Nat) (p : Piece) : Piece := { p with start := p.start + n }

theorem Piece.token?_shift (n : Nat) (p : Piece) :
    (p.shift n).token? = p.token?.map (Token.shift n) := by
  obtain ⟨lexeme, text, start⟩ := p
  cases lexeme with
  | token kind =>
    simp only [shift, token?, Option.map_some, Token.startingAt, Token.shift]
    congr 2
    omega
  | blanks => rfl
  | continuation => rfl

/-- How a text is cut does not depend on the offset at which it starts. -/
theorem Cut.ofRest_add (n : Nat) : ∀ (skip start : Nat) (cs : List Char),
    Cut.ofRest skip (start + n) cs =
      ⟨(Cut.ofRest skip start cs).pieces.map (Piece.shift n),
        (Cut.ofRest skip start cs).stuck.map (· + n)⟩
  | _, _, [] => by simp only [Cut.ofRest, List.map_nil, Option.map_none]
  | skip + 1, start, c :: cs => by
    simp only [Cut.ofRest, Nat.add_right_comm start n]
    exact Cut.ofRest_add n skip (start + c.utf8Size) cs
  | 0, start, c :: cs => by
    cases hwhole : Lexeme.whole? (c :: cs) with
    | none => simp only [Cut.ofRest, hwhole, List.map_nil, Option.map_some]
    | some found =>
      obtain ⟨lexeme, length⟩ := found
      have hothers := Cut.ofRest_add n (length - 1) (start + c.utf8Size) cs
      simp only [Cut.ofRest, hwhole, Nat.add_right_comm start n, hothers, List.map_cons, Piece.shift]

theorem Cut.tokens_add (n start : Nat) (cs : List Char) :
    (Cut.ofRest 0 (start + n) cs).tokens = (Cut.ofRest 0 start cs).tokens.map (Token.shift n) := by
  rw [Cut.ofRest_add, Cut.tokens, Cut.tokens, List.filterMap_map, List.map_filterMap]
  refine List.filterMap_congr fun p _ => ?_
  exact Piece.token?_shift n p

/-! ### Chunks in front of more text -/

namespace Chunk

/-- Chunks whose text ends with no carriage return and no backtick fit in front of a line feed. -/
theorem allFit_feed_of_getLast {chunks : List Chunk} (h : AllFit chunks [])
    (hreturn : (joined chunks).getLast? ≠ some '\r') (htick : (joined chunks).getLast? ≠ some '\x60')
    (z : List Char) : AllFit chunks ('\n' :: z) := by
  -- the other texts that take in a line feed are no chunks: a quote in them is never closed
  have hall : Lexeme.takesFeed.all (fun cs => (Cut.of cs).stuck.isSome ||
      cs.getLast? == some '\r' || cs.getLast? == some '\x60') = true := by decide +kernel
  refine allFit_feed_of_not_mem h (fun last hlast hmem => ?_) z
  have hstuck := (cut_joined (h.of_suffix hlast) 0).1
  have hcs := List.all_eq_true.mp hall _ hmem
  obtain ⟨front, rfl⟩ := hlast
  obtain ⟨c, hc⟩ : ∃ c, (joined last).getLast? = some c := by
    cases hnil : (joined last).getLast? with
    | some c => exact ⟨c, rfl⟩
    | none =>
      rw [List.getLast?_eq_none_iff.mp hnil] at hmem
      exact absurd hmem (by decide)
  rw [joined_append, List.getLast?_append, hc, Option.some_or] at hreturn htick
  rw [Cut.of, hstuck, hc] at hcs
  simp_all

end Chunk

/-! ### Lines -/

/-- The text behind a complete line is cut as if it stood alone. -/
theorem Cut.of_append_line {line : List Char} {tokens : List Token} (h : tokenize line = .ok tokens)
    (hreturn : line.getLast? ≠ some '\r') (htick : line.getLast? ≠ some '\x60') (rest : List Char) :
    (Cut.of (line ++ '\n' :: rest)).stuck =
        (Cut.of rest).stuck.map (· + (Text.byteLength line + 1)) ∧
      (Cut.of (line ++ '\n' :: rest)).tokens =
        tokens ++ .startingAt (Text.byteLength line) .newline "\n" ::
          (Cut.of rest).tokens.map (Token.shift (Text.byteLength line + 1)) := by
  obtain ⟨chunks, hfit, rfl⟩ := Chunk.exists_of_cut (tokenize_eq_ok h).1
  rw [Chunk.tokenize_joined hfit] at h
  obtain rfl := Except.ok.inj h
  have hline := Chunk.allFit_feed_of_getLast hfit hreturn htick rest
  -- the line feed is a chunk of its own, so the line and its end are complete in front of any rest
  have hall : Chunk.AllFit (chunks ++ [Chunk.feed]) rest :=
    Chunk.allFit_append.mpr ⟨hline, Chunk.feed_fits rest, trivial⟩
  have htext : Chunk.joined chunks ++ '\n' :: rest = Chunk.joined (chunks ++ [Chunk.feed]) ++ rest := by
    simp [Chunk.joined, Chunk.feed, Chunk.mark]
  have hlength : Text.byteLength (Chunk.joined (chunks ++ [Chunk.feed])) =
      Text.byteLength (Chunk.joined chunks) + 1 := by
    rw [Chunk.joined_append, Text.byteLength_append]
    rfl
  obtain ⟨hstuck, htokens⟩ := Chunk.cut_append hall 0
  rw [← htext, hlength] at hstuck htokens
  rw [Cut.of, hstuck, htokens, Cut.tokens_add, Cut.ofRest_add, Chunk.tokens_append, Nat.zero_add,
    List.append_assoc]
  exact ⟨rfl, rfl⟩

/-! ### Tokens and errors -/

theorem tokenize_of_not_stuck {source : List Char} (h : (Cut.of source).stuck = none) :
    tokenize source = .ok (Cut.of source).tokens := by
  rw [tokenize]
  simp only [h]
  rfl

/-- Where cutting stops there is an error, which quotes the text from there on. -/
theorem tokenize_of_stuck {source : List Char} {offset : Nat}
    (h : (Cut.of source).stuck = some offset) : ∃ before after, source = before ++ after ∧
      Text.byteLength before = offset ∧ tokenize source =
        .error (.ofOffset source offset (.unrecognized (.ofList (after.take 12)))) := by
  obtain ⟨chunks, after, -, rfl, -, ⟨-, hnone⟩ | ⟨-, hstuck⟩⟩ := Chunk.exists_of_rest 0 source
  · rw [Cut.of, hnone] at h
    cases h
  · rw [Cut.of, hstuck, Nat.zero_add] at h
    obtain rfl := Option.some.inj h
    refine ⟨Chunk.joined chunks, after, rfl, rfl, ?_⟩
    rw [Nat.zero_add] at hstuck
    rw [tokenize, Cut.of]
    simp only [hstuck, Text.dropBytes?_append, Option.getD_some]

/-- Lexing is local to complete lines. Behind a text that has tokens and ends with no carriage return
    and no backtick, a line feed is a newline, and the text that follows has the tokens that it has
    alone, or fails where it fails alone. -/
theorem tokenize_append_line (line rest : List Char) (tokens : List Token)
    (h : tokenize line = .ok tokens) (hreturn : line.getLast? ≠ some '\r')
    (htick : line.getLast? ≠ some '\x60') :
    (∀ others, tokenize rest = .ok others → tokenize (line ++ '\n' :: rest) =
      .ok (tokens ++ .startingAt (Text.byteLength line) .newline "\n" ::
        others.map (Token.shift (Text.byteLength line + 1)))) ∧
    ∀ error, tokenize rest = .error error → ∃ later,
      tokenize (line ++ '\n' :: rest) = .error later ∧ later.cause = error.cause ∧
      later.position.offset = Text.byteLength line + 1 + error.position.offset := by
  obtain ⟨hstuck, htokens⟩ := Cut.of_append_line h hreturn htick rest
  constructor
  · intro others hothers
    obtain ⟨hnone, rfl⟩ := tokenize_eq_ok hothers
    rw [hnone, Option.map_none] at hstuck
    rw [tokenize_of_not_stuck hstuck, htokens]
  · intro error herror
    cases hrest : (Cut.of rest).stuck with
    | none =>
      rw [tokenize_of_not_stuck hrest] at herror
      cases herror
    | some offset =>
      rw [hrest, Option.map_some] at hstuck
      obtain ⟨before, after, rfl, rfl, hfirst⟩ := tokenize_of_stuck hrest
      obtain ⟨before', after', htext, hoffset, hlater⟩ := tokenize_of_stuck hstuck
      rw [hfirst] at herror
      cases herror
      have hbytes : Text.byteLength (line ++ '\n' :: before) =
          Text.byteLength before + (Text.byteLength line + 1) := by
        rw [Text.byteLength_append, Text.byteLength_cons, show '\n'.utf8Size = 1 from rfl]
        omega
      -- both errors quote the text behind the same characters
      have hdrop := Text.dropBytes?_append before' after'
      rw [hoffset, ← hbytes, ← htext, ← List.cons_append, ← List.append_assoc,
        Text.dropBytes?_append] at hdrop
      obtain rfl := Option.some.inj hdrop
      refine ⟨_, hlater, rfl, ?_⟩
      have hend := Text.byteLength_append before after
      have hwhole := Text.byteLength_append line ('\n' :: (before ++ after))
      rw [Text.byteLength_cons, show '\n'.utf8Size = 1 from rfl] at hwhole
      rw [ParseError.ofOffset, ParseError.ofOffset, Position.ofOffset_offset (by omega),
        Position.ofOffset_offset (by omega)]
      omega

/-- A finished string stays one, and a string that is left open below fails there. -/
theorem tokenize_append_line_string : ∃ tokens error,
    tokenize ['\x27', 'a', '\x27'] = .ok tokens ∧ tokenize ['b', ' ', '\x27'] = .error error ∧
    ∃ later, tokenize ['\x27', 'a', '\x27', '\n', 'b', ' ', '\x27'] = .error later ∧
      later.cause = error.cause ∧ later.position.offset = 3 + 1 + error.position.offset := by
  have hline : (tokenize ['\x27', 'a', '\x27']).isOk = true := by decide +kernel
  have hfails : (tokenize ['b', ' ', '\x27']).isOk = false := by decide +kernel
  obtain ⟨tokens, htokens⟩ := exists_ok_of_isOk hline
  cases hrest : tokenize ['b', ' ', '\x27'] with
  | ok others =>
    rw [hrest] at hfails
    cases hfails
  | error error =>
    have hlater := (tokenize_append_line ['\x27', 'a', '\x27'] ['b', ' ', '\x27'] tokens htokens
      (by decide) (by decide)).2 error hrest
    exact ⟨tokens, error, htokens, rfl, hlater⟩

end HelpAudit
