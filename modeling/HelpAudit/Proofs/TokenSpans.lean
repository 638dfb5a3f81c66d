import HelpAudit.Proofs.ByteOffsets
import HelpAudit.Tree.Script
import HelpAudit.Token.Lexer

/-! Where tokens stand. Every pattern matches at least one character and no more than there are, so
    cutting a source goes forward from piece to piece; hence each token is the text of the source at
    its offset, and ends before the next one starts. -/

namespace HelpAudit

namespace Lexeme

/-! ### The lengths of matches -/

/-- A pattern that matches at least one character and none past the end of the text. -/
def MatchesWithin (pattern : List Char → Option Nat) : Prop :=
  ∀ cs n, pattern cs = some n → 0 < n ∧ n ≤ cs.length

theorem run_le (p : Char → Bool) (cs : List Char) : run p cs ≤ cs.length :=
  (List.takeWhile_sublist p).length_le

theorem run_drop_le (p : Char → Bool) {cs rest : List Char} {q : Char → Bool} {c : Char}
    (h : cs.drop (run q cs) = c :: rest) : run q cs + run p rest + 1 ≤ cs.length := by
  have hlen := congrArg List.length h
  have := run_le p rest
  have := run_le q cs
  simp only [List.length_drop, List.length_cons] at hlen
  omega

theorem dropWhile_ne_nil_run {p : Char → Bool} {cs : List Char} {c : Char} {rest : List Char}
    (h : cs.dropWhile p = c :: rest) : run p cs + 1 ≤ cs.length := by
  have hlen := congrArg List.length (List.takeWhile_append_dropWhile (p := p) (l := cs))
  rw [h, List.length_append, List.length_cons] at hlen
  have : run p cs = (cs.takeWhile p).length := rfl
  omega

theorem nonempty_run_within (p : Char → Bool) : MatchesWithin fun cs => nonempty (run p cs) := by
  intro cs n h
  have := run_le p cs
  simp only [nonempty] at h
  split at h
  · cases h
  · cases h
    omega

theorem literal_within {text : String} (htext : 0 < text.length) : MatchesWithin (literal text) := by
  intro cs n h
  rw [literal] at h
  split at h
  · cases h
    rename_i hp
    refine ⟨htext, ?_⟩
    rw [← String.length_toList]
    exact (List.isPrefixOf_iff_prefix.mp hp).length_le
  · cases h

theorem afterFolded_length : ∀ {word cs rest : List Char}, afterFolded word cs = some rest →
    cs.length = word.length + rest.length
  | [], cs, rest, h => by cases h; simp
  | _ :: _, [], _, h => by cases h
  | w :: word, c :: cs, rest, h => by
    rw [afterFolded] at h
    split at h
    · have := afterFolded_length h
      simp only [List.length_cons]
      omega
    · cases h

/-- Whatever follows a keyword, the match is the keyword alone. -/
theorem keyword_some {word : Keyword} {cs : List Char} {n : Nat} (h : keyword word cs = some n) :
    n = word.text.length ∧ ∃ rest, afterFolded word.text.toList cs = some rest := by
  rw [keyword] at h
  split at h
  · split at h
    · cases h; exact ⟨rfl, _, ‹_›⟩
    · cases h
  · cases h; exact ⟨rfl, _, ‹_›⟩
  · cases h

theorem keyword_within (word : Keyword) : MatchesWithin (keyword word) := by
  intro cs n h
  have hpos : 0 < word.text.length := by
    cases word with
    | declare kind => cases kind <;> decide
    | param => decide
    | block kind => cases kind <;> decide
  obtain ⟨rfl, rest, hrest⟩ := keyword_some h
  have hlen := afterFolded_length hrest
  rw [String.length_toList] at hlen
  omega

theorem lineEnd_within : MatchesWithin lineEnd := by
  intro cs n h
  rw [lineEnd.eq_def] at h
  split at h
  · cases h; simp
  · cases h; simp
  · cases h

theorem lineComment_within : MatchesWithin lineComment := by
  intro cs n h
  rw [lineComment.eq_def] at h
  split at h
  · cases h
    rename_i cs
    have := run_le (fun c => c != '\r' && c != '\n') cs
    simp only [List.length_cons]
    omega
  · cases h

theorem singleQuoted_within : MatchesWithin singleQuoted := by
  intro cs n h
  rw [singleQuoted.eq_def] at h
  split at h
  · split at h
    · split at h
      · cases h
        have := dropWhile_ne_nil_run ‹_›
        simp only [List.length_cons]
        omega
      · cases h
    · cases h
  · cases h

/-- The rest of an expanding string ends within the text. -/
theorem doubleQuotedRest_within : MatchesWithin doubleQuotedRest := by
  intro cs
  induction cs using doubleQuotedRest.induct with
  | case1 => intro n h; cases h
  | case2 _ cs ih =>
    intro n h
    rw [doubleQuotedRest] at h
    obtain ⟨m, hm, rfl⟩ := Option.map_eq_some_iff.mp h
    have := ih m hm
    simp only [List.length_cons]
    omega
  | case3 c cs hno hquote =>
    intro n h
    rw [doubleQuotedRest, if_pos hquote] at h
    · cases h
      simp
    · exact hno
  | case4 c cs hno hquote htick =>
    intro n h
    rw [doubleQuotedRest, if_neg hquote, if_pos htick] at h
    · cases h
    · exact hno
  | case5 c cs hno hquote htick ih =>
    intro n h
    rw [doubleQuotedRest, if_neg hquote, if_neg htick] at h
    · obtain ⟨m, hm, rfl⟩ := Option.map_eq_some_iff.mp h
      have := ih m hm
      simp only [List.length_cons]
      omega
    · exact hno

theorem doubleQuoted_within : MatchesWithin doubleQuoted := by
  intro cs n h
  rw [doubleQuoted.eq_def] at h
  split at h
  · split at h
    · obtain ⟨m, hm, rfl⟩ := Option.map_eq_some_iff.mp h
      have := doubleQuotedRest_within _ m hm
      simp only [List.length_cons]
      omega
    · cases h
  · cases h

theorem hereHeader_within (quote : Char) : MatchesWithin (hereHeader quote) := by
  intro cs n h
  rw [hereHeader.eq_def] at h
  split at h
  · split at h
    · obtain ⟨m, hm, rfl⟩ := Option.map_eq_some_iff.mp h
      have := lineEnd_within _ m hm
      simp only [List.length_cons]
      omega
    · cases h
  · cases h

theorem plainVariable_within : MatchesWithin plainVariable := by
  intro cs n h
  rw [plainVariable.eq_def] at h
  split at h
  · rename_i c cs
    have hname := run_le Text.isWord cs
    split at h
    · simp only at h
      split at h
      · cases h
        have := run_drop_le Text.isWord ‹_›
        simp only [List.length_cons]
        omega
      · cases h
        simp only [List.length_cons]
        omega
    · split at h
      · cases h; simp
      · cases h
  · cases h

theorem bracedVariable_within : MatchesWithin bracedVariable := by
  intro cs n h
  rw [bracedVariable.eq_def] at h
  split at h
  · split at h
    · cases h
      have := dropWhile_ne_nil_run ‹_›
      simp only [List.length_cons]
      omega
    · cases h
  · cases h

theorem splatted_within : MatchesWithin splatted := by
  intro cs n h
  rw [splatted.eq_def] at h
  split at h
  · obtain ⟨m, hm, rfl⟩ := Option.map_eq_some_iff.mp h
    have := nonempty_run_within Text.isWord _ m hm
    simp only [List.length_cons]
    omega
  · cases h

theorem lone_within : MatchesWithin lone := by
  intro cs n h
  rw [lone.eq_def] at h
  split at h
  · split at h
    · cases h; simp
    · cases h
  · cases h

theorem lineContinuation_within : MatchesWithin lineContinuation := by
  intro cs n h
  rw [lineContinuation.eq_def] at h
  split at h
  · obtain ⟨m, hm, rfl⟩ := Option.map_eq_some_iff.mp h
    have := lineEnd_within _ m hm
    simp only [List.length_cons]
    omega
  · cases h

/-- Every pattern matches at least one character and no more than there are. -/
theorem patterns_within : ∀ pattern ∈ patterns, MatchesWithin pattern.2 := by
  rw [patterns]
  simp only [List.forall_mem_append, List.forall_mem_map, List.forall_mem_cons, List.not_mem_nil,
    false_implies, implies_true, and_true]
  have fixed {text : String} (h : 0 < text.length) := literal_within h
  exact ⟨fun word _ => keyword_within word, fixed (by decide), fixed (by decide), fixed (by decide),
    fixed (by decide), fixed (by decide), fixed (by decide), fixed (by decide), fixed (by decide),
    fixed (by decide), fixed (by decide), fixed (by decide), fixed (by decide), fixed (by decide),
    lineComment_within, fixed (by decide), singleQuoted_within, doubleQuoted_within,
    hereHeader_within _, hereHeader_within _, plainVariable_within, bracedVariable_within,
    splatted_within, nonempty_run_within isGap, lineContinuation_within, lineEnd_within,
    nonempty_run_within isWordPart, lone_within⟩

theorem firstLongest_mem {α : Type} : ∀ {xs : List (α × Nat)} {x : α × Nat},
    firstLongest xs = some x → x ∈ xs
  | [], _, h => by cases h
  | x :: xs, y, h => by
    rw [firstLongest] at h
    split at h
    · split at h
      · cases h; exact List.mem_cons_of_mem _ (firstLongest_mem ‹_›)
      · cases h; exact List.mem_cons_self
    · cases h; exact List.mem_cons_self

theorem firstLongest_of_head? {cs : List Char} {found : Lexeme × Nat} (h : head? cs = some found) :
    firstLongest (candidates cs) = some found := by
  rw [head?] at h
  split at h
  · cases h
  · exact h

theorem mem_candidates {cs : List Char} {lexeme : Lexeme} {n : Nat} :
    (lexeme, n) ∈ candidates cs ↔ ∃ pattern, (lexeme, pattern) ∈ patterns ∧ pattern cs = some n := by
  rw [candidates, List.mem_filterMap]
  constructor
  · rintro ⟨⟨first, pattern⟩, hp, hmatch⟩
    obtain ⟨m, hm, hpair⟩ := Option.map_eq_some_iff.mp hmatch
    obtain ⟨rfl, rfl⟩ := Prod.mk.inj hpair
    exact ⟨pattern, hp, hm⟩
  · rintro ⟨pattern, hp, hm⟩
    exact ⟨(lexeme, pattern), hp, by simp only [hm, Option.map_some]⟩

theorem head?_within {cs : List Char} {lexeme : Lexeme} {n : Nat} (h : head? cs = some (lexeme, n)) :
    0 < n ∧ n ≤ cs.length := by
  obtain ⟨pattern, hp, hm⟩ := mem_candidates.mp (firstLongest_mem (firstLongest_of_head? h))
  exact patterns_within _ hp cs n hm

theorem through_le {needle : List Char} : ∀ {cs : List Char} {n : Nat},
    through needle cs = some n → n ≤ cs.length
  | [], n, h => by
    rw [through] at h
    split at h
    · cases h; simp
    · cases h
  | c :: cs, n, h => by
    rw [through] at h
    split at h
    · cases h
      rename_i hp
      exact (List.isPrefixOf_iff_prefix.mp hp).length_le
    · obtain ⟨m, hm, rfl⟩ := Option.map_eq_some_iff.mp h
      exact Nat.succ_le_succ (through_le hm)

theorem hereBody_le {quote : Char} {cs : List Char} {n : Nat} (h : hereBody quote cs = some n) :
    n ≤ cs.length := by
  rw [hereBody] at h
  split at h
  · cases h
    rename_i hp
    exact (List.isPrefixOf_iff_prefix.mp hp).length_le
  · exact through_le h

theorem rest?_le {lexeme : Lexeme} {cs : List Char} {n : Nat} (h : lexeme.rest? cs = some n) :
    n ≤ cs.length := by
  rw [rest?.eq_def] at h
  split at h
  · exact through_le h
  · exact hereBody_le h
  · exact hereBody_le h
  · cases h; exact Nat.zero_le _

theorem whole?_eq_some {cs : List Char} {lexeme : Lexeme} {n : Nat}
    (h : whole? cs = some (lexeme, n)) : ∃ m more, head? cs = some (lexeme, m) ∧
      lexeme.rest? (cs.drop m) = some more ∧ n = m + more := by
  obtain ⟨⟨first, m⟩, hhead, hmore⟩ := Option.bind_eq_some_iff.mp h
  obtain ⟨more, hrest, hpair⟩ := Option.map_eq_some_iff.mp hmore
  obtain ⟨rfl, rfl⟩ := Prod.mk.inj hpair
  exact ⟨m, more, hhead, hrest, rfl⟩

/-- A lexeme has at least one character and none past the end of the text. -/
theorem whole?_within {cs : List Char} {lexeme : Lexeme} {n : Nat}
    (h : whole? cs = some (lexeme, n)) : 0 < n ∧ n ≤ cs.length := by
  obtain ⟨m, more, hm, hrest, rfl⟩ := whole?_eq_some h
  have hhead := head?_within hm
  have hle := rest?_le hrest
  rw [List.length_drop] at hle
  omega

end Lexeme

/-! ### Cutting -/

/-- Skipping characters is cutting what is left after them. -/
theorem Cut.ofRest_skip : ∀ (skip start : Nat) (cs : List Char),
    Cut.ofRest skip start cs = Cut.ofRest 0 (start + Text.byteLength (cs.take skip)) (cs.drop skip)
  | 0, start, cs => by simp
  | skip + 1, start, [] => by simp [Cut.ofRest]
  | skip + 1, start, c :: cs => by
    rw [Cut.ofRest, Cut.ofRest_skip skip, List.take_succ_cons, List.drop_succ_cons,
      Text.byteLength_cons, Nat.add_assoc]

/-- One lexeme is cut off, then the rest of the text is cut from its end on. -/
theorem Cut.ofRest_whole {cs : List Char} {lexeme : Lexeme} {n start : Nat}
    (h : Lexeme.whole? cs = some (lexeme, n)) :
    Cut.ofRest 0 start cs =
      let rest := Cut.ofRest 0 (start + Text.byteLength (cs.take n)) (cs.drop n)
      ⟨⟨lexeme, cs.take n, start⟩ :: rest.pieces, rest.stuck⟩ := by
  obtain ⟨hpos, hle⟩ := Lexeme.whole?_within h
  cases cs with
  | nil => simp only [List.length_nil] at hle; omega
  | cons c cs =>
    obtain ⟨n, rfl⟩ : ∃ m, n = m + 1 := ⟨n - 1, by omega⟩
    rw [Cut.ofRest, h]
    simp only [Nat.add_sub_cancel, List.take_succ_cons, List.drop_succ_cons, Text.byteLength_cons]
    rw [Cut.ofRest_skip n, Nat.add_assoc]

/-- The tokens among the pieces. -/
def Cut.tokens (cut : Cut) : List Token := cut.pieces.filterMap Piece.token?

/-- The token is the text of the source between its offsets, and not empty. -/
structure Token.StandsIn (source : List Char) (t : Token) : Prop where
  nonempty : t.start < t.stop
  sized : t.stop = t.start + Text.byteLength t.value.toList
  placed : ∃ before after, source = before ++ t.value.toList ++ after ∧
    Text.byteLength before = t.start

theorem Token.StandsIn.start_boundary {source : List Char} {t : Token} (h : t.StandsIn source) :
    Text.IsBoundary source t.start := by
  obtain ⟨before, after, rfl, hb⟩ := h.placed
  exact ⟨before, _, List.append_assoc .., hb⟩

theorem Token.StandsIn.stop_boundary {source : List Char} {t : Token} (h : t.StandsIn source) :
    Text.IsBoundary source t.stop := by
  obtain ⟨before, after, rfl, hb⟩ := h.placed
  exact ⟨before ++ t.value.toList, after, rfl, by rw [Text.byteLength_append, hb, h.sized]⟩

/-- Tokens in order, each of which ends before the next one starts. -/
def Spaced (ts : List Token) : Prop := ts.Pairwise fun a b => a.stop ≤ b.start

theorem Cut.tokens_none {cs : List Char} {start : Nat} (h : Lexeme.whole? cs = none) :
    (Cut.ofRest 0 start cs).tokens = [] := by
  cases cs with
  | nil => rfl
  | cons c cs => rw [Cut.ofRest, h]; rfl

theorem Cut.tokens_whole {cs : List Char} {lexeme : Lexeme} {n start : Nat}
    (h : Lexeme.whole? cs = some (lexeme, n)) :
    (Cut.ofRest 0 start cs).tokens = (Piece.token? ⟨lexeme, cs.take n, start⟩).toList ++
      (Cut.ofRest 0 (start + Text.byteLength (cs.take n)) (cs.drop n)).tokens := by
  rw [Cut.ofRest_whole h, Cut.tokens, List.filterMap_cons]
  cases Piece.token? ⟨lexeme, cs.take n, start⟩ <;> rfl

theorem Piece.token?_mem {p : Piece} {t : Token} (h : t ∈ p.token?.toList) :
    t.start = p.start ∧ t.value.toList = p.text ∧ t.stop = p.start + Text.byteLength p.text := by
  obtain ⟨lexeme, text, start⟩ := p
  cases lexeme with
  | token kind =>
    obtain rfl : t = .startingAt start kind (.ofList text) := by simpa [Piece.token?] using h
    exact ⟨rfl, String.toList_ofList, congrArg (start + ·) (Text.utf8ByteSize_ofList text)⟩
  | blanks => cases h
  | continuation => cases h

theorem Piece.token?_standsIn {lexeme : Lexeme} {before text after : List Char} {t : Token}
    (htext : text ≠ []) (h : t ∈ (Piece.token? ⟨lexeme, text, Text.byteLength before⟩).toList) :
    t.stop = Text.byteLength before + Text.byteLength text ∧ Text.byteLength before ≤ t.start ∧
      t.StandsIn (before ++ text ++ after) := by
  obtain ⟨hstart, hvalue, hstop⟩ : t.start = Text.byteLength before ∧ t.value.toList = text ∧
    t.stop = Text.byteLength before + Text.byteLength text := Piece.token?_mem h
  have hsize := Text.byteLength_pos htext
  refine ⟨hstop, Nat.le_of_eq hstart.symm, by omega, ?_, before, after, ?_, hstart.symm⟩
  · rw [hstop, hstart, hvalue]
  · rw [hvalue]

/-- What cutting finds from `before` on: tokens in order, none of them before. -/
theorem Cut.tokens_spaced (before cs : List Char) :
    Spaced (Cut.ofRest 0 (Text.byteLength before) cs).tokens ∧
    ∀ t ∈ (Cut.ofRest 0 (Text.byteLength before) cs).tokens,
      Text.byteLength before ≤ t.start ∧ t.StandsIn (before ++ cs) := by
  induction hlen : cs.length using Nat.strongRecOn generalizing before cs with
  | ind len ih =>
    cases hwhole : Lexeme.whole? cs with
    | none =>
      rw [Cut.tokens_none hwhole]
      exact ⟨.nil, fun _ h => absurd h List.not_mem_nil⟩
    | some found =>
      obtain ⟨lexeme, n⟩ := found
      obtain ⟨hpos, hle⟩ := Lexeme.whole?_within hwhole
      -- the text is what stands before, the lexeme and what is left
      have hsplit : before ++ cs.take n ++ cs.drop n = before ++ cs := by
        rw [List.append_assoc, List.take_append_drop]
      obtain ⟨hspaced, hplaced⟩ := ih (cs.drop n).length (by rw [List.length_drop]; omega)
        (before ++ cs.take n) (cs.drop n) rfl
      rw [Text.byteLength_append] at hspaced hplaced
      rw [hsplit] at hplaced
      have hne : cs.take n ≠ [] := fun hnil => by
        have := congrArg List.length hnil
        rw [List.length_take, List.length_nil] at this
        omega
      have hfirst : ∀ t ∈ (Piece.token? ⟨lexeme, cs.take n, Text.byteLength before⟩).toList,
          t.stop = Text.byteLength before + Text.byteLength (cs.take n) ∧
          Text.byteLength before ≤ t.start ∧ t.StandsIn (before ++ cs) := fun t ht =>
        hsplit ▸ Piece.token?_standsIn hne ht
      rw [Cut.tokens_whole hwhole]
      refine ⟨List.pairwise_append.mpr ⟨?_, hspaced, fun a ha b hb => ?_⟩, fun t ht => ?_⟩
      · cases Piece.token? ⟨lexeme, cs.take n, Text.byteLength before⟩ with
        | none => exact .nil
        | some t => exact List.pairwise_singleton _ t
      · rw [(hfirst a ha).1]
        exact (hplaced b hb).1
      · rcases List.mem_append.mp ht with ht | ht
        · exact (hfirst t ht).2
        · exact ⟨Nat.le_trans (Nat.le_add_right _ _) (hplaced t ht).1, (hplaced t ht).2⟩

/-! ### Scripts -/

/-- The tokens of the script stand in its source, in order. -/
structure Script.IsPlaced (script : Script) : Prop where
  spaced : Spaced script.tokens
  standsIn : ∀ t ∈ script.tokens, t.StandsIn script.source

theorem tokenize_eq_ok {source : List Char} {tokens : List Token} (h : tokenize source = .ok tokens) :
    (Cut.of source).stuck = none ∧ tokens = (Cut.of source).tokens := by
  rw [tokenize] at h
  simp only at h
  split at h
  · cases h; exact ⟨‹_›, rfl⟩
  · cases h

/-- The tokens of a source stand in it, in order. -/
theorem tokenize_isPlaced {source : List Char} {tokens : List Token} (file : Option String)
    (h : tokenize source = .ok tokens) : Script.IsPlaced ⟨source, file, tokens⟩ := by
  obtain ⟨-, rfl⟩ := tokenize_eq_ok h
  obtain ⟨hspaced, hplaced⟩ := Cut.tokens_spaced [] source
  exact ⟨hspaced, fun t ht => (hplaced t ht).2⟩

end HelpAudit
