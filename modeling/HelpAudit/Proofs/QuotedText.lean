import Mathlib.Data.List.Forall2
import HelpAudit.Proofs.LexLocality
import HelpAudit.Proofs.ParallelRuns

/-! What stands between the delimiters of a quoted string or a block comment never looks like code. Any
    other text that does not end the token gives a source with the same tokens, but for that one, and a
    tree of the same outline. One text is set apart: a line end first in a string right behind an `@`
    turns the two into the start of a here-string. -/

namespace HelpAudit

/-! ### Delimiters -/

/-- The delimiters of quoted strings and block comments. -/
inductive TokenKind.Delimits : TokenKind → List Char → List Char → Prop where
  | single {q q' : Char} : Lexeme.isSingleQuote q = true → Lexeme.isSingleQuote q' = true →
    Delimits (.string .single) [q] [q']
  | double {q q' : Char} : Lexeme.isDoubleQuote q = true → Lexeme.isDoubleQuote q' = true →
    Delimits (.string .double) [q] [q']
  | block : Delimits (.comment .block) ['<', '#'] ['#', '>']

/-- The number of characters of a delimiter. -/
def TokenKind.fence : TokenKind → Nat
  | .comment _ => 2
  | _ => 1

/-- The texts that may stand between the delimiters, since nothing in them ends the token. -/
def TokenKind.Admits : TokenKind → List Char → Prop
  | .string .single, inner => ∀ c ∈ inner, Lexeme.isSingleQuote c = false
  | .string .double, inner => ∀ c ∈ inner, Lexeme.isDoubleQuote c = false ∧ c ≠ '\x60'
  | .comment .block, inner => ¬ ['#', '>'] <:+: inner
  | _, _ => False

theorem TokenKind.Delimits.length {kind : TokenKind} {opening closing : List Char}
    (h : kind.Delimits opening closing) :
    opening.length = kind.fence ∧ closing.length = kind.fence := by
  cases h <;> exact ⟨rfl, rfl⟩

theorem TokenKind.Delimits.opens {kind : TokenKind} {opening closing : List Char}
    (h : kind.Delimits opening closing) :
    ∃ q more, opening = q :: more ∧ Lexeme.opensQuoted q = true := by
  cases h with
  | single hq _ => exact ⟨_, [], rfl, by simp [Lexeme.opensQuoted, hq]⟩
  | double hq _ => exact ⟨_, [], rfl, by simp [Lexeme.opensQuoted, hq]⟩
  | block => exact ⟨'<', ['#'], rfl, rfl⟩

namespace Lexeme

/-! ### Tokens between delimiters -/

theorem singleQuoted_append {q q' : Char} {inner : List Char} (hq : isSingleQuote q = true)
    (hq' : isSingleQuote q' = true) (h : ∀ c ∈ inner, isSingleQuote c = false) (rest : List Char) :
    singleQuoted (q :: (inner ++ q' :: rest)) = some (inner.length + 2) := by
  have hinner : ∀ c ∈ inner, (!isSingleQuote c) = true := fun c hc => by rw [h c hc]; rfl
  rw [singleQuoted_eq_some hq, run_append hinner (by rw [hq']; rfl),
    List.dropWhile_append_of_pos hinner, List.dropWhile_cons_of_neg (by simp [hq'])]
  exact ⟨List.cons_ne_nil _ _, rfl⟩

theorem doubleQuotedRest_append {q : Char} (hq : isDoubleQuote q = true) (rest : List Char) :
    ∀ {inner : List Char}, (∀ c ∈ inner, isDoubleQuote c = false ∧ c ≠ '\x60') →
      doubleQuotedRest (inner ++ q :: rest) = some (inner.length + 1)
  | [], _ => by
    have hne : q ≠ '\x60' := by rintro rfl; cases hq
    rw [List.nil_append, doubleQuotedRest_cons hne, if_pos hq]
    rfl
  | c :: inner, h => by
    obtain ⟨hc, hinner⟩ := List.forall_mem_cons.mp h
    rw [List.cons_append, doubleQuotedRest_cons hc.2, hc.1, doubleQuotedRest_append hq rest hinner]
    rfl

/-- Between its delimiters a token is closed by the second one, whatever follows. -/
theorem fits_delimited {kind : TokenKind} {opening closing inner : List Char}
    (hkind : kind.Delimits opening closing) (hinner : kind.Admits inner) (rest : List Char) :
    Chunk.Fits ⟨.token kind, opening ++ inner ++ closing⟩ rest := by
  cases hkind with
  | @single q q' hq hq' =>
    have hmatch := singleQuoted_append hq hq' hinner rest
    simp [Chunk.Fits, whole?, head?_singleQuote hq, hmatch, rest?]
  | @double q q' hq hq' =>
    have hmatch := doubleQuotedRest_append hq' rest hinner
    simp [Chunk.Fits, whole?, head?_doubleQuote hq, doubleQuoted, hq, hmatch, rest?]
  | block =>
    exact fits_blockComment hinner rest

/-! ### The delimiters of a token -/

theorem pattern_of_head? {cs : List Char} {lexeme : Lexeme} {n : Nat}
    {pattern : List Char → Option Nat} (h : head? cs = some (lexeme, n))
    (honly : patterns.filter (fun p => p.1 = lexeme) = [(lexeme, pattern)]) : pattern cs = some n := by
  obtain ⟨found, hfound, hm⟩ := mem_candidates.mp (firstLongest_mem (firstLongest_of_head? h))
  have hmem : (lexeme, found) ∈ patterns.filter (fun p => p.1 = lexeme) :=
    List.mem_filter.mpr ⟨hfound, decide_eq_true rfl⟩
  rw [honly, List.mem_singleton] at hmem
  obtain ⟨-, rfl⟩ := Prod.mk.inj hmem
  exact hm

theorem singleQuoted_closed {cs : List Char} {n : Nat} (h : singleQuoted cs = some n) :
    ∃ q inner q' rest, cs = q :: (inner ++ q' :: rest) ∧ n = inner.length + 2 ∧
      isSingleQuote q = true ∧ isSingleQuote q' = true := by
  cases cs with
  | nil => cases h
  | cons q cs =>
    cases hq : isSingleQuote q with
    | false => simp [singleQuoted, hq] at h
    | true =>
      obtain ⟨hdrop, rfl⟩ := (singleQuoted_eq_some hq).mp h
      obtain ⟨q', rest, hrest⟩ := List.exists_cons_of_ne_nil hdrop
      have hq' : isSingleQuote q' = true := by
        have := List.head?_dropWhile_not (p := (!isSingleQuote ·)) (l := cs)
        rw [hrest] at this
        simpa using this
      refine ⟨q, cs.takeWhile (!isSingleQuote ·), q', rest, ?_, rfl, hq, hq'⟩
      rw [← hrest, List.takeWhile_append_dropWhile]

/-- The rest of an expanding string ends with a quote. -/
theorem doubleQuotedRest_closed (cs : List Char) : ∀ {n : Nat}, doubleQuotedRest cs = some n →
    ∃ inner q rest, cs = inner ++ q :: rest ∧ n = inner.length + 1 ∧ isDoubleQuote q = true := by
  induction cs using doubleQuotedRest.induct with
  | case1 =>
    intro n h
    cases h
  -- a backtick takes the next character with it, even if that is a quote
  | case2 c cs ih =>
    intro n h
    obtain ⟨m, hm, rfl⟩ := Option.map_eq_some_iff.mp h
    obtain ⟨inner, q, rest, rfl, rfl, hq⟩ := ih hm
    exact ⟨'\x60' :: c :: inner, q, rest, rfl, rfl, hq⟩
  | case3 c cs hno hquote =>
    intro n h
    rw [doubleQuotedRest, if_pos hquote] at h
    · cases h
      exact ⟨[], c, cs, rfl, rfl, hquote⟩
    · exact hno
  -- a backtick at the very end leaves the string open
  | case4 c cs hno hquote htick =>
    intro n h
    rw [doubleQuotedRest, if_neg hquote, if_pos htick] at h
    · cases h
    · exact hno
  | case5 c cs hno hquote htick ih =>
    intro n h
    rw [doubleQuotedRest, if_neg hquote, if_neg htick] at h
    · obtain ⟨m, hm, rfl⟩ := Option.map_eq_some_iff.mp h
      obtain ⟨inner, q, rest, rfl, rfl, hq⟩ := ih hm
      exact ⟨c :: inner, q, rest, rfl, rfl, hq⟩
    · exact hno

theorem doubleQuoted_closed {cs : List Char} {n : Nat} (h : doubleQuoted cs = some n) :
    ∃ q inner q' rest, cs = q :: (inner ++ q' :: rest) ∧ n = inner.length + 2 ∧
      isDoubleQuote q = true ∧ isDoubleQuote q' = true := by
  cases cs with
  | nil => cases h
  | cons q cs =>
    rw [doubleQuoted] at h
    split at h
    · obtain ⟨m, hm, rfl⟩ := Option.map_eq_some_iff.mp h
      obtain ⟨inner, q', rest, rfl, rfl, hq'⟩ := doubleQuotedRest_closed cs hm
      exact ⟨q, inner, q', rest, rfl, rfl, ‹_›, hq'⟩
    · cases h

/-- What is read through a mark ends with the mark. -/
theorem through_closed {needle : List Char} : ∀ {cs : List Char} {n : Nat},
    through needle cs = some n →
      ∃ inner rest, cs = inner ++ needle ++ rest ∧ n = inner.length + needle.length
  | [], n, h => by
    rw [through] at h
    split at h
    · rename_i hempty
      cases h
      rw [List.isEmpty_iff.mp hempty]
      exact ⟨[], [], rfl, rfl⟩
    · cases h
  | c :: cs, n, h => by
    rw [through] at h
    split at h
    · rename_i hprefix
      cases h
      obtain ⟨rest, hrest⟩ := List.isPrefixOf_iff_prefix.mp hprefix
      exact ⟨[], rest, hrest.symm, (Nat.zero_add _).symm⟩
    · obtain ⟨m, hm, rfl⟩ := Option.map_eq_some_iff.mp h
      obtain ⟨inner, rest, rfl, rfl⟩ := through_closed hm
      exact ⟨c :: inner, rest, rfl, by rw [List.length_cons]; omega⟩

/-- A token that has a text between delimiters stands between its delimiters. -/
theorem delimited_of_fits {kind : TokenKind} {text rest inner : List Char}
    (h : Chunk.Fits ⟨.token kind, text⟩ rest) (hkind : kind.Admits inner) :
    ∃ opening middle closing, kind.Delimits opening closing ∧ text = opening ++ middle ++ closing := by
  -- the pattern tells how the text and what follows it are split; the length tells which part is the token
  have hcut : ∀ front back : List Char, text ++ rest = front ++ back →
      text.length = front.length → text = front := fun _ _ heq hlen => List.append_inj_left heq hlen
  obtain ⟨m, more, hhead, hrest, hlength⟩ := whole?_eq_some h
  unfold TokenKind.Admits at hkind
  split at hkind
  · cases hrest
    obtain ⟨q, middle, q', back, heq, rfl, hq, hq'⟩ := singleQuoted_closed (pattern_of_head? hhead rfl)
    refine ⟨[q], middle, [q'], .single hq hq', hcut _ back ?_ ?_⟩
    · simpa using heq
    · simpa using hlength
  · cases hrest
    obtain ⟨q, middle, q', back, heq, rfl, hq, hq'⟩ := doubleQuoted_closed (pattern_of_head? hhead rfl)
    refine ⟨[q], middle, [q'], .double hq hq', hcut _ back ?_ ?_⟩
    · simpa using heq
    · simpa using hlength
  · have hopen : literal "<#" (text ++ rest) = some m := pattern_of_head? hhead rfl
    rw [literal] at hopen
    split at hopen
    · rename_i hprefix
      cases hopen
      obtain ⟨tail, htail⟩ := List.isPrefixOf_iff_prefix.mp hprefix
      rw [← htail] at hrest
      obtain ⟨middle, back, heq, rfl⟩ := through_closed hrest
      obtain rfl : tail = middle ++ ['#', '>'] ++ back := heq
      refine ⟨['<', '#'], middle, ['#', '>'], .block, hcut _ back ?_ ?_⟩
      · rw [← htail, List.append_assoc, List.append_assoc]
        rfl
      · rw [List.length_append, List.length_append]
        exact hlength.trans (Nat.add_assoc _ _ _).symm
    · cases hopen
  · exact hkind.elim

end Lexeme

/-! ### From tokens back to chunks -/

namespace Chunk

/-- Cutting gives chunks that fit, up to the end of the text or to a place where no lexeme starts. -/
theorem exists_of_rest (start : Nat) (cs : List Char) : ∃ chunks rest, AllFit chunks rest ∧
    joined chunks ++ rest = cs ∧ (Cut.ofRest 0 start cs).tokens = tokens start chunks ∧
    (rest = [] ∧ (Cut.ofRest 0 start cs).stuck = none ∨
      rest ≠ [] ∧ (Cut.ofRest 0 start cs).stuck = some (start + Text.byteLength (joined chunks))) := by
  induction hlen : cs.length using Nat.strongRecOn generalizing start cs with
  | ind len ih =>
    cases hwhole : Lexeme.whole? cs with
    | none =>
      refine ⟨[], cs, trivial, rfl, Cut.tokens_none hwhole, ?_⟩
      cases cs with
      | nil => exact .inl ⟨rfl, rfl⟩
      | cons c cs => exact .inr ⟨List.cons_ne_nil _ _, by rw [Cut.ofRest, hwhole]; rfl⟩
    | some found =>
      obtain ⟨lexeme, n⟩ := found
      obtain ⟨hpos, hle⟩ := Lexeme.whole?_within hwhole
      obtain ⟨chunks, rest, hfit, hjoined, htokens, hstuck⟩ := ih (cs.drop n).length
        (by rw [List.length_drop]; omega) (start + Text.byteLength (cs.take n)) (cs.drop n) rfl
      have hsplit : cs.take n ++ (joined chunks ++ rest) = cs := by
        rw [hjoined, List.take_append_drop]
      refine ⟨⟨lexeme, cs.take n⟩ :: chunks, rest, ⟨?_, hfit⟩, ?_, ?_, ?_⟩
      · rw [Fits, hsplit, hwhole, List.length_take, Nat.min_eq_left hle]
      · rw [joined_cons, List.append_assoc, hsplit]
      · rw [Cut.tokens_whole hwhole, htokens]
        rfl
      · rw [Cut.ofRest_whole hwhole, joined_cons, Text.byteLength_append, ← Nat.add_assoc]
        exact hstuck

theorem exists_of_cut {start : Nat} {cs : List Char} (h : (Cut.ofRest 0 start cs).stuck = none) :
    ∃ chunks, AllFit chunks [] ∧ joined chunks = cs := by
  obtain ⟨chunks, rest, hfit, rfl, -, ⟨rfl, -⟩ | ⟨-, hstuck⟩⟩ := exists_of_rest start cs
  · exact ⟨chunks, hfit, (List.append_nil _).symm⟩
  · rw [h] at hstuck
    cases hstuck

/-- A token of chunks in a row is the token of one of them. -/
theorem exists_of_tokens {t : Token} {after : List Token} : ∀ {chunks : List Chunk} {start : Nat}
    {before : List Token}, tokens start chunks = before ++ t :: after →
    ∃ front kind text back, chunks = front ++ ⟨.token kind, text⟩ :: back ∧
      tokens start front = before ∧
      t = .startingAt (start + Text.byteLength (joined front)) kind (.ofList text)
  | [], start, before, h => by
    rw [tokens_nil] at h
    exact absurd h.symm (List.append_ne_nil_of_right_ne_nil _ (List.cons_ne_nil _ _))
  | ⟨lexeme, text⟩ :: chunks, start, before, h => by
    -- the token is one of the later chunks, whatever the first one gives
    have hmore : ∀ {before' : List Token},
        tokens (start + Text.byteLength text) chunks = before' ++ t :: after →
        (Piece.token? ⟨lexeme, text, start⟩).toList ++ before' = before →
        ∃ front kind text' back, ⟨lexeme, text⟩ :: chunks = front ++ ⟨.token kind, text'⟩ :: back ∧
          tokens start front = before ∧
          t = .startingAt (start + Text.byteLength (joined front)) kind (.ofList text') := by
      intro before' hchunks hbefore
      obtain ⟨front, kind, text', back, rfl, hfront, ht⟩ := exists_of_tokens hchunks
      refine ⟨⟨lexeme, text⟩ :: front, kind, text', back, rfl, ?_, ?_⟩
      · rw [tokens, hfront, hbefore]
      · rw [joined_cons, Text.byteLength_append, ← Nat.add_assoc]
        exact ht
    cases lexeme with
    | token kind =>
      rw [tokens_token] at h
      cases before with
      | nil =>
        obtain ⟨rfl, -⟩ := List.cons.inj h
        exact ⟨[], kind, text, chunks, rfl, rfl, rfl⟩
      | cons u before =>
        obtain ⟨rfl, hchunks⟩ := List.cons.inj h
        exact hmore hchunks rfl
    | blanks => exact hmore h rfl
    | continuation => exact hmore h rfl

end Chunk

/-! ### Outlines -/

/-- Kinds, and the texts of names and variables. -/
def Link.outline : Link where
  view := .outline
  token t t' := t.kind = t'.kind ∧
    (t.kind.isNameLike = true ∨ t.kind = .var → t.value = t'.value)
  offset _ _ := True
  error _ _ := True

theorem Link.outline_joins (script script' : Script) : Link.outline.Joins script script' where
  kind h := h.1
  value h := h.2
  start _ := trivial
  stop _ := trivial
  zero := trivial
  size := trivial
  max _ _ := trivial
  extent _ _ := rfl
  text _ _ := rfl
  ends _ := trivial
  fault _ _ _ := trivial

/-- The chunks are of one kind, and have the same text where the outline depends on it. -/
def Chunk.SameOutline (chunk chunk' : Chunk) : Prop :=
  chunk.lexeme = chunk'.lexeme ∧ (chunk.text = chunk'.text ∨
    ∀ kind, chunk.lexeme = .token kind → ¬ (kind.isNameLike = true ∨ kind = .var))

/-- Chunks of the same outline have aligned tokens. -/
theorem Chunk.tokens_aligned {chunks chunks' : List Chunk}
    (h : List.Forall₂ SameOutline chunks chunks') : ∀ (free : Bool) (start start' : Nat),
      Aligned Link.outline free (tokens start chunks) (tokens start' chunks') := by
  induction h with
  | nil => exact fun _ _ _ => .nil
  | @cons chunk chunk' chunks chunks' hsame _ ih =>
    intro free start start'
    obtain ⟨lexeme, text⟩ := chunk
    obtain ⟨lexeme', text'⟩ := chunk'
    obtain ⟨rfl, htext⟩ : lexeme = lexeme' ∧ _ := hsame
    cases lexeme with
    | token kind =>
      refine .cons ⟨rfl, fun hnames => ?_⟩ (ih _ _ _)
      rcases htext with heq | hfree
      · exact congrArg String.ofList heq
      · exact absurd hnames (hfree kind rfl)
    | blanks => exact ih _ _ _
    | continuation => exact ih _ _ _

theorem TokenKind.Admits.not_named {kind : TokenKind} {inner : List Char} (h : kind.Admits inner) :
    ¬ (kind.isNameLike = true ∨ kind = .var) := by
  rintro (hname | rfl)
  · cases kind with
    | word => exact h
    | keyword word => exact h
    | _ => cases hname
  · exact h

/-! ### Other texts between the delimiters -/

/-- The token's text with another text between its delimiters. -/
def Token.refilled (t : Token) (inner : List Char) : List Char :=
  let text := t.value.toList
  text.take t.kind.fence ++ inner ++ text.drop (text.length - t.kind.fence)

/-- The text in which the token stands, with another text between the token's delimiters. -/
def Token.refillIn (t : Token) (inner text : List Char) : List Char :=
  (Text.takeBytes? t.start text).getD [] ++ t.refilled inner ++ (Text.dropBytes? t.stop text).getD []

/-- A line end first in the new text makes the string's ASCII quote and an `@` right before it the start
    of a here-string. -/
def Token.MakesHereString (t : Token) (before : List Token) (inner : List Char) : Prop :=
  (∃ u ∈ before.getLast?, u.value = "@" ∧ u.stop = t.start) ∧
    (t.value.toList.head? = some '\x27' ∨ t.value.toList.head? = some '\x22') ∧
    Lexeme.lineEnd inner ≠ none

theorem refilled_startingAt {kind : TokenKind} {opening closing : List Char}
    (hkind : kind.Delimits opening closing) (start : Nat) (middle inner : List Char) :
    (Token.startingAt start kind (.ofList (opening ++ middle ++ closing))).refilled inner =
      opening ++ inner ++ closing := by
  obtain ⟨hopening, hclosing⟩ := hkind.length
  have hdrop : (opening ++ middle ++ closing).length - kind.fence = (opening ++ middle).length := by
    rw [List.length_append, hclosing, Nat.add_sub_cancel]
  simp only [Token.refilled, Token.startingAt_kind, Token.startingAt_value, String.toList_ofList]
  rw [hdrop, List.drop_left, List.append_assoc opening middle, ← hopening, List.take_left]

/-- Refilling a token in a text changes the text at its place only. -/
theorem refillIn_append (start : Nat) (kind : TokenKind) {front text : List Char}
    (hstart : start = Text.byteLength front) (back inner : List Char) :
    (Token.startingAt start kind (.ofList text)).refillIn inner (front ++ (text ++ back)) =
      front ++ ((Token.startingAt start kind (.ofList text)).refilled inner ++ back) := by
  have hstop : (Token.startingAt start kind (.ofList text)).stop =
      Text.byteLength (front ++ text) := by
    rw [Text.byteLength_append, ← Text.utf8ByteSize_ofList text, ← hstart]
    rfl
  have htake : Text.takeBytes? start (front ++ (text ++ back)) = some front := by
    rw [hstart, Text.takeBytes?_append]
  have hdrop : Text.dropBytes? (Text.byteLength (front ++ text)) (front ++ (text ++ back)) =
      some back := by
    rw [← List.append_assoc, Text.dropBytes?_append]
  rw [Token.refillIn, hstop, hdrop, List.append_assoc]
  exact congrArg (fun found => Option.getD found [] ++ _) htake

/-- An `@` that is cut off in front of an ASCII quote is a token. -/
theorem lexeme_at {q : Char} {x : List Char} {lexeme : Lexeme} (hq : q = '\x27' ∨ q = '\x22')
    (h : Chunk.Fits ⟨lexeme, ['@']⟩ (q :: x)) : lexeme = .token .other := by
  have hcs : ∃ style, Lexeme.candidates ('@' :: q :: x) =
      (((Lexeme.lineEnd x).map (· + 2)).map (Lexeme.token (.string style), ·)).toList ++
        [(.token .other, 1)] := by
    rcases hq with rfl | rfl
    · refine ⟨.hereSingle, ?_⟩
      have hhere : Lexeme.hereHeader '\x27' ('@' :: '\x27' :: x) = (Lexeme.lineEnd x).map (· + 2) := rfl
      rw [Lexeme.candidates, List.filterMap_eq_flatMap_toList]
      simp only [Lexeme.patterns, List.flatMap_append, List.flatMap_cons, List.flatMap_nil, hhere]
      cases Lexeme.lineEnd x <;> rfl
    · refine ⟨.hereDouble, ?_⟩
      have hhere : Lexeme.hereHeader '\x22' ('@' :: '\x22' :: x) = (Lexeme.lineEnd x).map (· + 2) := rfl
      rw [Lexeme.candidates, List.filterMap_eq_flatMap_toList]
      simp only [Lexeme.patterns, List.flatMap_append, List.flatMap_cons, List.flatMap_nil, hhere]
      cases Lexeme.lineEnd x <;> rfl
  obtain ⟨style, hcs⟩ := hcs
  obtain ⟨m, more, hhead, -, hlength⟩ := Lexeme.whole?_eq_some h
  have hlength : 1 = m + more := hlength
  have hmem : (lexeme, m) ∈ Lexeme.candidates ('@' :: q :: x) :=
    Lexeme.firstLongest_mem (Lexeme.firstLongest_of_head? hhead)
  rw [hcs] at hmem
  rcases List.mem_append.mp hmem with hheader | hother
  · -- the first line of a here-string is longer than the `@`
    obtain ⟨n, hn, hpair⟩ := Option.map_eq_some_iff.mp (Option.mem_toList.mp hheader)
    obtain ⟨k, -, rfl⟩ := Option.map_eq_some_iff.mp hn
    obtain ⟨-, rfl⟩ := Prod.mk.inj hpair
    omega
  · exact (Prod.mk.inj (List.mem_singleton.mp hother)).1

/-- The last token before an ASCII quote is an `@` if the last chunk is. -/
theorem exists_at {front : List Chunk} {chunk : Chunk} {q : Char} {x : List Char}
    (hq : q = '\x27' ∨ q = '\x22') (hfit : Chunk.AllFit front (q :: x))
    (hlast : chunk ∈ front.getLast?) (htext : chunk.text = ['@']) :
    ∃ u ∈ (Chunk.tokens 0 front).getLast?,
      u.value = "@" ∧ u.stop = Text.byteLength (Chunk.joined front) := by
  obtain ⟨init, rfl⟩ := List.getLast?_eq_some_iff.mp hlast
  obtain ⟨lexeme, text⟩ := chunk
  obtain rfl : text = ['@'] := htext
  obtain ⟨hfits, -⟩ := (Chunk.allFit_append.mp hfit).2
  obtain rfl := lexeme_at hq hfits
  rw [Chunk.tokens_append, Chunk.tokens_token, Chunk.tokens_nil, List.getLast?_concat]
  refine ⟨_, rfl, rfl, ?_⟩
  rw [Chunk.joined_append, Text.byteLength_append, Nat.zero_add]
  rfl

/-- A line end behind the opening quote of a string comes from the text between the delimiters. -/
theorem lineEnd_inner {kind : TokenKind} {q : Char} {more closing inner rest : List Char}
    (hkind : kind.Delimits (q :: more) closing) (hq : q = '\x27' ∨ q = '\x22') :
    Lexeme.lineEnd (more ++ inner ++ closing ++ rest) = Lexeme.lineEnd inner := by
  have happ : ∀ {q' : Char}, Lexeme.opensQuoted q' = true →
      Lexeme.lineEnd (inner ++ q' :: rest) = Lexeme.lineEnd inner := by
    intro q' hq'
    obtain ⟨hfeed, hreturn, -⟩ := Lexeme.opensQuoted_apart hq'
    exact Lexeme.lineEnd_append ⟨hfeed, hreturn⟩ inner rest
  cases hkind with
  | single _ hq' =>
    rw [List.nil_append, List.append_assoc]
    exact happ (by simp [Lexeme.opensQuoted, hq'])
  | double _ hq' =>
    rw [List.nil_append, List.append_assoc]
    exact happ (by simp [Lexeme.opensQuoted, hq'])
  | block => exact absurd hq (by decide)

/-- Chunks go on fitting when one of them gets another text between its delimiters. -/
theorem allFit_refilled {front back : List Chunk} {kind : TokenKind}
    {opening middle closing inner : List Char} (hkind : kind.Delimits opening closing)
    (hinner : kind.Admits inner)
    (hfit : Chunk.AllFit (front ++ ⟨.token kind, opening ++ middle ++ closing⟩ :: back) [])
    (hhere : ¬ (Token.startingAt (Text.byteLength (Chunk.joined front)) kind
      (.ofList (opening ++ middle ++ closing))).MakesHereString (Chunk.tokens 0 front) inner) :
    Chunk.AllFit (front ++ ⟨.token kind, opening ++ inner ++ closing⟩ :: back) [] := by
  obtain ⟨q, more, rfl, hq⟩ := hkind.opens
  obtain ⟨hfront, -, hback⟩ := Chunk.allFit_append.mp hfit
  have hjoined : ∀ text, Chunk.joined (⟨.token kind, q :: more ++ text ++ closing⟩ :: back) ++ [] =
      q :: (more ++ text ++ closing ++ Chunk.joined back) := fun text => by
    rw [Chunk.joined_cons, List.append_nil]
    rfl
  refine Chunk.allFit_append.mpr ⟨?_, Lexeme.fits_delimited hkind hinner _, hback⟩
  rw [hjoined] at hfront ⊢
  refine Chunk.allFit_keeps hq ?_ hfront
  intro chunk hlast htext hquote
  by_contra hline
  rw [lineEnd_inner hkind hquote] at hline
  refine hhere ⟨exists_at hquote hfront hlast htext, ?_, hline⟩
  simpa using hquote

/-- With another text between the delimiters of one token, a text has the same tokens but for it, and
    starts with the same character. -/
theorem tokenize_refillIn {text : List Char} {before after : List Token} {t : Token}
    {inner : List Char} (h : tokenize text = .ok (before ++ t :: after)) (hinner : t.kind.Admits inner)
    (hhere : ¬ t.MakesHereString before inner) :
    (t.refillIn inner text).head? = text.head? ∧
      ∃ tokens, tokenize (t.refillIn inner text) = .ok tokens ∧
        Aligned Link.outline true (before ++ t :: after) tokens := by
  obtain ⟨chunks, hfit, rfl⟩ := Chunk.exists_of_cut (tokenize_eq_ok h).1
  rw [Chunk.tokenize_joined hfit] at h
  obtain ⟨front, kind, old, back, rfl, rfl, rfl⟩ := Chunk.exists_of_tokens (Except.ok.inj h)
  obtain ⟨-, hchunk, -⟩ := Chunk.allFit_append.mp hfit
  obtain ⟨opening, middle, closing, hkind, rfl⟩ := Lexeme.delimited_of_fits hchunk hinner
  rw [Nat.zero_add] at h hhere ⊢
  -- the new text is cut at the same places, so its chunks are the old ones but for this one
  have hnew := allFit_refilled hkind hinner hfit hhere
  have hsame : List.Forall₂ Chunk.SameOutline
      (front ++ ⟨.token kind, opening ++ middle ++ closing⟩ :: back)
      (front ++ ⟨.token kind, opening ++ inner ++ closing⟩ :: back) := by
    have hrefl : ∀ chunks : List Chunk, List.Forall₂ Chunk.SameOutline chunks chunks := fun chunks =>
      List.forall₂_same.mpr fun chunk _ => ⟨rfl, .inl rfl⟩
    refine List.rel_append (hrefl front) (.cons ⟨rfl, .inr ?_⟩ (hrefl back))
    intro kind' hkind'
    obtain rfl := Lexeme.token.inj hkind'
    exact TokenKind.Admits.not_named hinner
  rw [Chunk.joined_append, Chunk.joined_cons, refillIn_append _ kind rfl, refilled_startingAt hkind,
    ← Except.ok.inj h, ← Chunk.joined_cons ⟨.token kind, opening ++ inner ++ closing⟩,
    ← Chunk.joined_append]
  refine ⟨?_, _, Chunk.tokenize_joined hnew, Chunk.tokens_aligned hsame true 0 0⟩
  -- the first character is that of the first chunk, or that of the opening delimiter
  obtain ⟨q, more, rfl, -⟩ := hkind.opens
  cases front with
  | nil => rfl
  | cons chunk front =>
    obtain ⟨c, cs, hcs⟩ := List.exists_cons_of_ne_nil hfit.1.text_ne_nil
    simp only [List.cons_append, Chunk.joined_cons, hcs, List.head?_cons]

/-! ### Sources -/

/-- A source changed behind the byte order mark, if it has one. -/
def behindMark (f : List Char → List Char) : List Char → List Char
  | '\ufeff' :: cs => '\ufeff' :: f cs
  | cs => f cs

/-- The source with another text between the delimiters of the token. -/
def Token.replaced (t : Token) (inner : List Char) (source : String) : String :=
  .ofList (behindMark (t.refillIn inner) source.toList)

theorem withoutMark_of_head? {cs : List Char} (h : cs.head? ≠ some '\ufeff') :
    withoutMark cs = cs := by
  unfold withoutMark
  split
  · exact absurd rfl h
  · rfl

theorem withoutMark_behindMark {f : List Char → List Char} {source : List Char}
    (h : (f (withoutMark source)).head? = (withoutMark source).head?) :
    withoutMark (behindMark f source) = f (withoutMark source) := by
  unfold behindMark
  split
  · rfl
  · rename_i hmark
    have hhead : source.head? ≠ some '\ufeff' := by
      intro hsome
      obtain ⟨cs, rfl⟩ := List.head?_eq_some_iff.mp hsome
      exact hmark cs rfl
    rw [withoutMark_of_head? hhead] at h ⊢
    exact withoutMark_of_head? (h ▸ hhead)

/-- With any other text between the delimiters of a string or a block comment, a source has a tree of
    the same outline: the same functions, parameters, blocks and statements, nested in the same way. -/
theorem quoted_text_is_no_code (source : String) (file : Option String) (root : ScriptBlock)
    (before after : List Token) (t : Token) (inner : List Char) (h : parse source file = .ok root)
    (htokens : tokenize (withoutMark source.toList) = .ok (before ++ t :: after))
    (hinner : t.kind.Admits inner) (hhere : ¬ t.MakesHereString before inner) :
    ∃ root', parse (t.replaced inner source) file = .ok root' ∧
      root'.viewed .outline = root.viewed .outline := by
  obtain ⟨hhead, tokens, htokens', haligned⟩ := tokenize_refillIn htokens hinner hhere
  have hmark : withoutMark (t.replaced inner source).toList =
      t.refillIn inner (withoutMark source.toList) := by
    rw [Token.replaced, String.toList_ofList, withoutMark_behindMark hhead]
  have hagree := parseTokens_agree (Link.outline_joins ⟨withoutMark source.toList, file, _⟩
    ⟨t.refillIn inner (withoutMark source.toList), file, tokens⟩) haligned
  rw [parse] at h
  simp only [htokens] at h
  rcases hagree.cases with ⟨e, -, he, -⟩ | ⟨tree, root', htree, hroot', heq⟩
  · cases he.symm.trans h
  · obtain rfl : tree = root := Except.ok.inj (htree.symm.trans h)
    refine ⟨root', ?_, heq.symm⟩
    rw [parse]
    simp only [hmark, htokens']
    exact hroot'

/-- A line end that does not come first in the string, and braces and a keyword behind it. -/
theorem quoted_text_is_no_code_braces : ∃ root root',
    parse "\ufefffunction F($a) \x7b @'ü' \x7d" none = .ok root ∧
    parse "\ufefffunction F($a) \x7b @' \n\x7d filter G \x7b' \x7d" none = .ok root' ∧
    root'.viewed .outline = root.viewed .outline := by
  obtain ⟨root, hroot⟩ := exists_ok_of_isOk
    (x := parse "\ufefffunction F($a) \x7b @'ü' \x7d" none) (by decide +kernel)
  have hreplaced : Token.replaced ⟨.string .single, "'ü'", 18, 22⟩ " \n\x7d filter G \x7b".toList
      "\ufefffunction F($a) \x7b @'ü' \x7d" =
      "\ufefffunction F($a) \x7b @' \n\x7d filter G \x7b' \x7d" := by decide +kernel
  have hinner : (TokenKind.string .single).Admits " \n\x7d filter G \x7b".toList := by
    have hall : " \n\x7d filter G \x7b".toList.all (!Lexeme.isSingleQuote ·) = true := by decide
    intro c hc
    simpa using List.all_eq_true.mp hall c hc
  obtain ⟨root', hroot', heq⟩ := quoted_text_is_no_code "\ufefffunction F($a) \x7b @'ü' \x7d" none root
    [⟨.keyword (.declare .function), "function", 0, 8⟩, ⟨.word, "F", 9, 10⟩,
      ⟨.opening .paren, "(", 10, 11⟩, ⟨.var, "$a", 11, 13⟩, ⟨.closing .paren, ")", 13, 14⟩,
      ⟨.opening .brace, "\x7b", 15, 16⟩, ⟨.other, "@", 17, 18⟩]
    [⟨.closing .brace, "\x7d", 23, 24⟩] ⟨.string .single, "'ü'", 18, 22⟩
    " \n\x7d filter G \x7b".toList hroot (by decide +kernel) hinner
    (by rintro ⟨-, -, hline⟩; exact hline rfl)
  rw [hreplaced] at hroot'
  exact ⟨root, root', hroot, hroot', heq⟩

/-- A line end that comes first in a string behind an `@` starts a here-string, and this one never
    ends. -/
theorem line_end_starts_here_string : ∃ root, parse "@'a'" none = .ok root ∧
    tokenize (withoutMark "@'a'".toList) =
      .ok ([⟨.other, "@", 0, 1⟩] ++ ⟨.string .single, "'a'", 1, 4⟩ :: []) ∧
    TokenKind.Admits (.string .single) ['\n'] ∧
    ¬ ∃ root', parse (Token.replaced ⟨.string .single, "'a'", 1, 4⟩ ['\n'] "@'a'") none = .ok root' ∧
      root'.viewed .outline = root.viewed .outline := by
  obtain ⟨root, hroot⟩ := exists_ok_of_isOk (x := parse "@'a'" none) (by decide +kernel)
  have hfails : (parse (Token.replaced ⟨.string .single, "'a'", 1, 4⟩ ['\n'] "@'a'") none).isOk =
      false := by decide +kernel
  refine ⟨root, hroot, by decide +kernel, ?_, ?_⟩
  · intro c hc
    rw [List.mem_singleton.mp hc]
    rfl
  · rintro ⟨root', hroot', -⟩
    rw [hroot'] at hfails
    cases hfails

end HelpAudit
