import Mathlib.Data.List.Basic
import HelpAudit.Proofs.CharacterClasses
import HelpAudit.Proofs.TokenSpans

/-! Cutting text that is put together from known lexemes. Where each of them is what the lexer takes in
    front of the text behind it, cutting the whole gives them back. The second half says when some kinds
    of lexemes are taken, whatever names they carry. -/

namespace HelpAudit

@[simp]
theorem Token.startingAt_kind (start : Nat) (kind : TokenKind) (value : String) :
    (Token.startingAt start kind value).kind = kind := rfl

@[simp]
theorem Token.startingAt_value (start : Nat) (kind : TokenKind) (value : String) :
    (Token.startingAt start kind value).value = value := rfl

/-- A lexeme with its text. -/
structure Chunk where
  lexeme : Lexeme
  text : List Char

namespace Chunk

/-- A token with a fixed text. -/
def mark (kind : TokenKind) (text : String) : Chunk := ⟨.token kind, text.toList⟩

/-- The text of chunks in a row. -/
def joined (chunks : List Chunk) : List Char := chunks.flatMap (·.text)

/-- In front of `rest` the lexer takes exactly the chunk. -/
def Fits (chunk : Chunk) (rest : List Char) : Prop :=
  Lexeme.whole? (chunk.text ++ rest) = some (chunk.lexeme, chunk.text.length)

/-- Every chunk fits in front of the chunks behind it and `rest`. -/
def AllFit : List Chunk → List Char → Prop
  | [], _ => True
  | chunk :: chunks, rest => chunk.Fits (joined chunks ++ rest) ∧ AllFit chunks rest

/-- The tokens of chunks that stand one behind the other from an offset on. -/
def tokens (start : Nat) : List Chunk → List Token
  | [] => []
  | chunk :: chunks =>
    (Piece.token? ⟨chunk.lexeme, chunk.text, start⟩).toList ++
      tokens (start + Text.byteLength chunk.text) chunks

theorem joined_cons (chunk : Chunk) (chunks : List Chunk) :
    joined (chunk :: chunks) = chunk.text ++ joined chunks := List.flatMap_cons

theorem joined_append (chunks others : List Chunk) :
    joined (chunks ++ others) = joined chunks ++ joined others := List.flatMap_append

theorem allFit_append {chunks others : List Chunk} {rest : List Char} :
    AllFit (chunks ++ others) rest ↔ AllFit chunks (joined others ++ rest) ∧ AllFit others rest := by
  induction chunks with
  | nil => exact ⟨fun h => ⟨trivial, h⟩, fun h => h.2⟩
  | cons chunk chunks ih =>
    simp only [List.cons_append, AllFit, joined_append, List.append_assoc, ih, and_assoc]

@[simp]
theorem tokens_nil (start : Nat) : tokens start [] = [] := rfl

@[simp]
theorem tokens_token (start : Nat) (kind : TokenKind) (text : List Char) (chunks : List Chunk) :
    tokens start (⟨.token kind, text⟩ :: chunks) =
      .startingAt start kind (.ofList text) :: tokens (start + Text.byteLength text) chunks := rfl

@[simp]
theorem tokens_mark (start : Nat) (kind : TokenKind) (text : String) (chunks : List Chunk) :
    tokens start (mark kind text :: chunks) =
      .startingAt start kind text :: tokens (start + Text.byteLength text.toList) chunks := by
  rw [mark, tokens_token, String.ofList_toList]

@[simp]
theorem tokens_blanks (start : Nat) (text : List Char) (chunks : List Chunk) :
    tokens start (⟨.blanks, text⟩ :: chunks) = tokens (start + Text.byteLength text) chunks := rfl

theorem tokens_append (start : Nat) (chunks others : List Chunk) : tokens start (chunks ++ others) =
    tokens start chunks ++ tokens (start + Text.byteLength (joined chunks)) others := by
  induction chunks generalizing start with
  | nil => rfl
  | cons chunk chunks ih =>
    rw [List.cons_append, tokens, tokens, ih, joined_cons, Text.byteLength_append, Nat.add_assoc,
      List.append_assoc]

/-- Where chunks fit, cutting gives them and goes on behind them. -/
theorem cut_append {chunks : List Chunk} {rest : List Char} (h : AllFit chunks rest) (start : Nat) :
    (Cut.ofRest 0 start (joined chunks ++ rest)).stuck =
        (Cut.ofRest 0 (start + Text.byteLength (joined chunks)) rest).stuck ∧
      (Cut.ofRest 0 start (joined chunks ++ rest)).tokens = tokens start chunks ++
        (Cut.ofRest 0 (start + Text.byteLength (joined chunks)) rest).tokens := by
  induction chunks generalizing start with
  | nil => exact ⟨rfl, rfl⟩
  | cons chunk chunks ih =>
    obtain ⟨hfits, hothers⟩ := h
    obtain ⟨hstuck, htokens⟩ := ih hothers (start + Text.byteLength chunk.text)
    rw [Fits] at hfits
    rw [joined_cons, List.append_assoc, Cut.tokens_whole hfits, Cut.ofRest_whole hfits, List.take_left,
      List.drop_left, tokens, Text.byteLength_append, ← Nat.add_assoc, htokens, List.append_assoc]
    exact ⟨hstuck, rfl⟩

theorem cut_joined {chunks : List Chunk} (h : AllFit chunks []) (start : Nat) :
    (Cut.ofRest 0 start (joined chunks)).stuck = none ∧
      (Cut.ofRest 0 start (joined chunks)).tokens = tokens start chunks := by
  obtain ⟨hstuck, htokens⟩ := cut_append h start
  rw [List.append_nil] at hstuck htokens
  exact ⟨hstuck, htokens.trans (List.append_nil _)⟩

/-- The tokens of the whole text are those of the chunks. -/
theorem tokenize_joined {chunks : List Chunk} (h : AllFit chunks []) :
    tokenize (joined chunks) = .ok (tokens 0 chunks) := by
  obtain ⟨hstuck, htokens⟩ := cut_joined h 0
  rw [tokenize, Cut.of]
  simp only [hstuck]
  rw [← htokens, Cut.tokens]

end Chunk

/-! ### Blanks and comments -/

namespace Lexeme

theorem run_of_not {p : Char → Bool} {d : Char} (hd : p d = false) (rest : List Char) :
    run p (d :: rest) = 0 := by
  rw [run, List.takeWhile_cons, hd]
  rfl

theorem run_append {p : Char → Bool} {cs rest : List Char} {d : Char} (h : ∀ c ∈ cs, p c = true)
    (hd : p d = false) : run p (cs ++ d :: rest) = cs.length := by
  have hrest := run_of_not hd rest
  rw [run] at hrest ⊢
  rw [List.takeWhile_append_of_pos h, List.length_append, hrest, Nat.add_zero]

theorem fits_blank {c : Char} (h : isGap c = false) (rest : List Char) :
    Chunk.Fits ⟨.blanks, [' ']⟩ (c :: rest) := by
  have hwhole : whole? (' ' :: c :: rest) = some (.blanks, run isGap (c :: rest) + 1) := rfl
  rw [Chunk.Fits, List.singleton_append, hwhole, run_of_not h]
  rfl

/-- The end mark of a comment is found where the body ends, if the body has none. -/
theorem through_append {body : List Char} (h : ¬ ['#', '>'] <:+: body) (rest : List Char) :
    through ['#', '>'] (body ++ '#' :: '>' :: rest) = some (body.length + 2) := by
  induction body with
  | nil => rfl
  | cons c body ih =>
    have hbody : ¬ ['#', '>'] <:+: body := fun hwithin => h (List.infix_cons hwithin)
    have hstart : ¬ ['#', '>'].isPrefixOf (c :: (body ++ '#' :: '>' :: rest)) = true := by
      intro hprefix
      cases body with
      | nil => simp [List.isPrefixOf] at hprefix
      | cons d body =>
        obtain ⟨rfl, rfl⟩ : '#' = c ∧ '>' = d := by simpa [List.isPrefixOf] using hprefix
        exact h (List.prefix_append ['#', '>'] body).isInfix
    rw [List.cons_append, through, if_neg hstart, ih hbody]
    rfl

theorem fits_blockComment {body : List Char} (h : ¬ ['#', '>'] <:+: body) (rest : List Char) :
    Chunk.Fits ⟨.token (.comment .block), '<' :: '#' :: (body ++ ['#', '>'])⟩ rest := by
  have hhead : ∀ cs, head? ('<' :: '#' :: cs) = some (.token (.comment .block), 2) := fun _ => rfl
  have hrest := through_append h rest
  rw [Chunk.Fits, List.cons_append, List.cons_append, List.append_assoc, whole?, hhead]
  simp only [Option.bind_some, rest?, List.drop_succ_cons, List.drop_zero, List.cons_append,
    List.nil_append, hrest, Option.map_some, List.length_cons, List.length_append, List.length_nil]
  rw [Nat.add_comm 2]

/-! ### Variables -/

theorem plainVariable_append {name : List Char} {d : Char} (hne : name ≠ [])
    (h : ∀ c ∈ name, Text.isWord c = true) (hd : Text.isWord d = false) (hcolon : d ≠ ':')
    (rest : List Char) : plainVariable ('$' :: (name ++ d :: rest)) = some (name.length + 1) := by
  cases name with
  | nil => exact absurd rfl hne
  | cons c name =>
    have hname : ∀ c ∈ name, Text.isWord c = true := fun c hc => h c (List.mem_cons_of_mem _ hc)
    rw [List.cons_append, plainVariable, if_pos (h c List.mem_cons_self), run_append hname hd]
    simp [hcolon]

/-- A text that starts like a variable is one, or its first character alone. -/
theorem candidates_variable {c : Char} (hc : Text.isWord c = true) {cs : List Char} {n : Nat}
    (h : plainVariable ('$' :: c :: cs) = some n) :
    candidates ('$' :: c :: cs) = [(.token .var, n), (.token .other, 1)] := by
  have hbrace : c ≠ '\x7b' := by rintro rfl; exact absurd hc (by decide)
  have hparen : c ≠ '(' := by rintro rfl; exact absurd hc (by decide)
  have hgroup : literal Opener.dollarParen.text ('$' :: c :: cs) = none := by
    simp [literal, Opener.text, List.isPrefixOf, hparen.symm]
  have hbraced : bracedVariable ('$' :: c :: cs) = none := by simp [bracedVariable, hbrace]
  rw [candidates, List.filterMap_eq_flatMap_toList]
  simp only [patterns, List.flatMap_append, List.flatMap_cons, List.flatMap_nil, hgroup, hbraced, h]
  rfl

/-- A variable ends where neither a word character nor a colon follows. -/
theorem fits_variable {name : List Char} {d : Char} (hne : name ≠ [])
    (h : ∀ c ∈ name, Text.isWord c = true) (hd : Text.isWord d = false) (hcolon : d ≠ ':')
    (rest : List Char) : Chunk.Fits ⟨.token .var, '$' :: name⟩ (d :: rest) := by
  have hvariable := plainVariable_append hne h hd hcolon rest
  rw [Chunk.Fits, List.cons_append]
  cases name with
  | nil => exact absurd rfl hne
  | cons c name =>
    have hc := h c List.mem_cons_self
    have hbrace : c ≠ '\x7b' := by rintro rfl; exact absurd hc (by decide)
    have hstarts : startsBraced ('$' :: c :: (name ++ d :: rest)) = false := by
      simp [startsBraced, hbrace]
    rw [List.cons_append] at hvariable ⊢
    rw [whole?, head?, hstarts, candidates_variable hc hvariable]
    rfl

/-! ### Names -/

theorem firstLongest_cons {α : Type} (x : α × Nat) (xs : List (α × Nat)) :
    ∃ y, firstLongest (x :: xs) = some y := by
  rw [firstLongest]
  split
  · split
    · exact ⟨_, rfl⟩
    · exact ⟨_, rfl⟩
  · exact ⟨_, rfl⟩

/-- No candidate is longer than the one that is chosen. -/
theorem firstLongest_max {α : Type} : ∀ {xs : List (α × Nat)} {y : α × Nat},
    firstLongest xs = some y → ∀ x ∈ xs, x.2 ≤ y.2
  | [], _, h => by cases h
  | [x], y, h => by cases h; simp
  | x :: z :: xs, y, h => by
    obtain ⟨best, hbest⟩ := firstLongest_cons z xs
    rw [firstLongest, hbest] at h
    simp only at h
    intro u hu
    rcases List.mem_cons.mp hu with rfl | hu
    · split at h
      · cases h; omega
      · cases h; exact Nat.le_refl _
    · have := firstLongest_max hbest u hu
      split at h
      · cases h; exact this
      · cases h; omega

theorem exists_firstLongest {α : Type} {xs : List (α × Nat)} {x : α × Nat} (h : x ∈ xs) :
    ∃ y, firstLongest xs = some y ∧ y ∈ xs ∧ x.2 ≤ y.2 := by
  obtain ⟨z, zs, rfl⟩ := List.exists_cons_of_ne_nil (List.ne_nil_of_mem h)
  obtain ⟨y, hy⟩ := firstLongest_cons z zs
  exact ⟨y, hy, firstLongest_mem hy, firstLongest_max hy x h⟩

/-- A text that starts like a plain name can only be a keyword or a word. -/
theorem candidates_plain {c : Char} (hc : isPlain c = true) (cs : List Char) : candidates (c :: cs) =
    (Keyword.all.flatMap fun word =>
      ((keyword word (c :: cs)).map (Lexeme.token (.keyword word), ·)).toList) ++
    [(.token .word, run isWordPart cs + 1)] := by
  obtain ⟨hpart, hgap⟩ := isWordPart_of_isPlain hc
  have hne : ∀ d, isPlain d = false → c ≠ d := by
    rintro d hd rfl
    rw [hc] at hd
    cases hd
  have hfixed : ∀ (text : String) (d : Char) (ds : List Char), text.toList = d :: ds →
      isPlain d = false → literal text (c :: cs) = none := by
    intro text d ds htext hd
    simp [literal, htext, List.isPrefixOf, (hne d hd).symm]
  have hword : nonempty (run isWordPart (c :: cs)) = some (run isWordPart cs + 1) := by
    simp [run, nonempty, hpart]
  -- a word character is none of the quotes and marks that other patterns start with
  simp only [isWordPart, Bool.not_eq_true', Bool.or_eq_false_iff] at hpart
  have hsingle : singleQuoted (c :: cs) = none := by simp [singleQuoted, hpart]
  have hdouble : doubleQuoted (c :: cs) = none := by simp [doubleQuoted, hpart]
  rw [candidates, List.filterMap_eq_flatMap_toList]
  simp only [patterns, List.flatMap_append, List.flatMap_cons, List.flatMap_nil, List.flatMap_map,
    hfixed Opener.brace.text _ _ rfl rfl, hfixed Closer.brace.text _ _ rfl rfl,
    hfixed Opener.paren.text _ _ rfl rfl, hfixed Closer.paren.text _ _ rfl rfl,
    hfixed Opener.bracket.text _ _ rfl rfl, hfixed Closer.bracket.text _ _ rfl rfl,
    hfixed Opener.atParen.text _ _ rfl rfl, hfixed Opener.atBrace.text _ _ rfl rfl,
    hfixed Opener.dollarParen.text _ _ rfl rfl, hfixed "," _ _ rfl rfl, hfixed ";" _ _ rfl rfl,
    hfixed "=" _ _ rfl rfl, hfixed "|" _ _ rfl rfl, hfixed "<#" _ _ rfl rfl, hsingle, hdouble,
    hword, run_of_not hgap]
  simp [lineComment, hereHeader, plainVariable, bracedVariable, splatted, lineContinuation, lineEnd,
    lone, nonempty, hne '#' rfl, hne '@' rfl, hne '$' rfl, hne '\x60' rfl, hne '\n' rfl, hne '\r' rfl]

theorem afterFolded_le {d : Char} {rest : List Char} : ∀ {word name after : List Char},
    (∀ w ∈ word, folds w d = false) → afterFolded word (name ++ d :: rest) = some after →
    word.length ≤ name.length
  | [], _, _, _, _ => Nat.zero_le _
  | w :: word, [], after, hd, h => by
    rw [List.nil_append, afterFolded, hd w List.mem_cons_self] at h
    cases h
  | w :: word, c :: name, after, hd, h => by
    rw [List.cons_append, afterFolded] at h
    split at h
    · exact Nat.succ_le_succ (afterFolded_le (fun w hw => hd w (List.mem_cons_of_mem _ hw)) h)
    · cases h

theorem keyword_le {word : Keyword} {name rest : List Char} {n : Nat}
    (h : keyword word (name ++ ' ' :: rest) = some n) : n ≤ name.length := by
  obtain ⟨rfl, after, hafter⟩ := keyword_some h
  have hall : word.text.toList.all (fun w => !folds w ' ') = true := by
    cases word with
    | declare kind => cases kind <;> decide
    | param => decide
    | block kind => cases kind <;> decide
  have hblank : ∀ w ∈ word.text.toList, folds w ' ' = false := by
    simpa only [List.all_eq_true, Bool.not_eq_true'] using hall
  rw [← String.length_toList]
  exact afterFolded_le hblank hafter

theorem rest?_of_isNameLike {kind : TokenKind} (h : kind.isNameLike = true) (cs : List Char) :
    rest? (.token kind) cs = some 0 := by
  cases kind with
  | word => rfl
  | keyword word => rfl
  | _ => cases h

/-- The longest match at a plain name before a blank is the name. -/
theorem firstLongest_name {name : List Char} (hne : name ≠ []) (h : ∀ c ∈ name, isPlain c = true)
    (rest : List Char) : ∃ kind : TokenKind, kind.isNameLike = true ∧
      firstLongest (candidates (name ++ ' ' :: rest)) = some (.token kind, name.length) := by
  obtain ⟨c, cs, rfl⟩ := List.exists_cons_of_ne_nil hne
  have hcs : ∀ c ∈ cs, isWordPart c = true := fun c hc =>
    (isWordPart_of_isPlain (h c (List.mem_cons_of_mem _ hc))).1
  have hcandidates := candidates_plain (h c List.mem_cons_self) (cs ++ ' ' :: rest)
  rw [run_append hcs (by decide), ← List.cons_append] at hcandidates
  have hword : (Lexeme.token .word, cs.length + 1) ∈ candidates (c :: cs ++ ' ' :: rest) := by
    rw [hcandidates]
    exact List.mem_append_right _ List.mem_cons_self
  obtain ⟨y, hy, hmem, hle⟩ := exists_firstLongest hword
  rw [hcandidates] at hmem
  rcases List.mem_append.mp hmem with hkeyword | hlast
  · -- a keyword is taken only when it is as long as the name
    obtain ⟨word, -, hmatch⟩ := List.mem_flatMap.mp hkeyword
    obtain ⟨n, hn, rfl⟩ := Option.map_eq_some_iff.mp (Option.mem_toList.mp hmatch)
    have hn := keyword_le hn
    obtain rfl : n = (c :: cs).length := Nat.le_antisymm hn hle
    exact ⟨.keyword word, rfl, hy⟩
  · obtain rfl := List.mem_singleton.mp hlast
    exact ⟨.word, rfl, hy⟩

/-- A plain name before a blank is one token, a keyword or a word. -/
theorem fits_name {name : List Char} (hne : name ≠ []) (h : ∀ c ∈ name, isPlain c = true)
    (rest : List Char) : ∃ kind : TokenKind, kind.isNameLike = true ∧
      Chunk.Fits ⟨.token kind, name⟩ (' ' :: rest) := by
  obtain ⟨kind, hkind, hlongest⟩ := firstLongest_name hne h rest
  refine ⟨kind, hkind, ?_⟩
  have hstarts : startsBraced (name ++ ' ' :: rest) = false := by
    obtain ⟨c, cs, rfl⟩ := List.exists_cons_of_ne_nil hne
    have hdollar : c ≠ '$' := by rintro rfl; exact absurd (h _ List.mem_cons_self) (by decide)
    simp [startsBraced, hdollar]
  have hhead : head? (name ++ ' ' :: rest) = some (.token kind, name.length) := by
    rw [head?, hstarts, hlongest]
    rfl
  rw [Chunk.Fits, whole?, hhead]
  simp only [Option.bind_some, rest?_of_isNameLike hkind, Option.map_some, Nat.add_zero]

end Lexeme

end HelpAudit
