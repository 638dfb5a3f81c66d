import HelpAudit.Proofs.LosslessTokens
import HelpAudit.Proofs.OneFunction
import HelpAudit.Proofs.TwinReadings

/-! The statements of a `dynamicparam` block one below the other, in front of the closing brace of a
    second script. Each statement is cut out of the source as the chunks from its first token to its
    last, which fit in front of a newline as they did in the source, and whose tokens are read there
    as the same statement. The separators between statements are lost, though, and a script block that
    looks for parameters past the end of its statement may find some only then. The statements are
    read as they were exactly when none does. -/

namespace HelpAudit

/-! ### Chunks cut out of a source -/

namespace Chunk

/-- The same chunks at two places have the same tokens, moved. -/
theorem tokens_moved (a b : Nat) : ∀ (chunks : List Chunk) (n : Nat),
    List.Forall₂ (Token.Moved a b) (tokens (a + n) chunks) (tokens (b + n) chunks)
  | [], _ => .nil
  | ⟨lexeme, text⟩ :: chunks, n => by
    have hothers := tokens_moved a b chunks (n + Text.byteLength text)
    rw [← Nat.add_assoc, ← Nat.add_assoc] at hothers
    cases lexeme with
    | token kind =>
      refine .cons ⟨rfl, rfl, ?_, ?_⟩ hothers
      · simp only [Token.startingAt]
        omega
      · simp only [Token.startingAt]
        omega
    | blanks => exact hothers
    | continuation => exact hothers

theorem tokens_alike (a b : Nat) (chunks : List Chunk) :
    List.Forall₂ Link.outline.token (tokens a chunks) (tokens b chunks) :=
  (tokens_moved a b chunks 0).imp fun _ _ h => h.alike

/-- Tokens in a row are those of chunks in a row, of which the first and the last are tokens. -/
theorem exists_stretch {chunks : List Chunk} {before used out : List Token} {u : Token}
    (h : tokens 0 chunks = before ++ (used ++ u :: out)) :
    ∃ front init kind text back, chunks = front ++ ((init ++ [⟨.token kind, text⟩]) ++ back) ∧
      tokens (Text.byteLength (joined front)) (init ++ [⟨.token kind, text⟩]) = used ++ [u] ∧
      u = .startingAt (Text.byteLength (joined front) + Text.byteLength (joined init)) kind
        (.ofList text) ∧
      ∃ first text' more, init ++ [⟨.token kind, text⟩] = ⟨.token first, text'⟩ :: more := by
  obtain ⟨t, ts, hts⟩ : ∃ t ts, used ++ u :: out = t :: ts := by
    cases used with
    | nil => exact ⟨u, out, rfl⟩
    | cons t used => exact ⟨t, used ++ u :: out, rfl⟩
  obtain ⟨front, first, text', back', rfl, hfront, -⟩ := exists_of_tokens (hts ▸ h)
  rw [tokens_append, hfront, Nat.zero_add] at h
  obtain ⟨init, kind, text, back, hsplit, hinit, hu⟩ := exists_of_tokens (List.append_cancel_left h)
  refine ⟨front, init, kind, text, back, ?_, ?_, hu, ?_⟩
  · rw [hsplit, List.append_assoc, List.singleton_append]
  · rw [tokens_append, hinit, tokens_token, tokens_nil, ← hu]
  · cases init with
    | nil => exact ⟨kind, text, [], rfl⟩
    | cons chunk init =>
      obtain ⟨rfl, -⟩ := List.cons.inj hsplit
      exact ⟨first, text', _, rfl⟩

/-- Chunks fit in front of a line feed as in front of any other text, if the last one is no backtick
    and no word that is spelled like a keyword. -/
theorem allFit_before_feed {init : List Chunk} {kind : TokenKind} {text x : List Char}
    (h : AllFit (init ++ [⟨.token kind, text⟩]) x) (htick : text ≠ ['\x60'])
    (hword : kind = .word → ∀ word, ¬ Lexeme.Spells word text) (rest : List Char) :
    AllFit (init ++ [⟨.token kind, text⟩]) ('\n' :: rest) := by
  rcases allFit_front h with hall | ⟨init', text', word, heq, hspells, -⟩
  · exact allFit_feed hall htick rest
  · obtain ⟨-, hlast⟩ := List.append_inj' heq rfl
    cases hlast
    exact absurd hspells (hword rfl word)

end Chunk

theorem Script.extent_text {script : Script} {before inner after : List Char}
    (h : script.source = before ++ inner ++ after) : (script.extent (Text.byteLength before)
      (Text.byteLength before + Text.byteLength inner)).text = .ofList inner := by
  change Text.sliceBytes script.source _ _ = _
  rw [h, Text.sliceBytes, Text.sliceBytes?_append]
  rfl

/-- The chunks are cut out of the source between two texts, with the tokens that `ts` has before
    `out`. They start with a token, and they fit in front of a line feed. -/
structure CutOut (script : Script) (ts out : List Token) (stop : Nat) (before : List Char)
    (chunks : List Chunk) (after : List Char) : Prop where
  source : script.source = before ++ Chunk.joined chunks ++ after
  tokens : ts = Chunk.tokens (Text.byteLength before) chunks ++ out
  stop : stop = Text.byteLength before + Text.byteLength (Chunk.joined chunks)
  fits : ∀ rest, Chunk.AllFit chunks ('\n' :: rest)
  head : ∃ kind text more, chunks = ⟨.token kind, text⟩ :: more

/-- What ends with a given token can be cut out of the source. -/
theorem exists_cutOut {script : Script} {chunks : List Chunk} (hfit : Chunk.AllFit chunks [])
    (hsource : script.source = Chunk.joined chunks) (htokens : script.tokens = Chunk.tokens 0 chunks)
    {used out : List Token} {u : Token} (h : used ++ u :: out <:+ script.tokens)
    (htick : u.value ≠ "\x60") (hword : u.kind = .word → ∀ word, ¬ Lexeme.Spells word u.value.toList) :
    ∃ before mid after, CutOut script (used ++ u :: out) out u.stop before mid after := by
  obtain ⟨skipped, hskipped⟩ := h
  rw [htokens] at hskipped
  obtain ⟨front, init, kind, text, back, rfl, hmid, rfl, hhead⟩ := Chunk.exists_stretch hskipped.symm
  have hfits := (Chunk.allFit_append.mp (Chunk.allFit_append.mp hfit).2).1
  refine ⟨Chunk.joined front, init ++ [⟨.token kind, text⟩], Chunk.joined back, ?_, ?_, ?_, ?_, hhead⟩
  · rw [hsource, Chunk.joined_append, Chunk.joined_append, List.append_assoc]
  · rw [hmid, List.append_assoc, List.singleton_append]
  · simp [Token.startingAt, Chunk.joined, Text.utf8ByteSize_ofList, Text.byteLength_append,
      Nat.add_assoc]
  · refine Chunk.allFit_before_feed hfits (fun heq => htick (congrArg String.ofList heq)) ?_
    simpa using hword

namespace CutOut

variable {script : Script} {t : Token} {ts out : List Token} {stop : Nat} {before after : List Char}
  {chunks : List Chunk} (h : CutOut script (t :: ts) out stop before chunks after)

include h

theorem start_eq : t.start = Text.byteLength before := by
  obtain ⟨kind, text, more, rfl⟩ := h.head
  obtain ⟨rfl, -⟩ := List.cons.inj h.tokens
  rfl

theorem exists_tokens : ∃ w, Chunk.tokens (Text.byteLength before) chunks = t :: w ∧ ts = w ++ out := by
  obtain ⟨kind, text, more, rfl⟩ := h.head
  obtain ⟨rfl, hts⟩ := List.cons.inj h.tokens
  exact ⟨_, rfl, hts⟩

theorem out_suffix : out <:+ ts := by
  obtain ⟨w, -, rfl⟩ := h.exists_tokens
  exact List.suffix_append w out

/-- The tokens of the chunks at another place. -/
theorem twin (before' : List Char) (out' : List Token) :
    Twin (Text.byteLength before) (Text.byteLength before') out out' (t :: ts)
      (Chunk.tokens (Text.byteLength before') chunks ++ out') := by
  rw [h.tokens]
  exact twin_append (Chunk.tokens_moved _ _ _ 0)

end CutOut

/-! ### What stands around the statements -/

namespace Chunk

/-- The fragment in front of the block of statements. -/
def fragmentHead : List Chunk :=
  [mark .var "$ErrorActionPreference", ⟨.blanks, [' ']⟩, mark .equals "=", ⟨.blanks, [' ']⟩,
    mark (.string .single) "'Stop'", feed, mark .var "$__dynamicParameters", ⟨.blanks, [' ']⟩,
    mark .equals "=", ⟨.blanks, [' ']⟩, mark (.opening .atParen) "@(", mark .word ".",
    ⟨.blanks, [' ']⟩]

/-- The brace that opens the block. -/
def openBrace : Chunk := mark (.opening .brace) "\x7b"

/-- The brace that closes the block. -/
def closeBrace : Chunk := mark (.closing .brace) "\x7d"

/-- The fragment behind the block of statements. -/
def fragmentTail : List Chunk :=
  [mark (.closing .paren) ")", feed, mark .var "$__dynamicParameters", mark (.opening .bracket) "[",
    mark .word "0", mark (.closing .bracket) "]", mark .word ".Keys", ⟨.blanks, [' ']⟩,
    mark .pipe "|", ⟨.blanks, [' ']⟩, mark .word "Write-Output", feed]

end Chunk

/-- The tokens of a statement. -/
def Statement.tokens (script : Script) (statement : Statement) : List Token :=
  script.between statement.extent.startOffset statement.extent.endOffset

/-- What stands in the fragment behind a statement, if these statements follow it. -/
def Script.fragmentBehind (script : Script) : List Statement → List Token
  | [] => .startingAt 0 .newline "\n" :: Chunk.tokens 0 (.closeBrace :: Chunk.fragmentTail)
  | statement :: statements => .startingAt 0 .newline "\n" ::
      (statement.tokens script ++ script.fragmentBehind statements)

/-- In the fragment no script block of the statements finds a parameter block that it does not have. -/
def Script.KeepsParams (script : Script) : List Statement → Prop
  | [] => True
  | statement :: statements =>
    KeepParams script statement.extent.endOffset (script.fragmentBehind statements) [statement.node] ∧
      script.KeepsParams statements

instance Script.decidableKeepsParams (script : Script) :
    ∀ statements, Decidable (script.KeepsParams statements)
  | [] => .isTrue trivial
  | _ :: statements => @instDecidableAnd _ _ _ (script.decidableKeepsParams statements)

/-- Behind a statement of the fragment stands a newline, and behind the last one the closing brace. -/
theorem Script.exists_of_fragmentBehind {script : Script} {statements : List Statement}
    {behind : List Token}
    (h : List.Forall₂ Link.outline.token (script.fragmentBehind statements) behind) :
    ∃ newline next, behind = newline :: next ∧ newline.kind = .newline ∧
      (statements = [] → ∃ close more, next = close :: more ∧ close.kind = .closing .brace) := by
  cases statements with
  | nil =>
    obtain ⟨newline, next, hnewline, hnext, rfl⟩ := List.forall₂_cons_left_iff.mp h
    obtain ⟨close, more, hclose, -, rfl⟩ := List.forall₂_cons_left_iff.mp hnext
    exact ⟨newline, _, rfl, hnewline.1.symm, fun _ => ⟨close, more, rfl, hclose.1.symm⟩⟩
  | cons statement statements =>
    obtain ⟨newline, next, hnewline, -, rfl⟩ := List.forall₂_cons_left_iff.mp h
    exact ⟨newline, next, rfl, hnewline.1.symm, fun hnil => absurd hnil (List.cons_ne_nil _ _)⟩

/-! ### Statements cut out of a source -/

/-- The statement does not end with a pipe, a lone backtick or a word that is spelled like a keyword.
    -/
def Statement.EndsAlone (script : Script) (statement : Statement) : Prop :=
  ∀ t ∈ script.tokens, t.stop = statement.extent.endOffset →
    t.kind ≠ .pipe ∧ t.value ≠ "\x60" ∧
      (t.kind = .word → ∀ word ∈ Keyword.all, ¬ Lexeme.Spells word t.value.toList)

instance (script : Script) (statement : Statement) : Decidable (statement.EndsAlone script) :=
  inferInstanceAs (Decidable (∀ t ∈ script.tokens, _ = _ → _ ≠ _ ∧ _ ≠ _ ∧
    (_ = _ → ∀ word ∈ Keyword.all, ¬ Lexeme.afterFolded _ _ = some [])))

/-- The second script has the chunks behind a text, and then what the fragment has behind a statement
    that these statements follow. -/
structure StandsInFragment (script : Script) (others : List Statement) (chunks : List Chunk)
    (script' : Script) (before : List Char) (behind : List Token) : Prop where
  placed : script'.IsPlaced
  source : ∃ after, script'.source = before ++ Chunk.joined chunks ++ after
  tokens : Chunk.tokens (Text.byteLength before) chunks ++ behind <:+ script'.tokens
  alike : List.Forall₂ Link.outline.token (script.fragmentBehind others) behind

/-- The chunks are the text of a statement of the script. Where the fragment has them they are read as
    a statement with the same text, if no script block in it finds a parameter block that it does not
    have, and not otherwise. -/
structure Excerpt (script : Script) (statement : Statement) (others : List Statement)
    (chunks : List Chunk) : Prop where
  text : Chunk.joined chunks = statement.extent.text.toList
  fits : ∀ rest, Chunk.AllFit chunks ('\n' :: rest)
  head : ∃ kind text more, chunks = ⟨.token kind, text⟩ :: more ∧ kind.isSeparator = false ∧
    ∃ t ∈ script.tokens, t.start = statement.extent.startOffset ∧ t.kind = kind
  tokens : ∀ start, List.Forall₂ Link.outline.token (statement.tokens script)
    (Chunk.tokens start chunks)
  reads : ∀ {script' before behind}, StandsInFragment script others chunks script' before behind →
    KeepParams script statement.extent.endOffset (script.fragmentBehind others) [statement.node] →
    ∃ statement' rest,
      ReadsStatement script' (Chunk.tokens (Text.byteLength before) chunks ++ behind) statement' rest ∧
      skipSeparators rest = skipSeparators behind ∧ statement'.extent.text = statement.extent.text
  keeps : ∀ {script' before behind statement' rest},
    StandsInFragment script others chunks script' before behind →
    ReadsStatement script' (Chunk.tokens (Text.byteLength before) chunks ++ behind) statement' rest →
    statement'.extent.text = statement.extent.text →
    KeepParams script statement.extent.endOffset (script.fragmentBehind others) [statement.node]

section Excerpt

variable {script : Script} (hp : script.IsPlaced) {t u : Token} {ts behind out : List Token}
  {statement : Statement} (h : ReadsStatement script (t :: ts) statement behind)
  (hts : t :: ts <:+ script.tokens) {others : List Statement} {before after : List Char}
  {chunks : List Chunk} (hcut : CutOut script (t :: ts) out u.stop before chunks after)
  (hu : u :: out <:+ t :: ts) (hextent : statement.extent = script.extent t.start u.stop)

omit hp in
include hcut hextent in
theorem CutOut.text_eq : statement.extent.text = .ofList (Chunk.joined chunks) := by
  rw [hextent, hcut.start_eq, hcut.stop]
  exact Script.extent_text hcut.source

include hp h hts hcut hu hextent

/-- In the fragment, the tokens of a statement are read as a statement with the same text. -/
theorem ReadsStatement.reads_excerpt (hpipe : u.kind ≠ .pipe)
    (hnext : others ≠ [] → ∃ u more, skipSeparators behind = u :: more ∧ u.kind ≠ .closing .brace)
    {script' : Script} {before' : List Char} {behind' : List Token}
    (hstands : StandsInFragment script others chunks script' before' behind')
    (hkeep : KeepParams script statement.extent.endOffset (script.fragmentBehind others)
      [statement.node]) :
    ∃ statement' rest,
      ReadsStatement script' (Chunk.tokens (Text.byteLength before') chunks ++ behind') statement' rest ∧
      skipSeparators rest = skipSeparators behind' ∧ statement'.extent.text = statement.extent.text := by
  obtain ⟨hp', ⟨after', hsource'⟩, hts', halike⟩ := hstands
  obtain ⟨newline, next, rfl, hnewline, hlast⟩ := Script.exists_of_fragmentBehind halike
  have hall := hu.trans hts
  have hedge : statement.extent.endOffset = u.stop := by
    rw [hextent, Script.extent_endOffset (hp.mem hall).stop_boundary]
  -- the only token with the rest of the script behind it is the last one of the statement
  have hpipe' : ∀ {v}, v :: out <:+ script.tokens → v.kind ≠ .pipe := by
    intro v hv
    have heq := (List.suffix_of_suffix_length_le hv hall (Nat.le_refl _)).eq_of_length rfl
    obtain rfl := (List.cons.inj heq).1
    exact hpipe
  have hnext' : (∃ u more, skipSeparators behind = u :: more ∧ u.kind ≠ .closing .brace) ∨
      ∃ close more, next = close :: more ∧ close.kind = .closing .brace := by
    by_cases hothers : others = []
    · exact .inr (hlast hothers)
    · exact .inl (hnext hothers)
  have hkeep' := hkeep.of_alike halike
  rw [hedge] at hkeep'
  obtain ⟨statement', rest, start, stop, hread, hskip, hextent', hstart, hend⟩ :=
    h.before_feed hp' (stretch_of_token hp hall) hts hcut.out_suffix hnewline hpipe' hedge hkeep' hts'
      (hcut.twin before' _) hnext'
  refine ⟨statement', rest, hread, hskip.trans (skipSeparators_feed hnewline next).symm, ?_⟩
  have hfirst := hcut.start_eq
  have hstop := hcut.stop
  -- the offsets are moved by as much as the chunks are, so the extent has the same text
  obtain rfl : start = Text.byteLength before' := by omega
  obtain rfl : stop = Text.byteLength before' + Text.byteLength (Chunk.joined chunks) := by omega
  rw [hextent', hcut.text_eq hextent]
  exact Script.extent_text hsource'

theorem ReadsStatement.keeps_excerpt {script' : Script} {before' : List Char} {behind' rest : List Token}
    {statement' : Statement} (hstands : StandsInFragment script others chunks script' before' behind')
    (h' : ReadsStatement script' (Chunk.tokens (Text.byteLength before') chunks ++ behind') statement' rest)
    (htext : statement'.extent.text = statement.extent.text) :
    KeepParams script statement.extent.endOffset (script.fragmentBehind others) [statement.node] := by
  obtain ⟨hp', -, hts', halike⟩ := hstands
  have hall := hu.trans hts
  have hedge : statement.extent.endOffset = u.stop := by
    rw [hextent, Script.extent_endOffset (hp.mem hall).stop_boundary]
  have htwin := hcut.twin before' behind'
  obtain ⟨u', hu', hmoved⟩ := htwin.exists_last hu
  obtain ⟨t', us', hlist, ht, -⟩ := htwin.tail hcut.out_suffix
  -- the two statements have texts of one length, so they end with the chunks
  have hedge' : statement'.extent.endOffset = u'.stop := by
    rw [hlist] at h' hts'
    obtain ⟨v, out', hv, hextent'⟩ := h'.exists_last hp' hts'
    have hstart := hp'.mem hts'
    have hstop := hp'.mem (hv.trans hts')
    have hle : t'.start ≤ v.stop := by
      rcases List.suffix_cons_iff.mp hv with heq | hv
      · cases heq
        exact Nat.le_of_lt hstart.nonempty
      · have := hp'.above_stop hts' v (hv.subset List.mem_cons_self)
        have := hstart.nonempty
        have := hstop.nonempty
        omega
    have hslice := (Script.extent_isExact hstart.start_boundary hstop.stop_boundary hle).slice
    rw [← hextent', htext, hcut.text_eq hextent, String.toList_ofList, hextent',
      Script.extent_startOffset hstart.start_boundary, Script.extent_endOffset hstop.stop_boundary]
      at hslice
    rw [hextent', Script.extent_endOffset hstop.stop_boundary]
    have := Text.byteLength_of_sliceBytes? hslice
    have := hcut.start_eq
    have := hcut.stop
    have := ht.start
    have := hmoved.stop
    omega
  have hkeep := h.keeps_to_edge (stretch_of_token hp hall) (stretch_of_token hp' (hu'.trans hts')) hts
    hedge h' hts' hedge' hcut.out_suffix htwin
  rw [hedge]
  exact hkeep.of_alike (alike_symm halike)

end Excerpt

/-- A statement that ends alone can be cut out. -/
theorem ReadsStatement.exists_excerpt {script : Script} (hp : script.IsPlaced) {t : Token}
    {ts behind : List Token} {statement : Statement}
    (h : ReadsStatement script (t :: ts) statement behind) (hts : t :: ts <:+ script.tokens)
    {others : List Statement}
    (hnext : others ≠ [] → ∃ u more, skipSeparators behind = u :: more ∧ u.kind ≠ .closing .brace)
    {chunks : List Chunk} (hfit : Chunk.AllFit chunks []) (hsource : script.source = Chunk.joined chunks)
    (htokens : script.tokens = Chunk.tokens 0 chunks) (halone : statement.EndsAlone script) :
    ∃ mid, Excerpt script statement others mid := by
  obtain ⟨u, out, hu, hextent⟩ := h.exists_last hp hts
  have hall := hu.trans hts
  have hedge : statement.extent.endOffset = u.stop := by
    rw [hextent, Script.extent_endOffset (hp.mem hall).stop_boundary]
  obtain ⟨hpipe, htick, hword⟩ := halone u (hall.subset List.mem_cons_self) hedge.symm
  obtain ⟨used, hused⟩ := hu
  obtain ⟨before, mid, after, hcut⟩ := exists_cutOut hfit hsource htokens (hused ▸ hts) htick
    (fun hkind word => hword hkind word (Keyword.mem_all word))
  rw [hused] at hcut
  have hu : u :: out <:+ t :: ts := ⟨used, hused⟩
  refine ⟨mid, ?_, hcut.fits, ?_, ?_, fun hstands hkeep => h.reads_excerpt hp hts hcut hu hextent hpipe
    hnext hstands hkeep, fun hstands h' htext => h.keeps_excerpt hp hts hcut hu hextent hstands h' htext⟩
  · rw [hcut.text_eq hextent, String.toList_ofList]
  · obtain ⟨kind, text, more, rfl⟩ := hcut.head
    obtain ⟨rfl, -⟩ := List.cons.inj hcut.tokens
    refine ⟨kind, text, more, rfl, h.head.1, _, hts.subset List.mem_cons_self, ?_, rfl⟩
    rw [hextent, Script.extent_startOffset (hp.mem hts).start_boundary]
  · intro start
    have hsame : statement.tokens script = Chunk.tokens (Text.byteLength before) mid := by
      obtain ⟨w, htokens, rfl⟩ := hcut.exists_tokens
      rw [Statement.tokens, hedge, hextent, Script.extent_startOffset (hp.mem hts).start_boundary,
        (stretch_of_token hp hall).between_from hts, htokens]
    rw [hsame]
    exact Chunk.tokens_alike _ _ _

/-- The chunks of the statements of a block, one list for each. -/
inductive Excerpts (script : Script) : List Statement → List (List Chunk) → Prop where
  | nil : Excerpts script [] []
  | cons {statement statements chunks others} :
    Excerpt script statement statements chunks →
    Excerpts script statements others →
    Excerpts script (statement :: statements) (chunks :: others)

/-- All statements of a block can be cut out. -/
theorem ReadsStatements.exists_excerpts {script : Script} (hp : script.IsPlaced) {chunks : List Chunk}
    (hfit : Chunk.AllFit chunks []) (hsource : script.source = Chunk.joined chunks)
    (htokens : script.tokens = Chunk.tokens 0 chunks) {closing : Bool} {ts rest : List Token}
    {statements : List Statement} (h : ReadsStatements script closing ts statements rest)
    (hts : ts <:+ script.tokens) (halone : ∀ statement ∈ statements, statement.EndsAlone script) :
    ∃ parts, Excerpts script statements parts := by
  induction statements generalizing ts with
  | nil => exact ⟨[], .nil⟩
  | cons statement statements ih =>
    obtain ⟨behind, hfirst, hothers⟩ := h.exists_first
    have hskip := (skipSeparators_suffix ts).trans hts
    obtain ⟨parts, hparts⟩ := ih hothers (hfirst.suffix.trans hskip)
      (fun other hmem => halone other (List.mem_cons_of_mem _ hmem))
    -- another statement starts with code that is no closing brace
    have hnext : statements ≠ [] →
        ∃ u more, skipSeparators behind = u :: more ∧ u.kind ≠ .closing .brace := by
      intro hne
      obtain ⟨next, others, rfl⟩ := List.exists_cons_of_ne_nil hne
      obtain ⟨_, hnext, -⟩ := hothers.exists_first
      obtain ⟨u, more, hmore⟩ := hnext.exists_head
      rw [hmore] at hnext ⊢
      exact ⟨u, more, rfl, hnext.head.2⟩
    obtain ⟨t, more, hmore⟩ := hfirst.exists_head
    rw [hmore] at hfirst hskip
    obtain ⟨part, hpart⟩ := hfirst.exists_excerpt hp hskip hnext hfit hsource htokens
      (halone statement List.mem_cons_self)
    exact ⟨part :: parts, .cons hpart hparts⟩

/-! ### The statements in the fragment -/

/-- The statements one below the other, each with a newline behind it. -/
def Chunk.lined (parts : List (List Chunk)) : List Chunk := parts.flatMap (· ++ [.feed])

theorem Chunk.lined_cons (part : List Chunk) (parts : List (List Chunk)) :
    lined (part :: parts) = part ++ feed :: lined parts := by
  rw [lined, List.flatMap_cons, List.append_assoc, List.singleton_append]
  rfl

theorem Chunk.tokens_lined_cons (before : List Char) (part : List Chunk) (parts : List (List Chunk)) :
    tokens (Text.byteLength before) (lined (part :: parts)) =
      tokens (Text.byteLength before) part ++
        .startingAt (Text.byteLength before + Text.byteLength (joined part)) .newline "\n" ::
        tokens (Text.byteLength (before ++ joined part ++ ['\n'])) (lined parts) := by
  rw [lined_cons, tokens_append, feed, tokens_mark, Text.byteLength_append,
    Text.byteLength_append]
  rfl

namespace Excerpts

variable {script : Script} {statements : List Statement} {parts : List (List Chunk)}

theorem allFit (h : Excerpts script statements parts) : ∀ rest, Chunk.AllFit (Chunk.lined parts) rest := by
  induction h with
  | nil => exact fun _ => trivial
  | @cons statement statements part parts hpart _ ih =>
    intro rest
    rw [Chunk.lined_cons]
    exact Chunk.allFit_append.mpr ⟨hpart.fits _, Chunk.feed_fits _, ih rest⟩

section Closing

variable {close : Token} {rest : List Token}
  (hclosing : List.Forall₂ Link.outline.token (Chunk.tokens 0 (.closeBrace :: Chunk.fragmentTail))
    (close :: rest))

include hclosing

/-- What stands behind a statement is as foreseen. -/
theorem behind_alike (h : Excerpts script statements parts) : ∀ {newline : Token},
    newline.kind = .newline → ∀ before, List.Forall₂ Link.outline.token (script.fragmentBehind statements)
      (newline :: (Chunk.tokens (Text.byteLength before) (Chunk.lined parts) ++ close :: rest)) := by
  have hfeed : ∀ {newline : Token} {start}, newline.kind = .newline →
      Link.outline.token (.startingAt start .newline "\n") newline := by
    intro newline start hnewline
    exact ⟨hnewline.symm, fun hnames => absurd hnames (by simp [Token.startingAt, TokenKind.isNameLike])⟩
  induction h with
  | nil => exact fun hnewline _ => .cons (hfeed hnewline) hclosing
  | @cons statement statements part parts hpart _ ih =>
    intro newline hnewline before
    rw [Chunk.tokens_lined_cons, List.append_assoc, List.cons_append]
    exact .cons (hfeed hnewline) (List.rel_append (hpart.tokens _) (ih rfl _))

/-- Each part stands where the fragment has it. -/
theorem stands (h : Excerpts script statements parts) {script' : Script} (hp : script'.IsPlaced)
    {part : List Chunk} {before after : List Char}
    (hsource : script'.source = before ++ Chunk.joined (Chunk.lined (part :: parts)) ++ after)
    (hts : Chunk.tokens (Text.byteLength before) (Chunk.lined (part :: parts)) ++ close :: rest <:+
      script'.tokens) : ∃ newline before', newline.kind = .newline ∧
    StandsInFragment script statements part script' before
      (newline :: (Chunk.tokens (Text.byteLength before') (Chunk.lined parts) ++ close :: rest)) ∧
    Chunk.tokens (Text.byteLength before) (Chunk.lined (part :: parts)) ++ close :: rest =
      Chunk.tokens (Text.byteLength before) part ++
        newline :: (Chunk.tokens (Text.byteLength before') (Chunk.lined parts) ++ close :: rest) ∧
    script'.source = before' ++ Chunk.joined (Chunk.lined parts) ++ after := by
  have hlined : Chunk.joined (Chunk.lined (part :: parts)) =
      Chunk.joined part ++ ['\n'] ++ Chunk.joined (Chunk.lined parts) := by
    rw [Chunk.lined_cons, Chunk.joined_append, Chunk.joined_cons, List.append_assoc]
    rfl
  rw [hlined] at hsource
  rw [Chunk.tokens_lined_cons, List.append_assoc, List.cons_append] at hts ⊢
  exact ⟨_, before ++ Chunk.joined part ++ ['\n'], rfl,
    ⟨hp, ⟨_, by simpa using hsource⟩, hts, h.behind_alike hclosing rfl _⟩, rfl, by simpa using hsource⟩

/-- In front of the closing brace the statements are read one by one. -/
theorem reads (h : Excerpts script statements parts) (hkeep : script.KeepsParams statements)
    {script' : Script} (hp : script'.IsPlaced) (hclose : close.kind = .closing .brace)
    {after : List Char} :
    ∀ before, script'.source = before ++ Chunk.joined (Chunk.lined parts) ++ after →
    Chunk.tokens (Text.byteLength before) (Chunk.lined parts) ++ close :: rest <:+ script'.tokens →
    ∃ statements', ReadsStatements script' true
        (Chunk.tokens (Text.byteLength before) (Chunk.lined parts) ++ close :: rest) statements'
        (close :: rest) ∧
      statements'.map (·.extent.text) = statements.map (·.extent.text) := by
  induction h with
  | nil =>
    intro before _ _
    exact ⟨[], .closed (skipSeparators_cons_of_code rest (by rw [hclose]; rfl)) hclose, rfl⟩
  | @cons statement statements part parts hpart hparts ih =>
    intro before hsource hts
    obtain ⟨newline, before', hnewline, hstands, hlist, hsource'⟩ := hparts.stands hclosing hp hsource hts
    rw [hlist] at hts ⊢
    obtain ⟨statements', hstatements, htexts⟩ := ih hkeep.2 before' hsource'
      (suffix_of_cons_suffix ((List.suffix_append _ _).trans hts))
    obtain ⟨statement', behind, hfirst, hskip, htext⟩ := hpart.reads hstands hkeep.1
    obtain ⟨kind, text, more, rfl, hcode, -⟩ := hpart.head
    refine ⟨statement' :: statements', .cons ?_ hfirst (hstatements.of_skip ?_), ?_⟩
    · exact skipSeparators_cons_of_code _ hcode
    · exact hskip.trans (skipSeparators_feed hnewline _)
    · rw [List.map_cons, List.map_cons, htext, htexts]

/-- If they are, no script block in them finds a parameter block that it does not have. -/
theorem keeps (h : Excerpts script statements parts) {script' : Script} (hp : script'.IsPlaced)
    {after : List Char} :
    ∀ before, script'.source = before ++ Chunk.joined (Chunk.lined parts) ++ after →
    Chunk.tokens (Text.byteLength before) (Chunk.lined parts) ++ close :: rest <:+ script'.tokens →
    ∀ {closing : Bool} {statements' : List Statement} {behind : List Token},
    ReadsStatements script' closing
      (Chunk.tokens (Text.byteLength before) (Chunk.lined parts) ++ close :: rest) statements' behind →
    statements'.map (·.extent.text) = statements.map (·.extent.text) →
    script.KeepsParams statements := by
  induction h with
  | nil => exact fun _ _ _ _ _ _ _ _ => trivial
  | @cons statement statements part parts hpart hparts ih =>
    intro before hsource hts closing statements' behind h' htexts
    obtain ⟨newline, before', hnewline, hstands, hlist, hsource'⟩ := hparts.stands hclosing hp hsource hts
    rw [hlist] at hts h'
    obtain ⟨statement', others', rfl, htext, htexts⟩ := List.map_eq_cons_iff.mp htexts
    obtain ⟨rest', hfirst, hothers⟩ := h'.exists_first
    have hcode : skipSeparators (Chunk.tokens (Text.byteLength before) part ++
        newline :: (Chunk.tokens (Text.byteLength before') (Chunk.lined parts) ++ close :: rest)) =
        Chunk.tokens (Text.byteLength before) part ++
          newline :: (Chunk.tokens (Text.byteLength before') (Chunk.lined parts) ++ close :: rest) := by
      obtain ⟨kind, text, more, rfl, hcode, -⟩ := hpart.head
      exact skipSeparators_cons_of_code _ hcode
    rw [hcode] at hfirst
    -- the first statement keeps its blocks, so it is read as before and leaves the same tokens
    have hkeep := hpart.keeps hstands hfirst htext
    obtain ⟨_, rest'', hsame, hskip, -⟩ := hpart.reads hstands hkeep
    obtain rfl := hfirst.rest_unique hsame
    refine ⟨hkeep, ih before' hsource' (suffix_of_cons_suffix ((List.suffix_append _ _).trans hts))
      (hothers.of_skip ?_) htexts⟩
    exact (hskip.trans (skipSeparators_feed hnewline _)).symm

end Closing

end Excerpts

end HelpAudit
