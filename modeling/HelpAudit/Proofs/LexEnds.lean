import HelpAudit.Proofs.LexLocality

/-! What is cut when a text ends early. A lexeme that ends within the front of a text is taken from the
    front alone as well: no pattern matches less because the text stops where no match went on. Only a
    word that is spelled like a keyword may become that keyword, since it is a word only for the sake of
    a character outside ASCII behind it. A line feed behind the front changes nothing either, but for a
    few short texts that take it in. -/

namespace HelpAudit

namespace Lexeme

/-! ### Patterns at the end of a text -/

/-- Unless the pattern matches past the front, it finds in the front alone what it finds in the text. -/
def EndsWith (front x : List Char) (pattern : List Char → Option Nat) : Prop :=
  (∀ n, pattern (front ++ x) = some n → n ≤ front.length) → pattern front = pattern (front ++ x)

/-- A match does not depend on what follows it. -/
def Closed (pattern : List Char → Option Nat) : Prop :=
  ∀ text rest rest' n, pattern (text ++ rest) = some n → n ≤ text.length →
    pattern (text ++ rest') = some n

/-- A pattern that needs no more than its match finds the match in the front alone. -/
theorem Closed.endsWith {pattern : List Char → Option Nat} (hclosed : Closed pattern)
    (hwithin : MatchesWithin pattern) (front x : List Char) : EndsWith front x pattern := by
  intro hbound
  cases hx : pattern (front ++ x) with
  | some n =>
    have hfront := hclosed front x [] n hx (hbound n hx)
    rwa [List.append_nil] at hfront
  | none =>
    cases hfront : pattern front with
    | none => rfl
    | some n =>
      have hmore := hclosed front [] x n (by rwa [List.append_nil]) (hwithin front n hfront).2
      rw [hx] at hmore
      cases hmore

theorem closed_literal (text : String) : Closed (literal text) := by
  intro front rest rest' n h hn
  rw [literal] at h ⊢
  split at h
  · cases h
    rw [← String.length_toList] at hn
    rw [isPrefixOf_append hn] at *
    rw [if_pos ‹_›]
  · cases h

theorem closed_singleQuoted : Closed singleQuoted := by
  intro text rest rest' n h hn
  cases text with
  | nil => exact absurd (singleQuoted_within _ n h).1 (Nat.not_lt.mpr hn)
  | cons c text =>
    cases hc : isSingleQuote c with
    | false => simp [singleQuoted, hc] at h
    | true =>
      rw [List.cons_append, singleQuoted_eq_some hc] at h ⊢
      obtain ⟨-, rfl⟩ := h
      rw [List.length_cons] at hn
      obtain ⟨hrun, hdrop⟩ := run_closed (Nat.lt_of_succ_lt_succ hn) rest'
      exact ⟨hdrop, by rw [hrun]⟩

theorem closed_doubleQuoted : Closed doubleQuoted := by
  intro text rest rest' n h hn
  cases text with
  | nil => exact absurd (doubleQuoted_within _ n h).1 (Nat.not_lt.mpr hn)
  | cons c text =>
    cases hc : isDoubleQuote c with
    | false => simp [doubleQuoted, hc] at h
    | true =>
      rw [List.cons_append, doubleQuoted, if_pos hc] at h ⊢
      obtain ⟨m, hm, rfl⟩ := Option.map_eq_some_iff.mp h
      rw [doubleQuotedRest_keeps text hm (Nat.le_of_succ_le_succ hn)]
      rfl

theorem bracedVariable_cons (c d : Char) (cs : List Char) (h : ¬ (c = '$' ∧ d = '\x7b')) :
    bracedVariable (c :: d :: cs) = none := by
  rw [bracedVariable.eq_def]
  split
  · rename_i heq
    cases heq
    exact absurd ⟨rfl, rfl⟩ h
  · rfl

theorem three_le_bracedVariable {cs : List Char} {n : Nat} (h : bracedVariable cs = some n) :
    3 ≤ n := by
  rw [bracedVariable.eq_def] at h
  split at h
  · split at h
    · cases h
      omega
    · cases h
  · cases h

theorem closed_bracedVariable : Closed bracedVariable := by
  intro text rest rest' n h hn
  have hlength := Nat.le_trans (three_le_bracedVariable h) hn
  match text with
  | [] => simp at hlength
  | [c] => simp at hlength
  | c :: d :: text =>
    by_cases hcd : c = '$' ∧ d = '\x7b'
    · obtain ⟨rfl, rfl⟩ := hcd
      rw [List.cons_append, List.cons_append, bracedVariable_eq_some] at h ⊢
      obtain ⟨-, rfl⟩ := h
      simp only [List.length_cons] at hn
      obtain ⟨hrun, hdrop⟩ :=
        run_closed (Nat.lt_of_succ_lt_succ (Nat.lt_of_succ_lt_succ hn)) rest'
      exact ⟨hdrop, by rw [hrun]⟩
    · rw [List.cons_append, List.cons_append, bracedVariable_cons c d _ hcd] at h
      cases h

theorem closed_lineEnd : Closed lineEnd := by
  intro text rest rest' n h hn
  match text with
  | [] => exact absurd (lineEnd_within _ n h).1 (Nat.not_lt.mpr hn)
  | [c] =>
    rw [List.singleton_append, lineEnd_cons] at h ⊢
    split at h
    · rw [if_pos ‹_›]
      exact h
    · split at h
      · cases h
        exact absurd hn (by simp)
      · cases h
  | c :: d :: text =>
    simp only [List.cons_append, lineEnd_cons, List.head?_cons] at h ⊢
    exact h

theorem hereHeader_cons (quote c d : Char) (cs : List Char) : hereHeader quote (c :: d :: cs) =
    if c = '@' ∧ d = quote then (lineEnd cs).map (· + 2) else none := by
  by_cases hc : c = '@'
  · subst hc
    simp [hereHeader]
  · simp [hereHeader, hc]

theorem three_le_hereHeader {quote : Char} {cs : List Char} {n : Nat}
    (h : hereHeader quote cs = some n) : 3 ≤ n := by
  rw [hereHeader.eq_def] at h
  split at h
  · split at h
    · obtain ⟨m, hm, rfl⟩ := Option.map_eq_some_iff.mp h
      have := (lineEnd_within _ m hm).1
      omega
    · cases h
  · cases h

theorem closed_hereHeader (quote : Char) : Closed (hereHeader quote) := by
  intro text rest rest' n h hn
  have hlength := Nat.le_trans (three_le_hereHeader h) hn
  match text with
  | [] => simp at hlength
  | [c] => simp at hlength
  | c :: d :: text =>
    simp only [List.cons_append, hereHeader_cons] at h ⊢
    split at h
    · obtain ⟨m, hm, rfl⟩ := Option.map_eq_some_iff.mp h
      rw [if_pos ‹_›, closed_lineEnd text rest rest' m hm
        (Nat.le_of_succ_le_succ (Nat.le_of_succ_le_succ hn))]
      rfl
    · cases h

theorem lineContinuation_cons (c : Char) (cs : List Char) : lineContinuation (c :: cs) =
    if c = '\x60' then (lineEnd cs).map (· + 1) else none := by
  by_cases hc : c = '\x60'
  · subst hc
    rfl
  · simp [lineContinuation, hc]

theorem closed_lineContinuation : Closed lineContinuation := by
  intro text rest rest' n h hn
  cases text with
  | nil => exact absurd (lineContinuation_within _ n h).1 (Nat.not_lt.mpr hn)
  | cons c text =>
    rw [List.cons_append, lineContinuation_cons] at h ⊢
    split at h
    · obtain ⟨m, hm, rfl⟩ := Option.map_eq_some_iff.mp h
      rw [if_pos ‹_›, closed_lineEnd text rest rest' m hm (Nat.le_of_succ_le_succ hn)]
      rfl
    · cases h

theorem closed_lone : Closed lone := by
  intro text rest rest' n h hn
  cases text with
  | nil => exact absurd (lone_within _ n h).1 (Nat.not_lt.mpr hn)
  | cons c text => exact h

/-! Patterns that take all they can. -/

theorem run_cons_of_pos {p : Char → Bool} {c : Char} (hc : p c = true) (cs : List Char) :
    run p (c :: cs) = run p cs + 1 := by
  rw [run, List.takeWhile_cons_of_pos hc, List.length_cons, run]

/-- A run that stops within the front stops at the same place in the front alone. -/
theorem run_front_of_le {p : Char → Bool} {x : List Char} : ∀ {front : List Char},
    run p (front ++ x) ≤ front.length → run p front = run p (front ++ x)
  | [], h => (Nat.le_zero.mp h).symm
  | c :: front, h => by
    cases hc : p c with
    | false => rw [List.cons_append, run_of_not hc, run_of_not hc]
    | true =>
      rw [List.cons_append, run_cons_of_pos hc, List.length_cons] at h
      rw [List.cons_append, run_cons_of_pos hc, run_cons_of_pos hc,
        run_front_of_le (Nat.le_of_succ_le_succ h)]

theorem run_le_of_nonempty {p : Char → Bool} {cs : List Char} {bound : Nat}
    (h : ∀ n, nonempty (run p cs) = some n → n ≤ bound) : run p cs ≤ bound := by
  by_cases hzero : run p cs = 0
  · omega
  · exact h _ (if_neg hzero)

theorem endsWith_run (p : Char → Bool) (front x : List Char) :
    EndsWith front x fun cs => nonempty (run p cs) := by
  intro hbound
  simp only [run_front_of_le (run_le_of_nonempty hbound)]

theorem endsWith_lineComment {front : List Char} (hfront : front ≠ []) (x : List Char) :
    EndsWith front x lineComment := by
  intro hbound
  obtain ⟨c, cs, rfl⟩ := List.exists_cons_of_ne_nil hfront
  by_cases hc : c = '#'
  · subst hc
    have hle := hbound _ rfl
    rw [List.cons_append, lineComment, lineComment, run_front_of_le (Nat.le_of_succ_le_succ hle)]
  · simp [lineComment, hc]

theorem endsWith_splatted {front : List Char} (hfront : front ≠ []) (x : List Char) :
    EndsWith front x splatted := by
  intro hbound
  obtain ⟨c, cs, rfl⟩ := List.exists_cons_of_ne_nil hfront
  by_cases hc : c = '@'
  · subst hc
    simp only [List.cons_append, splatted] at hbound ⊢
    have hle : run Text.isWord (cs ++ x) ≤ cs.length :=
      run_le_of_nonempty fun n hn => Nat.le_of_succ_le_succ (hbound (n + 1) (by rw [hn]; rfl))
    rw [run_front_of_le hle]
  · simp [splatted, hc]

theorem two_le_plainVariable {cs : List Char} {n : Nat} (h : plainVariable cs = some n) : 2 ≤ n := by
  rw [plainVariable.eq_def] at h
  split at h
  · split at h
    · simp only at h
      split at h <;> · cases h; omega
    · split at h
      · cases h
        omega
      · cases h
  · cases h

/-- A variable that ends within the front is a variable of the front, also when a colon follows. -/
theorem endsWith_plainVariable {front : List Char} (hfront : front ≠ []) (x : List Char) :
    EndsWith front x plainVariable := by
  intro hbound
  match front, hfront with
  | [c], _ =>
    have hnone : plainVariable [c] = none := by simp [plainVariable]
    cases hx : plainVariable ([c] ++ x) with
    | none => exact hnone
    | some n =>
      have := two_le_plainVariable hx
      have := hbound n hx
      rw [List.length_singleton] at this
      omega
  | c :: d :: cs, _ =>
    by_cases hc : c = '$'
    · subst hc
      simp only [List.cons_append, plainVariable] at hbound ⊢
      by_cases hd : Text.isWord d = true
      · simp only [if_pos hd] at hbound ⊢
        -- the name ends within the front, since the match does
        have hname : run Text.isWord (cs ++ x) ≤ cs.length := by
          split at hbound
          · have := hbound _ rfl
            simp only [List.length_cons] at this
            omega
          · have := hbound _ rfl
            simp only [List.length_cons] at this
            omega
        have hdrop : (cs ++ x).drop (run Text.isWord (cs ++ x)) =
            cs.drop (run Text.isWord cs) ++ x := by
          rw [← run_front_of_le hname]
          exact List.drop_append_of_le_length (run_le Text.isWord cs)
        have hlength := List.length_drop (i := run Text.isWord cs) (l := cs)
        rw [hdrop, ← run_front_of_le hname] at hbound
        rw [hdrop, ← run_front_of_le hname]
        generalize cs.drop (run Text.isWord cs) = ds at hbound hlength ⊢
        cases ds with
        | nil =>
          -- behind the name stands no colon, which would belong to the match
          cases x with
          | nil => rfl
          | cons e x =>
            by_cases he : e = ':'
            · subst he
              have := hbound _ rfl
              simp only [List.length_cons, List.length_nil] at this hlength
              omega
            · simp [he]
        | cons e ds =>
          by_cases he : e = ':'
          · subst he
            have hmember := hbound _ rfl
            simp only [List.append_eq, List.length_cons] at hmember hlength
            have hmember : run Text.isWord ds = run Text.isWord (ds ++ x) :=
              run_front_of_le (by omega)
            simp only [List.cons_append, hmember]
          · simp [he]
      · simp only [if_neg hd]
    · simp [plainVariable, hc]

/-! ### Keywords at the end of a text -/

/-- The text is the keyword in any case. -/
def Spells (word : Keyword) (text : List Char) : Prop := afterFolded word.text.toList text = some []

theorem afterFolded_append {word front rest : List Char} (x : List Char)
    (h : afterFolded word front = some rest) : afterFolded word (front ++ x) = some (rest ++ x) := by
  induction word generalizing front with
  | nil =>
    cases h
    rfl
  | cons w word ih =>
    cases front with
    | nil => cases h
    | cons c front =>
      rw [afterFolded] at h
      rw [List.cons_append, afterFolded]
      split at h
      · rw [if_pos ‹_›]
        exact ih h
      · cases h

/-- Letters that match in a longer text match in a front that has room for them. -/
theorem afterFolded_front_of_le {word front x rest : List Char}
    (h : afterFolded word (front ++ x) = some rest) (hle : word.length ≤ front.length) :
    ∃ more, afterFolded word front = some more := by
  induction word generalizing front with
  | nil => exact ⟨front, rfl⟩
  | cons w word ih =>
    cases front with
    | nil => simp at hle
    | cons c front =>
      rw [List.cons_append, afterFolded] at h
      rw [afterFolded]
      split at h
      · rw [if_pos ‹_›]
        exact ih h (Nat.le_of_succ_le_succ hle)
      · cases h

/-- A keyword that ends within the front is found in the front. The other way round, a keyword that is
    all of the front may be no keyword in the whole text. -/
theorem keyword_front {word : Keyword} {front x : List Char}
    (hbound : ∀ n, keyword word (front ++ x) = some n → n ≤ front.length) :
    keyword word front = keyword word (front ++ x) ∨
      keyword word (front ++ x) = none ∧ Spells word front := by
  cases hfront : afterFolded word.text.toList front with
  | none =>
    left
    rw [keyword, hfront]
    cases hx : keyword word (front ++ x) with
    | none => rfl
    | some n =>
      have hle := hbound n hx
      obtain ⟨rfl, rest, hrest⟩ := keyword_some hx
      rw [← String.length_toList] at hle
      obtain ⟨more, hmore⟩ := afterFolded_front_of_le hrest hle
      rw [hfront] at hmore
      cases hmore
  | some more =>
    have hx := afterFolded_append x hfront
    cases more with
    | cons c more =>
      left
      rw [keyword, keyword, hfront, hx]
      rfl
    | nil =>
      rw [keyword, keyword, hfront, hx]
      cases x with
      | nil => exact .inl rfl
      | cons c x =>
        -- all of the front is spelled like the keyword; a character outside ASCII behind it makes it a word
        by_cases hc : c.toNat < 0x80
        · exact .inl (if_pos hc).symm
        · exact .inr ⟨if_neg hc, hfront⟩

/-- All other patterns end with the front. -/
theorem patterns_endWith {front : List Char} (hfront : front ≠ []) (x : List Char) :
    ∀ pattern ∈ patterns, (∃ word, pattern = (.token (.keyword word), keyword word)) ∨
      EndsWith front x pattern.2 := by
  have fixed (text : String) (htext : 0 < text.length) : EndsWith front x (literal text) :=
    (closed_literal text).endsWith (literal_within htext) front x
  have here (quote : Char) : EndsWith front x (hereHeader quote) :=
    (closed_hereHeader quote).endsWith (hereHeader_within quote) front x
  rw [patterns]
  simp only [List.forall_mem_append, List.forall_mem_map, List.forall_mem_cons, List.not_mem_nil,
    false_implies, implies_true, and_true]
  exact ⟨fun word _ => .inl ⟨word, rfl⟩, .inr (fixed _ (by decide)), .inr (fixed _ (by decide)),
    .inr (fixed _ (by decide)), .inr (fixed _ (by decide)), .inr (fixed _ (by decide)),
    .inr (fixed _ (by decide)), .inr (fixed _ (by decide)), .inr (fixed _ (by decide)),
    .inr (fixed _ (by decide)), .inr (fixed _ (by decide)), .inr (fixed _ (by decide)),
    .inr (fixed _ (by decide)), .inr (fixed _ (by decide)), .inr (endsWith_lineComment hfront x),
    .inr (fixed _ (by decide)),
    .inr (closed_singleQuoted.endsWith singleQuoted_within front x),
    .inr (closed_doubleQuoted.endsWith doubleQuoted_within front x),
    .inr (here _), .inr (here _), .inr (endsWith_plainVariable hfront x),
    .inr (closed_bracedVariable.endsWith bracedVariable_within front x),
    .inr (endsWith_splatted hfront x), .inr (endsWith_run isGap front x),
    .inr (closed_lineContinuation.endsWith lineContinuation_within front x),
    .inr (closed_lineEnd.endsWith lineEnd_within front x), .inr (endsWith_run isWordPart front x),
    .inr (closed_lone.endsWith lone_within front x)⟩

/-! ### Lexemes at the end of a text -/

theorem startsBraced_iff {cs : List Char} : startsBraced cs = true ↔ ∃ more, cs = '$' :: '\x7b' :: more := by
  rw [startsBraced.eq_def]
  split
  · simp
  · rename_i hno
    simpa using hno

/-- The lexer takes the same from texts in which all patterns find the same. -/
theorem head?_congr {cs cs' : List Char} {found : Lexeme × Nat}
    (hsame : ∀ pattern ∈ patterns, pattern.2 cs' = pattern.2 cs)
    (hbraced : startsBraced cs' = true → startsBraced cs = true) (h : head? cs = some found) :
    head? cs' = some found := by
  have hcandidates : candidates cs' = candidates cs :=
    List.filterMap_congr fun pattern hp => by rw [hsame pattern hp]
  have hvariable : bracedVariable cs' = bracedVariable cs :=
    hsame (.token .var, bracedVariable) (by simp [patterns])
  have hclosed : ¬ (startsBraced cs' && (bracedVariable cs').isNone) = true := by
    intro hboth
    obtain ⟨hstarts, hnone⟩ := Bool.and_eq_true_iff.mp hboth
    obtain ⟨n, hn⟩ := bracedVariable_of_head? h (hbraced hstarts)
    rw [hvariable, hn] at hnone
    cases hnone
  rw [head?, if_neg hclosed, hcandidates]
  exact firstLongest_of_head? h

theorem toNat_lt_of_toLower {c : Char} (h : c.toLower.toNat < 128) : c.toNat < 128 := by
  delta Char.toLower at h
  split at h
  · rename_i hupper
    have hle : c.val.toNat ≤ 90 := UInt32.le_iff_toNat_le.mp hupper.2
    exact Nat.lt_of_le_of_lt hle (by decide)
  · exact h

/-- The letters of keywords are word characters in every spelling, and the first one is plain. -/
theorem isWordPart_of_folds (word : Keyword) {w c : Char} (hword : w ∈ word.text.toList)
    (h : folds w c = true) :
    isWordPart c = true ∧ (w ∈ word.text.toList.head? → isPlain c = true) := by
  have hall : Keyword.all.all (fun word => word.text.toList.all fun w => w.toNat < 128 &&
      (word.text.toList.head? != some w || (w != 'k' && w != 's'))) = true := by decide +kernel
  have hascii : ∀ n < 128, (Keyword.all.all fun word => word.text.toList.all fun w =>
      (Char.ofNat n).toLower != w ||
        (isWordPart (Char.ofNat n) && isPlain (Char.ofNat n))) = true := by decide +kernel
  simp only [List.all_eq_true] at hall
  obtain ⟨hlt, hfirst⟩ := Bool.and_eq_true_iff.mp (hall word (Keyword.mem_all word) w hword)
  simp only [folds, Bool.or_eq_true, Bool.and_eq_true, beq_iff_eq] at h
  -- beside upper and lower case, two letters have a variant outside ASCII; neither starts a keyword
  rcases h with (hlower | ⟨rfl, rfl⟩) | ⟨rfl, rfl⟩
  · have hc := toNat_lt_of_toLower (c := c) (by rw [hlower]; exact of_decide_eq_true hlt)
    have hparts := forall_ascii (p := fun c => (Keyword.all.all fun word =>
      word.text.toList.all fun w => c.toLower != w || (isWordPart c && isPlain c)) = true) hascii hc
    simp only [List.all_eq_true] at hparts
    have hparts := hparts word (Keyword.mem_all word) w hword
    rw [hlower] at hparts
    simp only [bne_self_eq_false, Bool.false_or, Bool.and_eq_true] at hparts
    exact ⟨hparts.1, fun _ => hparts.2⟩
  · refine ⟨by decide, fun hhead => ?_⟩
    simp [Option.mem_def.mp hhead] at hfirst
  · refine ⟨by decide, fun hhead => ?_⟩
    simp [Option.mem_def.mp hhead] at hfirst

/-- A text that spells a keyword consists of word characters. -/
theorem isWordPart_of_afterFolded (word : Keyword) : ∀ {ws front : List Char},
    (∀ w ∈ ws, w ∈ word.text.toList) → afterFolded ws front = some [] →
    ∀ c ∈ front, isWordPart c = true
  | [], front, _, h, c, hc => by
    cases h
    cases hc
  | _ :: _, [], _, h, _, _ => by cases h
  | w :: ws, d :: front, hws, h, c, hc => by
    rw [afterFolded] at h
    split at h
    · rcases List.mem_cons.mp hc with rfl | hc
      · exact (isWordPart_of_folds word (hws w List.mem_cons_self) ‹_›).1
      · exact isWordPart_of_afterFolded word (fun w hw => hws w (List.mem_cons_of_mem _ hw)) h c hc
    · cases h

theorem spells_cons {word : Keyword} {c : Char} {cs : List Char} (h : Spells word (c :: cs)) :
    isPlain c = true ∧ ∀ d ∈ cs, isWordPart d = true := by
  have hparts := isWordPart_of_afterFolded word (fun _ hw => hw) h
  refine ⟨?_, fun d hd => hparts d (List.mem_cons_of_mem _ hd)⟩
  rw [Spells] at h
  cases htext : word.text.toList with
  | nil =>
    rw [htext] at h
    cases h
  | cons w ws =>
    rw [htext, afterFolded] at h
    split at h
    · exact (isWordPart_of_folds word (by rw [htext]; exact List.mem_cons_self) ‹_›).2
        (by rw [htext]; rfl)
    · cases h

theorem le_run_append {p : Char → Bool} {cs : List Char} (h : ∀ c ∈ cs, p c = true) (x : List Char) :
    cs.length ≤ run p (cs ++ x) := by
  rw [run, List.takeWhile_append_of_pos h, List.length_append]
  exact Nat.le_add_right _ _

/-- A keyword that is as long as the front is all of the front. -/
theorem spells_of_keyword {word : Keyword} {front x : List Char}
    (h : keyword word (front ++ x) = some front.length) : Spells word front := by
  obtain ⟨hlength, rest, hrest⟩ := keyword_some h
  rw [← String.length_toList] at hlength
  obtain ⟨more, hmore⟩ := afterFolded_front_of_le hrest (Nat.le_of_eq hlength.symm)
  have := afterFolded_length hmore
  rw [Spells, hmore, List.length_eq_zero_iff.mp (by omega : more.length = 0)]

/-- Whether a keyword is one depends on what follows it, not on the keyword. -/
theorem keyword_of_spells {word other : Keyword} {front x : List Char} (h : Spells word front)
    (hother : keyword other (front ++ x) = some front.length) :
    keyword word (front ++ x) = some front.length := by
  have hlength := afterFolded_length h
  rw [keyword, afterFolded_append x (spells_of_keyword hother)] at hother
  rw [keyword, afterFolded_append x h]
  rw [List.length_nil, Nat.add_zero, String.length_toList] at hlength
  cases x with
  | nil => simp [hlength]
  | cons c x =>
    simp only [List.nil_append] at hother ⊢
    split at hother
    · rw [if_pos ‹_›, hlength]
    · cases hother

/-- The lexer takes a keyword or a word where the text starts like a plain name. -/
theorem head?_plain {c : Char} (hc : isPlain c = true) {cs : List Char} {lexeme : Lexeme} {n : Nat}
    (h : head? (c :: cs) = some (lexeme, n)) : run isWordPart cs + 1 ≤ n ∧
      ((∃ word, lexeme = .token (.keyword word) ∧ keyword word (c :: cs) = some n) ∨
        lexeme = .token .word ∧ n = run isWordPart cs + 1) := by
  have hlongest := firstLongest_of_head? h
  have hmem := firstLongest_mem hlongest
  have hmax := firstLongest_max hlongest
  rw [candidates_plain hc] at hmem hmax
  refine ⟨hmax _ (List.mem_append_right _ List.mem_cons_self), ?_⟩
  rcases List.mem_append.mp hmem with hkeyword | hword
  · obtain ⟨word, -, hmatch⟩ := List.mem_flatMap.mp hkeyword
    obtain ⟨m, hm, hpair⟩ := Option.map_eq_some_iff.mp (Option.mem_toList.mp hmatch)
    obtain ⟨rfl, rfl⟩ := Prod.mk.inj hpair
    exact .inl ⟨word, rfl, hm⟩
  · obtain ⟨rfl, rfl⟩ := Prod.mk.inj (List.mem_singleton.mp hword)
    exact .inr ⟨rfl, rfl⟩

/-- A text that is spelled like a keyword is a keyword or a word as a whole. -/
theorem head?_of_spells {word : Keyword} {front : List Char} (h : Spells word front) :
    head? front = some (.token .word, front.length) ∨
      ∃ word, Spells word front ∧ head? front = some (.token (.keyword word), front.length) := by
  cases front with
  | nil =>
    have hnil : word.text.toList.length = 0 := (afterFolded_length h).symm
    cases word with
    | declare kind => cases kind <;> cases hnil
    | param => cases hnil
    | block kind => cases kind <;> cases hnil
  | cons c cs =>
    obtain ⟨hplain, hparts⟩ := spells_cons h
    -- something is found, since the whole text is a word; what is found takes all of it
    have hfound : ∃ found, head? (c :: cs) = some found := by
      have hdollar : c ≠ '$' := by rintro rfl; exact absurd hplain (by decide)
      have hword : (Lexeme.token .word, run isWordPart cs + 1) ∈ candidates (c :: cs) := by
        rw [candidates_plain hplain]
        exact List.mem_append_right _ List.mem_cons_self
      obtain ⟨found, hfound, -, -⟩ := exists_firstLongest hword
      refine ⟨found, ?_⟩
      rw [head?, if_neg ?_, hfound]
      simp [startsBraced, hdollar]
    obtain ⟨⟨lexeme, n⟩, hhead⟩ := hfound
    have hle := (head?_within hhead).2
    have hrun := le_run_append hparts []
    rw [List.append_nil] at hrun
    obtain ⟨hlong, hcases⟩ := head?_plain hplain hhead
    obtain rfl : n = (c :: cs).length := by
      rw [List.length_cons] at hle ⊢
      omega
    rcases hcases with ⟨other, rfl, hother⟩ | ⟨rfl, -⟩
    · exact .inr ⟨other, spells_of_keyword (x := []) (by rwa [List.append_nil]), hhead⟩
    · exact .inl hhead

/-- A text that is spelled like a keyword and is none is a word. -/
theorem lexeme_of_spells {word : Keyword} {front x : List Char} {lexeme : Lexeme} {n : Nat}
    (h : head? (front ++ x) = some (lexeme, n)) (hn : n ≤ front.length) (hfront : front ≠ [])
    (hspells : Spells word front) (hnone : keyword word (front ++ x) = none) :
    lexeme = .token .word ∧ n = front.length := by
  obtain ⟨c, cs, rfl⟩ := List.exists_cons_of_ne_nil hfront
  obtain ⟨hplain, hparts⟩ := spells_cons hspells
  have hrun := le_run_append hparts x
  rw [List.cons_append] at h
  obtain ⟨hlong, hcases⟩ := head?_plain hplain h
  obtain rfl : n = (c :: cs).length := by
    rw [List.length_cons] at hn ⊢
    omega
  rcases hcases with ⟨other, rfl, hother⟩ | ⟨rfl, -⟩
  · rw [keyword_of_spells hspells hother] at hnone
    cases hnone
  · exact ⟨rfl, rfl⟩

/-- What is first found within the front is found in the front alone, except that a word which is all of
    the front may be a keyword there. -/
theorem head?_front {front x : List Char} {lexeme : Lexeme} {n : Nat} (hfront : front ≠ [])
    (h : head? (front ++ x) = some (lexeme, n)) (hn : n ≤ front.length) :
    head? front = some (lexeme, n) ∨ n = front.length ∧ lexeme = .token .word ∧
      ∃ word, Spells word front ∧ head? front = some (.token (.keyword word), n) := by
  have hlongest := firstLongest_max (firstLongest_of_head? h)
  have hbound : ∀ pattern ∈ patterns, ∀ m, pattern.2 (front ++ x) = some m → m ≤ front.length :=
    fun pattern hp m hm =>
      Nat.le_trans (hlongest (pattern.1, m) (mem_candidates.mpr ⟨pattern.2, hp, hm⟩)) hn
  by_cases hsame : ∀ word, keyword word front = keyword word (front ++ x)
  · refine .inl (head?_congr (fun pattern hp => ?_) (fun hstarts => ?_) h)
    · rcases patterns_endWith hfront x pattern hp with ⟨word, rfl⟩ | hends
      · exact hsame word
      · exact hends (hbound pattern hp)
    · obtain ⟨more, rfl⟩ := startsBraced_iff.mp hstarts
      rfl
  · obtain ⟨word, hdiffers⟩ := not_forall.mp hsame
    have hmem : (Lexeme.token (.keyword word), keyword word) ∈ patterns :=
      List.mem_append_left _ (List.mem_map.mpr ⟨word, Keyword.mem_all word, rfl⟩)
    obtain ⟨hnone, hspells⟩ := (keyword_front (hbound _ hmem)).resolve_left hdiffers
    obtain ⟨rfl, rfl⟩ := lexeme_of_spells h hn hfront hspells hnone
    rcases head?_of_spells hspells with hword | hkeyword
    · exact .inl hword
    · exact .inr ⟨rfl, rfl, hkeyword⟩

/-- A lexeme that ends within the front is taken from the front alone, except that a word which is all of
    the front may be a keyword there. -/
theorem whole?_front {front x : List Char} {lexeme : Lexeme} {n : Nat}
    (h : whole? (front ++ x) = some (lexeme, n)) (hn : n ≤ front.length) :
    whole? front = some (lexeme, n) ∨ n = front.length ∧ lexeme = .token .word ∧
      ∃ word, Spells word front ∧ whole? front = some (.token (.keyword word), n) := by
  have hfront : front ≠ [] := by
    rintro rfl
    exact absurd (whole?_within h).1 (Nat.not_lt.mpr hn)
  obtain ⟨m, more, hhead, hrest, rfl⟩ := whole?_eq_some h
  rcases head?_front hfront hhead (by omega) with hsame | ⟨rfl, rfl, word, hspells, hkeyword⟩
  · left
    have hdrop : (front ++ x).drop m = front.drop m ++ x :=
      List.drop_append_of_le_length (by omega)
    rw [hdrop] at hrest
    have hrest' : lexeme.rest? (front.drop m ++ []) = some more :=
      rest?_keeps hrest (by rw [List.length_drop]; omega)
    rw [List.append_nil] at hrest'
    simp only [whole?, hsame, Option.bind_some, hrest', Option.map_some]
  · right
    obtain rfl : 0 = more := Option.some.inj hrest
    exact ⟨rfl, rfl, word, hspells, by rw [whole?, hkeyword]; rfl⟩

/-! ### Lexemes in front of a line feed -/

/-- The texts that mean something else with a line feed behind them. -/
def takesFeed : List (List Char) :=
  [['\r'], ['\x60'], ['\x60', '\r'], ['@', '\x27'], ['@', '\x27', '\r'], ['@', '\x22'],
    ['@', '\x22', '\r']]

/-- In front of a line feed the pattern matches no more than the front. -/
def StopsAtFeed (front : List Char) (pattern : List Char → Option Nat) : Prop :=
  ∀ z n, pattern (front ++ '\n' :: z) = some n → n ≤ front.length

section Feed

variable {front : List Char}

theorem literal_stops {text : String} (h : '\n' ∉ text.toList) : StopsAtFeed front (literal text) := by
  intro z n hn
  rw [literal] at hn
  split at hn
  · rename_i hstarts
    cases hn
    rw [← String.length_toList]
    by_contra hlong
    have hfeed : front ++ ['\n'] <+: text.toList := by
      refine List.prefix_of_prefix_length_le ?_ (List.isPrefixOf_iff_prefix.mp hstarts) ?_
      · exact ⟨z, by rw [List.append_assoc]; rfl⟩
      · rw [List.length_append, List.length_singleton]
        omega
    exact h (hfeed.subset (List.mem_append_right _ List.mem_cons_self))
  · cases hn

theorem run_stops {p : Char → Bool} (h : p '\n' = false) :
    StopsAtFeed front fun cs => nonempty (run p cs) := by
  intro z n hn
  simp only [nonempty, run_front h] at hn
  split at hn
  · cases hn
  · cases hn
    exact run_le p front

theorem lineComment_stops (hfront : front ≠ []) : StopsAtFeed front lineComment := by
  intro z n hn
  obtain ⟨c, cs, rfl⟩ := List.exists_cons_of_ne_nil hfront
  by_cases hc : c = '#'
  · subst hc
    rw [List.cons_append, lineComment, run_front (by decide)] at hn
    cases hn
    exact Nat.succ_le_succ (run_le _ cs)
  · simp [lineComment, hc] at hn

theorem splatted_stops (hfront : front ≠ []) : StopsAtFeed front splatted := by
  intro z n hn
  obtain ⟨c, cs, rfl⟩ := List.exists_cons_of_ne_nil hfront
  by_cases hc : c = '@'
  · subst hc
    obtain ⟨m, hm, rfl⟩ := Option.map_eq_some_iff.mp hn
    exact Nat.succ_le_succ (run_stops (by decide) z m hm)
  · simp [splatted, hc] at hn

theorem plainVariable_stops (hfront : front ≠ []) : StopsAtFeed front plainVariable := by
  intro z n hn
  match front, hfront with
  | [c], _ =>
    by_cases hc : c = '$'
    · subst hc
      have hblank : Text.isWord '\n' = false := by decide
      simp [plainVariable, hblank] at hn
    · simp [plainVariable, hc] at hn
  | c :: d :: cs, _ =>
    by_cases hc : c = '$'
    · subst hc
      have hdrop : (cs ++ '\n' :: z).drop (run Text.isWord cs) =
          cs.drop (run Text.isWord cs) ++ '\n' :: z :=
        List.drop_append_of_le_length (run_le Text.isWord cs)
      have hle := run_le Text.isWord cs
      have hlength := List.length_drop (i := run Text.isWord cs) (l := cs)
      simp only [List.cons_append, plainVariable, run_front (show Text.isWord '\n' = false by decide),
        hdrop] at hn
      simp only [List.length_cons]
      split at hn
      · -- what stands behind the name is nothing, a colon and a member, or the end of the variable
        generalize cs.drop (run Text.isWord cs) = ds at hn hlength
        cases ds with
        | nil =>
          cases hn
          omega
        | cons e ds =>
          have hmember := run_le Text.isWord ds
          rw [List.length_cons] at hlength
          by_cases he : e = ':'
          · subst he
            simp only [List.cons_append, run_front (show Text.isWord '\n' = false by decide)] at hn
            cases hn
            omega
          · simp only [List.cons_append] at hn
            split at hn
            · rename_i heq
              exact absurd (List.cons.inj heq).1 he
            · cases hn
              omega
      · split at hn
        · cases hn
          omega
        · cases hn
    · simp [plainVariable, hc] at hn

/-- A line end stops before another line feed, but for a carriage return, which takes it in. -/
theorem lineEnd_stops {cs : List Char} (hne : cs ≠ []) (hreturn : cs ≠ ['\r']) :
    StopsAtFeed cs lineEnd := by
  intro z n hn
  match cs, hne with
  | [c], _ =>
    rw [List.singleton_append, lineEnd_cons] at hn
    split at hn
    · cases hn
      exact Nat.le_refl _
    · split at hn
      · rename_i hboth
        exact absurd (by rw [hboth.1]) hreturn
      · cases hn
  | c :: d :: cs, _ =>
    rw [List.cons_append, lineEnd_cons] at hn
    simp only [List.length_cons]
    split at hn
    · cases hn
      omega
    · split at hn
      · cases hn
        omega
      · cases hn

/-- A continuation stops before another line feed, but for a backtick or a backtick and a carriage return. -/
theorem lineContinuation_stops (hfront : front ≠ []) (hfeed : front ∉ takesFeed) :
    StopsAtFeed front lineContinuation := by
  intro z n hn
  obtain ⟨c, cs, rfl⟩ := List.exists_cons_of_ne_nil hfront
  rw [List.cons_append, lineContinuation_cons] at hn
  split at hn
  · subst c
    obtain ⟨m, hm, rfl⟩ := Option.map_eq_some_iff.mp hn
    refine Nat.succ_le_succ (lineEnd_stops ?_ ?_ z m hm)
    · rintro rfl
      exact hfeed (by decide)
    · rintro rfl
      exact hfeed (by decide)
  · cases hn

/-- The header of a here-string stops before another line feed, but for one that lacks its own. -/
theorem hereHeader_stops {quote : Char} (hquote : quote = '\x27' ∨ quote = '\x22') (hfront : front ≠ [])
    (hfeed : front ∉ takesFeed) : StopsAtFeed front (hereHeader quote) := by
  intro z n hn
  match front, hfront with
  | [c], _ =>
    rw [List.singleton_append, hereHeader_cons] at hn
    split at hn
    · rename_i hboth
      rcases hquote with rfl | rfl <;> cases hboth.2
    · cases hn
  | c :: d :: cs, _ =>
    rw [List.cons_append, List.cons_append, hereHeader_cons] at hn
    split at hn
    · rename_i hboth
      obtain ⟨rfl, rfl⟩ := hboth
      obtain ⟨m, hm, rfl⟩ := Option.map_eq_some_iff.mp hn
      refine Nat.succ_le_succ (Nat.succ_le_succ (lineEnd_stops ?_ ?_ z m hm))
      · rintro rfl
        rcases hquote with rfl | rfl <;> exact hfeed (by decide)
      · rintro rfl
        rcases hquote with rfl | rfl <;> exact hfeed (by decide)
    · cases hn

theorem keyword_stops (word : Keyword) : StopsAtFeed front (keyword word) := by
  intro z n hn
  have hall : Keyword.all.all (fun word => word.text.toList.all fun w => !folds w '\n') = true := by
    decide +kernel
  simp only [List.all_eq_true, Bool.not_eq_true'] at hall
  obtain ⟨rfl, after, hafter⟩ := keyword_some hn
  rw [← String.length_toList]
  exact afterFolded_le (hall word (Keyword.mem_all word)) hafter

/-- A closed match of the front is its match in front of anything. -/
theorem Closed.stops {pattern : List Char → Option Nat} (hclosed : Closed pattern)
    (hwithin : MatchesWithin pattern)
    (h : (∃ n, pattern front = some n) ∨ ∀ z, pattern (front ++ '\n' :: z) = none) :
    StopsAtFeed front pattern := by
  intro z n hn
  rcases h with ⟨m, hm⟩ | hnone
  · have hle := (hwithin front m hm).2
    have hmore := hclosed front [] ('\n' :: z) m (by rwa [List.append_nil]) hle
    rw [hn] at hmore
    cases hmore
    exact hle
  · rw [hnone z] at hn
    cases hn

/-- No pattern matches past the front of a line feed, where the front is a lexeme and more that does not
    take the line feed in. -/
theorem patterns_stop {found : Lexeme × Nat} (h : head? front = some found)
    (hfeed : front ∉ takesFeed) : ∀ pattern ∈ patterns, StopsAtFeed front pattern.2 := by
  have hfront : front ≠ [] := by
    rintro rfl
    cases h
  -- quoted texts and braces could run over the line feed to a later end, but the front has one of its own
  have hsingle : StopsAtFeed front singleQuoted := by
    refine closed_singleQuoted.stops singleQuoted_within ?_
    obtain ⟨c, cs, rfl⟩ := List.exists_cons_of_ne_nil hfront
    cases hc : isSingleQuote c with
    | false => exact .inr fun z => by simp [singleQuoted, hc]
    | true =>
      rw [head?_singleQuote hc] at h
      obtain ⟨n, hn, -⟩ := Option.map_eq_some_iff.mp h
      exact .inl ⟨n, hn⟩
  have hdouble : StopsAtFeed front doubleQuoted := by
    refine closed_doubleQuoted.stops doubleQuoted_within ?_
    obtain ⟨c, cs, rfl⟩ := List.exists_cons_of_ne_nil hfront
    cases hc : isDoubleQuote c with
    | false => exact .inr fun z => by simp [doubleQuoted, hc]
    | true =>
      rw [head?_doubleQuote hc] at h
      obtain ⟨n, hn, -⟩ := Option.map_eq_some_iff.mp h
      exact .inl ⟨n, hn⟩
  have hbraced : StopsAtFeed front bracedVariable := by
    refine closed_bracedVariable.stops bracedVariable_within ?_
    obtain ⟨c, cs, rfl⟩ := List.exists_cons_of_ne_nil hfront
    cases cs with
    | nil => exact .inr fun z => bracedVariable_cons c '\n' z (by simp)
    | cons d cs =>
      by_cases hcd : c = '$' ∧ d = '\x7b'
      · exact .inl (bracedVariable_of_head? h (by rw [hcd.1, hcd.2]; rfl))
      · exact .inr fun z => bracedVariable_cons c d _ hcd
  have hlone : StopsAtFeed front lone := by
    intro z n hn
    obtain ⟨c, cs, rfl⟩ := List.exists_cons_of_ne_nil hfront
    exact (lone_within (c :: cs) n hn).2
  have hline : StopsAtFeed front lineEnd :=
    lineEnd_stops hfront (by rintro rfl; exact hfeed (by decide))
  have fixed {text : String} (htext : '\n' ∉ text.toList) : StopsAtFeed front (literal text) :=
    literal_stops htext
  rw [patterns]
  simp only [List.forall_mem_append, List.forall_mem_map, List.forall_mem_cons, List.not_mem_nil,
    false_implies, implies_true, and_true]
  exact ⟨fun word _ => keyword_stops word, fixed (by decide), fixed (by decide), fixed (by decide),
    fixed (by decide), fixed (by decide), fixed (by decide), fixed (by decide), fixed (by decide),
    fixed (by decide), fixed (by decide), fixed (by decide), fixed (by decide), fixed (by decide),
    lineComment_stops hfront, fixed (by decide), hsingle, hdouble,
    hereHeader_stops (.inl rfl) hfront hfeed, hereHeader_stops (.inr rfl) hfront hfeed,
    plainVariable_stops hfront, hbraced, splatted_stops hfront, run_stops (by decide),
    lineContinuation_stops hfront hfeed, hline, run_stops (by decide), hlone⟩

/-- A line feed behind a text does not change the lexeme at its start, apart from a few short texts. -/
theorem whole?_feed {lexeme : Lexeme} {n : Nat} (h : whole? front = some (lexeme, n))
    (hfeed : front ∉ takesFeed) (z : List Char) :
    whole? (front ++ '\n' :: z) = some (lexeme, n) := by
  obtain ⟨m, more, hhead, hrest, rfl⟩ := whole?_eq_some h
  have hfront : front ≠ [] := by
    rintro rfl
    cases hhead
  have hstops := patterns_stop hhead hfeed
  have hhead' : head? (front ++ '\n' :: z) = some (lexeme, m) := by
    refine head?_congr (fun pattern hp => ?_) (fun hstarts => ?_) hhead
    · have hbound := hstops pattern hp z
      rcases patterns_endWith hfront ('\n' :: z) pattern hp with ⟨word, rfl⟩ | hends
      · rcases keyword_front hbound with hsame | ⟨hnone, hspells⟩
        · exact hsame.symm
        · -- a line feed is an ASCII character, so the keyword stays one
          rw [keyword, afterFolded_append _ hspells] at hnone
          cases hnone
      · exact (hends hbound).symm
    · obtain ⟨cs, hcs⟩ := startsBraced_iff.mp hstarts
      obtain ⟨c, rest, rfl⟩ := List.exists_cons_of_ne_nil hfront
      cases rest with
      | nil => cases hcs
      | cons d rest =>
        cases hcs
        rfl
  have hdrop : (front ++ '\n' :: z).drop m = front.drop m ++ '\n' :: z :=
    List.drop_append_of_le_length (head?_within hhead).2
  have hrest' : lexeme.rest? (front.drop m ++ '\n' :: z) = some more := by
    rw [← List.append_nil (front.drop m)] at hrest
    refine rest?_keeps hrest ?_
    rw [List.append_nil] at hrest
    exact rest?_le hrest
  simp only [whole?, hhead', Option.bind_some, hdrop, hrest', Option.map_some]

end Feed

end Lexeme

/-! ### Chunks at the end of a text -/

namespace Chunk

theorem joined_ne_nil {chunks : List Chunk} {x : List Char} (h : AllFit chunks x) (hne : chunks ≠ []) :
    joined chunks ≠ [] := by
  obtain ⟨chunk, chunks, rfl⟩ := List.exists_cons_of_ne_nil hne
  rw [joined_cons]
  exact List.append_ne_nil_of_left_ne_nil h.1.text_ne_nil _

/-- Chunks fit when the text behind them is cut off, unless the last one is a word that is spelled like a
    keyword; then it fits as a keyword. -/
theorem allFit_front {x : List Char} : ∀ {chunks : List Chunk}, AllFit chunks x →
    AllFit chunks [] ∨ ∃ init text word, chunks = init ++ [⟨.token .word, text⟩] ∧
      Lexeme.Spells word text ∧ AllFit (init ++ [⟨.token (.keyword word), text⟩]) []
  | [], _ => .inl trivial
  | chunk :: chunks, ⟨hfits, hothers⟩ => by
    rw [Fits, ← List.append_assoc] at hfits
    have hfront := Lexeme.whole?_front hfits
      (by rw [List.length_append]; exact Nat.le_add_right _ _)
    rcases hfront with hsame | ⟨hlength, hword, word, hspells, hkeyword⟩
    · have hhere : chunk.Fits (joined chunks) := hsame
      rcases allFit_front hothers with hall | ⟨init, text, word, rfl, hspells, hall⟩
      · exact .inl ⟨by rwa [List.append_nil], hall⟩
      · rw [joined_append] at hhere
        refine .inr ⟨chunk :: init, text, word, rfl, hspells, ?_⟩
        rw [List.cons_append]
        refine ⟨?_, hall⟩
        rw [List.append_nil, joined_append]
        exact hhere
    · -- the word is all that is left, so it is the last chunk
      obtain ⟨lexeme, text⟩ := chunk
      obtain rfl : lexeme = .token .word := hword
      rw [List.length_append] at hlength
      have hnil : joined chunks = [] := List.length_eq_zero_iff.mp (by omega)
      obtain rfl : chunks = [] := by
        by_contra hne
        exact joined_ne_nil hothers hne hnil
      rw [hnil, List.append_nil] at hspells hkeyword
      refine .inr ⟨[], text, word, rfl, hspells, ?_, trivial⟩
      rw [Fits, joined, List.flatMap_nil, List.append_nil, List.append_nil]
      exact hkeyword

/-- There is only one way to put a text together from chunks that fit. -/
theorem pieces_joined {chunks : List Chunk} (h : AllFit chunks []) (start : Nat) :
    (Cut.ofRest 0 start (joined chunks)).pieces.map (fun p => (⟨p.lexeme, p.text⟩ : Chunk)) =
      chunks := by
  induction chunks generalizing start with
  | nil => rfl
  | cons chunk chunks ih =>
    obtain ⟨hfits, hothers⟩ := h
    rw [Fits, List.append_nil] at hfits
    rw [joined_cons, Cut.ofRest_whole hfits, List.take_left, List.drop_left, List.map_cons,
      ih hothers]

/-- Chunks that end with a token, and not with a lone backtick, do not take in a line feed. -/
theorem joined_not_mem_takesFeed {chunks : List Chunk} (h : AllFit chunks [])
    (hlast : ∃ init kind text, chunks = init ++ [⟨.token kind, text⟩] ∧ text ≠ ['\x60']) :
    joined chunks ∉ Lexeme.takesFeed := by
  intro hmem
  have hall : Lexeme.takesFeed.all (fun cs => (Cut.of cs).stuck.isSome ||
      (Cut.of cs).pieces.getLast?.all fun p =>
        p.lexeme == .blanks || p.lexeme == .continuation || p.text == ['\x60']) = true := by
    decide +kernel
  have hcs := List.all_eq_true.mp hall _ hmem
  obtain ⟨init, kind, text, rfl, htext⟩ := hlast
  have hpieces := congrArg List.getLast? (pieces_joined h 0)
  rw [List.getLast?_map, List.getLast?_concat] at hpieces
  obtain ⟨p, hp, hchunk⟩ := Option.map_eq_some_iff.mp hpieces
  obtain ⟨hlexeme, rfl⟩ := Chunk.mk.inj hchunk
  rw [Cut.of, (cut_joined h 0).1, hp] at hcs
  simp [hlexeme, htext] at hcs

/-- Chunks fit in front of a line feed if none of their ends takes it in. -/
theorem allFit_feed_of_not_mem : ∀ {chunks : List Chunk}, AllFit chunks [] →
    (∀ last, last <:+ chunks → joined last ∉ Lexeme.takesFeed) → ∀ z, AllFit chunks ('\n' :: z)
  | [], _, _, _ => trivial
  | chunk :: chunks, ⟨hfits, hothers⟩, hfeed, z => by
    have hmore : ∀ last, last <:+ chunks → joined last ∉ Lexeme.takesFeed :=
      fun last hlast => hfeed last (hlast.trans (List.suffix_cons _ _))
    refine ⟨?_, allFit_feed_of_not_mem hothers hmore z⟩
    rw [Fits, List.append_nil] at hfits
    rw [Fits, ← List.append_assoc]
    exact Lexeme.whole?_feed hfits (hfeed _ (List.suffix_refl _)) z

theorem AllFit.of_suffix {chunks last : List Chunk} {rest : List Char} (h : AllFit chunks rest)
    (hlast : last <:+ chunks) : AllFit last rest := by
  obtain ⟨front, rfl⟩ := hlast
  exact (allFit_append.mp h).2

/-- Chunks that end with a token, and not with a lone backtick, fit in front of a line feed. -/
theorem allFit_feed {init : List Chunk} {kind : TokenKind} {text : List Char}
    (h : AllFit (init ++ [⟨.token kind, text⟩]) []) (htext : text ≠ ['\x60']) (z : List Char) :
    AllFit (init ++ [⟨.token kind, text⟩]) ('\n' :: z) := by
  refine allFit_feed_of_not_mem h (fun last hlast => ?_) z
  have hfit := h.of_suffix hlast
  rcases List.suffix_concat_iff.mp hlast with rfl | ⟨init', rfl, -⟩
  · decide
  · exact joined_not_mem_takesFeed hfit ⟨init', kind, text, rfl, htext⟩

/-- A newline. -/
def feed : Chunk := .mark .newline "\n"

theorem feed_fits (rest : List Char) : feed.Fits rest := rfl

end Chunk

end HelpAudit
