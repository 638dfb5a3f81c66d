import HelpAudit.Proofs.ParallelRuns

/-! Block comments are trivia. A block comment put between the tokens of a script, with any text and at
    any offsets, changes neither the error nor the tree, apart from the comments that the tree keeps and
    the text of default values. Only right after a keyword that declares a function it may not stand,
    since the function's name is expected there. -/

namespace HelpAudit

/-- The same tokens, offsets and errors. -/
def Link.same : Link := ⟨.full, Eq, Eq, Eq⟩

/-- Two scripts with the same source and file respect the equality of everything. -/
theorem Link.same_joins (source : List Char) (file : Option String) (ts ts' : List Token) :
    Link.same.Joins ⟨source, file, ts⟩ ⟨source, file, ts'⟩ where
  kind h := congrArg Token.kind h
  value h _ := congrArg Token.value h
  start h := congrArg Token.start h
  stop h := congrArg Token.stop h
  zero := rfl
  size := rfl
  max ha hb := by rw [ha, hb]; rfl
  extent ha hb := by rw [ha, hb]; rfl
  text ha hb := by rw [ha, hb]; rfl
  ends h := congrArg Extent.endOffset h
  fault cause ha ht := by rw [ha, ht]; rfl

theorem aligned_refl : ∀ (ts : List Token) (free : Bool), Aligned Link.same free ts ts
  | [], _ => .nil
  | _ :: ts, _ => .cons rfl (aligned_refl ts _)

theorem aligned_insert {c : Token} (hc : c.kind = .comment .block) (b : List Token) :
    ∀ {free : Bool} (a : List Token), (a = [] → free = true) →
    (∀ t ∈ a.getLast?, t.kind.declares = false) → Aligned Link.same free (a ++ b) (a ++ c :: b)
  | _, [], hfree, _ => by
    rw [hfree rfl]
    exact .comment hc (aligned_refl b true)
  | _, [t], _, h => by
    have hfree : (!t.kind.declares) = true := by rw [h t rfl]; rfl
    exact .cons rfl (aligned_insert hc b [] (fun _ => hfree) fun _ h => by cases h)
  | _, t :: u :: a, _, h =>
    .cons rfl (aligned_insert hc b (u :: a) (fun hnil => absurd hnil (List.cons_ne_nil _ _)) h)

/-- With one more block comment, not right after a keyword that declares a function, a list of tokens
    fails with the same error or gives the same tree, up to comments and the texts of default values. -/
theorem comments_are_trivia (source : List Char) (file : Option String) (a b : List Token) (c : Token)
    (hc : c.kind = .comment .block) (ha : ∀ t ∈ a.getLast?, t.kind.declares = false) :
    (∃ e, parseTokens ⟨source, file, a ++ b⟩ = .error e ∧
      parseTokens ⟨source, file, a ++ c :: b⟩ = .error e) ∨
    ∃ root root', parseTokens ⟨source, file, a ++ b⟩ = .ok root ∧
      parseTokens ⟨source, file, a ++ c :: b⟩ = .ok root' ∧ root.viewed .full = root'.viewed .full := by
  have hagree := parseTokens_agree (Link.same_joins source file (a ++ b) (a ++ c :: b))
    (aligned_insert hc b a (fun _ => rfl) ha)
  rcases hagree.cases with ⟨e, e', he, he', heq⟩ | ⟨root, root', hroot, hroot', heq⟩
  · exact .inl ⟨e, he, he'.trans (congrArg Except.error heq.symm)⟩
  · exact .inr ⟨root, root', hroot, hroot', heq⟩

/-- A comment between the equals sign and the default value of a parameter. -/
theorem comments_are_trivia_default : ∃ root root',
    parseTokens ⟨"param($a=1)".toList, none, [⟨.keyword .param, "param", 0, 5⟩,
      ⟨.opening .paren, "(", 5, 6⟩, ⟨.var, "$a", 6, 8⟩, ⟨.equals, "=", 8, 9⟩] ++
      [⟨.word, "1", 9, 10⟩, ⟨.closing .paren, ")", 10, 11⟩]⟩ = .ok root ∧
    parseTokens ⟨"param($a=1)".toList, none, [⟨.keyword .param, "param", 0, 5⟩,
      ⟨.opening .paren, "(", 5, 6⟩, ⟨.var, "$a", 6, 8⟩, ⟨.equals, "=", 8, 9⟩] ++
      ⟨.comment .block, "<# #>", 2, 90⟩ ::
      [⟨.word, "1", 9, 10⟩, ⟨.closing .paren, ")", 10, 11⟩]⟩ = .ok root' ∧
    root.viewed .full = root'.viewed .full := by
  rcases comments_are_trivia "param($a=1)".toList none [⟨.keyword .param, "param", 0, 5⟩,
    ⟨.opening .paren, "(", 5, 6⟩, ⟨.var, "$a", 6, 8⟩, ⟨.equals, "=", 8, 9⟩]
    [⟨.word, "1", 9, 10⟩, ⟨.closing .paren, ")", 10, 11⟩] ⟨.comment .block, "<# #>", 2, 90⟩ rfl
    (by simp [TokenKind.declares]) with ⟨e, he, -⟩ | h
  · cases he
  · exact h

end HelpAudit
