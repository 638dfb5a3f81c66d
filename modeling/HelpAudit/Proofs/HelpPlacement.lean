import Mathlib.Data.List.Nodup
import HelpAudit.CommentHelp.Reader
import HelpAudit.Proofs.SourceRanges
import HelpAudit.Proofs.ReadNodes

/-! Where the help of a function is looked for: the comments that end right before its keyword, the
    ones its body starts with and the ones its body ends with. The runs of comments are stated here
    by what they are (one block comment, or line comments on successive lines) and by how far they
    reach; the search for them, from either end, is shown to find exactly these. When the run at the
    start of a body meets the one at its end, both are the same run. -/

namespace HelpAudit

/-! ### Runs of comments -/

/-- Line comments with one newline between each two. -/
inductive IsLineRun : List Token → Prop where
  | one {t} : t.kind = .comment .line → IsLineRun [t]
  | more {t n run} : t.kind = .comment .line → n.kind = .newline → IsLineRun run →
    IsLineRun (t :: n :: run)

/-- One block comment, or a run of line comments. -/
def IsCommentRun (run : List Token) : Prop :=
  (∃ t, t.kind = .comment .block ∧ run = [t]) ∨ IsLineRun run

/-- The run cannot be continued into the tokens behind it. -/
def ReachesForth (run back : List Token) : Prop :=
  IsCommentRun run ∧ ∀ more, more <+: back → more ≠ [] → ¬ IsCommentRun (run ++ more)

/-- The run cannot be continued into the tokens before it. -/
def ReachesBack (front run : List Token) : Prop :=
  IsCommentRun run ∧ ∀ more, more <:+ front → more ≠ [] → ¬ IsCommentRun (more ++ run)

/-- Newlines and nothing else. -/
def AllNewlines (ts : List Token) : Prop := ∀ t ∈ ts, t.kind = .newline

theorem AllNewlines.reverse {ts : List Token} (h : AllNewlines ts) : AllNewlines ts.reverse :=
  fun t ht => h t (List.mem_reverse.mp ht)

section Runs

variable {run more front back : List Token} {c : Token} {a b : List Token}

namespace IsLineRun

theorem head {t : Token} {ts : List Token} (h : IsLineRun (t :: ts)) : t.kind = .comment .line := by
  cases h with
  | one ht => exact ht
  | more ht _ _ => exact ht

theorem ne_nil (h : IsLineRun run) : run ≠ [] := by
  rintro rfl
  cases h

theorem mem (h : IsLineRun run) : ∀ t ∈ run, t.kind = .newline ∨ t.kind = .comment .line := by
  induction h with
  | one ht => simp [ht]
  | more ht hn _ ih =>
    intro u hu
    rcases List.mem_cons.mp hu with rfl | hu
    · exact .inr ht
    rcases List.mem_cons.mp hu with rfl | hu
    · exact .inl hn
    · exact ih u hu

theorem concat (h : IsLineRun run) {n u : Token} (hn : n.kind = .newline)
    (hu : u.kind = .comment .line) : IsLineRun (run ++ [n, u]) := by
  induction h with
  | one ht => exact .more ht hn (.one hu)
  | more ht hn' _ ih => exact .more ht hn' ih

theorem reverse (h : IsLineRun run) : IsLineRun run.reverse := by
  induction h with
  | one ht => exact .one ht
  | more ht hn _ ih =>
    rw [List.reverse_cons, List.reverse_cons, List.append_assoc]
    exact ih.concat hn ht

/-- A run goes on with a newline and a line comment. -/
theorem continued (h : IsLineRun run) (h' : IsLineRun (run ++ more)) :
    more = [] ∨ ∃ n u rest, more = n :: u :: rest ∧ n.kind = .newline ∧ u.kind = .comment .line := by
  induction h with
  | one _ =>
    cases h' with
    | one _ => exact .inl rfl
    | more _ hn hrest =>
      cases hrest with
      | one hu => exact .inr ⟨_, _, _, rfl, hn, hu⟩
      | more hu _ _ => exact .inr ⟨_, _, _, rfl, hn, hu⟩
  | more _ _ _ ih =>
    cases h' with
    | more _ _ hrest => exact ih hrest

/-- No run ends with newlines. -/
theorem eq_nil_of_newlines (h : IsLineRun run) (h' : IsLineRun (run ++ more)) (hmore : AllNewlines more) :
    more = [] := by
  rcases h.continued h' with hnil | ⟨n, u, rest, rfl, -, hu⟩
  · exact hnil
  · have hnewline := hmore u (by simp)
    rw [hu] at hnewline
    cases hnewline

/-- Two runs of which one ends with the comment that the other starts with are one run. -/
theorem glue (h : IsLineRun (a ++ [c])) (h' : IsLineRun (c :: b)) : IsLineRun (a ++ c :: b) := by
  generalize hsplit : a ++ [c] = run at h
  induction h generalizing a with
  | one _ =>
    cases a with
    | nil => exact h'
    | cons x a => simp at hsplit
  | more ht hn hrun ih =>
    rcases a with _ | ⟨x, _ | ⟨y, a⟩⟩
    · simp at hsplit
    · simp only [List.cons_append, List.nil_append, List.cons.injEq] at hsplit
      exact absurd hsplit.2.2.symm hrun.ne_nil
    · simp only [List.cons_append, List.cons.injEq] at hsplit
      obtain ⟨rfl, rfl, hrest⟩ := hsplit
      exact .more ht hn (ih hrest)

/-- A run is two runs that meet in any of its comments. -/
theorem cut (h : IsLineRun (a ++ c :: b)) (hc : c.kind = .comment .line) :
    IsLineRun (a ++ [c]) ∧ IsLineRun (c :: b) := by
  generalize hsplit : a ++ c :: b = run at h
  induction h generalizing a with
  | one ht =>
    cases a with
    | nil =>
      obtain ⟨rfl, rfl⟩ := List.cons.inj hsplit
      exact ⟨.one ht, .one ht⟩
    | cons x a => simp at hsplit
  | more ht hn hrun ih =>
    rcases a with _ | ⟨x, _ | ⟨y, a⟩⟩
    · obtain ⟨rfl, rfl⟩ := List.cons.inj hsplit
      exact ⟨.one ht, .more ht hn hrun⟩
    · -- the comment would stand where the newline stands
      simp only [List.cons_append, List.nil_append, List.cons.injEq] at hsplit
      rw [hsplit.2.1, hn] at hc
      cases hc
    · simp only [List.cons_append, List.cons.injEq] at hsplit
      obtain ⟨rfl, rfl, hrest⟩ := hsplit
      obtain ⟨hleft, hright⟩ := ih hrest
      exact ⟨.more ht hn hleft, hright⟩

end IsLineRun

namespace IsCommentRun

theorem exists_head (h : IsCommentRun run) : ∃ t ts, run = t :: ts ∧ t.kind.isComment = true := by
  rcases h with ⟨t, ht, rfl⟩ | h
  · exact ⟨t, [], rfl, by rw [ht]; rfl⟩
  · cases h with
    | one ht => exact ⟨_, [], rfl, by rw [ht]; rfl⟩
    | more ht _ _ => exact ⟨_, _, rfl, by rw [ht]; rfl⟩

theorem ne_nil (h : IsCommentRun run) : run ≠ [] := by
  obtain ⟨t, ts, rfl, -⟩ := h.exists_head
  exact List.cons_ne_nil t ts

theorem mem (h : IsCommentRun run) : ∀ t ∈ run, t.kind = .newline ∨ t.kind.isComment = true := by
  intro t ht
  rcases h with ⟨u, hu, rfl⟩ | h
  · obtain rfl := List.mem_singleton.mp ht
    exact .inr (by rw [hu]; rfl)
  · rcases h.mem t ht with hkind | hkind
    · exact .inl hkind
    · exact .inr (by rw [hkind]; rfl)

theorem reverse (h : IsCommentRun run) : IsCommentRun run.reverse := by
  rcases h with ⟨t, ht, rfl⟩ | h
  · exact .inl ⟨t, ht, rfl⟩
  · exact .inr h.reverse

theorem of_reverse (h : IsCommentRun run.reverse) : IsCommentRun run := by
  have hrun := h.reverse
  rwa [List.reverse_reverse] at hrun

/-- A run of more than one token has line comments only. -/
theorem isLineRun (h : IsCommentRun (run ++ more)) (hrun : run ≠ []) (hmore : more ≠ []) :
    IsLineRun (run ++ more) := by
  rcases h with ⟨t, -, hsplit⟩ | h
  · have hlength := congrArg List.length hsplit
    have hpos := List.length_pos_iff.mpr hrun
    have hpos' := List.length_pos_iff.mpr hmore
    simp only [List.length_append, List.length_singleton] at hlength
    omega
  · exact h

theorem eq_singleton (h : IsCommentRun run) (hc : c.kind = .comment .block) (hmem : c ∈ run) :
    run = [c] := by
  rcases h with ⟨t, -, rfl⟩ | h
  · rw [List.mem_singleton.mp hmem]
  · rcases h.mem c hmem with hkind | hkind <;> rw [hc] at hkind <;> cases hkind

theorem isLineRun_of_mem (h : IsCommentRun run) (hc : c.kind = .comment .line) (hmem : c ∈ run) :
    IsLineRun run := by
  rcases h with ⟨t, ht, rfl⟩ | h
  · obtain rfl := List.mem_singleton.mp hmem
    rw [hc] at ht
    cases ht
  · exact h

end IsCommentRun

theorem reachesBack_iff : ReachesBack front run ↔ ReachesForth run.reverse front.reverse := by
  constructor
  · rintro ⟨hrun, hmax⟩
    refine ⟨hrun.reverse, fun more hmore hne h => ?_⟩
    refine hmax more.reverse ?_ (by simpa using hne) (.of_reverse (by simpa using h))
    rwa [← List.reverse_prefix, List.reverse_reverse]
  · rintro ⟨hrun, hmax⟩
    refine ⟨.of_reverse hrun, fun more hmore hne h => ?_⟩
    refine hmax more.reverse (List.reverse_prefix.mpr hmore) (by simpa using hne) ?_
    rw [← List.reverse_append]
    exact h.reverse

/-- A token that is neither a comment nor a newline stops every run. -/
theorem ReachesForth.before (h : ReachesForth run back) {t : Token} {ts : List Token}
    (hnewline : t.kind ≠ .newline) (hcomment : t.kind.isComment = false) :
    ReachesForth run (back ++ t :: ts) := by
  refine ⟨h.1, fun more hmore hne hrun => ?_⟩
  rcases List.prefix_or_prefix_of_prefix hmore (List.prefix_append back _) with hshort | ⟨rest, rfl⟩
  · exact h.2 more hshort hne hrun
  · rw [List.prefix_append_right_inj] at hmore
    cases rest with
    | nil => exact h.2 back (List.prefix_refl _) (by simpa using hne) (by simpa using hrun)
    | cons u rest =>
      obtain ⟨rfl, -⟩ := List.cons_prefix_cons.mp hmore
      rcases hrun.mem u (by simp) with hkind | hkind
      · exact hnewline hkind
      · rw [hcomment] at hkind
        cases hkind

theorem ReachesBack.behind (h : ReachesBack front run) {t : Token} {ts : List Token}
    (hnewline : t.kind ≠ .newline) (hcomment : t.kind.isComment = false) :
    ReachesBack (ts ++ t :: front) run := by
  rw [reachesBack_iff] at h ⊢
  rw [List.reverse_append, List.reverse_cons, List.append_assoc]
  exact h.before hnewline hcomment

theorem ReachesForth.unique {run' back' : List Token} (h : ReachesForth run back)
    (h' : ReachesForth run' back') (hsplit : run ++ back = run' ++ back') : run = run' := by
  rcases List.append_eq_append_iff.mp hsplit with ⟨more, rfl, hback⟩ | ⟨more, rfl, hback⟩
  · by_contra hne
    refine h.2 more (hback ▸ List.prefix_append ..) ?_ h'.1
    rintro rfl
    exact hne (List.append_nil run).symm
  · by_contra hne
    refine h'.2 more (hback ▸ List.prefix_append ..) ?_ h.1
    rintro rfl
    exact hne (List.append_nil run')

/-! ### A run at the start and a run at the end -/

/-- A run that reaches forth as far as it can ends where a run with the same comment ends, if only
    newlines follow that. -/
theorem tails_eq {r s gap : List Token} (hr : ReachesForth (a ++ c :: r) back)
    (hrun : IsLineRun (a ++ c :: r)) (hc : c.kind = .comment .line) (hs : IsLineRun (c :: s))
    (hgap : AllNewlines gap) (hsplit : r ++ back = s ++ gap) : r = s := by
  obtain ⟨hleft, hright⟩ := hrun.cut hc
  rcases List.append_eq_append_iff.mp hsplit with ⟨more, rfl, hback⟩ | ⟨more, rfl, hrest⟩
  · have hlonger : IsLineRun (a ++ c :: r ++ more) := by simpa using hleft.glue hs
    by_contra hne
    refine hr.2 more (hback ▸ List.prefix_append ..) ?_ (.inr hlonger)
    rintro rfl
    exact hne (List.append_nil r).symm
  · have hnewlines : AllNewlines more := fun t ht => hgap t (hrest ▸ List.mem_append_left back ht)
    rw [hs.eq_nil_of_newlines hright hnewlines, List.append_nil]

section Ends

variable {gap r s gap' : List Token} (hsplit : gap ++ (r ++ back) = front ++ (s ++ gap'))
  (hgap : AllNewlines gap) (hgap' : AllNewlines gap') (hr : ReachesForth r back)
  (hs : ReachesBack front s)

include hsplit hgap hgap' hr hs in
/-- A run after newlines and a run before newlines that have a comment in common are the same. -/
theorem runs_eq_of_shared (hnodup : (gap ++ (r ++ back)).Nodup) (hc : c.kind.isComment = true)
    (hcr : c ∈ r) (hcs : c ∈ s) : r = s := by
  obtain hblock | hline : c.kind = .comment .block ∨ c.kind = .comment .line := by
    cases hkind : c.kind with
    | comment style => cases style <;> simp
    | _ => rw [hkind] at hc; cases hc
  · rw [hr.1.eq_singleton hblock hcr, hs.1.eq_singleton hblock hcs]
  have hrun := hr.1.isLineRun_of_mem hline hcr
  have hrun' := hs.1.isLineRun_of_mem hline hcs
  obtain ⟨r₁, r₂, rfl⟩ := List.append_of_mem hcr
  obtain ⟨s₁, s₂, rfl⟩ := List.append_of_mem hcs
  -- the comment stands at one place only, so the tokens on each side of it agree
  have hnodup' : ((gap ++ r₁) ++ c :: (r₂ ++ back)).Nodup := by simpa using hnodup
  have hmem := (List.nodup_middle.mp hnodup').notMem
  rw [List.mem_append, not_or] at hmem
  have hmiddle : (gap ++ r₁) ++ c :: (r₂ ++ back) = (front ++ s₁) ++ c :: (s₂ ++ gap') := by
    simpa using hsplit
  obtain ⟨hleft, -, hright⟩ := (List.append_cons_inj_of_notMem hmem.1 hmem.2).mp hmiddle
  have htail : r₂ = s₂ := tails_eq hr hrun hline (hrun'.cut hline).2 hgap' hright
  have hforth : ReachesForth (s₂.reverse ++ c :: s₁.reverse) front.reverse := by
    simpa using reachesBack_iff.mp hs
  have hleft' : s₁.reverse ++ front.reverse = r₁.reverse ++ gap.reverse := by
    simpa using (congrArg List.reverse hleft).symm
  have hinit : s₁.reverse = r₁.reverse := by
    refine tails_eq hforth ?_ hline ?_ hgap.reverse hleft'
    · simpa using hrun'.reverse
    · simpa using (hrun.cut hline).1.reverse
  rw [htail, List.reverse_injective hinit]

include hsplit hgap hs in
/-- Without a common comment, the run after newlines ends before the other one starts. -/
theorem runs_apart (hapart : ∀ c, c.kind.isComment = true → c ∈ r → c ∉ s) :
    ∃ mid, front = gap ++ (r ++ mid) := by
  rw [← List.append_assoc] at hsplit
  rcases List.append_eq_append_iff.mp hsplit with ⟨mid, hfront, -⟩ | ⟨mid, hinside, hrest⟩
  · exact ⟨mid, by rw [hfront, List.append_assoc]⟩
  · cases mid with
    | nil => exact ⟨[], by simpa using hinside.symm⟩
    | cons x mid =>
      -- then the comment that `s` starts with stands in `r`
      obtain ⟨t, ts, rfl, ht⟩ := hs.1.exists_head
      obtain ⟨rfl, -⟩ := List.cons.inj hrest
      have hx : t ∈ gap ++ r := by simp [hinside]
      rcases List.mem_append.mp hx with hx | hx
      · rw [hgap t hx] at ht
        cases ht
      · exact absurd List.mem_cons_self (hapart t ht hx)

end Ends

end Runs

/-! ### The search for a run -/

section Search

variable {ts run : List Token}

/-- From a line comment on, the run of line comments is found whole. -/
theorem lineCommentRun_spec (ts : List Token) (hts : ∃ t rest, ts = t :: rest ∧ t.kind = .comment .line) :
    ∃ back, ts = lineCommentRun ts ++ back ∧ IsLineRun (lineCommentRun ts) ∧
      ∀ n u rest, back = n :: u :: rest → n.kind = .newline → u.kind ≠ .comment .line := by
  fun_induction lineCommentRun ts with
  | case1 t n u ts hnext ih =>
    obtain ⟨_, _, ⟨rfl, rfl⟩, ht⟩ := hts
    obtain ⟨back, hsplit, hrun, hstop⟩ := ih ⟨u, ts, rfl, hnext.2⟩
    exact ⟨back, by rw [List.cons_append, List.cons_append, ← hsplit], .more ht hnext.1 hrun, hstop⟩
  | case2 t n u ts hnext =>
    obtain ⟨_, _, ⟨rfl, rfl⟩, ht⟩ := hts
    refine ⟨n :: u :: ts, rfl, .one ht, ?_⟩
    rintro n u rest ⟨rfl, rfl, rfl⟩ hn hu
    exact hnext ⟨hn, hu⟩
  | case3 t ts hshort =>
    obtain ⟨_, _, ⟨rfl, rfl⟩, ht⟩ := hts
    exact ⟨ts, rfl, .one ht, fun n u rest hrest => absurd hrest (hshort n u rest)⟩
  | case4 =>
    obtain ⟨_, _, hnil, -⟩ := hts
    cases hnil

/-- The search from a start finds a run that cannot be made longer. -/
theorem reachesForth_of_commentRun? (h : commentRun? ts = some run) :
    ∃ back, ts = run ++ back ∧ ReachesForth run back := by
  cases ts with
  | nil => cases h
  | cons t ts =>
    rw [commentRun?] at h
    split at h
    · rename_i hkind
      cases h
      refine ⟨ts, rfl, .inl ⟨t, hkind, rfl⟩, fun more _ hne hrun => ?_⟩
      -- a block comment is complete: a longer run would have line comments only
      have hline := (hrun.isLineRun (List.cons_ne_nil _ _) hne).head
      rw [hkind] at hline
      cases hline
    · rename_i hkind
      cases h
      obtain ⟨back, hsplit, hrun, hstop⟩ := lineCommentRun_spec (t :: ts) ⟨t, ts, rfl, hkind⟩
      refine ⟨back, hsplit, .inr hrun, fun more hmore hne hlonger => ?_⟩
      rcases hrun.continued (hlonger.isLineRun hrun.ne_nil hne) with hnil | ⟨n, u, rest, rfl, hn, hu⟩
      · exact hne hnil
      · obtain ⟨rest', rfl⟩ := hmore
        exact hstop n u (rest ++ rest') (by simp) hn hu
    · cases h

/-- The run found is the one that the tokens start with and that reaches as far as it can. -/
theorem commentRun?_eq_some :
    commentRun? ts = some run ↔ ∃ back, ts = run ++ back ∧ ReachesForth run back := by
  constructor
  · exact reachesForth_of_commentRun?
  · rintro ⟨back, rfl, h⟩
    obtain ⟨t, rest, rfl, ht⟩ := h.1.exists_head
    obtain ⟨run', hrun'⟩ : ∃ run', commentRun? (t :: rest ++ back) = some run' := by
      rw [List.cons_append, commentRun?]
      split
      · exact ⟨_, rfl⟩
      · exact ⟨_, rfl⟩
      · rename_i hblock hline
        cases hkind : t.kind with
        | comment style =>
          cases style with
          | block => exact absurd hkind hblock
          | line => exact absurd hkind hline
        | _ => rw [hkind] at ht; cases ht
    obtain ⟨back', hsplit, h'⟩ := reachesForth_of_commentRun? hrun'
    rw [hrun', h.unique h' hsplit]

/-- The run that follows newlines. -/
def leadingRun? (ts : List Token) : Option (List Token) :=
  commentRun? (ts.dropWhile (·.kind = .newline))

/-- The run that newlines follow. -/
def trailingRun? (ts : List Token) : Option (List Token) :=
  (leadingRun? ts.reverse).map List.reverse

theorem newlines_span {gap back : List Token} (hgap : AllNewlines gap) (hrun : IsCommentRun run) :
    (gap ++ (run ++ back)).takeWhile (·.kind = .newline) = gap ∧
      (gap ++ (run ++ back)).dropWhile (·.kind = .newline) = run ++ back := by
  have hall : ∀ t ∈ gap, decide (t.kind = .newline) = true := fun t ht => decide_eq_true (hgap t ht)
  obtain ⟨t, rest, rfl, ht⟩ := hrun.exists_head
  have hnot : t.kind ≠ .newline := by
    intro hkind
    rw [hkind] at ht
    cases ht
  rw [List.takeWhile_append_of_pos hall, List.dropWhile_append_of_pos hall]
  simp [hnot]

theorem leadingRun?_eq_some : leadingRun? ts = some run ↔
    ∃ gap back, ts = gap ++ (run ++ back) ∧ AllNewlines gap ∧ ReachesForth run back := by
  rw [leadingRun?, commentRun?_eq_some]
  constructor
  · rintro ⟨back, hsplit, h⟩
    refine ⟨ts.takeWhile (·.kind = .newline), back, ?_, fun t ht => ?_, h⟩
    · rw [← hsplit, List.takeWhile_append_dropWhile]
    · simpa using List.all_eq_true.mp List.all_takeWhile t ht
  · rintro ⟨gap, back, rfl, hgap, h⟩
    exact ⟨back, (newlines_span hgap h.1).2, h⟩

/-- The search at the end finds the run before the last line ends, as far back as it goes. -/
theorem trailingRun?_eq_some : trailingRun? ts = some run ↔
    ∃ front gap, ts = front ++ (run ++ gap) ∧ AllNewlines gap ∧ ReachesBack front run := by
  rw [trailingRun?, Option.map_eq_some_iff]
  constructor
  · rintro ⟨run', hrun', rfl⟩
    obtain ⟨gap, back, hsplit, hgap, h⟩ := leadingRun?_eq_some.mp hrun'
    refine ⟨back.reverse, gap.reverse, ?_, hgap.reverse, ?_⟩
    · rw [← List.reverse_append, ← List.reverse_append, List.append_assoc, ← hsplit, List.reverse_reverse]
    · rw [reachesBack_iff, List.reverse_reverse, List.reverse_reverse]
      exact h
  · rintro ⟨front, gap, rfl, hgap, h⟩
    exact ⟨run.reverse, leadingRun?_eq_some.mpr ⟨gap.reverse, front.reverse, by simp, hgap.reverse,
      reachesBack_iff.mp h⟩, List.reverse_reverse run⟩

/-- The newlines counted from the end are those behind the run. -/
theorem newlineCount_reverse {front gap : List Token} (hgap : AllNewlines gap) (hrun : IsCommentRun run) :
    newlineCount (front ++ (run ++ gap)).reverse = gap.length := by
  rw [newlineCount, List.reverse_append, List.reverse_append, List.append_assoc,
    (newlines_span hgap.reverse hrun.reverse).1, List.length_reverse]

end Search

/-! ### The runs of a function -/

/-- The tokens of a script cut at a function: those before its keyword, those from the keyword to the
    opening brace of its body, those between the braces and those behind. -/
structure FunctionTokens where
  before : List Token
  keyword : Token
  head : List Token
  opener : Token
  body : List Token
  close : Token
  after : List Token

namespace FunctionTokens

/-- The tokens of the script are cut at the keyword and the braces of this function. -/
structure Spell (p : FunctionTokens) (script : Script) (f : FunctionDefinition) : Prop where
  tokens : script.tokens =
    p.before ++ p.keyword :: (p.head ++ p.opener :: (p.body ++ p.close :: p.after))
  keyword_kind : p.keyword.kind = .keyword (.declare f.kind)
  opener_kind : p.opener.kind = .opening .brace
  close_kind : p.close.kind = .closing .brace
  extent : f.extent = script.extent p.keyword.start p.close.stop
  body_extent : f.body.extent = script.extent p.opener.start p.close.stop

/-- The run ends at most two newlines before the keyword. -/
def IsAbove (p : FunctionTokens) (run : List Token) : Prop :=
  ∃ front gap, p.before = front ++ (run ++ gap) ∧ AllNewlines gap ∧ gap.length ≤ 2 ∧
    ReachesBack front run

/-- The body starts with the run, newlines apart. -/
def IsTop (p : FunctionTokens) (run : List Token) : Prop :=
  ∃ gap back, p.body = gap ++ (run ++ back) ∧ AllNewlines gap ∧
    ReachesForth run (back ++ p.close :: p.after)

/-- The body ends with the run, newlines apart. -/
def IsBottom (p : FunctionTokens) (run : List Token) : Prop :=
  ∃ front gap, p.body = front ++ (run ++ gap) ∧ AllNewlines gap ∧
    ReachesBack (p.before ++ p.keyword :: (p.head ++ p.opener :: front)) run

end FunctionTokens

/-- The runs of comments in which the help of a function is looked for. The two in the body are the
    same if they have a comment in common. -/
structure HelpRuns (p : FunctionTokens) where
  above : Option (List Token)
  top : Option (List Token)
  bottom : Option (List Token)
  above_iff : ∀ run, above = some run ↔ p.IsAbove run
  top_iff : ∀ run, top = some run ↔ p.IsTop run
  bottom_iff : ∀ run, bottom = some run ↔ p.IsBottom run
  eq_of_shared : ∀ r s c, top = some r → bottom = some s → c.kind.isComment = true → c ∈ r → c ∈ s →
    r = s

/-- The runs in the order of the script; the one that is both first and last in the body once. -/
def HelpRuns.listed {p : FunctionTokens} (runs : HelpRuns p) : List (List Token) :=
  runs.above.toList ++ (runs.top.toList ++ if runs.bottom = runs.top then [] else runs.bottom.toList)

/-- The groups are those of the runs. They stand one after the other in the script and have no comment
    in common. -/
structure HelpRuns.Yield {p : FunctionTokens} (runs : HelpRuns p) (script : Script)
    (groups : List CommentGroup) : Prop where
  groups_eq : groups = runs.listed.map (commentGroup script)
  disjoint : runs.listed.Pairwise List.Disjoint
  nonempty : ∀ group ∈ groups, group.extent.startOffset < group.extent.endOffset
  ordered : groups.Pairwise fun group next => group.extent.endOffset ≤ next.extent.startOffset

namespace FunctionTokens

variable {p : FunctionTokens} {script : Script} {f : FunctionDefinition}

/-- The run searched for before the keyword. -/
def above? (p : FunctionTokens) : Option (List Token) :=
  if newlineCount p.before.reverse ≤ 2 then trailingRun? p.before else none

/-- The search above a function finds the run that ends right before it, at most one line end apart. -/
theorem above?_eq_some {run : List Token} : p.above? = some run ↔ p.IsAbove run := by
  rw [above?]
  constructor
  · intro h
    split at h
    · rename_i hcount
      obtain ⟨front, gap, hsplit, hgap, hrun⟩ := trailingRun?_eq_some.mp h
      rw [hsplit, newlineCount_reverse hgap hrun.1] at hcount
      exact ⟨front, gap, hsplit, hgap, hcount, hrun⟩
    · cases h
  · rintro ⟨front, gap, hsplit, hgap, hcount, hrun⟩
    rw [if_pos (by rwa [hsplit, newlineCount_reverse hgap hrun.1])]
    exact trailingRun?_eq_some.mpr ⟨front, gap, hsplit, hgap, hrun⟩

theorem Spell.top_iff (h : p.Spell script f) (run : List Token) :
    leadingRun? p.body = some run ↔ p.IsTop run := by
  rw [leadingRun?_eq_some]
  constructor
  · rintro ⟨gap, back, hsplit, hgap, hrun⟩
    exact ⟨gap, back, hsplit, hgap,
      hrun.before (by simp [h.close_kind]) (by simp [h.close_kind, TokenKind.isComment])⟩
  · rintro ⟨gap, back, hsplit, hgap, hrun⟩
    exact ⟨gap, back, hsplit, hgap, hrun.1, fun more hmore =>
      hrun.2 more (hmore.trans (List.prefix_append ..))⟩

/-- The search at the end of a body finds its bottom run. -/
theorem Spell.bottom_iff (h : p.Spell script f) (run : List Token) :
    trailingRun? p.body = some run ↔ p.IsBottom run := by
  rw [trailingRun?_eq_some]
  have hassoc (front : List Token) : p.before ++ p.keyword :: (p.head ++ p.opener :: front) =
      (p.before ++ p.keyword :: p.head) ++ p.opener :: front := by simp
  constructor
  · rintro ⟨front, gap, hsplit, hgap, hrun⟩
    refine ⟨front, gap, hsplit, hgap, ?_⟩
    rw [hassoc]
    exact hrun.behind (by simp [h.opener_kind]) (by simp [h.opener_kind, TokenKind.isComment])
  · rintro ⟨front, gap, hsplit, hgap, hrun⟩
    rw [hassoc] at hrun
    exact ⟨front, gap, hsplit, hgap, hrun.1, fun more hmore =>
      hrun.2 more (hmore.trans ((List.suffix_cons ..).trans (List.suffix_append ..)))⟩

end FunctionTokens

theorem FunctionTokens.body_sublist (p : FunctionTokens) : p.body.Sublist
    (p.keyword :: (p.head ++ p.opener :: (p.body ++ p.close :: p.after))) :=
  ((List.sublist_append_left p.body _).cons p.opener).trans
    ((List.sublist_append_right p.head _).cons p.keyword)

theorem Script.IsPlaced.nodup {script : Script} (hp : script.IsPlaced) : script.tokens.Nodup := by
  refine hp.spaced.imp_of_mem fun {t u} ht _ hle heq => ?_
  have hlt := (hp.standsIn t ht).nonempty
  rw [← heq] at hle
  omega

namespace FunctionTokens.Spell

variable {p : FunctionTokens} {script : Script} {f : FunctionDefinition} (hp : script.IsPlaced)
  (h : p.Spell script f)

include hp h in
theorem body_nodup : p.body.Nodup := by
  have hnodup := hp.nodup
  rw [h.tokens] at hnodup
  exact (hnodup.sublist (List.sublist_append_right ..)).sublist p.body_sublist

/-- The runs that are searched for. -/
def runs : HelpRuns p where
  above := p.above?
  top := leadingRun? p.body
  bottom := trailingRun? p.body
  above_iff _ := above?_eq_some
  top_iff := h.top_iff
  bottom_iff := h.bottom_iff
  eq_of_shared := by
    intro r s c hr hs hc hcr hcs
    obtain ⟨gap, back, hsplit, hgap, hr⟩ := leadingRun?_eq_some.mp hr
    obtain ⟨front, gap', hsplit', hgap', hs⟩ := trailingRun?_eq_some.mp hs
    have hnodup := h.body_nodup hp
    rw [hsplit] at hnodup
    exact runs_eq_of_shared (hsplit.symm.trans hsplit') hgap hgap' hr hs hnodup hc hcr hcs

/-- The runs of a body stand in it one after the other, unless they are one. -/
theorem body_runs_sublist :
    ((h.runs hp).top.toList ++ if (h.runs hp).bottom = (h.runs hp).top then [] else
      (h.runs hp).bottom.toList).flatten.Sublist p.body := by
  cases htop : (h.runs hp).top with
  | none =>
    cases hbottom : (h.runs hp).bottom with
    | none => simp
    | some s =>
      obtain ⟨front, gap, hsplit, -⟩ := trailingRun?_eq_some.mp hbottom
      simp [hsplit]
  | some r =>
    obtain ⟨gap, back, hsplit, hgap, hr⟩ := leadingRun?_eq_some.mp htop
    cases hbottom : (h.runs hp).bottom with
    | none => simp [hsplit]
    | some s =>
      -- two different runs share no comment, so the later one stands behind the earlier one
      by_cases heq : s = r
      · simp [heq, hsplit]
      · obtain ⟨front, gap', hsplit', hgap', hs⟩ := trailingRun?_eq_some.mp hbottom
        obtain ⟨mid, rfl⟩ := runs_apart (hsplit.symm.trans hsplit') hgap hs fun c hc hcr hcs =>
          heq ((h.runs hp).eq_of_shared r s c htop hbottom hc hcr hcs).symm
        have hbody : p.body = gap ++ (r ++ (mid ++ (s ++ gap'))) := by simpa using hsplit'
        have hlater : s.Sublist (mid ++ (s ++ gap')) :=
          (List.sublist_append_left s gap').trans (List.sublist_append_right mid _)
        simpa [heq, hbody] using
          ((List.Sublist.refl r).append hlater).trans (List.sublist_append_right gap _)

/-- The runs follow each other in the script. -/
theorem listed_sublist : (h.runs hp).listed.flatten.Sublist script.tokens := by
  have habove : (h.runs hp).above.toList.flatten.Sublist p.before := by
    cases habove : (h.runs hp).above with
    | none => simp
    | some run =>
      obtain ⟨front, gap, hsplit, -⟩ := above?_eq_some.mp habove
      simp [hsplit]
  rw [h.tokens, HelpRuns.listed, List.flatten_append]
  exact habove.append ((h.body_runs_sublist hp).trans p.body_sublist)

end FunctionTokens.Spell

/-! ### The groups of a function -/

section Groups

variable {script : Script} (hp : script.IsPlaced) {r s : List Token}

include hp

/-- A group stands from the start of the first to the end of the last token of its run. -/
theorem commentGroup_offsets (hr : r.Sublist script.tokens) (hne : r ≠ []) : ∃ first ∈ r, ∃ last ∈ r,
    (commentGroup script r).extent.startOffset = first.start ∧
      (commentGroup script r).extent.endOffset = last.stop ∧ first.start < last.stop := by
  cases r with
  | nil => exact absurd rfl hne
  | cons first ts =>
    obtain ⟨last, hlast⟩ : ∃ last, (first :: ts).getLast? = some last :=
      ⟨_, List.getLast?_eq_some_getLast hne⟩
    have hmem := List.mem_of_getLast? hlast
    have hfirst := hp.standsIn first (hr.subset List.mem_cons_self)
    have hstands := hp.standsIn last (hr.subset hmem)
    refine ⟨first, List.mem_cons_self, last, hmem, ?_, ?_, ?_⟩
    · simp [commentGroup, Script.extent_startOffset hfirst.start_boundary]
    · simp [commentGroup, hlast, Script.extent_endOffset hstands.stop_boundary]
    · have hlt := hfirst.nonempty
      rcases List.mem_cons.mp hmem with rfl | hmem
      · exact hlt
      · have hspaced : Spaced (first :: ts) := hp.spaced.sublist hr
        have hle := (List.pairwise_cons.mp hspaced).1 last hmem
        have hlt' := hstands.nonempty
        omega

end Groups

theorem trailingGroup?_reverse (script : Script) (ts : List Token) :
    trailingGroup? script ts.reverse = (trailingRun? ts).map (commentGroup script) := by
  rw [trailingGroup?, trailingRun?, leadingRun?, Option.map_map]
  rfl

theorem FunctionTokens.above?_groups (script : Script) (p : FunctionTokens) :
    (if newlineCount p.before.reverse ≤ 2 then (trailingGroup? script p.before.reverse).toList else []) =
      p.above?.toList.map (commentGroup script) := by
  rw [above?, trailingGroup?_reverse]
  split
  · cases trailingRun? p.before <;> rfl
  · rfl

namespace FunctionTokens.Spell

variable {p : FunctionTokens} {script : Script} {f : FunctionDefinition} (hp : script.IsPlaced)
  (h : p.Spell script f)

theorem isCommentRun_of_mem {run : List Token} (hmem : run ∈ (h.runs hp).listed) : IsCommentRun run := by
  rw [HelpRuns.listed, List.mem_append, List.mem_append] at hmem
  rcases hmem with hmem | hmem | hmem
  · obtain ⟨_, _, _, _, _, hrun⟩ := above?_eq_some.mp (Option.mem_toList.mp hmem)
    exact hrun.1
  · obtain ⟨_, _, _, _, hrun⟩ := leadingRun?_eq_some.mp (Option.mem_toList.mp hmem)
    exact hrun.1
  · split at hmem
    · cases hmem
    · obtain ⟨_, _, _, _, hrun⟩ := trailingRun?_eq_some.mp (Option.mem_toList.mp hmem)
      exact hrun.1

theorem group_offsets {run : List Token} (hmem : run ∈ (h.runs hp).listed) :
    ∃ first ∈ run, ∃ last ∈ run, (commentGroup script run).extent.startOffset = first.start ∧
      (commentGroup script run).extent.endOffset = last.stop ∧ first.start < last.stop :=
  commentGroup_offsets hp ((List.sublist_flatten_of_mem hmem).trans (h.listed_sublist hp))
    (h.isCommentRun_of_mem hp hmem).ne_nil

/-- No group is empty. -/
theorem group_nonempty {run : List Token} (hmem : run ∈ (h.runs hp).listed) :
    (commentGroup script run).extent.startOffset < (commentGroup script run).extent.endOffset := by
  obtain ⟨first, -, last, -, hstart, hend, hlt⟩ := h.group_offsets hp hmem
  rwa [hstart, hend]

/-- Every token of a run ends before the tokens of the next one start. -/
theorem listed_spaced :
    (h.runs hp).listed.Pairwise fun r s => ∀ a ∈ r, ∀ b ∈ s, a.stop ≤ b.start :=
  (List.pairwise_flatten.mp (hp.spaced.sublist (h.listed_sublist hp))).2

theorem listed_disjoint : (h.runs hp).listed.Pairwise List.Disjoint :=
  (List.nodup_flatten.mp (hp.nodup.sublist (h.listed_sublist hp))).2

theorem groups_ordered : (h.runs hp).listed.Pairwise fun r s =>
    (commentGroup script r).extent.endOffset ≤ (commentGroup script s).extent.startOffset := by
  refine (h.listed_spaced hp).imp_of_mem fun {r s} hr hs hspaced => ?_
  obtain ⟨_, -, last, hlast, -, hend, -⟩ := h.group_offsets hp hr
  obtain ⟨first, hfirst, _, -, hstart, -, -⟩ := h.group_offsets hp hs
  rw [hend, hstart]
  exact hspaced last hlast first hfirst

theorem listed_of_ne {run : List Token} (hbottom : trailingRun? p.body = some run)
    (hne : leadingRun? p.body ≠ some run) :
    (h.runs hp).listed = (p.above?.toList ++ (leadingRun? p.body).toList) ++ [run] := by
  simp [HelpRuns.listed, runs, hne.symm, hbottom]

include hp h in
/-- A run at the end of the body has the group of an earlier run only if it is the first one of the
    body too. -/
theorem bottom_group_mem {run : List Token} (hbottom : trailingRun? p.body = some run) :
    commentGroup script run ∈
        (p.above?.toList ++ (leadingRun? p.body).toList).map (commentGroup script) ↔
      leadingRun? p.body = some run := by
  constructor
  · intro hmem
    by_contra hne
    -- as a run of its own it would start behind the end of every earlier one
    have hlisted := h.listed_of_ne hp hbottom hne
    obtain ⟨earlier, hearlier, heq⟩ := List.mem_map.mp hmem
    have hordered := h.groups_ordered hp
    have hlt := h.group_nonempty hp (hlisted ▸ List.mem_append_left [run] hearlier)
    rw [hlisted] at hordered
    have hle := (List.pairwise_append.mp hordered).2.2 earlier hearlier run List.mem_cons_self
    rw [heq] at hlt hle
    omega
  · intro htop
    exact List.mem_map_of_mem (by simp [htop])

/-- The groups found are those of the runs. -/
theorem helpComments_eq :
    helpComments script p.before p.body = (h.runs hp).listed.map (commentGroup script) := by
  have hgroups : p.above?.toList.map (commentGroup script) ++ (leadingGroup? script p.body).toList =
      (p.above?.toList ++ (leadingRun? p.body).toList).map (commentGroup script) := by
    rw [List.map_append, leadingGroup?, ← leadingRun?]
    cases leadingRun? p.body <;> rfl
  rw [helpComments, above?_groups, trailingGroup?_reverse, hgroups]
  rcases Option.eq_none_or_eq_some (trailingRun? p.body) with hbottom | ⟨run, hbottom⟩
  · simp [HelpRuns.listed, runs, hbottom]
  · simp only [hbottom, Option.map_some, h.bottom_group_mem hp hbottom]
    by_cases htop : leadingRun? p.body = some run
    · simp [HelpRuns.listed, runs, hbottom, htop]
    · simp [htop, h.listed_of_ne hp hbottom htop]

/-- The comments of a function are the groups of its runs. -/
theorem yield : (h.runs hp).Yield script (helpComments script p.before p.body) := by
  rw [h.helpComments_eq hp]
  refine ⟨rfl, h.listed_disjoint hp, fun group hgroup => ?_, ?_⟩
  · obtain ⟨run, hrun, rfl⟩ := List.mem_map.mp hgroup
    exact h.group_nonempty hp hrun
  · rw [List.pairwise_map]
    exact h.groups_ordered hp

end FunctionTokens.Spell

/-! ### The functions of a script -/

/-- The tokens of a function that was read, and the parts in which its comments are looked for. -/
theorem ReadsFunction.exists_spell {script : Script} {kind : FunctionKind} {keyword : Token}
    {ts rest : List Token} {f : FunctionDefinition} (h : ReadsFunction script kind keyword ts f rest)
    (hkind : keyword.kind = .keyword (.declare kind)) (hts : keyword :: ts <:+ script.tokens) :
    ∃ p : FunctionTokens, p.Spell script f ∧ f.helpComments = helpComments script p.before p.body := by
  obtain ⟨before, hbefore⟩ := hts
  cases h with
  | @mk _ _ name ts parameters opener inner body _ hname hparameters hbrace hbody =>
    obtain ⟨head, hhead⟩ := inlineParameters_suffix hparameters
    obtain ⟨used, close, rfl, hclose, hextent⟩ := hbody.split
    refine ⟨⟨before, keyword, name :: head, opener, used, close, rest⟩,
      ⟨?_, hkind, hbrace, hclose, functionOf_extent .., hextent⟩, ?_⟩
    · rw [← hbefore, ← hhead]
      rfl
    · have hcut : script.before (keyword :: name :: ts) = before := by
        rw [Script.before, ← hbefore]
        exact take_consumed before _
      have hconsumed := take_consumed (used ++ [close]) rest
      rw [List.append_assoc, List.singleton_append] at hconsumed
      simp only [functionOf, hcut, hconsumed, List.dropLast_concat]

/-- In the tree of a source, the comment groups of every function are those of the run right before
    its keyword, of the run its body starts with and of the run its body ends with. -/
theorem parse_help_placement {source : String} {file : Option String} {root : ScriptBlock}
    (h : parse source file = .ok root) : ∃ tokens,
      tokenize (withoutMark source.toList) = .ok tokens ∧
      ∀ f, Node.functionDefinition f ∈ (Node.scriptBlock root).preorder →
        ∃ p : FunctionTokens, p.Spell ⟨withoutMark source.toList, file, tokens⟩ f ∧
          ∃ runs : HelpRuns p, runs.Yield ⟨withoutMark source.toList, file, tokens⟩ f.helpComments := by
  obtain ⟨tokens, htokens, hread⟩ := parse_eq_ok h
  have hp := tokenize_isPlaced file htokens
  refine ⟨tokens, htokens, fun f hmem => ?_⟩
  have hall : ∀ n ∈ (Node.scriptBlock root).preorder, n = .scriptBlock root ∨
      n.IsRead ⟨withoutMark source.toList, file, tokens⟩ := Node.forall_mem_preorder.mpr
    ⟨.inl rfl, fun child hchild n hn => .inr (hread.allRead (List.suffix_refl _) child hchild n hn)⟩
  rcases hall _ hmem with hroot | ⟨kind, keyword, ts, rest, hts, hkind, hfunction⟩
  · cases hroot
  obtain ⟨p, hspell, hcomments⟩ := hfunction.exists_spell hkind hts
  exact ⟨p, hspell, hspell.runs hp, hcomments ▸ hspell.yield hp⟩

/-- A function with a comment in each of the three places, and one whose only run is both its first and its
    last. -/
theorem parse_help_placement_three :
    let source := "# a\n\nfunction f \x7b <# b #>\n1 # c\n# d\n\x7d\nfilter g \x7b\n# e\n# h\n\n\x7d"
    ∃ root, parse source none = .ok root ∧
      ((Node.scriptBlock root).functions.map fun f => f.helpComments.map (·.comments)) =
        [[["# a"], ["<# b #>"], ["# c", "# d"]], [["# e", "# h"]]] ∧
      ∃ tokens, tokenize (withoutMark source.toList) = .ok tokens ∧
        ∀ f, Node.functionDefinition f ∈ (Node.scriptBlock root).preorder →
          ∃ p : FunctionTokens, p.Spell ⟨withoutMark source.toList, none, tokens⟩ f ∧
            ∃ runs : HelpRuns p, runs.Yield ⟨withoutMark source.toList, none, tokens⟩ f.helpComments := by
  intro source
  obtain ⟨root, h, hgroups⟩ := exists_ok_of_any (x := parse source none)
    (p := fun root => ((Node.scriptBlock root).functions.map fun f => f.helpComments.map (·.comments)) ==
      [[["# a"], ["<# b #>"], ["# c", "# d"]], [["# e", "# h"]]]) (by decide +kernel)
  exact ⟨root, h, eq_of_beq hgroups, parse_help_placement h⟩

end HelpAudit
