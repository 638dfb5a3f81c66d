import HelpAudit.Proofs.NodeOrder
import HelpAudit.Rule.ParameterDocumentation

/-! What the rule about undocumented parameters reports. Names with the same upper-case form are one
    parameter. For each function the rule reports every parameter that the help does not name: once,
    under its first spelling, and in the order of first spellings. The functions come in pre-order, and
    each takes from the evaluator's answers as many as it has `dynamicparam` blocks. A function that starts
    in the last column has no column for a correction, so a finding about it breaks the run off. -/

namespace HelpAudit.ParameterDocumentation

/-! ### First spellings -/

/-- `name` stands at place `i`, and no name before it has the same upper-case form. -/
def IsFirstSpelling (names : List String) (i : Nat) (name : String) : Prop :=
  names[i]? = some name ∧
    ∀ j < i, ∀ other, names[j]? = some other → Text.upper other ≠ Text.upper name

theorem isFirstSpelling_zero {names : List String} {head name : String} :
    IsFirstSpelling (head :: names) 0 name ↔ head = name := by
  simp [IsFirstSpelling]

/-- A later place keeps its first spelling behind one more name of another form. -/
theorem isFirstSpelling_succ {names : List String} {head name : String} {i : Nat} :
    IsFirstSpelling (head :: names) (i + 1) name ↔
      Text.upper head ≠ Text.upper name ∧ IsFirstSpelling names i name := by
  constructor
  · rintro ⟨hat, hbefore⟩
    refine ⟨hbefore 0 (Nat.succ_pos i) head rfl, hat, fun j hj other ho => ?_⟩
    exact hbefore (j + 1) (Nat.succ_lt_succ hj) other ho
  · rintro ⟨hne, hat, hbefore⟩
    refine ⟨hat, fun j hj other ho => ?_⟩
    cases j with
    | zero => obtain rfl : head = other := by simpa using ho
              exact hne
    | succ j => exact hbefore j (Nat.lt_of_succ_lt_succ hj) other ho

/-- Places in a list of names as places in the list with one more name at its head. -/
def shifted (places : List (Nat × String)) : List (Nat × String) := places.map fun p => (p.1 + 1, p.2)

theorem pairwise_shifted {places : List (Nat × String)} (h : places.Pairwise fun a b => a.1 < b.1) :
    (shifted places).Pairwise fun a b => a.1 < b.1 := List.pairwise_map.mpr (h.imp Nat.succ_lt_succ)

theorem zero_not_mem_shifted (places : List (Nat × String)) (name : String) :
    (0, name) ∉ shifted places := by
  simp [shifted]

theorem succ_mem_shifted {places : List (Nat × String)} {i : Nat} {name : String} :
    (i + 1, name) ∈ shifted places ↔ (i, name) ∈ places := by
  simp [shifted]

theorem map_snd_shifted (places : List (Nat × String)) :
    (shifted places).map (·.2) = places.map (·.2) := by
  rw [shifted, List.map_map]
  rfl

/-- The spellings kept by `firstSpellings` with their places, which increase. -/
theorem firstSpellings_places : ∀ (names seen : List String), ∃ places : List (Nat × String),
    places.Pairwise (fun a b => a.1 < b.1) ∧
    (∀ i name, (i, name) ∈ places ↔ IsFirstSpelling names i name ∧ Text.upper name ∉ seen) ∧
    firstSpellings seen names = places.map (·.2)
  | [], seen => ⟨[], .nil, by simp [IsFirstSpelling], rfl⟩
  | head :: names, seen => by
    by_cases hseen : Text.upper head ∈ seen
    · -- a form that was seen before is dropped, and the others move one place on
      obtain ⟨places, hsorted, hmem, hkept⟩ := firstSpellings_places names seen
      refine ⟨shifted places, pairwise_shifted hsorted, fun i name => ?_, ?_⟩
      · cases i with
        | zero =>
          refine iff_of_false (zero_not_mem_shifted places name) ?_
          rintro ⟨hfirst, hnew⟩
          obtain rfl := isFirstSpelling_zero.mp hfirst
          exact hnew hseen
        | succ i =>
          rw [succ_mem_shifted, hmem, isFirstSpelling_succ]
          constructor
          · rintro ⟨hfirst, hnew⟩
            exact ⟨⟨fun heq => hnew (heq ▸ hseen), hfirst⟩, hnew⟩
          · rintro ⟨⟨-, hfirst⟩, hnew⟩
            exact ⟨hfirst, hnew⟩
      · rw [firstSpellings, if_pos hseen, hkept, map_snd_shifted]
    · obtain ⟨places, hsorted, hmem, hkept⟩ :=
        -- a new form is kept, and counts as seen from here on
        firstSpellings_places names (Text.upper head :: seen)
      refine ⟨(0, head) :: shifted places, ?_, fun i name => ?_, ?_⟩
      · refine List.pairwise_cons.mpr ⟨fun p hp => ?_, pairwise_shifted hsorted⟩
        obtain ⟨q, _, rfl⟩ := List.mem_map.mp hp
        exact Nat.succ_pos q.1
      · cases i with
        | zero =>
          simp only [List.mem_cons, Prod.mk.injEq, true_and, zero_not_mem_shifted, or_false,
            isFirstSpelling_zero]
          exact ⟨fun h => ⟨h.symm, h ▸ hseen⟩, fun h => h.1.symm⟩
        | succ i =>
          simp only [List.mem_cons, Prod.mk.injEq, Nat.succ_ne_zero, false_and, false_or,
            succ_mem_shifted, hmem, isFirstSpelling_succ, not_or]
          constructor
          · rintro ⟨hfirst, hne, hnew⟩
            exact ⟨⟨Ne.symm hne, hfirst⟩, hnew⟩
          · rintro ⟨⟨hne, hfirst⟩, hnew⟩
            exact ⟨hfirst, Ne.symm hne, hnew⟩
      · rw [firstSpellings, if_neg hseen, hkept, List.map_cons, map_snd_shifted]

/-- The loop of `eraseDupsBy` keeps first spellings, in front of those it has kept before. -/
theorem eraseDupsBy_loop : ∀ names kept : List String,
    List.eraseDupsBy.loop (fun a b => Text.upper a == Text.upper b) names kept =
      kept.reverse ++ firstSpellings (kept.map Text.upper) names
  | [], kept => by rw [List.eraseDupsBy.loop, firstSpellings, List.append_nil]
  | name :: names, kept => by
    have hany : kept.any (fun b => Text.upper name == Text.upper b) = true ↔
        Text.upper name ∈ kept.map Text.upper := by
      rw [List.any_eq_true, List.mem_map]
      exact exists_congr fun b => and_congr_right fun _ => beq_iff_eq.trans eq_comm
    rw [List.eraseDupsBy.loop, firstSpellings]
    split
    · rename_i hseen
      rw [if_pos (hany.mp hseen), eraseDupsBy_loop names kept]
    · rename_i hseen
      rw [if_neg (mt hany.mpr (by rw [hseen]; exact Bool.false_ne_true)),
        eraseDupsBy_loop names (name :: kept), List.reverse_cons, List.append_assoc]
      rfl

/-- The first spellings are the names without those that repeat an upper-case form. -/
theorem firstSpellings_eq_eraseDupsBy (names : List String) :
    firstSpellings [] names = names.eraseDupsBy fun a b => Text.upper a == Text.upper b :=
  (eraseDupsBy_loop names []).symm

/-- Every name has the upper-case form of a first spelling. -/
theorem exists_firstSpelling {names : List String} {name : String} (h : name ∈ names) :
    ∃ i first, IsFirstSpelling names i first ∧ Text.upper first = Text.upper name := by
  induction names with
  | nil => simp at h
  | cons head names ih =>
    by_cases hsame : Text.upper head = Text.upper name
    · exact ⟨0, head, isFirstSpelling_zero.mpr rfl, hsame⟩
    · have htail : name ∈ names := by
        rcases List.mem_cons.mp h with rfl | h
        · exact absurd rfl hsame
        · exact h
      obtain ⟨i, first, hfirst, hform⟩ := ih htail
      exact ⟨i + 1, first, isFirstSpelling_succ.mpr ⟨hform ▸ hsame, hfirst⟩, hform⟩

theorem IsFirstSpelling.eq_of_upper {names : List String} {i j : Nat} {a b : String}
    (ha : IsFirstSpelling names i a) (hb : IsFirstSpelling names j b)
    (h : Text.upper a = Text.upper b) : i = j := by
  rcases Nat.lt_trichotomy i j with hij | hij | hij
  · exact absurd h (hb.2 i hij a ha.1)
  · exact hij
  · exact absurd h.symm (ha.2 j hij b hb.1)

/-! ### Corrections -/

section Corrections

variable (f : FunctionDefinition) (file : Option String)

/-- There is a column for the correction of a finding about the function. -/
def Correctable : Prop := f.extent.startColumn + 1 < Json.wordLimit

instance : Decidable (Correctable f) := inferInstanceAs (Decidable (_ < _))

/-- The correction, whatever the column is. -/
def suggested : Correction where
  startLine := f.extent.startLine
  endLine := f.extent.endLine
  startColumn := f.extent.startColumn + 1
  endColumn := f.extent.endColumn
  text := ""
  file := f.extent.file
  description := "Add parameter documentation"

/-- The finding with that correction. -/
def noted (parameter : String) : Diagnostic where
  message := message parameter
  extent := f.extent
  ruleName := info.name
  severity := info.severity.toSeverity
  scriptPath := file
  functionName := some f.name
  subject := some parameter
  corrections := [suggested f]

variable {f}

/-- Before the last column there is a correction. -/
theorem correction_of_correctable (h : Correctable f) : correction f = .ok (suggested f) := by
  have hnext : nextColumn f.extent.startColumn = .ok (f.extent.startColumn + 1) := if_pos h
  rw [correction, hnext]
  rfl

theorem correction_overflow (h : ¬ Correctable f) : correction f = .error .overflow := by
  have hnext : nextColumn f.extent.startColumn = .error .overflow := if_neg h
  rw [correction, hnext]
  rfl

variable {file}

theorem finding_of_correctable (h : Correctable f) (parameter : String) :
    finding f file parameter = .ok (noted f file parameter) := by
  rw [finding, correction_of_correctable h]
  rfl

theorem finding_overflow (h : ¬ Correctable f) (parameter : String) :
    finding f file parameter = .error .overflow := by
  rw [finding, correction_overflow h]
  rfl

/-- All findings about a function can be made, or none. -/
theorem mapM_finding (names : List String) : names.mapM (finding f file) =
    if names = [] ∨ Correctable f then .ok (names.map (noted f file)) else .error .overflow := by
  induction names with
  | nil => rfl
  | cons name names ih =>
    by_cases h : Correctable f
    · rw [List.mapM_cons, ih, if_pos (.inr h), if_pos (.inr h), finding_of_correctable h]
      rfl
    · rw [List.mapM_cons, finding_overflow h, if_neg (by simp [h])]
      rfl

theorem mapM_finding_eq_ok {names : List String} {found : List Diagnostic}
    (h : names.mapM (finding f file) = .ok found) : found = names.map (noted f file) := by
  rw [mapM_finding] at h
  split at h <;> cases h
  rfl

/-- Of findings that can be made, some can be made. -/
theorem mapM_finding_of_sublist {names others : List String} {found : List Diagnostic}
    (h : others.Sublist names) (hfound : names.mapM (finding f file) = .ok found) :
    others.mapM (finding f file) = .ok (others.map (noted f file)) := by
  rw [mapM_finding] at hfound ⊢
  split at hfound
  · rename_i hdue
    exact if_pos (hdue.imp_left fun hnil => List.sublist_nil.mp (hnil ▸ h))
  · cases hfound

end Corrections

/-! ### The findings about one function -/

/-- The upper-case names that the help of a function documents. -/
def documentedKeys (f : FunctionDefinition) : List String := f.help.parameters.map (·.1)

theorem documents_iff (help : CommentHelp) (name : String) :
    help.documents name = true ↔ Text.upper name ∈ help.parameters.map (·.1) := by
  simp [CommentHelp.documents, CommentHelp.parameter?, List.lookup_isSome_iff]

/-- The findings about a function whose parameters have the given names, repetitions included. -/
structure Reports (f : FunctionDefinition) (file : Option String) (names : List String)
    (found : List Diagnostic) : Prop where
  /-- One finding for each first spelling that is not documented, in the order of the names. -/
  first : ∃ places : List (Nat × String), places.Pairwise (fun a b => a.1 < b.1) ∧
    (∀ i name, (i, name) ∈ places ↔
      IsFirstSpelling names i name ∧ Text.upper name ∉ documentedKeys f) ∧
    (places.mapM fun p => finding f file p.2) = .ok found
  /-- Each finding stands at the function and names it. -/
  placed : ∀ d ∈ found, d.extent = f.extent ∧ d.functionName = some f.name
  /-- No documented name is reported. -/
  sound : ∀ d ∈ found, ∀ name, d.subject = some name →
    name ∈ names ∧ Text.upper name ∉ documentedKeys f
  /-- No undocumented name is missed. -/
  complete : ∀ name ∈ names, Text.upper name ∉ documentedKeys f →
    ∃ d ∈ found, ∃ subject, d.subject = some subject ∧ Text.upper subject = Text.upper name
  /-- No two subjects have the same upper-case form. -/
  distinct : (found.map fun d => d.subject.map Text.upper).Nodup

/-- The de-duplicated and filtered names are exactly the ones to report. -/
theorem reports_undocumented {f : FunctionDefinition} {file : Option String} {names : List String}
    {found : List Diagnostic}
    (h : (undocumented (firstSpellings [] names) f.help).mapM (finding f file) = .ok found) :
    Reports f file names found := by
  obtain ⟨places, hsorted, hmem, hkept⟩ := firstSpellings_places names []
  -- the places of the undocumented first spellings serve all four parts
  have hplaces : ∀ i name, (i, name) ∈ places.filter (fun p => !f.help.documents p.2) ↔
      IsFirstSpelling names i name ∧ Text.upper name ∉ documentedKeys f := by
    intro i name
    simp [List.mem_filter, hmem, documentedKeys, ← documents_iff]
  have hnames : undocumented (firstSpellings [] names) f.help =
      (places.filter fun p => !f.help.documents p.2).map (·.2) := by
    rw [undocumented, hkept, List.filter_map]
    rfl
  have hfound : found = (places.filter fun p => !f.help.documents p.2).map fun p => noted f file p.2 := by
    rw [mapM_finding_eq_ok h, hnames, List.map_map]
    rfl
  rw [hnames, List.mapM_map] at h
  refine ⟨⟨_, hsorted.filter _, hplaces, h⟩, ?_, ?_, ?_, ?_⟩
  · intro d hd
    rw [hfound] at hd
    obtain ⟨p, _, rfl⟩ := List.mem_map.mp hd
    exact ⟨rfl, rfl⟩
  · intro d hd name hsubject
    rw [hfound] at hd
    obtain ⟨⟨i, subject⟩, hp, rfl⟩ := List.mem_map.mp hd
    obtain rfl : subject = name := by simpa [noted] using hsubject
    obtain ⟨hfirst, hundocumented⟩ := (hplaces _ _).mp hp
    exact ⟨List.mem_of_getElem? hfirst.1, hundocumented⟩
  · intro name hname hundocumented
    rw [hfound]
    obtain ⟨i, first, hfirst, hform⟩ := exists_firstSpelling hname
    refine ⟨noted f file first, List.mem_map.mpr ⟨(i, first), ?_, rfl⟩, first, rfl, hform⟩
    exact (hplaces _ _).mpr ⟨hfirst, hform ▸ hundocumented⟩
  · -- two findings with one form would be the first spelling of one parameter at two places
    rw [hfound, List.map_map, List.Nodup, List.pairwise_map]
    refine (hsorted.filter _).imp_of_mem fun {a b} ha hb hlt heq => ?_
    have hform : Text.upper a.2 = Text.upper b.2 := by simpa [noted] using heq
    exact Nat.ne_of_lt hlt (((hplaces _ _).mp ha).1.eq_of_upper ((hplaces _ _).mp hb).1 hform)

/-- A finding about the function is due, and there is no column for its correction. -/
def Overflows (f : FunctionDefinition) (names : List String) : Prop :=
  ¬ Correctable f ∧ ∃ name ∈ names, Text.upper name ∉ documentedKeys f

/-- Something is left to report exactly if some name is not documented. -/
theorem undocumented_ne_nil {f : FunctionDefinition} {names : List String} :
    undocumented (firstSpellings [] names) f.help ≠ [] ↔
      ∃ name ∈ names, Text.upper name ∉ documentedKeys f := by
  have hmem : ∀ name, name ∈ undocumented (firstSpellings [] names) f.help ↔
      name ∈ firstSpellings [] names ∧ Text.upper name ∉ documentedKeys f := by
    intro name
    simp [undocumented, documentedKeys, ← documents_iff]
  obtain ⟨places, -, hplaces, hkept⟩ := firstSpellings_places names []
  constructor
  · intro hne
    obtain ⟨name, hname⟩ := List.exists_mem_of_ne_nil _ hne
    obtain ⟨hfirst, hkey⟩ := (hmem name).mp hname
    rw [hkept] at hfirst
    obtain ⟨⟨i, _⟩, hplace, rfl⟩ := List.mem_map.mp hfirst
    exact ⟨_, List.mem_of_getElem? ((hplaces _ _).mp hplace).1.1, hkey⟩
  · rintro ⟨name, hname, hkey⟩
    obtain ⟨i, first, hfirst, hform⟩ := exists_firstSpelling hname
    refine List.ne_nil_of_mem ((hmem first).mpr ⟨?_, hform ▸ hkey⟩)
    rw [hkept]
    exact List.mem_map.mpr ⟨(i, first), (hplaces _ _).mpr ⟨hfirst, List.not_mem_nil⟩, rfl⟩

/-- The check of a function ends with findings or overflows. -/
theorem mapM_finding_undocumented (f : FunctionDefinition) (file : Option String) (names : List String) :
    (¬ Overflows f names ∧ ∃ found,
      (undocumented (firstSpellings [] names) f.help).mapM (finding f file) = .ok found) ∨
    (Overflows f names ∧
      (undocumented (firstSpellings [] names) f.help).mapM (finding f file) = .error .overflow) := by
  rw [mapM_finding, Overflows, ← undocumented_ne_nil]
  split
  · rename_i h
    exact .inl ⟨fun hover => h.elim hover.2 hover.1, _, rfl⟩
  · rename_i h
    exact .inr ⟨⟨fun hfits => h (.inr hfits), fun hnil => h (.inl hnil)⟩, rfl⟩

/-! ### The evaluator's answers -/

/-- The answers to scripts that are evaluated one after the other, when those in `previous` have been
    evaluated before. -/
def answersTo (evaluator : Evaluator) (previous : List String) : List String → List Answer
  | [] => []
  | script :: scripts =>
    evaluator.answer previous script :: answersTo evaluator (previous ++ [script]) scripts

theorem length_answersTo (evaluator : Evaluator) : ∀ (scripts previous : List String),
    (answersTo evaluator previous scripts).length = scripts.length
  | [], _ => rfl
  | _ :: scripts, _ => congrArg (· + 1) (length_answersTo evaluator scripts _)

/-- Answers come script by script, each with the scripts before it. -/
theorem answersTo_append (evaluator : Evaluator) : ∀ (first second previous : List String),
    answersTo evaluator previous (first ++ second) =
      answersTo evaluator previous first ++ answersTo evaluator (previous ++ first) second
  | [], second, previous => by rw [List.nil_append, List.append_nil]; rfl
  | script :: first, second, previous => by
    rw [List.cons_append, answersTo, answersTo, answersTo_append evaluator first second,
      List.append_assoc, List.singleton_append, List.cons_append]

/-- The names in an answer, none when the evaluation failed. -/
def namesIn : Answer → List String
  | .ok names => names
  | .error _ => []

theorem run_bind {α β : Type} (x : StateM (List String) α) (f : α → StateM (List String) β)
    (previous : List String) :
    (x >>= f).run previous = (f (x.run previous).1).run (x.run previous).2 := rfl

theorem blockNames_run (evaluator : Evaluator) (block : NamedBlock) (previous : List String) :
    (blockNames evaluator block).run previous =
      (namesIn (evaluator.answer previous block.dynamicScript), previous ++ [block.dynamicScript]) := by
  simp only [blockNames, Evaluator.evaluate, StateT.run, bind, StateT.bind]
  cases evaluator.answer previous block.dynamicScript <;> rfl

/-- Evaluating blocks in order asks for one answer per block. -/
theorem mapM_blockNames_run (evaluator : Evaluator) : ∀ (blocks : List NamedBlock)
    (previous : List String), (blocks.mapM (blockNames evaluator)).run previous =
      ((answersTo evaluator previous (blocks.map (·.dynamicScript))).map namesIn,
        previous ++ blocks.map (·.dynamicScript))
  | [], previous => by rw [List.map_nil, List.append_nil]; rfl
  | block :: blocks, previous => by
    rw [List.mapM_cons, run_bind, run_bind, blockNames_run, mapM_blockNames_run evaluator blocks,
      List.append_assoc]
    rfl

theorem dynamicNames_run (evaluator : Evaluator) (f : FunctionDefinition) (previous : List String) :
    (dynamicNames evaluator f).run previous =
      ((answersTo evaluator previous ((dynamicBlocks f).map (·.dynamicScript))).flatMap namesIn,
        previous ++ (dynamicBlocks f).map (·.dynamicScript)) := by
  rw [dynamicNames, run_bind, mapM_blockNames_run]
  rfl

/-! ### The findings about a script -/

/-- The function definitions of a script in pre-order. -/
def functionsIn (root : ScriptBlock) : List FunctionDefinition :=
  (Node.scriptBlock root).preorder.filterMap fun
    | .functionDefinition f => some f
    | _ => none

/-- The names declared in a function: in parentheses after its name, then in the parameter blocks
    anywhere below it in pre-order. -/
def namesDeclaredIn (f : FunctionDefinition) : List String :=
  (f.parameters.getD []).map (·.name) ++
    ((Node.functionDefinition f).preorder.flatMap fun
      | .paramBlock block => block.parameters.map (·.name)
      | _ => [])

/-- The scripts of the `dynamicparam` blocks anywhere below a function in pre-order. -/
def dynamicScriptsIn (f : FunctionDefinition) : List String :=
  (Node.functionDefinition f).preorder.flatMap fun
    | .namedBlock block => if block.kind = .dynamicParamBlock then [block.dynamicScript] else []
    | _ => []

theorem functions_eq (root : ScriptBlock) : (Node.scriptBlock root).functions = functionsIn root := by
  rw [Node.functions, Node.visited_true]
  rfl

theorem declaredNames_eq (f : FunctionDefinition) : declaredNames f = namesDeclaredIn f := by
  rw [declaredNames, Node.visited_true, namesDeclaredIn, List.map_append, List.map_flatMap]
  refine congrArg _ ?_
  induction (Node.functionDefinition f).preorder with
  | nil => rfl
  | cons node nodes ih => cases node <;> simp [ih]

theorem dynamicScripts_eq (f : FunctionDefinition) :
    (dynamicBlocks f).map (·.dynamicScript) = dynamicScriptsIn f := by
  rw [dynamicBlocks, Node.visited_true, dynamicScriptsIn]
  induction (Node.functionDefinition f).preorder with
  | nil => rfl
  | cons node nodes ih =>
    cases node with
    | namedBlock block => by_cases h : block.kind = .dynamicParamBlock <;> simp [h, ih]
    | _ => simp [ih]

/-- The names of a function's parameters, repetitions included, when the scripts in `previous` have been
    evaluated before. -/
def namesAfter (evaluator : Evaluator) (previous : List String) (f : FunctionDefinition) : List String :=
  namesDeclaredIn f ++ (answersTo evaluator previous (dynamicScriptsIn f)).flatMap namesIn

/-- What is found about one function, and the scripts evaluated by then. -/
theorem checkFunction_run (evaluator : Evaluator) (file : Option String) (f : FunctionDefinition)
    (previous : List String) : (checkFunction evaluator file f).run previous =
      ((undocumented (firstSpellings [] (namesAfter evaluator previous f)) f.help).mapM (finding f file),
        previous ++ dynamicScriptsIn f) := by
  rw [checkFunction, parameterNames, run_bind, run_bind, dynamicNames_run, declaredNames_eq,
    dynamicScripts_eq]
  rfl

/-- The findings about functions, each of which takes as many answers as it has scripts to evaluate. -/
inductive ReportsAll (file : Option String) :
    List FunctionDefinition → List Answer → List Diagnostic → Prop where
  | nil : ReportsAll file [] [] []
  | cons {f fs answers rest found others} :
    answers.length = (dynamicScriptsIn f).length →
    Reports f file (namesDeclaredIn f ++ answers.flatMap namesIn) found →
    ReportsAll file fs rest others →
    ReportsAll file (f :: fs) (answers ++ rest) (found ++ others)

/-- Among the functions that are checked after the scripts in `previous` is one that overflows. -/
def SomeOverflows (evaluator : Evaluator) (previous : List String) (fs : List FunctionDefinition) : Prop :=
  ∃ before f after, fs = before ++ f :: after ∧
    Overflows f (namesAfter evaluator (previous ++ before.flatMap dynamicScriptsIn) f)

theorem not_someOverflows_nil (evaluator : Evaluator) (previous : List String) :
    ¬ SomeOverflows evaluator previous [] := by
  rintro ⟨before, f, after, hnil, -⟩
  exact List.append_ne_nil_of_right_ne_nil before (List.cons_ne_nil f after) hnil.symm

/-- Some function of a list overflows: the first one, or one of the others after its scripts. -/
theorem someOverflows_cons {evaluator : Evaluator} {previous : List String} {f : FunctionDefinition}
    {fs : List FunctionDefinition} : SomeOverflows evaluator previous (f :: fs) ↔
      Overflows f (namesAfter evaluator previous f) ∨
        SomeOverflows evaluator (previous ++ dynamicScriptsIn f) fs := by
  constructor
  · rintro ⟨before, g, after, hsplit, hover⟩
    cases before with
    | nil =>
      cases hsplit
      rw [List.flatMap_nil, List.append_nil] at hover
      exact .inl hover
    | cons _ before =>
      cases hsplit
      rw [List.flatMap_cons, ← List.append_assoc] at hover
      exact .inr ⟨before, g, after, rfl, hover⟩
  · rintro (hover | ⟨before, g, after, rfl, hover⟩)
    · exact ⟨[], f, fs, rfl, by rwa [List.flatMap_nil, List.append_nil]⟩
    · exact ⟨f :: before, g, after, rfl, by rwa [List.flatMap_cons, ← List.append_assoc]⟩

/-- Where every function can be corrected, none overflows. -/
theorem not_someOverflows {evaluator : Evaluator} {previous : List String} {fs : List FunctionDefinition}
    (h : ∀ f ∈ fs, Correctable f) : ¬ SomeOverflows evaluator previous fs := by
  rintro ⟨before, f, after, rfl, hover, -⟩
  exact hover (h f (List.mem_append_right before List.mem_cons_self))

section Cons

variable {evaluator : Evaluator} {file : Option String} {f : FunctionDefinition} {previous : List String}

theorem checkFunctions_run_ok {found : List Diagnostic} (fs : List FunctionDefinition)
    (h : (undocumented (firstSpellings [] (namesAfter evaluator previous f)) f.help).mapM
      (finding f file) = .ok found) :
    (checkFunctions evaluator file (f :: fs)).run previous =
      let rest := (checkFunctions evaluator file fs).run (previous ++ dynamicScriptsIn f)
      (rest.1.map (found ++ ·), rest.2) := by
  rw [checkFunctions, run_bind, checkFunction_run, h]
  rfl

theorem checkFunctions_run_error {failure : Failure} (fs : List FunctionDefinition)
    (h : (undocumented (firstSpellings [] (namesAfter evaluator previous f)) f.help).mapM
      (finding f file) = .error failure) :
    (checkFunctions evaluator file (f :: fs)).run previous =
      (.error failure, previous ++ dynamicScriptsIn f) := by
  rw [checkFunctions, run_bind, checkFunction_run, h]
  rfl

end Cons

/-- The checks of functions end with all findings, or at the first function that overflows. -/
theorem checkFunctions_run (evaluator : Evaluator) (file : Option String) :
    ∀ (fs : List FunctionDefinition) (previous : List String),
    (¬ SomeOverflows evaluator previous fs ∧ ∃ findings,
      ((checkFunctions evaluator file fs).run previous).1 = .ok findings ∧
      ReportsAll file fs (answersTo evaluator previous (fs.flatMap dynamicScriptsIn)) findings) ∨
    (SomeOverflows evaluator previous fs ∧
      ((checkFunctions evaluator file fs).run previous).1 = .error .overflow)
  | [], previous => .inl ⟨not_someOverflows_nil evaluator previous, [], rfl, .nil⟩
  | f :: fs, previous => by
    rw [someOverflows_cons, List.flatMap_cons, answersTo_append]
    rcases mapM_finding_undocumented f file (namesAfter evaluator previous f) with
      ⟨hfits, found, hfound⟩ | ⟨hover, hfound⟩
    · -- the functions that follow go on with the answers after those of `f`
      rw [checkFunctions_run_ok fs hfound]
      rcases checkFunctions_run evaluator file fs (previous ++ dynamicScriptsIn f) with
        ⟨hrest, others, hothers, hreports⟩ | ⟨hrest, hothers⟩
      · refine .inl ⟨not_or.mpr ⟨hfits, hrest⟩, found ++ others, ?_, ?_⟩
        · simp only [hothers]
          rfl
        · exact .cons (length_answersTo ..) (reports_undocumented hfound) hreports
      · refine .inr ⟨.inr hrest, ?_⟩
        simp only [hothers]
        rfl
    · rw [checkFunctions_run_error fs hfound]
      exact .inr ⟨.inl hover, rfl⟩

section Outcome

variable {evaluator : Evaluator} {root : ScriptBlock} (file : Option String)

theorem rule_outcome_eq : ((rule evaluator).run root file).outcome =
    ((checkFunctions evaluator file (functionsIn root)).run []).1 := by
  rw [← functions_eq]
  rfl

theorem rule_outcome_of_not_someOverflows (h : ¬ SomeOverflows evaluator [] (functionsIn root)) :
    ∃ findings, ((rule evaluator).run root file).outcome = .ok findings ∧
      ReportsAll file (functionsIn root)
        (answersTo evaluator [] ((functionsIn root).flatMap dynamicScriptsIn)) findings := by
  rw [rule_outcome_eq]
  exact ((checkFunctions_run evaluator file (functionsIn root) []).resolve_right fun hover => h hover.1).2

theorem rule_outcome_of_someOverflows (h : SomeOverflows evaluator [] (functionsIn root)) :
    ((rule evaluator).run root file).outcome = .error .overflow := by
  rw [rule_outcome_eq]
  exact ((checkFunctions_run evaluator file (functionsIn root) []).resolve_left fun hfits => hfits.1 h).2

end Outcome

/-- The rule ends with findings, unless one is due about a function that starts in the last column: then it
    breaks off. The findings are, function by function in pre-order, one for each first spelling that the
    function's help does not document. -/
theorem rule_reports_first_undocumented_spellings (evaluator : Evaluator) (root : ScriptBlock)
    (file : Option String) :
    (¬ SomeOverflows evaluator [] (functionsIn root) →
      ∃ findings, ((rule evaluator).run root file).outcome = .ok findings ∧
        ReportsAll file (functionsIn root)
          (answersTo evaluator [] ((functionsIn root).flatMap dynamicScriptsIn)) findings) ∧
    (SomeOverflows evaluator [] (functionsIn root) →
      ((rule evaluator).run root file).outcome = .error .overflow) :=
  ⟨rule_outcome_of_not_someOverflows file, rule_outcome_of_someOverflows file⟩

/-- A script with one function, which starts in the column and has a parameter but no help. -/
def scriptAt (column : Nat) : ScriptBlock :=
  let extent : Extent := ⟨none, 1, column, 1, column, 0, 0, ""⟩
  ⟨extent, none, [⟨.endBlock, true, extent,
    [.function ⟨"f", .function, extent, some [⟨"p", extent, [], none, []⟩], ⟨extent, none, []⟩, []⟩]⟩]⟩

/-- In the last column but one the undocumented parameter is reported. -/
theorem rule_reports_first_undocumented_spellings_last_but_one :
    let root := scriptAt 18446744073709551614
    ¬ SomeOverflows .disabled [] (functionsIn root) ∧
    ∃ findings, ((rule .disabled).run root none).outcome = .ok findings ∧
      ReportsAll none (functionsIn root)
        (answersTo .disabled [] ((functionsIn root).flatMap dynamicScriptsIn)) findings ∧
      findings.map (·.subject) = [some "p"] := by
  intro root
  have hfits : ¬ SomeOverflows .disabled [] (functionsIn root) := by
    refine not_someOverflows ?_
    rw [← functions_eq]
    exact List.forall_mem_singleton.mpr (by decide)
  obtain ⟨findings, hfindings, hreports⟩ :=
    (rule_reports_first_undocumented_spellings .disabled root none).1 hfits
  refine ⟨hfits, findings, hfindings, hreports, ?_⟩
  have hsubjects : ((rule .disabled).run root none).outcome.toOption.map
      (fun found => found.map (·.subject)) = some [some "p"] := by decide +kernel
  rw [hfindings] at hsubjects
  exact Option.some.inj hsubjects

/-- In the last column the undocumented parameter is not reported. -/
theorem last_column_is_not_reported :
    let root := scriptAt 18446744073709551615
    let outcome := ((rule .disabled).run root none).outcome
    (functionsIn root).map (fun f => (f.extent.startColumn, namesDeclaredIn f, documentedKeys f)) =
      [(18446744073709551615, ["p"], [])] ∧
    outcome = .error .overflow ∧
    ¬ ∃ findings answers, outcome = .ok findings ∧ ReportsAll none (functionsIn root) answers findings := by
  intro root outcome
  have houtcome : outcome = .error .overflow := by decide +kernel
  refine ⟨?_, houtcome, ?_⟩
  · simp only [← functions_eq, ← declaredNames_eq]
    decide +kernel
  · rintro ⟨findings, -, hfindings, -⟩
    rw [houtcome] at hfindings
    cases hfindings

end HelpAudit.ParameterDocumentation
