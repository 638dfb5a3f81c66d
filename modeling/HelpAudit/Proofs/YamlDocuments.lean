import HelpAudit.Proofs.YamlValues

/-! Documents in YAML. Lists and maps are read back when their parts are: the items of a list stand in the
    column of its key, and reading the entries of a map comes upon each of them and goes on behind it
    (`ComesUpon`). Main statement: `ofText?_render`, by which the value of the document of a configuration
    denotes the configuration. -/

namespace HelpAudit.Yaml

/-! ### Empty lists and maps -/

/-- A list or map written as its two marks alone. -/
theorem isReadBack_flow {tree : Json} {value : Yaml} {o c : Char}
    (hmarks : o = '[' ∧ c = ']' ∨ o = '\x7b' ∧ c = '\x7d')
    (hrender : ∀ indent alone, renderValue indent alone tree = [' ', o, c, '\n'])
    (hread : ∀ steps above line column fresh rest,
      simple (steps + 2) false above ⟨o :: c :: rest, line, column, fresh, []⟩ =
        some (value, ⟨rest, line, column + 2, false, []⟩))
    (hdenotes : DataFormat.yaml.Denotes tree value) : IsReadBack tree := by
  have hallowed : [' ', o, c, '\n'].all isAllowed = true := by
    obtain ⟨rfl, rfl⟩ | ⟨rfl, rfl⟩ := hmarks <;> rfl
  refine ⟨fun indent alone => by rw [hrender, hallowed], ?_⟩
  intro indent column behind alone rest h steps line hsteps
  rw [hrender] at hsteps
  obtain ⟨steps, rfl⟩ := Nat.exists_eq_add_of_le' (show 3 ≤ steps by simp at hsteps; omega)
  have hcolumn := h.indent_le
  have hstarts : StartsSimple (o :: c :: '\n' :: (List.replicate behind ' ' ++ rest)) := by
    obtain ⟨rfl, -⟩ | ⟨rfl, -⟩ := hmarks <;> constructor <;> simp [Stops, isBlank, isBreak, isMarker]
  have hstop : IsBehind ⟨'\n' :: (List.replicate behind ' ' ++ rest), line, column + 1 + 1 + 2, false, []⟩ behind
      rest := .inl ⟨_, _, rfl⟩
  refine ⟨value, _, ?_, hdenotes, hstop⟩
  rw [hrender]
  simp only [List.cons_append, List.nil_append]
  rw [skipFrom_blank hstarts.stops]
  exact blockValue_value hstarts (by omega) (hread steps _ line _ alone _) (hstop.colonAfter h.stops)

/-! ### Lists -/

section Lists

variable {rest : List Char} {indent column behind : Nat} {alone : Bool}

theorem blockValue_item (hbehind : behind ≤ indent) (hrest : Stops rest) (text : List Char) (steps line : Nat) :
    ∃ plain stop, blockValue (steps + 2) (indent + 1) false
        (((⟨'-' :: ' ' :: (renderScalar indent text ++ (List.replicate behind ' ' ++ rest)), line, indent, true,
          []⟩ : Cursor).advance 1 true).skip false) = some (.scalar text plain, stop) ∧
      IsBehind stop behind rest := by
  have hskip : ((⟨'-' :: ' ' :: (renderScalar indent text ++ (List.replicate behind ' ' ++ rest)), line, indent,
      true, []⟩ : Cursor).advance 1 true).skip false = _ :=
    skipFrom_blank (stops_renderScalar indent text _) true line (indent + 1)
  rw [hskip]
  exact blockValue_renderScalar (by omega) hbehind hrest text false true steps line

/-- An item and what follows the list. -/
theorem blockItems_last {steps line : Nat} {cursor stop : Cursor} {value : Yaml}
    (hrest : Follows indent behind rest)
    (hread : blockValue steps (indent + 1) false ((cursor.advance 1 true).skip false) = some (value, stop))
    (hskip : stop.skip false = ⟨rest, line, behind, true, []⟩) :
    blockItems (steps + 1) indent true cursor = some ([value], ⟨rest, line, behind, true, []⟩) := by
  have hmark : Cursor.atMark '-' ⟨rest, line, behind, true, []⟩ = false := by
    cases rest with
    | nil => rfl
    | cons c tail =>
      simp only [Cursor.atMark, Bool.and_eq_false_iff, decide_eq_false_iff_not]
      by_cases hc : c = '-'
      · exact .inr (hrest.noItem tail (by rw [hc]))
      · exact .inl hc
  simp only [blockItems, hread, hskip, Option.bind_eq_bind, Option.bind_some, hmark]
  split
  · rfl
  · simp [Nat.not_lt.mpr hrest.behind_le]

/-- An item and those that follow it. -/
theorem blockItems_next {steps line : Nat} {cursor stop stop₁ : Cursor} {value : Yaml} {values : List Yaml}
    {tail : List Char}
    (hread : blockValue steps (indent + 1) false ((cursor.advance 1 true).skip false) = some (value, stop))
    (hskip : stop.skip false = ⟨'-' :: ' ' :: tail, line, indent, true, []⟩)
    (hitems : blockItems steps indent true ⟨'-' :: ' ' :: tail, line, indent, true, []⟩ = some (values, stop₁)) :
    blockItems (steps + 1) indent true cursor = some (value :: values, stop₁) := by
  simp [blockItems, hread, hskip, Cursor.atEnd, Cursor.atMark, isMarker, blankNext, isBlank, hitems]

theorem stops_dash (tail : List Char) : Stops ('-' :: tail) := by
  rintro c ⟨⟩
  simp [isBlank, isBreak]

/-- The items of a list of texts are read back. -/
theorem blockItems_strings (hrest : Follows indent behind rest) (text : String) (texts : List String) {steps : Nat}
    (hsteps : 2 * (renderItems indent ((text :: texts).map .str)).length ≤ steps) (line : Nat) :
    ∃ values stop, blockItems steps indent true ⟨'-' :: ' ' :: (renderScalar indent text.toList ++
        (renderItems indent (texts.map .str) ++ (List.replicate behind ' ' ++ rest))), line, indent, true, []⟩ =
      some (values, stop) ∧ DataFormat.yaml.DenotesItems ((text :: texts).map .str) values ∧
      IsBehind stop behind rest := by
  induction texts generalizing text steps line with
  | nil =>
    simp only [List.map_cons, renderItems, renderValue, List.length_append, List.length_cons] at hsteps
    obtain ⟨steps, rfl⟩ := Nat.exists_eq_add_of_le' (show 3 ≤ steps by omega)
    obtain ⟨plain, stop, hread, hstop⟩ := blockValue_item hrest.behind_le hrest.stops text.toList steps line
    obtain ⟨line₁, hskip⟩ := hstop.skip hrest.stops
    exact ⟨[.scalar text.toList plain], _, blockItems_last hrest hread hskip,
      ⟨congrArg some String.ofList_toList, trivial⟩, .inr ⟨line₁, rfl⟩⟩
  | cons next texts ih =>
    simp only [List.map_cons, renderItems, renderValue, List.length_append, List.length_cons] at hsteps ih
    obtain ⟨steps, rfl⟩ := Nat.exists_eq_add_of_le' (show 3 ≤ steps by omega)
    obtain ⟨plain, stop, hread, hstop⟩ :=
      blockValue_item (Nat.le_refl indent) (stops_dash (' ' :: _)) text.toList steps line
    obtain ⟨line₁, hskip⟩ := hstop.skip (stops_dash _)
    obtain ⟨values, stop₁, hitems, hvalues, hstop₁⟩ := ih next (show _ ≤ steps + 2 by omega) line₁
    refine ⟨.scalar text.toList plain :: values, stop₁, ?_, ⟨congrArg some String.ofList_toList, hvalues⟩, hstop₁⟩
    simpa [renderItems, renderValue, indentation] using blockItems_next hread hskip hitems

theorem blockValue_items {steps line : Nat} {tail : List Char} {values : List Yaml} {stop : Cursor}
    (h : blockItems steps indent true ⟨'-' :: ' ' :: tail, line, indent, true, []⟩ = some (values, stop)) :
    blockValue (steps + 1) (indent + 1) true ⟨'-' :: ' ' :: tail, line, indent, true, []⟩ =
      some (.seq values, stop) := by
  simp [blockValue, Cursor.atEnd, Cursor.atMark, isMarker, blankNext, isBlank, Cursor.named, h]

theorem all_renderItems (indent : Nat) (texts : List String) :
    (renderItems indent (texts.map .str)).all isAllowed = true := by
  have hdash : isAllowed '-' = true := rfl
  induction texts with
  | nil => rfl
  | cons text texts ih =>
    rw [List.map_cons, renderItems, List.all_append, List.all_append, List.all_cons, indentation, all_indentation,
      hdash, (isReadBack_str text).allowed, ih]
    rfl

theorem isReadBack_strings (texts : List String) : IsReadBack (.strings texts) := by
  cases texts with
  | nil =>
    have hdenotes : DataFormat.yaml.Denotes (.strings []) (.seq []) := ⟨[], rfl, trivial⟩
    have hrender : ∀ indent alone, renderValue indent alone (.strings []) = [' ', '[', ']', '\n'] := fun _ _ => rfl
    refine isReadBack_flow (.inl ⟨rfl, rfl⟩) hrender (fun steps above line column fresh rest => ?_) hdenotes
    simp [simple, flowItems, Cursor.advance, Cursor.skip, skipFrom, isBreak, Cursor.atEnd, isMarker, Cursor.isAt]
  | cons text texts =>
    have hline : isAllowed '\n' = true := rfl
    have hallowed : ∀ indent alone, (renderValue indent alone (.strings (text :: texts))).all isAllowed = true := by
      intro indent alone
      rw [Json.strings, renderValue, if_neg (by simp), List.all_cons, hline, all_renderItems]
      rfl
    refine ⟨hallowed, ?_⟩
    intro indent column behind alone rest h steps line hsteps
    rw [Json.strings, renderValue, if_neg (by simp), List.length_cons] at hsteps
    obtain ⟨steps, rfl⟩ := Nat.exists_eq_add_of_le' (show 1 ≤ steps by omega)
    obtain ⟨values, stop, hitems, hvalues, hstop⟩ := blockItems_strings h.toFollows text texts
      (show _ ≤ steps by omega) (line + 1)
    refine ⟨.seq values, stop, ?_, ⟨values, rfl, hvalues⟩, hstop⟩
    have hskip := fun tail => skipFrom_line alone line (column + 1) indent (stops_dash tail)
    simpa [Json.strings, renderValue, renderItems, indentation, hskip] using blockValue_items hitems

end Lists

/-! ### Keys -/

section Keys

variable {tail : List Char} {indent above : Nat}

theorem exists_head_renderValue (indent : Nat) (alone : Bool) (tree : Json) :
    ∃ c tail, renderValue indent alone tree = c :: tail ∧ (c = ' ' ∨ c = '\n') := by
  cases tree with
  | arr items =>
    rw [renderValue]
    split
    · exact ⟨' ', _, rfl, .inl rfl⟩
    · exact ⟨'\n', _, rfl, .inr rfl⟩
  | obj members =>
    rw [renderValue]
    split
    · exact ⟨' ', _, rfl, .inl rfl⟩
    · refine ⟨_, _, rfl, ?_⟩
      cases alone <;> simp
  | _ => exact ⟨' ', _, rfl, .inl rfl⟩

theorem blankNext_renderValue (indent : Nat) (alone : Bool) (tree : Json) (follow : List Char) :
    blankNext (renderValue indent alone tree ++ follow) = true := by
  obtain ⟨c, tail, heq, hc⟩ := exists_head_renderValue indent alone tree
  rw [heq, List.cons_append]
  rcases hc with rfl | rfl <;> rfl

theorem stops_colon (tail : List Char) : Stops (':' :: tail) := by
  rintro c ⟨⟩
  simp [isBlank, isBreak]

theorem colonAfter_colon (h : blankNext tail = true) (line column : Nat) :
    colonAfter ⟨':' :: tail, line, column, false, []⟩ = some ⟨':' :: tail, line, column, false, []⟩ := by
  have hskip := skipFrom_stop (stops_colon tail) false line column
  simp [colonAfter, Cursor.skip, hskip, Cursor.atMark, h]

theorem startsSimple_keyText (indent : Nat) (name tail : List Char) :
    StartsSimple (keyText indent name ++ ':' :: tail) :=
  startsSimple_render (style_of_key name) indent (by simp)

theorem canBeKey_keyText {name : List Char} (hname : isSimpleKey name = true) (indent line column : Nat)
    (tail : List Char) :
    Cursor.canBeKey ⟨keyText indent name ++ ':' :: tail, line, column, true, []⟩
      ⟨':' :: tail, line, column + (keyText indent name).length, false, []⟩ = true := by
  have hlength := length_keyText_le hname indent
  simp [Cursor.canBeKey, hlength]

theorem blockEntries_keyText {name : List Char} (hname : isSimpleKey name = true) (htail : blankNext tail = true)
    (steps line : Nat) :
    blockEntries (steps + 2) indent ⟨keyText indent name ++ ':' :: tail, line, indent, true, []⟩ =
      blockAfterKey (steps + 1) indent (.scalar name (ScalarStyle.of true name = .plain))
        ⟨':' :: tail, line, indent + (keyText indent name).length, false, []⟩ := by
  have hstarts := startsSimple_keyText indent name tail
  have hkey := simple_keyText hname (Nat.le_refl (indent + 1)) htail indent steps line true
  simp [blockEntries, hstarts.atMark, hstarts.properties, hkey, colonAfter_colon htail,
    canBeKey_keyText hname indent line indent tail, Cursor.named]

theorem blockValue_keyText {name : List Char} (hname : isSimpleKey name = true) (htail : blankNext tail = true)
    (habove : above ≤ indent) (inMap : Bool) (steps line : Nat) :
    blockValue (steps + 2) above inMap ⟨keyText indent name ++ ':' :: tail, line, indent, true, []⟩ =
      (blockEntries (steps + 2) indent ⟨keyText indent name ++ ':' :: tail, line, indent, true, []⟩).map
        fun found => (.map found.1, found.2) := by
  have hkey := simple_keyText hname (Nat.le_succ_of_le habove) htail indent steps line true
  rw [blockEntries_keyText hname htail]
  exact blockValue_key (startsSimple_keyText indent name tail) habove hkey (colonAfter_colon htail _ _)
    (canBeKey_keyText hname indent line indent tail)

theorem blockValue_mark (habove : above ≤ indent) (inMap : Bool) (steps line : Nat) (tail : List Char) :
    blockValue (steps + 1) above inMap ⟨'?' :: ' ' :: tail, line, indent, true, []⟩ =
      (blockEntries steps indent ⟨'?' :: ' ' :: tail, line, indent, true, []⟩).map
        fun found => (.map found.1, found.2) := by
  have hinside : ¬ indent < above := Nat.not_lt.mpr habove
  have hproperties : properties false ⟨'?' :: ' ' :: tail, line, indent, true, []⟩ = some ({}, _) :=
    properties_of_head (by simp)
  have hend : Cursor.atEnd ⟨'?' :: ' ' :: tail, line, indent, true, []⟩ = false := by simp [Cursor.atEnd, isMarker]
  have hitem : Cursor.atMark '-' ⟨'?' :: ' ' :: tail, line, indent, true, []⟩ = false := rfl
  have hmark : Cursor.atMark '?' ⟨'?' :: ' ' :: tail, line, indent, true, []⟩ = true := rfl
  simp only [blockValue, hend, hinside, hproperties, hitem, hmark, Cursor.named, decide_false, Bool.or_self,
    Bool.false_and, Bool.not_true, Bool.false_eq_true, if_false, if_true, Option.bind_eq_bind, Option.bind_some,
    Option.map_eq_bind]
  rfl

/-- An entry whose key stands behind a question mark. -/
theorem blockEntries_mark {steps line line₁ : Nat} {text : List Char} {key value : Yaml} {stop stop₁ : Cursor}
    (htail : blankNext tail = true)
    (hkey : blockValue steps (indent + 1) true (skipFrom false [] true false line (indent + 1) (' ' :: text)) =
      some (key, stop))
    (hskip : stop.skip false = ⟨':' :: tail, line₁, indent, true, []⟩)
    (hvalue : blockValue steps (indent + 1) true (skipFrom false [] true false line₁ (indent + 1) tail) =
      some (value, stop₁)) :
    blockEntries (steps + 1) indent ⟨'?' :: ' ' :: text, line, indent, true, []⟩ =
      blockRest steps indent (key, value) stop₁ := by
  have hat : Cursor.atMark '?' ⟨'?' :: ' ' :: text, line, indent, true, []⟩ = true := rfl
  have hcolon : Cursor.atMark ':' ⟨':' :: tail, line₁, indent, true, []⟩ = true := by simp [Cursor.atMark, htail]
  have hend : Cursor.atEnd ⟨':' :: tail, line₁, indent, true, []⟩ = false := by simp [Cursor.atEnd, isMarker]
  rw [blockEntries, if_pos hat]
  simp only [Cursor.advance, Cursor.skip] at hskip ⊢
  simp [hkey, hskip, hend, hcolon, hvalue]

end Keys

/-! ### Entries -/

section Entries

variable {rest : List Char} {indent behind : Nat}

/-- Reading entries comes upon one with the name and the tree, and goes on behind it. -/
def ComesUpon (steps : Nat) (cursor : Cursor) (name : String) (tree : Json) (indent behind : Nat)
    (rest : List Char) : Prop :=
  ∃ key value stop more, text? key = some name ∧ DataFormat.yaml.Denotes tree value ∧ IsBehind stop behind rest ∧
    steps ≤ more + 2 ∧ blockEntries steps indent cursor = blockRest more indent (key, value) stop

theorem comesUpon_keyText {tree : Json} (htree : IsReadBack tree) (hrest : Follows indent behind rest) {name : String}
    (hname : isSimpleKey name.toList = true) {steps : Nat}
    (hsteps : 2 * (renderValue indent false tree).length + 2 ≤ steps) (line : Nat) :
    ComesUpon steps ⟨keyText indent name.toList ++ ':' :: (renderValue indent false tree ++
      (List.replicate behind ' ' ++ rest)), line, indent, true, []⟩ name tree indent behind rest := by
  obtain ⟨steps, rfl⟩ := Nat.exists_eq_add_of_le' (show 2 ≤ steps by omega)
  have hentry : IsEntry indent (indent + (keyText indent name.toList).length) behind false rest :=
    ⟨hrest, Nat.le_add_right _ _, by simp⟩
  obtain ⟨value, stop, hread, hdenotes, hstop⟩ := htree.read hentry steps line (by omega)
  refine ⟨.scalar name.toList (ScalarStyle.of true name.toList = .plain), value, stop, steps,
    congrArg some String.ofList_toList, hdenotes, hstop, Nat.le_refl _, ?_⟩
  rw [blockEntries_keyText hname (blankNext_renderValue indent false tree _)]
  simp only [blockAfterKey, Cursor.advance, Cursor.skip, List.drop_succ_cons, List.drop_zero, hread]
  rfl

theorem comesUpon_mark {tree : Json} (htree : IsReadBack tree) (hrest : Follows indent behind rest) (name : String)
    {steps : Nat} (hsteps : 2 * (renderValue indent true tree).length + 3 ≤ steps) (line : Nat) :
    ComesUpon steps ⟨'?' :: ' ' :: (renderScalar indent name.toList ++ (List.replicate indent ' ' ++ ':' ::
      (renderValue indent true tree ++ (List.replicate behind ' ' ++ rest)))), line, indent, true, []⟩ name tree
      indent behind rest := by
  obtain ⟨steps, rfl⟩ := Nat.exists_eq_add_of_le' (show 3 ≤ steps by omega)
  obtain ⟨plain, stop, hkey, hstop⟩ := blockValue_renderScalar (show indent < indent + 1 + 1 by omega)
    (Nat.le_refl indent) (stops_colon (renderValue indent true tree ++ (List.replicate behind ' ' ++ rest)))
    name.toList true true steps line
  rw [← skipFrom_blank (stops_renderScalar indent name.toList _)] at hkey
  obtain ⟨line₁, hskip⟩ := hstop.skip (stops_colon _)
  have hentry : IsEntry indent indent behind true rest := ⟨hrest, Nat.le_refl _, fun _ => rfl⟩
  obtain ⟨value, stop₁, hread, hdenotes, hstop₁⟩ := htree.read hentry (steps + 2) line₁ (by omega)
  exact ⟨.scalar name.toList plain, value, stop₁, steps + 2, congrArg some String.ofList_toList, hdenotes, hstop₁,
    by omega, blockEntries_mark (blankNext_renderValue indent true tree _) hkey hskip hread⟩

theorem blockRest_last {steps line : Nat} {entry : Yaml × Yaml} {stop : Cursor} (h : behind < indent ∨ rest = [])
    (hskip : stop.skip false = ⟨rest, line, behind, true, []⟩) :
    blockRest (steps + 1) indent entry stop = some ([entry], ⟨rest, line, behind, true, []⟩) := by
  have hend : (Cursor.atEnd ⟨rest, line, behind, true, []⟩ || decide (behind < indent)) = true := by
    rcases h with hlt | rfl
    · simp [hlt]
    · simp [Cursor.atEnd]
  simp [blockRest, hskip, hend]

theorem blockRest_next {steps line : Nat} {entry : Yaml × Yaml} {entries : List (Yaml × Yaml)} {stop stop₁ : Cursor}
    {text : List Char} (hskip : stop.skip false = ⟨text, line, indent, true, []⟩)
    (hend : Cursor.atEnd ⟨text, line, indent, true, []⟩ = false)
    (h : blockEntries steps indent ⟨text, line, indent, true, []⟩ = some (entries, stop₁)) :
    blockRest (steps + 1) indent entry stop = some (entry :: entries, stop₁) := by
  simp [blockRest, hskip, hend, h]

/-! ### Maps -/

section Render

variable {name : String} (tree : Json) (members : List (String × Json)) (indent : Nat) (follow : List Char)

theorem renderMembers_simple (hname : isSimpleKey name.toList = true) :
    renderMembers indent false ((name, tree) :: members) ++ follow =
      keyText indent name.toList ++ ':' :: (renderValue indent false tree ++
        (renderMembers indent true members ++ follow)) := by
  simp [renderMembers, renderKey, hname, keyText]

theorem renderMembers_mark (hname : isSimpleKey name.toList = false) :
    renderMembers indent false ((name, tree) :: members) ++ follow =
      '?' :: ' ' :: (renderScalar indent name.toList ++ (List.replicate indent ' ' ++ ':' ::
        (renderValue indent true tree ++ (renderMembers indent true members ++ follow)))) := by
  simp [renderMembers, renderKey, hname, indentation]

theorem renderMembers_line (member : String × Json) :
    renderMembers indent true (member :: members) =
      List.replicate indent ' ' ++ renderMembers indent false (member :: members) := by
  simp [renderMembers, indentation]

end Render

theorem length_renderMembers_cons (member : String × Json) (members : List (String × Json)) (indent : Nat) :
    (renderMembers indent true members).length + 2 ≤ (renderMembers indent false (member :: members)).length := by
  obtain ⟨c, tail, hvalue, -⟩ := exists_head_renderValue indent (!isSimpleKey member.1.toList) member.2
  have hkey : 1 ≤ (renderKey indent member.1.toList).length := by
    rw [renderKey]
    split <;> simp
  simp only [renderMembers, Bool.false_eq_true, if_false, List.length_append, List.length_nil, hvalue,
    List.length_cons]
  omega

/-- Entries follow one in the same column. -/
theorem follows_members (member : String × Json) (members : List (String × Json)) (indent : Nat)
    (follow : List Char) :
    Follows indent indent (renderMembers indent false (member :: members) ++ follow) ∧
      ∀ line, Cursor.atEnd ⟨renderMembers indent false (member :: members) ++ follow, line, indent, true, []⟩ =
        false := by
  obtain ⟨name, tree⟩ := member
  cases hname : isSimpleKey name.toList with
  | true =>
    rw [renderMembers_simple tree members indent follow hname]
    have hstarts := startsSimple_keyText indent name.toList
      (renderValue indent false tree ++ (renderMembers indent true members ++ follow))
    exact ⟨⟨Nat.le_refl _, hstarts.stops, fun tail heq => hstarts.mark '-' tail heq (.inl rfl)⟩,
      fun line => hstarts.atEnd⟩
  | false =>
    rw [renderMembers_mark tree members indent follow hname]
    refine ⟨⟨Nat.le_refl _, ?_, by simp⟩, fun line => by simp [Cursor.atEnd, isMarker]⟩
    rintro c ⟨⟩
    simp [isBlank, isBreak]

/-- An entry is come upon, whatever its name. -/
theorem comesUpon_member {name : String} {tree : Json} (htree : IsReadBack tree) (hrest : Follows indent behind rest)
    (members : List (String × Json)) {follow : List Char}
    (hfollow : renderMembers indent true members ++ follow = List.replicate behind ' ' ++ rest) {steps : Nat}
    (hsteps : 2 * (renderMembers indent false ((name, tree) :: members)).length ≤ steps) (line : Nat) :
    ComesUpon steps ⟨renderMembers indent false ((name, tree) :: members) ++ follow, line, indent, true, []⟩ name
      tree indent behind rest := by
  cases hname : isSimpleKey name.toList with
  | true =>
    have hrender := renderMembers_simple tree members indent follow hname
    have hlength := congrArg List.length hrender
    simp only [List.length_append, List.length_cons] at hlength
    rw [hrender, hfollow]
    exact comesUpon_keyText htree hrest hname (by omega) line
  | false =>
    have hrender := renderMembers_mark tree members indent follow hname
    have hlength := congrArg List.length hrender
    simp only [List.length_append, List.length_cons] at hlength
    rw [hrender, hfollow]
    exact comesUpon_mark htree hrest name (by omega) line

theorem entries?_cons {key value : Yaml} {name : String} {entries : List (Yaml × Yaml)} {found : List (String × Yaml)}
    (hkey : text? key = some name) (h : entries? (.map entries) = some found) :
    entries? (.map ((key, value) :: entries)) = some ((name, value) :: found) := by
  simp only [entries?] at h ⊢
  simp [List.mapM_cons, hkey, h]

/-- The entries of a map are read back one after the other. -/
theorem blockEntries_members (hrest : Follows indent behind rest) (hlast : behind < indent ∨ rest = [])
    (member : String × Json) (members : List (String × Json))
    (hread : ∀ m ∈ member :: members, IsReadBack m.2) {steps : Nat}
    (hsteps : 2 * (renderMembers indent false (member :: members)).length ≤ steps) (line : Nat) :
    ∃ entries found stop, blockEntries steps indent
        ⟨renderMembers indent false (member :: members) ++ (List.replicate behind ' ' ++ rest), line, indent, true,
          []⟩ = some (entries, stop) ∧ entries? (.map entries) = some found ∧
      DataFormat.yaml.DenotesMembers (member :: members) found ∧ IsBehind stop behind rest := by
  induction members generalizing member steps line with
  | nil =>
    have hlength := length_renderMembers_cons member [] indent
    obtain ⟨key, value, stop, more, hkey, hvalue, hstop, hmore, heq⟩ := comesUpon_member
      (hread member List.mem_cons_self) hrest [] (List.nil_append (List.replicate behind ' ' ++ rest)) hsteps line
    obtain ⟨line₁, hskip⟩ := hstop.skip hrest.stops
    obtain ⟨more, rfl⟩ := Nat.exists_eq_add_of_le' (show 1 ≤ more by omega)
    exact ⟨[(key, value)], [(member.1, value)], _, heq.trans (blockRest_last hlast hskip), entries?_cons hkey rfl,
      ⟨rfl, hvalue, trivial⟩, .inr ⟨line₁, rfl⟩⟩
  | cons next members ih =>
    obtain ⟨hnext, hend⟩ := follows_members next members indent (List.replicate behind ' ' ++ rest)
    have hline : renderMembers indent true (next :: members) ++ (List.replicate behind ' ' ++ rest) =
        List.replicate indent ' ' ++ (renderMembers indent false (next :: members) ++
          (List.replicate behind ' ' ++ rest)) := by
      rw [renderMembers_line, List.append_assoc]
    obtain ⟨key, value, stop, more, hkey, hvalue, hstop, hmore, heq⟩ :=
      comesUpon_member (hread member List.mem_cons_self) hnext (next :: members) hline hsteps line
    obtain ⟨line₁, hskip⟩ := hstop.skip hnext.stops
    have hlength := length_renderMembers_cons member (next :: members) indent
    rw [renderMembers_line, List.length_append] at hlength
    obtain ⟨more, rfl⟩ := Nat.exists_eq_add_of_le' (show 1 ≤ more by omega)
    obtain ⟨entries, found, stop₁, hentries, hfound, hdenotes, hstop₁⟩ := ih next
      (fun m hm => hread m (List.mem_cons_of_mem member hm)) (show _ ≤ more by omega) line₁
    exact ⟨(key, value) :: entries, (member.1, value) :: found, stop₁,
      heq.trans (blockRest_next hskip (hend line₁) hentries), entries?_cons hkey hfound, ⟨rfl, hvalue, hdenotes⟩, hstop₁⟩

/-- With different names, each field is found once. -/
theorem field?_of_nodup {found : List (String × Yaml)} (h : (found.map (·.1)).Nodup) (name : String) :
    field? name found = some (found.lookup name) := by
  have hnone : ∀ {others : List (String × Yaml)}, name ∉ others.map (·.1) →
      others.filter (·.1 = name) = [] := by
    intro others hname
    rw [List.filter_eq_nil_iff]
    intro entry hentry heq
    exact hname (List.mem_map.mpr ⟨entry, hentry, by simpa using heq⟩)
  induction found with
  | nil => rfl
  | cons entry found ih =>
    obtain ⟨key, value⟩ := entry
    rw [List.map_cons, List.nodup_cons] at h
    by_cases hkey : key = name
    · subst hkey
      simp [field?, hnone h.1]
    · have hother : (name == key) = false := by simpa using Ne.symm hkey
      have hread := ih h.2
      simp only [field?] at hread ⊢
      simp [hkey, List.lookup_cons, hother, hread]

theorem denotes_map {entries : List (Yaml × Yaml)} {found : List (String × Yaml)} {members : List (String × Json)}
    (hentries : entries? (.map entries) = some found) (hmembers : DataFormat.yaml.DenotesMembers members found)
    (hnames : (members.map (·.1)).Nodup) : DataFormat.yaml.Denotes (.obj members) (.map entries) := by
  rw [← hmembers.names] at hnames
  have hfields : (field? · found) = fun name => some (found.lookup name) := funext (field?_of_nodup hnames)
  have hrecord : ∀ names, record? names (.map entries) = some (names.map (found.lookup ·)) := by
    intro names
    simp only [record?, hentries, Option.bind_eq_bind, Option.bind_some, hfields]
    exact List.mapM_pure
  exact ⟨found, hentries, hrecord, hmembers⟩

/-- A map of several lines is read back. -/
theorem blockValue_members {above : Nat} (habove : above ≤ indent) (hrest : Follows indent behind rest)
    (hlast : behind < indent ∨ rest = []) {member : String × Json} {members : List (String × Json)}
    (hread : ∀ m ∈ member :: members, IsReadBack m.2) (hnames : ((member :: members).map (·.1)).Nodup) {steps : Nat}
    (hsteps : 2 * (renderMembers indent false (member :: members)).length < steps) (inMap : Bool) (line : Nat) :
    ∃ value stop, blockValue steps above inMap
        ⟨renderMembers indent false (member :: members) ++ (List.replicate behind ' ' ++ rest), line, indent, true,
          []⟩ = some (value, stop) ∧
      DataFormat.yaml.Denotes (.obj (member :: members)) value ∧ IsBehind stop behind rest := by
  have hlength := length_renderMembers_cons member members indent
  obtain ⟨steps, rfl⟩ := Nat.exists_eq_add_of_le' (show 2 ≤ steps by omega)
  obtain ⟨name, tree⟩ := member
  cases hname : isSimpleKey name.toList with
  | true =>
    obtain ⟨entries, found, stop, hentries, hfound, hmembers, hstop⟩ := blockEntries_members hrest hlast (name, tree)
      members hread (show _ ≤ steps + 2 by omega) line
    refine ⟨.map entries, stop, ?_, denotes_map hfound hmembers hnames, hstop⟩
    rw [renderMembers_simple tree members indent _ hname] at hentries ⊢
    rw [blockValue_keyText hname (blankNext_renderValue indent false tree _) habove, hentries]
    rfl
  | false =>
    obtain ⟨entries, found, stop, hentries, hfound, hmembers, hstop⟩ := blockEntries_members hrest hlast (name, tree)
      members hread (show _ ≤ steps + 1 by omega) line
    refine ⟨.map entries, stop, ?_, denotes_map hfound hmembers hnames, hstop⟩
    rw [renderMembers_mark tree members indent _ hname] at hentries ⊢
    rw [blockValue_mark habove, hentries]
    rfl

theorem all_renderMembers {members : List (String × Json)} (hread : ∀ m ∈ members, IsReadBack m.2) (indent : Nat)
    (startsLine : Bool) : (renderMembers indent startsLine members).all isAllowed = true := by
  induction members generalizing startsLine with
  | nil => rfl
  | cons member members ih =>
    have hmembers := ih fun m hm => hread m (List.mem_cons_of_mem member hm)
    have hspace : (if startsLine then indentation indent else []).all isAllowed = true := by
      split
      · exact all_indentation indent
      · rfl
    rw [renderMembers, List.all_append, List.all_append, List.all_append, hspace, all_renderKey,
      (hread member List.mem_cons_self).allowed, hmembers]
    rfl

/-- An object is read back if its members are and have different names. -/
theorem isReadBack_obj {members : List (String × Json)} (hread : ∀ m ∈ members, IsReadBack m.2)
    (hnames : (members.map (·.1)).Nodup) : IsReadBack (.obj members) := by
  cases members with
  | nil =>
    have hdenotes : DataFormat.yaml.Denotes (.obj []) (.map []) :=
      denotes_map (show entries? (.map []) = some [] from rfl) trivial List.nodup_nil
    have hrender : ∀ indent alone, renderValue indent alone (.obj []) = [' ', '\x7b', '\x7d', '\n'] := fun _ _ => rfl
    refine isReadBack_flow (.inr ⟨rfl, rfl⟩) hrender (fun steps above line column fresh rest => ?_) hdenotes
    simp [simple, flowEntries, Cursor.advance, Cursor.skip, skipFrom, isBreak, Cursor.atEnd, isMarker, Cursor.isAt]
  | cons member members =>
    have hfirst : ∀ alone : Bool, isAllowed (if alone then ' ' else '\n') = true := by decide
    have hallowed : ∀ indent alone, (renderValue indent alone (.obj (member :: members))).all isAllowed = true := by
      intro indent alone
      rw [renderValue, if_neg (by simp), List.all_cons, hfirst, all_renderMembers hread]
      rfl
    refine ⟨hallowed, ?_⟩
    intro indent column behind alone rest h steps line hsteps
    have hbehind := h.behind_le
    have hfollows : Follows (indent + 2) behind rest := ⟨by omega, h.stops, h.noItem⟩
    -- the members stand two columns deeper, on the next line or behind the mark of a key
    have hstops := (follows_members member members (indent + 2) (List.replicate behind ' ' ++ rest)).1.stops
    have hline := renderMembers_line members (indent + 2) member
    have hshort : 2 * (renderMembers (indent + 2) false (member :: members)).length < steps := by
      rw [renderValue, if_neg (by simp), List.length_cons] at hsteps
      cases alone with
      | true =>
        rw [Bool.not_true] at hsteps
        omega
      | false =>
        rw [Bool.not_false, hline, List.length_append] at hsteps
        omega
    have hvalue := blockValue_members (show indent + 1 ≤ indent + 2 by omega) hfollows (.inl (by omega)) hread
      hnames hshort true
    cases alone with
    | true =>
      obtain rfl := h.of_alone rfl
      simpa [renderValue, skipFrom_blank hstops] using hvalue line
    | false =>
      simpa [renderValue, hline, skipFrom_line false line (column + 1) (indent + 2) hstops] using hvalue (line + 1)

end Entries

/-! ### Documents -/

/-- A document that is one value from its first character to its end. -/
theorem ofText?_of_blockValue {chars : List Char} (hallowed : chars.all isAllowed = true) (hstops : Stops chars)
    (hend : Cursor.atEnd ⟨chars, 0, 0, true, []⟩ = false)
    (hfirst : ∀ c ∈ chars.head?, c ≠ '\ufeff' ∧ c ≠ '%') {value : Yaml} {stop : Cursor} {line : Nat}
    (hvalue : blockValue (8 * chars.length + 16) 0 false ⟨chars, 0, 0, true, []⟩ = some (value, stop))
    (hskip : stop.skip false = ⟨[], line, 0, true, []⟩) : ofText? (.ofList chars) = some value := by
  have hmark : ∀ rest, chars = '\ufeff' :: rest → False := by
    rintro rest rfl
    exact (hfirst _ rfl).1 rfl
  have hdirective : chars.head? ≠ some '%' := fun h => (hfirst _ h).2 rfl
  have hbegin : skipFrom false [] true false 0 0 chars = ⟨chars, 0, 0, true, []⟩ := skipFrom_stop hstops true 0 0
  have hstart : skipDirectives (8 * chars.length + 16) false { rest := chars } = some ⟨chars, 0, 0, true, []⟩ := by
    simp [skipDirectives, Cursor.skip, hbegin, Cursor.isAt, hdirective]
  have hfinished : isFinished (8 * chars.length + 16) stop = true := by
    simp [isFinished, hskip]
  simp only [Cursor.atEnd, Bool.or_eq_false_iff, decide_true, Bool.true_and] at hend
  have hne : chars ≠ [] := by simpa using hend.1
  simp [ofText?, hallowed, hstart, hne, hend.2, hvalue, hfinished]

/-- A document with the entries of a map is read back. -/
theorem ofText?_members {member : String × Json} {members : List (String × Json)}
    (hread : ∀ m ∈ member :: members, IsReadBack m.2) (hnames : ((member :: members).map (·.1)).Nodup)
    (hfirst : ∀ c ∈ (renderMembers 0 false (member :: members)).head?, c ≠ '\ufeff' ∧ c ≠ '%') :
    ∃ value, ofText? (render (member :: members)) = some value ∧
      DataFormat.yaml.Denotes (.obj (member :: members)) value := by
  have hline : renderMembers 0 true (member :: members) = renderMembers 0 false (member :: members) :=
    renderMembers_line members 0 member
  obtain ⟨hfollows, hend⟩ := follows_members member members 0 []
  have hrest : Follows 0 0 [] := ⟨Nat.le_refl _, by simp [Stops], by simp⟩
  obtain ⟨value, stop, hvalue, hdenotes, hstop⟩ := blockValue_members (Nat.le_refl 0) hrest (.inr rfl) hread hnames
    (show _ < 8 * (renderMembers 0 false (member :: members)).length + 16 by omega) false 0
  obtain ⟨line, hskip⟩ := hstop.skip hrest.stops
  simp only [List.replicate_zero, List.append_nil] at hfollows hend hvalue
  refine ⟨value, ?_, hdenotes⟩
  rw [render, hline]
  exact ofText?_of_blockValue (all_renderMembers hread 0 false) hfollows.stops (hend 0) hfirst hvalue hskip

/-! ### Configurations -/

open DataFormat in
theorem isReadBack_dynamic {dynamic : DynamicSettings} (h : dynamic.timeoutMs < Json.wordLimit) :
    IsReadBack (.obj (dynamicMembers dynamic)) := by
  refine isReadBack_obj ?_ (by simp [dynamicMembers])
  simp only [dynamicMembers, List.forall_mem_cons]
  exact ⟨isReadBack_bool _, isReadBack_str _, isReadBack_strings _, isReadBack_nat h, by simp⟩

open DataFormat in
theorem isReadBack_settings {config : Config} (h : config.NumbersBelow Json.wordLimit) :
    IsReadBack (.obj (settingsMembers config.settings)) := by
  have hcolors := isReadBack_bool config.settings.useColors
  have hdynamic := isReadBack_dynamic h.timeout
  rw [settingsMembers]
  cases hthreads : config.settings.threads with
  | none =>
    refine isReadBack_obj ?_ (by simp [Json.memberIfSome])
    simp only [Json.memberIfSome, Option.map_none, List.nil_append, List.forall_mem_cons]
    exact ⟨hcolors, hdynamic, by simp⟩
  | some n =>
    refine isReadBack_obj ?_ (by simp [Json.memberIfSome])
    simp only [Json.memberIfSome, Option.map_some, List.cons_append, List.nil_append, List.forall_mem_cons]
    exact ⟨isReadBack_nat (h.threads n hthreads), hcolors, hdynamic, by simp⟩

open DataFormat in
theorem isReadBack_rules {rules : List (String × RuleConfig)} (h : (rules.map (·.1)).Nodup) :
    IsReadBack (.obj (ruleMembers rules)) := by
  refine isReadBack_obj ?_ ?_
  · intro member hmember
    obtain ⟨rule, -, rfl⟩ := List.mem_map.mp hmember
    refine isReadBack_obj ?_ (by simp)
    simp only [List.forall_mem_cons]
    exact ⟨isReadBack_bool _, by simp⟩
  · simpa [ruleMembers, Function.comp_def] using h

/-- A configuration is read back from the document that is written for it. -/
theorem ofText?_render {config : Config} (h : config.NumbersBelow Json.wordLimit)
    (hrules : (config.rules.map (·.1)).Nodup) :
    ∃ value, ofText? (render config.members) = some value ∧
      DataFormat.yaml.Denotes (.obj config.members) value := by
  rw [DataFormat.members_eq]
  refine ofText?_members ?_ (by simp) ?_
  · simp only [List.forall_mem_cons]
    exact ⟨isReadBack_str _, isReadBack_settings h, isReadBack_rules hrules, by simp⟩
  · have hkey : renderKey 0 "version".toList = "version:".toList := by decide
    rw [renderMembers, hkey]
    rintro c ⟨⟩
    decide

end HelpAudit.Yaml
