import HelpAudit.Engine
import HelpAudit.Proofs.ReadNodes
import HelpAudit.Proofs.SourceRanges
import HelpAudit.Proofs.TreeJson

/-! Analyses of trees handed over as text. The numbers of a parsed tree count lines, columns and bytes
    of its source, so they have 64 bits when the source's size has. Such a tree comes back from its
    text as it was, its file's name included, and the rules see no difference. -/

namespace HelpAudit

open Json (wordLimit)

/-! ### Positions in a text -/

/-- Neither the line nor the column of a position exceeds the size of the text by more than one. -/
theorem Position.ofOffset_le (text : List Char) (offset : Nat) :
    (Position.ofOffset text offset).line ≤ Text.byteLength text + 1 ∧
      (Position.ofOffset text offset).column ≤ Text.byteLength text + 1 ∧
      (Position.ofOffset text offset).offset ≤ Text.byteLength text := by
  obtain ⟨before, after, start, hlongest, hstart, hposition⟩ := Position.exists_longestStart text offset
  have hmin := Nat.min_le_right offset (Text.byteLength text)
  have hfits := hlongest.fits
  have hfeeds : before.count '\n' ≤ before.length := List.count_le_length
  have hlength := Text.length_le_byteLength before
  have hline := Text.length_le_byteLength (Text.lastLine before)
  rw [hposition]
  refine ⟨by simp only; omega, ?_, hmin⟩
  dsimp only
  split <;> omega

theorem Extent.between_inWords {source : List Char} (hsize : Text.byteLength source + 1 < wordLimit)
    {e : Extent} {start stop : Nat} (hstart : e.start = Position.ofOffset source start)
    (hstop : e.stop = Position.ofOffset source stop) : e.InWords := by
  obtain ⟨hline, hcolumn, hoffset⟩ := Position.ofOffset_le source start
  obtain ⟨hline', hcolumn', hoffset'⟩ := Position.ofOffset_le source stop
  rw [← hstart] at hline hcolumn hoffset
  rw [← hstop] at hline' hcolumn' hoffset'
  simp only [Extent.start, Extent.stop] at hline hcolumn hoffset hline' hcolumn' hoffset'
  constructor <;> omega

/-! ### Parsed trees -/

theorem mem_of_mem_ite_append {a b : CommentGroup} {groups : List CommentGroup}
    (h : a ∈ if b ∈ groups then groups else groups ++ [b]) : a ∈ groups ∨ a = b := by
  split at h
  · exact .inl h
  · simpa using h

/-- A comment group of a function stands in front of it, or at an end of its body. -/
theorem mem_helpComments {script : Script} {before body : List Token} {group : CommentGroup}
    (h : group ∈ helpComments script before body) :
    (∃ back, trailingGroup? script back = some group) ∨ leadingGroup? script body = some group := by
  have hgroups : ∀ g ∈ (if newlineCount before.reverse ≤ 2 then
      (trailingGroup? script before.reverse).toList else []) ++ (leadingGroup? script body).toList,
      (∃ back, trailingGroup? script back = some g) ∨ leadingGroup? script body = some g := by
    intro g hg
    rcases List.mem_append.mp hg with hg | hg
    · split at hg
      · exact .inl ⟨_, Option.mem_toList.mp hg⟩
      · cases hg
    · exact .inr (Option.mem_toList.mp hg)
  rw [helpComments] at h
  -- the group at the end of the body is added unless it is one of the others
  cases hlast : trailingGroup? script body.reverse with
  | none =>
    rw [hlast] at h
    exact hgroups group h
  | some last =>
    rw [hlast] at h
    replace h := mem_of_mem_ite_append h
    rcases h with h | rfl
    · exact hgroups group h
    · exact .inl ⟨_, hlast⟩

/-- A comment group stands between two offsets of the script. -/
theorem helpComments_extent {script : Script} {before body : List Token} {group : CommentGroup}
    (h : group ∈ helpComments script before body) :
    ∃ start stop, group.extent = script.extent start stop := by
  rcases mem_helpComments h with ⟨back, h⟩ | h
  · obtain ⟨run, -, rfl⟩ := Option.map_eq_some_iff.mp h
    exact ⟨_, _, rfl⟩
  · obtain ⟨run, -, rfl⟩ := Option.map_eq_some_iff.mp h
    exact ⟨_, _, rfl⟩

theorem byteLength_withoutMark_le (source : String) :
    Text.byteLength (withoutMark source.toList) ≤ source.utf8ByteSize := by
  have hsize := Text.utf8ByteSize_ofList source.toList
  rw [String.ofList_toList] at hsize
  rw [hsize]
  unfold withoutMark
  split
  · rename_i heq
    rw [heq]
    exact Nat.le_add_left _ _
  · exact Nat.le_refl _

/-- The numbers of a parsed tree have 64 bits when the size of the source has. -/
theorem parse_inWords {source : String} {file : Option String} {root : ScriptBlock}
    (hsize : source.utf8ByteSize + 1 < wordLimit) (h : parse source file = .ok root) :
    (Node.scriptBlock root).InWords := by
  have hbytes := byteLength_withoutMark_le source
  have hsize : Text.byteLength (withoutMark source.toList) + 1 < wordLimit := by omega
  obtain ⟨tokens, htokens, hread⟩ := parse_eq_ok h
  have hlaid := ReadsBlock.laidOut_whole (tokenize_isPlaced file htokens) hread
  have hall := hread.allRead (List.suffix_refl _)
  have hextent : ∀ n ∈ (Node.scriptBlock root).preorder, n.extent.InWords := fun n hn =>
    Extent.between_inWords hsize (hlaid n hn).exact.start (hlaid n hn).exact.stop
  intro node hnode e he
  cases node with
  | functionDefinition f =>
    rcases List.mem_cons.mp he with rfl | he
    · exact hextent _ hnode
    -- the root is no function, so this one was read below it
    rw [Node.preorder_eq] at hnode
    rcases List.mem_cons.mp hnode with hroot | hnode
    · cases hroot
    obtain ⟨child, hchild, hmem⟩ := List.mem_flatMap.mp hnode
    obtain ⟨kind, keyword, ts, rest, -, -, hfunction⟩ := hall child hchild _ hmem
    cases hfunction with
    | mk =>
      obtain ⟨group, hgroup, rfl⟩ := List.mem_map.mp he
      obtain ⟨start, stop, hgroup⟩ := helpComments_extent hgroup
      exact Extent.between_inWords hsize (congrArg Extent.start hgroup) (congrArg Extent.stop hgroup)
  | _ =>
    obtain rfl := List.mem_singleton.mp he
    exact hextent _ hnode

theorem parse_file {source : String} {file : Option String} {root : ScriptBlock}
    (h : parse source file = .ok root) : root.extent.file = file := by
  obtain ⟨tokens, -, hread⟩ := parse_eq_ok h
  cases hread with
  | whole => rfl

/-! ### Analyses -/

/-- The text of a tree is read back as the tree when at most 127 arrays and objects are nested in it,
    and refused otherwise. So an analysis of the text of a parsed tree is the analysis of its source. -/
theorem tree_text_read_back :
    (∀ tree : ScriptBlock, (Node.scriptBlock tree).InWords →
      ∀ text ∈ [tree.toJson.compact, tree.toJson.pretty], ScriptBlock.ofText? text =
        if tree.toJson.nesting ≤ 127 then some (some tree) else none) ∧
    ∀ (engine : Engine) (clock : String → UInt64) (source : String) (file : Option String)
      (tree : ScriptBlock), source.utf8ByteSize + 1 < wordLimit → parse source file = .ok tree →
      tree.toJson.nesting ≤ 127 → ∀ text ∈ [tree.toJson.compact, tree.toJson.pretty],
        engine.analyzeTreeText clock text none = engine.analyzeSource clock source file := by
  refine ⟨fun tree => ScriptBlock.ofText?_written, ?_⟩
  intro engine clock source file tree hsize h hnesting text htext
  have hread := ScriptBlock.ofText?_written (parse_inWords hsize h) text htext
  rw [treeNesting, if_pos hnesting] at hread
  have hfile : ((none : Option String) <|> (some tree).bind (·.extent.file)) = file := parse_file h
  rw [Engine.analyzeTreeText, hread, Engine.analyzeSource, h]
  simp only [hfile]

/-- A function comes back from its text, and so does its analysis; 22 braces in one another are
    refused. -/
theorem tree_text_read_back_function :
    let source := "<# .SYNOPSIS #>function F($a = 'ü') \x7b $a \x7d"
    ∃ tree deep, parse source (some "f.ps1") = .ok tree ∧
      parse (.ofList (List.replicate 22 '\x7b' ++ List.replicate 22 '\x7d')) none = .ok deep ∧
      ScriptBlock.ofText? tree.toJson.pretty = some (some tree) ∧
      ScriptBlock.ofText? deep.toJson.compact = none ∧
      ∀ (engine : Engine) (clock : String → UInt64),
        engine.analyzeTreeText clock tree.toJson.compact none =
          engine.analyzeSource clock source (some "f.ps1") := by
  intro source
  obtain ⟨tree, htree, hshallow⟩ := exists_ok_of_any (x := parse source (some "f.ps1"))
    (p := fun tree => decide (tree.toJson.nesting ≤ 127)) (by decide +kernel)
  obtain ⟨deep, hdeep, hnesting⟩ := exists_ok_of_any
    (x := parse (.ofList (List.replicate 22 '\x7b' ++ List.replicate 22 '\x7d')) none)
    (p := fun tree => !decide (tree.toJson.nesting ≤ 127)) (by decide +kernel)
  have hsize : source.utf8ByteSize + 1 < wordLimit := by decide +kernel
  have hread := tree_text_read_back.1 tree (parse_inWords hsize htree) _
    (List.mem_cons_of_mem _ List.mem_cons_self)
  have hrefused := tree_text_read_back.1 deep (parse_inWords (by decide +kernel) hdeep) _
    List.mem_cons_self
  rw [if_pos (of_decide_eq_true hshallow)] at hread
  rw [if_neg (by simpa using hnesting)] at hrefused
  exact ⟨tree, deep, htree, hdeep, hread, hrefused, fun engine clock => tree_text_read_back.2 engine
    clock _ _ tree hsize htree (of_decide_eq_true hshallow) _ List.mem_cons_self⟩

end HelpAudit
